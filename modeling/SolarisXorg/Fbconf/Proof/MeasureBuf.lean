import SolarisXorg.Fbconf.MeasureBuf

/-!
# Writing past the white space buffer

A field's string is stored behind those of the fields before it (`storeField_spec`), but it is only
compared with the length of the buffer. So the second string of a line can be written past the end:
`measureBuf_isSome_iff` says for which lines it is, and `measureBuf_overruns` shows one.
-/

namespace Fbc

open Lib

variable {buf : List UInt8} {ptr : Nat} {char : UInt8} {count : Int32} {line : List UInt8}

/-! ## A field -/

theorem toSize_of_nonneg (h : 0 ≤ count.toInt) : (toSize count : Int) = count.toInt := by
  have hlt := count.toInt_lt
  rw [toSize]
  omega

theorem toSize_of_neg (h : count.toInt < 0) : 2 ^ 63 ≤ toSize count := by
  have hle := count.le_toInt
  rw [toSize]
  omega

theorem toSize_ofNat {n : Nat} (h : n < 2 ^ 31) : toSize (Int32.ofNat n) = n := by
  have hn : (Int32.ofNat n).toInt = n := Int32.toInt_ofNat_of_lt h
  rw [toSize, hn]
  omega

theorem take_blanks (line : List UInt8) :
    line.take (line.takeWhile isBlank).length = line.takeWhile isBlank :=
  (List.prefix_iff_eq_take.1 (List.takeWhile_prefix isBlank)).symm

/-- The three stores of a field. -/
theorem storeField_eq (h : (line.takeWhile isBlank).length < 2 ^ 31) :
    storeField buf ptr char count (line.takeWhile isBlank) line =
      (storeEach buf ptr (List.replicate (toSize count) char)).bind fun buf =>
        (storeEach buf (ptr + toSize count : Nat) (line.takeWhile isBlank)).bind fun buf =>
          (store buf (ptr + toSize count + (line.takeWhile isBlank).length : Nat) 0).bind fun buf =>
            some (buf, ptr + toSize count + (line.takeWhile isBlank).length + 1) := by
  rw [storeField, toSize_ofNat h]
  dsimp only
  rw [take_blanks]
  rfl

/-- A negative count is an enormous size for `memset`. -/
theorem storeField_of_neg (ptr : Nat) (char : UInt8) (hbuf : buf.length = whitespaceBufLen)
    (hneg : count.toInt < 0) :
    storeField buf ptr char count (line.takeWhile isBlank) line = none := by
  have hmax : whitespaceBufLen = 1024 := rfl
  have hsize := toSize_of_neg hneg
  have hnone : storeEach buf ptr (List.replicate (toSize count) char) = none := by
    rw [Option.eq_none_iff_forall_ne_some]
    intro buf' hbuf'
    rcases storeEach_isSome_iff.1 (Option.isSome_iff_exists.2 ⟨buf', hbuf'⟩) with hnil | ⟨-, hle⟩
    · have hzero := congrArg List.length hnil
      rw [List.length_replicate, List.length_nil] at hzero
      omega
    · rw [List.length_replicate] at hle
      omega
  rw [storeField]
  dsimp only
  rw [hnone]
  rfl

/-- Where there is room, the string of a field is stored. -/
theorem storeField_of_room (char : UInt8) (hbuf : buf.length = whitespaceBufLen)
    (hcount : 0 ≤ count.toInt)
    (hroom : ptr + (count.toInt + (line.takeWhile isBlank).length + 1) ≤ whitespaceBufLen) :
    ∃ buf', storeField buf ptr char count (line.takeWhile isBlank) line =
        some (buf', ptr + toSize count + (line.takeWhile isBlank).length + 1) ∧
      buf'.length = whitespaceBufLen := by
  have hmax : whitespaceBufLen = 1024 := rfl
  have hsize := toSize_of_nonneg hcount
  obtain ⟨buf₁, hbuf₁, hlen₁⟩ := exists_storeEach (m := buf) (p := ptr)
    (List.replicate (toSize count) char) (by omega) (by rw [List.length_replicate]; omega)
  obtain ⟨buf₂, hbuf₂, hlen₂⟩ := exists_storeEach (m := buf₁)
    (p := (ptr + toSize count : Nat)) (line.takeWhile isBlank) (by omega) (by omega)
  have hbuf₃ : store buf₂ (ptr + toSize count + (line.takeWhile isBlank).length : Nat) 0 =
      some (buf₂.set (ptr + toSize count + (line.takeWhile isBlank).length) 0) :=
    if_pos (by omega)
  refine ⟨_, ?_, (store_length hbuf₃).trans (by omega)⟩
  rw [storeField_eq (by omega), hbuf₁, Option.bind_some, hbuf₂, Option.bind_some, hbuf₃,
    Option.bind_some]

/-- Where there is no room for all of it, there is none for the terminator at the least. -/
theorem storeField_of_full (char : UInt8) (hbuf : buf.length = whitespaceBufLen)
    (hcount : 0 ≤ count.toInt) (hblanks : (line.takeWhile isBlank).length < 2 ^ 31)
    (hfull : whitespaceBufLen < ptr + (count.toInt + (line.takeWhile isBlank).length + 1)) :
    storeField buf ptr char count (line.takeWhile isBlank) line = none := by
  have hsize := toSize_of_nonneg hcount
  rw [storeField_eq hblanks]
  cases hbuf₁ : storeEach buf ptr (List.replicate (toSize count) char) with
  | none => rfl
  | some buf₁ =>
    have hlen₁ := storeEach_length hbuf₁
    rw [Option.bind_some]
    cases hbuf₂ : storeEach buf₁ (ptr + toSize count : Nat) (line.takeWhile isBlank) with
    | none => rfl
    | some buf₂ =>
      have hlen₂ := storeEach_length hbuf₂
      rw [Option.bind_some, store, if_neg (by omega)]
      rfl

/-- The string for a field is stored iff it fits behind the pointer. -/
theorem storeField_spec (ptr : Nat) (char : UInt8) (hbuf : buf.length = whitespaceBufLen)
    (hfits : tooLong count (line.takeWhile isBlank) = false) :
    (0 ≤ count.toInt ∧
        ptr + (count.toInt + (line.takeWhile isBlank).length + 1) ≤ whitespaceBufLen ∧
        ∃ buf', storeField buf ptr char count (line.takeWhile isBlank) line =
          some (buf', ptr + toSize count + (line.takeWhile isBlank).length + 1) ∧
          buf'.length = whitespaceBufLen) ∨
      ¬(0 ≤ count.toInt ∧
          ptr + (count.toInt + (line.takeWhile isBlank).length + 1) ≤ whitespaceBufLen) ∧
        storeField buf ptr char count (line.takeWhile isBlank) line = none := by
  rw [tooLong, Bool.or_eq_false_iff, decide_eq_false_iff_not, decide_eq_false_iff_not] at hfits
  obtain ⟨hlow, hhigh⟩ := hfits
  have hmax : whitespaceBufLen = 1024 := rfl
  by_cases hneg : count.toInt < 0
  case pos => exact .inr ⟨by omega, storeField_of_neg ptr char hbuf hneg⟩
  have hcount : 0 ≤ count.toInt := by omega
  by_cases hroom : ptr + (count.toInt + (line.takeWhile isBlank).length + 1) ≤ whitespaceBufLen
  case pos => exact .inl ⟨hcount, hroom, storeField_of_room char hbuf hcount hroom⟩
  exact .inr ⟨by omega, storeField_of_full char hbuf hcount (by omega) (by omega)⟩

/-! ## A text -/

theorem scanText_eq (column count : Int32) (line : List UInt8) :
    scanText column count line =
      let n := Int32.ofNat (line.takeWhile isText).length
      let rest := line.dropWhile isText
      if rest.head? = some 0x09 then
        (0x09, (column + n) / 8 - (column + n - (count + n)) / 8, column + n, rest)
      else (0x20, count + n, column + n, rest) := by
  have hzero : ∀ x : Int32, x + Int32.ofNat 0 = x := Int32.add_zero
  induction line generalizing column count with
  | nil =>
    simp only [scanText, List.takeWhile_nil, List.dropWhile_nil, List.length_nil, List.head?_nil,
      reduceCtorEq, if_false, hzero]
  | cons c line ih =>
    rw [scanText]
    by_cases hspace : c = 0x20 ∨ c = 0x0a
    case pos =>
      have htext : ¬isText c = true := by rcases hspace with rfl | rfl <;> decide
      have htab : c ≠ 0x09 := by rcases hspace with rfl | rfl <;> decide
      rw [if_pos hspace, List.takeWhile_cons_of_neg htext, List.dropWhile_cons_of_neg htext]
      simp only [List.length_nil, List.head?_cons, Option.some.injEq, if_neg htab, hzero]
    by_cases htab : c = 0x09
    case pos =>
      subst htab
      have htext : ¬isText 0x09 = true := by decide
      rw [if_neg hspace, if_pos rfl, List.takeWhile_cons_of_neg htext,
        List.dropWhile_cons_of_neg htext]
      simp only [List.length_nil, List.head?_cons, if_true, hzero]
    have htext : isText c = true := by
      rw [not_or] at hspace
      simp [isText, isBlank, hspace, htab]
    have hsucc : ∀ x : Int32, x + 1 + Int32.ofNat (line.takeWhile isText).length =
        x + Int32.ofNat ((line.takeWhile isText).length + 1) := by
      intro x
      rw [Int32.ofNat_add, Int32.add_comm (Int32.ofNat _), ← Int32.add_assoc]
      rfl
    rw [if_neg hspace, if_neg htab, ih, List.takeWhile_cons_of_pos htext,
      List.dropWhile_cons_of_pos htext, List.length_cons]
    simp only [hsucc]

/-! ## A line -/

/-- The last field is left out, or its string is stored. -/
theorem measureBufFields_last (hbuf : buf.length = whitespaceBufLen) (field : Nat)
    (column : Int32) :
    (measureBufFields line field column char count ptr buf 1).isSome = true ↔
      tooLong count (line.takeWhile isBlank) = true ∨ 0 ≤ count.toInt ∧
        ptr + (count.toInt + (line.takeWhile isBlank).length + 1) ≤ whitespaceBufLen := by
  rw [measureBufFields]
  dsimp only
  by_cases hlong : tooLong count (line.takeWhile isBlank) = true
  case pos =>
    rw [if_pos hlong]
    exact iff_of_true rfl (.inl hlong)
  rw [if_neg hlong]
  rcases storeField_spec ptr char hbuf (Bool.not_eq_true _ ▸ hlong) with
    ⟨hcount, hroom, buf', hstore, -⟩ | ⟨hroom, hstore⟩
  · rw [hstore]
    exact iff_of_true rfl (.inr ⟨hcount, hroom⟩)
  · rw [hstore]
    exact iff_of_false (by simp) (not_or.2 ⟨hlong, hroom⟩)

/-- The first field. Where its string is left out, the second one is empty. -/
theorem measureBufFields_first (hbuf : buf.length = whitespaceBufLen) :
    (measureBufFields line 0 0 0x20 0 0 buf wspaceFields).isSome = true ↔
      whitespaceBufLen < (Fields.ws0 line).length + 1 ∨
        tooLong (Fields.intWidth line) (Fields.ws1 line) = true ∨
        0 ≤ (Fields.intWidth line).toInt ∧ (Fields.ws0 line).length + 1 +
            ((Fields.intWidth line).toInt + (Fields.ws1 line).length + 1) ≤ whitespaceBufLen := by
  have hmax : whitespaceBufLen = 1024 := rfl
  have hlong : tooLong 0 (line.takeWhile isBlank) =
      decide (whitespaceBufLen < (Fields.ws0 line).length + 1) := by
    rw [tooLong, Int32.toInt_zero, ← Fields.ws0, decide_eq_false (by omega), Bool.false_or,
      decide_eq_decide]
    omega
  rw [wspaceFields, measureBufFields]
  dsimp only
  by_cases hlarge : whitespaceBufLen < (Fields.ws0 line).length + 1
  case pos =>
    have hblanks : (line.dropWhile isBlank).takeWhile isBlank = [] := by
      rw [List.takeWhile_eq_nil_iff]
      exact fun hlt => List.dropWhile_get_zero_not _ _ hlt
    rw [hlong, decide_eq_true hlarge, if_pos rfl, Option.isSome_map, measureBufFields_last hbuf,
      hblanks]
    rw [List.length_nil, Int32.toInt_zero]
    exact iff_of_true (.inr ⟨by omega, by omega⟩) (.inl hlarge)
  rw [decide_eq_false hlarge] at hlong
  rcases storeField_spec 0 0x20 hbuf hlong with
    ⟨-, -, buf', hstore, hbuf'⟩ | ⟨hroom, -⟩
  case inr =>
    rw [← Fields.ws0, Int32.toInt_zero] at hroom
    omega
  have hptr : 0 + toSize 0 + (line.takeWhile isBlank).length + 1 =
      (Fields.ws0 line).length + 1 := by
    rw [toSize, Int32.toInt_zero, ← Fields.ws0]
    omega
  rw [hlong, if_neg (by decide), hstore, Option.bind_some, hptr, scanText_eq]
  have hwidth : ∀ x : Int32, 0 + x = x := Int32.zero_add
  rw [or_iff_right hlarge]
  dsimp only
  split
  case isTrue htab =>
    have hw : Fields.intWidth line = _ := if_pos htab
    rw [Option.isSome_map, measureBufFields_last hbuf', hw, hwidth]
    rfl
  case isFalse htab =>
    have hw : Fields.intWidth line = _ := if_neg htab
    rw [Option.isSome_map, measureBufFields_last hbuf', hw, hwidth]
    rfl

/-- **The white space of a line stays in the buffer iff there is room for it.** -/
theorem measureBuf_isSome_iff (line : CString) (buf : WspaceBuf) :
    (measureBuf line.bytes buf).isSome = true ↔ HasRoom line.bytes := by
  rw [measureBuf, HasRoom]
  by_cases hcomment : (line.bytes.dropWhile isBlank).head? = some 0x23
  case pos =>
    rw [if_pos hcomment]
    exact iff_of_true rfl (.inl hcomment)
  rw [if_neg hcomment, Option.isSome_map, measureBufFields_first buf.length_eq]
  exact (or_iff_right hcomment).symm

/-- A string of white space that fills the buffer, and a text behind it. -/
def indentedLine : CString where
  bytes := List.replicate 1023 0x20 ++ chars "Option"
  nulFree := by
    rw [NulFree]
    decide +kernel

/-- The buffer before a line is measured. -/
def clearBuf : WspaceBuf := ⟨List.replicate whitespaceBufLen 0, List.length_replicate⟩

/-- **The second string of the line is stored where the first one has left no room.** -/
theorem measureBuf_overruns : measureBuf indentedLine.bytes clearBuf = none := by
  have hcomment : (indentedLine.bytes.dropWhile isBlank).head? ≠ some 0x23 := by decide +kernel
  have hfields : (measureBufFields indentedLine.bytes 0 0 0x20 0 0 clearBuf.bytes
      wspaceFields).isSome ≠ true := by
    rw [Ne, measureBufFields_first clearBuf.length_eq]
    decide +kernel
  rw [measureBuf, if_neg hcomment, Option.map_eq_none_iff]
  simpa using hfields

end Fbc
