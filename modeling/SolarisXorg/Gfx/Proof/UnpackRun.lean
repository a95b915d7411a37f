import SolarisXorg.Gfx.Proof.GammaInt
import SolarisXorg.Gfx.UnpackRun

/-!
# Malformed gamma strings

A number is low digits and a digit that ends it; it is cut off where neither table of last digits
has the next character (`CutOff`). Before a low digit that leaves 0 characters consumed, after one
it leaves 1, and after more the value of a variable nobody wrote is used (`unpackCell_eq`).
`unpackRunLoop_sound_iff`: in a table as long as the header's count the loop does not go wrong
exactly if none of the numbers it comes to is cut off after a low digit (`WholeNumbers`).
`gfxUnpackRun_sound_iff` adds what the header and the caller have to bring.
-/

namespace Gfx

open Lib

variable (tb : IntTables)

/-! ## Numbers -/

/-- The low digits the string starts with. -/
def lowDigits (str : List UInt8) : List UInt8 := str.takeWhile (· ∈ tb.lsb)

/-- The number at the start of the string is cut off: after its low digits the string ends, or
goes on with a character outside the tables. -/
def CutOff (str : List UInt8) : Prop :=
  ∀ c ∈ (str.dropWhile (· ∈ tb.lsb)).head?, c ∉ tb.pos ∧ c ∉ tb.neg

instance (str : List UInt8) : Decidable (CutOff tb str) :=
  Option.decidableForallMem (str.dropWhile (· ∈ tb.lsb)).head?

/-- The value of a digit that ends a number. -/
def endValue (c : UInt8) : Option Int32 :=
  if c ∈ tb.pos then some (.ofNat (tb.pos.idxOf c))
  else if c ∈ tb.neg then some (-.ofNat (tb.neg.idxOf c) - 1)
  else none

/-- The value of a low digit and the number after it. -/
def withLow (c : UInt8) (msb : Int32) : Int32 :=
  let digit : Int32 := .ofNat (tb.lsb.idxOf c)
  let lsbRange : Int32 := .ofNat tb.lsb.length
  if 0 ≤ msb then msb * lsbRange + (digit + .ofNat tb.pos.length)
  else (msb - 1) * lsbRange + (digit - .ofNat tb.neg.length + lsbRange)

/-- The number at the start of the string, unless it is cut off. -/
def numberValue (str : List UInt8) : Option Int32 :=
  ((str.dropWhile (· ∈ tb.lsb)).head?.bind (endValue tb)).map fun last =>
    (lowDigits tb str).foldr (withLow tb) last

variable {tb}

theorem idxOf?_of_mem {l : List UInt8} {c : UInt8} (h : c ∈ l) :
    l.idxOf? c = some (l.idxOf c) := by
  cases hidx : l.idxOf? c with
  | none => exact absurd h (List.idxOf?_eq_none_iff.1 hidx)
  | some i => rw [List.idxOf_eq_getD_idxOf?, hidx]; rfl

theorem endValue_eq_none {c : UInt8} : endValue tb c = none ↔ c ∉ tb.pos ∧ c ∉ tb.neg := by
  unfold endValue
  split
  · next h => simp [h]
  · next h =>
    split
    · next h' => simp [h']
    · next h' => simp [h, h']

theorem cutOff_iff {str : List UInt8} : CutOff tb str ↔ numberValue tb str = none := by
  unfold CutOff numberValue
  cases (str.dropWhile (· ∈ tb.lsb)).head? with
  | none => simp
  | some c => simp [endValue_eq_none]

/-! ### By the first character -/

theorem lowDigits_low {c : UInt8} (h : c ∈ tb.lsb) (str : List UInt8) :
    lowDigits tb (c :: str) = c :: lowDigits tb str := by
  simp [lowDigits, h]

theorem lowDigits_end {c : UInt8} (h : c ∉ tb.lsb) (str : List UInt8) :
    lowDigits tb (c :: str) = [] := by
  simp [lowDigits, h]

theorem numberValue_low {c : UInt8} (h : c ∈ tb.lsb) (str : List UInt8) :
    numberValue tb (c :: str) = (numberValue tb str).map (withLow tb c) := by
  simp [numberValue, lowDigits_low h, h, Function.comp_def]

theorem numberValue_end {c : UInt8} (h : c ∉ tb.lsb) (str : List UInt8) :
    numberValue tb (c :: str) = endValue tb c := by
  simp [numberValue, lowDigits_end h, h]

theorem unpackCell_end {c : UInt8} (h : c ∉ tb.lsb) (str : List UInt8) :
    unpackCell tb (c :: str) = .ok (if (endValue tb c).isSome then 1 else 0, endValue tb c) := by
  have hlsb := List.idxOf?_eq_none_iff.2 h
  by_cases hpos : c ∈ tb.pos
  · have hneg := List.idxOf?_eq_none_iff.2 (tb.notMem_neg_of_pos hpos)
    simp only [unpackCell, hlsb, hneg, idxOf?_of_mem hpos, endValue, if_pos hpos]
    rfl
  · have hpos' := List.idxOf?_eq_none_iff.2 hpos
    by_cases hneg : c ∈ tb.neg
    · simp only [unpackCell, hlsb, hpos', idxOf?_of_mem hneg, endValue, if_neg hpos, if_pos hneg]
      rfl
    · have hneg' := List.idxOf?_eq_none_iff.2 hneg
      simp only [unpackCell, hlsb, hpos', hneg', endValue, if_neg hpos, if_neg hneg]
      rfl

theorem unpackCell_low {c : UInt8} (h : c ∈ tb.lsb) (str : List UInt8) :
    unpackCell tb (c :: str) = (do
      let (rc, msb) ← unpackCell tb str
      if 0 < rc then
        match msb with
        | none => .error .unwritten
        | some msb => .ok (1 + rc, some (withLow tb c msb))
      else .ok (1 + rc, none)) := by
  have hneg := List.idxOf?_eq_none_iff.2 fun hneg => tb.notMem_lsb_of_neg hneg h
  have hpos := List.idxOf?_eq_none_iff.2 fun hpos => tb.notMem_lsb_of_pos hpos h
  simp only [unpackCell, idxOf?_of_mem h, hneg, hpos]
  congr 1
  funext cell
  split
  · cases cell.2 with
    | none => rfl
    | some msb =>
      simp only [withLow]
      split <;> rfl
  · rfl

/-- **What `unpack_gam_int` does on any string.** -/
theorem unpackCell_eq (str : List UInt8) :
    unpackCell tb str =
      match numberValue tb str with
      | some value => .ok ((lowDigits tb str).length + 1, some value)
      | none =>
        if (lowDigits tb str).length ≤ 1 then .ok ((lowDigits tb str).length, none)
        else .error .unwritten := by
  induction str with
  | nil => rfl
  | cons c str ih =>
    by_cases h : c ∈ tb.lsb
    · rw [unpackCell_low h, ih, numberValue_low h, lowDigits_low h, List.length_cons]
      cases numberValue tb str with
      | some value =>
        have hrc : 0 < (lowDigits tb str).length + 1 := Nat.succ_pos _
        simp only [bind, Except.bind, if_pos hrc, Option.map_some, Nat.add_comm 1]
      | none =>
        simp only [Option.map_none]
        rcases Nat.lt_trichotomy (lowDigits tb str).length 1 with hlen | hlen | hlen
        · have hzero : (lowDigits tb str).length = 0 := by omega
          simp [hzero, bind, Except.bind]
        · simp [hlen, bind, Except.bind]
        · rw [if_neg (by omega), if_neg (by omega)]
          rfl
    · rw [unpackCell_end h, numberValue_end h, lowDigits_end h]
      cases endValue tb c <;> rfl

/-- The number's characters, when it is not cut off. -/
theorem unpackCell_of_some {str : List UInt8} {value : Int32} (h : numberValue tb str = some value) :
    unpackCell tb str = .ok ((lowDigits tb str).length + 1, some value) := by
  rw [unpackCell_eq, h]

/-- A number cut off is as many characters as it has low digits, if that is one at most. -/
theorem unpackCell_of_cutOff {str : List UInt8} (h : CutOff tb str) :
    unpackCell tb str =
      if (lowDigits tb str).length ≤ 1 then .ok ((lowDigits tb str).length, none)
      else .error .unwritten := by
  rw [unpackCell_eq, cutOff_iff.1 h]

/-! ## The loop -/

/-- What the loop goes through from `sp`, with room for `left` elements: a number cut off there is
cut off before its first digit. -/
def WholeNumbers (left : Nat) (state : PackTableState) : List UInt8 → Prop
  | [] => True
  | c :: str =>
    if left = 0 ∧ c ≠ deltaTableBase0X then True
    else
      match state with
      | .packSingle =>
        if c = gammaIntStartPacked then WholeNumbers left .packTinyGroup str
        else if CutOff gammaTblInt (c :: str) then lowDigits gammaTblInt (c :: str) = []
        else
          WholeNumbers (left - 1) .packSingle
            (str.drop (lowDigits gammaTblInt (c :: str)).length)
      | .packTinyGroup =>
        let n := (unpackTinyBytes c left).length
        WholeNumbers (left - n) (if n ≤ 1 then .packSingle else .packTinyGroup) str
termination_by sp => sp.length
decreasing_by
  · simp
  · simp only [List.length_drop, List.length_cons]
    omega
  · simp

/-- The run does not go wrong, and a number cut off was answered with 0. -/
def Sound {α : Type} (run : Except Fault (Unpacked α)) : Prop :=
  ∃ u, run = .ok u ∧ ∀ call ∈ u.calls, CutOff gammaTblInt call.sp → call.rc = 0

theorem sound_ok {α : Type} {u : Unpacked α} :
    Sound (.ok u) ↔ ∀ call ∈ u.calls, CutOff gammaTblInt call.sp → call.rc = 0 := by
  constructor
  · rintro ⟨_, ⟨⟩, h⟩
    exact h
  · intro h
    exact ⟨u, rfl, h⟩

theorem not_sound_error {α : Type} {fault : Fault} :
    ¬Sound (.error fault : Except Fault (Unpacked α)) := by
  rintro ⟨_, ⟨⟩, _⟩

/-- A run after a number. -/
theorem sound_after {α : Type} {call : GamIntCall} {run : Except Fault (Unpacked α)} :
    Sound (do let run ← run; .ok (run.after call)) ↔
      (CutOff gammaTblInt call.sp → call.rc = 0) ∧ Sound run := by
  cases run with
  | error fault => exact iff_of_false not_sound_error fun h => not_sound_error h.2
  | ok u =>
    show Sound (.ok (u.after call)) ↔ _ ∧ Sound (.ok u)
    rw [sound_ok, sound_ok]
    exact List.forall_mem_cons

theorem bind_ok {α β : Type} {x : Except Fault α} {f : α → Except Fault β} {r : β}
    (h : x >>= f = .ok r) : ∃ a, x = .ok a ∧ f a = .ok r := by
  cases x with
  | error fault => cases h
  | ok a => exact ⟨a, rfl, h⟩

/-! ### The table -/

theorem store_ok {table : List Int32} {i : Nat} (h : i < table.length) (v : Int32) :
    store table i v = .ok (table.set i v) := if_pos h

/-- Stores inside the table succeed, and it keeps its length. -/
theorem storeAll_ok {vals : List Int} {table : List Int32} {i : Nat}
    (h : i + vals.length ≤ table.length) :
    ∃ table', storeAll table i vals = .ok table' ∧ table'.length = table.length := by
  induction vals generalizing table i with
  | nil => exact ⟨table, rfl, rfl⟩
  | cons v vals ih =>
    rw [List.length_cons] at h
    have hroom : i + 1 + vals.length ≤ (table.set i (.ofInt v)).length := by
      rw [List.length_set]
      omega
    obtain ⟨table', hrun, hlen⟩ := ih hroom
    refine ⟨table', ?_, by rw [hlen, List.length_set]⟩
    rw [storeAll, store_ok (by omega)]
    exact hrun

theorem unpackTinyBytes_length (byte : UInt8) (maxLen : Nat) :
    (unpackTinyBytes byte maxLen).length ≤ maxLen := by
  unfold unpackTinyBytes
  split
  · exact Nat.zero_le _
  · split
    · exact Nat.zero_le _
    · split
      · exact Nat.zero_le _
      · rw [List.length_take]
        omega

/-- The terminator is no digit. -/
theorem notMem_deltaTableBase0X : deltaTableBase0X ∉ gammaTblInt.lsb ∧
    deltaTableBase0X ∉ gammaTblInt.pos ∧ deltaTableBase0X ∉ gammaTblInt.neg := by
  decide

theorem cutOff_deltaTableBase0X (str : List UInt8) :
    CutOff gammaTblInt (deltaTableBase0X :: str) := by
  obtain ⟨hlsb, hpos, hneg⟩ := notMem_deltaTableBase0X
  rw [cutOff_iff, numberValue_end hlsb, endValue_eq_none]
  exact ⟨hpos, hneg⟩

/-! ### A whole run -/

/-- **The loop goes wrong exactly at a number cut off after a low digit.** -/
theorem unpackRunLoop_sound_iff {tblLen : Int} {table : List Int32} {left tcount : Nat}
    {state : PackTableState} {sp : List UInt8} (hlen : table.length = tblLen.toNat)
    (hleft : tcount + left = table.length) :
    Sound (unpackRunLoop tblLen sp state table tcount) ↔ WholeNumbers left state sp := by
  fun_induction WholeNumbers left state sp generalizing table tcount with
  | case1 =>
    rw [unpackRunLoop]
    exact iff_of_true (sound_ok.2 (List.forall_mem_nil _)) trivial
  | case2 left state c str h =>
    -- More characters than the table has room for: the loop gives up.
    rw [unpackRunLoop.eq_def]
    simp only [if_pos (show tblLen ≤ tcount ∧ c ≠ deltaTableBase0X from ⟨by omega, h.2⟩)]
    exact iff_of_true (sound_ok.2 (List.forall_mem_nil _)) trivial
  | case3 left str h ih =>
    rw [unpackRunLoop, if_neg fun hend => h ⟨by omega, hend.2⟩]
    simp only [if_pos]
    exact ih hlen hleft
  | case4 left c str h hstart hcut =>
    rw [unpackRunLoop, if_neg fun hend => h ⟨by omega, hend.2⟩]
    simp only [if_neg hstart, unpackCell_of_cutOff hcut, ← List.length_eq_zero_iff]
    split
    · show Sound (if _ then _ else _) ↔ _
      split
      · next hzero =>
        refine iff_of_true (sound_ok.2 ?_) hzero
        intro call hcall _
        rw [List.mem_singleton.1 hcall]
        exact hzero
      · next hone => exact iff_of_false (fun hs => hone ((sound_after.1 hs).1 hcut)) hone
    · exact iff_of_false not_sound_error (by omega)
  | case5 left c str h hstart hcut ih =>
    have hroom : tcount < table.length := by
      by_contra hfull
      have hc : c = deltaTableBase0X := by_contra fun hc => h ⟨by omega, hc⟩
      exact hcut (hc ▸ cutOff_deltaTableBase0X str)
    obtain ⟨value, hvalue⟩ := Option.ne_none_iff_exists'.1 fun hv => hcut (cutOff_iff.2 hv)
    rw [unpackRunLoop, if_neg fun hend => h ⟨by omega, hend.2⟩]
    simp only [if_neg hstart, unpackCell_of_some hvalue]
    show Sound (do
      let tbl ← storeCell table tcount value
      let run ← unpackRunLoop _ _ _ tbl _
      .ok (run.after _)) ↔ _
    have hset : (table.set tcount value).length = table.length := List.length_set
    rw [storeCell, store_ok hroom, ← ih (hset.trans hlen) (show tcount + 1 + (left - 1) = _ by omega)]
    refine sound_after.trans ?_
    exact and_iff_right fun h => absurd h hcut
  | case6 left c str h n =>
    rename_i ih
    have hmaxLen : (tblLen - tcount).toNat = left := by omega
    have hwords := unpackTinyBytes_length c left
    have hroom : tcount + (unpackTinyBytes c left).length ≤ table.length := by omega
    obtain ⟨table', hstore, hlen'⟩ := storeAll_ok hroom
    rw [unpackRunLoop, if_neg fun hend => h ⟨by omega, hend.2⟩]
    simp only [hmaxLen, hstore]
    refine ih (hlen'.trans hlen) ?_
    omega

theorem store_length {table table' : List Int32} {i : Nat} {v : Int32}
    (h : store table i v = .ok table') : table'.length = table.length := by
  unfold store at h
  split at h
  · cases h
    exact List.length_set
  · cases h

theorem storeCell_length {table table' : List Int32} {i : Nat} {v : Option Int32}
    (h : storeCell table i v = .ok table') : table'.length = table.length := by
  cases v with
  | none =>
    cases h
    rfl
  | some v => exact store_length h

theorem storeAll_length {vals : List Int} {table table' : List Int32} {i : Nat}
    (h : storeAll table i vals = .ok table') : table'.length = table.length := by
  induction vals generalizing table i with
  | nil =>
    cases h
    rfl
  | cons v vals ih =>
    obtain ⟨table₁, hstore, hrest⟩ := bind_ok h
    rw [ih hrest, store_length hstore]

/-- The loop stores in the table it was given. -/
theorem unpackRunLoop_length {tblLen : Int} {table : List Int32} {tcount : Nat}
    {state : PackTableState} {sp : List UInt8} {u : Unpacked Int32}
    (h : unpackRunLoop tblLen sp state table tcount = .ok u) :
    u.table.length = table.length := by
  fun_induction unpackRunLoop tblLen sp state table tcount generalizing u with
  | case1 =>
    cases h
    rfl
  | case2 =>
    cases h
    rfl
  | case3 table tcount str hroom ih => exact ih h
  | case4 table tcount c str hroom hstart ih =>
    obtain ⟨⟨ll, value⟩, -, h⟩ := bind_ok h
    by_cases hzero : ll = 0
    · simp only [if_pos hzero] at h
      cases h
      rfl
    · simp only [if_neg hzero] at h
      obtain ⟨table₁, hstore, h⟩ := bind_ok h
      obtain ⟨u₁, hrest, h⟩ := bind_ok h
      cases h
      exact (ih ll table₁ hrest).trans (storeCell_length hstore)
  | case5 table tcount c str hroom vals =>
    rename_i ih
    obtain ⟨table₁, hstore, h⟩ := bind_ok h
    exact (ih table₁ h).trans (storeAll_length hstore)

/-! ## Gamma tables -/

/-- The last loop goes through the table as far as the caller's maximum. -/
theorem addUpRun_ok_iff {ddel : List Int32} {lastVal lastDel : Int32} {g n : Nat}
    (hg : g ≤ ddel.length) :
    (∃ gtData, addUpRun ddel lastVal lastDel g n = .ok gtData) ↔ g + n ≤ ddel.length := by
  induction n generalizing lastVal lastDel g with
  | zero => exact iff_of_true ⟨[], rfl⟩ hg
  | succ n ih =>
    by_cases hlt : g < ddel.length
    · have hload : load ddel g = .ok ddel[g] := by rw [load, List.getElem?_eq_getElem hlt]
      have hshift : g + (n + 1) = g + 1 + n := by omega
      have hnext := @ih (ddel[g] + lastDel + lastVal) (ddel[g] + lastDel) (g + 1) hlt
      rw [hshift, ← hnext, addUpRun, hload]
      constructor
      · rintro ⟨gtData, h⟩
        obtain ⟨_, ⟨⟩, h⟩ := bind_ok h
        obtain ⟨rest, hrest, -⟩ := bind_ok h
        exact ⟨rest, hrest⟩
      · rintro ⟨rest, hrest⟩
        refine ⟨(ddel[g] + lastDel + lastVal).toUInt32.toUInt16 :: rest, ?_⟩
        show (addUpRun _ _ _ _ _ >>= _) = _
        rw [hrest]
        rfl
    · have hload : load ddel g = .error (.past g) := by
        rw [load, List.getElem?_eq_none (Nat.not_lt.1 hlt)]
      rw [addUpRun, hload]
      refine iff_of_false ?_ (by omega)
      rintro ⟨_, ⟨⟩⟩


/-- What makes the run sound: no header, a count cut off before its first digit, or a whole count
no smaller than the caller's maximum with no number cut off after a low digit behind it. -/
def Unpackable (str : List UInt8) (maxEntries : Nat) : Prop :=
  str.take gammaHeader.length = gammaHeader →
    let sp := str.drop gammaHeader.length
    match numberValue gammaTblInt sp with
    | none => lowDigits gammaTblInt sp = []
    | some count =>
      maxEntries ≤ count.toInt.toNat ∧
        WholeNumbers count.toInt.toNat .packSingle
          (sp.drop ((lowDigits gammaTblInt sp).length + 1))

/-- **Malformed gamma strings.** -/
theorem gfxUnpackRun_sound_iff (str : List UInt8) (maxEntries : Nat) :
    Sound (gfxUnpackRun str maxEntries) ↔ Unpackable str maxEntries := by
  unfold gfxUnpackRun Unpackable
  by_cases hheader : str.take gammaHeader.length = gammaHeader
  case neg =>
    rw [if_pos hheader]
    exact iff_of_true (sound_ok.2 (List.forall_mem_nil _)) fun h => absurd h hheader
  rw [if_neg (not_not_intro hheader)]
  simp only [hheader, true_imp_iff]
  generalize str.drop gammaHeader.length = sp
  cases hvalue : numberValue gammaTblInt sp with
  | none =>
    have hcut : CutOff gammaTblInt sp := cutOff_iff.2 hvalue
    simp only [unpackCell_of_cutOff hcut, ← List.length_eq_zero_iff]
    split
    · show Sound (if _ then _ else _) ↔ _
      split
      · next hzero =>
        refine iff_of_true (sound_ok.2 ?_) hzero
        intro call hcall _
        rw [List.mem_singleton.1 hcall]
        exact hzero
      · next hone => exact iff_of_false not_sound_error hone
    · exact iff_of_false not_sound_error (by omega)
  | some count =>
    have hcut : ¬CutOff gammaTblInt sp := fun h => by simp [cutOff_iff.1 h] at hvalue
    have hlen : (List.replicate count.toInt.toNat (0 : Int32)).length = count.toInt.toNat :=
      List.length_replicate
    rw [unpackCell_of_some hvalue]
    show Sound (do
      let run ← unpackRunTbl (sp.drop ((lowDigits gammaTblInt sp).length + 1)) count.toInt
        (List.replicate count.toInt.toNat 0)
      let gtData ← addUpRun run.table 0 0 0 maxEntries
      .ok ⟨run.rc, ⟨sp, _⟩ :: run.calls, gtData⟩) ↔ _ ∧ WholeNumbers _ _ _
    have hloop : Sound (unpackRunTbl (sp.drop ((lowDigits gammaTblInt sp).length + 1)) count.toInt
        (List.replicate count.toInt.toNat 0)) ↔ WholeNumbers _ _ _ :=
      unpackRunLoop_sound_iff hlen ((Nat.zero_add _).trans hlen.symm)
    rw [← hloop]
    cases hrun : unpackRunTbl (sp.drop ((lowDigits gammaTblInt sp).length + 1)) count.toInt
        (List.replicate count.toInt.toNat 0) with
    | error fault => exact iff_of_false not_sound_error fun h => not_sound_error h.2
    | ok u =>
      have htable : u.table.length = count.toInt.toNat := (unpackRunLoop_length hrun).trans hlen
      have hsum := @addUpRun_ok_iff u.table 0 0 0 maxEntries (Nat.zero_le _)
      rw [htable, Nat.zero_add] at hsum
      rw [← hsum]
      show Sound (addUpRun u.table 0 0 0 maxEntries >>= _) ↔ _
      cases addUpRun u.table 0 0 0 maxEntries with
      | error fault =>
        refine iff_of_false not_sound_error ?_
        rintro ⟨⟨_, ⟨⟩⟩, _⟩
      | ok gtData =>
        show Sound (.ok _) ↔ _
        rw [sound_ok, sound_ok, List.forall_mem_cons]
        constructor
        · intro h
          exact ⟨⟨gtData, rfl⟩, h.2⟩
        · intro h
          exact ⟨fun hc => absurd hc hcut, h.2⟩

/-- A count that is cut off, a maximum past the count, and a difference that is cut off. -/
theorem gfxUnpackRun_not_sound :
    ¬Sound (gfxUnpackRun (chars "G00[") 0) ∧ ¬Sound (gfxUnpackRun (chars "G001") 2) ∧
      ¬Sound (gfxUnpackRun (chars "G001[") 1) := by
  have hpast : gfxUnpackRun (chars "G001") 2 = .error (.past 1) := by
    show (do
      let run ← unpackRunLoop 1 [] .packSingle [0] 0
      let gtData ← addUpRun run.table 0 0 0 2
      .ok (⟨run.rc, _, gtData⟩ : Unpacked UInt16)) = _
    rw [unpackRunLoop]
    rfl
  have hcut : unpackRunLoop 1 (chars "[") .packSingle [0] 0 =
      .ok ⟨1, [⟨chars "[", 1⟩], [0]⟩ := by
    show unpackRunLoop 1 [0x5b] .packSingle [0] 0 = _
    rw [unpackRunLoop]
    show (do
      let run ← unpackRunLoop 1 [] .packSingle [0] 1
      .ok (run.after _)) = _
    rw [unpackRunLoop]
    rfl
  refine ⟨not_sound_error, ?_, ?_⟩
  · rw [hpast]
    exact not_sound_error
  · show ¬Sound (do
      let run ← unpackRunLoop 1 (chars "[") .packSingle [0] 0
      let gtData ← addUpRun run.table 0 0 0 1
      .ok ⟨run.rc, _ :: run.calls, gtData⟩)
    rw [hcut]
    intro h
    have hrc := sound_ok.1 h ⟨chars "[", 1⟩ (.tail _ (.head _)) (by decide +kernel)
    cases hrc

end Gfx
