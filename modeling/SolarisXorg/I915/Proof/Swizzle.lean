import SolarisXorg.I915.Swizzle

/-!
# Bit 17 swizzling

A page is swizzled as it should be (`swizzlePage_eq`), and the record has a bit for each page
(`testBit_saveLoop`), which decides alone whether the page is swizzled later (`doLoop_apply`). But the
bit is one of the page itself, so that an object comes back as it should exactly when these bits do
what those of the addresses do (`swizzle_follows_iff`).
-/

namespace I915

/-! ## One page -/

theorem swizzleHalves_apply (p : Page) (i j : Nat) :
    swizzleHalves p i j =
      if i ≤ j ∧ j < i + 64 then p (j + 64) else if i + 64 ≤ j ∧ j < i + 128 then p (j - 64)
      else p j := by
  unfold swizzleHalves memcpy
  dsimp only
  by_cases hsecond : i + 64 ≤ j ∧ j < i + 64 + 64
  · have hfirst : ¬ (i ≤ j ∧ j < i + 64) := by omega
    have htemp : 0 ≤ 0 + (j - (i + 64)) ∧ 0 + (j - (i + 64)) < 0 + 64 := by omega
    rw [if_pos hsecond, if_pos htemp, if_neg hfirst, if_pos (by omega)]
    congr 1
    omega
  · rw [if_neg hsecond]
    by_cases hfirst : i ≤ j ∧ j < i + 64
    · rw [if_pos hfirst, if_pos hfirst]
      congr 1
      omega
    · rw [if_neg hfirst, if_neg hfirst, if_neg (by omega)]

/-- What has been exchanged after `n` passes. -/
theorem swizzleLoop_apply (n : Nat) (p : Page) (j : Nat) :
    swizzleLoop n p j =
      if j < 128 * n then if j % 128 < 64 then p (j + 64) else p (j - 64) else p j := by
  induction n generalizing j with
  | zero => rfl
  | succ n ih =>
    rw [swizzleLoop, swizzleHalves_apply]
    simp only [ih]
    by_cases hbelow : j < 128 * n
    · rw [if_neg (by omega), if_neg (by omega), if_pos hbelow,
        if_pos (show j < 128 * (n + 1) by omega)]
    · rw [if_neg hbelow]
      by_cases hfirst : 128 * n ≤ j ∧ j < 128 * n + 64
      · rw [if_pos hfirst, if_neg (by omega), if_pos (by omega), if_pos (by omega)]
      · rw [if_neg hfirst]
        by_cases hsecond : 128 * n + 64 ≤ j ∧ j < 128 * n + 128
        · rw [if_pos hsecond, if_neg (by omega), if_pos (by omega), if_neg (by omega)]
        · rw [if_neg hsecond, if_neg (by omega)]

/-- **`i915_gem_swizzle_page`** exchanges the halves. -/
theorem swizzlePage_eq (p : Page) : swizzlePage p = p.exchanged := by
  funext j
  exact swizzleLoop_apply 32 p j

/-! ## The record -/

/-- The bit that the record has for a page. -/
def BitWords.bit (p : BitWords) (b : Nat) : Bool := (p (b / 32)).getLsbD (b % 32)

theorem and_bit_ne_zero_iff {w : Nat} {x : BitVec w} {i : Nat} (hi : i < w) :
    x &&& 1#w <<< i ≠ 0 ↔ x.getLsbD i = true := by
  rw [← BitVec.twoPow_eq, BitVec.and_twoPow]
  have hpow : BitVec.twoPow w i ≠ 0 := by
    intro h
    have := congrArg (BitVec.getLsbD · i) h
    simp [hi] at this
  split
  case isTrue h => exact iff_of_true hpow h
  case isFalse h => exact iff_of_false (fun hne => hne rfl) h

theorem testBit_ne_zero_iff {b : Nat} {p : BitWords} : testBit b p ≠ 0 ↔ p.bit b = true :=
  and_bit_ne_zero_iff (Nat.mod_lt _ (by decide))

theorem bit_setBit (p : BitWords) (b c : Nat) : (setBit b p).bit c = (decide (c = b) || p.bit c) := by
  have hlt : b % 32 < 32 := Nat.mod_lt _ (by decide)
  unfold BitWords.bit setBit
  by_cases hword : c / 32 = b / 32
  · rw [hword, Function.update_self, BitVec.getLsbD_or, ← BitVec.twoPow_eq, BitVec.getLsbD_twoPow,
      Bool.or_comm]
    congr 1
    simp only [hlt, decide_true, Bool.true_and, decide_eq_decide]
    omega
  · have hne : c ≠ b := fun h => hword (by rw [h])
    rw [Function.update_of_ne hword, decide_eq_false hne, Bool.false_or]

theorem bit_clearBit (p : BitWords) (b c : Nat) :
    (clearBit b p).bit c = (decide (c ≠ b) && p.bit c) := by
  have hlt : b % 32 < 32 := Nat.mod_lt _ (by decide)
  have hlt' : c % 32 < 32 := Nat.mod_lt _ (by decide)
  unfold BitWords.bit clearBit
  by_cases hword : c / 32 = b / 32
  · rw [hword, Function.update_self, BitVec.getLsbD_and, BitVec.getLsbD_not, ← BitVec.twoPow_eq,
      BitVec.getLsbD_twoPow, Bool.and_comm]
    congr 1
    simp only [hlt, hlt', decide_true, Bool.true_and, ← decide_not, decide_eq_decide]
    omega
  · have hne : c ≠ b := fun h => hword (by rw [h])
    rw [Function.update_of_ne hword, decide_eq_true hne, Bool.true_and]

/-- **The record** has bit 17 of the first word of each page. -/
theorem bit_saveLoop (page : Nat → Page) (n : Nat) (p : BitWords) (i : Nat) :
    (saveLoop page n p).bit i = if i < n then (page i).wordBit else p.bit i := by
  induction n with
  | zero => rfl
  | succ n ih =>
    have hbit : pageToPhys (page n) &&& 1#32 <<< 17 ≠ 0 ↔ (page n).wordBit = true :=
      and_bit_ne_zero_iff (by decide)
    rw [saveLoop]
    by_cases hi : i = n
    · subst hi
      rw [if_pos (Nat.lt_succ_self i)]
      split
      case isTrue h => rw [bit_setBit, decide_eq_true rfl, Bool.true_or, hbit.1 h]
      case isFalse h =>
        rw [bit_clearBit, decide_eq_false (not_not.2 rfl), Bool.false_and]
        exact (Bool.eq_false_iff.2 (mt hbit.2 h)).symm
    · have hlt : i < n + 1 ↔ i < n := by omega
      rw [if_congr hlt rfl rfl, ← ih]
      split
      · rw [bit_setBit, decide_eq_false hi, Bool.false_or]
      · rw [bit_clearBit, decide_eq_true hi, Bool.true_and]

/-! ## Pages that come back -/

theorem bitDiffers_iff {bit17 : BitWords} {i : Nat} {page : Page} :
    bitDiffers bit17 i page = true ↔ bit17.bit i ≠ page.wordBit := by
  have hnew : ((pageToPhys page >>> 17).setWidth 8 : BitVec 8) &&& 1 ≠ 0 ↔ page.wordBit = true := by
    have hone := and_bit_ne_zero_iff (x := (pageToPhys page >>> 17).setWidth 8) (i := 0)
      (show 0 < 8 by decide)
    rw [BitVec.getLsbD_setWidth, BitVec.getLsbD_ushiftRight] at hone
    exact hone
  unfold bitDiffers
  rw [decide_eq_true_iff, ne_eq, eq_iff_iff, hnew, testBit_ne_zero_iff, ← Bool.eq_iff_iff]
  exact ne_comm

/-- Each page is looked at once. -/
theorem doLoop_apply (bit17 : BitWords) (n : Nat) (page : Nat → Page) (i : Nat) :
    doLoop bit17 n page i =
      if i < n ∧ bit17.bit i ≠ (page i).wordBit then (page i).exchanged else page i := by
  induction n generalizing i with
  | zero => simp [doLoop]
  | succ n ih =>
    have hlast : doLoop bit17 n page n = page n := by
      rw [ih, if_neg fun h => Nat.lt_irrefl n h.1]
    rw [doLoop, hlast, swizzlePage_eq]
    by_cases hi : i = n
    · subst hi
      by_cases hd : bit17.bit i ≠ (page i).wordBit
      · rw [if_pos (bitDiffers_iff.2 hd), if_pos ⟨Nat.lt_succ_self i, hd⟩, Function.update_self]
      · rw [if_neg (mt bitDiffers_iff.1 hd), if_neg fun h => hd h.2, hlast]
    · have hlt : i < n + 1 ↔ i < n := by omega
      rw [if_congr (and_congr_left' hlt) rfl rfl, ← ih]
      split
      · exact Function.update_of_ne hi ..
      · rfl

/-! ## Put and gathered again -/

variable {obj : SwizzleObject} {mem : Option BitWords} {page : Nat → Page} {phys : Nat → BitVec 64}

/-- What putting the pages leaves of an object that needs swizzling. -/
theorem putPagesGtt_eq (hneeds : obj.needsBit17Swizzle = true) :
    obj.putPagesGtt mem =
      { obj with
        dirty := false
        pageList := false
        bit17 := (obj.bit17 <|> mem).map (saveLoop obj.page obj.pageCount) } := by
  rw [SwizzleObject.putPagesGtt, if_pos hneeds, SwizzleObject.saveBit17Swizzle]
  cases hb : obj.bit17 <|> mem with
  | none =>
    have hnull : obj.bit17 = none := by
      cases h : obj.bit17 with
      | none => rfl
      | some p => simp [h] at hb
    simp only [hnull, Option.map_none]
  | some p => rfl

theorem getPagesGtt_page (hneeds : obj.needsBit17Swizzle = true) (i : Nat) :
    obj.getPagesGtt.page i =
      obj.bit17.elim (obj.page i) fun bit17 => doLoop bit17 obj.pageCount obj.page i := by
  have hneeds' : SwizzleObject.needsBit17Swizzle { obj with pageList := true } = true := hneeds
  rw [SwizzleObject.getPagesGtt, if_pos hneeds', SwizzleObject.doBit17Swizzle]
  cases obj.bit17 with
  | none => rfl
  | some bit17 => rfl

/-- **Every page** after the pages were put and gathered again. -/
theorem page_back (hneeds : obj.needsBit17Swizzle = true) (i : Nat) :
    (((obj.putPagesGtt mem).whileOut page phys).getPagesGtt).page i =
      if i < obj.pageCount ∧ (obj.bit17 <|> mem).isSome = true ∧
        (obj.page i).wordBit ≠ (page i).wordBit
      then (page i).exchanged else page i := by
  have hneeds' : ((obj.putPagesGtt mem).whileOut page phys).needsBit17Swizzle = true := by
    rw [putPagesGtt_eq hneeds]
    exact hneeds
  rw [getPagesGtt_page hneeds', putPagesGtt_eq hneeds]
  simp only [SwizzleObject.whileOut]
  cases obj.bit17 <|> mem with
  | none => simp
  | some p =>
    simp only [Option.map_some, Option.elim_some, Option.isSome_some, true_and]
    rw [doLoop_apply]
    by_cases hi : i < obj.pageCount
    · rw [bit_saveLoop, if_pos hi]
    · rw [if_neg fun h => hi h.1, if_neg fun h => hi h.1]

/-- **Swizzling does what it is for** exactly when the first words of the pages tell what the addresses
of the pages would. -/
theorem swizzle_follows_iff (hneeds : obj.needsBit17Swizzle = true) (hlist : obj.pageList = true)
    (hspace : obj.gttSpace = false) (hpin : obj.pagesPinCount = 0) (mem : Option BitWords)
    (page : Nat → Page) (phys : Nat → BitVec 64) :
    ∃ out back, obj.putPages mem = some (0, out) ∧
      (out.whileOut page phys).getPages = some (0, back) ∧
      (Follows obj.pageCount obj.phys phys page back.page ↔
        WordsTell (obj.bit17 <|> mem).isSome obj.pageCount obj.phys phys obj.page page) := by
  refine ⟨obj.putPagesGtt mem, ((obj.putPagesGtt mem).whileOut page phys).getPagesGtt, ?_, ?_, ?_⟩
  · simp [SwizzleObject.putPages, hlist, hspace, hpin]
  · simp [SwizzleObject.getPages, putPagesGtt_eq hneeds, SwizzleObject.whileOut, hpin]
  · unfold Follows WordsTell
    apply forall_congr'
    intro i
    apply forall_congr'
    intro hi
    rw [page_back hneeds]
    simp only [hi, true_and]
    by_cases hword : (obj.bit17 <|> mem).isSome = true ∧ (obj.page i).wordBit ≠ (page i).wordBit
    · rw [if_pos hword]
      by_cases hphys : (obj.phys i).getLsbD 17 = (phys i).getLsbD 17
      · rw [if_pos hphys]
        exact ⟨.inr, fun h => h.resolve_left fun hiff => hiff.1 hword hphys⟩
      · rw [if_neg hphys]
        exact iff_of_true rfl (.inl (iff_of_true hword hphys))
    · rw [if_neg hword]
      by_cases hphys : (obj.phys i).getLsbD 17 = (phys i).getLsbD 17
      · rw [if_pos hphys]
        exact iff_of_true rfl (.inl (iff_of_false hword (not_not.2 hphys)))
      · rw [if_neg hphys]
        exact ⟨fun h => .inr h.symm, fun h => (h.resolve_left fun hiff => hword (hiff.2 hphys)).symm⟩

/-- An object of two pages of zeros. -/
def zeroPages : SwizzleObject where
  pageCount := 2
  bit6SwizzleX := bit6Swizzle91017
  tilingMode := 1
  gttSpace := false
  pageList := true
  pagesPinCount := 0
  dirty := true
  bit17 := none
  page _ _ := 0
  phys i := BitVec.ofNat 64 (4096 * i)

/-- A page of zeros but for bit 17 of its first word. -/
def markedPage : Page := fun j => if j = 2 then 2 else 0

/-- The CPU writes somewhere else. -/
theorem swizzle_follows_iff_two :
    ∃ out back, zeroPages.putPages (some fun _ => 0) = some (0, out) ∧
      (out.whileOut (fun _ j => if j = 100 then 7 else 0) zeroPages.phys).getPages = some (0, back) ∧
      Follows 2 zeroPages.phys zeroPages.phys (fun _ j => if j = 100 then 7 else 0) back.page := by
  obtain ⟨out, back, hout, hback, hiff⟩ := @swizzle_follows_iff zeroPages rfl rfl rfl rfl
    (some fun _ => 0) (fun _ j => if j = 100 then 7 else 0) zeroPages.phys
  refine ⟨out, back, hout, hback, hiff.2 fun i _ => .inl (iff_of_false (fun h => h.2 ?_) ?_)⟩
  · rfl
  · exact fun h => h rfl

/-- The CPU writes 0x20000 to the first word of both pages, which stay where they are: it is in the
other half afterwards. -/
theorem written_word_moves :
    ∃ out back, zeroPages.putPages (some fun _ => 0) = some (0, out) ∧
      (out.whileOut (fun _ => markedPage) zeroPages.phys).getPages = some (0, back) ∧
      ¬ Follows 2 zeroPages.phys zeroPages.phys (fun _ => markedPage) back.page := by
  refine ⟨_, _, rfl, rfl, fun h => ?_⟩
  have hbyte := congrFun (h 0 (by decide)) 2
  rw [if_pos rfl] at hbyte
  revert hbyte
  decide

end I915
