import SolarisXorg.X11.Gb18030Bounds
import SolarisXorg.X11.Proof.Gb18030Ct

/-!
# The bounds of the compound text converters

Up to a NUL two buffers with the same text are read the same way, and nothing that is read lies
across the NUL: `SameText.holds`, and from it `mbUnit_same` and `ctsToken_same`. A pass of a
converter is what the unit or the token in front of it says (`mbstoctsPass_unit`,
`ctstombsPass_token`), so that the loops go from place to place (`MbUnitsAt`, `CtsPlaceAt`).
`input_bounds_iff` has what follows: the converters stay in their bounds exactly if nothing that
finds room lies across the end of the input.
-/

namespace X11

open Lib

/-! ## The same text -/

section Same

variable {n : Nat} {p q : Ptr}

theorem SameText.symm (h : SameText n p q) : SameText n q p :=
  ⟨fun i hi => (h.same i hi).symm, h.right, h.left⟩

theorem SameText.apply (h : SameText n p q) {i : Nat} (hi : i ≤ n) : p i = q i := by
  rcases Nat.lt_or_eq_of_le hi with hi | rfl
  · exact h.same i hi
  · rw [h.left, h.right]

theorem SameText.plus (h : SameText n p q) {i : Nat} (hi : i ≤ n) :
    SameText (n - i) (p.plus i) (q.plus i) := by
  have hend : i + (n - i) = n := by omega
  refine ⟨fun k hk => h.same (i + k) (by omega), ?_, ?_⟩
  · rw [Ptr.plus_apply, hend, h.left]
  · rw [Ptr.plus_apply, hend, h.right]

/-- Bytes other than NUL stand in one text if they stand in the other, and before its end. -/
theorem SameText.holds (h : SameText n p q) {i : Nat} {l : List UInt8} (hi : i ≤ n)
    (hl : Holds p i l) (hzero : 0 ∉ l) : Holds q i l ∧ i + l.length ≤ n := by
  induction l generalizing i with
  | nil => exact ⟨trivial, hi⟩
  | cons b l ih =>
    obtain ⟨hb, hl⟩ := hl
    rw [List.mem_cons, not_or] at hzero
    obtain ⟨hb0, hzero⟩ := hzero
    have hlt : i ≠ n := by
      rintro rfl
      exact hb0 (h.left.symm.trans hb)
    obtain ⟨hq, hlen⟩ := ih (by omega) hl hzero
    refine ⟨⟨(h.apply hi).symm.trans hb, hq⟩, ?_⟩
    rw [List.length_cons]
    omega

theorem SameText.isgb (h : SameText n p q) (hn : 0 < n) : isgb p = isgb q := by
  rw [X11.isgb, X11.isgb, h.apply (Nat.zero_le n), h.apply (show 1 ≤ n from hn)]

theorem SameText.isgb18030_2 (h : SameText n p q) (hn : 0 < n) :
    isgb18030_2 p = isgb18030_2 q := by
  rw [X11.isgb18030_2, X11.isgb18030_2, h.apply (Nat.zero_le n), h.apply (show 1 ≤ n from hn)]

/-- A second byte other than NUL is in the text. -/
theorem SameText.two_le (h : SameText n p q) (hn : 0 < n) (h1 : p 1 ≠ 0) : 2 ≤ n := by
  by_contra hlt
  obtain rfl : n = 1 := by omega
  exact h1 h.left

theorem isgb18030_4_bytes {s : Ptr} (h4 : X11.isgb18030_4 s = true) :
    (0 : UInt8) ∉ [s 0, s 1, s 2, s 3] := by
  obtain ⟨⟨h0, -⟩, ⟨h1, -⟩, ⟨h2, -⟩, h3, -⟩ := isgb18030_4_iff.1 h4
  have hne : ∀ {b : UInt8}, 0 < b.toNat → (0 : UInt8) ≠ b := by
    rintro b hb rfl
    exact absurd hb (by decide)
  simp only [List.mem_cons, List.not_mem_nil, or_false, not_or]
  exact ⟨hne (by omega), hne (by omega), hne (by omega), hne (by omega)⟩

theorem SameText.four (h : SameText n p q) (h4 : X11.isgb18030_4 p = true) :
    Holds q 0 [p 0, p 1, p 2, p 3] ∧ 4 ≤ n := by
  have hp : Holds p 0 [p 0, p 1, p 2, p 3] := ⟨rfl, rfl, rfl, rfl, trivial⟩
  obtain ⟨hq, hlen⟩ := h.holds (Nat.zero_le n) hp (isgb18030_4_bytes h4)
  exact ⟨hq, hlen⟩

theorem SameText.isgb18030_4 (h : SameText n p q) : isgb18030_4 p = isgb18030_4 q := by
  have himp : ∀ {p q : Ptr}, SameText n p q → X11.isgb18030_4 p = true →
      X11.isgb18030_4 q = true := by
    intro p q h h4
    obtain ⟨⟨h0, h1, h2, h3, -⟩, -⟩ := h.four h4
    rw [X11.isgb18030_4, h0, h1, h2, h3]
    exact h4
  exact Bool.eq_iff_iff.2 ⟨himp h, himp h.symm⟩

theorem SameText.getCharsetWithEncodeString (h : SameText n p q) :
    getCharsetWithEncodeString p = getCharsetWithEncodeString q := by
  have hreads : ∀ t : CharSetType, reads p 0 t.encodeString = reads q 0 t.encodeString := by
    intro t
    have hzero : (0 : UInt8) ∉ t.encodeString := by cases t <;> decide
    rw [Bool.eq_iff_iff, reads_iff, reads_iff]
    exact ⟨fun hp => (h.holds (Nat.zero_le n) hp hzero).1,
      fun hq => (h.symm.holds (Nat.zero_le n) hq hzero).1⟩
  simp only [X11.getCharsetWithEncodeString, hreads]

/-- Both have the same unit in front of them, and it ends before the NUL. -/
theorem mbUnit_same (h : SameText n p q) (hn : 0 < n) :
    mbUnit p = mbUnit q ∧ unitSize (mbUnit p) ≤ n := by
  have h0 := h.apply (Nat.zero_le n)
  have h1 := h.apply (show 1 ≤ n from hn)
  have htwo : 0x40 ≤ (p 1).toNat → 2 ≤ n := fun hp1 =>
    h.two_le hn (by rintro hzero; rw [hzero] at hp1; exact absurd hp1 (by decide))
  simp only [mbUnit, ← h.isgb hn, ← h.isgb18030_2 hn, ← h.isgb18030_4, ← h0, ← h1]
  split
  · next hgb =>
    have hr := isgb_iff.1 hgb
    exact ⟨rfl, htwo (by omega)⟩
  split
  · next h2 =>
    have hr := isgb18030_2_iff.1 h2
    exact ⟨rfl, htwo (by omega)⟩
  split
  · next h4 =>
    obtain ⟨⟨-, -, h2, h3, -⟩, hlen⟩ := h.four h4
    have e2 : q 2 = p 2 := h2
    have e3 : q 3 = p 3 := h3
    exact ⟨by rw [e2, e3], hlen⟩
  split
  · exact ⟨rfl, hn⟩
  · exact ⟨rfl, hn⟩

/-- In a charset's loop both have the same character in front of them, before the NUL. -/
theorem segmentText_same (h : SameText n p q) (hn : 0 < n) (t : CharSetType) :
    segmentText p t = segmentText q t ∧ ∀ l, segmentText p t = some l → l.length ≤ n := by
  have h0 := h.apply (Nat.zero_le n)
  have h1 := h.apply (show 1 ≤ n from hn)
  cases t with
  | ascii =>
    simp only [segmentText, ← h0]
    refine ⟨trivial, fun l hl => ?_⟩
    split at hl
    · cases hl
      exact hn
    · cases hl
  | gb2312 =>
    have hisgb : ∀ b0 b1, isgb (p.store [b0, b1]) = isgb (q.store [b0, b1]) := fun _ _ => rfl
    simp only [segmentText, ← h0, ← h1, hisgb]
    refine ⟨trivial, fun l hl => ?_⟩
    split at hl
    · next hgb =>
      cases hl
      apply h.two_le hn
      intro hzero
      rw [hzero] at hgb
      have hr : 0xa1 ≤ ((0 &&& 0x7f) ||| 0x80 : UInt8).toNat := (isgb_iff.1 hgb).2.1
      exact absurd hr (by decide)
    · cases hl
  | gb18030_0 =>
    simp only [segmentText, ← h.isgb18030_2 hn, ← h0, ← h1]
    refine ⟨trivial, fun l hl => ?_⟩
    split at hl
    · next h2 =>
      cases hl
      have hr := isgb18030_2_iff.1 h2
      apply h.two_le hn
      intro hzero
      rw [hzero, UInt8.toNat_zero] at hr
      omega
    · cases hl
  | gb18030_1 =>
    simp only [segmentText, ← h.isgb18030_4]
    by_cases h4 : X11.isgb18030_4 p = true
    · obtain ⟨⟨e0, e1, e2, e3, -⟩, hlen⟩ := h.four h4
      rw [if_pos h4, if_pos h4, e0, e1, e2, e3]
      exact ⟨rfl, fun l hl => by cases hl; exact hlen⟩
    · rw [if_neg h4, if_neg h4]
      exact ⟨rfl, fun l hl => by cases hl⟩

/-- Both have the same token in front of them, and it ends before the NUL. -/
theorem ctsToken_same (h : SameText n p q) (hn : 0 < n) (seg : Option CharSetType) :
    ctsToken p seg = ctsToken q seg ∧ (ctsToken p seg).size ≤ n := by
  cases seg with
  | none =>
    simp only [ctsToken, ← h.apply (Nat.zero_le n), ← h.getCharsetWithEncodeString]
    refine ⟨trivial, ?_⟩
    split
    · cases hfind : X11.getCharsetWithEncodeString p with
      | none => exact hn
      | some t =>
        have hreads := List.find?_some hfind
        have hzero : (0 : UInt8) ∉ t.encodeString := by cases t <;> decide
        have hlen := (h.holds (Nat.zero_le n) (reads_iff.1 hreads) hzero).2
        rw [Nat.zero_add] at hlen
        exact hlen
    · split
      · exact hn
      · exact hn
  | some t =>
    obtain ⟨heq, hlen⟩ := segmentText_same h hn t
    simp only [ctsToken, ← heq]
    refine ⟨trivial, ?_⟩
    cases hl : segmentText p t with
    | none => exact Nat.zero_le n
    | some l => exact hlen l hl

end Same

/-! ## `gb18030_mbstocts` -/

/-- The charset of the last character, after one of charset `prev`. -/
def unitsLast : Option CharSetType → List (Option CtUnit) → Option CharSetType
  | prev, [] => prev
  | prev, none :: us => unitsLast prev us
  | _, some u :: us => unitsLast (some u.charset) us

theorem unitsLast_append (prev : Option CharSetType) (us vs : List (Option CtUnit)) :
    unitsLast prev (us ++ vs) = unitsLast (unitsLast prev us) vs := by
  induction us generalizing prev with
  | nil => rfl
  | cons u us ih =>
    cases u with
    | none => exact ih prev
    | some u => exact ih _

theorem unitsText_append (prev : Option CharSetType) (us vs : List (Option CtUnit)) :
    unitsText prev (us ++ vs) = unitsText prev us ++ unitsText (unitsLast prev us) vs := by
  induction us generalizing prev with
  | nil => rfl
  | cons u us ih =>
    cases u with
    | none => exact ih prev
    | some u =>
      rw [List.cons_append, unitsText, unitsText, ih, unitsLast]
      simp only [List.append_assoc]

section Mbstocts

variable {fromLeft toLeft : Int} {p : Ptr}

/-- The variables after the unit `u`. -/
def CtState.unit (prev : Option CharSetType) (u : Option CtUnit) (s : CtState) : CtState where
  i := s.i + unitSize u
  out := s.out ++ unitsText prev [u]
  flag := flagOf CharSetType.mbNumber (unitsLast prev [u])
  unconvNum := if u.isSome then s.unconvNum else s.unconvNum + 1

/-- **A pass of `gb18030_mbstocts`** is what the unit in front of it says. -/
theorem mbstoctsPass_unit {s : CtState} {prev : Option CharSetType}
    (hflag : s.flag = flagOf CharSetType.mbNumber prev) :
    mbstoctsPass fromLeft toLeft p s =
      if s.i < fromLeft ∧ (s.out ++ unitsText prev [mbUnit (p.plus s.i)]).length < toLeft then
        .next (s.unit prev (mbUnit (p.plus s.i)))
      else .leave (s.finish fromLeft toLeft) := by
  unfold mbstoctsPass
  by_cases hi : s.i < fromLeft ∧ s.out.length < toLeft
  · rw [if_pos hi]
    have hchar : ∀ (t : CharSetType) (l : List UInt8),
        ctChar fromLeft toLeft t.name t.mbNumber l l.length s =
          if s.i < fromLeft ∧ (s.out ++ unitsText prev [some ⟨t, l⟩]).length < toLeft then
            .next (s.unit prev (some ⟨t, l⟩))
          else .leave (s.finish fromLeft toLeft) := by
      intro t l
      have htext : unitsText prev [some ⟨t, l⟩] = ctSwitch prev t ++ l := by
        simp only [unitsText, List.append_nil]
      rw [ctChar_eq mbNumber_numbering hflag, htext, List.length_append, List.length_append]
      by_cases hroom : toLeft ≤ s.out.length + (ctSwitch prev t).length + l.length
      · rw [if_pos hroom, if_neg (by omega)]
      · rw [if_neg hroom, if_pos ⟨hi.1, by omega⟩, CtState.unit, htext, List.append_assoc]
        rfl
    unfold mbUnit
    simp only
    split
    · exact hchar .gb2312 _
    split
    · exact hchar .gb18030_0 _
    split
    · exact hchar .gb18030_1 _
    split
    · exact hchar .ascii _
    · rw [if_pos ⟨hi.1, by simpa [unitsText] using hi.2⟩, CtState.unit]
      simp only [unitsText, List.append_nil, hflag]
      rfl
  · rw [if_neg hi, if_neg fun h => hi ⟨h.1, ?_⟩]
    have := h.2
    rw [List.length_append] at this
    omega

/-- The encoder has written the first `k` units. -/
structure MbUnitsAt (p : Ptr) (k : Nat) (s : CtState) : Prop where
  i : s.i = mbOffset p k
  out : s.out = unitsText none (mbUnits p k)
  flag : s.flag = flagOf CharSetType.mbNumber (unitsLast none (mbUnits p k))

/-- It goes on to the next one. -/
def MbstoctsGoes (p : Ptr) (n : Nat) (toLeft : Int) (k : Nat) : Prop :=
  mbOffset p k < n ∧ (unitsText none (mbUnits p (k + 1))).length < toLeft

theorem mbUnits_text_le (p : Ptr) (k : Nat) :
    (unitsText none (mbUnits p k)).length ≤ (unitsText none (mbUnits p (k + 1))).length := by
  rw [mbUnits, unitsText_append, List.length_append]
  exact Nat.le_add_right _ _

theorem MbUnitsAt.pass {n k : Nat} {s : CtState} (h : MbUnitsAt p k s) :
    mbstoctsPass n toLeft p s =
      if mbOffset p k < n ∧ ((unitsText none (mbUnits p (k + 1))).length : Int) < toLeft then
        .next (s.unit (unitsLast none (mbUnits p k)) (mbUnit (p.plus (mbOffset p k))))
      else .leave (s.finish n toLeft) := by
  have hnext : mbUnits p (k + 1) = mbUnits p k ++ [mbUnit (p.plus (mbOffset p k))] := rfl
  rw [mbstoctsPass_unit h.flag, h.i, h.out, ← unitsText_append, ← hnext]
  simp only [Int.ofNat_lt]

theorem MbUnitsAt.unit {k : Nat} {s : CtState} (h : MbUnitsAt p k s) :
    MbUnitsAt p (k + 1)
      (s.unit (unitsLast none (mbUnits p k)) (mbUnit (p.plus (mbOffset p k)))) := by
  constructor
  · rw [CtState.unit, mbOffset, h.i]
  · rw [CtState.unit, mbUnits, unitsText_append, h.out]
  · rw [CtState.unit, mbUnits, unitsLast_append]

/-- **`gb18030_mbstocts` stays in its bounds** exactly if it does not overread. -/
theorem gb18030Mbstocts_inBounds (n : Nat) (toLeft : Int) (p : Ptr) :
    ∃ r, gb18030Mbstocts n toLeft p = some r ∧
      (r.InBounds n toLeft ↔ ∀ k, ¬ MbstoctsOverreads p n toLeft k) := by
  obtain ⟨k, s, hloop, hat, hstop, hgoes⟩ := @loop_walk _ _ (mbstoctsPass n toLeft p)
    (MbUnitsAt p) (MbstoctsGoes p n toLeft) (CtState.finish n toLeft)
    (fun s => ((n : Int) - s.i).toNat) (fun k s h hg => ⟨_, h.pass.trans (if_pos hg), h.unit⟩)
    (fun k s h hg => h.pass.trans (if_neg hg)) (fun _ _ h => mbstoctsPass_lt h)
    .start ⟨rfl, rfl, rfl⟩ (n + 1) (by simp [CtState.start])
  refine ⟨_, hloop, ?_⟩
  have hle := @walk_le_iff (mbOffset p)
    (fun k => ((unitsText none (mbUnits p k)).length : Int) < toLeft) n k rfl
    (fun k => Nat.le_add_right _ _) (fun k h => by have := mbUnits_text_le p k; omega) hstop hgoes
  have hiff : (∀ k, ¬ MbstoctsOverreads p n toLeft k) ↔ mbOffset p k ≤ n := by
    rw [hle]
    exact forall_congr' fun m => not_congr ⟨fun h => ⟨h.starts, h.ends, h.room⟩,
      fun h => ⟨h.1, h.2.1, h.2.2⟩⟩
  rw [hiff]
  constructor
  · intro h
    rw [← hat.i]
    exact h.consumed
  · intro h
    rw [← hat.i] at h
    refine ⟨h, ?_, ?_⟩
    · show 0 ≤ (n : Int) - s.i
      omega
    · show s.out.length ≤ toLeft.toNat
      rw [hat.out]
      cases k with
      | zero => exact Nat.zero_le _
      | succ k =>
        have := (hgoes k (Nat.lt_succ_self k)).2
        omega

/-- Two buffers with the same text have the same passes before its end. -/
theorem gb18030Mbstocts_same {n : Nat} {p q : Ptr} (h : SameText n p q) (toLeft : Int) :
    gb18030Mbstocts n toLeft p = gb18030Mbstocts n toLeft q := by
  refine @loop_congr _ _ _ _ (fun s : CtState => s.i ≤ n ∧
    ∃ prev, s.flag = flagOf CharSetType.mbNumber prev) ?_ .start ⟨Nat.zero_le n, none, rfl⟩ _
  rintro s ⟨hi, prev, hflag⟩
  rw [mbstoctsPass_unit hflag, mbstoctsPass_unit hflag]
  by_cases hlt : s.i < n
  · obtain ⟨heq, hsize⟩ := mbUnit_same (h.plus hi) (by omega)
    rw [← heq]
    refine ⟨rfl, fun s' hs' => ?_⟩
    split at hs'
    · cases hs'
      exact ⟨by show s.i + _ ≤ n; omega, _, rfl⟩
    · cases hs'
  · have hno : ∀ P : Prop, ¬ ((s.i : Int) < n ∧ P) := fun _ h => hlt (by omega)
    rw [if_neg (hno _), if_neg (hno _)]
    exact ⟨rfl, fun s' hs' => by cases hs'⟩

end Mbstocts

/-! ## `gb18030_ctstombs` -/

section Ctstombs

variable {n : Nat} {toLeft : Int} {saveOutbuf : Bool} {p : Ptr}

/-- The variables after the token `t`. -/
def CtsState.token (saveOutbuf : Bool) (t : CtsToken) (s : CtsState) : CtsState where
  i := s.i + t.size
  out := if saveOutbuf then s.out ++ t.text else s.out
  toLeft := s.toLeft - t.text.length
  unconvNum := s.unconvNum + t.unconv
  seg := t.seg

/-- An escape sequence of at least three bytes has been read. -/
def CtsState.Entered (s : CtsState) : Prop := s.seg ≠ none → 3 ≤ s.i

theorem segmentText_length_le {c : Ptr} {t : CharSetType} {l : List UInt8}
    (h : segmentText c t = some l) : 0 < l.length ∧ l.length ≤ 4 := by
  cases t with
  | ascii =>
    simp only [segmentText] at h
    split at h
    · cases h
      exact ⟨by simp, by simp⟩
    · cases h
  | gb2312 =>
    simp only [segmentText] at h
    split at h
    · cases h
      exact ⟨by simp, by simp⟩
    · cases h
  | gb18030_0 =>
    simp only [segmentText] at h
    split at h
    · cases h
      exact ⟨by simp, by simp⟩
    · cases h
  | gb18030_1 =>
    simp only [segmentText] at h
    split at h
    · cases h
      exact ⟨by simp, by simp⟩
    · cases h

/-- In a charset's loop, a pass looks for a character of the charset. -/
theorem ctstombsPass_segment {s : CtsState} {t : CharSetType} (hseg : s.seg = some t)
    (hi : s.i < n) :
    ctstombsPass n saveOutbuf p s =
      match segmentText (p.plus s.i) t with
      | some l =>
        if s.toLeft < l.length ∨ (n : Int) < l.length then .leave (s.finish n)
        else .next (s.put saveOutbuf l)
      | none => .next { s with seg := none } := by
  simp only [ctstombsPass, hseg]
  rw [if_neg (by omega)]
  cases t with
  | ascii =>
    simp only [segmentText, segmentChar]
    split <;> rfl
  | gb2312 =>
    simp only [segmentText, segmentChar]
    split <;> rfl
  | gb18030_0 =>
    simp only [segmentText, segmentChar]
    split <;> rfl
  | gb18030_1 =>
    simp only [segmentText, segmentChar]
    split <;> rfl

/-- **A pass of `gb18030_ctstombs`** is what the token in front of it says. -/
theorem ctstombsPass_token {s : CtsState} (hs : s.Entered) :
    ctstombsPass n saveOutbuf p s =
      if s.i < n ∧ ((ctsToken (p.plus s.i) s.seg).text = [] ∨
          ((ctsToken (p.plus s.i) s.seg).text.length : Int) ≤ s.toLeft) then
        .next (s.token saveOutbuf (ctsToken (p.plus s.i) s.seg))
      else .leave (s.finish n) := by
  by_cases hi : s.i < n
  · cases hseg : s.seg with
    | none =>
      simp only [ctstombsPass, hseg, ctsToken]
      rw [if_pos (show (s.i : Int) < n by omega)]
      split
      · cases X11.getCharsetWithEncodeString (p.plus s.i) with
        | none =>
          rw [if_pos ⟨hi, .inl rfl⟩, CtsState.token, CtsState.skip]
          simp [hseg]
        | some t =>
          rw [if_pos ⟨hi, .inl rfl⟩, CtsState.token]
          simp
      · split
        · by_cases hroom : s.toLeft < 1
          · rw [if_pos hroom, if_neg]
            rintro ⟨-, h | h⟩
            · cases h
            · simp only [List.length_singleton] at h
              omega
          · rw [if_neg hroom, if_pos ⟨hi, .inr (by simp only [List.length_singleton]; omega)⟩,
              CtsState.token, CtsState.put]
            simp [hseg]
        · rw [if_pos ⟨hi, .inl rfl⟩, CtsState.token, CtsState.skip]
          simp [hseg]
    | some t =>
      have h3 := hs (by simp [hseg])
      rw [ctstombsPass_segment hseg hi]
      cases hl : segmentText (p.plus s.i) t with
      | none =>
        simp only [ctsToken, hl]
        rw [if_pos ⟨hi, .inl trivial⟩, CtsState.token]
        simp
      | some l =>
        have hlen := segmentText_length_le hl
        simp only [ctsToken, hl]
        by_cases hroom : s.toLeft < l.length
        · rw [if_pos (.inl hroom), if_neg]
          rintro ⟨-, rfl | h⟩
          · exact absurd hlen.1 (Nat.lt_irrefl 0)
          · omega
        · rw [if_neg (by omega), if_pos ⟨hi, .inr (by omega)⟩, CtsState.token, CtsState.put]
          simp [hseg]
  · rw [if_neg fun h => hi h.1]
    cases hseg : s.seg with
    | none =>
      simp only [ctstombsPass, hseg]
      exact if_neg (by omega)
    | some t =>
      simp only [ctstombsPass, hseg]
      exact if_pos (by omega)

/-- The decoder has gone over the first `k` tokens. -/
structure CtsPlaceAt (p : Ptr) (toLeft : Int) (k : Nat) (s : CtsState) : Prop where
  i : s.i = (ctsPlace p k).i
  seg : s.seg = (ctsPlace p k).seg
  left : s.toLeft = toLeft - (ctsPlace p k).out
  out : s.out.length ≤ (ctsPlace p k).out
  room : (ctsPlace p k).out ≤ toLeft.toNat

/-- It goes on to the next one. -/
def CtstombsGoes (p : Ptr) (n : Nat) (toLeft : Int) (k : Nat) : Prop :=
  (ctsPlace p k).i < n ∧ (ctsPlace p (k + 1)).out ≤ toLeft.toNat

theorem encodeString_length (t : CharSetType) : 3 ≤ t.encodeString.length := by
  cases t <;> decide

/-- A token that leads into a charset's loop is an escape sequence, or comes after one. -/
theorem ctsToken_entered {c : Ptr} {i : Nat} {seg : Option CharSetType} (h : seg ≠ none → 3 ≤ i)
    (hseg : (ctsToken c seg).seg ≠ none) : 3 ≤ i + (ctsToken c seg).size := by
  cases seg with
  | none =>
    simp only [ctsToken] at hseg ⊢
    split at hseg
    · next hesc =>
      rw [if_pos hesc]
      cases hfind : X11.getCharsetWithEncodeString c with
      | none =>
        rw [hfind] at hseg
        exact absurd rfl hseg
      | some t => exact Nat.le_trans (encodeString_length t) (Nat.le_add_left _ _)
    · split at hseg
      · exact absurd rfl hseg
      · exact absurd rfl hseg
  | some t => exact Nat.le_trans (h (by simp)) (Nat.le_add_right _ _)

theorem ctsPlace_entered (p : Ptr) (k : Nat) :
    (ctsPlace p k).seg ≠ none → 3 ≤ (ctsPlace p k).i := by
  induction k with
  | zero => exact fun h => absurd rfl h
  | succ k ih => exact fun hseg => ctsToken_entered ih hseg

theorem CtsPlaceAt.entered {k : Nat} {s : CtsState} (h : CtsPlaceAt p toLeft k s) : s.Entered := by
  intro hseg
  rw [h.i]
  exact ctsPlace_entered p k (h.seg ▸ hseg)

theorem CtsPlaceAt.pass {k : Nat} {s : CtsState} (h : CtsPlaceAt p toLeft k s) :
    (CtstombsGoes p n toLeft k → ∃ s', ctstombsPass n saveOutbuf p s = .next s' ∧
        CtsPlaceAt p toLeft (k + 1) s') ∧
      (¬ CtstombsGoes p n toLeft k → ctstombsPass n saveOutbuf p s = .leave (s.finish n)) := by
  have hpass := @ctstombsPass_token n saveOutbuf p s h.entered
  rw [h.i, h.seg] at hpass
  have hleft := h.left
  have hroom := h.room
  have hout := h.out
  have hnext : (ctsPlace p (k + 1)).out = (ctsPlace p k).out +
      (ctsToken (p.plus (ctsPlace p k).i) (ctsPlace p k).seg).text.length := rfl
  constructor
  · rintro ⟨hlt, hle⟩
    have htext : (ctsToken (p.plus (ctsPlace p k).i) (ctsPlace p k).seg).text = [] ∨
        ((ctsToken (p.plus (ctsPlace p k).i) (ctsPlace p k).seg).text.length : Int) ≤
          s.toLeft := by
      by_cases hnil : (ctsToken (p.plus (ctsPlace p k).i) (ctsPlace p k).seg).text = []
      · exact .inl hnil
      · have hpos := List.length_pos_iff.2 hnil
        exact .inr (by omega)
    rw [if_pos ⟨hlt, htext⟩] at hpass
    refine ⟨_, hpass, ?_, rfl, ?_, ?_, hle⟩
    · rw [CtsState.token, ctsPlace, h.i]
    · rw [CtsState.token, hnext]
      simp only
      omega
    · rw [CtsState.token, hnext]
      simp only
      split
      · rw [List.length_append]
        omega
      · omega
  · intro hno
    rw [if_neg] at hpass
    · exact hpass
    · rintro ⟨hlt, htext | hle⟩
      · rw [htext, List.length_nil] at hnext
        exact hno ⟨hlt, by omega⟩
      · exact hno ⟨hlt, by omega⟩

/-- **`gb18030_ctstombs` stays in its bounds** exactly if it does not overread. -/
theorem gb18030Ctstombs_inBounds (n : Nat) (saveOutbuf : Bool) (toLeft : Int) (p : Ptr) :
    ∃ r, gb18030Ctstombs n saveOutbuf p toLeft = some r ∧
      (r.InBounds n toLeft ↔ ∀ k, ¬ CtstombsOverreads p n toLeft k) := by
  obtain ⟨k, s, hloop, hat, hstop, hgoes⟩ := @loop_walk _ _ (ctstombsPass n saveOutbuf p)
    (CtsPlaceAt p toLeft) (CtstombsGoes p n toLeft) (CtsState.finish n) (CtsState.measure n)
    (fun k s h => h.pass.1) (fun k s h => h.pass.2) (fun _ _ h => ctstombsPass_lt h) (.start toLeft)
    ⟨rfl, rfl, by simp [CtsState.start, ctsPlace], Nat.le_refl 0, Nat.zero_le _⟩
    (2 * (n : Int).toNat + 1) (by simp [CtsState.measure, CtsState.start])
  refine ⟨_, hloop, ?_⟩
  have hle := @walk_le_iff (fun k => (ctsPlace p k).i) (fun k => (ctsPlace p k).out ≤ toLeft.toNat)
    n k rfl (fun k => Nat.le_add_right _ _) (fun k h => Nat.le_trans (Nat.le_add_right _ _) h) hstop
    hgoes
  have hiff : (∀ k, ¬ CtstombsOverreads p n toLeft k) ↔ (ctsPlace p k).i ≤ n := by
    rw [hle]
    exact forall_congr' fun m => not_congr ⟨fun h => ⟨h.starts, h.ends, h.room⟩,
      fun h => ⟨h.1, h.2.1, h.2.2⟩⟩
  rw [hiff, ← hat.i]
  refine ⟨fun h => h.consumed, fun h => ⟨h, ?_, Nat.le_trans hat.out hat.room⟩⟩
  show 0 ≤ (if (n : Int) ≤ s.i then 0 else (n : Int) - s.i)
  split
  · exact Int.le_refl 0
  · omega

/-- Two buffers with the same text have the same passes before its end. -/
theorem gb18030Ctstombs_same {q : Ptr} (h : SameText n p q) (saveOutbuf : Bool) (toLeft : Int) :
    gb18030Ctstombs n saveOutbuf p toLeft = gb18030Ctstombs n saveOutbuf q toLeft := by
  refine @loop_congr _ _ _ _ (fun s : CtsState => s.i ≤ n ∧ s.Entered) ?_ (.start toLeft)
    ⟨Nat.zero_le n, fun h => absurd rfl h⟩ _
  rintro s ⟨hi, hentered⟩
  rw [ctstombsPass_token hentered, ctstombsPass_token hentered]
  by_cases hlt : s.i < n
  · obtain ⟨heq, hsize⟩ := ctsToken_same (h.plus hi) (by omega) s.seg
    rw [← heq]
    refine ⟨rfl, fun s' hs' => ?_⟩
    split at hs'
    · cases hs'
      refine ⟨by show s.i + _ ≤ n; omega, fun hseg => ?_⟩
      exact ctsToken_entered hentered hseg
    · cases hs'
  · rw [if_neg fun h => hlt h.1, if_neg fun h => hlt h.1]
    exact ⟨rfl, fun s' hs' => by cases hs'⟩

end Ctstombs

/-! ## Both -/

/-- Nothing lies across a NUL at the end of the input. -/
theorem nul_not_overread {n : Nat} {p : Ptr} (h : p n = 0) (toLeft : Int) (k : Nat) :
    ¬ MbstoctsOverreads p n toLeft k ∧ ¬ CtstombsOverreads p n toLeft k := by
  have hsame : SameText n p p := ⟨fun _ _ => rfl, h, h⟩
  constructor
  · rintro ⟨hstarts, hends, -⟩
    obtain ⟨-, hsize⟩ := mbUnit_same (hsame.plus (Nat.le_of_lt hstarts)) (by omega)
    rw [mbOffset] at hends
    omega
  · rintro ⟨hstarts, hends, -⟩
    obtain ⟨-, hsize⟩ := ctsToken_same (hsame.plus (Nat.le_of_lt hstarts)) (by omega)
      (ctsPlace p k).seg
    simp only [ctsPlace] at hends
    omega

/-- **The converters of compound text stay in their bounds** exactly if no unit or token that finds
room lies across the end of the input; and they do the same on buffers with the same text and NUL
behind. -/
theorem input_bounds_iff (n : Nat) (toLeft : Int) (saveOutbuf : Bool) (p : Ptr) :
    (∃ r, gb18030Ctstombs n saveOutbuf p toLeft = some r ∧
        (r.InBounds n toLeft ↔ ∀ k, ¬ CtstombsOverreads p n toLeft k)) ∧
      (∃ r, gb18030Mbstocts n toLeft p = some r ∧
        (r.InBounds n toLeft ↔ ∀ k, ¬ MbstoctsOverreads p n toLeft k)) ∧
      ∀ q, SameText n p q →
        gb18030Ctstombs n saveOutbuf p toLeft = gb18030Ctstombs n saveOutbuf q toLeft ∧
          gb18030Mbstocts n toLeft p = gb18030Mbstocts n toLeft q :=
  ⟨gb18030Ctstombs_inBounds n saveOutbuf toLeft p, gb18030Mbstocts_inBounds n toLeft p,
    fun _ h => ⟨gb18030Ctstombs_same h saveOutbuf toLeft, gb18030Mbstocts_same h toLeft⟩⟩

/-- Half a GB2312 character at the end of the input, with the other half behind: `gb18030_mbstocts`
takes both and leaves -1 bytes, `gb18030_ctstombs` moves `*from` over the end. -/
theorem half_character_overread :
    (∃ r, gb18030Mbstocts 1 100 (.ofList [0xa1, 0xa1]) = some r ∧ r.fromMoved = 2 ∧
      r.fromLeft = -1 ∧ ¬ r.InBounds 1 100) ∧
    ∃ r, gb18030Ctstombs 5 true (.ofList [0x1b, 0x24, 0x28, 0x41, 0x21, 0x21]) 100 = some r ∧
      r.fromMoved = 6 ∧ ¬ r.InBounds 5 100 := by
  refine ⟨⟨_, rfl, rfl, rfl, fun h => ?_⟩, _, rfl, rfl, fun h => ?_⟩
  · exact absurd h.consumed (by decide)
  · exact absurd h.consumed (by decide)

end X11
