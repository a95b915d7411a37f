import SolarisXorg.X11.Proof.Gb18030Char

/-!
# Compound text

Both encoders write the compound text of the characters (`ctText`), up to the end of the buffer:
`gb18030_mbstocts` with GB2312 characters stripped of their high bits, `gb18030_wcstocts` with all
bytes as they are. `gb18030_ctstombs` reads the first kind back: an escape sequence ends every
charset's loop and selects the next (`CtsAt.run`).
-/

namespace X11

open Lib

/-! ## The table of charsets -/

/-- The name by which the encoders look up a charset. -/
def CharSetType.name : CharSetType → String
  | .ascii => "ASCII"
  | .gb2312 => "GB2312"
  | .gb18030_0 => "GB18030-0"
  | .gb18030_1 => "GB18030-1"

theorem getCtEncodeString_name (t : CharSetType) :
    getCtEncodeString (cstr t.name) = some t.encodeString := by
  cases t <;> decide

theorem encodeString_esc (t : CharSetType) : ∃ l, t.encodeString = 0x1b :: l := by
  cases t <;> exact ⟨_, rfl⟩

/-- No escape sequence is the beginning of another. -/
theorem encodeString_unique {t t' : CharSetType} (h : t.encodeString <+: t'.encodeString) :
    t = t' := by
  revert h
  cases t <;> cases t' <;> decide

theorem getCharsetWithEncodeString_eq {s : Ptr} {t : CharSetType} (h : Holds s 0 t.encodeString) :
    getCharsetWithEncodeString s = some t := by
  have hreads : ∀ t', reads s 0 t'.encodeString = decide (t' = t) := by
    intro t'
    rw [Bool.eq_iff_iff, reads_iff, decide_eq_true_iff]
    constructor
    · intro h'
      rcases holds_comparable h' h with hp | hp
      · exact encodeString_unique hp
      · exact (encodeString_unique hp).symm
    · intro e
      rwa [e]
  simp only [getCharsetWithEncodeString, defaultCtData, hreads]
  cases t <;> decide

/-! ## A branch of an encoder -/

/-- The charsets' numbers in `gb18030_mbstocts`. -/
def CharSetType.mbNumber : CharSetType → Nat
  | .ascii => 3
  | .gb2312 => 2
  | .gb18030_0 => 4
  | .gb18030_1 => 5

/-- The charsets' numbers in `gb18030_wcstocts`. -/
def CharSetType.wcNumber : CharSetType → Nat
  | .ascii => 3
  | .gb2312 => 1
  | .gb18030_0 => 2
  | .gb18030_1 => 6

/-- `flag` after a character of charset `prev`. -/
def flagOf (number : CharSetType → Nat) : Option CharSetType → Nat
  | none => 0
  | some t => number t

/-- Numbers that tell the charsets apart, and from no charset. -/
def IsNumbering (number : CharSetType → Nat) : Prop :=
  (∀ t, number t ≠ 0) ∧ Function.Injective number

theorem mbNumber_numbering : IsNumbering CharSetType.mbNumber := by
  refine ⟨?_, ?_⟩
  · intro t
    cases t <;> decide
  · intro t t'
    cases t <;> cases t' <;> decide

theorem wcNumber_numbering : IsNumbering CharSetType.wcNumber := by
  refine ⟨?_, ?_⟩
  · intro t
    cases t <;> decide
  · intro t t'
    cases t <;> cases t' <;> decide

section Branch

variable {fromLeft toLeft : Int} {prev : Option CharSetType} {t : CharSetType} {s : CtState}
  {number : CharSetType → Nat}

/-- The test of the branches is whether the charset changes. -/
theorem IsNumbering.changes_iff (hn : IsNumbering number) (hflag : s.flag = flagOf number prev) :
    (s.flag = 0 ∨ s.flag ≠ number t) ↔ prev ≠ some t := by
  rw [hflag]
  cases prev with
  | none => simp [flagOf]
  | some t' => simp [flagOf, hn.1 t', hn.2.eq_iff]

/-- The first half of a branch. -/
theorem ctEscape_eq (hn : IsNumbering number) (hflag : s.flag = flagOf number prev) (n : Nat) :
    ctEscape fromLeft toLeft t.name (number t) n s =
      if prev = some t then .next s
      else if toLeft ≤ s.out.length + t.encodeString.length + n then
        .leave (s.finish fromLeft toLeft)
      else .next { s with out := s.out ++ t.encodeString, flag := number t } := by
  rw [ctEscape, if_congr (hn.changes_iff hflag) rfl rfl, ite_not, getCtEncodeString_name]

/-- The first half of a branch, with room. -/
theorem ctEscape_room (hn : IsNumbering number) (hflag : s.flag = flagOf number prev) {n : Nat}
    (hroom : s.out.length + (ctSwitch prev t).length + n < toLeft) :
    ctEscape fromLeft toLeft t.name (number t) n s =
      .next { s with out := s.out ++ ctSwitch prev t, flag := number t } := by
  rw [ctEscape_eq hn hflag]
  unfold ctSwitch at *
  by_cases hsame : prev = some t
  · have hsflag : s.flag = number t := by rw [hflag, hsame, flagOf]
    rw [if_pos hsame, if_pos hsame, List.append_nil, ← hsflag]
  · rw [if_neg hsame] at hroom
    rw [if_neg hsame, if_neg hsame, if_neg (by omega)]

/-- A branch writes the character if there is room, and leaves the loop otherwise. -/
theorem ctChar_eq (hn : IsNumbering number) (hflag : s.flag = flagOf number prev) (l : List UInt8)
    (n : Nat) :
    ctChar fromLeft toLeft t.name (number t) l n s =
      if toLeft ≤ s.out.length + (ctSwitch prev t).length + l.length then
        .leave (s.finish fromLeft toLeft)
      else .next { s with
        i := s.i + n
        out := s.out ++ ctSwitch prev t ++ l
        flag := number t } := by
  by_cases hroom : s.out.length + (ctSwitch prev t).length + l.length < toLeft
  · rw [ctChar, ctEscape_room hn hflag hroom, if_neg (by omega)]
    simp only [Pass.andThen, List.length_append]
    exact if_neg (by omega)
  · rw [if_pos (by omega), ctChar, ctEscape_eq hn hflag]
    unfold ctSwitch at hroom
    by_cases hsame : prev = some t
    · rw [if_pos hsame, List.length_nil] at hroom
      rw [if_pos hsame]
      exact if_pos (by omega)
    · rw [if_neg hsame] at hroom
      rw [if_neg hsame, if_pos (by omega)]
      rfl

end Branch

/-! ## `gb18030_mbstocts` -/

section Mbstocts

variable {fromLeft toLeft : Int} {p : Ptr}

theorem ctEscape_i {charset : String} {number n : Nat} {s s' : CtState}
    (h : ctEscape fromLeft toLeft charset number n s = .next s') : s'.i = s.i := by
  unfold ctEscape at h
  split at h
  · split at h
    · cases h
    · split at h
      · cases h
      · cases h
        rfl
  · cases h
    rfl

theorem ctChar_i {charset : String} {number n : Nat} {l : List UInt8} {s s' : CtState}
    (h : ctChar fromLeft toLeft charset number l n s = .next s') : s'.i = s.i + n := by
  obtain ⟨s1, he, hs1⟩ := Pass.andThen_eq_next h
  split at hs1
  · cases hs1
  · cases hs1
    rw [ctEscape_i he]

/-- Every pass moves on in the text. -/
theorem mbstoctsPass_lt {s s' : CtState} (h : mbstoctsPass fromLeft toLeft p s = .next s') :
    (fromLeft - s'.i).toNat < (fromLeft - s.i).toNat := by
  unfold mbstoctsPass at h
  split at h
  · next hi =>
    suffices s.i < s'.i by omega
    simp only at h
    split at h
    · have := ctChar_i h
      omega
    · split at h
      · have := ctChar_i h
        omega
      · split at h
        · have := ctChar_i h
          omega
        · split at h
          · have := ctChar_i h
            omega
          · cases h
            exact Nat.lt_succ_self _
  · cases h

/-- A pass at a character: it is written, unless there is no room for it. -/
theorem mbstoctsPass_char {c : GbChar} {s : CtState} {prev : Option CharSetType}
    (hp : Holds p s.i c.bytes) (hflag : s.flag = flagOf CharSetType.mbNumber prev)
    (hi : s.i < fromLeft) :
    mbstoctsPass fromLeft toLeft p s =
      if toLeft ≤ s.out.length + (ctSwitch prev c.charSetType).length + c.ctBytes.length then
        .leave (s.finish fromLeft toLeft)
      else .next { s with
        i := s.i + c.bytes.length
        out := s.out ++ ctSwitch prev c.charSetType ++ c.ctBytes
        flag := c.charSetType.mbNumber } := by
  by_cases hj : s.out.length < toLeft
  · have hp' := holds_plus hp
    rw [← ctChar_eq mbNumber_numbering hflag c.ctBytes c.bytes.length]
    unfold mbstoctsPass
    rw [if_pos ⟨hi, hj⟩]
    cases c with
    | ascii b hb =>
      obtain ⟨h1, h2, h4, -⟩ := Ptr.at_ascii hb hp'
      obtain ⟨h0, -⟩ := hp'
      simp only [h1, h2, h4, h0, hb, Bool.false_eq_true, if_false, if_true]
      rfl
    | two b0 b1 hb =>
      obtain ⟨h1, h2⟩ := Ptr.at_two hb hp'
      obtain ⟨h0, h1', -⟩ := hp'
      by_cases hgb : isgb (.ofList [b0, b1]) = true
      · rw [hgb] at h1
        simp only [h1, h0, h1', if_true, GbChar.ctBytes, GbChar.charSetType, hgb]
        rfl
      · rw [Bool.not_eq_true] at hgb
        rw [hgb] at h1
        simp only [h1, h2, h0, h1', Bool.false_eq_true, if_false, if_true, GbChar.ctBytes,
          GbChar.charSetType, hgb, reduceCtorEq, and_byte]
        rfl
    | four b0 b1 b2 b3 hb =>
      obtain ⟨h1, h2, h4⟩ := Ptr.at_four hb hp'
      obtain ⟨h0, h1', h2', h3', -⟩ := hp'
      simp only [h1, h2, h4, h0, h1', h2', h3', Bool.false_eq_true, if_false, if_true]
      rfl
  · unfold mbstoctsPass
    rw [if_neg (by omega), if_pos (by omega)]

/-- Over the characters: the encoder stops for want of room, or has written all of them. -/
theorem mbstocts_run (toLeft : Int) (prev : Option CharSetType) {cs : List GbChar} {s : CtState}
    (hp : Holds p s.i (text cs)) (hflag : s.flag = flagOf CharSetType.mbNumber prev)
    (hlen : fromLeft = s.i + (text cs).length) :
    ∃ s' : CtState, Leaves (mbstoctsPass fromLeft toLeft p) s (s'.finish fromLeft toLeft) ∧
      s'.unconvNum = s.unconvNum ∧
      (s'.i < fromLeft ∧ toLeft ≤ s.out.length + (ctText GbChar.ctBytes prev cs).length ∨
        s'.i = fromLeft ∧ s'.out = s.out ++ ctText GbChar.ctBytes prev cs) := by
  induction cs generalizing s prev with
  | nil =>
    simp only [text, List.flatMap_nil, List.length_nil] at hlen
    refine ⟨s, .leave ?_, rfl, .inr ⟨by omega, ?_⟩⟩
    · rw [mbstoctsPass, if_neg (by omega)]
    · rw [ctText, List.append_nil]
  | cons c cs ih =>
    rw [text_cons, List.length_append] at hlen
    obtain ⟨hc, hcs⟩ := holds_append.mp hp
    have hpos := c.bytes_length_pos
    have hpass := @mbstoctsPass_char fromLeft toLeft p c s prev hc hflag (by omega)
    by_cases hroom : toLeft ≤ s.out.length + (ctSwitch prev c.charSetType).length + c.ctBytes.length
    · rw [if_pos hroom] at hpass
      refine ⟨s, .leave hpass, rfl, .inl ⟨by omega, ?_⟩⟩
      simp only [ctText, List.length_append]
      omega
    · rw [if_neg hroom] at hpass
      have hrest : fromLeft = ((s.i + c.bytes.length : Nat) : Int) + (text cs).length := by omega
      have hnew : c.charSetType.mbNumber = flagOf CharSetType.mbNumber (some c.charSetType) := rfl
      obtain ⟨s', hleaves, hunconv, hend⟩ := ih _ (s := ⟨s.i + c.bytes.length,
        s.out ++ ctSwitch prev c.charSetType ++ c.ctBytes, _, s.unconvNum⟩) hcs hnew hrest
      refine ⟨s', .next hpass hleaves, hunconv, ?_⟩
      simp only [ctText, List.append_assoc, List.length_append] at hend ⊢
      rcases hend with ⟨hi, hfull⟩ | hend
      · exact .inl ⟨hi, by omega⟩
      · exact .inr hend

/-- `gb18030_mbstocts` on text: it stops for want of room, or writes the compound text. -/
theorem gb18030Mbstocts_text {cs : List GbChar} (hp : Holds p 0 (text cs)) (toLeft : Int) :
    ∃ r, gb18030Mbstocts (text cs).length toLeft p = some r ∧
      (r.fromLeft ≠ 0 ∧ toLeft ≤ (ctText GbChar.ctBytes none cs).length ∨
        r.fromLeft = 0 ∧ r.written = ctText GbChar.ctBytes none cs) := by
  obtain ⟨s, hleaves, -, hend⟩ := mbstocts_run toLeft none (s := .start) hp rfl
    (Int.zero_add _).symm
  have hloop := loop_of_leaves (μ := fun s => (((text cs).length : Int) - s.i).toNat)
    (fun _ _ h => mbstoctsPass_lt h) hleaves ((text cs).length + 1) (by simp [CtState.start])
  refine ⟨_, hloop, ?_⟩
  simp only [CtState.start, List.length_nil, List.nil_append] at hend
  simp only [CtState.finish]
  rcases hend with ⟨hi, hfull⟩ | ⟨hi, hout⟩
  · exact .inl ⟨by omega, by omega⟩
  · exact .inr ⟨by omega, hout⟩

end Mbstocts

/-! ## `gb18030_wcstocts` -/

section Wcstocts

variable {fromLeft toLeft : Int} {W : Type*} {wctomb : W → Option (List UInt8)} {pwc : Nat → W}

/-- A pass at a character with room for it. -/
theorem wcstoctsPass_char {c : GbChar} {s : CtState} {q : Ptr} {prev : Option CharSetType}
    (hw : wctomb (pwc s.i) = some c.bytes) (hflag : s.flag = flagOf CharSetType.wcNumber prev)
    (hi : s.i < fromLeft)
    (hroom : s.out.length + (ctSwitch prev c.charSetType).length + c.bytes.length < toLeft) :
    wcstoctsPass fromLeft toLeft wctomb pwc (s, q) =
      .next ({ s with
        i := s.i + 1
        out := s.out ++ ctSwitch prev c.charSetType ++ c.bytes
        flag := c.charSetType.wcNumber }, q.store c.bytes) := by
  have hp := q.store_holds c.bytes
  have hchar := @ctChar_eq fromLeft toLeft prev c.charSetType { s with i := s.i + 1 } _
    wcNumber_numbering hflag c.bytes 0
  rw [if_neg (by simp only; omega)] at hchar
  simp only [wcstoctsPass, hw]
  rw [if_pos hi]
  cases c with
  | ascii b hb =>
    obtain ⟨h1, h2, h4, -⟩ := Ptr.at_ascii hb hp
    obtain ⟨h0, -⟩ := hp
    have hescape : ctEscape fromLeft toLeft "ASCII" 3 1 { s with i := s.i + 1 } = _ :=
      ctEscape_room (t := .ascii) (s := { s with i := s.i + 1 }) wcNumber_numbering hflag hroom
    simp only [h1, h2, h4, h0, hb, Bool.false_eq_true, if_false, if_true]
    rw [hescape]
    rfl
  | two b0 b1 hb =>
    obtain ⟨h1, h2⟩ := Ptr.at_two hb hp
    obtain ⟨h0, h1', -⟩ := hp
    by_cases hgb : isgb (.ofList [b0, b1]) = true
    · rw [hgb] at h1
      simp only [GbChar.charSetType, hgb, if_true] at hchar ⊢
      simp only [h1, h0, h1', if_true]
      exact congrArg (Pass.map _) hchar
    · rw [Bool.not_eq_true] at hgb
      rw [hgb] at h1
      simp only [GbChar.charSetType, hgb, Bool.false_eq_true, if_false] at hchar ⊢
      simp only [h1, h2, h0, h1', Bool.false_eq_true, if_false, if_true]
      exact congrArg (Pass.map _) hchar
  | four b0 b1 b2 b3 hb =>
    obtain ⟨h1, h2, h4⟩ := Ptr.at_four hb hp
    obtain ⟨h0, h1', h2', h3', -⟩ := hp
    simp only [h1, h2, h4, h0, h1', h2', h3', Bool.false_eq_true, if_false, if_true]
    exact congrArg (Pass.map _) hchar

/-- Every pass moves on in the text. -/
theorem wcstoctsPass_lt {s s' : CtState × Ptr}
    (h : wcstoctsPass fromLeft toLeft wctomb pwc s = .next s') :
    (fromLeft - s'.1.i).toNat < (fromLeft - s.1.i).toNat := by
  obtain ⟨s, q⟩ := s
  obtain ⟨s', q'⟩ := s'
  simp only [wcstoctsPass] at h
  split at h
  · next hi =>
    suffices s'.i = s.i + 1 by
      simp only
      omega
    split at h
    · cases h
    · obtain ⟨s1, hs1, hs'⟩ := Pass.map_eq_next h
      obtain ⟨rfl, -⟩ := Prod.mk.inj hs'
      split at hs1
      · exact (ctChar_i hs1).trans (Nat.add_zero _)
      · split at hs1
        · exact (ctChar_i hs1).trans (Nat.add_zero _)
        · split at hs1
          · exact (ctChar_i hs1).trans (Nat.add_zero _)
          · split at hs1
            · obtain ⟨s2, hs2, hnext⟩ := Pass.andThen_eq_next hs1
              cases hnext
              exact ctEscape_i hs2
            · cases hs1
              rfl
  · cases h

/-- Over the characters, with room for all of them. -/
theorem wcstocts_run (prev : Option CharSetType) {cs : List GbChar} {ws : List W} {s : CtState}
    {q : Ptr} (hp : Holds pwc s.i ws)
    (hw : List.Forall₂ (fun w c => wctomb w = some (GbChar.bytes c)) ws cs)
    (hflag : s.flag = flagOf CharSetType.wcNumber prev) (hlen : fromLeft = s.i + ws.length)
    (hroom : s.out.length + (ctText GbChar.bytes prev cs).length < toLeft) :
    ∃ s' : CtState, Leaves (wcstoctsPass fromLeft toLeft wctomb pwc) (s, q)
        (s'.finish fromLeft toLeft) ∧
      s'.i = fromLeft ∧ s'.out = s.out ++ ctText GbChar.bytes prev cs := by
  induction hw generalizing s q prev with
  | nil =>
    simp only [List.length_nil] at hlen
    refine ⟨s, .leave ?_, by omega, ?_⟩
    · simp only [wcstoctsPass]
      rw [if_neg (by omega)]
    · rw [ctText, List.append_nil]
  | @cons w c ws cs hwc _ ih =>
    simp only [ctText, List.length_append] at hroom
    rw [List.length_cons] at hlen
    obtain ⟨hpw, hpws⟩ := hp
    have hnew : c.charSetType.wcNumber = flagOf CharSetType.wcNumber (some c.charSetType) := rfl
    have hrest : fromLeft = ((s.i + 1 : Nat) : Int) + ws.length := by omega
    obtain ⟨s', hleaves, hi, hout⟩ := ih _ (s := ⟨s.i + 1,
      s.out ++ ctSwitch prev c.charSetType ++ c.bytes, _, s.unconvNum⟩) (q := q.store c.bytes)
      hpws hnew hrest (by simp only [List.length_append]; omega)
    refine ⟨s', .next (wcstoctsPass_char (hpw ▸ hwc) hflag (by omega) (by omega)) hleaves, hi, ?_⟩
    rw [hout]
    simp only [ctText, List.append_assoc]

/-- `gb18030_wcstocts` on wide characters of GB18030, with room. -/
theorem gb18030Wcstocts_text {cs : List GbChar} {ws : List W} (hp : Holds pwc 0 ws)
    (hw : List.Forall₂ (fun w c => wctomb w = some (GbChar.bytes c)) ws cs) (q : Ptr)
    (hroom : (ctText GbChar.bytes none cs).length < toLeft) :
    ∃ r, gb18030Wcstocts ws.length toLeft wctomb q pwc = some r ∧
      r.fromLeft = 0 ∧ r.written = ctText GbChar.bytes none cs := by
  obtain ⟨s, hleaves, hi, hout⟩ := wcstocts_run none (s := .start) (q := q) hp hw rfl
    (Int.zero_add _).symm (by simpa [CtState.start] using hroom)
  have hloop := loop_of_leaves (μ := fun s => ((ws.length : Int) - s.1.i).toNat)
    (fun _ _ h => wcstoctsPass_lt h) hleaves (ws.length + 1) (by simp [CtState.start])
  refine ⟨_, hloop, ?_, hout⟩
  show (ws.length : Int) - s.i = 0
  omega

end Wcstocts

/-! ## `gb18030_ctstombs` -/

section Ctstombs

variable {fromLeft : Int} {p : Ptr}

theorem segmentChar_i {saveOutbuf ok : Bool} {l : List UInt8} {s s' : CtsState}
    (h : segmentChar fromLeft saveOutbuf ok l s = .next s') :
    s'.i = s.i + l.length ∧ s'.seg = s.seg ∨ s'.i = s.i ∧ s'.seg = none := by
  unfold segmentChar at h
  split at h
  · split at h
    · cases h
    · cases h
      exact .inl ⟨rfl, rfl⟩
  · cases h
    exact .inr ⟨rfl, rfl⟩

/-- What is left to do: two passes a byte, and one to leave a charset's loop. -/
def CtsState.measure (fromLeft : Int) (s : CtsState) : Nat :=
  2 * (fromLeft - s.i).toNat + (if s.seg.isSome then 1 else 0)

/-- Every pass moves on in the text, or leaves a charset's loop. -/
theorem ctstombsPass_lt {saveOutbuf : Bool} {s s' : CtsState}
    (h : ctstombsPass fromLeft saveOutbuf p s = .next s') :
    s'.measure fromLeft < s.measure fromLeft := by
  cases hseg : s.seg with
  | none =>
    simp only [ctstombsPass, hseg] at h
    split at h
    · next hi =>
      have hmoved : ∀ {n : Nat}, 0 < n → s'.i = s.i + n →
          s'.measure fromLeft < s.measure fromLeft := by
        intro n hn hi'
        simp only [CtsState.measure, hseg, hi', Option.isSome_none, Bool.false_eq_true, if_false]
        split <;> omega
      split at h
      · split at h
        · next t _ =>
          cases h
          refine hmoved (n := t.encodeString.length) ?_ rfl
          obtain ⟨l, hl⟩ := encodeString_esc t
          simp [hl]
        · cases h
          exact hmoved (n := 1) (by decide) rfl
      · split at h
        · split at h
          · cases h
          · cases h
            exact hmoved (n := 1) (by decide) rfl
        · cases h
          exact hmoved (n := 1) (by decide) rfl
    · cases h
  | some t =>
    simp only [ctstombsPass, hseg] at h
    split at h
    · cases h
    · next hi =>
      have hmoved : ∀ {n : Nat}, 0 < n →
          (s'.i = s.i + n ∧ s'.seg = s.seg ∨ s'.i = s.i ∧ s'.seg = none) →
          s'.measure fromLeft < s.measure fromLeft := by
        intro n hn hor
        rcases hor with ⟨hi', hseg'⟩ | ⟨hi', hseg'⟩
        · simp only [CtsState.measure, hseg', hi']
          omega
        · simp only [CtsState.measure, hseg', hseg, hi', Option.isSome_none, Option.isSome_some,
            Bool.false_eq_true, if_false, if_true]
          omega
      cases t with
      | ascii => exact hmoved (by simp) (segmentChar_i h)
      | gb2312 => exact hmoved (by simp) (segmentChar_i h)
      | gb18030_0 => exact hmoved (by simp) (segmentChar_i h)
      | gb18030_1 => exact hmoved (by simp) (segmentChar_i h)

/-- A character the decoder takes for text: of ASCII, newline, tab and what is not a control. -/
def GbChar.IsText : GbChar → Prop
  | .ascii b _ => b = 0x0a ∨ b = 0x09 ∨ 0x20 ≤ b
  | _ => True

theorem isText_ascii {b : UInt8} (hb : isAscii b = true) (h : b = 0x0a ∨ b = 0x09 ∨ 0x20 ≤ b) :
    isText b = true := by
  simp only [isText, hb, Bool.and_true, Bool.or_eq_true, decide_eq_true_iff]
  exact or_assoc.mpr h

theorem segmentChar_put {l : List UInt8} {s : CtsState} (hto : l.length ≤ s.toLeft)
    (hfrom : l.length ≤ fromLeft) :
    segmentChar fromLeft true true l s = .next (s.put true l) := by
  rw [segmentChar, if_pos rfl, if_neg (by omega)]

/-- In the loop of its charset, a character is put into the text. -/
theorem ctstombsPass_char {c : GbChar} (htext : c.IsText) {s : CtsState}
    (hseg : s.seg = some c.charSetType) (hp : Holds p s.i c.ctBytes)
    (hfrom : s.i + c.bytes.length ≤ fromLeft) (hto : c.bytes.length ≤ s.toLeft) :
    ctstombsPass fromLeft true p s = .next (s.put true c.bytes) := by
  have hpos := c.bytes_length_pos
  have hput : segmentChar fromLeft true true c.bytes s = .next (s.put true c.bytes) :=
    segmentChar_put hto (by omega)
  rw [← hput]
  simp only [ctstombsPass, hseg]
  rw [if_neg (by omega)]
  have hp' := holds_plus hp
  cases c with
  | ascii b hb =>
    obtain ⟨h0, -⟩ := hp'
    simp only [GbChar.charSetType, h0, isText_ascii hb htext]
    rfl
  | two b0 b1 hb =>
    by_cases hgb : isgb (.ofList [b0, b1]) = true
    · simp only [GbChar.ctBytes, GbChar.charSetType, hgb, if_true] at hp'
      obtain ⟨h0, h1, -⟩ := hp'
      have hr := isgb_iff.mp hgb
      simp only [Ptr.ofList, List.getD_cons_zero, List.getD_cons_succ] at hr
      have e0 : (b0 &&& 0x7f &&& 0x7f) ||| 0x80 = b0 := by
        rw [UInt8.and_assoc, UInt8.and_self, or_and_high (by omega)]
      have e1 : (b1 &&& 0x7f &&& 0x7f) ||| 0x80 = b1 := by
        rw [UInt8.and_assoc, UInt8.and_self, or_and_high (by omega)]
      have hstore := Ptr.at_two hb ((p.plus s.i).store_holds [b0, b1])
      simp only [GbChar.charSetType, hgb, if_true, h0, h1, e0, e1, hstore.1]
      rfl
    · rw [Bool.not_eq_true] at hgb
      simp only [GbChar.ctBytes, GbChar.charSetType, hgb, Bool.false_eq_true, if_false,
        reduceCtorEq] at hp'
      have h2 := (Ptr.at_two hb hp').2
      obtain ⟨h0, h1, -⟩ := hp'
      simp only [GbChar.charSetType, hgb, Bool.false_eq_true, if_false, h2, h0, h1]
      rfl
  | four b0 b1 b2 b3 hb =>
    have h4 := (Ptr.at_four hb hp').2.2
    obtain ⟨h0, h1, h2, h3, -⟩ := hp'
    simp only [GbChar.charSetType, h4, h0, h1, h2, h3]
    rfl

/-- An escape ends the loop of any charset. -/
theorem ctstombsPass_leave {s : CtsState} {t : CharSetType} (hseg : s.seg = some t)
    (hesc : p s.i = 0x1b) (hi : s.i < fromLeft) :
    ctstombsPass fromLeft true p s = .next { s with seg := none } := by
  have h0 : p.plus s.i 0 = 0x1b := hesc
  simp only [ctstombsPass, hseg]
  rw [if_neg (by omega)]
  cases t with
  | ascii =>
    have hno : isText (p.plus s.i 0) = false := by
      rw [h0]
      decide
    simp only [hno, segmentChar, Bool.false_eq_true, if_false]
  | gb2312 =>
    have hno : isgb ((p.plus s.i).store
        [(p.plus s.i 0 &&& 0x7f) ||| 0x80, (p.plus s.i 1 &&& 0x7f) ||| 0x80]) = false := by
      rw [h0]
      rfl
    simp only [hno, segmentChar, Bool.false_eq_true, if_false]
  | gb18030_0 =>
    have hno : isgb18030_2 (p.plus s.i) = false := by
      rw [isgb18030_2, h0]
      rfl
    simp only [hno, segmentChar, Bool.false_eq_true, if_false]
  | gb18030_1 =>
    have hno : isgb18030_4 (p.plus s.i) = false := by
      rw [isgb18030_4, h0]
      rfl
    simp only [hno, segmentChar, Bool.false_eq_true, if_false]

/-- An escape sequence selects its charset. -/
theorem ctstombsPass_enter {s : CtsState} {t : CharSetType} (hseg : s.seg = none)
    (hp : Holds p s.i t.encodeString) (hi : s.i < fromLeft) :
    ctstombsPass fromLeft true p s =
      .next { s with i := s.i + t.encodeString.length, seg := some t } := by
  have hp' := holds_plus hp
  have h0 : p.plus s.i 0 = 0x1b := by
    obtain ⟨l, hl⟩ := encodeString_esc t
    rw [hl] at hp'
    exact hp'.1
  simp only [ctstombsPass, hseg]
  rw [if_pos hi, if_pos h0, getCharsetWithEncodeString_eq hp']

/-- Whatever loop the decoder is in, it goes over to that of the next character. -/
theorem ctstombs_switch {s : CtsState} {t : CharSetType} {r : Converted}
    (hp : Holds p s.i (ctSwitch s.seg t)) (hi : s.i < fromLeft)
    (h : Leaves (ctstombsPass fromLeft true p)
      { s with i := s.i + (ctSwitch s.seg t).length, seg := some t } r) :
    Leaves (ctstombsPass fromLeft true p) s r := by
  unfold ctSwitch at hp h
  by_cases hsame : s.seg = some t
  · rw [if_pos hsame, ← hsame] at h
    exact h
  · rw [if_neg hsame] at hp h
    cases hseg : s.seg with
    | none => exact .next (ctstombsPass_enter hseg hp hi) h
    | some t' =>
      have hesc : p s.i = 0x1b := by
        obtain ⟨l, hl⟩ := encodeString_esc t
        rw [hl] at hp
        exact hp.1
      exact .next (ctstombsPass_leave hseg hesc hi)
        (.next (ctstombsPass_enter (s := { s with seg := none }) rfl hp hi) h)

/-- **The decoder over compound text** puts every character into the text. -/
theorem ctstombs_run {cs : List GbChar} (htext : ∀ c ∈ cs, c.IsText) {s : CtsState}
    (hp : Holds p s.i (ctText GbChar.ctBytes s.seg cs))
    (hlen : fromLeft = s.i + (ctText GbChar.ctBytes s.seg cs).length)
    (hto : (text cs).length ≤ s.toLeft) :
    ∃ s' : CtsState, Leaves (ctstombsPass fromLeft true p) s (s'.finish fromLeft) ∧
      s'.out = s.out ++ text cs ∧ s'.unconvNum = s.unconvNum ∧ s'.i = fromLeft := by
  induction cs generalizing s with
  | nil =>
    simp only [ctText, List.length_nil] at hlen
    refine ⟨s, .leave ?_, ?_, rfl, by omega⟩
    · cases hseg : s.seg with
      | none =>
        simp only [ctstombsPass, hseg]
        rw [if_neg (by omega)]
      | some t =>
        simp only [ctstombsPass, hseg]
        rw [if_pos (by omega)]
    · simp [text]
  | cons c cs ih =>
    simp only [ctText, List.length_append] at hp hlen
    rw [List.append_assoc] at hp
    obtain ⟨hswitch, hrest⟩ := holds_append.mp hp
    obtain ⟨hc, hcs⟩ := holds_append.mp hrest
    have hpos := c.bytes_length_pos
    have hctlen := c.ctBytes_length
    rw [text_cons, List.length_append] at hto
    rw [hctlen] at hcs
    have hchar := @ctstombsPass_char fromLeft p c (htext c List.mem_cons_self)
      { s with i := s.i + (ctSwitch s.seg c.charSetType).length, seg := some c.charSetType }
      rfl hc (by simp only; omega) (by simp only; omega)
    obtain ⟨s', hleaves, hout, hunconv, hi⟩ := ih
      (fun c' hc' => htext c' (List.mem_cons_of_mem c hc'))
      (s := CtsState.put true c.bytes
        { s with i := s.i + (ctSwitch s.seg c.charSetType).length, seg := some c.charSetType })
      hcs (by simp only [CtsState.put]; omega) (by simp only [CtsState.put]; omega)
    refine ⟨s', ctstombs_switch hswitch (by omega) (.next hchar hleaves), ?_, hunconv, hi⟩
    rw [hout, text_cons]
    simp [CtsState.put]

/-- `gb18030_ctstombs` on compound text, with room. -/
theorem gb18030Ctstombs_text {cs : List GbChar} (htext : ∀ c ∈ cs, c.IsText)
    (hp : Holds p 0 (ctText GbChar.ctBytes none cs)) {toLeft : Int}
    (hto : (text cs).length ≤ toLeft) :
    ∃ r, gb18030Ctstombs (ctText GbChar.ctBytes none cs).length true p toLeft = some r ∧
      r.written = text cs ∧ r.ret = 0 ∧ r.fromLeft = 0 := by
  obtain ⟨s, hleaves, hout, hunconv, hi⟩ := ctstombs_run htext (s := .start toLeft) hp
    (Int.zero_add _).symm hto
  have hloop := loop_of_leaves (μ := CtsState.measure _) (fun _ _ h => ctstombsPass_lt h) hleaves
    (2 * (ctText GbChar.ctBytes none cs).length + 1) (by simp [CtsState.measure, CtsState.start])
  refine ⟨_, hloop, hout, ?_, ?_⟩
  · simp [CtsState.finish, hunconv, CtsState.start]
  · show (if _ then (0 : Int) else _) = 0
    exact if_pos (by omega)

end Ctstombs

/-! ## There and back, and two ways there -/

/-- **Compound text and back**: whatever the characters and their order, if the encoder has taken all
of the text, the decoder makes it again from what the encoder wrote, and finds nothing it cannot
convert. -/
theorem compound_text_round_trip {cs : List GbChar} (htext : ∀ c ∈ cs, c.IsText) {p : Ptr}
    (hp : Holds p 0 (text cs)) (toLeft : Int) :
    ∃ r, gb18030Mbstocts (text cs).length toLeft p = some r ∧
      ((ctText GbChar.ctBytes none cs).length < toLeft → r.fromLeft = 0) ∧
      (r.fromLeft = 0 → ∀ (p' : Ptr) (toLeft' : Int), Holds p' 0 r.written →
        (text cs).length ≤ toLeft' →
        ∃ r', gb18030Ctstombs r.written.length true p' toLeft' = some r' ∧
          r'.written = text cs ∧ r'.ret = 0 ∧ r'.fromLeft = 0) := by
  obtain ⟨r, hr, hend⟩ := gb18030Mbstocts_text hp toLeft
  refine ⟨r, hr, ?_, ?_⟩
  · intro hroom
    rcases hend with ⟨-, hfull⟩ | ⟨hall, -⟩
    · omega
    · exact hall
  · intro hall p' toLeft' hp' hto'
    rcases hend with ⟨hsome, -⟩ | ⟨-, hwritten⟩
    · exact absurd hall hsome
    · rw [hwritten] at hp' ⊢
      exact gb18030Ctstombs_text htext hp' hto'

/-- A character of every charset. -/
theorem compound_text_round_trip_mixed : ∃ r r',
    gb18030Mbstocts 9 100 (.ofList [0x41, 0xb0, 0xa1, 0x81, 0x40, 0x81, 0x30, 0x81, 0x30]) = some r ∧
      gb18030Ctstombs r.written.length true (.ofList r.written) 9 = some r' ∧
      r'.written = [0x41, 0xb0, 0xa1, 0x81, 0x40, 0x81, 0x30, 0x81, 0x30] ∧ r'.ret = 0 := by
  let cs : List GbChar := [.ascii 0x41 (by decide), .two 0xb0 0xa1 (by decide),
    .two 0x81 0x40 (by decide), .four 0x81 0x30 0x81 0x30 (by decide)]
  have htext : ∀ c ∈ cs, c.IsText := by
    simp only [cs, List.forall_mem_cons]
    exact ⟨.inr (.inr (by decide)), trivial, trivial, trivial, by simp⟩
  obtain ⟨r, hr, hroom, hback⟩ := compound_text_round_trip htext (Ptr.holds_ofList (text cs)) 100
  obtain ⟨r', hr', hwritten, hret, -⟩ := hback (hroom (by decide)) _ 9
    (Ptr.holds_ofList r.written) (by decide)
  exact ⟨r, r', hr, hr', hwritten, hret⟩

theorem ctText_length (f g : GbChar → List UInt8) (h : ∀ c, (f c).length = (g c).length)
    (prev : Option CharSetType) (cs : List GbChar) :
    (ctText f prev cs).length = (ctText g prev cs).length := by
  induction cs generalizing prev with
  | nil => rfl
  | cons c cs ih => simp only [ctText, List.length_append, h c, ih]

/-- Compound texts with characters of the same lengths agree only character by character. -/
theorem ctText_eq_iff {f g : GbChar → List UInt8} (h : ∀ c, (f c).length = (g c).length)
    {prev : Option CharSetType} {cs : List GbChar} :
    ctText f prev cs = ctText g prev cs ↔ ∀ c ∈ cs, f c = g c := by
  induction cs generalizing prev with
  | nil => simp [ctText]
  | cons c cs ih =>
    simp only [ctText, List.append_assoc, List.append_cancel_left_eq, List.forall_mem_cons]
    constructor
    · intro e
      obtain ⟨hc, hcs⟩ := List.append_inj e (h c)
      exact ⟨hc, ih.mp hcs⟩
    · intro ⟨hc, hcs⟩
      rw [hc, ih.mpr hcs]

/-- Only GB2312 characters look different without their high bits. -/
theorem ctBytes_eq_iff (c : GbChar) : c.ctBytes = c.bytes ↔ c.charSetType ≠ .gb2312 := by
  unfold GbChar.ctBytes
  split
  · next hgb =>
    simp only [hgb, ne_eq, not_true_eq_false, iff_false]
    cases c with
    | ascii b hb => cases hgb
    | two b0 b1 hb =>
      have h2 := isgb18030_2_iff.mp hb
      simp only [Ptr.ofList, List.getD_cons_zero, List.getD_cons_succ] at h2
      intro e
      simp only [GbChar.bytes, List.map_cons, List.cons.injEq] at e
      exact and_high_ne (by omega) e.1
    | four b0 b1 b2 b3 hb => cases hgb
  · next hgb => simp [hgb]

/-- **The two encoders agree** exactly on texts without GB2312 characters. -/
theorem encoders_agree_iff {W : Type*} {wctomb : W → Option (List UInt8)} {pwc : Nat → W}
    {ws : List W} {cs : List GbChar} (hpwc : Holds pwc 0 ws)
    (hw : List.Forall₂ (fun w c => wctomb w = some (GbChar.bytes c)) ws cs) {p : Ptr}
    (hp : Holds p 0 (text cs)) (q : Ptr) {toLeft toLeft' : Int}
    (hto : (ctText GbChar.ctBytes none cs).length < toLeft)
    (hto' : (ctText GbChar.ctBytes none cs).length < toLeft') :
    ∃ r r', gb18030Mbstocts (text cs).length toLeft p = some r ∧
      gb18030Wcstocts ws.length toLeft' wctomb q pwc = some r' ∧
      r.fromLeft = 0 ∧ r'.fromLeft = 0 ∧
      (r'.written = r.written ↔ ∀ c ∈ cs, c.charSetType ≠ .gb2312) := by
  have hsize := ctText_length GbChar.ctBytes GbChar.bytes GbChar.ctBytes_length none cs
  obtain ⟨r, hr, hend⟩ := gb18030Mbstocts_text hp toLeft
  obtain ⟨r', hr', hall', hwritten'⟩ := gb18030Wcstocts_text hpwc hw q (hsize ▸ hto')
  rcases hend with ⟨-, hfull⟩ | ⟨hall, hwritten⟩
  · omega
  · refine ⟨r, r', hr, hr', hall, hall', ?_⟩
    rw [hwritten, hwritten', eq_comm, ctText_eq_iff GbChar.ctBytes_length]
    exact forall₂_congr fun c _ => ctBytes_eq_iff c

/-- The letter A and a four-byte character. -/
theorem encoders_agree_ascii_four : ∃ r r',
    gb18030Mbstocts 5 100 (.ofList [0x41, 0x81, 0x30, 0x81, 0x30]) = some r ∧
      gb18030Wcstocts 2 100 (fun w : Nat => if w = 0x41 then some [0x41] else
        if w = 0x80 then some [0x81, 0x30, 0x81, 0x30] else none) (.ofList [])
        (fun k => if k = 0 then 0x41 else 0x80) = some r' ∧
      r'.written = r.written := by
  let wctomb : Nat → Option (List UInt8) := fun w =>
    if w = 0x41 then some [0x41] else if w = 0x80 then some [0x81, 0x30, 0x81, 0x30] else none
  let cs : List GbChar := [.ascii 0x41 (by decide), .four 0x81 0x30 0x81 0x30 (by decide)]
  have hpwc : Holds (fun k => if k = 0 then 0x41 else 0x80) 0 [0x41, 0x80] := ⟨rfl, rfl, trivial⟩
  have hw : List.Forall₂ (fun w c => wctomb w = some (GbChar.bytes c)) [0x41, 0x80] cs :=
    .cons rfl (.cons rfl .nil)
  have hto : (ctText GbChar.ctBytes none cs).length < (100 : Int) := by decide
  obtain ⟨r, r', hr, hr', -, -, hagree⟩ :=
    encoders_agree_iff hpwc hw (Ptr.holds_ofList (text cs)) (.ofList []) hto hto
  exact ⟨r, r', hr, hr', hagree.mpr (by decide)⟩

/-- The first GB2312 character of level 1: one encoder strips the high bits, the other does not. -/
theorem encoders_disagree_gb2312 : ∃ r r',
    gb18030Mbstocts 2 100 (.ofList [0xb0, 0xa1]) = some r ∧
      gb18030Wcstocts 1 100 (fun _ : Nat => some [0xb0, 0xa1]) (.ofList []) (fun _ => 0x554a) =
        some r' ∧
      r.fromLeft = 0 ∧ r'.fromLeft = 0 ∧ r.written = [0x1b, 0x24, 0x28, 0x41, 0x30, 0x21] ∧
      r'.written = [0x1b, 0x24, 0x28, 0x41, 0xb0, 0xa1] ∧ r'.written ≠ r.written :=
  ⟨_, _, rfl, rfl, by decide, by decide, by decide, by decide, by decide⟩

end X11
