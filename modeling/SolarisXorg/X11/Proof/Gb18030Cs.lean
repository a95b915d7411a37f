import SolarisXorg.X11.Proof.Gb18030Char

/-!
# Multibyte text to charset text and back

Both converters go over the text character by character (`leaves_chars`): `MbstocsAt` and
`CstombsAt` say where they stand. `gb18030_cstombs` does not move in GB18030-1 text and converts its
first character over and over (`CstombsFourAt`), so that the way back works for the other two
charsets only (`charset_round_trip_iff`).
-/

namespace X11

open Lib

/-! ## Passes -/

theorem endPass_next {numArgs : Nat} {s s' : CsState} (h : s.endPass numArgs = .next s') :
    s' = s ∧ 0 < s.fromLeft := by
  unfold CsState.endPass at h
  split at h
  · cases h
  · cases h
    exact ⟨rfl, by omega⟩

/-- A pass that takes something lowers `*from_left`. -/
theorem move_endPass_lt {numArgs n : Nat} {l : List UInt8} {fromSize toSize : Int}
    {s s' t : CsState} (h : (t.move n l fromSize toSize).endPass numArgs = .next s')
    (ht : t.fromLeft = s.fromLeft) (hpos : 0 < fromSize) :
    s'.fromLeft.toNat < s.fromLeft.toNat := by
  obtain ⟨rfl, hmore⟩ := endPass_next h
  simp only [CsState.move] at hmore ⊢
  omega

/-- A converter that takes one character a pass ends behind the last one. -/
theorem leaves_chars (body : CsState → Pass CsState Converted) (numArgs : Nat)
    {P : CsState → List GbChar → Prop}
    (hstep : ∀ s c cs, P s (c :: cs) → ∃ s', body s = s'.endPass numArgs ∧ P s' cs)
    (hleft : ∀ s cs, P s cs → (s.fromLeft ≤ 0 ↔ cs = [])) {c : GbChar} {cs : List GbChar}
    {s : CsState} (h : P s (c :: cs)) : ∃ s', Leaves body s (s'.finish numArgs) ∧ P s' [] := by
  induction cs generalizing c s with
  | nil =>
    obtain ⟨s', hb, h'⟩ := hstep _ _ _ h
    rw [CsState.endPass, if_pos ((hleft _ _ h').mpr rfl)] at hb
    exact ⟨s', .leave hb, h'⟩
  | cons c' cs ih =>
    obtain ⟨s', hb, h'⟩ := hstep _ _ _ h
    have hmore : ¬ s'.fromLeft ≤ 0 := by
      rw [hleft _ _ h']
      simp
    rw [CsState.endPass, if_neg hmore] at hb
    obtain ⟨t, hl, ht⟩ := ih h'
    exact ⟨t, .next hb hl, ht⟩

/-- The codeset of the characters of a kind. -/
def GbKind.codeset (lcd : XLCd) : GbKind → CodeSet
  | .ascii => lcd.cs0
  | .two => lcd.cs1
  | .four => lcd.cs2

/-- How `gb18030_mbstocs` numbers the kinds. -/
def GbKind.flag : GbKind → Nat
  | .ascii => 3
  | .two => 1
  | .four => 2

theorem text_snoc (cs : List GbChar) (c : GbChar) : text (cs ++ [c]) = text cs ++ c.bytes := by
  simp [text]

theorem text_length_le (cs : List GbChar) : ((text cs).length : Int) ≤ 0 ↔ cs = [] := by
  cases cs with
  | nil => simp [text]
  | cons c cs =>
    have := c.bytes_length_pos
    simp only [text_cons, List.length_append, reduceCtorEq, iff_false]
    omega

section

variable {lcd : XLCd} {numArgs : Nat} {p : Ptr}

/-! ## `gb18030_mbstocs` -/

/-- A pass at a character. -/
theorem mbstocsPass_char (hl : lcd.Gb18030Layout) {c : GbChar} {s : CsState}
    (hp : Holds p s.src c.bytes) (hflag : s.flag = 0 ∨ s.flag = c.kind.flag)
    (hfrom : c.bytes.length ≤ s.fromLeft) (hto : c.kind.charSize ≤ s.toLeft) :
    mbstocsPass lcd numArgs p s = CsState.endPass numArgs
      ({ s with flag := c.kind.flag, charset := some (c.kind.codeset lcd).charset }.move
        c.bytes.length c.csBytes c.bytes.length c.kind.charSize) := by
  have hp' := holds_plus hp
  have hnum := hl.codesetNum
  cases c with
  | ascii b hb =>
    obtain ⟨-, h2, h4, ha⟩ := Ptr.at_ascii hb hp'
    have hf : (if s.flag = 0 then 3 else s.flag) = 3 := by
      rcases hflag with h | h <;> simp [h, GbChar.kind, GbKind.flag]
    have hsize := hl.charSize0
    have hroom : (lcd.cs0.charset.charSize : Int) ≤ s.fromLeft ∧
        (lcd.cs0.charset.charSize : Int) ≤ s.toLeft := by
      rw [hsize]
      exact ⟨hfrom, hto⟩
    obtain ⟨h0, -⟩ := hp'
    simp only [mbstocsPass, h2, h4, ha, hf, Bool.false_eq_true, if_false, if_true]
    rw [if_neg (by decide), if_neg (by omega), if_pos hroom, hsize, h0]
    rfl
  | two b0 b1 hb =>
    obtain ⟨-, h2⟩ := Ptr.at_two hb hp'
    have hf : (if s.flag = 0 then 1 else s.flag) = 1 := by
      rcases hflag with h | h <;> simp [h, GbChar.kind, GbKind.flag]
    have hsize := hl.charSize1
    have hroom : (lcd.cs1.charset.charSize : Int) ≤ s.fromLeft ∧
        (lcd.cs1.charset.charSize : Int) ≤ s.toLeft := by
      rw [hsize]
      exact ⟨hfrom, hto⟩
    obtain ⟨h0, h1, -⟩ := hp'
    simp only [mbstocsPass, h2, hf, if_true]
    rw [if_neg (by decide), if_neg (by omega), if_pos hroom, hsize, h0, h1]
    rfl
  | four b0 b1 b2 b3 hb =>
    obtain ⟨-, h2, h4⟩ := Ptr.at_four hb hp'
    have hf : (if s.flag = 0 then 2 else s.flag) = 2 := by
      rcases hflag with h | h <;> simp [h, GbChar.kind, GbKind.flag]
    have hsize := hl.charSize2
    have hroom : 4 ≤ s.fromLeft ∧ (lcd.cs2.charset.charSize : Int) ≤ s.toLeft := by
      rw [hsize]
      exact ⟨hfrom, hto⟩
    obtain ⟨h0, h1, h2', h3, -⟩ := hp'
    have hpack := fourbyteToTwobyte_congr (t := .ofList [b0, b1, b2, b3]) h0 h1 h2' h3
    simp only [mbstocsPass, h2, h4, hf, Bool.false_eq_true, if_false, if_true]
    rw [if_neg (by decide), if_neg (by omega), if_pos hroom, hsize, hpack]
    rfl

/-- `gb18030_mbstocs` has the characters `cs` of `all` before it. -/
structure MbstocsAt (lcd : XLCd) (p : Ptr) (k : GbKind) (all : List GbChar) (s : CsState)
    (cs : List GbChar) : Prop where
  done : ∃ pre, all = pre ++ cs ∧ s.src = (text pre).length ∧ s.dst = pre.flatMap GbChar.csBytes ∧
    (pre = [] ∧ s.flag = 0 ∨ s.flag = k.flag ∧ s.charset = some (k.codeset lcd).charset)
  kind : ∀ c ∈ cs, c.kind = k
  holds : Holds p s.src (text cs)
  fromLeft : s.fromLeft = (text cs).length
  toLeft : (k.charSize * cs.length : Nat) ≤ s.toLeft
  unconvNum : s.unconvNum = 0

theorem MbstocsAt.step (hl : lcd.Gb18030Layout) {k : GbKind} {all cs : List GbChar} {c : GbChar}
    {s : CsState} (h : MbstocsAt lcd p k all s (c :: cs)) :
    ∃ s', mbstocsPass lcd numArgs p s = s'.endPass numArgs ∧ MbstocsAt lcd p k all s' cs := by
  obtain ⟨pre, hall, hsrc, hdst, hflag⟩ := h.done
  obtain rfl := h.kind c (by simp)
  have hholds := holds_append.mp h.holds
  have hlen : (text (c :: cs)).length = c.bytes.length + (text cs).length := by
    rw [text_cons, List.length_append]
  have hfrom := h.fromLeft
  have hto := h.toLeft
  rw [List.length_cons, Nat.mul_add, Nat.mul_one] at hto
  refine ⟨_, mbstocsPass_char hl hholds.1 ?_ (by omega) (by omega), ?_⟩
  · rcases hflag with ⟨-, hf⟩ | ⟨hf, -⟩
    · exact .inl hf
    · exact .inr hf
  · refine ⟨⟨pre ++ [c], ?_, ?_, ?_, .inr ⟨rfl, rfl⟩⟩, ?_, hholds.2, ?_, ?_, h.unconvNum⟩
    · simpa using hall
    · show s.src + c.bytes.length = _
      rw [hsrc, text_snoc, List.length_append]
    · simp [CsState.move, hdst]
    · intro c' hc'
      exact h.kind c' (by simp [hc'])
    · show s.fromLeft - c.bytes.length = (text cs).length
      omega
    · show _ ≤ s.toLeft - c.kind.charSize
      omega

/-- A pass leaves the loop, or takes at least one byte. -/
theorem mbstocsPass_cases (hl : lcd.Gb18030Layout) (s : CsState) :
    (∃ r, mbstocsPass lcd numArgs p s = .leave r) ∨
      ∃ (t : CsState) (n : Nat) (l : List UInt8) (fromSize toSize : Int),
        mbstocsPass lcd numArgs p s = (t.move n l fromSize toSize).endPass numArgs ∧
          t.fromLeft = s.fromLeft ∧ 0 < fromSize := by
  have hs0 := hl.charSize0
  have hs1 := hl.charSize1
  simp only [mbstocsPass]
  generalize (if s.flag = 0 then 1 else s.flag) = flag1
  generalize (if s.flag = 0 then 2 else s.flag) = flag2
  generalize (if s.flag = 0 then 3 else s.flag) = flag3
  split
  · split
    · exact .inl ⟨_, rfl⟩
    · split
      · exact .inl ⟨_, rfl⟩
      · split
        · exact .inr ⟨_, _, _, _, _, rfl, rfl, by omega⟩
        · exact .inl ⟨_, rfl⟩
  · split
    · split
      · exact .inl ⟨_, rfl⟩
      · split
        · exact .inl ⟨_, rfl⟩
        · split
          · exact .inr ⟨_, _, _, _, _, rfl, rfl, by omega⟩
          · exact .inl ⟨_, rfl⟩
    · split
      · split
        · exact .inl ⟨_, rfl⟩
        · split
          · exact .inl ⟨_, rfl⟩
          · split
            · exact .inr ⟨_, _, _, _, _, rfl, rfl, by omega⟩
            · exact .inl ⟨_, rfl⟩
      · exact .inr ⟨_, _, _, _, _, rfl, rfl, by omega⟩

/-- Every pass lowers `*from_left`. -/
theorem mbstocsPass_lt (hl : lcd.Gb18030Layout) {s s' : CsState}
    (h : mbstocsPass lcd numArgs p s = .next s') : s'.fromLeft.toNat < s.fromLeft.toNat := by
  rcases mbstocsPass_cases hl s with ⟨r, hr⟩ | ⟨t, n, l, fromSize, toSize, ht, hleft, hpos⟩
  · rw [hr] at h
    cases h
  · rw [ht] at h
    exact move_endPass_lt h hleft hpos

/-- Characters of one kind come out as the text of their charset. -/
theorem gb18030Mbstocs_chars (hl : lcd.Gb18030Layout) {k : GbKind} {c : GbChar} {cs : List GbChar}
    (hk : ∀ c' ∈ c :: cs, c'.kind = k) (hp : Holds p 0 (text (c :: cs))) {toLeft : Int}
    (hto : (k.charSize * (cs.length + 1) : Nat) ≤ toLeft) (hargs : 0 < numArgs) :
    ∃ r, gb18030Mbstocs lcd numArgs p (text (c :: cs)).length toLeft = some r ∧
      r.written = (c :: cs).flatMap GbChar.csBytes ∧
      r.args0 = some (some (k.codeset lcd).charset) := by
  have hstart : MbstocsAt lcd p k (c :: cs) (.start (text (c :: cs)).length toLeft none) (c :: cs) :=
    ⟨⟨[], rfl, rfl, rfl, .inl ⟨rfl, rfl⟩⟩, hk, hp, rfl, hto, rfl⟩
  obtain ⟨s, hleaves, hs⟩ := leaves_chars (mbstocsPass lcd numArgs p) numArgs
    (P := MbstocsAt lcd p k (c :: cs)) (fun _ _ _ h => h.step hl)
    (fun _ _ h => h.fromLeft ▸ text_length_le _) hstart
  obtain ⟨pre, hall, -, hdst, hflag⟩ := hs.done
  rw [List.append_nil] at hall
  subst hall
  have hloop := loop_of_leaves (μ := fun s => s.fromLeft.toNat)
    (fun s s' hn => mbstocsPass_lt hl hn) hleaves _ (Nat.lt_succ_self _)
  refine ⟨_, hloop, hdst, ?_⟩
  rcases hflag with ⟨hnil, -⟩ | ⟨-, hcharset⟩
  · cases hnil
  · simp [CsState.finish, hargs, hcharset]

/-! ## `gb18030_cstombs` -/

/-- The codeset of a charset is found. -/
theorem getCodeSetFromCharset_codeset (hl : lcd.Gb18030Layout) (k : GbKind) :
    getCodeSetFromCharset lcd (k.codeset lcd).charset = some (k.codeset lcd) := by
  have hmem : ∀ c : CodeSet, c.charset ∈ c.charsetList := fun c => List.mem_cons_self
  obtain ⟨h01, h02⟩ := hl.apart2
  have h21 := hl.apart1
  have hlist : (List.range lcd.codesetNum).map lcd.codesets = [lcd.cs1, lcd.cs2, lcd.cs0] := by
    rw [hl.codesetNum]
    rfl
  rw [getCodeSetFromCharset, hlist]
  cases k with
  | ascii => simp [GbKind.codeset, h01, h02, hmem]
  | two => simp [GbKind.codeset, hmem]
  | four => simp [GbKind.codeset, h21, hmem]

/-- Every pass lowers `*from_left`. -/
theorem cstombsPass_lt {codeset : CodeSet} {s s' : CsState}
    (h : cstombsPass codeset numArgs p s = .next s') : s'.fromLeft.toNat < s.fromLeft.toNat := by
  simp only [cstombsPass] at h
  split at h
  · split at h
    · exact move_endPass_lt h rfl (by decide)
    · cases h
  · split at h
    · split at h
      · exact move_endPass_lt h rfl (by decide)
      · cases h
    · split at h
      · split at h
        · exact move_endPass_lt h rfl (by decide)
        · cases h
      · exact move_endPass_lt h rfl (by decide)

/-- `gb18030_cstombs` has the characters `cs` of `all`, none of them of four bytes, before it. -/
structure CstombsAt (p : Ptr) (k : GbKind) (all : List GbChar) (s : CsState) (cs : List GbChar) :
    Prop where
  done : ∃ pre, all = pre ++ cs ∧ s.src = (text pre).length ∧ s.dst = text pre
  kind : ∀ c ∈ cs, c.kind = k
  holds : Holds p s.src (text cs)
  fromLeft : s.fromLeft = (text cs).length
  toLeft : (text cs).length ≤ s.toLeft

/-- A pass at a character of one or two bytes. -/
theorem cstombsPass_char (hl : lcd.Gb18030Layout) {c : GbChar} (hc : c.kind ≠ .four) {s : CsState}
    (hp : Holds p s.src c.bytes) (hfrom : c.bytes.length ≤ s.fromLeft)
    (hto : c.bytes.length ≤ s.toLeft) :
    cstombsPass (c.kind.codeset lcd) numArgs p s =
      (s.move c.bytes.length c.bytes c.bytes.length c.bytes.length).endPass numArgs := by
  have hp' := holds_plus hp
  cases c with
  | ascii b hb =>
    obtain ⟨-, h2, -, ha⟩ := Ptr.at_ascii hb hp'
    have henc : (GbKind.ascii.codeset lcd).wcEncoding ≠ 0x5e84 := hl.wcEncoding0
    obtain ⟨h0, -⟩ := hp'
    simp only [cstombsPass, GbChar.kind, henc, h2, ha, Bool.false_eq_true, if_false, if_true]
    rw [if_pos ⟨hfrom, hto⟩, h0]
    rfl
  | two b0 b1 hb =>
    obtain ⟨-, h2⟩ := Ptr.at_two hb hp'
    have henc : (GbKind.two.codeset lcd).wcEncoding ≠ 0x5e84 := hl.wcEncoding1
    obtain ⟨h0, h1, -⟩ := hp'
    simp only [cstombsPass, GbChar.kind, henc, h2, if_false, if_true]
    rw [if_pos ⟨hfrom, hto⟩, h0, h1]
    rfl
  | four b0 b1 b2 b3 hb => exact absurd rfl hc

theorem CstombsAt.step (hl : lcd.Gb18030Layout) {k : GbKind} (hk : k ≠ .four)
    {all cs : List GbChar} {c : GbChar} {s : CsState} (h : CstombsAt p k all s (c :: cs)) :
    ∃ s', cstombsPass (k.codeset lcd) numArgs p s = s'.endPass numArgs ∧
      CstombsAt p k all s' cs := by
  obtain ⟨pre, hall, hsrc, hdst⟩ := h.done
  obtain rfl := h.kind c (by simp)
  have hholds := holds_append.mp h.holds
  have hlen : (text (c :: cs)).length = c.bytes.length + (text cs).length := by
    rw [text_cons, List.length_append]
  have hfrom := h.fromLeft
  have hto := h.toLeft
  refine ⟨_, cstombsPass_char hl hk hholds.1 (by omega) (by omega), ?_⟩
  refine ⟨⟨pre ++ [c], ?_, ?_, ?_⟩, ?_, hholds.2, ?_, ?_⟩
  · simpa using hall
  · show s.src + c.bytes.length = _
    rw [hsrc, text_snoc, List.length_append]
  · show s.dst ++ c.bytes = _
    rw [hdst, text_snoc]
  · intro c' hc'
    exact h.kind c' (by simp [hc'])
  · show s.fromLeft - c.bytes.length = (text cs).length
    omega
  · show _ ≤ s.toLeft - c.bytes.length
    omega

/-- `gb18030_cstombs` has as many GB18030-1 characters before it as `cs` are: it has converted the
first one each time. -/
structure CstombsFourAt (p : Ptr) (all : List GbChar) (s : CsState) (cs : List GbChar) : Prop where
  done : ∃ pre, all = pre ++ cs ∧ s.dst = pre.flatMap fun _ => twobyteToFourbyte p
  src : s.src = 0
  fromLeft : s.fromLeft = 2 * cs.length
  toLeft : 4 * cs.length ≤ s.toLeft

theorem CstombsFourAt.step (hl : lcd.Gb18030Layout) {all cs : List GbChar} {c : GbChar}
    {s : CsState} (h : CstombsFourAt p all s (c :: cs)) :
    ∃ s', cstombsPass (GbKind.four.codeset lcd) numArgs p s = s'.endPass numArgs ∧
      CstombsFourAt p all s' cs := by
  obtain ⟨pre, hall, hdst⟩ := h.done
  have hfrom := h.fromLeft
  have hto := h.toLeft
  rw [List.length_cons] at hfrom hto
  have henc : (GbKind.four.codeset lcd).wcEncoding = 0x5e84 := hl.wcEncoding2
  have hsrc : p.plus s.src = p := by
    rw [h.src]
    funext k
    simp
  refine ⟨s.move 0 (twobyteToFourbyte p) 2 4, ?_, ⟨pre ++ [c], ?_, ?_⟩, h.src, ?_, ?_⟩
  · simp only [cstombsPass, henc, if_true, hsrc]
    rw [if_pos ⟨by omega, by omega⟩]
  · simpa using hall
  · simp [CsState.move, hdst]
  · show s.fromLeft - 2 = 2 * cs.length
    omega
  · show _ ≤ s.toLeft - 4
    omega

theorem gb18030Cstombs_eq (hl : lcd.Gb18030Layout) (k : GbKind) (fromLeft toLeft : Int) :
    gb18030Cstombs lcd numArgs (k.codeset lcd).charset p fromLeft toLeft =
      loop (cstombsPass (k.codeset lcd) numArgs p) (fromLeft.toNat + 1)
        (.start fromLeft toLeft (some (k.codeset lcd).charset)) := by
  simp only [gb18030Cstombs, getCodeSetFromCharset_codeset hl]

/-- Text of ASCII or of two-byte characters comes back. -/
theorem gb18030Cstombs_chars (numArgs : Nat) (hl : lcd.Gb18030Layout) {k : GbKind}
    (hfour : k ≠ .four) {c : GbChar} {cs : List GbChar} (hk : ∀ c' ∈ c :: cs, c'.kind = k)
    (hp : Holds p 0 (text (c :: cs)))
    {toLeft : Int} (hto : (text (c :: cs)).length ≤ toLeft) :
    ∃ r, gb18030Cstombs lcd numArgs (k.codeset lcd).charset p (text (c :: cs)).length toLeft =
        some r ∧
      r.written = text (c :: cs) ∧ r.fromLeft = 0 ∧ r.fromMoved = (text (c :: cs)).length := by
  rw [gb18030Cstombs_eq hl]
  have hstart : CstombsAt p k (c :: cs)
      (.start (text (c :: cs)).length toLeft (some (k.codeset lcd).charset)) (c :: cs) :=
    ⟨⟨[], rfl, rfl, rfl⟩, hk, hp, rfl, hto⟩
  obtain ⟨s, hleaves, hs⟩ := leaves_chars (cstombsPass (k.codeset lcd) numArgs p) numArgs
    (P := CstombsAt p k (c :: cs)) (fun _ _ _ h => h.step hl hfour)
    (fun _ _ h => h.fromLeft ▸ text_length_le _) hstart
  obtain ⟨pre, hall, hsrc, hdst⟩ := hs.done
  rw [List.append_nil] at hall
  subst hall
  have hloop := loop_of_leaves (μ := fun s => s.fromLeft.toNat)
    (fun _ _ hn => cstombsPass_lt hn) hleaves _ (Nat.lt_succ_self _)
  exact ⟨_, hloop, hdst, hs.fromLeft, hsrc⟩

/-- GB18030-1 text comes out as so many times its first character. -/
theorem gb18030Cstombs_four (numArgs : Nat) (p : Ptr) (hl : lcd.Gb18030Layout) (c : GbChar)
    (cs : List GbChar) {toLeft : Int}
    (hto : (4 * (cs.length + 1) : Nat) ≤ toLeft) :
    ∃ r, gb18030Cstombs lcd numArgs lcd.cs2.charset p (2 * (cs.length + 1) : Nat) toLeft = some r ∧
      r.written = (c :: cs).flatMap (fun _ => twobyteToFourbyte p) ∧ r.fromLeft = 0 ∧
        r.fromMoved = 0 := by
  have hstart : CstombsFourAt p (c :: cs)
      (.start (2 * (cs.length + 1) : Nat) toLeft (some lcd.cs2.charset)) (c :: cs) :=
    ⟨⟨[], rfl, rfl⟩, rfl, by simp [CsState.start], by simpa [CsState.start] using hto⟩
  have hleft : ∀ s cs', CstombsFourAt p (c :: cs) s cs' → (s.fromLeft ≤ 0 ↔ cs' = []) := by
    intro s cs' h
    rw [h.fromLeft, ← List.length_eq_zero_iff]
    omega
  obtain ⟨s, hleaves, hs⟩ := leaves_chars (cstombsPass (GbKind.four.codeset lcd) numArgs p) numArgs
    (P := CstombsFourAt p (c :: cs)) (fun _ _ _ h => h.step hl) hleft hstart
  obtain ⟨pre, hall, hdst⟩ := hs.done
  rw [List.append_nil] at hall
  subst hall
  have hloop := loop_of_leaves (μ := fun s => s.fromLeft.toNat)
    (fun _ _ hn => cstombsPass_lt hn) hleaves _ (Nat.lt_succ_self _)
  exact ⟨_, (gb18030Cstombs_eq hl .four _ _).trans hloop, hdst, hs.fromLeft, hs.src⟩

/-! ## There and back -/

/-- `r'`, made from `r`, has the text `t` and has taken all of `r`. -/
def RoundTrips (t : List UInt8) (r r' : Converted) : Prop :=
  r'.written = t ∧ r'.fromLeft = 0 ∧ r'.fromMoved = r.written.length

theorem GbChar.bytes_four {c : GbChar} (h : c.kind = .four) : c.bytes.length = 4 := by
  cases c with
  | ascii b hb => cases h
  | two b0 b1 hb => cases h
  | four b0 b1 b2 b3 hb => rfl

theorem GbChar.csBytes_eq {c : GbChar} (h : c.kind ≠ .four) : c.csBytes = c.bytes := by
  cases c with
  | ascii b hb => rfl
  | two b0 b1 hb => rfl
  | four b0 b1 b2 b3 hb => exact absurd rfl h

/-- What comes back from GB18030-1 text is the text exactly if it is one character over and over, and
that has a place below 65536. -/
theorem first_repeated_iff {c : GbChar} {cs : List GbChar} (hk : ∀ c' ∈ c :: cs, c'.kind = .four)
    (hp : Holds p 0 c.csBytes) :
    (c :: cs).flatMap (fun _ => twobyteToFourbyte p) = text (c :: cs) ↔
      (∀ c' ∈ cs, c'.bytes = c.bytes) ∧ c.index < 65536 := by
  have hfour := hk c List.mem_cons_self
  have hlen : ∀ a ∈ c :: cs, (twobyteToFourbyte p).length = a.bytes.length := by
    intro a ha
    rw [GbChar.bytes_four (hk a ha)]
    rfl
  rw [text, flatMap_eq_iff hlen, List.forall_mem_cons, twobyteToFourbyte_csBytes hfour hp, and_comm]
  refine and_congr_left fun hlt => forall₂_congr fun c' _ => ?_
  rw [(twobyteToFourbyte_csBytes hfour hp).mpr hlt, eq_comm]

/-- **Multibyte text of one charset comes back** from the charset's text, and all of that is taken,
exactly if it is not of four-byte characters. The bytes alone come back from four-byte characters
too, if these are all the same and the character has a place below 65536. -/
theorem charset_round_trip_iff (hl : lcd.Gb18030Layout) {k : GbKind} {c : GbChar} {cs : List GbChar}
    (hk : ∀ c' ∈ c :: cs, c'.kind = k) (hp : Holds p 0 (text (c :: cs))) {toLeft : Int}
    (hto : (k.charSize * (cs.length + 1) : Nat) ≤ toLeft) (hargs : 0 < numArgs) :
    ∃ r charset, gb18030Mbstocs lcd numArgs p (text (c :: cs)).length toLeft = some r ∧
      r.args0 = some (some charset) ∧
      ∀ (numArgs' : Nat) (p' : Ptr) (toLeft' : Int), Holds p' 0 r.written →
        (text (c :: cs)).length ≤ toLeft' →
        ∃ r', gb18030Cstombs lcd numArgs' charset p' r.written.length toLeft' = some r' ∧
          (RoundTrips (text (c :: cs)) r r' ↔ k ≠ .four) ∧
          (r'.written = text (c :: cs) ∧ r'.fromLeft = 0 ↔
            k ≠ .four ∨ (∀ c' ∈ cs, c'.bytes = c.bytes) ∧ c.index < 65536) := by
  obtain ⟨r, hr, hwritten, hcharset⟩ := gb18030Mbstocs_chars hl hk hp hto hargs
  refine ⟨r, _, hr, hcharset, fun numArgs' p' toLeft' hp' hto' => ?_⟩
  have hlen : r.written.length = k.charSize * (cs.length + 1) := by
    rw [hwritten, length_flatMap_eq fun a ha => a.csBytes_length.trans (by rw [hk a ha]),
      List.length_cons]
  by_cases hfour : k = .four
  · subst hfour
    have hbytes : (text (c :: cs)).length = 4 * (cs.length + 1) := by
      rw [text, length_flatMap_eq fun a ha => GbChar.bytes_four (hk a ha), List.length_cons]
    rw [hbytes] at hto'
    obtain ⟨r', hr', hwritten', hleft', hmoved'⟩ :=
      gb18030Cstombs_four numArgs' p' hl c cs hto'
    have hp0 : Holds p' 0 c.csBytes := by
      rw [hwritten, List.flatMap_cons] at hp'
      exact (holds_append.mp hp').1
    rw [hlen]
    refine ⟨r', hr', ?_, ?_⟩
    · simp only [RoundTrips, hmoved', hlen, GbKind.charSize, ne_eq, not_true_eq_false, iff_false]
      omega
    · simp only [hwritten', hleft', first_repeated_iff hk hp0, and_true, ne_eq, not_true_eq_false,
        false_or]
  · have htext : r.written = text (c :: cs) := by
      rw [hwritten, text, flatMap_eq_iff]
      · intro a ha
        exact GbChar.csBytes_eq (hk a ha ▸ hfour)
      · intro a ha
        rw [GbChar.csBytes_eq (hk a ha ▸ hfour)]
    rw [htext] at hp' ⊢
    obtain ⟨r', hr', hwritten', hleft', hmoved'⟩ :=
      gb18030Cstombs_chars numArgs' hl hfour hk hp' hto'
    refine ⟨r', hr', ?_, ?_⟩
    · simp only [RoundTrips, hwritten', hleft', hmoved', htext, and_self, true_iff]
      exact hfour
    · simp only [hwritten', hleft', and_self, true_iff]
      exact .inl hfour

end

/-- A locale with the codesets of `XLC_XLOCALE`. -/
def gb18030Lcd : XLCd where
  codesetNum := 3
  codesets
    | 0 => ⟨⟨0, 2⟩, [], 0⟩
    | 1 => ⟨⟨1, 2⟩, [], 0x5e84⟩
    | _ => ⟨⟨2, 1⟩, [], 0⟩

theorem gb18030Lcd_layout : gb18030Lcd.Gb18030Layout := by
  constructor <;> decide

/-- Two GB2312 characters. -/
theorem charset_round_trip_two : ∃ r charset,
    gb18030Mbstocs gb18030Lcd 1 (.ofList [0xb0, 0xa1, 0xc4, 0xe3]) 4 4 = some r ∧
      r.args0 = some (some charset) ∧
      ∃ r', gb18030Cstombs gb18030Lcd 1 charset (.ofList r.written) r.written.length 4 = some r' ∧
        RoundTrips [0xb0, 0xa1, 0xc4, 0xe3] r r' := by
  let cs : List GbChar := [.two 0xb0 0xa1 (by decide), .two 0xc4 0xe3 (by decide)]
  have hk : ∀ c' ∈ cs, c'.kind = .two := by decide
  obtain ⟨r, charset, hr, hcharset, hback⟩ := charset_round_trip_iff gb18030Lcd_layout hk
    (Ptr.holds_ofList (text cs)) (show ((4 : Nat) : Int) ≤ 4 by decide) (show 0 < 1 by decide)
  obtain ⟨r', hr', htrips, -⟩ := hback 1 _ 4 (Ptr.holds_ofList r.written) (by decide)
  exact ⟨r, charset, hr, hcharset, r', hr', htrips.mpr (by decide)⟩

/-- Two different four-byte characters: the first comes back twice, and the cursor has not moved. -/
theorem charset_four_bytes_stuck : gb18030Lcd.Gb18030Layout ∧
    ∃ r r', gb18030Mbstocs gb18030Lcd 1
        (.ofList [0x81, 0x30, 0x81, 0x31, 0x81, 0x30, 0x81, 0x32]) 8 8 = some r ∧
      r.args0 = some (some gb18030Lcd.cs2.charset) ∧
      gb18030Cstombs gb18030Lcd 1 gb18030Lcd.cs2.charset (.ofList r.written) r.written.length 8 =
        some r' ∧
      r'.written = [0x81, 0x30, 0x81, 0x31, 0x81, 0x30, 0x81, 0x31] ∧ r'.fromMoved = 0 ∧
      ¬ RoundTrips [0x81, 0x30, 0x81, 0x31, 0x81, 0x30, 0x81, 0x32] r r' := by
  refine ⟨gb18030Lcd_layout, _, _, rfl, rfl, rfl, rfl, rfl, ?_⟩
  intro h
  exact absurd h.2.2 (by decide)

end X11
