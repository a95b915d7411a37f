import SolarisXorg.X11.Gb18030Wide
import SolarisXorg.X11.Proof.Gb18030Bounds
import SolarisXorg.X11.Proof.Gb18030Cs

/-!
# The room for wide characters

`WithRoom` says what a converter does in a smaller room, and `WithRoom.token` goes from one token to
the next. `gb18030_cstombs` puts the characters of the text as long as they fit, and fails otherwise
(`cstombs_puts`); of GB18030-1 text it puts the first character each time (`cstombs_puts_four`).
`gb18030_ctstombs` stops before the text ends (`ctstombs_room`). What `mbstowcs` makes of the text up
to the first NUL is `widen_text`. Together, all characters come out exactly if their bytes fit into
the room for them, and those of charset text have no NUL among them and in GB18030-1 are all alike
(`wide_capacity_iff`).
-/

namespace X11

open Lib

/-! ## Characters without NUL -/

theorem text_append (cs cs' : List GbChar) : text (cs ++ cs') = text cs ++ text cs' := by
  simp [text]

/-- The only character with a NUL in it is NUL. -/
theorem GbChar.bytes_nul {c : GbChar} (h : 0 ∈ c.bytes) : c.bytes = [0] := by
  have hzero : (0 : UInt8).toNat = 0 := rfl
  cases c with
  | ascii b hb =>
    rw [bytes, List.mem_singleton] at h
    rw [bytes, h]
  | two b0 b1 hb =>
    have hr := isgb18030_2_iff.mp hb
    simp only [Ptr.ofList, List.getD_cons_zero, List.getD_cons_succ] at hr
    simp only [bytes, List.mem_cons, List.not_mem_nil, or_false] at h
    rcases h with rfl | rfl <;> omega
  | four b0 b1 b2 b3 hb =>
    have hr := isgb18030_4_iff.mp hb
    simp only [Ptr.ofList, List.getD_cons_zero, List.getD_cons_succ] at hr
    simp only [bytes, List.mem_cons, List.not_mem_nil, or_false] at h
    rcases h with rfl | rfl | rfl | rfl <;> omega

/-- The first NUL in a text. -/
theorem text_nul {cs : List GbChar} (h : 0 ∈ text cs) :
    ∃ pre c post, cs = pre ++ c :: post ∧ c.bytes = [0] ∧ 0 ∉ text pre := by
  induction cs with
  | nil => cases h
  | cons c cs ih =>
    by_cases hc : 0 ∈ c.bytes
    · exact ⟨[], c, cs, rfl, c.bytes_nul hc, List.not_mem_nil⟩
    · rw [text_cons, List.mem_append] at h
      obtain ⟨pre, d, post, rfl, hd, hpre⟩ := ih (h.resolve_left hc)
      refine ⟨c :: pre, d, post, rfl, hd, ?_⟩
      rw [text_cons, List.mem_append]
      exact not_or.2 ⟨hc, hpre⟩

theorem length_le_text (cs : List GbChar) : cs.length ≤ (text cs).length := by
  induction cs with
  | nil => exact Nat.le_refl 0
  | cons c cs ih =>
    have := c.bytes_length_pos
    rw [text_cons, List.length_append, List.length_cons]
    omega

theorem text_length_pos_iff {cs : List GbChar} : 0 < (text cs).length ↔ cs ≠ [] := by
  have := text_length_le cs
  constructor
  · rintro h rfl
    exact absurd h (Nat.lt_irrefl 0)
  · intro h
    by_contra hzero
    exact h (this.1 (by omega))

/-! ## Less room -/

/-- With room enough a converter ends with `r` and has put `cs`; `run toLeft` is what it ends with in
the room `toLeft`: the same if the text fits, else something `short`. -/
structure WithRoom (run : Int → Option Converted) (short : List GbChar → Int → Converted → Prop)
    (r : Converted) (cs : List GbChar) : Prop where
  fits : ∀ toLeft : Int, (text cs).length ≤ toLeft →
    run toLeft = some { r with toLeft := toLeft - (text cs).length }
  short : ∀ toLeft : Int, 0 ≤ toLeft → toLeft < (text cs).length →
    ∃ r', run toLeft = some r' ∧ short cs toLeft r'

/-- Text of nothing fits everywhere. -/
theorem WithRoom.nil {run : Int → Option Converted}
    {short : List GbChar → Int → Converted → Prop} {r : Converted}
    (h : ∀ toLeft, run toLeft = some { r with toLeft := toLeft }) : WithRoom run short r [] := by
  constructor
  · intro toLeft _
    rw [h toLeft]
    simp [text]
  · intro toLeft hzero hlt
    simp only [text, List.flatMap_nil, List.length_nil] at hlt
    omega

/-- **The next token**: where its text fits, the converter goes on with less room (`run'`); where it
does not, it ends at once. -/
theorem WithRoom.token {run run' : Int → Option Converted}
    {short short' : List GbChar → Int → Converted → Prop} {r : Converted} {ks cs : List GbChar}
    (hrest : WithRoom run' short' r cs)
    (hgo : ∀ toLeft : Int, (text ks).length ≤ toLeft →
      run toLeft = run' (toLeft - (text ks).length))
    (hstop : ∀ toLeft : Int, 0 ≤ toLeft → toLeft < (text ks).length →
      ∃ r', run toLeft = some r' ∧ short (ks ++ cs) toLeft r')
    (hshort : ∀ (toLeft : Int) (r' : Converted), short' cs (toLeft - (text ks).length) r' →
      short (ks ++ cs) toLeft r') :
    WithRoom run short r (ks ++ cs) := by
  constructor
  · intro toLeft hle
    rw [text_append, List.length_append] at hle ⊢
    have hsum : toLeft - (text ks).length - (text cs).length =
        toLeft - (((text ks).length + (text cs).length : Nat) : Int) := by omega
    rw [hgo toLeft (by omega), hrest.fits _ (by omega), hsum]
  · intro toLeft hzero hlt
    rw [text_append, List.length_append] at hlt
    by_cases hfit : (text ks).length ≤ toLeft
    · obtain ⟨r', hr', hs⟩ := hrest.short (toLeft - (text ks).length) (by omega) (by omega)
      exact ⟨r', (hgo toLeft hfit).trans hr', hshort toLeft r' hs⟩
    · exact hstop toLeft hzero (by omega)

/-! ## `gb18030_cstombs` with less room -/

section Cstombs

variable {codeset : CodeSet} {numArgs : Nat} {p : Ptr}

/-- What `gb18030_cstombs` takes in one pass: `size` bytes, counted as `count`, for which it puts
`text` or counts `unconv` bytes that cannot be converted. -/
structure CsToken where
  size : Nat
  count : Nat
  text : List UInt8
  unconv : Nat

/-- The token that begins at `c`. -/
def csToken (codeset : CodeSet) (c : Ptr) : CsToken :=
  if codeset.wcEncoding = 0x5e84 then ⟨0, 2, twobyteToFourbyte c, 0⟩
  else if isgb18030_2 c then ⟨2, 2, [c 0, c 1], 0⟩
  else if isAscii (c 0) then ⟨1, 1, [c 0], 0⟩
  else ⟨1, 1, [], 1⟩

/-- The variables after the token. -/
def CsState.token (t : CsToken) (s : CsState) : CsState :=
  { s with unconvNum := s.unconvNum + t.unconv }.move t.size t.text t.count t.text.length

/-- A pass of `gb18030_cstombs` is what the token in front of it says. -/
theorem cstombsPass_token (s : CsState) :
    cstombsPass codeset numArgs p s =
      if (csToken codeset (p.plus s.src)).text = [] ∨
          ((csToken codeset (p.plus s.src)).count : Int) ≤ s.fromLeft ∧
            ((csToken codeset (p.plus s.src)).text.length : Int) ≤ s.toLeft then
        (s.token (csToken codeset (p.plus s.src))).endPass numArgs
      else .leave s.fail := by
  simp only [cstombsPass, csToken]
  split
  · simp only [twobyteToFourbyte, reduceCtorEq, false_or]
    rfl
  split
  · simp only [reduceCtorEq, false_or]
    rfl
  split
  · simp only [reduceCtorEq, false_or]
    rfl
  · rw [if_pos (.inl rfl)]
    rfl

/-- A loop whose pass ends with the test of `*from_left`. -/
theorem loop_endPass {body : CsState → Pass CsState Converted} {s t : CsState}
    (h : body s = t.endPass numArgs) (n : Nat) :
    loop body (n + 1) s =
      if t.fromLeft ≤ 0 then some (t.finish numArgs) else loop body n t := by
  simp only [loop, h, CsState.endPass]
  by_cases hend : t.fromLeft ≤ 0
  · rw [if_pos hend, if_pos hend]
  · rw [if_neg hend, if_neg hend]

/-- `return -1`, and nothing is said to have been put. -/
def Failed (_ : List GbChar) (_ : Int) (r : Converted) : Prop := r.ret = -1 ∧ r.toMoved = 0

/-- From `s` on `gb18030_cstombs` puts `cs` where there is room, and fails where there is not. -/
def CstombsPuts (codeset : CodeSet) (numArgs : Nat) (p : Ptr) (s : CsState) (cs : List GbChar) :
    Prop :=
  ∃ r : Converted, r.ret ≠ -1 ∧ r.written = s.dst ++ text cs ∧ r.toMoved = r.written.length ∧
    ∀ n, s.fromLeft.toNat < n →
      WithRoom (fun toLeft => loop (cstombsPass codeset numArgs p) n { s with toLeft := toLeft })
        Failed r cs

/-- **One token and the rest.** -/
theorem CstombsPuts.token {s : CsState} {token : CsToken} {ks cs : List GbChar}
    (htoken : csToken codeset (p.plus s.src) = token) (hks : token.text = text ks)
    (hcount : 0 < token.count) (hfrom : token.text = [] ∨ (token.count : Int) ≤ s.fromLeft)
    (hrest : (s.token token).fromLeft ≤ 0 ∧ cs = [] ∨
      0 < (s.token token).fromLeft ∧ CstombsPuts codeset numArgs p (s.token token) cs) :
    CstombsPuts codeset numArgs p s (ks ++ cs) := by
  have hpass := fun toLeft : Int =>
    @cstombsPass_token codeset numArgs p { s with toLeft := toLeft }
  simp only [htoken] at hpass
  have hgo : ∀ (n : Nat) (toLeft : Int), (text ks).length ≤ toLeft →
      loop (cstombsPass codeset numArgs p) (n + 1) { s with toLeft := toLeft } =
        if (s.token token).fromLeft ≤ 0 then
          some ({ s.token token with toLeft := toLeft - (text ks).length }.finish numArgs)
        else loop (cstombsPass codeset numArgs p) n
          { s.token token with toLeft := toLeft - (text ks).length } := by
    intro n toLeft hle
    rw [← hks] at hle ⊢
    exact loop_endPass ((hpass toLeft).trans (if_pos (hfrom.imp_right fun hr => ⟨hr, hle⟩))) n
  have hstop : ∀ (n : Nat) (toLeft : Int), 0 ≤ toLeft → toLeft < (text ks).length → ∃ r',
      loop (cstombsPass codeset numArgs p) (n + 1) { s with toLeft := toLeft } = some r' ∧
        r'.ret = -1 ∧ r'.toMoved = 0 := by
    intro n toLeft hzero hlt
    rw [← hks] at hlt
    have hno : ¬ (token.text = [] ∨ (token.count : Int) ≤ s.fromLeft ∧
        (token.text.length : Int) ≤ toLeft) := by
      rintro (hnil | hr)
      · rw [hnil, List.length_nil] at hlt
        omega
      · omega
    refine ⟨CsState.fail { s with toLeft := toLeft }, ?_, rfl, rfl⟩
    simp only [loop, (hpass toLeft).trans (if_neg hno)]
  have hdst : (s.token token).dst = s.dst ++ text ks := by
    rw [← hks]
    rfl
  have hless : (s.token token).fromLeft = s.fromLeft - token.count := rfl
  rcases hrest with ⟨hend, rfl⟩ | ⟨hmore, r, hret, hwritten, hmoved, hroom⟩
  · rw [List.append_nil]
    refine ⟨(s.token token).finish numArgs, ?_, hdst, rfl, fun n hn => ?_⟩
    · show ((s.token token).unconvNum : Int) ≠ -1
      omega
    · obtain ⟨n, rfl⟩ := Nat.exists_eq_add_of_lt hn
      refine ⟨fun toLeft hle => ?_, hstop _⟩
      rw [hgo _ toLeft hle, if_pos hend]
      rfl
  · refine ⟨r, hret, ?_, hmoved, fun n hn => ?_⟩
    · rw [hwritten, hdst, text_append, List.append_assoc]
    · cases n with
      | zero => exact absurd hn (Nat.not_lt_zero _)
      | succ n =>
        have hgo' := hgo n
        simp only [if_neg (Int.not_le.2 hmore)] at hgo'
        exact (hroom n (by omega)).token hgo' (hstop n) fun _ _ hr => hr

/-- The text begins with the token in front, which it puts or passes over. -/
theorem csChars_token {left i : Nat} {cs : List GbChar}
    (h : csChars codeset p (left + 1) i = some cs) :
    ∃ ks cs' left', (csToken codeset (p.plus i)).text = text ks ∧ cs = ks ++ cs' ∧
      left + 1 = (csToken codeset (p.plus i)).count + left' ∧
      csChars codeset p left' (i + (csToken codeset (p.plus i)).count) = some cs' := by
  cases left with
  | zero =>
    simp only [csChars] at h
    split at h
    · cases h
    next henc =>
    split at h
    · cases h
    next h2 =>
    split at h
    · next ha =>
      cases h
      refine ⟨[.ascii _ ha], [], 0, ?_⟩
      simp only [csToken, if_neg henc, if_neg h2, if_pos ha]
      exact ⟨rfl, rfl, trivial, rfl⟩
    · next ha =>
      cases h
      refine ⟨[], [], 0, ?_⟩
      simp only [csToken, if_neg henc, if_neg h2, if_neg ha]
      exact ⟨rfl, rfl, trivial, rfl⟩
  | succ left =>
    simp only [csChars] at h
    split at h
    · next henc =>
      obtain ⟨cs', hrest, rfl⟩ := Option.map_eq_some_iff.1 h
      refine ⟨[.ofTwobyte (p.plus i)], cs', left, ?_⟩
      simp only [csToken, if_pos henc]
      exact ⟨rfl, rfl, Nat.add_comm left 2, hrest⟩
    next henc =>
    split at h
    · next h2 =>
      obtain ⟨cs', hrest, rfl⟩ := Option.map_eq_some_iff.1 h
      refine ⟨[.two _ _ h2], cs', left, ?_⟩
      have h2 : isgb18030_2 (p.plus i) = true := h2
      simp only [csToken, if_neg henc, if_pos h2]
      exact ⟨rfl, rfl, Nat.add_comm left 2, hrest⟩
    next h2 =>
    have h2 : ¬ isgb18030_2 (p.plus i) = true := h2
    split at h
    · next ha =>
      obtain ⟨cs', hrest, rfl⟩ := Option.map_eq_some_iff.1 h
      refine ⟨[.ascii _ ha], cs', left + 1, ?_⟩
      simp only [csToken, if_neg henc, if_neg h2, if_pos ha]
      exact ⟨rfl, rfl, Nat.add_comm (left + 1) 1, hrest⟩
    · next ha =>
      refine ⟨[], cs, left + 1, ?_⟩
      simp only [csToken, if_neg henc, if_neg h2, if_neg ha]
      exact ⟨rfl, rfl, Nat.add_comm (left + 1) 1, h⟩

theorem csToken_count_pos (codeset : CodeSet) (c : Ptr) : 0 < (csToken codeset c).count := by
  unfold csToken
  split
  · exact Nat.two_pos
  split
  · exact Nat.two_pos
  split <;> exact Nat.one_pos

theorem csToken_text_length_le (codeset : CodeSet) (c : Ptr) :
    (csToken codeset c).text.length ≤ 2 * (csToken codeset c).count := by
  unfold csToken
  split
  · exact Nat.le_refl 4
  split
  · exact Nat.le_add_left 2 2
  split
  · exact Nat.le_add_left 1 1
  · exact Nat.zero_le 2

/-- Multibyte text is at most twice as long. -/
theorem csChars_text_length_le {left i : Nat} {cs : List GbChar}
    (h : csChars codeset p left i = some cs) : (text cs).length ≤ 2 * left := by
  induction left using Nat.strongRecOn generalizing i cs with
  | ind left ih =>
    cases left with
    | zero =>
      cases h
      exact Nat.le_refl 0
    | succ left =>
      obtain ⟨ks, cs', left', hks, rfl, hleft, hrest⟩ := csChars_token h
      have hcount := csToken_count_pos codeset (p.plus i)
      have hlen := csToken_text_length_le codeset (p.plus i)
      have htail := ih left' (by omega) hrest
      rw [hks] at hlen
      rw [text_append, List.length_append]
      omega

/-- In a charset of ASCII or two-byte characters it puts the characters of the text. -/
theorem cstombs_puts (henc : codeset.wcEncoding ≠ 0x5e84) {left : Nat} {cs : List GbChar}
    {s : CsState} (h : csChars codeset p left s.src = some cs) (hfrom : s.fromLeft = left)
    (hpos : 0 < left) : CstombsPuts codeset numArgs p s cs := by
  induction left using Nat.strongRecOn generalizing s cs with
  | ind left ih =>
    obtain ⟨left, rfl⟩ := Nat.exists_eq_add_of_lt hpos
    rw [Nat.zero_add] at h hfrom ih
    obtain ⟨ks, cs', left', hks, rfl, hleft, hrest⟩ := csChars_token h
    have hsize :
        (csToken codeset (p.plus s.src)).size = (csToken codeset (p.plus s.src)).count := by
      simp only [csToken, if_neg henc]
      split
      · rfl
      split <;> rfl
    have hcount := csToken_count_pos codeset (p.plus s.src)
    rw [← hsize] at hrest
    refine .token rfl hks hcount (.inr (by omega)) ?_
    have hless : (s.token (csToken codeset (p.plus s.src))).fromLeft = left' := by
      show s.fromLeft - (csToken codeset (p.plus s.src)).count = _
      omega
    cases left' with
    | zero =>
      refine .inl ⟨by omega, ?_⟩
      cases hrest
      rfl
    | succ left' => exact .inr ⟨by omega, ih _ (by omega) hrest hless (Nat.succ_pos _)⟩

/-- In GB18030-1 it puts the first character of the text for each of them. -/
theorem cstombs_puts_four (henc : codeset.wcEncoding = 0x5e84) {k : Nat} {s : CsState}
    (hfrom : s.fromLeft = 2 * (k + 1)) :
    CstombsPuts codeset numArgs p s (List.replicate (k + 1) (.ofTwobyte (p.plus s.src))) := by
  induction k generalizing s with
  | zero =>
    have htoken : csToken codeset (p.plus s.src) = ⟨0, 2, twobyteToFourbyte (p.plus s.src), 0⟩ :=
      if_pos henc
    refine @CstombsPuts.token codeset numArgs p s _ [_] [] htoken rfl Nat.two_pos
      (.inr (by simp only; omega)) (.inl ⟨?_, rfl⟩)
    show s.fromLeft - 2 ≤ 0
    omega
  | succ k ih =>
    have htoken : csToken codeset (p.plus s.src) = ⟨0, 2, twobyteToFourbyte (p.plus s.src), 0⟩ :=
      if_pos henc
    refine @CstombsPuts.token codeset numArgs p s _ [_] _ htoken rfl Nat.two_pos
      (.inr (by simp only; omega)) (.inr ⟨?_, ih ?_⟩)
    · show 0 < s.fromLeft - 2
      omega
    · show s.fromLeft - 2 = _
      omega

/-- GB18030-1 text has a four-byte character for each pair of bytes; the first is that of the first
pair. -/
theorem csChars_four (henc : codeset.wcEncoding = 0x5e84) {left i : Nat} {cs : List GbChar}
    (h : csChars codeset p left i = some cs) :
    left = 2 * cs.length ∧ (∀ c ∈ cs, c.kind = .four) ∧
      ∀ c ∈ cs.head?, c = .ofTwobyte (p.plus i) := by
  induction left using Nat.strongRecOn generalizing i cs with
  | ind left ih =>
    match left with
    | 0 =>
      cases h
      exact ⟨rfl, List.forall_mem_nil _, fun c hc => by cases hc⟩
    | 1 =>
      simp only [csChars, if_pos henc] at h
      cases h
    | left + 2 =>
      simp only [csChars, if_pos henc] at h
      obtain ⟨cs', hrest, rfl⟩ := Option.map_eq_some_iff.1 h
      obtain ⟨hlen, hkind, -⟩ := ih left (by omega) hrest
      refine ⟨?_, List.forall_mem_cons.2 ⟨rfl, hkind⟩, fun c hc => ?_⟩
      · rw [List.length_cons]
        omega
      · cases hc
        rfl

/-- The bytes of four-byte characters. -/
theorem text_four {cs : List GbChar} (h : ∀ c ∈ cs, c.kind = .four) :
    (text cs).length = 4 * cs.length ∧ 0 ∉ text cs := by
  refine ⟨length_flatMap_eq fun c hc => GbChar.bytes_four (h c hc), fun hnul => ?_⟩
  obtain ⟨c, hc, hzero⟩ := List.mem_flatMap.1 hnul
  have hfour := GbChar.bytes_four (h c hc)
  rw [c.bytes_nul hzero] at hfour
  exact absurd hfour (by decide)

end Cstombs

/-! ## `gb18030_ctstombs` with less room -/

section Ctstombs

variable {len : Nat} {p : Ptr}

theorem text_singleton (c : GbChar) : text [c] = c.bytes := List.append_nil _

theorem nul_not_mem_ascii {b : UInt8} (h : isText b = true) : 0 ∉ [b] := by
  rw [List.mem_singleton]
  rintro rfl
  exact absurd h (by decide)

theorem nul_not_mem_two {b0 b1 : UInt8} (hb : isgb18030_2 (.ofList [b0, b1]) = true) :
    0 ∉ [b0, b1] :=
  fun h => absurd (GbChar.bytes_nul (c := .two b0 b1 hb) h) (by simp [GbChar.bytes])

/-- What is put for a character of a charset. -/
theorem segmentText_char {c : Ptr} {t : CharSetType} {l : List UInt8}
    (h : segmentText c t = some l) : ∃ d : GbChar, l = d.bytes ∧ 0 ∉ l := by
  cases t with
  | ascii =>
    simp only [segmentText] at h
    split at h
    · next htext =>
      cases h
      have ha : isAscii (c 0) = true := (Bool.and_eq_true_iff.1 htext).2
      exact ⟨.ascii (c 0) ha, rfl, nul_not_mem_ascii htext⟩
    · cases h
  | gb2312 =>
    simp only [segmentText] at h
    split at h
    · next hgb =>
      cases h
      have h2 : isgb18030_2
          (.ofList [(c 0 &&& 0x7f) ||| 0x80, (c 1 &&& 0x7f) ||| 0x80]) = true := by
        by_contra hno
        have hgb' := isgb_eq_false (Bool.not_eq_true _ ▸ hno)
        exact absurd (hgb'.symm.trans hgb) (by decide)
      exact ⟨.two _ _ h2, rfl, nul_not_mem_two h2⟩
    · cases h
  | gb18030_0 =>
    simp only [segmentText] at h
    split at h
    · next h2 =>
      cases h
      have h2 : isgb18030_2 (.ofList [c 0, c 1]) = true := h2
      exact ⟨.two _ _ h2, rfl, nul_not_mem_two h2⟩
    · cases h
  | gb18030_1 =>
    simp only [segmentText] at h
    split at h
    · next h4 =>
      cases h
      exact ⟨.four _ _ _ _ h4, rfl, isgb18030_4_bytes h4⟩
    · cases h

/-- What is put for a token is a character other than NUL, if anything, and no longer than the
token. -/
theorem ctsToken_text (c : Ptr) (seg : Option CharSetType) :
    ∃ cs : List GbChar, (ctsToken c seg).text = text cs ∧ 0 ∉ text cs ∧
      (text cs).length ≤ (ctsToken c seg).size ∧ (text cs).length ≤ 4 := by
  cases seg with
  | none =>
    simp only [ctsToken]
    split
    · cases getCharsetWithEncodeString c with
      | none => exact ⟨[], rfl, List.not_mem_nil, Nat.zero_le _, Nat.zero_le _⟩
      | some t => exact ⟨[], rfl, List.not_mem_nil, Nat.zero_le _, Nat.zero_le _⟩
    split
    · next htext =>
      have ha : isAscii (c 0) = true := (Bool.and_eq_true_iff.1 htext).2
      exact ⟨[.ascii (c 0) ha], rfl, nul_not_mem_ascii htext, Nat.le_refl 1, Nat.le_add_left 1 3⟩
    · exact ⟨[], rfl, List.not_mem_nil, Nat.zero_le _, Nat.zero_le _⟩
  | some t =>
    simp only [ctsToken]
    cases hl : segmentText c t with
    | none => exact ⟨[], rfl, List.not_mem_nil, Nat.zero_le _, Nat.zero_le _⟩
    | some l =>
      obtain ⟨d, rfl, hnul⟩ := segmentText_char hl
      have hlen := segmentText_length_le hl
      refine ⟨[d], (text_singleton d).symm, ?_, ?_, ?_⟩
      · rwa [text_singleton]
      · exact Nat.le_of_eq (congrArg List.length (text_singleton d))
      · rw [text_singleton]
        exact hlen.2

/-- Fewer characters than `cs` have been put behind `out`. -/
def BrokenOff (out : List UInt8) (cs : List GbChar) (toLeft : Int) (r : Converted) : Prop :=
  ∃ cs', 0 ∉ text cs' ∧ r.written = out ++ text cs' ∧ r.toMoved = r.written.length ∧
    r.toLeft = toLeft - (text cs').length ∧ cs'.length < cs.length

theorem BrokenOff.token {out : List UInt8} {ks cs : List GbChar} {toLeft : Int} {r : Converted}
    (hnul : 0 ∉ text ks) (h : BrokenOff (out ++ text ks) cs (toLeft - (text ks).length) r) :
    BrokenOff out (ks ++ cs) toLeft r := by
  obtain ⟨cs', hnul', hwritten, hmoved, hleft, hlen⟩ := h
  refine ⟨ks ++ cs', ?_, ?_, hmoved, ?_, ?_⟩
  · rw [text_append, List.mem_append]
    exact not_or.2 ⟨hnul, hnul'⟩
  · rw [hwritten, text_append, List.append_assoc]
  · rw [hleft, text_append, List.length_append]
    omega
  · simp only [List.length_append]
    omega

/-- **With less room** the text comes out as before if it fits, and breaks off otherwise. -/
theorem ctstombs_room {n : Nat} {s : CtsState} {r : Converted} (hs : s.Entered)
    (hroom : 4 * ((len : Int) - s.i) ≤ s.toLeft)
    (h : loop (ctstombsPass len true p) n s = some r) :
    ∃ cs, 0 ∉ text cs ∧ r.written = s.out ++ text cs ∧ r.toMoved = r.written.length ∧
      WithRoom (fun toLeft => loop (ctstombsPass len true p) n { s with toLeft := toLeft })
        (BrokenOff s.out) r cs := by
  induction n generalizing s with
  | zero => cases h
  | succ n ih =>
    have hpass := fun toLeft : Int =>
      @ctstombsPass_token len true p { s with toLeft := toLeft } hs
    simp only at hpass
    by_cases hi : s.i < len
    · obtain ⟨ks, hks, hnul, hsize, hfour⟩ := ctsToken_text (p.plus s.i) s.seg
      have hentered : (s.token true (ctsToken (p.plus s.i) s.seg)).Entered :=
        fun hseg => ctsToken_entered hs hseg
      generalize ctsToken (p.plus s.i) s.seg = token at hks hsize hpass hentered
      have hout : (s.token true token).out = s.out ++ text ks := by
        rw [← hks]
        rfl
      have hgo : ∀ toLeft : Int, (text ks).length ≤ toLeft →
          loop (ctstombsPass len true p) (n + 1) { s with toLeft := toLeft } =
            loop (ctstombsPass len true p) n
              { s.token true token with toLeft := toLeft - (text ks).length } := by
        intro toLeft hle
        rw [← hks] at hle ⊢
        simp only [loop, (hpass toLeft).trans (if_pos ⟨hi, .inr hle⟩)]
        rfl
      have hroom' : 4 * ((len : Int) - (s.token true token).i) ≤
          (s.token true token).toLeft := by
        simp only [CtsState.token, hks]
        omega
      have h' : loop (ctstombsPass len true p) n (s.token true token) = some r := by
        rw [← h, hgo s.toLeft (by omega), ← hks]
        rfl
      obtain ⟨cs, hnul', hwritten, hmoved, hrest⟩ := ih hentered hroom' h'
      rw [hout] at hwritten
      refine ⟨ks ++ cs, ?_, ?_, hmoved,
        hrest.token hgo (fun toLeft hzero hlt => ?_) fun toLeft r' hr => .token hnul (hout ▸ hr)⟩
      · rw [text_append, List.mem_append]
        exact not_or.2 ⟨hnul, hnul'⟩
      · rw [hwritten, text_append, List.append_assoc]
      · -- the converter ends where the token is
        have hne : ks ≠ [] := text_length_pos_iff.1 (by omega)
        have hpos := List.length_pos_iff.2 hne
        have hno : ¬ (s.i < len ∧ (token.text = [] ∨ (token.text.length : Int) ≤ toLeft)) := by
          rw [hks]
          rintro ⟨-, hnil | hle⟩
          · rw [hnil, List.length_nil] at hlt
            omega
          · omega
        refine ⟨CtsState.finish len { s with toLeft := toLeft }, ?_, [], List.not_mem_nil,
          (List.append_nil _).symm, rfl, ?_, ?_⟩
        · simp only [loop, (hpass toLeft).trans (if_neg hno)]
        · simp [CtsState.finish, text]
        · rw [List.length_append, List.length_nil]
          omega
    · have hstop := fun toLeft : Int => (hpass toLeft).trans (if_neg fun h => hi h.1)
      simp only [loop, hstop s.toLeft] at h
      cases h
      refine ⟨[], List.not_mem_nil, (List.append_nil _).symm, rfl, .nil fun toLeft => ?_⟩
      simp only [loop, hstop toLeft]
      rfl

end Ctstombs

/-! ## Wide characters -/

section Wide

variable {W : Type*} {toWc : GbChar → W} {mbstowcs : Ptr → Nat → Int × List W}

theorem Ptr.put_holds_of_le {p : Ptr} {i k : Nat} {b : UInt8} {l : List UInt8} (h : Holds p k l)
    (hi : k + l.length ≤ i) : Holds (p.put i b) k l := by
  induction l generalizing k with
  | nil => trivial
  | cons b' l ih =>
    rw [List.length_cons] at hi
    refine ⟨?_, ih h.2 (by omega)⟩
    rw [Ptr.put, if_neg (by omega)]
    exact h.1

/-- The text in the block, with NUL behind it. -/
theorem Ptr.put_store_holds (q : Ptr) (l : List UInt8) :
    Holds ((q.store l).put l.length 0) 0 (l ++ [0]) := by
  rw [holds_append]
  refine ⟨Ptr.put_holds_of_le (q.store_holds l) (by omega), ?_, trivial⟩
  rw [Nat.zero_add, Ptr.put, if_pos rfl]

/-- `mbstowcs` makes wide characters of the characters before the first NUL. -/
theorem widen_text (hmb : IsMbstowcs toWc mbstowcs) (outbuf : Ptr) {toLeftSave : Int}
    {cs : List GbChar} {r : Converted} (hwritten : r.written = text cs)
    (hmoved : r.toMoved = r.written.length) (hleft : r.toLeft = toLeftSave - (text cs).length) :
    ∃ m ≤ cs.length, (widen mbstowcs outbuf toLeftSave r).wide = (cs.take m).map toWc ∧
      (widen mbstowcs outbuf toLeftSave r).toLeft = toLeftSave - m ∧
      (m = cs.length ↔ 0 ∉ text cs) := by
  have hholds := Ptr.put_store_holds outbuf (text cs)
  have hlimit : (toLeftSave - r.toLeft).toNat = (text cs).length := by omega
  have hlong := length_le_text cs
  rw [hwritten] at hmoved
  simp only [widen, hwritten, hmoved, hlimit]
  by_cases hnul : 0 ∈ text cs
  · obtain ⟨pre, c, post, rfl, hc, hpre⟩ := text_nul hnul
    have htext : text (pre ++ c :: post) ++ [0] = (text pre ++ [0]) ++ (text post ++ [0]) := by
      rw [text_append, text_cons, hc]
      simp only [List.append_assoc]
    rw [htext] at hholds
    have hlen : pre.length ≤ (text (pre ++ c :: post)).length := by
      rw [List.length_append] at hlong
      omega
    rw [hmb pre _ _ (holds_append.1 hholds).1 hpre, Nat.min_eq_right hlen]
    refine ⟨pre.length, ?_, ?_, rfl, ?_⟩
    · rw [List.length_append]
      omega
    · rw [List.take_left, List.take_of_length_le hlen]
    · refine iff_of_false ?_ (fun h => h hnul)
      rw [List.length_append, List.length_cons]
      omega
  · rw [hmb cs _ _ hholds hnul, Nat.min_eq_right hlong]
    refine ⟨cs.length, Nat.le_refl _, ?_, rfl, iff_of_true rfl hnul⟩
    rw [List.take_length, List.take_of_length_le hlong]

/-- The characters `cs` come out exactly if what `mbstowcs` is given stands for the same wide
characters, and has no NUL in it. -/
theorem widen_isAll_of_length (hmb : IsMbstowcs toWc mbstowcs) (outbuf : Ptr) {toLeftSave : Int}
    {cs cs' : List GbChar} {r : Converted} (hwritten : r.written = text cs')
    (hmoved : r.toMoved = r.written.length) (hleft : r.toLeft = toLeftSave - (text cs').length)
    (hlen : cs'.length = cs.length) :
    (widen mbstowcs outbuf toLeftSave r).IsAll toWc cs r.ret toLeftSave ↔
      0 ∉ text cs' ∧ cs'.map toWc = cs.map toWc := by
  obtain ⟨m, -, hwide, hto, hiff⟩ := widen_text hmb outbuf hwritten hmoved hleft
  rw [← hiff]
  constructor
  · intro h
    have hall := h.toLeft
    obtain rfl : m = cs'.length := by omega
    rw [List.take_length] at hwide
    exact ⟨rfl, hwide.symm.trans h.wide⟩
  · intro h
    obtain ⟨rfl, hmap⟩ := h
    rw [List.take_length] at hwide
    exact ⟨rfl, hwide.trans hmap, by rw [hto, hlen]⟩

/-- All that `mbstowcs` is given comes out exactly if there is no NUL in it. -/
theorem widen_isAll_iff (hmb : IsMbstowcs toWc mbstowcs) (outbuf : Ptr) {toLeftSave : Int}
    {cs : List GbChar} {r : Converted} (hwritten : r.written = text cs)
    (hmoved : r.toMoved = r.written.length) (hleft : r.toLeft = toLeftSave - (text cs).length) :
    (widen mbstowcs outbuf toLeftSave r).IsAll toWc cs r.ret toLeftSave ↔ 0 ∉ text cs :=
  (widen_isAll_of_length hmb outbuf hwritten hmoved hleft rfl).trans (and_iff_left rfl)

/-- What `gb18030_cstombs` puts of a text: as many characters with as many bytes, and where it puts
them the right ones unless the text is GB18030-1 with different characters. -/
theorem cstombs_puts_text {codeset : CodeSet} {numArgs : Nat} {p : Ptr} {left : Nat}
    {cs : List GbChar} {s : CsState} (h : csChars codeset p left s.src = some cs)
    (hfrom : s.fromLeft = left) (hpos : 0 < left) (toWc : GbChar → W) :
    ∃ cs', CstombsPuts codeset numArgs p s cs' ∧ cs'.length = cs.length ∧
      (text cs').length = (text cs).length ∧
      ((0 ∉ text cs' ∧ cs'.map toWc = cs.map toWc) ↔ 0 ∉ text cs ∧
        (codeset.wcEncoding = 0x5e84 → ∀ c ∈ cs, ∀ d ∈ cs, toWc c = toWc d)) := by
  by_cases henc : codeset.wcEncoding = 0x5e84
  · obtain ⟨hleft, hkind, hhead⟩ := csChars_four henc h
    cases cs with
    | nil =>
      rw [List.length_nil] at hleft
      omega
    | cons c cs =>
      rw [List.length_cons] at hleft
      obtain rfl : c = .ofTwobyte (p.plus s.src) := hhead c rfl
      have hputs := @cstombs_puts_four codeset numArgs p henc cs.length s (by omega)
      generalize GbChar.ofTwobyte (p.plus s.src) = c at hputs hkind
      have hkind' : ∀ d ∈ List.replicate (cs.length + 1) c, d.kind = .four := by
        intro d hd
        rw [List.eq_of_mem_replicate hd]
        exact hkind c List.mem_cons_self
      have htext := text_four hkind
      have htext' := text_four hkind'
      rw [List.length_replicate] at htext'
      refine ⟨_, hputs, List.length_replicate, htext'.1.trans htext.1.symm, ?_⟩
      rw [and_iff_right htext.2, and_iff_right htext'.2, List.map_replicate, eq_comm,
        List.eq_replicate_iff, List.forall_mem_map]
      constructor
      · intro hall _ d hd e he
        rw [hall.2 d hd, hall.2 e he]
      · intro halike
        exact ⟨List.length_map _, fun d hd => halike henc d hd c List.mem_cons_self⟩
  · refine ⟨cs, cstombs_puts henc h hfrom hpos, rfl, rfl, and_congr_right fun _ => ?_⟩
    exact iff_of_true rfl fun h => absurd h henc

/-- A text of no bytes: the converter looks at what is there all the same, and puts nothing. -/
theorem cstombs_nothing {codeset : CodeSet} {numArgs : Nat} {p : Ptr} {s : CsState}
    (hfrom : s.fromLeft = 0) (hdst : s.dst = []) :
    ∃ r : Converted, r.written = [] ∧ r.toMoved = r.written.length ∧ ∀ toLeft : Int,
      loop (cstombsPass codeset numArgs p) 1 { s with toLeft := toLeft } =
        some { r with toLeft := toLeft } := by
  have hpass := fun toLeft : Int =>
    @cstombsPass_token codeset numArgs p { s with toLeft := toLeft }
  have hcount := csToken_count_pos codeset (p.plus s.src)
  simp only at hpass
  generalize csToken codeset (p.plus s.src) = token at hpass hcount
  by_cases hnil : token.text = []
  · refine ⟨(s.token token).finish numArgs, ?_, rfl, fun toLeft => ?_⟩
    · show s.dst ++ token.text = []
      rw [hdst, hnil]
      rfl
    · have hend : (s.token token).fromLeft ≤ 0 := by
        show s.fromLeft - token.count ≤ 0
        omega
      refine (loop_endPass ((hpass toLeft).trans (if_pos (.inl hnil))) 0).trans
        ((if_pos hend).trans ?_)
      simp only [CsState.token, CsState.finish, CsState.move, hnil]
      simp
  · refine ⟨s.fail, hdst, ?_, fun toLeft => ?_⟩
    · show 0 = s.dst.length
      rw [hdst]
      rfl
    · have hno : ¬ (token.text = [] ∨ (token.count : Int) ≤ s.fromLeft ∧
          (token.text.length : Int) ≤ toLeft) := by
        rintro (h | h)
        · exact hnil h
        · omega
      simp only [loop, (hpass toLeft).trans (if_neg hno)]
      rfl

theorem gb18030Cstowcs_iff (hmb : IsMbstowcs toWc mbstowcs) (outbuf p : Ptr) {lcd : XLCd}
    (numArgs : Nat) {charset : XlcCharSet} {codeset : CodeSet} {n : Nat} {cs : List GbChar}
    {big : Int} (hbig : 4 * n ≤ big) (hcodeset : getCodeSetFromCharset lcd charset = some codeset)
    (hchars : csChars codeset p n 0 = some cs) :
    ∃ r, gb18030Cstombs lcd numArgs charset p n big = some r ∧
      ∀ toLeft : Int, cs.length ≤ toLeft →
        ∃ w, gb18030Cstowcs mbstowcs outbuf lcd numArgs charset p n toLeft = some w ∧
          (w.IsAll toWc cs r.ret toLeft ↔ CsWideFits toWc codeset cs toLeft) := by
  have hfits : ∀ toLeft, CsWideFits toWc codeset cs toLeft ↔ (text cs).length ≤ toLeft ∧
      0 ∉ text cs ∧ (codeset.wcEncoding = 0x5e84 → ∀ c ∈ cs, ∀ d ∈ cs, toWc c = toWc d) :=
    fun toLeft => ⟨fun h => ⟨h.room, h.noNul, h.alike⟩, fun h => ⟨h.1, h.2.1, h.2.2⟩⟩
  have hbytes := csChars_text_length_le hchars
  simp only [gb18030Cstowcs, gb18030Cstombs, hcodeset, hfits]
  rcases Nat.eq_zero_or_pos n with rfl | hpos
  · cases hchars
    obtain ⟨r, hwritten, hmoved, hrun⟩ :=
      @cstombs_nothing codeset numArgs p (.start 0 0 (some charset)) rfl rfl
    refine ⟨_, hrun big, fun toLeft hn => ⟨_, congrArg (Option.map _) (hrun toLeft), ?_⟩⟩
    have hall := @widen_isAll_of_length W toWc mbstowcs hmb outbuf toLeft [] []
      { r with toLeft := toLeft } hwritten hmoved
    refine (hall ?_ rfl).trans
      (iff_of_true ⟨List.not_mem_nil, rfl⟩ ⟨hn, List.not_mem_nil, ?_⟩)
    · simp [text]
    · intro _ c hc
      cases hc
  · obtain ⟨cs', ⟨r, hret, hwritten, hmoved, hroom⟩, hlen, hsame, hiff⟩ :=
      @cstombs_puts_text W codeset numArgs p n cs (.start n big (some charset)) hchars rfl hpos toWc
    have hless := hroom ((n : Int).toNat + 1) (Nat.lt_succ_self _)
    refine ⟨_, hless.fits big (by omega), fun toLeft hn => ?_⟩
    by_cases hfit : (text cs).length ≤ toLeft
    · refine ⟨_, congrArg (Option.map _) (hless.fits toLeft (by omega)), ?_⟩
      exact (widen_isAll_of_length (r := { r with toLeft := toLeft - (text cs').length }) hmb outbuf
        hwritten hmoved rfl hlen).trans (hiff.trans (and_iff_right hfit).symm)
    · obtain ⟨r', hr', hret', -⟩ := hless.short toLeft (by omega) (by omega)
      refine ⟨_, congrArg (Option.map _) hr', iff_of_false (fun h => ?_) fun h => hfit h.1⟩
      exact hret (h.ret.symm.trans hret')

theorem gb18030Ctstowcs_iff (hmb : IsMbstowcs toWc mbstowcs) (outbuf p : Ptr) (n : Nat) {big : Int}
    (hbig : 4 * n ≤ big) :
    ∃ r cs, gb18030Ctstombs n true p big = some r ∧ r.written = text cs ∧
      ∀ toLeft : Int, cs.length ≤ toLeft →
        ∃ w, gb18030Ctstowcs mbstowcs outbuf p n toLeft = some w ∧
          (w.IsAll toWc cs r.ret toLeft ↔ (text cs).length ≤ toLeft) := by
  simp only [gb18030Ctstowcs, gb18030Ctstombs]
  obtain ⟨r, hr⟩ := @loop_total _ _ (ctstombsPass n true p) (CtsState.measure n)
    (fun _ _ h => ctstombsPass_lt h) (2 * (n : Int).toNat + 1) (.start big)
    (by simp [CtsState.measure, CtsState.start])
  obtain ⟨cs, hnul, hwritten, hmoved, hless⟩ := ctstombs_room (fun h => absurd rfl h)
    (by simp only [CtsState.start]; omega) hr
  refine ⟨r, cs, hr, hwritten, fun toLeft hn => ?_⟩
  by_cases hfit : (text cs).length ≤ toLeft
  · refine ⟨_, congrArg (Option.map _) (hless.fits toLeft hfit), ?_⟩
    exact (widen_isAll_iff (r := { r with toLeft := toLeft - (text cs).length }) hmb outbuf
      hwritten hmoved rfl).trans (iff_of_true hnul hfit)
  · obtain ⟨r', hr', cs', -, hwritten', hmoved', hleft', hlen⟩ :=
      hless.short toLeft (by omega) (by omega)
    refine ⟨_, congrArg (Option.map _) hr', iff_of_false (fun h => ?_) hfit⟩
    obtain ⟨m, hm, -, hto, -⟩ := widen_text hmb outbuf hwritten' hmoved' hleft'
    have hall' := h.toLeft
    omega

/-- **All characters come out as wide characters** exactly if their multibyte text, in bytes, fits
into the room for wide characters, where charset text has no NUL, which hides what comes after it,
and no two different GB18030-1 characters, which all come out as the first one. The characters of
charset text are those of the text (`csChars`), not those that come out. -/
theorem wide_capacity_iff (hmb : IsMbstowcs toWc mbstowcs) (outbuf p : Ptr) (lcd : XLCd)
    (numArgs : Nat) (charset : XlcCharSet) (n : Nat) {big : Int} (hbig : 4 * n ≤ big) :
    (∀ codeset cs, getCodeSetFromCharset lcd charset = some codeset →
      csChars codeset p n 0 = some cs →
      ∃ r, gb18030Cstombs lcd numArgs charset p n big = some r ∧
        ∀ toLeft : Int, cs.length ≤ toLeft →
          ∃ w, gb18030Cstowcs mbstowcs outbuf lcd numArgs charset p n toLeft = some w ∧
            (w.IsAll toWc cs r.ret toLeft ↔ CsWideFits toWc codeset cs toLeft)) ∧
    ∃ r cs, gb18030Ctstombs n true p big = some r ∧ r.written = text cs ∧
      ∀ toLeft : Int, cs.length ≤ toLeft →
        ∃ w, gb18030Ctstowcs mbstowcs outbuf p n toLeft = some w ∧
          (w.IsAll toWc cs r.ret toLeft ↔ (text cs).length ≤ toLeft) :=
  ⟨fun _ _ hcodeset hchars => gb18030Cstowcs_iff hmb outbuf p numArgs hbig hcodeset hchars,
    gb18030Ctstowcs_iff hmb outbuf p n hbig⟩

end Wide

/-- The characters in memory, at most `m` of them, up to a NUL. -/
def decodeBytes (q : Ptr) : Nat → Nat → Option (List (List UInt8))
  | 0, _ => some []
  | m + 1, i =>
    let c := q.plus i
    if c 0 = 0 then some []
    else if isgb18030_2 c then (decodeBytes q m (i + 2)).map ([c 0, c 1] :: ·)
    else if isgb18030_4 c then (decodeBytes q m (i + 4)).map ([c 0, c 1, c 2, c 3] :: ·)
    else if isAscii (c 0) then (decodeBytes q m (i + 1)).map ([c 0] :: ·)
    else none

/-- `mbstowcs` for wide characters that are the bytes of the character. -/
def mbstowcsBytes (q : Ptr) (m : Nat) : Int × List (List UInt8) :=
  match decodeBytes q m 0 with
  | none => (-1, [])
  | some l => (l.length, l)

theorem decodeBytes_text {q : Ptr} {cs : List GbChar} {m i : Nat}
    (h : Holds q i (text cs ++ [0])) (hnul : 0 ∉ text cs) :
    decodeBytes q m i = some ((cs.take m).map GbChar.bytes) := by
  induction m generalizing cs i with
  | zero => rfl
  | succ m ih =>
    cases cs with
    | nil =>
      have h0 : q.plus i 0 = 0 := h.1
      rw [decodeBytes]
      exact if_pos h0
    | cons c cs =>
      rw [text_cons, List.append_assoc] at h
      obtain ⟨hc, hrest⟩ := holds_append.1 h
      rw [text_cons, List.mem_append, not_or] at hnul
      obtain ⟨hcnul, hnul⟩ := hnul
      have hnext := ih hrest hnul
      have hp := holds_plus hc
      have hfirst : q.plus i 0 ∈ c.bytes := by
        cases c with
        | ascii b hb =>
          rw [hp.1]
          exact List.mem_cons_self
        | two b0 b1 hb =>
          rw [hp.1]
          exact List.mem_cons_self
        | four b0 b1 b2 b3 hb =>
          rw [hp.1]
          exact List.mem_cons_self
      have hne : q.plus i 0 ≠ 0 := by
        intro h0
        rw [h0] at hfirst
        exact hcnul hfirst
      rw [decodeBytes]
      simp only [if_neg hne, List.take_succ_cons, List.map_cons]
      cases c with
      | ascii b hb =>
        obtain ⟨-, h2, h4, -⟩ := Ptr.at_ascii hb hp
        obtain ⟨h0, -⟩ := hp
        have hnext : decodeBytes q m (i + 1) = _ := hnext
        simp only [h2, h4, h0, hb, hnext, Bool.false_eq_true, if_false, if_true, Option.map_some]
        rfl
      | two b0 b1 hb =>
        obtain ⟨-, h2⟩ := Ptr.at_two hb hp
        obtain ⟨h0, h1, -⟩ := hp
        have hnext : decodeBytes q m (i + 2) = _ := hnext
        simp only [h2, h0, h1, hnext, if_true, Option.map_some]
        rfl
      | four b0 b1 b2 b3 hb =>
        obtain ⟨-, h2, h4⟩ := Ptr.at_four hb hp
        obtain ⟨h0, h1, h2', h3, -⟩ := hp
        have hnext : decodeBytes q m (i + 4) = _ := hnext
        simp only [h2, h4, h0, h1, h2', h3, hnext, Bool.false_eq_true, if_false, if_true,
          Option.map_some]
        rfl

theorem mbstowcsBytes_isMbstowcs : IsMbstowcs GbChar.bytes mbstowcsBytes := by
  intro cs q m h hnul
  simp only [mbstowcsBytes, decodeBytes_text h hnul, List.length_map, List.length_take]

/-- Two two-byte characters and one of ASCII with room for five wide characters. -/
theorem wide_capacity_three : ∃ cs w,
    csChars gb18030Lcd.cs1 (.ofList [0xb0, 0xa1, 0x41, 0xc4, 0xe3]) 5 0 = some cs ∧
      cs.map GbChar.bytes = [[0xb0, 0xa1], [0x41], [0xc4, 0xe3]] ∧
      gb18030Cstowcs mbstowcsBytes (.ofList []) gb18030Lcd 1 gb18030Lcd.cs1.charset
        (.ofList [0xb0, 0xa1, 0x41, 0xc4, 0xe3]) 5 5 = some w ∧
      w.IsAll GbChar.bytes cs 0 5 := by
  have hchars : csChars gb18030Lcd.cs1 (.ofList [0xb0, 0xa1, 0x41, 0xc4, 0xe3]) 5 0 =
      some [.two 0xb0 0xa1 rfl, .ascii 0x41 rfl, .two 0xc4 0xe3 rfl] := rfl
  obtain ⟨r, hr, hall⟩ := (wide_capacity_iff mbstowcsBytes_isMbstowcs (.ofList [])
    (.ofList [0xb0, 0xa1, 0x41, 0xc4, 0xe3]) gb18030Lcd 1 gb18030Lcd.cs1.charset 5
    (show 4 * 5 ≤ 20 by decide)).1 _ _ rfl hchars
  cases hr
  obtain ⟨w, hw, hiff⟩ := hall 5 (by decide)
  refine ⟨_, w, hchars, rfl, hw, hiff.2 ⟨by decide, by decide, fun h => ?_⟩⟩
  exact absurd h (by decide)

/-- One two-byte character with room for one wide character: none comes out, and the converter fails.
Two GB18030-1 characters with all the room they need: the first comes out twice. -/
theorem wide_capacity_short :
    (∃ (c : GbChar) (w : WideConverted (List UInt8)),
      csChars gb18030Lcd.cs1 (.ofList [0xb0, 0xa1]) 2 0 = some [c] ∧ c.bytes = [0xb0, 0xa1] ∧
        gb18030Cstowcs mbstowcsBytes (.ofList []) gb18030Lcd 1 gb18030Lcd.cs1.charset
          (.ofList [0xb0, 0xa1]) 2 1 = some w ∧
        w.ret = -1 ∧ w.wide = [] ∧ w.toLeft = 1 ∧ ¬ w.IsAll GbChar.bytes [c] 0 1) ∧
    ∃ (c d : GbChar) (w : WideConverted (List UInt8)),
      csChars gb18030Lcd.cs2 (.ofList [0, 1, 0, 2]) 4 0 = some [c, d] ∧
        c.bytes = [0x81, 0x30, 0x81, 0x31] ∧ d.bytes = [0x81, 0x30, 0x81, 0x32] ∧
        gb18030Cstowcs mbstowcsBytes (.ofList []) gb18030Lcd 1 gb18030Lcd.cs2.charset
          (.ofList [0, 1, 0, 2]) 4 8 = some w ∧
        w.ret = 0 ∧ w.wide = [c.bytes, c.bytes] ∧ w.toLeft = 6 ∧
        ¬ w.IsAll GbChar.bytes [c, d] 0 8 := by
  refine ⟨⟨.two 0xb0 0xa1 rfl, _, rfl, rfl, rfl, rfl, rfl, rfl, fun h => ?_⟩,
    .ofTwobyte (.ofList [0, 1]), .ofTwobyte (.ofList [0, 2]), _, rfl, rfl, rfl, rfl, rfl, rfl, rfl,
    fun h => ?_⟩
  · exact absurd h.ret (by decide)
  · exact absurd h.wide (by decide)

end X11
