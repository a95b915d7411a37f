import SolarisXorg.X11.Gb18030Cursor
import SolarisXorg.X11.Proof.Gb18030Cs

/-!
# When the converters keep their cursors

`Counted k s`: before the `k`-th pass the pointers and the counts have gone over the first `k`
characters. A pass goes on, stops or fails (`PassAt`); only failing leaves the pointers behind, and
after the first pass that loses what was counted (`loop_consistent`). `gb18030_mbstocs`
(`mbstocsPass_at`), `gb18030_wcstocs` (`wcstocsPass_at`) and `gb18030_cstombs` (`cstombsPass_at`)
are loops of such passes, but for the codeset of four-byte characters, where the source pointer
stays (`cstombs_four_inconsistent`). So the cursors are kept exactly if no reading gets stuck
(`cursors_consistent_iff`).
-/

namespace X11

open Lib

theorem GbKind.flag_ne_zero (a : GbKind) : a.flag ≠ 0 := by
  cases a <;> decide

namespace Reading

variable {R : Reading} {fromLeft toLeft : Int} {numArgs k : Nat} {s : CsState}

/-! ## Sizes -/

theorem sum_le {size : Nat → Nat} {k m : Nat} (h : k ≤ m) : sum size k ≤ sum size m := by
  induction h with
  | refl => exact Nat.le_refl _
  | step _ ih => exact Nat.le_trans ih (Nat.le_add_right _ _)

theorem le_sum {size : Nat → Nat} (hpos : ∀ k, 0 < size k) (k : Nat) : k ≤ sum size k := by
  induction k with
  | zero => exact Nat.zero_le _
  | succ k ih =>
    have := hpos k
    simp only [sum]
    omega

theorem OneKind.mono {k m : Nat} (h : R.OneKind m) (hk : k ≤ m) : R.OneKind k :=
  fun i hi j hj => h i (Nat.le_trans hi hk) j (Nat.le_trans hj hk)

/-- The character that a later one has come past has found its room. -/
theorem StuckAt.fits {m : Nat} (h : R.StuckAt fromLeft toLeft m) (hk : k < m)
    (hkind : R.kind k ≠ none) : R.Fits fromLeft toLeft k := by
  have hreached := h.reached
  have hle : sum R.fromSize (k + 1) ≤ sum R.fromSize m := sum_le hk
  exact ⟨by omega, h.room k hk hkind⟩

/-! ## Passes -/

/-- The pointers and the counts have gone over the first `k` characters. -/
structure Counted (R : Reading) (fromLeft toLeft : Int) (k : Nat) (s : CsState) : Prop where
  src : s.src = sum R.fromSize k
  dst : s.dst.length = sum R.toSize k
  fromLeft : s.fromLeft = fromLeft - sum R.fromSize k
  toLeft : s.toLeft = toLeft - sum R.toSize k

/-- `flag` tells the length of the first `k` characters. -/
def FlagAt (R : Reading) (k flag : Nat) : Prop :=
  (flag = 0 ∧ ∀ i < k, R.kind i = none) ∨
    ∃ a : GbKind, flag = a.flag ∧ (∀ i < k, ∀ b, R.kind i = some b → b = a) ∧
      ∃ i < k, R.kind i = some a

/-- How the pass at the `k`-th character may end. -/
inductive PassAt (R : Reading) (fromLeft toLeft : Int) (numArgs k : Nat) :
    Pass CsState Converted → Prop
  | next {t : CsState} : R.Counted fromLeft toLeft (k + 1) t →
      (R.mixed = false → R.FlagAt (k + 1) t.flag) →
      (R.kind k ≠ none → R.Fits fromLeft toLeft k) →
      PassAt R fromLeft toLeft numArgs k (t.endPass numArgs)
  | turn {t : CsState} : R.Counted fromLeft toLeft k t → R.mixed = false → ¬ R.OneKind k →
      PassAt R fromLeft toLeft numArgs k (.leave (t.finish numArgs))
  | full {t : CsState} {a : GbKind} : R.Counted fromLeft toLeft k t → R.kind k = some a →
      R.fails a = false → ¬ R.Fits fromLeft toLeft k →
      PassAt R fromLeft toLeft numArgs k (.leave (t.finish numArgs))
  | fail {t : CsState} {a : GbKind} : R.Counted fromLeft toLeft k t → R.kind k = some a →
      R.fails a = true → ¬ R.Fits fromLeft toLeft k → (R.mixed = true ∨ R.OneKind k) →
      PassAt R fromLeft toLeft numArgs k (.leave t.fail)

theorem Counted.start (R : Reading) (fromLeft toLeft : Int) (charset : Option XlcCharSet) :
    R.Counted fromLeft toLeft 0 (.start fromLeft toLeft charset) :=
  ⟨rfl, rfl, by simp [CsState.start, sum], by simp [CsState.start, sum]⟩

theorem Counted.move {n : Nat} {l : List UInt8} {fromSize toSize : Int}
    (h : R.Counted fromLeft toLeft k s) (hn : n = R.fromSize k) (hl : l.length = R.toSize k)
    (hfrom : fromSize = n) (hto : toSize = l.length) :
    R.Counted fromLeft toLeft (k + 1) (s.move n l fromSize toSize) := by
  obtain ⟨hsrc, hdst, hfl, htl⟩ := h
  constructor
  · simp only [CsState.move, sum, hsrc, hn]
  · simp only [CsState.move, sum, List.length_append, hdst, hl]
  · simp only [CsState.move, sum, hfl]
    omega
  · simp only [CsState.move, sum, htl]
    omega

theorem Counted.fits_iff (h : R.Counted fromLeft toLeft k s) :
    R.Fits fromLeft toLeft k ↔
      (R.fromSize k : Int) ≤ s.fromLeft ∧ (R.toSize k : Int) ≤ s.toLeft := by
  obtain ⟨-, -, hfl, htl⟩ := h
  simp only [Fits, sum]
  omega

/-- What stands after the loop writes both pointers back. -/
theorem Counted.finish (h : R.Counted fromLeft toLeft k s) :
    (s.finish numArgs).Consistent fromLeft toLeft := by
  obtain ⟨hsrc, hdst, hfl, htl⟩ := h
  constructor
  · simp only [CsState.finish, hsrc, hfl]
    omega
  · simp only [CsState.finish, hdst, htl]
    omega

/-- `return -1` does not, and the counts stay lowered. -/
theorem Counted.fail_iff (hpos : ∀ k, 0 < R.fromSize k) (h : R.Counted fromLeft toLeft k s) :
    s.fail.Consistent fromLeft toLeft ↔ k = 0 := by
  obtain ⟨-, -, hfl, htl⟩ := h
  have hle := le_sum hpos k
  constructor
  · rintro ⟨hsource, -⟩
    simp only [CsState.fail, hfl] at hsource
    omega
  · rintro rfl
    constructor
    · simp [CsState.fail, hfl, sum]
    · simp [CsState.fail, htl, sum]

/-! ## The flag -/

theorem FlagAt.zero (R : Reading) : R.FlagAt 0 0 :=
  .inl ⟨rfl, fun i hi => absurd hi (Nat.not_lt_zero i)⟩

theorem FlagAt.skip {flag : Nat} (h : R.FlagAt k flag) (hk : R.kind k = none) :
    R.FlagAt (k + 1) flag := by
  rcases h with ⟨hflag, hnone⟩ | ⟨a, hflag, hall, i, hi, ha⟩
  · refine .inl ⟨hflag, fun i hi => ?_⟩
    rcases Nat.lt_succ_iff_lt_or_eq.mp hi with hi | rfl
    · exact hnone i hi
    · exact hk
  · refine .inr ⟨a, hflag, fun j hj b hb => ?_, i, by omega, ha⟩
    rcases Nat.lt_succ_iff_lt_or_eq.mp hj with hj | rfl
    · exact hall j hj b hb
    · rw [hk] at hb
      cases hb

/-- At a character the flag is set, or tells whether the character is like those before it. -/
theorem FlagAt.char {flag : Nat} {a : GbKind} (h : R.FlagAt k flag) (hk : R.kind k = some a) :
    ∃ b : GbKind, (if flag = 0 then a.flag else flag) = b.flag ∧
      (b = a → R.OneKind k ∧ R.FlagAt (k + 1) b.flag) ∧ (b ≠ a → ¬ R.OneKind k) := by
  rcases h with ⟨rfl, hnone⟩ | ⟨b, rfl, hall, i, hi, hb⟩
  · have hlike : ∀ i ≤ k, ∀ b, R.kind i = some b → b = a := by
      intro i hi b hb
      rcases Nat.lt_or_eq_of_le hi with hi | rfl
      · rw [hnone i hi] at hb
        cases hb
      · exact Option.some.inj (hb.symm.trans hk)
    refine ⟨a, if_pos rfl, fun _ => ⟨?_, .inr ⟨a, rfl, ?_, k, by omega, hk⟩⟩, absurd rfl⟩
    · intro i hi j hj b d hb hd
      rw [hlike i hi b hb, hlike j hj d hd]
    · exact fun i hi => hlike i (by omega)
  · refine ⟨b, if_neg b.flag_ne_zero, ?_,
      fun hne hone => hne (hone i (by omega) k (Nat.le_refl k) b a hb hk)⟩
    rintro rfl
    have hlike : ∀ i ≤ k, ∀ d, R.kind i = some d → d = b := by
      intro i hi d hd
      rcases Nat.lt_or_eq_of_le hi with hi | rfl
      · exact hall i hi d hd
      · exact Option.some.inj (hd.symm.trans hk)
    refine ⟨?_, .inr ⟨b, rfl, fun i hi => hlike i (by omega), k, by omega, hk⟩⟩
    intro i hi j hj d e hd he
    rw [hlike i hi d hd, hlike j hj e he]

/-! ## Loops -/

/-- **A loop of such passes keeps the cursors** exactly if no pass from here on gets stuck. -/
theorem loop_consistent {body : CsState → Pass CsState Converted} (hpos : ∀ k, 0 < R.fromSize k)
    (hbody : ∀ k s, R.Counted fromLeft toLeft k s → (R.mixed = false → R.FlagAt k s.flag) →
      R.PassAt fromLeft toLeft numArgs k (body s))
    (n k : Nat) (s : CsState) (hcount : R.Counted fromLeft toLeft k s)
    (hflag : R.mixed = false → R.FlagAt k s.flag) (hmore : 0 < k → 0 < s.fromLeft)
    (hroom : ∀ i < k, R.kind i ≠ none → (sum R.toSize (i + 1) : Int) ≤ toLeft)
    (hfuel : s.fromLeft.toNat < n) :
    ∃ r, loop body n s = some r ∧
      (r.Consistent fromLeft toLeft ↔ ∀ m ≥ k, ¬ R.StuckAt fromLeft toLeft m) := by
  induction n generalizing k s with
  | zero => omega
  | succ n ih =>
    have hpass := hbody k s hcount hflag
    simp only [loop]
    generalize body s = pass at hpass ⊢
    cases hpass with
    | @next t hcount' hflag' hfits =>
      -- the pass itself is not stuck
      have hhere : ¬ R.StuckAt fromLeft toLeft k := by
        rintro ⟨-, -, -, -, a, ha, -, hshort⟩
        exact hshort (hfits (by simp [ha]))
      unfold CsState.endPass
      by_cases hend : t.fromLeft ≤ 0
      · rw [if_pos hend]
        refine ⟨_, rfl, iff_of_true hcount'.finish fun m hm hstuck => ?_⟩
        rcases Nat.lt_or_eq_of_le hm with hlt | rfl
        · have hle : sum R.fromSize (k + 1) ≤ sum R.fromSize m := sum_le hlt
          have hreached := hstuck.reached
          have hleft := hcount'.fromLeft
          omega
        · exact hhere hstuck
      · rw [if_neg hend]
        have hleft := hcount.fromLeft
        have hleft' := hcount'.fromLeft
        have hsize := hpos k
        simp only [sum] at hleft'
        obtain ⟨r, hr, hiff⟩ := ih (k + 1) t hcount' hflag' (fun _ => by omega)
          (fun i hi hkind => by
            rcases Nat.lt_succ_iff_lt_or_eq.mp hi with hi | rfl
            · exact hroom i hi hkind
            · exact (hfits hkind).2)
          (by omega)
        refine ⟨r, hr, hiff.trans ⟨fun h m hm => ?_, fun h m hm => h m (by omega)⟩⟩
        rcases Nat.lt_or_eq_of_le hm with hlt | rfl
        · exact h m hlt
        · exact hhere
    | turn hcount' hmixed hkinds =>
      refine ⟨_, rfl, iff_of_true hcount'.finish fun m hm hstuck => ?_⟩
      rcases hstuck.kinds with h | h
      · rw [hmixed] at h
        cases h
      · exact hkinds (h.mono hm)
    | @full t a hcount' hkind hfails hshort =>
      refine ⟨_, rfl, iff_of_true hcount'.finish fun m hm hstuck => ?_⟩
      rcases Nat.lt_or_eq_of_le hm with hlt | rfl
      · exact hshort (hstuck.fits hlt (by simp [hkind]))
      · obtain ⟨b, hb, hfails', -⟩ := hstuck.short
        rw [hkind] at hb
        cases hb
        rw [hfails] at hfails'
        cases hfails'
    | @fail t a hcount' hkind hfails hshort hkinds =>
      refine ⟨_, rfl, (hcount'.fail_iff hpos).trans ⟨?_, fun h => ?_⟩⟩
      · rintro rfl m - hstuck
        exact hshort (hstuck.fits hstuck.later (by simp [hkind]))
      · by_contra hk
        have hleft := hcount.fromLeft
        have := hmore (by omega)
        exact h k (Nat.le_refl k) ⟨by omega, by omega, hroom, hkinds, a, hkind, hfails, hshort⟩

/-- The loop from the start. -/
theorem loop_start_consistent {body : CsState → Pass CsState Converted}
    (hpos : ∀ k, 0 < R.fromSize k)
    (hbody : ∀ k s, R.Counted fromLeft toLeft k s → (R.mixed = false → R.FlagAt k s.flag) →
      R.PassAt fromLeft toLeft numArgs k (body s)) (charset : Option XlcCharSet) :
    ∃ r, loop body (fromLeft.toNat + 1) (.start fromLeft toLeft charset) = some r ∧
      (r.Consistent fromLeft toLeft ↔ ∀ m, ¬ R.StuckAt fromLeft toLeft m) := by
  obtain ⟨r, hr, hiff⟩ := loop_consistent hpos hbody (fromLeft.toNat + 1) 0
    (.start fromLeft toLeft charset) (.start R fromLeft toLeft charset) (fun _ => .zero R)
    (fun h => absurd h (Nat.lt_irrefl 0)) (fun i hi => absurd hi (Nat.not_lt_zero i))
    (Nat.lt_succ_self _)
  exact ⟨r, hr, hiff.trans ⟨fun h m => h m (Nat.zero_le m), fun h m _ => h m⟩⟩

/-- The branch for characters like the one at `k`, where those of different lengths do not follow
each other; `other` is the test of the flag, and `short` what the branch does without room. -/
theorem PassAt.branch (other : Nat → Prop) [DecidablePred other]
    (short : CsState → Pass CsState Converted) {a : GbKind} {missing room : Prop}
    [Decidable missing] [Decidable room] {n : Nat} {l : List UInt8} {fromSize toSize : Int}
    (charset : XlcCharSet) (hcount : R.Counted fromLeft toLeft k s)
    (hflag : R.FlagAt k s.flag) (hmixed : R.mixed = false)
    (hkind : R.kind k = some a) (hother : ∀ b : GbKind, other b.flag ↔ b ≠ a) (hnum : ¬ missing)
    (hroom : room ↔ R.Fits fromLeft toLeft k) (hn : n = R.fromSize k) (hl : l.length = R.toSize k)
    (hfrom : fromSize = n) (hto : toSize = l.length)
    (hshort : ∀ t, R.Counted fromLeft toLeft k t → R.OneKind k → ¬ R.Fits fromLeft toLeft k →
      R.PassAt fromLeft toLeft numArgs k (short t)) :
    R.PassAt fromLeft toLeft numArgs k
      (if other (if s.flag = 0 then a.flag else s.flag) then
        .leave (CsState.finish numArgs { s with flag := if s.flag = 0 then a.flag else s.flag })
      else if missing then
        .leave (CsState.fail { s with flag := if s.flag = 0 then a.flag else s.flag })
      else if room then
        (CsState.move { s with
          flag := if s.flag = 0 then a.flag else s.flag
          charset := some charset } n l fromSize toSize).endPass numArgs
      else short { s with
        flag := if s.flag = 0 then a.flag else s.flag
        charset := some charset }) := by
  obtain ⟨b, hb, hsame, hdiff⟩ := hflag.char hkind
  rw [hb]
  have hcount' : ∀ charset', R.Counted fromLeft toLeft k
      { s with flag := b.flag, charset := charset' } :=
    fun _ => ⟨hcount.src, hcount.dst, hcount.fromLeft, hcount.toLeft⟩
  by_cases hba : b = a
  · obtain ⟨hone, hflag'⟩ := hsame hba
    rw [if_neg (by rw [hother]; exact fun h => h hba), if_neg hnum]
    by_cases hr : room
    · rw [if_pos hr]
      exact .next ((hcount' _).move hn hl hfrom hto) (fun _ => hflag') fun _ => hroom.mp hr
    · rw [if_neg hr]
      exact hshort _ (hcount' _) hone (fun h => hr (hroom.mpr h))
  · rw [if_pos ((hother b).mpr hba)]
    exact .turn (hcount' s.charset) hmixed (hdiff hba)

/-- A byte that is skipped. -/
theorem PassAt.skip {n : Nat} {fromSize : Int} (hcount : R.Counted fromLeft toLeft k s)
    (hflag : R.mixed = false → R.FlagAt k s.flag) (hkind : R.kind k = none) (hn : n = R.fromSize k)
    (hl : 0 = R.toSize k) (hfrom : fromSize = n) :
    R.PassAt fromLeft toLeft numArgs k
      ((CsState.move { s with unconvNum := s.unconvNum + 1 } n [] fromSize 0).endPass numArgs) := by
  have hcount' : R.Counted fromLeft toLeft k { s with unconvNum := s.unconvNum + 1 } :=
    ⟨hcount.src, hcount.dst, hcount.fromLeft, hcount.toLeft⟩
  exact .next (hcount'.move hn hl hfrom rfl) (fun h => (hflag h).skip hkind)
    fun h => absurd hkind h

end Reading

/-! ## Multibyte text -/

section

variable {lcd : XLCd} {numArgs k : Nat} {p : Ptr} {fromLeft toLeft : Int} {s : CsState}

theorem mbSize_pos (a : Option GbKind) : 0 < mbSize a := by
  rcases a with _ | a
  · decide
  · cases a <;> decide

theorem unitOffset_eq_sum (kind : Ptr → Option GbKind) (p : Ptr) (k : Nat) :
    unitOffset kind p k =
      Reading.sum (fun i => mbSize (kind (p.plus (unitOffset kind p i)))) k := by
  induction k with
  | zero => rfl
  | succ k ih => rw [unitOffset, Reading.sum, ← ih]

theorem mbstocsPass_at (hl : lcd.Gb18030Layout)
    (hcount : (mbstocsReading p).Counted fromLeft toLeft k s)
    (hflag : (mbstocsReading p).FlagAt k s.flag) :
    (mbstocsReading p).PassAt fromLeft toLeft numArgs k (mbstocsPass lcd numArgs p s) := by
  have hnum := hl.codesetNum
  have hfits := hcount.fits_iff
  have hsrc : s.src = unitOffset mbKind p k := hcount.src.trans (unitOffset_eq_sum mbKind p k).symm
  have hkind : (mbstocsReading p).kind k = mbKind (p.plus s.src) := by rw [hsrc]; rfl
  have hfrom : (mbstocsReading p).fromSize k = mbSize (mbKind (p.plus s.src)) := by rw [hsrc]; rfl
  have hto : (mbstocsReading p).toSize k = csSize (mbKind (p.plus s.src)) := by rw [hsrc]; rfl
  rw [hfrom, hto] at hfits
  simp only [mbstocsPass]
  by_cases h2 : isgb18030_2 (p.plus s.src) = true
  · have hk : mbKind (p.plus s.src) = some .two := by simp [mbKind, h2]
    rw [hk] at hkind hfrom hto hfits
    rw [if_pos h2, hl.charSize1]
    exact .branch (fun f => f = 3 ∨ f = 2) (fun t => .leave t.fail) _ hcount hflag rfl hkind
      (fun b => by cases b <;> decide) (by omega) hfits.symm hfrom.symm hto.symm rfl rfl
      fun t ht hone hshort => .fail ht hkind rfl hshort (.inr hone)
  by_cases h4 : isgb18030_4 (p.plus s.src) = true
  · have hk : mbKind (p.plus s.src) = some .four := by simp [mbKind, h2, h4]
    rw [hk] at hkind hfrom hto hfits
    rw [if_neg h2, if_pos h4, hl.charSize2]
    exact .branch (fun f => f = 3 ∨ f = 1) (fun t => .leave t.fail) _ hcount hflag rfl hkind
      (fun b => by cases b <;> decide) (by omega) hfits.symm hfrom.symm hto.symm rfl rfl
      fun t ht hone hshort => .fail ht hkind rfl hshort (.inr hone)
  by_cases ha : isAscii (p.plus s.src 0) = true
  · have hk : mbKind (p.plus s.src) = some .ascii := by
      rw [mbKind, if_neg h2, if_neg h4, if_pos ha]
    rw [hk] at hkind hfrom hto hfits
    rw [if_neg h2, if_neg h4, if_pos ha, hl.charSize0]
    exact .branch (fun f => f = 1 ∨ f = 2) (fun t => .leave (t.finish numArgs)) _ hcount hflag rfl
      hkind (fun b => by cases b <;> decide) (by omega) hfits.symm hfrom.symm hto.symm rfl rfl
      fun t ht _ hshort => .full ht hkind rfl hshort
  · have hk : mbKind (p.plus s.src) = none := by
      rw [mbKind, if_neg h2, if_neg h4, if_neg ha]
    rw [hk] at hkind hfrom hto
    rw [if_neg h2, if_neg h4, if_neg ha]
    exact .skip hcount (fun _ => hflag) hkind hfrom.symm hto.symm rfl

theorem gb18030Mbstocs_consistent (hl : lcd.Gb18030Layout) (numArgs : Nat) (p : Ptr)
    (fromLeft toLeft : Int) : ∃ r, gb18030Mbstocs lcd numArgs p fromLeft toLeft = some r ∧
      (r.Consistent fromLeft toLeft ↔ ∀ k, ¬ (mbstocsReading p).StuckAt fromLeft toLeft k) :=
  Reading.loop_start_consistent (R := mbstocsReading p) (fun _ => mbSize_pos _)
    (fun _ _ hcount hflag => mbstocsPass_at hl hcount (hflag rfl)) none

theorem move_finish_consistent {n : Nat} {l : List UInt8} {fromSize toSize : Int}
    (hsrc : s.src = 0) (hdst : s.dst = []) (hleft : s.fromLeft = fromLeft)
    (hroom : s.toLeft = toLeft) (hfrom : fromSize = n) (hto : toSize = l.length) :
    ((s.move n l fromSize toSize).finish numArgs).Consistent fromLeft toLeft := by
  constructor
  · simp only [CsState.move, CsState.finish, hsrc]
    omega
  · simp only [CsState.move, CsState.finish, hdst, List.nil_append]
    omega

/-- For one character nothing is stored or counted before the test for room. -/
theorem gb18030Mbtocs_consistent (hl : lcd.Gb18030Layout) (numArgs : Nat) (p : Ptr)
    (fromLeft toLeft : Int) :
    (gb18030Mbtocs lcd numArgs p fromLeft toLeft).Consistent fromLeft toLeft := by
  have hfail : ∀ charset, ({ CsState.start fromLeft toLeft none with
      charset := charset } : CsState).fail.Consistent fromLeft toLeft := by
    intro charset
    constructor <;> simp [CsState.start, CsState.fail]
  simp only [gb18030Mbtocs, hl.charSize0, hl.charSize1, hl.charSize2]
  split
  · split
    · exact hfail none
    · split
      · exact move_finish_consistent rfl rfl rfl rfl rfl rfl
      · exact hfail _
  · split
    · split
      · exact hfail none
      · split
        · exact move_finish_consistent rfl rfl rfl rfl rfl rfl
        · exact hfail _
    · split
      · split
        · exact hfail none
        · split
          · exact move_finish_consistent rfl rfl rfl rfl rfl rfl
          · exact hfail _
      · exact move_finish_consistent rfl rfl rfl rfl rfl rfl

/-! ## Wide characters -/

section

variable {W : Type*} {wctomb : W → Option (List UInt8)} {pwc : Nat → W} {tmp : Nat → Ptr}

theorem sum_one (k : Nat) : Reading.sum (fun _ => 1) k = k := by
  induction k with
  | zero => rfl
  | succ k ih => rw [Reading.sum, ih]

theorem wcstocsPass_at (hl : lcd.Gb18030Layout)
    (hcount : (wcstocsReading wctomb pwc tmp).Counted fromLeft toLeft k s)
    (hflag : (wcstocsReading wctomb pwc tmp).FlagAt k s.flag) :
    (wcstocsReading wctomb pwc tmp).PassAt fromLeft toLeft numArgs k
      (wcstocsPass lcd numArgs wctomb pwc tmp s) := by
  have hnum := hl.codesetNum
  have hfits := hcount.fits_iff
  obtain rfl : s.src = k := hcount.src.trans (sum_one k)
  have hto : (wcstocsReading wctomb pwc tmp).toSize s.src =
      csSize (mbKind (wcBuffer wctomb pwc tmp s.src)) := rfl
  have hkind : (wcstocsReading wctomb pwc tmp).kind s.src =
      mbKind (wcBuffer wctomb pwc tmp s.src) := rfl
  have hroom : ∀ size : Nat, csSize (mbKind (wcBuffer wctomb pwc tmp s.src)) = size →
      (0 < s.fromLeft ∧ (size : Int) ≤ s.toLeft ↔
        (wcstocsReading wctomb pwc tmp).Fits fromLeft toLeft s.src) := by
    rintro size rfl
    rw [hfits, hto]
    apply and_congr_left
    intro _
    show 0 < s.fromLeft ↔ ((1 : Nat) : Int) ≤ s.fromLeft
    omega
  simp only [wcstocsPass]
  by_cases h2 : isgb18030_2 (wcBuffer wctomb pwc tmp s.src) = true
  · have hk : mbKind (wcBuffer wctomb pwc tmp s.src) = some .two := by simp [mbKind, h2]
    rw [hk] at hkind hto hroom
    rw [if_pos h2, hl.charSize1]
    exact .branch (fun f => f = 2 ∨ f = 3) (fun t => .leave t.fail) _ hcount hflag rfl hkind
      (fun b => by cases b <;> decide) (by omega) (hroom _ rfl) rfl hto.symm rfl rfl
      fun t ht hone hshort => .fail ht hkind rfl hshort (.inr hone)
  by_cases h4 : isgb18030_4 (wcBuffer wctomb pwc tmp s.src) = true
  · have hk : mbKind (wcBuffer wctomb pwc tmp s.src) = some .four := by simp [mbKind, h2, h4]
    rw [hk] at hkind hto hroom
    rw [if_neg h2, if_pos h4, hl.charSize2]
    exact .branch (fun f => f = 1 ∨ f = 3) (fun t => .leave t.fail) _ hcount hflag rfl hkind
      (fun b => by cases b <;> decide) (by omega) (hroom _ rfl) rfl hto.symm rfl rfl
      fun t ht hone hshort => .fail ht hkind rfl hshort (.inr hone)
  by_cases ha : isAscii (wcBuffer wctomb pwc tmp s.src 0) = true
  · have hk : mbKind (wcBuffer wctomb pwc tmp s.src) = some .ascii := by
      rw [mbKind, if_neg h2, if_neg h4, if_pos ha]
    rw [hk] at hkind hto hroom
    rw [if_neg h2, if_neg h4, if_pos ha, hl.charSize0]
    exact .branch (fun f => f = 1 ∨ f = 2) (fun t => .leave t.fail) _ hcount hflag rfl hkind
      (fun b => by cases b <;> decide) (by omega) (hroom _ rfl) rfl hto.symm rfl rfl
      fun t ht hone hshort => .fail ht hkind rfl hshort (.inr hone)
  · have hk : mbKind (wcBuffer wctomb pwc tmp s.src) = none := by
      rw [mbKind, if_neg h2, if_neg h4, if_neg ha]
    rw [hk] at hkind hto
    rw [if_neg h2, if_neg h4, if_neg ha]
    exact .skip hcount (fun _ => hflag) hkind rfl hto.symm rfl

theorem gb18030Wcstocs_consistent (hl : lcd.Gb18030Layout) (numArgs : Nat)
    (wctomb : W → Option (List UInt8)) (pwc : Nat → W) (tmp : Nat → Ptr)
    (charset : Option XlcCharSet) (fromLeft toLeft : Int) :
    ∃ r, gb18030Wcstocs lcd numArgs wctomb pwc tmp charset fromLeft toLeft = some r ∧
      (r.Consistent fromLeft toLeft ↔
        ∀ k, ¬ (wcstocsReading wctomb pwc tmp).StuckAt fromLeft toLeft k) :=
  Reading.loop_start_consistent (R := wcstocsReading wctomb pwc tmp) (fun _ => Nat.one_pos)
    (fun _ _ hcount hflag => wcstocsPass_at hl hcount (hflag rfl)) charset

end

/-! ## Charset text -/

variable {codeset : CodeSet}

theorem cstombsPass_at (hcodeset : codeset.wcEncoding ≠ 0x5e84)
    (hcount : (cstombsReading p).Counted fromLeft toLeft k s) :
    (cstombsReading p).PassAt fromLeft toLeft numArgs k (cstombsPass codeset numArgs p s) := by
  have hfits := hcount.fits_iff
  have hsrc : s.src = unitOffset csKind p k := hcount.src.trans (unitOffset_eq_sum csKind p k).symm
  have hkind : (cstombsReading p).kind k = csKind (p.plus s.src) := by rw [hsrc]; rfl
  have hfrom : (cstombsReading p).fromSize k = mbSize (csKind (p.plus s.src)) := by rw [hsrc]; rfl
  have hto : (cstombsReading p).toSize k = csSize (csKind (p.plus s.src)) := by rw [hsrc]; rfl
  have hmixed : (cstombsReading p).mixed ≠ false := fun h => by cases h
  rw [hfrom, hto] at hfits
  simp only [cstombsPass]
  rw [if_neg hcodeset]
  by_cases h2 : isgb18030_2 (p.plus s.src) = true
  · have hk : csKind (p.plus s.src) = some .two := by simp [csKind, h2]
    rw [hk] at hkind hfrom hto hfits
    rw [if_pos h2]
    by_cases hroom : 2 ≤ s.fromLeft ∧ 2 ≤ s.toLeft
    · rw [if_pos hroom]
      exact .next (hcount.move hfrom.symm hto.symm rfl rfl) (fun h => absurd h hmixed)
        fun _ => hfits.mpr hroom
    · rw [if_neg hroom]
      exact .fail hcount hkind rfl (fun h => hroom (hfits.mp h)) (.inl rfl)
  by_cases ha : isAscii (p.plus s.src 0) = true
  · have hk : csKind (p.plus s.src) = some .ascii := by rw [csKind, if_neg h2, if_pos ha]
    rw [hk] at hkind hfrom hto hfits
    rw [if_neg h2, if_pos ha]
    by_cases hroom : 1 ≤ s.fromLeft ∧ 1 ≤ s.toLeft
    · rw [if_pos hroom]
      exact .next (hcount.move hfrom.symm hto.symm rfl rfl) (fun h => absurd h hmixed)
        fun _ => hfits.mpr hroom
    · rw [if_neg hroom]
      exact .fail hcount hkind rfl (fun h => hroom (hfits.mp h)) (.inl rfl)
  · have hk : csKind (p.plus s.src) = none := by rw [csKind, if_neg h2, if_neg ha]
    rw [hk] at hkind hfrom hto
    rw [if_neg h2, if_neg ha]
    exact .skip hcount (fun h => absurd h hmixed) hkind hfrom.symm hto.symm rfl

/-- With the codeset of four-byte characters the source pointer stays while its count falls. -/
theorem cstombs_four_inconsistent (hcodeset : codeset.wcEncoding = 0x5e84) (n : Nat) (s : CsState)
    (hsrc : s.src = 0) (hleft : s.fromLeft ≤ fromLeft)
    (hstart : s.fromLeft < fromLeft ∨ 2 ≤ s.fromLeft ∧ 4 ≤ s.toLeft)
    (hfuel : s.fromLeft.toNat < n) :
    ∃ r, loop (cstombsPass codeset numArgs p) n s = some r ∧
      ∀ toLeft, ¬ r.Consistent fromLeft toLeft := by
  induction n generalizing s with
  | zero => omega
  | succ n ih =>
    simp only [loop, cstombsPass, if_pos hcodeset]
    by_cases hroom : 2 ≤ s.fromLeft ∧ 4 ≤ s.toLeft
    · rw [if_pos hroom, CsState.endPass]
      have hleft' : (s.move 0 (twobyteToFourbyte (p.plus s.src)) 2 4).fromLeft = s.fromLeft - 2 :=
        rfl
      split
      · rename_i r hr
        split at hr
        · cases hr
        · cases hr
          exact ih _ hsrc (by omega) (.inl (by omega)) (by omega)
      · rename_i r hr
        split at hr
        · cases hr
          refine ⟨_, rfl, fun toLeft h => ?_⟩
          have hsource := h.source
          simp only [CsState.finish, CsState.move, hsrc] at hsource
          omega
        · cases hr
    · rw [if_neg hroom]
      refine ⟨_, rfl, fun toLeft h => ?_⟩
      have hsource := h.source
      simp only [CsState.fail] at hsource
      omega

theorem gb18030Cstombs_consistent (lcd : XLCd) (numArgs : Nat) (charset : XlcCharSet) (p : Ptr)
    (fromLeft toLeft : Int) :
    ∃ r, gb18030Cstombs lcd numArgs charset p fromLeft toLeft = some r ∧
      (r.Consistent fromLeft toLeft ↔ CstombsKeeps lcd charset p fromLeft toLeft) := by
  have hnothing :
      (CsState.start fromLeft toLeft (some charset)).fail.Consistent fromLeft toLeft := by
    constructor <;> simp [CsState.start, CsState.fail]
  simp only [gb18030Cstombs, CstombsKeeps]
  cases hfind : getCodeSetFromCharset lcd charset with
  | none => exact ⟨_, rfl, iff_of_true hnothing fun codeset h => by cases h⟩
  | some codeset =>
    simp only [Option.some.injEq, forall_eq']
    by_cases hfour : codeset.wcEncoding = 0x5e84
    · simp only [if_pos hfour]
      by_cases hroom : 2 ≤ fromLeft ∧ 4 ≤ toLeft
      · obtain ⟨r, hr, hnot⟩ := @cstombs_four_inconsistent numArgs p fromLeft codeset hfour
          (fromLeft.toNat + 1) (.start fromLeft toLeft (some charset)) rfl (Int.le_refl _)
          (.inr hroom) (Nat.lt_succ_self _)
        exact ⟨r, hr, iff_of_false (hnot toLeft) (fun h => h hroom)⟩
      · have hpass : cstombsPass codeset numArgs p (.start fromLeft toLeft (some charset)) =
            .leave (CsState.start fromLeft toLeft (some charset)).fail := by
          simp only [cstombsPass, if_pos hfour]
          exact if_neg hroom
        simp only [loop, hpass]
        exact ⟨_, rfl, iff_of_true hnothing hroom⟩
    · simp only [if_neg hfour]
      exact Reading.loop_start_consistent (R := cstombsReading p) (fun _ => mbSize_pos _)
        (fun _ _ hcount _ => cstombsPass_at hfour hcount) _

end

/-! ## All four -/

/-- **The pointers move by what the counts are lowered by** exactly if the converter does not get
stuck: `gb18030_mbtocs` never does, `gb18030_mbstocs` and `gb18030_wcstocs` do at a character after
the first pass that lacks bytes or room, and so does `gb18030_cstombs`, which with the codeset of
four-byte characters must not convert at all. -/
theorem cursors_consistent_iff {W : Type*} {lcd : XLCd} (hl : lcd.Gb18030Layout) (numArgs : Nat)
    (p : Ptr) (wctomb : W → Option (List UInt8)) (pwc : Nat → W) (tmp : Nat → Ptr)
    (args0 : Option XlcCharSet) (charset : XlcCharSet) (fromLeft toLeft : Int) :
    (gb18030Mbtocs lcd numArgs p fromLeft toLeft).Consistent fromLeft toLeft ∧
      (∃ r, gb18030Mbstocs lcd numArgs p fromLeft toLeft = some r ∧
        (r.Consistent fromLeft toLeft ↔ ∀ k, ¬ (mbstocsReading p).StuckAt fromLeft toLeft k)) ∧
      (∃ r, gb18030Wcstocs lcd numArgs wctomb pwc tmp args0 fromLeft toLeft = some r ∧
        (r.Consistent fromLeft toLeft ↔
          ∀ k, ¬ (wcstocsReading wctomb pwc tmp).StuckAt fromLeft toLeft k)) ∧
      ∃ r, gb18030Cstombs lcd numArgs charset p fromLeft toLeft = some r ∧
        (r.Consistent fromLeft toLeft ↔ CstombsKeeps lcd charset p fromLeft toLeft) :=
  ⟨gb18030Mbtocs_consistent hl numArgs p fromLeft toLeft,
    gb18030Mbstocs_consistent hl numArgs p fromLeft toLeft,
    gb18030Wcstocs_consistent hl numArgs wctomb pwc tmp args0 fromLeft toLeft,
    gb18030Cstombs_consistent lcd numArgs charset p fromLeft toLeft⟩

/-- Two characters of two bytes each. -/
def twoChars : Ptr := .ofList [0xb0, 0xa1, 0xc4, 0xe3]

/-- Four bytes of room are enough for the two characters, as multibyte and as charset text, and too
little for four wide characters, where `gb18030_wcstocs` gets stuck. -/
theorem cursors_consistent_two : gb18030Lcd.Gb18030Layout ∧
    (gb18030Mbtocs gb18030Lcd 1 twoChars 4 4).Consistent 4 4 ∧
    (∀ k, ¬ (mbstocsReading twoChars).StuckAt 4 4 k) ∧
    (¬ ∀ k, ¬ (wcstocsReading (fun w : List UInt8 => some w) (fun _ => [0xb0, 0xa1])
      fun _ _ => 0).StuckAt 4 4 k) ∧
    CstombsKeeps gb18030Lcd gb18030Lcd.cs1.charset twoChars 4 4 := by
  obtain ⟨hone, ⟨r, hr, hmbs⟩, ⟨r', hr', hwcs⟩, r'', hr'', hcs⟩ :=
    cursors_consistent_iff gb18030Lcd_layout 1 twoChars (fun w : List UInt8 => some w)
      (fun _ => [0xb0, 0xa1]) (fun _ _ => 0) none gb18030Lcd.cs1.charset 4 4
  refine ⟨gb18030Lcd_layout, hone, hmbs.1 ?_, fun h => ?_, hcs.1 ?_⟩
  · obtain rfl := Option.some.inj (Eq.trans rfl hr)
    exact ⟨rfl, rfl⟩
  · have hkept := (hwcs.2 h).source
    obtain rfl := Option.some.inj (Eq.trans rfl hr')
    exact absurd hkept (by decide)
  · obtain rfl := Option.some.inj (Eq.trans rfl hr'')
    exact ⟨rfl, rfl⟩

/-- Two two-byte characters with room for one: the counts say that it has been converted, the
pointers that nothing has. -/
theorem mbstocs_cursors_apart : gb18030Lcd.Gb18030Layout ∧
    ∃ r, gb18030Mbstocs gb18030Lcd 1 (.ofList [0xb0, 0xa1, 0xc4, 0xe3]) 4 2 = some r ∧
      r.ret = -1 ∧ r.fromMoved = 0 ∧ r.fromLeft = 2 ∧ r.toMoved = 0 ∧ r.toLeft = 0 ∧
      ¬ r.Consistent 4 2 := by
  refine ⟨gb18030Lcd_layout, _, rfl, rfl, rfl, rfl, rfl, rfl, fun h => ?_⟩
  exact absurd h.source (by decide)

end X11
