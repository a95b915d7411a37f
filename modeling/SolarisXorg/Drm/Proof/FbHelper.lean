import Mathlib.Algebra.GroupWithZero.Nat
import SolarisXorg.Lib.Backtrack
import SolarisXorg.Drm.FbHelper

/-!
# `drm_pick_crtcs` finds the best assignment

`Sound` says what an assignment of crtcs to connectors may be. `pickCrtcs` is the library's search
over the connectors (`pickCrtcs_search`): the copies between `best_crtcs` and `crtcs` keep the
choices for the connectors before `n` and take over the rest. An assignment is one of those that the
search can make exactly when it is sound (`admits_upto`, `sound_iff`), which rests on `modeEqual`
being an equivalence (`modeEqual_iff`): the first connector with a crtc stands for the others. So
the result is sound, its score is the one returned, and if no allocation fails no sound assignment
has a higher score.
-/

namespace Drm

open Lib

/-! ## Equal modes -/

/-- What `drm_mode_equal` compares of the clock. -/
def clockKey (mode : DisplayMode) : Option Nat :=
  if mode.clock = 0 then none else some (khz2picos mode.clock)

theorem modeEqual_iff {mode1 mode2 : DisplayMode} :
    modeEqual mode1 mode2 = true ↔
      clockKey mode1 = clockKey mode2 ∧ modeEqualNoClocks mode1 mode2 = true := by
  rw [modeEqual, clockKey, clockKey]
  by_cases h1 : mode1.clock = 0 <;> by_cases h2 : mode2.clock = 0 <;> simp [h1, h2]
  exact fun h => absurd h (Ne.symm h2)

theorem modeEqual_symm {mode1 mode2 : DisplayMode} (h : modeEqual mode1 mode2 = true) :
    modeEqual mode2 mode1 = true := by
  simp only [modeEqual_iff, modeEqualNoClocks, decide_eq_true_eq] at h ⊢
  obtain ⟨hclock, h⟩ := h
  exact ⟨hclock.symm, by simp only [h, and_self]⟩

theorem modeEqual_trans {mode1 mode2 mode3 : DisplayMode} (h : modeEqual mode1 mode2 = true)
    (h' : modeEqual mode2 mode3 = true) : modeEqual mode1 mode3 = true := by
  simp only [modeEqual_iff, modeEqualNoClocks, decide_eq_true_eq] at h h' ⊢
  obtain ⟨hclock, h⟩ := h
  obtain ⟨hclock', h'⟩ := h'
  exact ⟨hclock.trans hclock', by simp only [h, h', and_self]⟩

/-! ## What an assignment may be -/

/-- The two connectors are given equal modes. -/
def SameMode (modes : Nat → Option DisplayMode) (i j : Nat) : Prop :=
  ∃ mode1 mode2, modes i = some mode1 ∧ modes j = some mode2 ∧ modeEqual mode1 mode2 = true

/-- An assignment of crtcs to connectors that the hardware can show: the encoder of the connector
can be driven by the crtc, and a crtc has several connectors only if there is no other crtc, and
then all in one mode. -/
structure Sound (helper : FbHelper) (modes : Nat → Option DisplayMode) (crtcs : Crtcs) : Prop where
  range : ∀ i c, crtcs i = some c → i < helper.connectorCount → c < helper.crtcCount
  mode : ∀ i c, crtcs i = some c → i < helper.connectorCount → (modes i).isSome
  possible : ∀ i c, crtcs i = some c → i < helper.connectorCount →
    ∃ possible, (helper.connectorInfo i).bestEncoder = some possible ∧ possible.toNat.testBit c
  shared : ∀ i j c, crtcs i = some c → crtcs j = some c → i < j → j < helper.connectorCount →
    helper.crtcCount ≤ 1 ∧ SameMode modes i j

/-- What connector `i` adds to the score. -/
def connectorScore (helper : FbHelper) (width height : Int) (i : Nat) (c : Option Nat) : Nat :=
  if c.isSome then myScore (helper.connectorInfo i) width height else 0

/-- The score of an assignment. -/
def crtcsScore (helper : FbHelper) (width height : Int) (crtcs : Crtcs) : Nat :=
  ((List.range' 0 helper.connectorCount).map fun i =>
    connectorScore helper width height i (crtcs i)).sum

variable {helper : FbHelper} {modes : Nat → Option DisplayMode}
  {kzalloc : List (Option Nat) → Bool} {width height : Int} {crtcs crtcs' : Crtcs}
  {n k c : Nat}

theorem SameMode.symm {i j : Nat} (h : SameMode modes i j) : SameMode modes j i := by
  obtain ⟨m1, m2, h1, h2, heq⟩ := h
  exact ⟨m2, m1, h2, h1, modeEqual_symm heq⟩

theorem SameMode.trans {i j l : Nat} (h : SameMode modes i j) (h' : SameMode modes j l) :
    SameMode modes i l := by
  obtain ⟨m1, m2, h1, h2, heq⟩ := h
  obtain ⟨m2', m3, h2', h3, heq'⟩ := h'
  rw [h2, Option.some.injEq] at h2'
  subst h2'
  exact ⟨m1, m3, h1, h3, modeEqual_trans heq heq'⟩

/-! ## The tests on one crtc -/

theorem firstUser_congr (h : ∀ i < n, crtcs i = crtcs' i) :
    firstUser crtcs n c = firstUser crtcs' n c := by
  have hbool : ∀ i ∈ List.range n, (crtcs i == some c) = (crtcs' i == some c) :=
    fun i hi => by rw [h i (List.mem_range.1 hi)]
  rw [firstUser, firstUser, ← List.head?_filter, ← List.head?_filter, List.filter_congr hbool]

theorem firstUser_eq_none : firstUser crtcs n c = none ↔ ∀ i < n, crtcs i ≠ some c := by
  simp [firstUser, List.find?_eq_none]

/-- The first user has the crtc, and the ones before it have not. -/
theorem firstUser_some {o : Nat} (h : firstUser crtcs n c = some o) :
    o < n ∧ crtcs o = some c ∧ ∀ i < n, crtcs i = some c → o ≤ i := by
  rw [firstUser, List.find?_eq_some_iff_getElem] at h
  obtain ⟨ho, j, hj, hjo, hbefore⟩ := h
  rw [List.getElem_range] at hjo
  subst hjo
  refine ⟨by simpa using hj, by simpa using ho, fun i hi hic => ?_⟩
  by_contra hlt
  have := hbefore i (by omega)
  simp [hic] at this

theorem crtcUsable_congr {possible : UInt32} (h : ∀ i < n, crtcs i = crtcs' i) :
    crtcUsable helper modes possible crtcs n c = crtcUsable helper modes possible crtcs' n c := by
  rw [crtcUsable, crtcUsable, firstUser_congr h]

theorem crtcUsable_iff {possible : UInt32} :
    crtcUsable helper modes possible crtcs n c = true ↔
      possible.toNat.testBit c = true ∧ ∀ o, firstUser crtcs n c = some o →
        helper.crtcCount ≤ 1 ∧ SameMode modes o n := by
  rw [crtcUsable]
  by_cases hbit : possible.toNat.testBit c = true
  case neg => simp [hbit]
  cases hfirst : firstUser crtcs n c with
  | none => simp [hbit]
  | some o =>
    by_cases hcount : 1 < helper.crtcCount
    · simp only [hbit, hcount, if_true, Option.some.injEq, true_and]
      exact iff_of_false (by simp) fun h => absurd (h o rfl).1 (by omega)
    · have hle : helper.crtcCount ≤ 1 := by omega
      cases hmo : modes o <;> cases hmn : modes n <;>
        simp [hbit, hcount, hle, SameMode, hmo, hmn]

/-! ## The search over the connectors -/

/-- The choices for the connectors before `n`. -/
def upto (crtcs : Crtcs) (n : Nat) : List (Option Nat) := (List.range n).map crtcs

/-- The choices for `k` connectors from `n` on. -/
def onward (crtcs : Crtcs) (n k : Nat) : List (Option Nat) := (List.range' n k).map crtcs

/-- The choices as an array. -/
def ofChoices (pre : List (Option Nat)) : Crtcs := fun i => pre[i]?.join

/-- The crtcs that the call for the next connector tries after the choices `pre`. -/
def choices (helper : FbHelper) (modes : Nat → Option DisplayMode)
    (kzalloc : List (Option Nat) → Bool) (pre : List (Option Nat)) : List (Option Nat) :=
  if (modes pre.length).isNone || !kzalloc pre then []
  else
    match (helper.connectorInfo pre.length).bestEncoder with
    | none => []
    | some possible =>
      ((List.range helper.crtcCount).filter
        (crtcUsable helper modes possible (ofChoices pre) pre.length)).map some

/-- What the next choice adds to the score. -/
def choiceGain (helper : FbHelper) (width height : Int) (pre : List (Option Nat))
    (c : Option Nat) : Nat :=
  connectorScore helper width height pre.length c

@[simp] theorem length_upto : (upto crtcs n).length = n := by simp [upto]

theorem upto_succ : upto crtcs (n + 1) = upto crtcs n ++ [crtcs n] := by
  simp [upto, List.range_succ]

theorem onward_succ : onward crtcs n (k + 1) = crtcs n :: onward crtcs (n + 1) k := rfl

theorem upto_congr (h : ∀ i < n, crtcs i = crtcs' i) : upto crtcs n = upto crtcs' n :=
  List.map_congr_left fun i hi => h i (List.mem_range.1 hi)

theorem onward_congr (h : ∀ i, n ≤ i → i < n + k → crtcs i = crtcs' i) :
    onward crtcs n k = onward crtcs' n k :=
  List.map_congr_left fun i hi => by
    obtain ⟨hle, hlt⟩ := List.mem_range'_1.1 hi
    exact h i hle hlt

theorem ofChoices_upto {i : Nat} (hi : i < n) : ofChoices (upto crtcs n) i = crtcs i := by
  simp [ofChoices, upto, List.getElem?_map, List.getElem?_range hi]

theorem upto_update {x : Option Nat} (h : ∀ i < n, crtcs' i = crtcs i) (hx : crtcs' n = x) :
    upto crtcs' (n + 1) = upto crtcs n ++ [x] := by
  rw [upto_succ, upto_congr h, hx]

section
variable (helper modes kzalloc width height)

/-- The library's search for `k` connectors. -/
abbrev pickSearch (k : Nat) (pre : List (Option Nat)) : Nat × List (Option Nat) :=
  search none (choices helper modes kzalloc) (choiceGain helper width height) k pre

/-- The call with the array `crtcs` for the connectors from `n` on does what the search does. -/
structure Searches (next : Crtcs → Nat × Crtcs) (n k : Nat) : Prop where
  score : ∀ a, (next a).1 = (pickSearch helper modes kzalloc width height k (upto a n)).1
  kept : ∀ a, ∀ i < n, (next a).2 i = a i
  rest : ∀ a, onward (next a).2 n k =
    (pickSearch helper modes kzalloc width height k (upto a n)).2

end

/-- The score and the array are what the search has kept so far. -/
structure LoopHolds (crtcs : Crtcs) (n k : Nat) (bestScore : Nat) (bestCrtcs : Crtcs)
    (r : Nat × List (Option Nat)) : Prop where
  score : bestScore = r.1
  kept : ∀ i < n, bestCrtcs i = crtcs i
  rest : onward bestCrtcs n (k + 1) = r.2

/-- One round of the loop: a crtc that passes the tests is one more choice of the search. -/
theorem holds_pickRound (possible : UInt32) (c : Nat) {next : Crtcs → Nat × Crtcs} {v : PickVars}
    {r : Nat × List (Option Nat)} (hnum : n + (k + 1) ≤ helper.numConnector)
    (hnext : Searches helper modes kzalloc width height next (n + 1) k)
    (hv : LoopHolds crtcs n k v.bestScore v.bestCrtcs r) :
    let v' := pickRound helper modes possible (myScore (helper.connectorInfo n) width height) n
      next v c
    LoopHolds crtcs n k v'.bestScore v'.bestCrtcs
      (if crtcUsable helper modes possible crtcs n c then
        better r (cont (choiceGain helper width height) (upto crtcs n) (some c)
          (pickSearch helper modes kzalloc width height k (upto crtcs n ++ [some c])))
      else r) := by
  intro v'
  subst v'
  rw [pickRound, crtcUsable_congr hv.kept]
  by_cases huse : crtcUsable helper modes possible crtcs n c = true
  case neg => simpa [huse] using hv
  simp only [huse, Bool.not_true, Bool.false_eq_true, if_false, if_true]
  -- the array of the call: the choices before `n`, then `c`
  generalize ha : (fun i => if i < n then v.bestCrtcs i else
    Function.update v.crtcs n (some c) i : Crtcs) = a
  have hlow : ∀ i < n, a i = crtcs i := fun i hi => by rw [← ha]; simp [hi, hv.kept i hi]
  have hat : a n = some c := by rw [← ha]; simp
  have hupto : upto a (n + 1) = upto crtcs n ++ [some c] := upto_update hlow hat
  have hscore := hnext.score a
  have hkept := hnext.kept a
  have hrest := hnext.rest a
  rw [hupto] at hscore hrest
  have hgain : choiceGain helper width height (upto crtcs n) (some c) =
      myScore (helper.connectorInfo n) width height := by
    simp [choiceGain, connectorScore]
  rw [better, cont, hgain, ← hscore, ← hrest, hv.score]
  split
  · refine ⟨rfl, fun i hi => ?_, ?_⟩ <;> dsimp only
    · rw [if_pos (by omega), hkept i (by omega), hlow i hi]
    · rw [onward_succ, if_pos (by omega), hkept n (by omega), hat]
      congr 1
      exact onward_congr fun i _ hi => if_pos (by omega)
  · exact ⟨rfl, hv.kept, hv.rest⟩

/-- The loop is the fold of the search over the crtcs that pass the tests. -/
theorem holds_foldl (possible : UInt32) (l : List Nat) {next : Crtcs → Nat × Crtcs} {v : PickVars}
    {r : Nat × List (Option Nat)} (hnum : n + (k + 1) ≤ helper.numConnector)
    (hnext : Searches helper modes kzalloc width height next (n + 1) k)
    (hv : LoopHolds crtcs n k v.bestScore v.bestCrtcs r) :
    let v' := l.foldl (pickRound helper modes possible
      (myScore (helper.connectorInfo n) width height) n next) v
    LoopHolds crtcs n k v'.bestScore v'.bestCrtcs
      (((l.filter (crtcUsable helper modes possible crtcs n)).map some).foldl
        (fun best a => better best (cont (choiceGain helper width height) (upto crtcs n) a
          (pickSearch helper modes kzalloc width height k (upto crtcs n ++ [a])))) r) := by
  induction l generalizing v r with
  | nil => exact hv
  | cons c l ih =>
    have hround := holds_pickRound possible c hnum hnext hv
    rw [List.foldl_cons, List.filter_cons]
    by_cases huse : crtcUsable helper modes possible crtcs n c = true
    · rw [if_pos huse] at hround ⊢
      exact ih hround
    · rw [if_neg huse] at hround ⊢
      exact ih hround

/-- The value at a call where no crtc is tried: the connector stays without one. -/
theorem search_of_choices_nil {pre : List (Option Nat)}
    (h : choices helper modes kzalloc pre = []) :
    pickSearch helper modes kzalloc width height (k + 1) pre =
      cont (choiceGain helper width height) pre none
        (pickSearch helper modes kzalloc width height k (pre ++ [none])) := by
  rw [pickSearch, search, h, List.foldl_nil]

/-- **The recursion is the search.** -/
theorem pickCrtcs_search (k n : Nat) (hnum : n + k ≤ helper.numConnector) :
    Searches helper modes kzalloc width height
      (pickCrtcs helper modes kzalloc width height k n) n k := by
  induction k generalizing n with
  | zero => exact ⟨fun _ => rfl, fun _ _ _ => rfl, fun _ => rfl⟩
  | succ k ih =>
    have hnext := ih (n + 1) (by omega)
    -- what the recursion leaves when the connector gets no crtc
    have hstart (a : Crtcs) : LoopHolds a n k
        (pickCrtcs helper modes kzalloc width height k (n + 1) (Function.update a n none)).1
        (pickCrtcs helper modes kzalloc width height k (n + 1) (Function.update a n none)).2
        (cont (choiceGain helper width height) (upto a n) none
          (pickSearch helper modes kzalloc width height k (upto a n ++ [none]))) := by
      have hlow : ∀ i < n, Function.update a n none i = a i := fun i hi =>
        Function.update_of_ne (by omega) _ _
      have hupto := upto_update hlow (Function.update_self n none a)
      refine ⟨?_, fun i hi => ?_, ?_⟩
      · rw [hnext.score, hupto]
        simp [cont, choiceGain, connectorScore]
      · rw [hnext.kept _ i (by omega), hlow i hi]
      · rw [onward_succ, hnext.kept _ n (by omega), Function.update_self, hnext.rest, hupto]
        rfl
    have hcall (a : Crtcs) : LoopHolds a n k
        (pickCrtcs helper modes kzalloc width height (k + 1) n a).1
        (pickCrtcs helper modes kzalloc width height (k + 1) n a).2
        (pickSearch helper modes kzalloc width height (k + 1) (upto a n)) := by
      by_cases hmode : (modes n).isNone = true
      · rw [search_of_choices_nil (by simp [choices, hmode]), pickCrtcs, if_pos hmode]
        exact hstart a
      by_cases hmem : kzalloc (upto a n) = true
      case neg =>
        rw [search_of_choices_nil (by simp [choices, hmem]), pickCrtcs, if_neg hmode,
          if_pos (by simpa [upto] using hmem)]
        exact hstart a
      cases henc : (helper.connectorInfo n).bestEncoder with
      | none =>
        rw [search_of_choices_nil (by simp [choices, henc]), pickCrtcs, if_neg hmode,
          if_neg (by simpa [upto] using hmem), henc]
        exact hstart a
      | some possible =>
        have hchoices : choices helper modes kzalloc (upto a n) =
            ((List.range helper.crtcCount).filter
              (crtcUsable helper modes possible a n)).map some := by
          have hcongr : crtcUsable helper modes possible (ofChoices (upto a n)) n =
              crtcUsable helper modes possible a n :=
            funext fun c => crtcUsable_congr fun i hi => ofChoices_upto hi
          simp only [choices, length_upto, henc, hcongr, hmem, Bool.not_true, Bool.or_false]
          rw [if_neg hmode]
        have hfold := holds_foldl possible (List.range helper.crtcCount)
          (v := ⟨_, _, fun _ => none⟩) hnum hnext (hstart a)
        rw [pickSearch, search, hchoices, pickCrtcs, if_neg hmode,
          if_neg (by simpa [upto] using hmem), henc]
        exact ⟨hfold.score, hfold.kept, hfold.rest⟩
    exact ⟨fun a => (hcall a).score, fun a => (hcall a).kept, fun a => (hcall a).rest⟩

/-! ## What the search can make -/

/-- The crtc passes the tests when the connector's turn comes. -/
def Passed (helper : FbHelper) (modes : Nat → Option DisplayMode) (crtcs : Crtcs) (i c : Nat) :
    Prop :=
  c < helper.crtcCount ∧ (modes i).isSome ∧
    ∃ possible, (helper.connectorInfo i).bestEncoder = some possible ∧
      crtcUsable helper modes possible crtcs i c = true

theorem mem_choices_upto :
    some c ∈ choices helper modes kzalloc (upto crtcs n) ↔
      kzalloc (upto crtcs n) = true ∧ Passed helper modes crtcs n c := by
  have hcongr (possible : UInt32) :
      crtcUsable helper modes possible (ofChoices (upto crtcs n)) n c =
        crtcUsable helper modes possible crtcs n c :=
    crtcUsable_congr fun i hi => ofChoices_upto hi
  rw [choices, Passed, length_upto]
  by_cases hmode : (modes n).isNone = true
  · have : (modes n).isSome = false := by simpa using hmode
    simp [hmode, this]
  · have hsome : (modes n).isSome = true := by simpa [Option.isSome_iff_ne_none] using hmode
    by_cases hmem : kzalloc (upto crtcs n) = true
    · cases henc : (helper.connectorInfo n).bestEncoder <;> simp [hmode, hsome, hmem, hcongr]
    · simp [hmem]

/-- The choices are on offer exactly when every crtc passes the tests in its turn. -/
theorem admits_upto :
    Admits none (choices helper modes kzalloc) (upto crtcs n) (onward crtcs n k) ↔
      ∀ i c, n ≤ i → i < n + k → crtcs i = some c →
        kzalloc (upto crtcs i) = true ∧ Passed helper modes crtcs i c := by
  induction k generalizing n with
  | zero => exact iff_of_true trivial fun i c hle hlt => by omega
  | succ k ih =>
    rw [onward_succ, Admits, ← upto_succ, ih]
    constructor
    · intro h i c hle hlt hc
      rcases Nat.eq_or_lt_of_le hle with rfl | hlt'
      · rcases h.1 with hnone | hmem
        · simp [hc] at hnone
        · rw [hc] at hmem
          exact mem_choices_upto.1 hmem
      · exact h.2 i c hlt' (by omega) hc
    · intro h
      refine ⟨?_, fun i c hle hlt hc => h i c (by omega) (by omega) hc⟩
      cases hc : crtcs n with
      | none => exact .inl rfl
      | some c => exact .inr (mem_choices_upto.2 (h n c (Nat.le_refl n) (by omega) hc))

/-- An assignment is sound exactly when every crtc passes the tests in its turn. -/
theorem sound_iff :
    Sound helper modes crtcs ↔
      ∀ i c, crtcs i = some c → i < helper.connectorCount → Passed helper modes crtcs i c := by
  constructor
  · intro h i c hc hi
    obtain ⟨possible, henc, hbit⟩ := h.possible i c hc hi
    refine ⟨h.range i c hc hi, h.mode i c hc hi, possible, henc, crtcUsable_iff.2 ⟨hbit, ?_⟩⟩
    intro o ho
    obtain ⟨hlt, hco, -⟩ := firstUser_some ho
    exact h.shared o i c hco hc hlt hi
  · intro h
    refine ⟨fun i c hc hi => (h i c hc hi).1, fun i c hc hi => (h i c hc hi).2.1,
      fun i c hc hi => ?_, fun i j c hci hcj hlt hj => ?_⟩
    · obtain ⟨possible, henc, huse⟩ := (h i c hc hi).2.2
      exact ⟨possible, henc, (crtcUsable_iff.1 huse).1⟩
    · obtain ⟨_, -, hj'⟩ := (h j c hcj hj).2.2
      obtain ⟨_, -, hi'⟩ := (h i c hci (by omega)).2.2
      cases hfirst : firstUser crtcs j c with
      | none => exact absurd hci (firstUser_eq_none.1 hfirst i hlt)
      | some o =>
        obtain ⟨hcount, hsame⟩ := (crtcUsable_iff.1 hj').2 o hfirst
        refine ⟨hcount, ?_⟩
        obtain ⟨-, hco, hmin⟩ := firstUser_some hfirst
        -- the first user of `i`'s turn is the same one, unless it is `i` itself
        rcases Nat.eq_or_lt_of_le (hmin i hlt hci) with rfl | hoi
        · exact hsame
        · cases hfirst' : firstUser crtcs i c with
          | none => exact absurd hco (firstUser_eq_none.1 hfirst' o hoi)
          | some o' =>
            obtain ⟨ho'i, hco', hmin'⟩ := firstUser_some hfirst'
            have heq : o' = o :=
              Nat.le_antisymm (hmin' o hoi hco) (hmin o' (by omega) hco')
            subst heq
            exact ((crtcUsable_iff.1 hi').2 o' hfirst').2.symm.trans hsame

theorem total_upto :
    total (choiceGain helper width height) (upto crtcs n) (onward crtcs n k) =
      ((List.range' n k).map fun i => connectorScore helper width height i (crtcs i)).sum := by
  induction k generalizing n with
  | zero => rfl
  | succ k ih =>
    rw [onward_succ, total, ← upto_succ, ih, choiceGain, length_upto]
    rfl

theorem upto_zero (crtcs : Crtcs) : upto crtcs 0 = [] := rfl

/-! ## The result -/

variable (helper modes kzalloc width height)

/-- **`drm_pick_crtcs` finds the best assignment**: whatever allocations fail, the assignment is
sound and its score is the one returned; if none fails, no sound assignment has a higher score. -/
theorem pickCrtcs_best (bestCrtcs : Crtcs) (hnum : helper.connectorCount ≤ helper.numConnector) :
    let r := pickCrtcs helper modes kzalloc width height helper.connectorCount 0 bestCrtcs
    Sound helper modes r.2 ∧ crtcsScore helper width height r.2 = r.1 ∧
      ((∀ pre, kzalloc pre = true) → ∀ crtcs, Sound helper modes crtcs →
        crtcsScore helper width height crtcs ≤ r.1) := by
  intro r
  have hsearch : Searches helper modes kzalloc width height
      (pickCrtcs helper modes kzalloc width height helper.connectorCount 0) 0
      helper.connectorCount := pickCrtcs_search helper.connectorCount 0 (by omega)
  have hscore : r.1 = (pickSearch helper modes kzalloc width height helper.connectorCount []).1 :=
    hsearch.score bestCrtcs
  have hrest : onward r.2 0 helper.connectorCount =
      (pickSearch helper modes kzalloc width height helper.connectorCount []).2 :=
    hsearch.rest bestCrtcs
  have hadmits : Admits none (choices helper modes kzalloc) (upto r.2 0)
      (onward r.2 0 helper.connectorCount) := by
    rw [hrest, upto_zero]
    exact search_admits _ _
  refine ⟨sound_iff.2 fun i c hc hi => ?_, ?_, fun hall crtcs hsound => ?_⟩
  · exact (admits_upto.1 hadmits i c (Nat.zero_le i) (by omega) hc).2
  · rw [crtcsScore, ← total_upto, hrest, upto_zero, hscore]
    exact total_search _ _
  · have hmade : Admits none (choices helper modes kzalloc) (upto crtcs 0)
        (onward crtcs 0 helper.connectorCount) :=
      admits_upto.2 fun i c _ hi hc => ⟨hall _, sound_iff.1 hsound i c hc (by omega)⟩
    have hlen : (onward crtcs 0 helper.connectorCount).length = helper.connectorCount := by
      simp [onward]
    rw [crtcsScore, ← total_upto, hscore, ← upto_zero crtcs]
    conv_rhs => rw [← hlen]
    exact total_le_search _ _ hmade

/-- 1024x768 at 60 Hz. -/
def mode1024 : DisplayMode where
  type := modeTypePreferred
  clock := 65000
  hdisplay := 1024
  hsyncStart := 1048
  hsyncEnd := 1184
  htotal := 1344
  hskew := 0
  vdisplay := 768
  vsyncStart := 771
  vsyncEnd := 777
  vtotal := 806
  vscan := 0
  flags := 0
  vrefresh := 60

/-- A connected monitor of one mode. -/
def monitor (possible : UInt32) : FbConnector where
  status := .connected
  modes := [mode1024]
  cmdlineMode := ⟨false, false, 0, 0, 0, false, false, false⟩
  bestEncoder := some possible

/-- Two crtcs and two monitors, the second of which only the first crtc can drive. -/
def twoHeads : FbHelper :=
  FbHelper.init 2 4 2 fun i => monitor (if i = 0 then 3 else 1)

/-- What `drm_pick_crtcs` finds for them. -/
def twoHeadsCrtcs : Nat × Crtcs :=
  pickCrtcs twoHeads (fun _ => some mode1024) (fun _ => true) 2048 2048 2 0 fun _ => none

theorem pickCrtcs_best_twoHeads :
    twoHeadsCrtcs.1 = 6 ∧ Sound twoHeads (fun _ => some mode1024) twoHeadsCrtcs.2 :=
  ⟨by decide, (pickCrtcs_best twoHeads (fun _ => some mode1024) (fun _ => true) 2048 2048
    (fun _ => none) (by decide)).1⟩

end Drm
