import Mathlib.Data.List.Count
import SolarisXorg.Lib.Holders
import SolarisXorg.Lib.Loop
import SolarisXorg.Lib.Run
import SolarisXorg.Drm.Proof.FbHelper

/-!
# `drm_setup_crtcs`

The loops are taken one after the other. The ones that choose modes leave every enabled connector
with a mode of its own list, if it has any (`Chosen`, `Found`, `setupModes_cases`), or follow the
null pointer that `drm_mode_find_dmt` answers without memory (`DmtNull`). The one over the connectors
writes the assignment into the mode sets (`SetsFilled`, `setsFilled_fillCrtc`), unless one of them
has no room (`Overfull`); the duplicates of modes are accounted for in `Owned`: each is held by one
mode set or destroyed once, or it is one of `drm_mode_find_dmt` (`Owned.replace`, `Owned.chose`). So
the mode sets show the best assignment (`setupCrtcs_shows`), no `BUG_ON` is reached, and
`drm_fb_helper_crtc_free` leaves behind the duplicates of `drm_mode_find_dmt` and no others
(`fbRun_clean`).
-/

namespace Drm

open Lib

variable {helper h h' : FbHelper} {modes : Nat → Option DisplayMode} {crtcs : Crtcs}

/-! ## The modes -/

/-- The connector is as before, but for modes that were put in front of its list. -/
def Grown (old new : FbConnector) : Prop :=
  ∃ l, new = { old with modes := l } ∧ old.modes <:+ l

theorem Grown.refl (conn : FbConnector) : Grown conn conn := ⟨conn.modes, rfl, List.suffix_rfl⟩

theorem Grown.trans {a b c : FbConnector} (h : Grown a b) (h' : Grown b c) : Grown a c := by
  obtain ⟨l, rfl, hl⟩ := h
  obtain ⟨l', rfl, hl'⟩ := h'
  exact ⟨l', rfl, hl.trans hl'⟩

theorem Grown.suffix {a b : FbConnector} (h : Grown a b) : a.modes <:+ b.modes := by
  obtain ⟨l, rfl, hl⟩ := h
  exact hl

/-- A mode is chosen for enabled connectors only, from the list of the connector. -/
structure Chosen (connectorInfo : Nat → FbConnector) (count : Nat) (enabled : Nat → Bool)
    (v : TargetVars) : Prop where
  grown : ∀ i, Grown (connectorInfo i) (v.connectorInfo i)
  own : ∀ i mode, v.modes i = some mode →
    enabled i = true ∧ i < count ∧ mode ∈ (v.connectorInfo i).modes

theorem pickCmdlineMode_spec (create : CmdlineMode → Option DisplayMode) (conn : FbConnector) :
    Grown conn (pickCmdlineMode create conn).2 ∧
      ∀ mode, (pickCmdlineMode create conn).1 = some mode →
        mode ∈ (pickCmdlineMode create conn).2.modes := by
  rw [pickCmdlineMode]
  split
  · exact ⟨Grown.refl conn, by simp⟩
  · dsimp only
    split
    next found mode hfound =>
      refine ⟨Grown.refl conn, fun mode' heq => ?_⟩
      simp only [Option.some.injEq] at heq
      subst heq
      split at hfound
      · cases hfound
      · exact List.mem_of_find?_eq_some hfound
    next hfound =>
      split
      · refine ⟨⟨_, rfl, List.suffix_cons _ _⟩, fun mode' heq => ?_⟩
        simp only [Option.some.injEq] at heq
        subst heq
        exact List.mem_cons_self
      · exact ⟨Grown.refl conn, by simp⟩

section
variable {connectorInfo : Nat → FbConnector} {count i : Nat} {enabled : Nat → Bool}
  {v : TargetVars} {create : CmdlineMode → Option DisplayMode}

/-- The mode of one connector is replaced by one of its list, or taken away. -/
theorem Chosen.update (hv : Chosen connectorInfo count enabled v) (hi : i < count)
    (hen : enabled i = true) {conn : FbConnector} {mode : Option DisplayMode}
    (hgrown : Grown (v.connectorInfo i) conn) (hown : ∀ m, mode = some m → m ∈ conn.modes) :
    Chosen connectorInfo count enabled
      { v with
        connectorInfo := Function.update v.connectorInfo i conn
        modes := Function.update v.modes i mode } := by
  refine ⟨fun j => ?_, fun j m hm => ?_⟩
  · by_cases hj : j = i
    · subst hj
      simpa using (hv.grown j).trans hgrown
    · simpa [hj] using hv.grown j
  · by_cases hj : j = i
    · subst hj
      simp only [Function.update_self] at hm ⊢
      exact ⟨hen, hi, hown m hm⟩
    · simp only [ne_eq, hj, not_false_eq_true, Function.update_of_ne] at hm ⊢
      exact hv.own j m hm

theorem Chosen.pick (create : CmdlineMode → Option DisplayMode)
    (hv : Chosen connectorInfo count enabled v) (hi : i < count)
    (hen : enabled i = true) : Chosen connectorInfo count enabled (v.pick create i) := by
  obtain ⟨hgrown, hown⟩ := pickCmdlineMode_spec create (v.connectorInfo i)
  exact hv.update hi hen hgrown hown

/-- A mode of the connector's list, with the list as it is. -/
theorem Chosen.update_mode (hv : Chosen connectorInfo count enabled v) (hi : i < count)
    (hen : enabled i = true) {mode : Option DisplayMode}
    (hown : ∀ m, mode = some m → m ∈ (v.connectorInfo i).modes) :
    Chosen connectorInfo count enabled { v with modes := Function.update v.modes i mode } := by
  have hupdate := hv.update hi hen (Grown.refl _) hown
  rwa [Function.update_eq_self] at hupdate

/-- A mode is found for every enabled connector that has any. -/
def Found (count : Nat) (enabled : Nat → Bool) (v : TargetVars) : Prop :=
  ∀ i < count, enabled i = true → v.modes i = none → (v.connectorInfo i).modes = []

theorem chosen_cloneCmdline (k i : Nat) (canClone : Bool) (v : TargetVars) (hk : i + k ≤ count)
    (hv : Chosen connectorInfo count enabled v)
    (hfound : canClone = true → ∀ j < i, enabled j = true → (v.modes j).isSome) :
    Chosen connectorInfo count enabled (cloneCmdline create enabled k i canClone v).2 ∧
      ((cloneCmdline create enabled k i canClone v).1 = true → ∀ j < i + k, enabled j = true →
        ((cloneCmdline create enabled k i canClone v).2.modes j).isSome) := by
  induction k generalizing i canClone v with
  | zero => exact ⟨hv, hfound⟩
  | succ k ih =>
    rw [cloneCmdline]
    by_cases hen : enabled i = true
    case neg =>
      rw [if_pos (by simpa using hen)]
      obtain ⟨hchosen, hall⟩ := ih (i + 1) canClone v (by omega) hv
        fun hc j hj henj => hfound hc j (by
          have : j ≠ i := fun heq => hen (heq ▸ henj)
          omega) henj
      exact ⟨hchosen, fun hc j hj => hall hc j (by omega)⟩
    rw [if_neg (by simpa using hen)]
    have hpick := hv.pick create (by omega) hen
    cases hmode : (v.pick create i).modes i with
    | none =>
      simp only [hmode]
      exact ⟨hpick, by simp⟩
    | some mode =>
      simp only [hmode]
      obtain ⟨hchosen, hall⟩ := ih (i + 1) (canClone && (List.range i).all fun j =>
        !enabled j || ((v.pick create i).modes j).any fun m => modeEqual m mode)
        (v.pick create i) (by omega) hpick fun hc j hj henj => by
          rcases Nat.lt_succ_iff_lt_or_eq.1 hj with hj | rfl
          · have hkeep : (v.pick create i).modes j = v.modes j :=
              Function.update_of_ne (by omega) _ _
            rw [hkeep]
            exact hfound (by simp only [Bool.and_eq_true] at hc; exact hc.1) j hj henj
          · rw [hmode]
            rfl
      exact ⟨hchosen, fun hc j hj => hall hc j (by omega)⟩

/-- The mode that stays after the walk over the list is of the list, or was there before. -/
theorem foldl_equal_cases (dmtMode : DisplayMode) (l : List DisplayMode) (m : Option DisplayMode) :
    l.foldl (fun m mode => if modeEqual mode dmtMode then some mode else m) m = m ∨
      ∃ mode ∈ l,
        l.foldl (fun m mode => if modeEqual mode dmtMode then some mode else m) m = some mode := by
  induction l generalizing m with
  | nil => exact .inl rfl
  | cons a l ih =>
    rw [List.foldl_cons]
    rcases ih (if modeEqual a dmtMode then some a else m) with h | ⟨b, hb, h⟩
    · rw [h]
      split
      · exact .inr ⟨a, List.mem_cons_self, rfl⟩
      · exact .inl rfl
    · exact .inr ⟨b, List.mem_cons_of_mem _ hb, h⟩

/-- The walk over the modes of a connector fails where there is a mode to compare and none to compare
it with. -/
theorem findEqual_cases (dmtMode : Option DisplayMode) (l : List DisplayMode)
    (m : Option DisplayMode) :
    (∃ found, findEqual dmtMode l m = .ok found ∧ (dmtMode = none → l = []) ∧
        (found = m ∨ ∃ mode ∈ l, found = some mode)) ∨
      findEqual dmtMode l m = .error .nullMode ∧ dmtMode = none ∧ l ≠ [] := by
  cases dmtMode with
  | some dmtMode =>
    exact .inl ⟨_, rfl, fun h => absurd h (Option.some_ne_none dmtMode),
      foldl_equal_cases dmtMode l m⟩
  | none =>
    cases l with
    | nil => exact .inl ⟨m, rfl, fun _ => rfl, .inl rfl⟩
    | cons mode l => exact .inr ⟨rfl, rfl, List.cons_ne_nil mode l⟩

theorem chosen_cloneDmt {dmtMode : Option DisplayMode} {r : Bool × TargetVars} (hi : i < count)
    (hv : Chosen connectorInfo count enabled r.2) :
    (∃ r', cloneDmt dmtMode enabled r i = .ok r' ∧ Chosen connectorInfo count enabled r'.2 ∧
        (r'.1 = true → r.1 = true ∧ (enabled i = true → (r'.2.modes i).isSome)) ∧
        (∀ j, j ≠ i → r'.2.modes j = r.2.modes j) ∧ r'.2.connectorInfo = r.2.connectorInfo ∧
        (dmtMode = none → enabled i = true → (r.2.connectorInfo i).modes = [])) ∨
      cloneDmt dmtMode enabled r i = .error .nullMode ∧ dmtMode = none ∧ enabled i = true ∧
        (r.2.connectorInfo i).modes ≠ [] := by
  rw [cloneDmt]
  by_cases hen : enabled i = true
  case neg =>
    rw [if_pos (by simpa using hen)]
    exact .inl ⟨r, rfl, hv, fun hc => ⟨hc, fun h => absurd h hen⟩, fun _ _ => rfl, rfl,
      fun _ h => absurd h hen⟩
  rw [if_neg (by simpa using hen)]
  rcases findEqual_cases dmtMode (r.2.connectorInfo i).modes (r.2.modes i) with
    ⟨found, hfound, hnone, hcases⟩ | ⟨hfound, hnone, hne⟩
  · rw [hfound]
    refine .inl ⟨_, rfl, hv.update_mode hi hen fun m hm => ?_, fun hc => ?_, fun j hj => ?_, rfl,
      fun h _ => hnone h⟩
    · rcases hcases with rfl | ⟨a, ha, rfl⟩
      · exact (hv.own i m hm).2.2
      · rw [Option.some.injEq] at hm
        exact hm ▸ ha
    · simp only [Bool.and_eq_true] at hc
      exact ⟨hc.1, fun _ => by simpa using hc.2⟩
    · exact Function.update_of_ne hj _ _
  · rw [hfound]
    exact .inr ⟨rfl, hnone, hen, hne⟩

/-- The loop for 1024x768: it finds a mode of each enabled connector, or not, or fails. -/
theorem chosen_cloneDmt_foldlM {dmtMode : Option DisplayMode} {c : TargetVars}
    (hc : Chosen connectorInfo count enabled c) :
    (∃ r, (List.range count).foldlM (cloneDmt dmtMode enabled) (true, c) = .ok r ∧
        Chosen connectorInfo count enabled r.2 ∧
        (r.1 = true → ∀ i < count, enabled i = true → (r.2.modes i).isSome) ∧
        (dmtMode = none → ∀ i < count, enabled i = true → (c.connectorInfo i).modes = [])) ∨
      (List.range count).foldlM (cloneDmt dmtMode enabled) (true, c) = .error .nullMode ∧
        dmtMode = none ∧ ∃ i < count, enabled i = true ∧ (c.connectorInfo i).modes ≠ [] := by
  have hloop := @foldlM_range _ _
    (fun n (r : Bool × TargetVars) => Chosen connectorInfo count enabled r.2 ∧
      (r.1 = true → ∀ i < n, enabled i = true → (r.2.modes i).isSome) ∧
      r.2.connectorInfo = c.connectorInfo ∧
      (dmtMode = none → ∀ i < n, enabled i = true → (c.connectorInfo i).modes = []))
    (fun n e => e = .nullMode ∧ dmtMode = none ∧
      ∃ i < n, enabled i = true ∧ (c.connectorInfo i).modes ≠ [])
    (cloneDmt dmtMode enabled) count (true, c)
    ⟨hc, fun _ i hi => by omega, rfl, fun _ i hi => by omega⟩ ?_ ?_
  · rcases hloop with ⟨r, hr, hchosen, hall, -, hnone⟩ | ⟨e, he, rfl, hnone, hlisted⟩
    · exact .inl ⟨r, hr, hchosen, hall, hnone⟩
    · exact .inr ⟨he, hnone, hlisted⟩
  · intro i hi r hr
    obtain ⟨hchosen, hall, hinfo, hlists⟩ := hr
    rcases @chosen_cloneDmt _ _ _ _ dmtMode r hi hchosen with
      ⟨r', hr', hchosen', hdone, hkeep, hinfo', hnone⟩ | ⟨hr', hnone, hen, hne⟩
    · refine .inl ⟨r', hr', hchosen', fun hc j hj henj => ?_, hinfo'.trans hinfo,
        fun hmem j hj henj => ?_⟩
      · rcases Nat.lt_succ_iff_lt_or_eq.1 hj with hj | rfl
        · rw [hkeep j (by omega)]
          exact hall (hdone hc).1 j hj henj
        · exact (hdone hc).2 henj
      · rcases Nat.lt_succ_iff_lt_or_eq.1 hj with hj | rfl
        · exact hlists hmem j hj henj
        · rw [← hinfo]
          exact hnone hmem henj
    · rw [hinfo] at hne
      exact .inr ⟨_, hr', rfl, hnone, i, Nat.lt_succ_self i, hen, hne⟩
  · intro i _ e he
    obtain ⟨rfl, hnone, j, hj, hrest⟩ := he
    exact ⟨rfl, hnone, j, by omega, hrest⟩

theorem chosen_targetRound {width height : Int} (hi : i < count)
    (hv : Chosen connectorInfo count enabled v) (hfound : Found i enabled v) :
    Chosen connectorInfo count enabled (targetRound create enabled width height v i) ∧
      Found (i + 1) enabled (targetRound create enabled width height v i) := by
  rw [targetRound]
  by_cases hen : enabled i = true
  case neg =>
    rw [if_pos (by simpa using hen)]
    refine ⟨hv, fun j hj henj => hfound j ?_ henj⟩
    have : j ≠ i := fun heq => hen (heq ▸ henj)
    omega
  rw [if_neg (by simpa using hen)]
  have hpick := hv.pick create hi hen
  -- the rounds before have left what they found
  have hkeep : Found i enabled (v.pick create i) := fun j hj henj hnone => by
    have hne : j ≠ i := by omega
    simp only [TargetVars.pick, ne_eq, hne, not_false_eq_true, Function.update_of_ne] at hnone ⊢
    exact hfound j hj henj hnone
  dsimp only
  split
  next hsome =>
    refine ⟨hpick, fun j hj henj hnone => ?_⟩
    rcases Nat.lt_succ_iff_lt_or_eq.1 hj with hj | rfl
    · exact hkeep j hj henj hnone
    · simp [hnone] at hsome
  next hsome =>
    refine ⟨hpick.update_mode hi hen fun m hm => ?_, fun j hj henj hnone => ?_⟩
    · rcases Option.or_eq_some_iff.1 hm with hpref | ⟨-, hhead⟩
      · exact List.mem_of_find?_eq_some hpref
      · exact List.mem_of_mem_head? hhead
    · rcases Nat.lt_succ_iff_lt_or_eq.1 hj with hj | rfl
      · dsimp only at hnone
        rw [Function.update_of_ne (by omega)] at hnone
        exact hkeep j hj henj hnone
      · simp only [Function.update_self, Option.or_eq_none_iff] at hnone
        exact List.head?_eq_none_iff.1 hnone.2

end

/-- `drm_target_cloned`: what the loop for the modes of the command line ends with. -/
def cmdlineModes (helper : FbHelper) (env : SetupEnv) : Bool × TargetVars :=
  cloneCmdline env.create (enableConnectors helper) helper.connectorCount 0 true
    (targetStart helper)

/-- `drm_mode_equal` is given a null pointer: a single crtc has several connectors whose modes of the
command line are not all there and equal, `drm_mode_find_dmt` has no memory for a duplicate, and one
of the connectors has a mode to compare it with. -/
structure DmtNull (helper : FbHelper) (env : SetupEnv) : Prop where
  single : helper.crtcCount ≤ 1
  several : 1 < (List.range helper.connectorCount).countP (enableConnectors helper)
  differ : (cmdlineModes helper env).1 = false
  mem : env.dmtMem = false
  listed : ∃ i < helper.connectorCount, enableConnectors helper i = true ∧
    ((cmdlineModes helper env).2.connectorInfo i).modes ≠ []

theorem modeFindDmt_eq_none {mem : Bool} : modeFindDmt mem = none ↔ mem = false := by
  cases mem <;> simp [modeFindDmt]

theorem targetStart_chosen (helper : FbHelper) :
    Chosen helper.connectorInfo helper.connectorCount (enableConnectors helper)
      (targetStart helper) :=
  ⟨fun _ => Grown.refl _, fun _ _ h => nomatch h⟩

theorem chosen_targetCloned (helper : FbHelper) (env : SetupEnv) :
    (∃ r, targetCloned helper env.create env.dmtMem (enableConnectors helper)
          (targetStart helper) = .ok r ∧ ¬ DmtNull helper env ∧
        Chosen helper.connectorInfo helper.connectorCount (enableConnectors helper) r.2 ∧
        (r.1 = true → ∀ i < helper.connectorCount, enableConnectors helper i = true →
          (r.2.modes i).isSome)) ∨
      targetCloned helper env.create env.dmtMem (enableConnectors helper)
          (targetStart helper) = .error .nullMode ∧ DmtNull helper env := by
  have hstart := targetStart_chosen helper
  obtain ⟨hchosen, hall⟩ := @chosen_cloneCmdline helper.connectorInfo helper.connectorCount
    (enableConnectors helper) env.create helper.connectorCount 0 true (targetStart helper)
    (by omega) hstart fun _ j hj => by omega
  rw [Nat.zero_add] at hall
  rw [targetCloned]
  by_cases hsingle : 1 < helper.crtcCount
  · rw [if_pos hsingle]
    refine .inl ⟨_, rfl, fun h => ?_, hstart, fun h => nomatch h⟩
    have := h.single
    omega
  rw [if_neg hsingle]
  by_cases hseveral : (List.range helper.connectorCount).countP (enableConnectors helper) ≤ 1
  · rw [if_pos hseveral]
    refine .inl ⟨_, rfl, fun h => ?_, hstart, fun h => nomatch h⟩
    have := h.several
    omega
  rw [if_neg hseveral]
  change Chosen _ _ _ (cmdlineModes helper env).2 at hchosen
  change (cmdlineModes helper env).1 = true → _ at hall
  by_cases hclone : (cmdlineModes helper env).1 = true
  · refine .inl ⟨cmdlineModes helper env, if_pos hclone, fun h => ?_, hchosen, fun _ => hall hclone⟩
    exact absurd (hclone.symm.trans h.differ) (by decide)
  rcases @chosen_cloneDmt_foldlM _ _ _ (modeFindDmt env.dmtMem)
      { (cmdlineModes helper env).2 with dmt := (modeFindDmt env.dmtMem).isSome }
      ⟨hchosen.grown, hchosen.own⟩ with
    ⟨r, hr, hchosen', hall', hnone⟩ | ⟨hr, hnone, hlisted⟩
  · refine .inl ⟨r, (if_neg hclone).trans hr, fun h => ?_, hchosen', hall'⟩
    obtain ⟨i, hi, hen, hne⟩ := h.listed
    exact hne (hnone (modeFindDmt_eq_none.2 h.mem) i hi hen)
  · exact .inr ⟨(if_neg hclone).trans hr, by omega, by omega, Bool.not_eq_true _ ▸ hclone,
      modeFindDmt_eq_none.1 hnone, hlisted⟩

/-- **The modes of `drm_setup_crtcs`**: of enabled connectors, from their lists, none is missed. -/
theorem setupModes_cases (helper : FbHelper) (env : SetupEnv) (width height : Int) :
    (∃ v, setupModes helper env width height = .ok v ∧ ¬ DmtNull helper env ∧
        Chosen helper.connectorInfo helper.connectorCount (enableConnectors helper) v ∧
        Found helper.connectorCount (enableConnectors helper) v) ∨
      setupModes helper env width height = .error .nullMode ∧ DmtNull helper env := by
  rw [setupModes]
  rcases chosen_targetCloned helper env with ⟨r, hr, hnull, hchosen, hall⟩ | ⟨hr, hnull⟩
  · rw [hr]
    refine .inl ⟨_, rfl, hnull, ?_⟩
    dsimp only
    by_cases hclone : r.1 = true
    · rw [if_pos hclone]
      refine ⟨hchosen, fun i hi hen hnone => ?_⟩
      have := hall hclone i hi hen
      simp [hnone] at this
    · rw [if_neg hclone]
      refine foldl_range (P := fun n v =>
        Chosen helper.connectorInfo helper.connectorCount (enableConnectors helper) v ∧
          Found n (enableConnectors helper) v) ⟨hchosen, fun i hi => by omega⟩ ?_
      intro i hi v hv
      exact chosen_targetRound hi hv.1 hv.2
  · rw [hr]
    exact .inr ⟨rfl, hnull⟩

/-! ## Duplicates of modes -/

/-- The duplicate that the mode set of crtc `c` holds. -/
def FbHelper.held (helper : FbHelper) (c : Nat) : Option Nat := (helper.crtcInfo c).mode.map (·.1)

/-- Every duplicate is held by one mode set or was destroyed once, or it is one of
`drm_mode_find_dmt`. -/
def Owned (helper : FbHelper) : Prop :=
  ∀ m, holders helper.held (List.range helper.crtcCount) m +
      (helper.destroyed.count m + helper.dmtMade.count m) = if m < helper.made then 1 else 0

/-- One duplicate more. -/
theorem ite_lt_succ (m made : Nat) : (if m < made + 1 then 1 else 0) =
    (if m < made then 1 else 0) + if made = m then 1 else 0 := by
  rcases Nat.lt_trichotomy m made with hlt | rfl | hlt
  · rw [if_pos (by omega), if_pos hlt, if_neg (by omega)]
  · simp
  · rw [if_neg (by omega), if_neg (by omega), if_neg (by omega)]

theorem Owned.congr (hh : Owned h) (hcount : h'.crtcCount = h.crtcCount)
    (hheld : ∀ c < h.crtcCount, h'.held c = h.held c) (hmade : h'.made = h.made)
    (hdmt : h'.dmtMade = h.dmtMade) (hdestroyed : h'.destroyed = h.destroyed) : Owned h' := by
  intro m
  rw [hmade, hdmt, hdestroyed, ← hh m, hcount,
    holders_congr fun c hc => hheld c (List.mem_range.1 hc)]

/-- The duplicate of `drm_mode_find_dmt` is nobody's. -/
theorem Owned.chose (hh : Owned h) (v : TargetVars) : Owned (h.chose v) := by
  intro m
  have hm := hh m
  cases hv : v.dmt with
  | false =>
    simp only [FbHelper.chose, hv, Bool.false_eq_true, if_false]
    exact hm
  | true =>
    simp only [FbHelper.chose, hv, if_true, List.count_cons, beq_iff_eq]
    rw [ite_lt_succ]
    change holders h.held (List.range h.crtcCount) m + _ = _
    omega

theorem destroyMode_frame (c : Nat) :
    helper.destroyMode c = { helper with
      destroyed := (helper.held c).toList ++ helper.destroyed } := by
  rw [FbHelper.destroyMode, FbHelper.held]
  cases (helper.crtcInfo c).mode <;> rfl

/-- A crtc gives up its mode and gets a new duplicate or none. -/
theorem Owned.replace (hh : Owned h) {c : Nat} (hc : c < h.crtcCount) {x : FbCrtc} {made : Nat}
    (hx : x.mode = none ∧ made = h.made ∨
      ∃ mode, x.mode = some (h.made, mode) ∧ made = h.made + 1) :
    Owned { (h.destroyMode c).setCrtc c x with made := made } := by
  intro m
  rw [destroyMode_frame]
  have hoff : ∀ d ∈ List.range h.crtcCount, d ≠ c →
      FbHelper.held { h with crtcInfo := Function.update h.crtcInfo c x } d = h.held d := by
    intro d _ hd
    simp [FbHelper.held, Function.update_of_ne hd]
  have hmove := holders_of_eq_off List.nodup_range (List.mem_range.2 hc) hoff m
  have hat : FbHelper.held { h with crtcInfo := Function.update h.crtcInfo c x } c =
      x.mode.map (·.1) := by simp [FbHelper.held]
  rw [hat] at hmove
  have hcount : ((h.held c).toList ++ h.destroyed).count m =
      (if h.held c = some m then 1 else 0) + h.destroyed.count m := by
    rw [List.count_append]
    cases h.held c with
    | none => simp
    | some i => by_cases hi : i = m <;> simp [hi]
  have hm := hh m
  change holders (FbHelper.held { h with crtcInfo := Function.update h.crtcInfo c x })
      (List.range h.crtcCount) m +
        (((h.held c).toList ++ h.destroyed).count m + h.dmtMade.count m) =
    if m < made then 1 else 0
  rw [hcount]
  rcases hx with ⟨hmode, rfl⟩ | ⟨mode, hmode, rfl⟩
  · simp only [hmode, Option.map_none, reduceCtorEq, if_false] at hmove
    omega
  · simp only [hmode, Option.map_some, Option.some.injEq] at hmove
    rw [ite_lt_succ]
    omega

/-! ## The loops over the mode sets -/

/-- What the loops leave alone. -/
structure Frame (h h' : FbHelper) : Prop where
  fb : h'.fb = h.fb
  crtcCount : h'.crtcCount = h.crtcCount
  maxConnCount : h'.maxConnCount = h.maxConnCount
  connectorCount : h'.connectorCount = h.connectorCount
  connectorInfo : h'.connectorInfo = h.connectorInfo
  numConnector : h'.numConnector = h.numConnector

theorem Frame.trans {a b c : FbHelper} (h : Frame a b) (h' : Frame b c) : Frame a c :=
  ⟨h'.fb.trans h.fb, h'.crtcCount.trans h.crtcCount, h'.maxConnCount.trans h.maxConnCount,
    h'.connectorCount.trans h.connectorCount, h'.connectorInfo.trans h.connectorInfo,
    h'.numConnector.trans h.numConnector⟩

theorem Sound.frame (hf : Frame h h') (hs : Sound h modes crtcs) : Sound h' modes crtcs := by
  refine ⟨?_, ?_, ?_, ?_⟩
  · simpa only [hf.connectorCount, hf.crtcCount] using hs.range
  · simpa only [hf.connectorCount] using hs.mode
  · simpa only [hf.connectorCount, hf.connectorInfo] using hs.possible
  · simpa only [hf.connectorCount, hf.crtcCount] using hs.shared

theorem Frame.score (hf : Frame h h') (width height : Int) (crtcs : Crtcs) :
    crtcsScore h' width height crtcs = crtcsScore h width height crtcs := by
  simp only [crtcsScore, connectorScore, hf.connectorCount, hf.connectorInfo]

/-- Connector `i` has a mode and is given crtc `c`. -/
def goesTo (modes : Nat → Option DisplayMode) (crtcs : Crtcs) (c i : Nat) : Bool :=
  (modes i).isSome && crtcs i == some c

/-- The mode set of crtc `c` after the first `n` connectors. -/
structure SetOf (helper : FbHelper) (modes : Nat → Option DisplayMode) (crtcs : Crtcs)
    (dup : Nat → Bool) (n c : Nat) (x : FbCrtc) : Prop where
  connectors : x.connectors = (List.range n).filter (goesTo modes crtcs c)
  fb : x.fb = if x.connectors = [] then none else helper.fb
  mode : x.connectors ≠ [] → ∃ i ∈ x.connectors, ∃ mode, modes i = some mode ∧
    x.desiredMode = some mode ∧ x.mode.map (·.2) = if dup i then some mode else none

/-- The helper after the first `n` connectors. -/
structure SetsFilled (helper : FbHelper) (modes : Nat → Option DisplayMode) (crtcs : Crtcs)
    (dup : Nat → Bool) (n : Nat) (h : FbHelper) : Prop where
  frame : Frame helper h
  owned : Owned h
  sets : ∀ c < helper.crtcCount, SetOf helper modes crtcs dup n c (h.crtcInfo c)

variable {dup : Nat → Bool} {n : Nat}

theorem resetCrtc_foldl (helper : FbHelper) (n : Nat) :
    (List.range n).foldl resetCrtc helper = { helper with
      crtcInfo := fun c => if c < n then { helper.crtcInfo c with connectors := [], fb := none }
        else helper.crtcInfo c } := by
  induction n with
  | zero => simp
  | succ n ih =>
    rw [List.range_succ, List.foldl_append, ih, List.foldl_cons, List.foldl_nil, resetCrtc,
      FbHelper.setCrtc]
    congr 1
    funext c
    by_cases hc : c = n
    · subst hc
      simp
    · rw [Function.update_of_ne hc]
      exact if_congr (by omega) rfl rfl

/-- The emptied mode sets, before the first connector. -/
theorem setsFilled_zero (hh : Owned helper) :
    SetsFilled helper modes crtcs dup 0 ((List.range helper.crtcCount).foldl resetCrtc helper) := by
  rw [resetCrtc_foldl]
  refine ⟨⟨rfl, rfl, rfl, rfl, rfl, rfl⟩, hh.congr rfl (fun c hc => ?_) rfl rfl rfl,
    fun c hc => ?_⟩
  · simp [FbHelper.held, hc]
  · simp only [hc, if_true]
    exact ⟨rfl, rfl, fun h => absurd rfl h⟩

/-- The first `n` connectors are more for a crtc than its mode set has room for. -/
def Overfull (helper : FbHelper) (modes : Nat → Option DisplayMode) (crtcs : Crtcs) (n : Nat) :
    Prop :=
  ∃ c, helper.maxConnCount < ((List.range n).filter (goesTo modes crtcs c)).length

theorem Overfull.succ (h : Overfull helper modes crtcs n) : Overfull helper modes crtcs (n + 1) := by
  obtain ⟨c, hc⟩ := h
  refine ⟨c, Nat.lt_of_lt_of_le hc ?_⟩
  rw [List.range_succ, List.filter_append, List.length_append]
  exact Nat.le_add_right _ _

/-- The connector goes nowhere, or to another crtc. -/
theorem filter_goesTo_of_false {c : Nat} (hc : goesTo modes crtcs c n = false) :
    (List.range (n + 1)).filter (goesTo modes crtcs c) =
      (List.range n).filter (goesTo modes crtcs c) := by
  rw [List.range_succ, List.filter_append]
  simp [hc]

/-- A connector that goes nowhere. -/
theorem SetsFilled.skip (hh : SetsFilled helper modes crtcs dup n h)
    (hover : ¬ Overfull helper modes crtcs n) (hc : ∀ c, goesTo modes crtcs c n = false) :
    SetsFilled helper modes crtcs dup (n + 1) h ∧ ¬ Overfull helper modes crtcs (n + 1) := by
  refine ⟨⟨hh.frame, hh.owned, fun c hlt => ?_⟩, fun h => hover ?_⟩
  · have hset := hh.sets c hlt
    exact ⟨by rw [filter_goesTo_of_false (hc c), hset.connectors], hset.fb, hset.mode⟩
  · obtain ⟨c, hlt⟩ := h
    rw [filter_goesTo_of_false (hc c)] at hlt
    exact ⟨c, hlt⟩

/-- One connector goes into the mode set of its crtc, unless that is full. -/
theorem setsFilled_fillCrtc (hs : Sound helper modes crtcs) (hn : n < helper.connectorCount)
    (hh : SetsFilled helper modes crtcs dup n h) (hover : ¬ Overfull helper modes crtcs n) :
    (∃ h', fillCrtc modes crtcs dup h n = .ok h' ∧
        SetsFilled helper modes crtcs dup (n + 1) h' ∧ ¬ Overfull helper modes crtcs (n + 1)) ∨
      fillCrtc modes crtcs dup h n = .error .overrun ∧ Overfull helper modes crtcs (n + 1) := by
  rw [fillCrtc]
  cases hmode : modes n with
  | none => exact .inl ⟨h, rfl, hh.skip hover fun c => by simp [goesTo, hmode]⟩
  | some mode =>
    cases hcrtc : crtcs n with
    | none => exact .inl ⟨h, rfl, hh.skip hover fun c => by simp [goesTo, hcrtc]⟩
    | some c =>
      have hc : c < helper.crtcCount := hs.range n c hcrtc hn
      have hset := hh.sets c hc
      have hself : (List.range (n + 1)).filter (goesTo modes crtcs c) =
          (h.crtcInfo c).connectors ++ [n] := by
        rw [List.range_succ, List.filter_append, hset.connectors]
        simp [goesTo, hmode, hcrtc]
      have hother {d : Nat} (hdc : d ≠ c) : goesTo modes crtcs d n = false := by
        simp [goesTo, hcrtc, Ne.symm hdc]
      have hroom := hh.frame.maxConnCount
      dsimp only
      by_cases hfull : h.maxConnCount ≤ (h.crtcInfo c).connectors.length
      · refine .inr ⟨if_pos hfull, c, ?_⟩
        rw [hself, List.length_append, List.length_singleton]
        omega
      refine .inl ⟨_, if_neg hfull,
        ⟨hh.frame.trans ⟨?_, ?_, ?_, ?_, ?_, ?_⟩, ?_, fun d hd => ?_⟩, fun h' => hover ?_⟩
      · simp [FbHelper.setCrtc, destroyMode_frame]
      · simp [FbHelper.setCrtc, destroyMode_frame]
      · simp [FbHelper.setCrtc, destroyMode_frame]
      · simp [FbHelper.setCrtc, destroyMode_frame]
      · simp [FbHelper.setCrtc, destroyMode_frame]
      · simp [FbHelper.setCrtc, destroyMode_frame]
      · refine hh.owned.replace (by rw [hh.frame.crtcCount]; exact hc) ?_
        cases hdup : dup n with
        | true => exact .inr ⟨mode, by simp [destroyMode_frame], by simp [destroyMode_frame]⟩
        | false => exact .inl ⟨by simp, by simp [destroyMode_frame]⟩
      · by_cases hdc : d = c
        · subst hdc
          simp only [FbHelper.setCrtc, destroyMode_frame, Function.update_self]
          refine ⟨hself.symm, ?_, fun _ => ⟨n, by simp, mode, hmode, rfl, ?_⟩⟩
          · simp [hh.frame.fb]
          · cases dup n <;> rfl
        · have hset := hh.sets d hd
          simp only [FbHelper.setCrtc, destroyMode_frame, Function.update_of_ne hdc]
          exact ⟨by rw [filter_goesTo_of_false (hother hdc), hset.connectors], hset.fb, hset.mode⟩
      · obtain ⟨d, hd⟩ := h'
        by_cases hdc : d = c
        · subst hdc
          rw [hself, List.length_append, List.length_singleton] at hd
          omega
        · rw [filter_goesTo_of_false (hother hdc)] at hd
          exact ⟨d, hd⟩

/-- The loop over the connectors. -/
theorem setsFilled_foldlM (hs : Sound helper modes crtcs) (hh : Owned helper) :
    (∃ h, (List.range helper.connectorCount).foldlM (fillCrtc modes crtcs dup)
          ((List.range helper.crtcCount).foldl resetCrtc helper) = .ok h ∧
        SetsFilled helper modes crtcs dup helper.connectorCount h ∧
        ¬ Overfull helper modes crtcs helper.connectorCount) ∨
      (List.range helper.connectorCount).foldlM (fillCrtc modes crtcs dup)
          ((List.range helper.crtcCount).foldl resetCrtc helper) = .error .overrun ∧
        Overfull helper modes crtcs helper.connectorCount := by
  have hempty : ¬ Overfull helper modes crtcs 0 := fun h => Nat.not_lt_zero _ h.choose_spec
  have hloop := @foldlM_range _ _
    (fun n h => SetsFilled helper modes crtcs dup n h ∧ ¬ Overfull helper modes crtcs n)
    (fun n e => e = .overrun ∧ Overfull helper modes crtcs n)
    (fillCrtc modes crtcs dup) helper.connectorCount _ ⟨setsFilled_zero hh, hempty⟩ ?_ ?_
  · rcases hloop with ⟨h, hfill, hfilled, hover⟩ | ⟨e, hfill, rfl, hover⟩
    · exact .inl ⟨h, hfill, hfilled, hover⟩
    · exact .inr ⟨hfill, hover⟩
  · intro i hi h hfilled
    rcases setsFilled_fillCrtc hs hi hfilled.1 hfilled.2 with hdone | ⟨he, hover⟩
    · exact .inl hdone
    · exact .inr ⟨_, he, rfl, hover⟩
  · intro i _ e he
    exact ⟨he.1, he.2.succ⟩

/-- The helper after the last loop has passed the first `n` crtcs: those without connectors have no
mode. -/
structure Cleared (helper : FbHelper) (modes : Nat → Option DisplayMode) (crtcs : Crtcs)
    (dup : Nat → Bool) (n : Nat) (h : FbHelper) : Prop extends
    SetsFilled helper modes crtcs dup helper.connectorCount h where
  idle : ∀ c < n, (h.crtcInfo c).connectors = [] → (h.crtcInfo c).mode = none

theorem cleared_clearCrtc (hn : n < helper.crtcCount)
    (hh : Cleared helper modes crtcs dup n h) :
    ∃ h', clearCrtc h n = .ok h' ∧ Cleared helper modes crtcs dup (n + 1) h' := by
  rw [clearCrtc]
  by_cases hlen : (h.crtcInfo n).connectors = []
  case neg =>
    refine ⟨h, by simp [hlen], hh.toSetsFilled, fun c hc hempty => ?_⟩
    rcases Nat.lt_succ_iff_lt_or_eq.1 hc with hc | rfl
    · exact hh.idle c hc hempty
    · exact absurd hempty hlen
  have hset := hh.sets n hn
  have hfb : (h.crtcInfo n).fb = none := by rw [hset.fb, if_pos hlen]
  refine ⟨_, by simp only [hlen, hfb, List.length_nil, ne_eq, not_true_eq_false, if_false,
    Option.isSome_none, Bool.false_eq_true]; rfl, ⟨hh.frame.trans ⟨?_, ?_, ?_, ?_, ?_, ?_⟩, ?_,
    fun d hd => ?_⟩, fun d hd hempty => ?_⟩
  · simp [FbHelper.setCrtc, destroyMode_frame]
  · simp [FbHelper.setCrtc, destroyMode_frame]
  · simp [FbHelper.setCrtc, destroyMode_frame]
  · simp [FbHelper.setCrtc, destroyMode_frame]
  · simp [FbHelper.setCrtc, destroyMode_frame]
  · simp [FbHelper.setCrtc, destroyMode_frame]
  · have hown := hh.owned.replace (c := n) (x := { h.crtcInfo n with mode := none })
      (by rw [hh.frame.crtcCount]; exact hn) (.inl ⟨rfl, rfl⟩)
    refine hown.congr rfl (fun c _ => ?_) ?_ ?_ rfl
    · simp [FbHelper.held, FbHelper.setCrtc, destroyMode_frame, hlen, hfb]
    · simp [FbHelper.setCrtc, destroyMode_frame]
    · simp [FbHelper.setCrtc, destroyMode_frame]
  · by_cases hdn : d = n
    · subst hdn
      simp only [FbHelper.setCrtc, destroyMode_frame, Function.update_self]
      exact ⟨by rw [← hset.connectors, hlen], by simp, fun h => absurd rfl h⟩
    · simp only [FbHelper.setCrtc, destroyMode_frame, Function.update_of_ne hdn]
      exact hh.sets d hd
  · by_cases hdn : d = n
    · subst hdn
      simp [FbHelper.setCrtc]
    · simp only [FbHelper.setCrtc, destroyMode_frame, Function.update_of_ne hdn] at hempty ⊢
      exact hh.idle d (by omega) hempty

/-- The last loop. -/
theorem cleared_foldlM (hh : SetsFilled helper modes crtcs dup helper.connectorCount h) :
    ∃ h', (List.range h.crtcCount).foldlM clearCrtc h = .ok h' ∧
      Cleared helper modes crtcs dup helper.crtcCount h' := by
  rw [hh.frame.crtcCount]
  have hloop := @foldlM_range _ _ (Cleared helper modes crtcs dup)
    (fun _ (_ : SetupFault) => False) clearCrtc helper.crtcCount h
    ⟨hh, fun c hc => by omega⟩ (fun c hc h hh => .inl (cleared_clearCrtc hc hh))
    fun _ _ _ h => h
  rcases hloop with hdone | ⟨e, -, hfalse⟩
  · exact hdone
  · exact hfalse.elim

/-- **The mode sets hold the assignment** that `drm_pick_crtcs` finds for the modes, with no `BUG_ON`
on the way, unless a crtc gets more connectors than its mode set has room for. -/
theorem setupSets_cases (modes : Nat → Option DisplayMode) (env : SetupEnv) (width height : Int)
    (hh : Owned helper) (hnum : helper.connectorCount ≤ helper.numConnector) :
    ∃ crtcs, Sound helper modes crtcs ∧
      ((∀ pre, env.kzalloc pre = true) → ∀ crtcs', Sound helper modes crtcs' →
        crtcsScore helper width height crtcs' ≤ crtcsScore helper width height crtcs) ∧
      ((∃ h', setupSets helper modes env width height = .ok h' ∧
          ¬ Overfull helper modes crtcs helper.connectorCount ∧
          Cleared helper modes crtcs env.dup helper.crtcCount h') ∨
        setupSets helper modes env width height = .error .overrun ∧
          Overfull helper modes crtcs helper.connectorCount) := by
  obtain ⟨hsound, hscore, hbest⟩ := pickCrtcs_best helper modes env.kzalloc width height
    (fun _ => none) hnum
  have hreset : ((List.range helper.crtcCount).foldl resetCrtc helper).connectorCount =
      helper.connectorCount := by rw [resetCrtc_foldl]
  rw [setupSets, hreset]
  generalize (pickCrtcs helper modes env.kzalloc width height helper.connectorCount 0
    fun _ => none).2 = crtcs at hsound hscore ⊢
  refine ⟨crtcs, hsound, fun hall crtcs' hs' => ?_, ?_⟩
  · rw [hscore]
    exact hbest hall crtcs' hs'
  rcases @setsFilled_foldlM _ _ _ env.dup hsound hh with
    ⟨h, hfill, hfilled, hroom⟩ | ⟨hfill, hfull⟩
  · rw [hfill]
    obtain ⟨h', hclear, hcleared⟩ := cleared_foldlM hfilled
    exact .inl ⟨h', hclear, hroom, hcleared⟩
  · rw [hfill]
    exact .inr ⟨rfl, hfull⟩

/-! ## Every state of a run -/

/-- What the mode sets are in every state: each connector is in one of them at most, with other
crtcs around alone, and a mode set without connectors is off. -/
structure SetsPlaced (h : FbHelper) : Prop where
  range : ∀ c < h.crtcCount, ∀ i ∈ (h.crtcInfo c).connectors, i < h.connectorCount
  nodup : ∀ c < h.crtcCount, (h.crtcInfo c).connectors.Nodup
  apart : ∀ c < h.crtcCount, ∀ d < h.crtcCount, ∀ i, i ∈ (h.crtcInfo c).connectors →
    i ∈ (h.crtcInfo d).connectors → c = d
  single : 1 < h.crtcCount → ∀ c < h.crtcCount, (h.crtcInfo c).connectors.length ≤ 1
  idle : ∀ c < h.crtcCount, (h.crtcInfo c).connectors = [] →
    (h.crtcInfo c).mode = none ∧ (h.crtcInfo c).fb = none
  lit : ∀ c < h.crtcCount, (h.crtcInfo c).connectors ≠ [] → (h.crtcInfo c).fb = h.fb

/-- The invariant of the helper. -/
structure FbInv (h : FbHelper) : Prop where
  placed : SetsPlaced h
  owned : Owned h
  count : h.connectorCount ≤ h.numConnector

theorem SetOf.mem {c i : Nat} {x : FbCrtc} (hx : SetOf helper modes crtcs dup n c x) :
    i ∈ x.connectors ↔ i < n ∧ (modes i).isSome = true ∧ crtcs i = some c := by
  rw [hx.connectors, List.mem_filter, List.mem_range]
  simp [goesTo]

theorem length_le_one_of_forall_eq {l : List Nat} (hnd : l.Nodup)
    (heq : ∀ i ∈ l, ∀ j ∈ l, i = j) : l.length ≤ 1 := by
  match l, hnd, heq with
  | [], _, _ => exact Nat.zero_le 1
  | [_], _, _ => exact Nat.le_refl 1
  | a :: b :: l, hnd, heq =>
    have hab : a = b := heq a (by simp) b (by simp)
    simp [hab] at hnd

theorem Cleared.placed (hs : Sound h modes crtcs)
    (hh : Cleared helper modes crtcs dup helper.crtcCount h) : SetsPlaced h := by
  have hcount : h.crtcCount = helper.crtcCount := hh.frame.crtcCount
  have hconn : h.connectorCount = helper.connectorCount := hh.frame.connectorCount
  have hmem (c : Nat) (hc : c < h.crtcCount) (i : Nat) (hi : i ∈ (h.crtcInfo c).connectors) :
      i < h.connectorCount ∧ crtcs i = some c := by
    obtain ⟨hlt, -, hic⟩ := (hh.sets c (hcount ▸ hc)).mem.1 hi
    exact ⟨by omega, hic⟩
  have hnodup (c : Nat) (hc : c < h.crtcCount) : (h.crtcInfo c).connectors.Nodup := by
    rw [(hh.sets c (hcount ▸ hc)).connectors]
    exact List.nodup_range.filter _
  refine ⟨fun c hc i hi => (hmem c hc i hi).1, hnodup, fun c hc d hd i hi hi' => ?_,
    fun hone c hc => length_le_one_of_forall_eq (hnodup c hc) fun i hi j hj => ?_,
    fun c hc hempty => ⟨hh.idle c (hcount ▸ hc) hempty, ?_⟩, fun c hc hne => ?_⟩
  · have heq := (hmem c hc i hi).2.symm.trans (hmem d hd i hi').2
    exact Option.some.inj heq
  · obtain ⟨hilt, hic⟩ := hmem c hc i hi
    obtain ⟨hjlt, hjc⟩ := hmem c hc j hj
    rcases Nat.lt_trichotomy i j with hlt | heq | hlt
    · have := (hs.shared i j c hic hjc hlt hjlt).1
      omega
    · exact heq
    · have := (hs.shared j i c hjc hic hlt hilt).1
      omega
  · rw [(hh.sets c (hcount ▸ hc)).fb, if_pos hempty]
  · rw [(hh.sets c (hcount ▸ hc)).fb, if_neg hne]
    exact hh.frame.fb.symm

theorem FbInv.chose (hh : FbInv helper) (v : TargetVars) : FbInv (helper.chose v) :=
  ⟨⟨hh.placed.range, hh.placed.nodup, hh.placed.apart, hh.placed.single, hh.placed.idle,
    hh.placed.lit⟩, hh.owned.chose v, hh.count⟩

theorem setupSets_inv (modes : Nat → Option DisplayMode) (env : SetupEnv) (width height : Int)
    (hh : FbInv helper) :
    (∃ h', setupSets helper modes env width height = .ok h' ∧ FbInv h') ∨
      setupSets helper modes env width height = .error .overrun := by
  obtain ⟨crtcs, hsound, -, ⟨h', hsets, -, hcleared⟩ | ⟨hsets, -⟩⟩ :=
    setupSets_cases modes env width height hh.owned hh.count
  · refine .inl ⟨h', hsets, hcleared.placed (hsound.frame hcleared.frame), hcleared.owned, ?_⟩
    rw [hcleared.frame.connectorCount, hcleared.frame.numConnector]
    exact hh.count
  · exact .inr hsets

theorem setupCrtcs_inv (env : SetupEnv) (width height : Int) (hh : FbInv helper) :
    (∃ h', setupCrtcs helper env width height = .ok h' ∧ FbInv h') ∨
      ∃ e, setupCrtcs helper env width height = .error e ∧ e ≠ .bug := by
  rw [setupCrtcs]
  by_cases hmem : env.kcalloc = true
  case neg =>
    rw [if_pos (by simpa using hmem)]
    exact .inl ⟨helper, rfl, hh⟩
  rw [if_neg (by simpa using hmem)]
  rcases setupModes_cases helper env width height with ⟨v, hv, -⟩ | ⟨hv, -⟩
  · rw [hv]
    rcases setupSets_inv v.modes env width height (hh.chose v) with hsets | hsets
    · exact .inl hsets
    · exact .inr ⟨_, hsets, by decide⟩
  · rw [hv]
    exact .inr ⟨_, rfl, by decide⟩

theorem singleFbProbe_eq (helper : FbHelper) (fb : Option Nat) :
    singleFbProbe helper fb = { helper with
      fb := fb
      crtcInfo := fun c =>
        if c < helper.crtcCount ∧ (helper.crtcInfo c).connectors ≠ [] then
          { helper.crtcInfo c with fb := fb }
        else helper.crtcInfo c } := by
  refine foldl_range (P := fun n h => h = { helper with
      fb := fb
      crtcInfo := fun c =>
        if c < n ∧ (helper.crtcInfo c).connectors ≠ [] then { helper.crtcInfo c with fb := fb }
        else helper.crtcInfo c }) (s := { helper with fb := fb }) (by simp) ?_
  rintro n - h rfl
  by_cases hlen : (helper.crtcInfo n).connectors = []
  · simp only [Nat.lt_irrefl, false_and, if_false, hlen, List.length_nil, ne_eq, not_true_eq_false]
    congr 1
    funext c
    by_cases hc : c = n
    · subst hc
      simp [hlen]
    · exact if_congr (and_congr_left fun _ => by omega) rfl rfl
  · simp only [Nat.lt_irrefl, false_and, if_false, List.length_eq_zero_iff, hlen, ne_eq,
      not_false_eq_true, if_true, FbHelper.setCrtc]
    congr 1
    funext c
    by_cases hc : c = n
    · subst hc
      simp [hlen]
    · rw [Function.update_of_ne hc]
      exact if_congr (and_congr_left fun _ => by omega) rfl rfl

theorem singleFbProbe_inv (fb : Option Nat) (hh : FbInv helper) :
    FbInv (singleFbProbe helper fb) := by
  rw [singleFbProbe_eq]
  have hconn (c : Nat) : (if c < helper.crtcCount ∧ (helper.crtcInfo c).connectors ≠ [] then
      { helper.crtcInfo c with fb := fb } else helper.crtcInfo c).connectors =
        (helper.crtcInfo c).connectors := by split <;> rfl
  have hmode (c : Nat) : (if c < helper.crtcCount ∧ (helper.crtcInfo c).connectors ≠ [] then
      { helper.crtcInfo c with fb := fb } else helper.crtcInfo c).mode =
        (helper.crtcInfo c).mode := by split <;> rfl
  refine ⟨⟨?_, ?_, ?_, ?_, ?_, ?_⟩, ?_, hh.count⟩
  · simpa only [hconn] using hh.placed.range
  · simpa only [hconn] using hh.placed.nodup
  · simpa only [hconn] using hh.placed.apart
  · simpa only [hconn] using hh.placed.single
  · intro c hc
    simp only [hconn, hmode]
    intro hempty
    rw [if_neg (by simp [hempty])]
    exact hh.placed.idle c hc hempty
  · intro c hc
    simp only [hconn]
    intro hne
    rw [if_pos ⟨hc, hne⟩]
  · exact hh.owned.congr rfl (fun c _ => by simp only [FbHelper.held, hmode]) rfl rfl rfl

theorem fbStep_inv (op : FbOp) (hh : FbInv helper) :
    (∃ h', helper.step op = .ok h' ∧ FbInv h') ∨
      ∃ e, helper.step op = .error e ∧ e ≠ .bug := by
  cases op with
  | probe connectorInfo =>
    exact .inl ⟨_, rfl, ⟨hh.placed.range, hh.placed.nodup, hh.placed.apart, hh.placed.single,
      hh.placed.idle, hh.placed.lit⟩, hh.owned, hh.count⟩
  | setup env width height => exact setupCrtcs_inv env width height hh
  | fbProbe fb => exact .inl ⟨_, rfl, singleFbProbe_inv fb hh⟩

theorem fbInit_inv (crtcCount maxConnCount numConnector : Nat)
    (connectorInfo : Nat → FbConnector) :
    FbInv (FbHelper.init crtcCount maxConnCount numConnector connectorInfo) := by
  refine ⟨⟨?_, ?_, ?_, ?_, ?_, ?_⟩, fun m => ?_, Nat.le_refl _⟩
  · simp [FbHelper.init]
  · simp [FbHelper.init]
  · simp [FbHelper.init]
  · simp [FbHelper.init]
  · simp [FbHelper.init]
  · simp [FbHelper.init]
  · simp [FbHelper.init, FbHelper.held, holders]

/-- A run never reaches a `BUG_ON`, and the invariant holds in its last state. -/
theorem fbRun_inv (ops : List FbOp) (hh : FbInv helper) :
    (∃ h', ops.foldlM FbHelper.step helper = .ok h' ∧ FbInv h') ∨
      ∃ e, ops.foldlM FbHelper.step helper = .error e ∧ e ≠ .bug := by
  induction ops generalizing helper with
  | nil => exact .inl ⟨helper, rfl, hh⟩
  | cons op ops ih =>
    rw [List.foldlM_cons]
    rcases fbStep_inv op hh with ⟨h', hstep, hinv⟩ | ⟨e, hstep, hne⟩
    · rw [hstep]
      exact ih hinv
    · rw [hstep]
      exact .inr ⟨e, rfl, hne⟩

theorem crtcFree_destroyed (hh : Owned h) :
    ((crtcFree h).destroyed ++ h.dmtMade).Perm (List.range h.made) := by
  have hloop : h.crtcInfo = (crtcFree h).crtcInfo ∧ ∀ m, (crtcFree h).destroyed.count m =
      holders h.held (List.range h.crtcCount) m + h.destroyed.count m := by
    refine foldl_range (P := fun n (g : FbHelper) => h.crtcInfo = g.crtcInfo ∧ ∀ m,
      g.destroyed.count m = holders h.held (List.range n) m + h.destroyed.count m)
      ⟨rfl, by simp [holders]⟩ ?_
    rintro n - g ⟨hinfo, hcount⟩
    rw [destroyMode_frame]
    refine ⟨hinfo, fun m => ?_⟩
    have hheld : g.held n = h.held n := by rw [FbHelper.held, FbHelper.held, hinfo]
    have hsucc : holders h.held (List.range (n + 1)) m =
        holders h.held (List.range n) m + if h.held n = some m then 1 else 0 := by
      rw [holders, holders, List.range_succ, List.countP_append, List.countP_singleton]
      simp
    have hm := hcount m
    rw [List.count_append, hsucc, hheld]
    cases h.held n with
    | none => simpa using hm
    | some i =>
      by_cases hi : i = m
      · simp only [Option.toList_some, hi, List.count_singleton_self, if_true]
        omega
      · simp only [Option.toList_some, List.count_singleton, beq_iff_eq, hi, if_false,
          Option.some.injEq]
        omega
  refine List.perm_iff_count.2 fun m => ?_
  rw [List.count_append, hloop.2, Nat.add_assoc, hh m, List.nodup_range.count]
  exact if_congr List.mem_range.symm rfl rfl

/-- **Any run of probes, set-ups and answers of the driver**: no `BUG_ON` is reached, every
connector is in one mode set at most, a mode set without connectors is off, and after
`drm_fb_helper_crtc_free` every duplicate of a mode that was made for a mode set has been destroyed
exactly once, those of `drm_mode_find_dmt` never. -/
theorem fbRun_clean (crtcCount maxConnCount numConnector : Nat)
    (connectorInfo : Nat → FbConnector) (ops : List FbOp) :
    ops.foldlM FbHelper.step (FbHelper.init crtcCount maxConnCount numConnector connectorInfo) ≠
        .error .bug ∧
      ∀ h, ops.foldlM FbHelper.step
          (FbHelper.init crtcCount maxConnCount numConnector connectorInfo) = .ok h →
        SetsPlaced h ∧ ((crtcFree h).destroyed ++ h.dmtMade).Perm (List.range h.made) := by
  rcases fbRun_inv ops (fbInit_inv crtcCount maxConnCount numConnector connectorInfo) with
    ⟨g, hrun, hinv⟩ | ⟨e, hrun, hne⟩
  · rw [hrun]
    refine ⟨by simp, fun h hh => ?_⟩
    cases hh
    exact ⟨hinv.placed, crtcFree_destroyed hinv.owned⟩
  · rw [hrun]
    refine ⟨fun h => hne (Except.error.inj h), fun h hh => ?_⟩
    cases hh

/-- All memory is there, and no mode has to be made. -/
def plentyEnv : SetupEnv where
  kcalloc := true
  kzalloc := fun _ => true
  dup := fun _ => true
  dmtMem := true
  create := fun _ => none

/-- One crtc that shows the same on two monitors. -/
def clonedPair : FbHelper := FbHelper.init 1 4 2 fun _ => monitor 1

theorem fbRun_clean_clonedPair :
    (([.setup plentyEnv 2048 2048].foldlM FbHelper.step clonedPair).map fun h =>
        (h.made, (crtcFree h).destroyed, h.dmtMade)) = .ok (3, [2, 1], [0]) ∧
      ∀ h, [.setup plentyEnv 2048 2048].foldlM FbHelper.step clonedPair = .ok h → SetsPlaced h :=
  ⟨by decide, fun h hh => ((fbRun_clean 1 4 2 (fun _ => monitor 1)
    [.setup plentyEnv 2048 2048]).2 h hh).1⟩

/-- The mode set of crtc `c` shows the assignment: its connectors, and one mode that is equal to the
mode of each of them. -/
structure Shows (h : FbHelper) (modes : Nat → Option DisplayMode) (crtcs : Crtcs)
    (dup : Nat → Bool) (c : Nat) : Prop where
  connectors : ∀ i < h.connectorCount, i ∈ (h.crtcInfo c).connectors ↔ crtcs i = some c
  equal : ∀ i ∈ (h.crtcInfo c).connectors, ∀ mode ∈ modes i, ∀ own ∈ (h.crtcInfo c).mode,
    modeEqual own.2 mode = true
  some : (∀ i, dup i = true) → (h.crtcInfo c).connectors ≠ [] → (h.crtcInfo c).mode.isSome

theorem modeEqual_refl (mode : DisplayMode) : modeEqual mode mode = true := by
  simp [modeEqual_iff, modeEqualNoClocks]

theorem Cleared.shows (hs : Sound h modes crtcs)
    (hh : Cleared helper modes crtcs dup helper.crtcCount h) {c : Nat} (hc : c < helper.crtcCount) :
    Shows h modes crtcs dup c := by
  have hset := hh.sets c hc
  have hconn : h.connectorCount = helper.connectorCount := hh.frame.connectorCount
  refine ⟨fun i hi => ?_, fun i hi mode hmode own hown => ?_, fun hdup hne => ?_⟩
  · rw [hset.mem]
    exact ⟨fun h => h.2.2, fun hic => ⟨by omega, hs.mode i c hic hi, hic⟩⟩
  · obtain ⟨j, hj, modej, hmodej, -, hdupj⟩ := hset.mode (List.ne_nil_of_mem hi)
    have heq : own.2 = modej := by
      have hown' : (h.crtcInfo c).mode = some own := hown
      rw [hown', Option.map_some] at hdupj
      split at hdupj
      · exact Option.some.inj hdupj
      · cases hdupj
    obtain ⟨hilt, -, hic⟩ := hset.mem.1 hi
    obtain ⟨hjlt, -, hjc⟩ := hset.mem.1 hj
    have hsame : modeEqual modej mode = true := by
      rcases Nat.lt_trichotomy i j with hlt | rfl | hlt
      · obtain ⟨m1, m2, h1, h2, he⟩ := (hs.shared i j c hic hjc hlt (by omega)).2
        have h1' : some mode = some m1 := hmode.symm.trans h1
        have h2' : some modej = some m2 := hmodej.symm.trans h2
        cases h1'
        cases h2'
        exact modeEqual_symm he
      · have hmm : some mode = some modej := hmode.symm.trans hmodej
        cases hmm
        exact modeEqual_refl mode
      · obtain ⟨m1, m2, h1, h2, he⟩ := (hs.shared j i c hjc hic hlt (by omega)).2
        have h1' : some modej = some m1 := hmodej.symm.trans h1
        have h2' : some mode = some m2 := hmode.symm.trans h2
        cases h1'
        cases h2'
        exact he
    rw [heq]
    exact hsame
  · obtain ⟨j, -, modej, -, -, hdupj⟩ := hset.mode hne
    rw [if_pos (hdup j)] at hdupj
    cases hm : (h.crtcInfo c).mode with
    | none => simp [hm] at hdupj
    | some own => rfl

/-- **`drm_setup_crtcs` in any state of a run**: it follows a null pointer exactly where `DmtNull`
says, and no `BUG_ON` is reached. Otherwise every enabled connector that has modes is given one of
them and no other connector is given any; the assignment is one that the hardware allows, and if no
allocation of the search fails one of the highest score. It fails exactly where the assignment
overruns the array of a mode set; else the mode sets show it. -/
theorem setupCrtcs_shows {crtcCount maxConnCount numConnector : Nat}
    {connectorInfo : Nat → FbConnector} {ops : List FbOp}
    (hrun : ops.foldlM FbHelper.step
      (FbHelper.init crtcCount maxConnCount numConnector connectorInfo) = .ok helper)
    (env : SetupEnv) (width height : Int) (hmem : env.kcalloc = true) :
    setupCrtcs helper env width height ≠ .error .bug ∧
      (setupCrtcs helper env width height = .error .nullMode ↔ DmtNull helper env) ∧
      (¬ DmtNull helper env → ∃ v crtcs, setupModes helper env width height = .ok v ∧
        Chosen helper.connectorInfo helper.connectorCount (enableConnectors helper) v ∧
        Found helper.connectorCount (enableConnectors helper) v ∧
        Sound (helper.chose v) v.modes crtcs ∧
        ((∀ pre, env.kzalloc pre = true) → ∀ crtcs', Sound (helper.chose v) v.modes crtcs' →
          crtcsScore (helper.chose v) width height crtcs' ≤
            crtcsScore (helper.chose v) width height crtcs) ∧
        (setupCrtcs helper env width height = .error .overrun ↔
          Overfull (helper.chose v) v.modes crtcs helper.connectorCount) ∧
        ∀ h', setupCrtcs helper env width height = .ok h' → h'.connectorInfo = v.connectorInfo ∧
          ∀ c < helper.crtcCount, Shows h' v.modes crtcs env.dup c) := by
  rcases fbRun_inv ops (fbInit_inv crtcCount maxConnCount numConnector connectorInfo) with
    ⟨g, hg, hinv⟩ | ⟨e, he, -⟩
  case inr =>
    rw [he] at hrun
    cases hrun
  obtain rfl : g = helper := Except.ok.inj (hg.symm.trans hrun)
  rw [setupCrtcs, if_neg (by simp [hmem])]
  rcases setupModes_cases g env width height with ⟨v, hv, hnull, hchosen, hfound⟩ | ⟨hv, hnull⟩
  case inr =>
    rw [hv]
    exact ⟨by simp [Except.bind], ⟨fun _ => hnull, fun _ => rfl⟩, fun h => absurd hnull h⟩
  rw [hv]
  change setupSets (g.chose v) v.modes env width height ≠ _ ∧
    (setupSets (g.chose v) v.modes env width height = _ ↔ _) ∧ _
  obtain ⟨crtcs, hsound, hbest, ⟨h', hsets, hroom, hcleared⟩ | ⟨hsets, hfull⟩⟩ :=
    setupSets_cases v.modes env width height (hinv.chose v).owned (hinv.chose v).count
  · refine ⟨by simp [hsets], ⟨fun h => by simp [hsets] at h, fun h => absurd h hnull⟩, fun _ =>
      ⟨v, crtcs, rfl, hchosen, hfound, hsound, hbest, ?_, fun h'' hh => ?_⟩⟩
    · exact ⟨fun h => absurd (hsets.symm.trans h) (by simp), fun h => absurd h hroom⟩
    · obtain rfl : h' = h'' := Except.ok.inj (hsets.symm.trans hh)
      exact ⟨hcleared.frame.connectorInfo, fun c hc =>
        hcleared.shows (hsound.frame hcleared.frame) hc⟩
  · refine ⟨by simp [hsets], ⟨fun h => by simp [hsets] at h, fun h => absurd h hnull⟩, fun _ =>
      ⟨v, crtcs, rfl, hchosen, hfound, hsound, hbest, ?_, fun h'' hh => ?_⟩⟩
    · exact ⟨fun _ => hfull, fun _ => hsets⟩
    · exact nomatch (hsets.symm.trans hh)

theorem setupCrtcs_shows_twoHeads :
    ((setupCrtcs twoHeads plentyEnv 2048 2048).map fun h =>
        ((h.crtcInfo 0).connectors, (h.crtcInfo 1).connectors)) = .ok ([1], [0]) ∧
      (∃ v crtcs, Sound (twoHeads.chose v) v.modes crtcs ∧
        ∀ h', setupCrtcs twoHeads plentyEnv 2048 2048 = .ok h' →
          ∀ c < 2, Shows h' v.modes crtcs plentyEnv.dup c) ∧
      DmtNull clonedPair { plentyEnv with dmtMem := false } := by
  refine ⟨by decide, ?_, ?_⟩
  · have hnull : ¬ DmtNull twoHeads plentyEnv := fun h => absurd h.single (by decide)
    obtain ⟨v, crtcs, -, -, -, hsound, -, -, hshows⟩ :=
      (@setupCrtcs_shows twoHeads 2 4 2 (fun i => monitor (if i = 0 then 3 else 1)) [] rfl
        plentyEnv 2048 2048 rfl).2.2 hnull
    exact ⟨v, crtcs, hsound, fun h' hh => (hshows h' hh).2⟩
  · have hclone := @setupCrtcs_shows clonedPair 1 4 2 (fun _ => monitor 1) [] rfl
      { plentyEnv with dmtMem := false } 2048 2048 rfl
    exact hclone.2.1.1 rfl

end Drm
