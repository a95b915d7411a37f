import SolarisXorg.Drm.Proof.Framebuffer

/-!
# The tasks keep the references

One lemma for each task says that its step keeps the invariant. Most tasks replace themselves in the
list of their thread (`FbDevInv.replace`); a framebuffer put on a plane takes over the reference of
its task (`plane_move`), one that loses its id loses a reference and its list (`unregister_spec`),
and a lock changes who may touch the crtcs (`lock_move`). The hard case is
`drm_mode_set_config_internal` (`exec_config`, `exec_account`), which changes all crtcs at once and
their references one by one.
-/

namespace Drm

open Lib

variable {cfg : FbCfg} {s s' : FbDev} {t m : Nat} {task : FbTask} {rest l : List FbTask}
  {ans : FbAnswer}

/-- The step ends in a state that keeps the invariant. -/
def Keeps (cfg : FbCfg) (r : Except FbStop FbDev) : Prop :=
  ∃ s', r = .ok s' ∧ FbDevInv cfg s'

theorem touch_eq (h : s.freed m = false) : s.touch m = .ok () := by
  simp [FbDev.touch, h]

namespace FbDevInv

variable (h : FbDevInv cfg s) (ht : t ∈ cfg.threads)
include h ht

/-- The order of the tasks when the first is no loop over crtcs. -/
theorem order_of (hl : s.tasks t = task :: rest) (hne : ∀ cs, task ≠ .account cs) :
    TaskOrder s.fbdev (decide (s.configMutex = some t)) (task :: rest) := by
  refine (h.threads t ht).order hl ?_ fun l he => hne [] (by simpa using congrArg List.head? he)
  cases task with
  | account cs => exact absurd rfl (hne cs)
  | _ => rfl

theorem fits_of (hl : s.tasks t = task :: rest) : TaskFits cfg s t task :=
  (h.threads t ht).2 task (by rw [hl]; exact List.mem_cons_self)

theorem alive_task (hl : s.tasks t = task :: rest) (hm : task.holds = some m) :
    s.freed m = false :=
  h.alive (refs_others (others_task ht task (by rw [hl]; exact List.mem_cons_self) hm))

theorem exec_unref (hl : s.tasks t = .unref m :: rest) :
    Keeps cfg (fbExec cfg s t ans rest (.unref m)) := by
  have hpos := h.pos (refs_others
    (others_task ht (.unref m) (by rw [hl]; exact List.mem_cons_self) rfl))
  have horder := h.order_of ht hl (by simp)
  rw [fbExec, put_eq (h.counted.alive hpos)]
  refine ⟨_, rfl, h.replace ht hl rfl [] (fun _ => rfl) (fun i => ?_) (fun i hlt => ?_)
    (h.counted.put hpos) horder (by simp)⟩
  · dsimp only [FbTask.holds]
    rw [Function.update_apply]
    by_cases him : i = m
    · subst him
      simp only [if_true, holders, List.countP_nil]
      omega
    · simp [him, Ne.symm him, holders]
  · dsimp only at hlt
    rw [Function.update_apply] at hlt
    split at hlt
    next heq =>
      subst heq
      omega
    next => omega

theorem exec_use (hl : s.tasks t = .use m :: rest) :
    Keeps cfg (fbExec cfg s t ans rest (.use m)) := by
  obtain ⟨hheld, hrest⟩ := h.order_of ht hl (by simp)
  rw [fbExec, touch_eq (h.alive_task ht hl rfl)]
  refine ⟨_, rfl, h.replace_same ht hl rfl [.unref m] (fun _ => rfl) (fun i => ?_) ?_
    (by simp [TaskFits])⟩
  · simp [holders, FbTask.holds]
  · rw [hheld]
    exact hrest

theorem exec_remove (hl : s.tasks t = .remove m :: rest) :
    Keeps cfg (fbExec cfg s t ans rest (.remove m)) := by
  obtain ⟨hheld, hno, hrest⟩ := h.order_of ht hl (by simp)
  rw [fbExec, touch_eq (h.alive_task ht hl rfl)]
  by_cases hone : 1 < s.refcount m
  · refine ⟨_, if_pos hone, h.replace_same ht hl rfl
      [.lockAll, .offCrtcs m cfg.crtcs, .offPlanes m cfg.planes, .unlockAll, .unref m]
      (fun _ => rfl) (fun i => ?_) ?_ ?_⟩
    · simp [holders, FbTask.holds]
    · rw [hheld]
      exact ⟨rfl, rfl, rfl, by simp, rfl, hno.cons rfl, hrest⟩
    · simp [TaskFits]
  · refine ⟨_, if_neg hone, h.replace_same ht hl rfl [.unref m] (fun _ => rfl) (fun i => ?_) ?_
      (by simp [TaskFits])⟩
    · simp [holders, FbTask.holds]
    · rw [hheld]
      exact hrest

theorem exec_offCrtcs {cs : List Nat} (hl : s.tasks t = .offCrtcs m cs :: rest) :
    Keeps cfg (fbExec cfg s t ans rest (.offCrtcs m cs)) := by
  obtain ⟨hheld, hrest⟩ := h.order_of ht hl (by simp)
  have hfits := h.fits_of ht hl
  cases cs with
  | nil =>
    refine ⟨_, rfl, h.replace_same ht hl rfl [] (fun _ => rfl) (fun _ => rfl) ?_ (by simp)⟩
    rw [hheld]
    exact hrest
  | cons c cs =>
    have hcs : ∀ d ∈ cs, d ∈ cfg.crtcs := fun d hd => hfits d (List.mem_cons_of_mem c hd)
    by_cases hc : s.crtcFb c = some m
    · refine ⟨_, if_pos hc, h.replace_same ht hl rfl [.config c none, .offCrtcs m cs]
        (fun _ => rfl) (fun _ => rfl) ?_ ?_⟩
      · rw [hheld]
        exact ⟨rfl, by simp, rfl, hrest⟩
      · simp only [List.mem_cons, List.not_mem_nil, or_false, forall_eq_or_imp, forall_eq]
        exact ⟨hfits c List.mem_cons_self, hcs⟩
    · refine ⟨_, if_neg hc, h.replace_same ht hl rfl [.offCrtcs m cs] (fun _ => rfl)
        (fun _ => rfl) ?_ ?_⟩
      · rw [hheld]
        exact ⟨rfl, hrest⟩
      · simp only [List.mem_singleton, forall_eq]
        exact hcs

theorem exec_restoreCrtcs {cs : List Nat} {lit : Nat → Bool}
    (hl : s.tasks t = .restoreCrtcs cs lit :: rest) :
    Keeps cfg (fbExec cfg s t ans rest (.restoreCrtcs cs lit)) := by
  obtain ⟨hheld, hrest⟩ := h.order_of ht hl (by simp)
  have hfits := h.fits_of ht hl
  cases cs with
  | nil =>
    refine ⟨_, rfl, h.replace_same ht hl rfl [] (fun _ => rfl) (fun _ => rfl) ?_ (by simp)⟩
    rw [hheld]
    exact hrest
  | cons c cs =>
    refine ⟨_, rfl, h.replace_same ht hl rfl
      [.config c (if lit c then s.fbdev else none), .restoreCrtcs cs lit] (fun _ => rfl)
      (fun _ => rfl) ?_ ?_⟩
    · rw [hheld]
      refine ⟨rfl, fun m hm => .inr ?_, rfl, hrest⟩
      split at hm
      · exact hm
      · cases hm
    · simp only [List.mem_cons, List.not_mem_nil, or_false, forall_eq_or_imp, forall_eq]
      exact ⟨hfits c List.mem_cons_self, fun d hd => hfits d (List.mem_cons_of_mem c hd)⟩

omit h ht in
/-- The tasks of `drm_mode_setcrtc` when it has its reference. -/
theorem setCrtcTail_order {c : Nat} {fb : Option Nat} (hheld : s.configMutex = some t) :
    TaskOrder s.fbdev (decide (s.configMutex = some t)) (setCrtcTail c ans.ok fb ++ []) := by
  rw [decide_eq_true hheld]
  cases fb <;> rw [setCrtcTail] <;> split
  · exact ⟨rfl, by simp, rfl, noCrtc_nil, rfl⟩
  · exact ⟨rfl, noCrtc_nil, rfl⟩
  · exact ⟨rfl, by simp, rfl, noCrtc_nil, rfl⟩
  · exact ⟨rfl, noCrtc_nil, rfl⟩

omit h ht in
theorem setCrtcTail_holds (c : Nat) (ok : Bool) (fb : Option Nat) (i : Nat) :
    holders FbTask.holds (setCrtcTail c ok fb) i = if fb = some i then 1 else 0 := by
  cases fb <;> rw [setCrtcTail] <;> split <;> simp [holders, FbTask.holds, List.countP_cons]

omit h ht in
theorem setCrtcTail_lists (c : Nat) (ok : Bool) (fb : Option Nat) (i : Nat) :
    holders FbTask.lists (setCrtcTail c ok fb) i = 0 := by
  cases fb <;> rw [setCrtcTail] <;> split <;> rfl

omit h ht in
theorem setCrtcTail_fits {c : Nat} {ok : Bool} {fb : Option Nat} (hc : c ∈ cfg.crtcs) :
    ∀ task ∈ setCrtcTail c ok fb, TaskFits cfg s t task := by
  cases fb <;> rw [setCrtcTail] <;> split <;> simp [TaskFits, hc]

omit h ht in
/-- While the thread has the locks and is not in the loop, the crtcs have their references. -/
theorem pending_nil (hheld : s.configMutex = some t) (hacc : accountOf (s.tasks t) = []) :
    s.pending = [] := by
  rw [FbDev.pending, hheld]
  exact hacc

theorem exec_setCrtc {c : Nat} {req : CrtcReq} (hl : s.tasks t = .setCrtc c req :: rest) :
    Keeps cfg (fbExec cfg s t ans rest (.setCrtc c req)) := by
  obtain ⟨hheld, rfl⟩ := h.order_of ht hl (by simp)
  have hown : s.configMutex = some t := of_decide_eq_true hheld
  have hc : c ∈ cfg.crtcs := h.fits_of ht hl
  have hunlock : FbDevInv cfg (s.next t [.unlockAll]) := by
    refine h.replace_same ht hl rfl [.unlockAll] (fun _ => rfl) (fun _ => rfl) ?_
      (by simp [TaskFits])
    rw [hheld]
    exact ⟨rfl, noCrtc_nil, rfl⟩
  -- with a reference more for the framebuffer that is asked for
  have hget (m : Nat) (hknown : s.idr m = true ∨ 0 < s.others cfg m) :
      ∃ s', s.get m = .ok s' ∧ FbDevInv cfg (s'.next t (setCrtcTail c ans.ok (some m) ++ [])) :=
    h.replace_get ht hl rfl _ (setCrtcTail_lists c ans.ok _) hknown rfl
      (fun i => by rw [setCrtcTail_holds]; simp) (setCrtcTail_order hown) (setCrtcTail_fits hc)
  cases req with
  | off =>
    exact ⟨_, rfl, h.replace_same ht hl rfl _ (setCrtcTail_lists c ans.ok none)
      (setCrtcTail_holds c ans.ok none) (setCrtcTail_order hown) (setCrtcTail_fits hc)⟩
  | keep =>
    rw [fbExec]
    cases hfb : s.crtcFb c with
    | none => exact ⟨_, rfl, hunlock⟩
    | some m =>
      have hshown : s.shown c = some m := by
        rw [FbDev.shown, pending_nil hown (by rw [hl]; rfl), if_neg (by simp), hfb]
      obtain ⟨s', hs', hinv⟩ := hget m (.inr (others_shown hc hshown))
      exact ⟨_, by simp only [hs']; rfl, hinv⟩
  | fb m =>
    rw [fbExec]
    by_cases hidr : s.idr m = true
    · obtain ⟨s', hs', hinv⟩ := hget m (.inl hidr)
      exact ⟨_, by simp only [hidr, if_true, hs']; rfl, hinv⟩
    · exact ⟨_, by simp only [hidr]; rfl, hunlock⟩

/-! ## Planes -/

/-- **A plane changes hands**: what it showed and what it shows now are accounted for. -/
theorem plane_move {p : Nat} (hp : p ∈ cfg.planes) (hold : accountOf (s.tasks t) = [])
    (hlists : ∀ m, holders FbTask.lists l m = holders FbTask.lists (s.tasks t) m)
    {new : Option Nat} {refcount : Nat → Nat}
    (hcount : ∀ m, refcount m + s.taskRefs m t + (if s.planeFb p = some m then 1 else 0) =
      s.refcount m + holders FbTask.holds l m + if new = some m then 1 else 0)
    (hget : ∀ m, refcount m ≠ s.refcount m → s.idr m = true ∨ 0 < s.others cfg m)
    (hcounted : RefCounted { s with refcount := refcount })
    (horder : TaskOrder s.fbdev (decide (s.configMutex = some t)) l)
    (hfits : ∀ task ∈ l, TaskFits cfg s t task) :
    FbDevInv cfg { s.next t l with
      refcount := refcount
      planeFb := Function.update s.planeFb p new } := by
  have ha : Apart s { s.next t l with
      refcount := refcount
      planeFb := Function.update s.planeFb p new } t :=
    apart_next s t l refcount s.freed s.idr s.made s.fbs _
  generalize hs : ({ s.next t l with
      refcount := refcount
      planeFb := Function.update s.planeFb p new } : FbDev) = s' at ha
  have htasks : s'.tasks t = l := by
    rw [← hs]
    exact next_tasks s t l
  have hplane : s'.planeFb = Function.update s.planeFb p new := by rw [← hs]
  have hsame : s'.refcount = refcount := by rw [← hs]
  have hshown : s'.shown = s.shown :=
    shown_congr (ha.pending hold (by rw [htasks, horder.accountOf])) (by rw [← hs]; rfl)
      (by rw [← hs]; rfl)
  refine h.of_same_lists ha ht ?_ (by rw [← hs]; rfl) (by rw [← hs]; rfl)
    (by rw [htasks]; exact hlists) (fun m => ?_) (by rw [hsame]; exact hget)
    (threadOk_of_order htasks ?_ ?_) ?_ ?_ ?_
  · exact hs ▸ ⟨hcounted.freed, hcounted.fresh⟩
  · have htally := ha.taskRefs ht m
    have hm := hcount m
    have hnewRefs : s'.taskRefs m t = holders FbTask.holds l m := by rw [FbDev.taskRefs, htasks]
    have hmove := holders_of_eq_off (f := s.planeFb) (g := s'.planeFb) cfg.nodupPlanes hp
      (fun q _ hq => by rw [hplane, Function.update_of_ne hq]) m
    have hat : s'.planeFb p = new := by rw [hplane, Function.update_self]
    have hfbdev : s'.fbdev = s.fbdev := by rw [← hs]; rfl
    rw [hat] at hmove
    rw [FbDev.others, FbDev.others, hshown, hfbdev, hsame]
    omega
  · exact hs ▸ horder
  · exact hs ▸ hfits
  · exact hs ▸ fun hown => (h.owner t hown).2
  · exact hs ▸ h.crtcs
  · intro q hq
    have hqp : q ≠ p := fun he => hq (he ▸ hp)
    rw [hplane, Function.update_of_ne hqp]
    exact h.planes q hq

omit h ht in
theorem unrefOld_holds (old : Option Nat) (i : Nat) :
    holders FbTask.holds (unrefOld old ++ rest) i =
      (if old = some i then 1 else 0) + holders FbTask.holds rest i := by
  cases old with
  | none => simp [unrefOld]
  | some m =>
    simp only [unrefOld, Option.toList_some, List.map_cons, List.map_nil, List.cons_append,
      List.nil_append, holders_cons, FbTask.holds, Option.some.injEq]
    omega

omit h ht in
theorem unrefOld_lists (old : Option Nat) (i : Nat) :
    holders FbTask.lists (unrefOld old ++ rest) i = holders FbTask.lists rest i := by
  cases old with
  | none => rfl
  | some m => simp [unrefOld, holders_cons, FbTask.lists]

omit h ht in
theorem unrefOld_fits (old : Option Nat) : ∀ task ∈ unrefOld old, TaskFits cfg s t task := by
  cases old <;> simp [unrefOld, TaskFits]

theorem exec_setPlane {p : Nat} (hl : s.tasks t = .setPlane p m :: rest)
    (hwait : fbExec cfg s t ans rest (.setPlane p m) ≠ .error .blocked) :
    Keeps cfg (fbExec cfg s t ans rest (.setPlane p m)) := by
  obtain ⟨hheld, hrest⟩ := h.order_of ht hl (by simp)
  rw [fbExec, touch_eq (h.alive_task ht hl rfl)] at hwait ⊢
  by_cases hok : ans.ok = true
  case neg =>
    refine ⟨_, if_neg hok, h.replace_same ht hl rfl [.unref m] (fun _ => rfl) (fun i => ?_) ?_
      (by simp [TaskFits])⟩
    · simp [holders, FbTask.holds]
    · rw [hheld]
      exact hrest
  by_cases hfree : s.unlocked cfg = true
  case neg => exact absurd ((if_pos hok).trans (if_neg hfree)) hwait
  refine ⟨_, (if_pos hok).trans (if_pos hfree), h.plane_move ht (h.fits_of ht hl)
    (by rw [hl]; rfl) (fun i => ?_) (fun i => ?_) (fun i hne => absurd rfl hne) h.counted ?_
    fun task htask => ?_⟩
  · rw [unrefOld_lists, hl, holders_cons]
    simp [FbTask.lists]
  · have hsame : (s.next t (unrefOld (s.planeFb p) ++ rest)).refcount = s.refcount := rfl
    rw [FbDev.taskRefs, hl, holders_cons, unrefOld_holds, hsame]
    simp only [FbTask.holds, Option.some.injEq]
    omega
  · rw [hheld]
    exact hrest.unrefOld _
  · rcases List.mem_append.1 htask with hmem | hmem
    · exact unrefOld_fits _ task hmem
    · exact (h.threads t ht).2 task (by rw [hl]; exact List.mem_cons_of_mem _ hmem)

/-- A plane is turned off by a caller with another reference. -/
theorem plane_off {p : Nat} {task : FbTask} (new : FbTask) (hl : s.tasks t = task :: rest)
    (hacc : accountOf (task :: rest) = []) (htask : task.holds = none) (hnew : new.holds = none)
    (hlists : new.lists = task.lists) (hp : s.planeFb p = some m) (hm : 1 < s.refcount m)
    (horder : TaskOrder s.fbdev (decide (s.configMutex = some t)) (new :: rest))
    (hfits : TaskFits cfg s t new) :
    ∃ s', s.putBug m = .ok s' ∧ FbDevInv cfg
      { s'.next t (new :: rest) with planeFb := Function.update s'.planeFb p none } := by
  have hmem : p ∈ cfg.planes := by
    by_contra hno
    rw [h.planes p hno] at hp
    cases hp
  have hothers := h.others_plane hp
  refine ⟨_, putBug_eq (h.alive (refs_others hothers)) (by omega) (by omega), ?_⟩
  refine h.plane_move ht hmem (by rw [hl, hacc]) (fun i => ?_) (fun i => ?_) (fun i hne => ?_)
    (h.counted.putBug hm) horder fun task' htask' => ?_
  · rw [hl, holders_cons, holders_cons, hlists]
  · rw [FbDev.taskRefs, hl, holders_cons, holders_cons, htask, hnew, hp]
    dsimp only [FbDev.next]
    rw [Function.update_apply]
    by_cases him : i = m
    · subst him
      simp only [if_true, reduceCtorEq, if_false]
      omega
    · simp [him, Ne.symm him]
  · by_cases him : i = m
    · exact him ▸ .inr hothers
    · exact absurd (Function.update_of_ne him _ _) hne
  · rcases List.mem_cons.1 htask' with rfl | hmem'
    · exact hfits
    · exact (h.threads t ht).2 task' (by rw [hl]; exact List.mem_cons_of_mem _ hmem')

theorem exec_offPlanes {ps : List Nat} (hl : s.tasks t = .offPlanes m ps :: rest) :
    Keeps cfg (fbExec cfg s t ans rest (.offPlanes m ps)) := by
  obtain ⟨hheld, hunref, hrest⟩ := h.order_of ht hl (by simp)
  cases ps with
  | nil =>
    refine ⟨_, rfl, h.replace_same ht hl rfl [] (fun _ => rfl) (fun _ => rfl) ?_ (by simp)⟩
    rw [hheld]
    exact hrest
  | cons p ps =>
    rw [fbExec]
    by_cases hp : s.planeFb p = some m
    · -- the caller's own reference and that of the plane
      have htwo : 1 < s.refcount m := by
        have hmem : p ∈ cfg.planes := by
          by_contra hno
          rw [h.planes p hno] at hp
          cases hp
        have hplane : 0 < holders s.planeFb cfg.planes m := holders_pos_iff.2 ⟨p, hmem, hp⟩
        have htask : 0 < s.taskRefs m t :=
          taskRefs_pos (.unref m) (by rw [hl]; exact List.mem_cons_of_mem _ hunref) rfl
        have hle := le_tally (a := s.taskRefs m) ht
        rw [h.count, FbDev.refs, FbDev.others]
        omega
      obtain ⟨s', hs', hinv⟩ := h.plane_off ht (.offPlanes m ps) hl rfl rfl rfl rfl hp
        htwo (by rw [hheld]; exact ⟨rfl, hunref, hrest⟩) trivial
      exact ⟨_, by rw [if_pos hp, hs']; rfl, hinv⟩
    · refine ⟨_, if_neg hp, h.replace_same ht hl rfl [.offPlanes m ps] (fun _ => rfl)
        (fun _ => rfl) ?_ (by simp [TaskFits])⟩
      rw [hheld]
      exact ⟨rfl, hunref, hrest⟩

theorem exec_disablePlanes {ps : List Nat} (hl : s.tasks t = .disablePlanes ps :: rest)
    (ans : FbAnswer) :
    Keeps cfg (fbExec cfg s t ans rest (.disablePlanes ps)) ∨
      (fbExec cfg s t ans rest (.disablePlanes ps) = .error .bug ∧
        ∃ p ps' m, ps = p :: ps' ∧ s.planeFb p = some m ∧ s.refcount m = 1) := by
  obtain ⟨hheld, hrest⟩ := h.order_of ht hl (by simp)
  cases ps with
  | nil =>
    refine .inl ⟨_, rfl, h.replace_same ht hl rfl [] (fun _ => rfl) (fun _ => rfl) ?_ (by simp)⟩
    rw [hheld]
    exact hrest
  | cons p ps =>
    rw [fbExec]
    cases hp : s.planeFb p with
    | none =>
      refine .inl ⟨_, rfl, h.replace_same ht hl rfl [.disablePlanes ps] (fun _ => rfl)
        (fun _ => rfl) ?_ (by simp [TaskFits])⟩
      rw [hheld]
      exact ⟨rfl, hrest⟩
    | some m =>
      have hpos := h.pos (refs_others (h.others_plane hp))
      by_cases hone : s.refcount m = 1
      · exact .inr ⟨by simp only [putBug_bug (h.counted.alive hpos) hone]; rfl, p, ps, m, rfl, hp,
          hone⟩
      · obtain ⟨s', hs', hinv⟩ := h.plane_off ht (.disablePlanes ps) hl rfl rfl rfl rfl
          hp (by omega) (by rw [hheld]; exact ⟨rfl, hrest⟩) trivial
        exact .inl ⟨_, by simp only [hs']; rfl, hinv⟩

/-! ## Lists -/

theorem exec_list {f : Nat} (hl : s.tasks t = .list f m :: rest) :
    Keeps cfg (fbExec cfg s t ans rest (.list f m)) := by
  obtain ⟨hheld, hrest⟩ := h.order_of ht hl (by simp)
  have hf : f ∈ cfg.files := h.fits_of ht hl
  have hpos : 0 < s.lists cfg m := by
    have hle := le_tally (a := fun t => holders FbTask.lists (s.tasks t) m) ht
    have hown : 0 < holders FbTask.lists (s.tasks t) m :=
      holders_pos_iff.2 ⟨.list f m, by rw [hl]; exact List.mem_cons_self, rfl⟩
    rw [FbDev.lists]
    omega
  have halive : s.freed m = false := h.alive (by rw [FbDev.refs]; omega)
  rw [fbExec, touch_eq halive]
  refine ⟨_, rfl, ?_⟩
  have ha : Apart s { s.next t rest with fbs := Function.update s.fbs f (m :: s.fbs f) } t :=
    apart_next s t rest s.refcount s.freed s.idr s.made _ s.planeFb
  generalize hs : ({ s.next t rest with fbs := Function.update s.fbs f (m :: s.fbs f) } : FbDev) =
    s' at ha
  have htasks : s'.tasks t = rest := by
    rw [← hs]
    exact next_tasks s t rest
  have hfbs : s'.fbs = Function.update s.fbs f (m :: s.fbs f) := by rw [← hs]
  have hidr : s'.idr = s.idr := by rw [← hs]; rfl
  have hcountSame : s'.refcount = s.refcount := by rw [← hs]; rfl
  have hshown : s'.shown = s.shown :=
    shown_congr (ha.pending (by rw [hl]; rfl) (by rw [htasks, hrest.accountOf]))
      (by rw [← hs]; rfl) (by rw [← hs]; rfl)
  -- the framebuffer leaves the tasks and enters the list
  have hlists (i : Nat) : s'.lists cfg i = s.lists cfg i := by
    have hmove := tally_of_eq_off (a := fun f => (s.fbs f).count i)
      (b := fun f => (s'.fbs f).count i) cfg.nodupFiles hf
      fun g _ hg => by rw [hfbs, Function.update_of_ne hg]
    have hap := ha.lists ht i
    rw [htasks, hl, holders_cons] at hap
    simp only [hfbs, Function.update_self, List.count_cons, beq_iff_eq] at hmove
    simp only [FbTask.lists, Option.some.injEq, hfbs] at hap
    omega
  have hothers (i : Nat) : s'.others cfg i = s.others cfg i := by
    have hof := others_of ha ht hshown (by rw [← hs]; rfl) (by rw [← hs]; rfl) i
    rw [FbDev.taskRefs, FbDev.taskRefs, htasks, hl, holders_cons] at hof
    simp only [FbTask.holds, reduceCtorEq, if_false] at hof
    omega
  refine h.of_apart ha ht ?_ (fun i => ?_) (threadOk_of_order htasks ?_ ?_) ?_ ?_ ?_ ?_
    (fun i => by rw [hlists]; exact h.once i) (fun i hi => ?_) fun i hi => ?_
  · exact hs ▸ ⟨h.freed, h.fresh⟩
  · rw [FbDev.refs, hidr, hlists, hothers, hcountSame]
    exact h.count i
  · rw [← hheld] at hrest
    exact hs ▸ hrest
  · exact hs ▸ fun task htask => (h.threads t ht).2 task (by rw [hl]; exact .tail _ htask)
  · exact hs ▸ fun hown => (h.owner t hown).2
  · intro g hg
    have hgf : g ≠ f := fun he => hg (he ▸ hf)
    rw [hfbs, Function.update_of_ne hgf]
    exact h.files g hg
  · exact hs ▸ h.crtcs
  · exact hs ▸ h.planes
  · rw [hidr] at hi
    rw [hlists]
    exact (h.registered i hi).imp_right (ha.fbdev i)
  · rw [hlists] at hi
    rw [hidr, hcountSame]
    exact h.published i hi

/-- **`__drm_framebuffer_unregister`** of a framebuffer in the list of a file, which it leaves; the
reference of the list goes to the caller. -/
theorem unregister_spec {f : Nat} (l' : List Nat) (hm : m ∈ s.fbs f)
    (hl' : ∀ i, (s.fbs f).count i = l'.count i + if m = i then 1 else 0)
    (hidr : s.idr m = true) (hold : accountOf (s.tasks t) = [])
    (hlists : ∀ i, holders FbTask.lists l i = holders FbTask.lists (s.tasks t) i)
    (hcount : ∀ i, holders FbTask.holds l i = s.taskRefs i t + if m = i then 1 else 0)
    (horder : TaskOrder s.fbdev (decide (s.configMutex = some t)) l)
    (hfits : ∀ task ∈ l, TaskFits cfg s t task) :
    ∃ s', s.unregister m = .ok s' ∧
      FbDevInv cfg { s'.next t l with fbs := Function.update s'.fbs f l' } := by
  obtain ⟨hf, hpos⟩ := h.lists_file hm
  have htwo : 1 < s.refcount m := by
    rw [h.count, FbDev.refs, if_pos hidr]
    omega
  have halive := h.counted.alive (m := m) (by omega)
  have hun : s.unregister m = .ok { s with
      idr := Function.update s.idr m false
      refcount := Function.update s.refcount m (s.refcount m - 1) } :=
    putBug_eq (s := { s with idr := Function.update s.idr m false }) halive (Nat.ne_of_gt htwo)
      (Nat.lt_of_succ_lt htwo)
  refine ⟨_, hun, ?_⟩
  have ha : Apart s { s.next t l with
      refcount := Function.update s.refcount m (s.refcount m - 1)
      idr := Function.update s.idr m false
      fbs := Function.update s.fbs f l' } t :=
    apart_next s t l _ s.freed _ s.made _ s.planeFb
  change FbDevInv cfg { s.next t l with
      refcount := Function.update s.refcount m (s.refcount m - 1)
      idr := Function.update s.idr m false
      fbs := Function.update s.fbs f l' }
  generalize hs : ({ s.next t l with
      refcount := Function.update s.refcount m (s.refcount m - 1)
      idr := Function.update s.idr m false
      fbs := Function.update s.fbs f l' } : FbDev) = s' at ha
  have htasks : s'.tasks t = l := by
    rw [← hs]
    exact next_tasks s t l
  have hfbs : s'.fbs = Function.update s.fbs f l' := by rw [← hs]
  have hidr' : s'.idr = Function.update s.idr m false := by rw [← hs]
  have href : s'.refcount = Function.update s.refcount m (s.refcount m - 1) := by rw [← hs]
  have hshown : s'.shown = s.shown :=
    shown_congr (ha.pending hold (by rw [htasks, horder.accountOf]))
      (by rw [← hs]; rfl) (by rw [← hs]; rfl)
  have hlists' (i : Nat) : s'.lists cfg i + (if m = i then 1 else 0) = s.lists cfg i := by
    have hmove := tally_of_eq_off (a := fun f => (s.fbs f).count i)
      (b := fun f => (s'.fbs f).count i) cfg.nodupFiles hf
      fun g _ hg => by rw [hfbs, Function.update_of_ne hg]
    have hap := ha.lists ht i
    have hi := hl' i
    rw [htasks, hlists i] at hap
    simp only [hfbs, Function.update_self] at hmove
    simp only [hfbs] at hap
    omega
  have hothers (i : Nat) : s'.others cfg i = s.others cfg i + if m = i then 1 else 0 := by
    have hof := others_of ha ht hshown (by rw [← hs]; rfl) (by rw [← hs]; rfl) i
    have hi := hcount i
    have hnewRefs : s'.taskRefs i t = holders FbTask.holds l i := by rw [FbDev.taskRefs, htasks]
    omega
  have hzero : s'.lists cfg m = 0 := by
    have hm := hlists' m
    have honce := h.once m
    rw [if_pos rfl] at hm
    omega
  refine h.of_apart ha ht ?_ (fun i => ?_) (threadOk_of_order htasks ?_ ?_) ?_ ?_ ?_ ?_
    (fun i => ?_) (fun i hi => ?_) fun i hi => ?_
  · have hc := h.counted.putBug htwo
    exact hs ▸ ⟨hc.freed, hc.fresh⟩
  · have hi := hlists' i
    have hcur := h.count i
    rw [FbDev.refs] at hcur ⊢
    rw [hothers, hidr', href, Function.update_apply, Function.update_apply]
    by_cases him : i = m
    · subst him
      simp only [if_true, Bool.false_eq_true, if_false, hidr] at hi hcur ⊢
      omega
    · simp only [him, Ne.symm him, if_false] at hi ⊢
      omega
  · exact hs ▸ horder
  · exact hs ▸ hfits
  · exact hs ▸ fun hown => (h.owner t hown).2
  · intro g hg
    have hgf : g ≠ f := fun he => hg (he ▸ hf)
    rw [hfbs, Function.update_of_ne hgf]
    exact h.files g hg
  · exact hs ▸ h.crtcs
  · exact hs ▸ h.planes
  · have hi := hlists' i
    have honce := h.once i
    omega
  · rw [hidr', Function.update_apply] at hi
    split at hi
    · cases hi
    next him =>
      have hli := hlists' i
      rw [if_neg (Ne.symm him)] at hli
      rcases h.registered i hi with hpos' | hfb
      · exact .inl (by omega)
      · exact .inr (ha.fbdev i hfb)
  · by_cases him : i = m
    · subst him
      omega
    · have hli := hlists' i
      rw [if_neg (Ne.symm him)] at hli
      rw [hidr', href, Function.update_of_ne him, Function.update_of_ne him]
      exact h.published i (by omega)

theorem exec_release {f : Nat} (hl : s.tasks t = .release f :: rest) (ans : FbAnswer) :
    Keeps cfg (fbExec cfg s t ans rest (.release f)) ∨
      (fbExec cfg s t ans rest (.release f) = .error .bug ∧
        ∃ m l, s.fbs f = m :: l ∧ s.idr m = false) := by
  obtain ⟨hheld, hno, hrest⟩ := h.order_of ht hl (by simp)
  rw [fbExec]
  cases hfbs : s.fbs f with
  | nil =>
    refine .inl ⟨_, rfl, h.replace_same ht hl rfl [] (fun _ => rfl) (fun _ => rfl) ?_ (by simp)⟩
    rw [hheld]
    exact hrest
  | cons m l =>
    have hm : m ∈ s.fbs f := by rw [hfbs]; exact List.mem_cons_self
    cases hidr : s.idr m with
    | false =>
      -- the list has the only reference, and none is left for the id
      obtain ⟨-, hpos⟩ := h.lists_file hm
      have hone : s.refcount m = 1 := by
        rcases h.published m hpos with hid | hone
        · rw [hidr] at hid
          cases hid
        · exact hone
      have hbug : s.unregister m = .error .bug :=
        putBug_bug (s := { s with idr := Function.update s.idr m false })
          (h.counted.alive (m := m) (by omega)) hone
      exact .inr ⟨by simp only [hbug]; rfl, m, l, rfl, hidr⟩
    | true =>
      obtain ⟨s', hs', hinv⟩ := h.unregister_spec ht (l := .remove m :: .release f :: rest) l hm
        (fun i => by rw [hfbs, List.count_cons]; simp) hidr (by rw [hl]; rfl)
        (fun i => by rw [hl, holders_cons]; rfl)
        (fun i => by
          rw [holders_cons, FbDev.taskRefs, hl]
          simp only [FbTask.holds, Option.some.injEq])
        (by rw [hheld]; exact ⟨rfl, hno.cons rfl, rfl, hno, hrest⟩)
        (by
          simp only [List.mem_cons, forall_eq_or_imp]
          exact ⟨trivial, trivial, fun task htask =>
            (h.threads t ht).2 task (by rw [hl]; exact .tail _ htask)⟩)
      exact .inl ⟨_, by simp only [hs']; rfl, hinv⟩

/-! ## Locks -/

/-- A step that takes or drops mutexes and changes no reference. -/
theorem lock_move {configMutex : Option Nat} {crtcMutex : Nat → Option Nat}
    (hl : s.tasks t = task :: rest) (hacc : accountOf (task :: rest) = [])
    (hholds : task.holds = none) (hlists : task.lists = none)
    (hconfig : ∀ u, u ≠ t → (configMutex = some u ↔ s.configMutex = some u))
    (hcrtc : ∀ u, u ≠ t → ∀ c, s.crtcMutex c = some u → crtcMutex c = some u)
    (howner : configMutex = some t → ∀ c ∈ cfg.crtcs, crtcMutex c = some t)
    (horder : TaskOrder s.fbdev (decide (configMutex = some t)) rest)
    (hfits : ∀ task ∈ rest, TaskFits cfg { s with crtcMutex := crtcMutex } t task) :
    FbDevInv cfg { s.next t rest with configMutex := configMutex, crtcMutex := crtcMutex } := by
  have ha : Apart s { s.next t rest with configMutex := configMutex, crtcMutex := crtcMutex } t :=
    ⟨fun _ hu => Function.update_of_ne hu _ _, hconfig, hcrtc, fun _ h => h,
      fun _ _ _ _ _ => ⟨rfl, rfl⟩⟩
  generalize hs : ({ s.next t rest with configMutex := configMutex, crtcMutex := crtcMutex } :
    FbDev) = s' at ha
  have htasks : s'.tasks t = rest := by
    rw [← hs]
    exact next_tasks s t rest
  have hshown : s'.shown = s.shown :=
    shown_congr (ha.pending (by rw [hl, hacc]) (by rw [htasks, horder.accountOf]))
      (by rw [← hs]; rfl) (by rw [← hs]; rfl)
  have hothers (i : Nat) : s'.others cfg i = s.others cfg i := by
    have hof := others_of ha ht hshown (by rw [← hs]; rfl) (by rw [← hs]; rfl) i
    rw [FbDev.taskRefs, FbDev.taskRefs, htasks, hl, holders_cons, hholds] at hof
    simp only [reduceCtorEq, if_false] at hof
    omega
  have href : s'.refcount = s.refcount := by rw [← hs]; rfl
  refine h.of_same_lists ha ht ?_ (by rw [← hs]; rfl) (by rw [← hs]; rfl) (fun i => ?_)
    (fun i => by rw [hothers, href]) (fun i hne => absurd (by rw [href]) hne)
    (threadOk_of_order htasks ?_ ?_) ?_ ?_ ?_
  · exact hs ▸ ⟨h.freed, h.fresh⟩
  · rw [htasks, hl, holders_cons, hlists]
    simp
  · exact hs ▸ horder
  · intro task' htask'
    have hf := hfits task' htask'
    rw [← hs]
    exact hf
  · exact hs ▸ howner
  · exact hs ▸ h.crtcs
  · exact hs ▸ h.planes

theorem exec_lockAll (hl : s.tasks t = .lockAll :: rest)
    (hwait : fbExec cfg s t ans rest .lockAll ≠ .error .blocked) :
    Keeps cfg (fbExec cfg s t ans rest .lockAll) := by
  obtain ⟨hheld, hrest⟩ := h.order_of ht hl (by simp)
  rw [fbExec] at hwait ⊢
  by_cases hfree : s.unlocked cfg = true
  case neg => exact absurd (if_neg hfree) hwait
  have hnone : s.configMutex = none ∧ ∀ c ∈ cfg.crtcs, s.crtcMutex c = none := by
    simpa [FbDev.unlocked] using hfree
  refine ⟨_, if_pos hfree, h.lock_move ht hl rfl rfl rfl (fun u hu => ?_) (fun u hu c hc => ?_)
    (fun _ c hc => if_pos hc) (by rw [decide_eq_true rfl]; exact hrest) fun task htask => ?_⟩
  · rw [hnone.1]
    simp [Ne.symm hu]
  · have hmem : c ∉ cfg.crtcs := fun hmem => by
      rw [hnone.2 c hmem] at hc
      cases hc
    rw [if_neg hmem]
    exact hc
  · have hfits := (h.threads t ht).2 task (by rw [hl]; exact List.mem_cons_of_mem _ htask)
    cases task with
    | flip c m => exact ⟨hfits.1, if_pos hfits.1⟩
    | unlockCrtc c =>
      by_cases hmem : c ∈ cfg.crtcs
      · exact if_pos hmem
      · exact (if_neg hmem).trans hfits
    | _ => exact hfits

theorem exec_unlockAll (hl : s.tasks t = .unlockAll :: rest) :
    Keeps cfg (fbExec cfg s t ans rest .unlockAll) := by
  obtain ⟨hheld, hno, hrest⟩ := h.order_of ht hl (by simp)
  have hown : s.configMutex = some t := of_decide_eq_true hheld
  refine ⟨_, rfl, h.lock_move ht hl rfl rfl rfl (fun u hu => ?_) (fun u hu c hc => ?_)
    (fun hcontra => by cases hcontra) hrest fun task htask => ?_⟩
  · rw [hown]
    simp [Ne.symm hu]
  · have hmem : c ∉ cfg.crtcs := fun hmem => by
      rw [(h.owner t hown).2 c hmem] at hc
      exact hu (Option.some.inj hc).symm
    rw [if_neg hmem]
    exact hc
  · have hfits := (h.threads t ht).2 task (by rw [hl]; exact List.mem_cons_of_mem _ htask)
    have hlock := hno task htask
    cases task with
    | flip c m => cases hlock
    | unlockCrtc c => cases hlock
    | _ => exact hfits

theorem exec_unlockCrtc {c : Nat} (hl : s.tasks t = .unlockCrtc c :: rest) :
    Keeps cfg (fbExec cfg s t ans rest (.unlockCrtc c)) := by
  obtain ⟨hheld, hno, hrest⟩ := h.order_of ht hl (by simp)
  have hmutex : s.crtcMutex c = some t := h.fits_of ht hl
  refine ⟨_, rfl, h.lock_move ht hl rfl rfl rfl (fun u hu => Iff.rfl) (fun u hu d hd => ?_)
    (fun hown => ?_) (by rw [← hheld] at hrest; exact hrest) fun task htask => ?_⟩
  · have hdc : d ≠ c := fun he => by
      rw [he, hmutex] at hd
      exact hu (Option.some.inj hd).symm
    rw [Function.update_of_ne hdc]
    exact hd
  · have hown' : s.configMutex = some t := hown
    rw [decide_eq_true hown'] at hheld
    cases hheld
  · have hfits := (h.threads t ht).2 task (by rw [hl]; exact List.mem_cons_of_mem _ htask)
    have hlock := hno task htask
    cases task with
    | flip c m => cases hlock
    | unlockCrtc c => cases hlock
    | _ => exact hfits

/-! ## Crtcs -/

omit ht in
/-- Others do not wait for references of a crtc whose mutex is taken alone. -/
theorem not_mem_pending {c : Nat} (hc : c ∈ cfg.crtcs) (hmutex : s.crtcMutex c = some t)
    (hheld : s.configMutex ≠ some t) : c ∉ s.pending := by
  intro hmem
  rw [FbDev.pending] at hmem
  cases howner : s.configMutex with
  | none => simp [howner] at hmem
  | some u =>
    have hall := (h.owner u howner).2 c hc
    rw [hmutex] at hall
    exact hheld (howner.trans hall.symm)

theorem exec_config {c : Nat} {fb : Option Nat} (hl : s.tasks t = .config c fb :: rest) :
    Keeps cfg (fbExec cfg s t ans rest (.config c fb)) := by
  obtain ⟨hheld, hfb, hrest⟩ := h.order_of ht hl (by simp)
  have hown : s.configMutex = some t := of_decide_eq_true hheld
  have hc : c ∈ cfg.crtcs := h.fits_of ht hl
  have hpending : s.pending = [] := pending_nil hown (by rw [hl]; rfl)
  rw [fbExec]
  refine ⟨_, rfl, ?_⟩
  have ha : Apart s { s.next t (.account cfg.crtcs :: rest) with
      oldFb := s.crtcFb
      crtcFb := s.afterConfig c fb ans } t :=
    ⟨fun _ hu => Function.update_of_ne hu _ _, fun _ _ => Iff.rfl, fun _ _ _ h => h, fun _ h => h,
      fun u hu hown' => absurd (Option.some.inj (hown'.symm.trans hown)) hu⟩
  generalize hs : ({ s.next t (.account cfg.crtcs :: rest) with
      oldFb := s.crtcFb
      crtcFb := s.afterConfig c fb ans } : FbDev) = s' at ha
  have htasks : s'.tasks t = .account cfg.crtcs :: rest := by
    rw [← hs]
    exact next_tasks s t _
  have hown' : s'.configMutex = some t := by rw [← hs]; exact hown
  have hold : s'.oldFb = s.crtcFb := by rw [← hs]
  have hcrtc : s'.crtcFb = s.afterConfig c fb ans := by rw [← hs]
  have href : s'.refcount = s.refcount := by rw [← hs]; rfl
  -- the crtcs keep the references to what they showed
  have hshown : ∀ d ∈ cfg.crtcs, s'.shown d = s.shown d := fun d hd => by
    have hpending' : s'.pending = cfg.crtcs := by
      simp only [FbDev.pending, hown', htasks, accountOf]
    rw [FbDev.shown, FbDev.shown, hpending', hpending, if_pos hd, if_neg List.not_mem_nil, hold]
  have hothers (i : Nat) : s'.others cfg i = s.others cfg i := by
    have htally := ha.taskRefs ht i
    have hnew : s'.taskRefs i t = s.taskRefs i t := by
      rw [FbDev.taskRefs, FbDev.taskRefs, htasks, hl, holders_cons, holders_cons]
      rfl
    have hplane : s'.planeFb = s.planeFb := by rw [← hs]; rfl
    have hfbdev : s'.fbdev = s.fbdev := by rw [← hs]; rfl
    rw [FbDev.others, FbDev.others, hplane, hfbdev, holders_congr hshown]
    omega
  refine h.of_same_lists ha ht ?_ (by rw [← hs]; rfl) (by rw [← hs]; rfl) (fun i => ?_)
    (fun i => by rw [hothers, href]) (fun i hne => absurd (by rw [href]) hne) ⟨?_, ?_⟩
    ?_ (fun d hd => ?_) ?_
  · exact hs ▸ ⟨h.freed, h.fresh⟩
  · rw [htasks, hl, holders_cons, holders_cons]
    rfl
  · have hfbdev : s'.fbdev = s.fbdev := by rw [← hs]; rfl
    simp only [htasks]
    refine ⟨hown', by rw [hfbdev]; exact hrest, List.suffix_rfl, fun d _ m hm => ?_⟩
    rw [hcrtc, FbDev.afterConfig] at hm
    rw [hold, hfbdev]
    split at hm
    next hans =>
      rcases hans with hnone | ⟨-, heq⟩
      · rw [hnone] at hm
        cases hm
      · exact .inr (hfb m (heq.symm.trans hm))
    next => exact .inl hm
  · intro task htask
    rw [htasks] at htask
    rw [← hs]
    rcases List.mem_cons.1 htask with rfl | hmem
    · exact trivial
    · exact (h.threads t ht).2 task (by rw [hl]; exact List.mem_cons_of_mem _ hmem)
  · exact hs ▸ fun hown => (h.owner t hown).2
  · rw [hcrtc, FbDev.afterConfig]
    split
    next hans =>
      rcases hans with hnone | ⟨rfl, -⟩
      · exact hnone
      · exact absurd hc hd
    next => exact h.crtcs d hd
  · exact hs ▸ h.planes

omit ht in
/-- One reference more, if there is a framebuffer. -/
theorem get_opt (fb : Option Nat) (hknown : ∀ m, fb = some m → 0 < s.refcount m) :
    ∃ refcount, s.getOpt fb = .ok { s with refcount := refcount } ∧
      RefCounted { s with refcount := refcount } ∧
      ∀ i, refcount i = s.refcount i + if fb = some i then 1 else 0 := by
  cases fb with
  | none => exact ⟨s.refcount, rfl, h.counted, by simp⟩
  | some m =>
    have hpos := hknown m rfl
    refine ⟨_, get_eq (h.counted.alive hpos), h.counted.get hpos, fun i => ?_⟩
    rw [Function.update_apply]
    by_cases him : i = m
    · simp [him]
    · simp [him, Ne.symm him]

omit h ht in
/-- One reference less, if there is a framebuffer. -/
theorem put_opt (hc : RefCounted s) (fb : Option Nat) (hknown : ∀ m, fb = some m → 0 < s.refcount m) :
    ∃ refcount freed, s.putOpt fb = .ok { s with refcount := refcount, freed := freed } ∧
      RefCounted { s with refcount := refcount, freed := freed } ∧
      ∀ i, refcount i + (if fb = some i then 1 else 0) = s.refcount i := by
  cases fb with
  | none => exact ⟨s.refcount, s.freed, rfl, hc, by simp⟩
  | some m =>
    have hpos := hknown m rfl
    refine ⟨_, _, put_eq (hc.alive hpos), hc.put hpos, fun i => ?_⟩
    rw [Function.update_apply]
    by_cases him : i = m
    · subst him
      simp only [if_true]
      omega
    · simp [him, Ne.symm him]

theorem exec_account {cs : List Nat} (hl : s.tasks t = .account cs :: rest) :
    Keeps cfg (fbExec cfg s t ans rest (.account cs)) := by
  have hthread := (h.threads t ht).1
  rw [hl] at hthread
  obtain ⟨hown, hrest, hsuffix, hfb⟩ := hthread
  have hfits : ∀ task ∈ rest, TaskFits cfg s t task := fun task htask =>
    (h.threads t ht).2 task (by rw [hl]; exact List.mem_cons_of_mem _ htask)
  cases cs with
  | nil =>
    refine ⟨_, rfl, h.replace_same ht hl rfl [] (fun _ => rfl) (fun _ => rfl) ?_ (by simp)⟩
    rw [decide_eq_true hown]
    exact hrest
  | cons c cs =>
    have hpending : s.pending = c :: cs := by
      simp only [FbDev.pending, hown, hl, accountOf]
    have hc : c ∈ cfg.crtcs := hsuffix.subset List.mem_cons_self
    have hccs : c ∉ cs := (List.nodup_cons.1 (hsuffix.sublist.nodup cfg.nodupCrtcs)).1
    have hshownc : s.shown c = s.oldFb c := by
      rw [FbDev.shown, hpending, if_pos List.mem_cons_self]
    -- the new framebuffer is held by someone, the old one by the crtc
    have hnew : ∀ m, s.crtcFb c = some m → 0 < s.others cfg m := fun m hm => by
      rcases hfb c List.mem_cons_self m hm with hold | hunref | hfbdev
      · exact others_shown hc (hshownc.trans hold)
      · exact others_task ht (.unref m)
          (by rw [hl]; exact List.mem_cons_of_mem _ hunref) rfl
      · exact others_fbdev hfbdev
    have hold : ∀ m, s.oldFb c = some m → 0 < s.others cfg m := fun m hm =>
      others_shown hc (hshownc.trans hm)
    obtain ⟨rc, hget, hcounted, hrc⟩ := h.get_opt (s.crtcFb c)
      fun m hm => h.pos (refs_others (hnew m hm))
    obtain ⟨rc', fr, hput, hcounted', hrc'⟩ := put_opt hcounted (s.oldFb c) fun m hm => by
      have hpos := h.pos (refs_others (hold m hm))
      have hm := hrc m
      dsimp only
      omega
    have hexec : fbExec cfg s t ans rest (.account (c :: cs)) =
        .ok { s.next t (.account cs :: rest) with refcount := rc', freed := fr } := by
      simp only [fbExec, hget]
      dsimp only [bind, Except.bind]
      rw [hput]
      rfl
    refine ⟨_, hexec, ?_⟩
    have ha : Apart s { s.next t (.account cs :: rest) with refcount := rc', freed := fr } t :=
      apart_next s t _ rc' fr s.idr s.made s.fbs s.planeFb
    generalize hs : ({ s.next t (.account cs :: rest) with refcount := rc', freed := fr } :
      FbDev) = s' at ha
    have htasks : s'.tasks t = .account cs :: rest := by
      rw [← hs]
      exact next_tasks s t _
    have hown' : s'.configMutex = some t := by rw [← hs]; exact hown
    have hcrtcFb : s'.crtcFb = s.crtcFb := by rw [← hs]; rfl
    have holdFb : s'.oldFb = s.oldFb := by rw [← hs]; rfl
    have hfbdev : s'.fbdev = s.fbdev := by rw [← hs]; rfl
    have href : s'.refcount = rc' := by rw [← hs]
    have hpending' : s'.pending = cs := by
      simp only [FbDev.pending, hown', htasks, accountOf]
    have hshown : ∀ d ∈ cfg.crtcs, d ≠ c → s'.shown d = s.shown d := fun d _ hd => by
      rw [FbDev.shown, FbDev.shown, hpending, hpending', hcrtcFb, holdFb]
      exact if_congr (by simp [hd]) rfl rfl
    have hshownc' : s'.shown c = s.crtcFb c := by
      rw [FbDev.shown, hpending', if_neg hccs, hcrtcFb]
    refine h.of_same_lists ha ht ?_ (by rw [← hs]; rfl) (by rw [← hs]; rfl) (fun i => ?_)
      (fun i => ?_) (fun i hne => ?_) ⟨?_, ?_⟩ ?_ ?_ ?_
    · exact hs ▸ ⟨hcounted'.freed, hcounted'.fresh⟩
    · rw [htasks, hl, holders_cons, holders_cons]
      rfl
    · have htally := ha.taskRefs ht i
      have hsame : s'.taskRefs i t = s.taskRefs i t := by
        rw [FbDev.taskRefs, FbDev.taskRefs, htasks, hl, holders_cons, holders_cons]
        rfl
      have hmove := holders_of_eq_off cfg.nodupCrtcs hc hshown i
      have hplane : s'.planeFb = s.planeFb := by rw [← hs]; rfl
      have h1 := hrc i
      have h2 := hrc' i
      rw [hshownc, hshownc'] at hmove
      rw [FbDev.others, FbDev.others, hplane, hfbdev, href]
      dsimp only at h2
      omega
    · refine .inr ?_
      have h1 := hrc i
      have h2 := hrc' i
      rw [href] at hne
      dsimp only at h2
      by_cases hcn : s.crtcFb c = some i
      · exact hnew i hcn
      · by_cases hco : s.oldFb c = some i
        · exact hold i hco
        · rw [if_neg hcn] at h1
          rw [if_neg hco] at h2
          omega
    · simp only [htasks]
      refine ⟨hown', by rw [hfbdev]; exact hrest, (List.suffix_cons c cs).trans hsuffix, ?_⟩
      intro d hd m hm
      rw [hcrtcFb] at hm
      rw [holdFb, hfbdev]
      exact hfb d (List.mem_cons_of_mem _ hd) m hm
    · intro task htask
      rw [htasks] at htask
      rw [← hs]
      rcases List.mem_cons.1 htask with rfl | hmem
      · exact trivial
      · exact hfits task hmem
    · exact hs ▸ fun hown => (h.owner t hown).2
    · exact hs ▸ h.crtcs
    · exact hs ▸ h.planes

theorem exec_flip {c : Nat} (hl : s.tasks t = .flip c m :: rest) :
    Keeps cfg (fbExec cfg s t ans rest (.flip c m)) := by
  obtain ⟨hheld, hno, hrest⟩ := h.order_of ht hl (by simp)
  obtain ⟨hc, hmutex⟩ := h.fits_of ht hl
  have hnot : s.configMutex ≠ some t := of_decide_eq_false hheld
  have hpend : c ∉ s.pending := h.not_mem_pending hc hmutex hnot
  have hshownc : s.shown c = s.crtcFb c := if_neg hpend
  have htouch : s.touchOpt (s.crtcFb c) = .ok () := by
    cases ho : s.crtcFb c with
    | none => rfl
    | some o => exact touch_eq (h.alive (refs_others (others_shown hc (hshownc.trans ho))))
  have hfits : ∀ task ∈ rest, TaskFits cfg s t task := fun task htask =>
    (h.threads t ht).2 task (by rw [hl]; exact List.mem_cons_of_mem _ htask)
  rw [fbExec, htouch, touch_eq (h.alive_task ht hl rfl)]
  by_cases hok : ans.ok = true
  case neg =>
    refine ⟨_, if_neg hok, h.replace_same ht hl rfl [.unref m, .unlockCrtc c] (fun _ => rfl)
      (fun i => ?_) ?_ ?_⟩
    · simp [holders, FbTask.holds, List.countP_cons]
    · rw [hheld]
      exact ⟨rfl, hno, hrest⟩
    · simpa [TaskFits] using hmutex
  refine ⟨_, if_pos hok, ?_⟩
  have ha : Apart s { s.next t (unrefOld (s.crtcFb c) ++ .unlockCrtc c :: rest) with
      crtcFb := Function.update s.crtcFb c (some m) } t := by
    refine ⟨fun _ hu => Function.update_of_ne hu _ _, fun _ _ => Iff.rfl, fun _ _ _ h => h,
      fun _ h => h, fun u hu hown d hd => ⟨?_, rfl⟩⟩
    have hdc : d ≠ c := fun he => hpend (by rw [FbDev.pending, hown, ← he]; exact hd)
    exact Function.update_of_ne hdc _ _
  generalize hs : ({ s.next t (unrefOld (s.crtcFb c) ++ .unlockCrtc c :: rest) with
      crtcFb := Function.update s.crtcFb c (some m) } : FbDev) = s' at ha
  have htasks : s'.tasks t = unrefOld (s.crtcFb c) ++ .unlockCrtc c :: rest := by
    rw [← hs]
    exact next_tasks s t _
  have horder : TaskOrder s.fbdev (decide (s.configMutex = some t))
      (unrefOld (s.crtcFb c) ++ .unlockCrtc c :: rest) := by
    rw [hheld]
    exact TaskOrder.unrefOld _ ⟨rfl, hno, hrest⟩
  have hcrtcFb : s'.crtcFb = Function.update s.crtcFb c (some m) := by rw [← hs]
  have hpending : s'.pending = s.pending :=
    ha.pending (by rw [hl]; rfl) (by rw [htasks, horder.accountOf])
  have holdFb : s'.oldFb = s.oldFb := by rw [← hs]; rfl
  have href : s'.refcount = s.refcount := by rw [← hs]; rfl
  have hshown : ∀ d ∈ cfg.crtcs, d ≠ c → s'.shown d = s.shown d := fun d _ hd => by
    rw [FbDev.shown, FbDev.shown, hpending, holdFb, hcrtcFb, Function.update_of_ne hd]
  have hshownc' : s'.shown c = some m := by
    rw [FbDev.shown, hpending, if_neg hpend, hcrtcFb, Function.update_self]
  refine h.of_same_lists ha ht ?_ (by rw [← hs]; rfl) (by rw [← hs]; rfl) (fun i => ?_)
    (fun i => ?_) (fun i hne => absurd (by rw [href]) hne) (threadOk_of_order htasks ?_ ?_) ?_
    (fun d hd => ?_) ?_
  · exact hs ▸ ⟨h.freed, h.fresh⟩
  · rw [htasks, hl, unrefOld_lists, holders_cons, holders_cons]
    rfl
  · have htally := ha.taskRefs ht i
    have hmove := holders_of_eq_off cfg.nodupCrtcs hc hshown i
    have hold : s.taskRefs i t = holders FbTask.holds rest i + if m = i then 1 else 0 := by
      rw [FbDev.taskRefs, hl, holders_cons]
      simp only [FbTask.holds, Option.some.injEq]
    have hnew : s'.taskRefs i t =
        (if s.crtcFb c = some i then 1 else 0) + holders FbTask.holds rest i := by
      rw [FbDev.taskRefs, htasks, unrefOld_holds, holders_cons]
      simp [FbTask.holds]
    have hplane : s'.planeFb = s.planeFb := by rw [← hs]; rfl
    have hfbdev : s'.fbdev = s.fbdev := by rw [← hs]; rfl
    rw [hshownc, hshownc'] at hmove
    simp only [Option.some.injEq] at hmove
    rw [FbDev.others, FbDev.others, hplane, hfbdev, href]
    omega
  · exact hs ▸ horder
  · intro task htask
    rw [← hs]
    rcases List.mem_append.1 htask with hmem | hmem
    · exact unrefOld_fits _ task hmem
    · rcases List.mem_cons.1 hmem with rfl | hmem
      · exact hmutex
      · exact hfits task hmem
  · exact hs ▸ fun hown => (h.owner t hown).2
  · have hdc : d ≠ c := fun he => hd (he ▸ hc)
    rw [hcrtcFb, Function.update_of_ne hdc]
    exact h.crtcs d hd
  · exact hs ▸ h.planes

end FbDevInv

end Drm
