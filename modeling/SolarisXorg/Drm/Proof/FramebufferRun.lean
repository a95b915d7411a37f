import SolarisXorg.Drm.Proof.FramebufferCall

/-!
# Runs of the mode setting ioctls

A restore of the console without locks does what it would do if it had taken them
(`exec_withLocks`), as no other thread makes a step meanwhile. So what every state of a run has is
the invariant, or the invariant with the locks that such a restore has not taken (`FbDevOk`):
`FbDevOk.step_cases` for a step, `fbDevRun_ok` for a run. No framebuffer is used after it was freed
(`fbRun_safe`), and none is left over (`fbRun_noLeak`).

A hotplug while more than one crtc shows the console is not orderly: `drm_framebuffer_init` takes
their references away, and the framebuffer is freed while it is shown (`fbRun_hotplug_frees`).
-/

namespace Drm

open Lib

variable {cfg : FbCfg} {s s' : FbDev} {t m : Nat} {task : FbTask} {rest l : List FbTask}
  {ans : FbAnswer}

/-! ## Restores without locks -/

/-- The device as if thread `t` had taken the locks, and were to drop them in the end. -/
def FbDev.withLocks (cfg : FbCfg) (t : Nat) (s : FbDev) : FbDev :=
  { s.next t (s.tasks t ++ [.unlockAll]) with
    configMutex := some t
    crtcMutex := fun c => if c ∈ cfg.crtcs then some t else s.crtcMutex c }

theorem withLocks_next (s : FbDev) (l : List FbTask) :
    (s.withLocks cfg t).next t (l ++ [.unlockAll]) = (s.next t l).withLocks cfg t := by
  simp [FbDev.withLocks, FbDev.next]

theorem withLocks_tasks (s : FbDev) : (s.withLocks cfg t).tasks t = s.tasks t ++ [.unlockAll] :=
  next_tasks s t _

theorem getOpt_withLocks (fb : Option Nat) :
    (s.withLocks cfg t).getOpt fb = (s.getOpt fb).map (FbDev.withLocks cfg t) := by
  cases fb with
  | none => rfl
  | some m =>
    simp only [FbDev.getOpt, FbDev.get]
    have hfreed : (s.withLocks cfg t).freed = s.freed := rfl
    rw [hfreed]
    split <;> rfl

theorem putOpt_withLocks (fb : Option Nat) :
    (s.withLocks cfg t).putOpt fb = (s.putOpt fb).map (FbDev.withLocks cfg t) := by
  cases fb with
  | none => rfl
  | some m =>
    simp only [FbDev.putOpt, FbDev.put]
    have hfreed : (s.withLocks cfg t).freed = s.freed := rfl
    rw [hfreed]
    split <;> rfl

theorem putBug_withLocks (m : Nat) :
    (s.withLocks cfg t).putBug m = (s.putBug m).map (FbDev.withLocks cfg t) := by
  have hfreed : (s.withLocks cfg t).freed = s.freed := rfl
  have hcount : (s.withLocks cfg t).refcount = s.refcount := rfl
  rw [FbDev.putBug, FbDev.putBug, hfreed, hcount]
  split
  · rfl
  · split <;> rfl

/-- **The tasks of a restore do the same with the locks and without.** -/
theorem exec_withLocks (htask : task.restores = true) :
    fbExec cfg (s.withLocks cfg t) t ans (rest ++ [.unlockAll]) task =
      (fbExec cfg s t ans rest task).map (FbDev.withLocks cfg t) := by
  have hcrtc : (s.withLocks cfg t).crtcFb = s.crtcFb := rfl
  have hold (u : FbDev) : (u.withLocks cfg t).oldFb = u.oldFb := rfl
  have hplane : (s.withLocks cfg t).planeFb = s.planeFb := rfl
  have hfbdev : (s.withLocks cfg t).fbdev = s.fbdev := rfl
  cases task with
  | config c fb =>
    rw [fbExec, fbExec, ← List.cons_append, withLocks_next]
    rfl
  | account cs =>
    cases cs with
    | nil =>
      rw [fbExec, fbExec, withLocks_next]
      rfl
    | cons c cs =>
      rw [fbExec, fbExec, hcrtc, getOpt_withLocks]
      cases s.getOpt (s.crtcFb c) with
      | error e => rfl
      | ok u =>
        dsimp only [Except.map, bind, Except.bind]
        rw [hold, putOpt_withLocks]
        cases u.putOpt (u.oldFb c) with
        | error e => rfl
        | ok v =>
          dsimp only [Except.map]
          rw [← List.cons_append, withLocks_next]
  | disablePlanes ps =>
    cases ps with
    | nil =>
      rw [fbExec, fbExec, withLocks_next]
      rfl
    | cons p ps =>
      rw [fbExec, fbExec, hplane]
      cases s.planeFb p with
      | none =>
        dsimp only
        rw [← List.cons_append, withLocks_next]
        rfl
      | some m =>
        dsimp only
        rw [putBug_withLocks]
        cases s.putBug m with
        | error e => rfl
        | ok u =>
          dsimp only [Except.map, bind, Except.bind]
          rw [← List.cons_append, withLocks_next]
          rfl
  | restoreCrtcs cs lit =>
    cases cs with
    | nil =>
      rw [fbExec, fbExec, withLocks_next]
      rfl
    | cons c cs =>
      rw [fbExec, fbExec, hfbdev, ← List.cons_append, ← List.cons_append, withLocks_next]
      rfl
  | _ => cases htask

theorem getOpt_unlocked {fb : Option Nat} (h : s.getOpt fb = .ok s') :
    s'.unlocked cfg = s.unlocked cfg := by
  cases fb with
  | none =>
    cases h
    rfl
  | some m =>
    rw [FbDev.getOpt, FbDev.get] at h
    split at h
    · cases h
    · cases h
      rfl

theorem putOpt_unlocked {fb : Option Nat} (h : s.putOpt fb = .ok s') :
    s'.unlocked cfg = s.unlocked cfg := by
  cases fb with
  | none =>
    cases h
    rfl
  | some m =>
    rw [FbDev.putOpt, FbDev.put] at h
    split at h
    · cases h
    · cases h
      rfl

theorem putBug_unlocked (h : s.putBug m = .ok s') : s'.unlocked cfg = s.unlocked cfg := by
  rw [FbDev.putBug] at h
  split at h
  · cases h
  · split at h
    · cases h
    · cases h
      rfl

/-- They take no mutex, and are followed by tasks of the restore. -/
theorem exec_restores (htask : task.restores = true) (hrest : ∀ x ∈ rest, x.restores = true)
    (h : fbExec cfg s t ans rest task = .ok s') :
    s'.unlocked cfg = s.unlocked cfg ∧ ∀ x ∈ s'.tasks t, x.restores = true := by
  have hcons (x : FbTask) (hx : x.restores = true) : ∀ y ∈ x :: rest, y.restores = true :=
    List.forall_mem_cons.2 ⟨hx, hrest⟩
  cases task with
  | config c fb =>
    cases h
    refine ⟨rfl, ?_⟩
    dsimp only
    rw [next_tasks]
    exact hcons _ rfl
  | account cs =>
    cases cs with
    | nil =>
      cases h
      exact ⟨rfl, by rw [next_tasks]; exact hrest⟩
    | cons c cs =>
      rw [fbExec] at h
      cases hget : s.getOpt (s.crtcFb c) with
      | error e =>
        rw [hget] at h
        cases h
      | ok u =>
        rw [hget] at h
        dsimp only [bind, Except.bind] at h
        cases hput : u.putOpt (u.oldFb c) with
        | error e =>
          rw [hput] at h
          cases h
        | ok v =>
          rw [hput] at h
          cases h
          refine ⟨(putOpt_unlocked hput).trans (getOpt_unlocked hget), ?_⟩
          rw [next_tasks]
          exact hcons _ rfl
  | disablePlanes ps =>
    cases ps with
    | nil =>
      cases h
      exact ⟨rfl, by rw [next_tasks]; exact hrest⟩
    | cons p ps =>
      rw [fbExec] at h
      cases hp : s.planeFb p with
      | none =>
        rw [hp] at h
        cases h
        exact ⟨rfl, by rw [next_tasks]; exact hcons _ rfl⟩
      | some m =>
        rw [hp] at h
        dsimp only at h
        cases hput : s.putBug m with
        | error e =>
          rw [hput] at h
          cases h
        | ok u =>
          rw [hput] at h
          cases h
          have hfree : u.unlocked cfg = s.unlocked cfg := putBug_unlocked hput
          refine ⟨hfree, ?_⟩
          dsimp only
          rw [next_tasks]
          exact hcons _ rfl
  | restoreCrtcs cs lit =>
    cases cs with
    | nil =>
      cases h
      exact ⟨rfl, by rw [next_tasks]; exact hrest⟩
    | cons c cs =>
      cases h
      refine ⟨rfl, ?_⟩
      rw [next_tasks]
      exact List.forall_mem_cons.2 ⟨rfl, hcons _ rfl⟩
  | _ => cases htask

/-- The start of a restore without locks, as if it had taken them. -/
theorem FbDevInv.start_bare (h : FbDevInv cfg s) (ht : t ∈ cfg.threads) (hl : s.tasks t = [])
    (hfree : s.unlocked cfg = true) (lit : Nat → Bool) :
    FbDevInv cfg ((s.next t [.disablePlanes cfg.planes, .restoreCrtcs cfg.crtcs lit]).withLocks
      cfg t) := by
  have hcall : FbDevInv cfg (s.next t [.lockAll, .disablePlanes cfg.planes,
      .restoreCrtcs cfg.crtcs lit, .unlockAll]) :=
    h.start_same ht hl _ (fun _ => rfl) (fun _ => rfl) ⟨rfl, rfl, rfl, rfl, noCrtc_nil, rfl⟩
      (by simp [TaskFits])
  have hexec : fbExec cfg (s.next t [.lockAll, .disablePlanes cfg.planes,
      .restoreCrtcs cfg.crtcs lit, .unlockAll]) t ⟨true, fun _ => none⟩
      [.disablePlanes cfg.planes, .restoreCrtcs cfg.crtcs lit, .unlockAll] .lockAll =
        .ok ((s.next t [.disablePlanes cfg.planes, .restoreCrtcs cfg.crtcs lit]).withLocks
          cfg t) := by
    refine (if_pos hfree).trans ?_
    simp [FbDev.withLocks, FbDev.next]
  obtain ⟨s', hs', hinv⟩ := hcall.exec_lockAll ht (next_tasks _ _ _) (by rw [hexec]; simp)
  rw [hexec] at hs'
  cases hs'
  exact hinv

/-- Nobody has the locks when they are dropped again. -/
theorem unlock_withLocks (hl : s.tasks t = []) (hfree : s.unlocked cfg = true) :
    fbExec cfg (s.withLocks cfg t) t ans [] .unlockAll = .ok s := by
  have hnone : s.configMutex = none ∧ ∀ c ∈ cfg.crtcs, s.crtcMutex c = none := by
    simpa [FbDev.unlocked] using hfree
  have hcrtc : (fun c => if c ∈ cfg.crtcs then none else (s.withLocks cfg t).crtcMutex c) =
      s.crtcMutex := by
    funext c
    by_cases hc : c ∈ cfg.crtcs
    · rw [if_pos hc, hnone.2 c hc]
    · rw [if_neg hc]
      exact if_neg hc
  have htasks : ((s.withLocks cfg t).next t []).tasks = s.tasks := by
    funext u
    by_cases hu : u = t
    · rw [hu, next_tasks, hl]
    · exact (Function.update_of_ne hu _ _).trans (Function.update_of_ne hu _ _)
  have hsame : ({ s with
      configMutex := none
      crtcMutex := fun c => if c ∈ cfg.crtcs then none else (s.withLocks cfg t).crtcMutex c
      tasks := ((s.withLocks cfg t).next t []).tasks } : FbDev) = s := by
    rw [hcrtc, htasks, ← hnone.1]
  exact congrArg Except.ok hsame

/-- The end of a restore without locks. -/
theorem FbDevInv.end_bare (h : FbDevInv cfg (s.withLocks cfg t)) (ht : t ∈ cfg.threads)
    (hl : s.tasks t = []) (hfree : s.unlocked cfg = true) : FbDevInv cfg s := by
  have hkeeps : Keeps cfg (fbExec cfg (s.withLocks cfg t) t ⟨true, fun _ => none⟩ [] .unlockAll) :=
    h.exec_unlockAll ht (by rw [withLocks_tasks, hl]; rfl)
  obtain ⟨s', hs', hinv⟩ := hkeeps
  rw [unlock_withLocks hl hfree] at hs'
  cases hs'
  exact hinv

theorem bugAt_withLocks (hne : s.tasks t ≠ []) : BugAt (s.withLocks cfg t) t ↔ BugAt s t := by
  obtain ⟨task, rest, hl⟩ := List.exists_cons_of_ne_nil hne
  have htasks : (s.withLocks cfg t).tasks t = task :: (rest ++ [.unlockAll]) := by
    rw [withLocks_tasks, hl]
    rfl
  constructor
  · intro h
    rcases h with ⟨f, m, l, rest', hl', hfbs, hidr⟩ | ⟨p, ps, m, rest', hl', hp, hone⟩
    · rw [htasks] at hl'
      cases hl'
      exact .inl ⟨f, m, l, rest, hl, hfbs, hidr⟩
    · rw [htasks] at hl'
      cases hl'
      exact .inr ⟨p, ps, m, rest, hl, hp, hone⟩
  · intro h
    rcases h with ⟨f, m, l, rest', hl', hfbs, hidr⟩ | ⟨p, ps, m, rest', hl', hp, hone⟩
    · rw [hl] at hl'
      cases hl'
      exact .inl ⟨f, m, l, _, htasks, hfbs, hidr⟩
    · rw [hl] at hl'
      cases hl'
      exact .inr ⟨p, ps, m, _, htasks, hp, hone⟩

/-! ## Steps -/

/-- The invariant of the runs: where a thread restores the console without the locks, no mutex is
taken, and the invariant holds as if it had taken them. -/
def FbDevOk (cfg : FbCfg) (s : FbDev) : Prop :=
  FbDevInv cfg s ∨
    ∃ t ∈ cfg.threads, s.bare t = true ∧ s.unlocked cfg = true ∧ FbDevInv cfg (s.withLocks cfg t)

/-- The state after a step of a restore without locks. -/
theorem fbDevOk_of_withLocks (ht : t ∈ cfg.threads) (hfree : s.unlocked cfg = true)
    (hall : ∀ x ∈ s.tasks t, x.restores = true) (h : FbDevInv cfg (s.withLocks cfg t)) :
    FbDevOk cfg s := by
  by_cases hnil : s.tasks t = []
  · exact .inl (h.end_bare ht hnil hfree)
  · refine .inr ⟨t, ht, ?_, hfree, h⟩
    rw [FbDev.bare, Bool.and_eq_true]
    exact ⟨by simpa using hnil, List.all_eq_true.2 hall⟩

namespace FbDevOk

variable (h : FbDevOk cfg s) (ht : t ∈ cfg.threads) {act : FbAct}
  (hord : s.orderly cfg ⟨t, act, ans⟩ = true)
include h ht hord

/-- **An orderly step** keeps the invariant, waits, or reaches one of the two `BUG`s. -/
theorem step_cases : (∃ s', fbStep cfg s t act ans = .ok s' ∧ FbDevOk cfg s') ∨
    fbStep cfg s t act ans = .error .blocked ∨
      (fbStep cfg s t act ans = .error .bug ∧ BugAt s t) := by
  rcases h with hinv | ⟨u, hu, hbare, hfree, hinv⟩
  · by_cases hstart : s.tasks t = [] ∧ ∃ lit, act = .restore false lit
    · obtain ⟨hl, lit, rfl⟩ := hstart
      have hfree := orderly_unlocked hord hl rfl
      have hnext : fbStep cfg s t (.restore false lit) ans =
          .ok (s.next t [.disablePlanes cfg.planes, .restoreCrtcs cfg.crtcs lit]) := by
        rw [fbStep, hl]
        rfl
      refine .inl ⟨_, hnext, fbDevOk_of_withLocks ht hfree ?_ (hinv.start_bare ht hl hfree lit)⟩
      rw [next_tasks]
      simp [FbTask.restores]
    · rcases hinv.step_cases ht hord fun lit hl hact => hstart ⟨hl, lit, hact⟩ with
        ⟨s', hs', hkeeps⟩ | hstop
      · exact .inl ⟨s', hs', .inl hkeeps⟩
      · exact .inr hstop
  · obtain rfl := orderly_alone hord hu hbare
    obtain ⟨hne, hall⟩ := Bool.and_eq_true_iff.1 hbare
    have hne : s.tasks u ≠ [] := by simpa using hne
    rw [List.all_eq_true] at hall
    obtain ⟨task, rest, hl⟩ := List.exists_cons_of_ne_nil hne
    rw [hl] at hall
    have htask := hall task List.mem_cons_self
    have hends : Ends cfg (s.withLocks cfg u) u
        (fbExec cfg (s.withLocks cfg u) u ans (rest ++ [.unlockAll]) task) :=
      hinv.exec_cases ht (by rw [withLocks_tasks, hl]; rfl) fun got hprobe => by
        rw [hprobe] at htask
        cases htask
    rw [exec_withLocks htask, Ends, bugAt_withLocks hne] at hends
    rw [fbStep, hl]
    dsimp only
    cases hres : fbExec cfg s u ans rest task with
    | ok s' =>
      rw [hres] at hends
      obtain ⟨hfree', hall'⟩ := exec_restores htask (fun x hx => hall x (.tail _ hx)) hres
      rcases hends with ⟨s'', hs'', hkeeps⟩ | hblocked | ⟨hbug, -⟩
      · cases hs''
        exact .inl ⟨s', rfl, fbDevOk_of_withLocks ht (hfree'.trans hfree) hall' hkeeps⟩
      · cases hblocked
      · cases hbug
    | error e =>
      rw [hres] at hends
      rcases hends with ⟨s'', hs'', -⟩ | hblocked | ⟨hbug, hat⟩
      · cases hs''
      · cases hblocked
        exact .inr (.inl rfl)
      · cases hbug
        exact .inr (.inr ⟨rfl, hat⟩)

/-- At the two places the step does stop. -/
theorem bug_of_bugAt (hbug : BugAt s t) : fbStep cfg s t act ans = .error .bug := by
  rcases h with hinv | ⟨u, hu, hbare, -, hinv⟩
  · exact hinv.bug_of_bugAt ht act ans hbug
  · obtain rfl := orderly_alone hord hu hbare
    obtain ⟨hne, hall⟩ := Bool.and_eq_true_iff.1 hbare
    have hne : s.tasks u ≠ [] := by simpa using hne
    obtain ⟨task, rest, hl⟩ := List.exists_cons_of_ne_nil hne
    have htask : task.restores = true := List.all_eq_true.1 hall task (by rw [hl]; exact .head _)
    have hstop := hinv.bug_of_bugAt ht act ans ((bugAt_withLocks hne).2 hbug)
    rw [fbStep, withLocks_tasks, hl] at hstop
    rw [fbStep, hl]
    dsimp only [List.cons_append] at hstop ⊢
    rw [exec_withLocks htask] at hstop
    cases hres : fbExec cfg s u ans rest task with
    | ok s' =>
      rw [hres] at hstop
      cases hstop
    | error e =>
      rw [hres] at hstop
      cases hstop
      rfl

end FbDevOk

/-! ## Runs -/

theorem fbDevInit_inv (cfg : FbCfg) : FbDevInv cfg fbDevInit := by
  have hlists (m : Nat) : fbDevInit.lists cfg m = 0 := by
    have hfiles : tally cfg.files (fun f => (fbDevInit.fbs f).count m) = 0 :=
      tally_eq_zero fun _ _ => rfl
    rw [FbDev.lists, hfiles, Nat.zero_add]
    exact tally_eq_zero fun _ _ => rfl
  have hshown : fbDevInit.shown = fun _ => none := by
    funext c
    rfl
  have hothers (m : Nat) : fbDevInit.others cfg m = 0 := by
    have hnone (l : List Nat) : holders (fun _ => (none : Option Nat)) l m = 0 := by simp [holders]
    have htasks : tally cfg.threads (fbDevInit.taskRefs m) = 0 := tally_eq_zero fun _ _ => rfl
    have hplane : holders fbDevInit.planeFb cfg.planes m = 0 := hnone cfg.planes
    rw [FbDev.others, hshown, hnone, htasks, hplane]
    rfl
  refine ⟨fun m => ?_, fun m => ?_, fun _ _ => rfl, fun t _ => ?_, fun t ht => ?_, fun _ _ => rfl,
    fun _ _ => rfl, fun _ _ => rfl, fun m => ?_, fun m hm => ?_, fun m hm => ?_⟩
  · rw [FbDev.refs, hlists, hothers]
    rfl
  · simp [fbDevInit]
  · exact threadOk_of_order rfl rfl fun task htask => by cases htask
  · cases ht
  · rw [hlists]
    exact Nat.zero_le 1
  · cases hm
  · rw [hlists] at hm
    omega

theorem fbDevRun_ok {ls : List FbLabel} (hrun : Run (FbOrderlyStep cfg) fbDevInit ls s) :
    FbDevOk cfg s := by
  refine hrun.inv (.inl (fbDevInit_inv cfg)) fun s l s' hs hstep => ?_
  obtain ⟨hord, hl, hok⟩ := hstep
  rcases hs.step_cases hl hord with ⟨s'', hs'', hkeep⟩ | hblocked | ⟨hbug, -⟩
  · rw [hok] at hs''
    cases hs''
    exact hkeep
  · rw [hok] at hblocked
    cases hblocked
  · rw [hok] at hbug
    cases hbug

/-- **No framebuffer is used after it was freed, in any orderly run**, and a step of a thread
reaches `BUG` exactly at the two places of `BugAt`. -/
theorem fbRun_safe {ls : List FbLabel} (hrun : Run (FbOrderlyStep cfg) fbDevInit ls s)
    (ht : t ∈ cfg.threads) {act : FbAct} (hord : s.orderly cfg ⟨t, act, ans⟩ = true) :
    fbStep cfg s t act ans ≠ .error .useAfterFree ∧
      (fbStep cfg s t act ans = .error .bug ↔ BugAt s t) := by
  have hinv := fbDevRun_ok hrun
  have hbugAt := hinv.bug_of_bugAt ht hord
  rcases hinv.step_cases ht hord with ⟨s', hs', -⟩ | hblocked | ⟨hbug, hat⟩
  · exact ⟨by rw [hs']; simp, by rw [hs']; simp, hbugAt⟩
  · exact ⟨by rw [hblocked]; simp, by rw [hblocked]; simp, hbugAt⟩
  · exact ⟨by rw [hbug]; simp, fun _ => hat, fun _ => hbug⟩

/-- Thread 0 puts a framebuffer on a plane while thread 1 removes it, and the console comes back. -/
def raceCfg : FbCfg where
  crtcs := [0]
  planes := [0]
  files := [0]
  threads := [0, 1]

/-- Checks and hooks succeed. -/
def allOk : FbAnswer := ⟨true, fun _ => none⟩

/-- The run of the labels, while no step waits and all are as asked for. -/
def fbRunOf (cfg : FbCfg) (ok : FbDev → FbLabel → Bool) (ls : List FbLabel) : Option FbDev :=
  ls.foldlM (fun s l => if l.thread ∈ cfg.threads ∧ ok s l = true then
    (fbStep cfg s l.thread l.act l.ans).toOption else none) fbDevInit

theorem fbRunOf_run {ok : FbDev → FbLabel → Bool} (ls : List FbLabel)
    (h : fbRunOf cfg ok ls = some s) :
    Run (fun s l s' => ok s l = true ∧ FbStep cfg s l s') fbDevInit ls s := by
  refine Run.of_foldlM (fun s l s' hs => ?_) h
  split at hs
  next hl =>
    refine ⟨hl.2, hl.1, ?_⟩
    cases hstep : fbStep cfg s l.thread l.act l.ans with
    | ok s'' =>
      rw [hstep] at hs
      exact congrArg Except.ok (Option.some.inj hs)
    | error e =>
      rw [hstep] at hs
      cases hs
  next => cases hs

/-- Thread 1 runs `drm_mode_rmfb` between the lookup of `drm_mode_setplane` and its locks. The
console was made, and made again by a hotplug, and is restored without locks in the end. -/
def raceLabels : List FbLabel :=
  [⟨1, .initialConfig true, allOk⟩, ⟨1, .go, allOk⟩, ⟨1, .hotplug true, allOk⟩, ⟨1, .go, allOk⟩,
    ⟨1, .go, allOk⟩, ⟨1, .go, allOk⟩,
    ⟨0, .addfb 0 true, allOk⟩, ⟨0, .go, allOk⟩, ⟨0, .setplane 0 (some 1), allOk⟩,
    ⟨1, .rmfb 0 1, allOk⟩, ⟨1, .go, allOk⟩, ⟨1, .go, allOk⟩, ⟨1, .go, allOk⟩, ⟨1, .go, allOk⟩,
    ⟨1, .go, allOk⟩, ⟨1, .go, allOk⟩, ⟨1, .go, allOk⟩, ⟨1, .go, allOk⟩, ⟨0, .go, allOk⟩,
    ⟨1, .restore false fun _ => false, allOk⟩]

/-- The plane has the last reference, and the console is about to turn it off. -/
def raceState : FbDev := (fbRunOf raceCfg (FbDev.orderly raceCfg) raceLabels).getD fbDevInit

theorem fbRun_safe_race : fbStep raceCfg raceState 1 .go allOk = .error .bug :=
  (@fbRun_safe raceCfg raceState 1 allOk raceLabels (fbRunOf_run raceLabels rfl) (by decide) .go
    rfl).2.2 (.inr ⟨0, [], 1, _, rfl, rfl, rfl⟩)

/-- One thread on a device with three crtcs. -/
def hotplugCfg : FbCfg where
  crtcs := [0, 1, 2]
  planes := []
  files := []
  threads := [0]

/-- All crtcs show the console when a hotplug comes, and then two are turned off. -/
def hotplugLabels : List FbLabel :=
  let shown : FbAnswer := ⟨true, fun _ => some 0⟩
  let off (c : Nat) : FbAnswer := ⟨true, fun d => if d ≤ c then none else some 0⟩
  [⟨0, .initialConfig true, shown⟩, ⟨0, .go, shown⟩, ⟨0, .restore true fun _ => true, shown⟩] ++
    List.replicate 22 ⟨0, .go, shown⟩ ++
    [⟨0, .hotplug true, shown⟩, ⟨0, .go, shown⟩, ⟨0, .go, shown⟩, ⟨0, .go, shown⟩,
      ⟨0, .setcrtc 0 .off, off 0⟩] ++ List.replicate 8 ⟨0, .go, off 0⟩ ++
    ⟨0, .setcrtc 1 .off, off 1⟩ :: List.replicate 5 ⟨0, .go, off 1⟩

/-- **A hotplug frees the console's framebuffer under the crtcs that show it**:
`drm_framebuffer_init` has set the count back to 2, so that it is 0 when the second crtc is off, and
`drm_mode_set_config_internal` then uses the framebuffer for the third one. -/
theorem fbRun_hotplug_frees : ∃ s, Run (FbStep hotplugCfg) fbDevInit hotplugLabels s ∧
    s.crtcFb 2 = some 0 ∧ fbStep hotplugCfg s 0 .go allOk = .error .useAfterFree := by
  have hrun : fbRunOf hotplugCfg (fun _ _ => true) hotplugLabels =
      some ((fbRunOf hotplugCfg (fun _ _ => true) hotplugLabels).getD fbDevInit) := by rfl
  exact ⟨_, (fbRunOf_run hotplugLabels hrun).mono fun _ _ _ h => h.2, by rfl, by rfl⟩

/-- **No framebuffer is leaked, and none is freed while it is in use**: when no call is going on,
the framebuffers that are not freed are those in the list of a file, on a crtc, on a plane, or of
the console. -/
theorem fbRun_noLeak {ls : List FbLabel} (hrun : Run (FbOrderlyStep cfg) fbDevInit ls s)
    (hidle : ∀ t ∈ cfg.threads, s.tasks t = []) (hm : m < s.made) :
    s.freed m = false ↔ (∃ f, m ∈ s.fbs f) ∨ (∃ c, s.crtcFb c = some m) ∨
      (∃ p, s.planeFb p = some m) ∨ s.fbdev = some m := by
  have hinv : FbDevInv cfg s := by
    rcases fbDevRun_ok hrun with hinv | ⟨t, ht, hbare, -⟩
    · exact hinv
    · rw [FbDev.bare, hidle t ht] at hbare
      cases hbare
  have hzero (f : FbTask → Option Nat) :
      tally cfg.threads (fun t => holders f (s.tasks t) m) = 0 :=
    tally_eq_zero fun t ht => by rw [hidle t ht]; rfl
  have hpending : s.pending = [] := by
    rw [FbDev.pending]
    cases hown : s.configMutex with
    | none => rfl
    | some u => simp only [hidle u (hinv.owner u hown).1, accountOf]
  have hshown (c : Nat) : s.shown c = s.crtcFb c := by
    rw [FbDev.shown, hpending, if_neg (by simp)]
  constructor
  · intro halive
    have hpos : 0 < s.refs cfg m := by
      by_contra hno
      have hfreed := (hinv.freed m).2 ⟨hm, by rw [hinv.count]; omega⟩
      rw [hfreed] at halive
      cases halive
    -- an id goes with a list or with the console
    have hcases : 0 < s.lists cfg m ∨ 0 < s.others cfg m := by
      cases hidr : s.idr m with
      | true => exact (hinv.registered m hidr).imp_right FbDevInv.others_fbdev
      | false =>
        rw [FbDev.refs, hidr] at hpos
        simp only [Bool.false_eq_true, if_false] at hpos
        omega
    rcases hcases with hlists | hothers
    · rw [FbDev.lists, hzero] at hlists
      refine .inl ?_
      by_contra hno
      have hnone : tally cfg.files (fun f => (s.fbs f).count m) = 0 :=
        tally_eq_zero fun f _ => List.count_eq_zero.2 fun hf => hno ⟨f, hf⟩
      omega
    · have htasks : tally cfg.threads (s.taskRefs m) = 0 := hzero FbTask.holds
      rw [FbDev.others, htasks] at hothers
      by_cases hcrtc : 0 < holders s.shown cfg.crtcs m
      · obtain ⟨c, -, hc⟩ := holders_pos_iff.1 hcrtc
        exact .inr (.inl ⟨c, (hshown c).symm.trans hc⟩)
      by_cases hplane : 0 < holders s.planeFb cfg.planes m
      · obtain ⟨p, -, hp⟩ := holders_pos_iff.1 hplane
        exact .inr (.inr (.inl ⟨p, hp⟩))
      · refine .inr (.inr (.inr ?_))
        by_contra hfb
        rw [if_neg hfb] at hothers
        omega
  · intro huse
    have hpos : 0 < s.refs cfg m := by
      rcases huse with ⟨f, hf⟩ | ⟨c, hc⟩ | ⟨p, hp⟩ | hfb
      · have := (hinv.lists_file hf).2
        rw [FbDev.refs]
        omega
      · have hmem : c ∈ cfg.crtcs := by
          by_contra hno
          rw [hinv.crtcs c hno] at hc
          cases hc
        exact FbDevInv.refs_others (FbDevInv.others_shown hmem ((hshown c).trans hc))
      · exact FbDevInv.refs_others (hinv.others_plane hp)
      · exact FbDevInv.refs_others (FbDevInv.others_fbdev hfb)
    exact hinv.alive hpos

/-- Only the plane refers to the framebuffer. -/
theorem fbRun_noLeak_race :
    ((fbRunOf raceCfg (FbDev.orderly raceCfg) (raceLabels.take 19)).getD fbDevInit).freed 1 =
      false :=
  (@fbRun_noLeak raceCfg _ _ _ (fbRunOf_run (raceLabels.take 19) rfl)
    (List.forall_mem_cons.2 ⟨rfl, List.forall_mem_cons.2 ⟨rfl, by simp⟩⟩) (by decide)).2
    (.inr (.inr (.inl ⟨0, rfl⟩)))

end Drm
