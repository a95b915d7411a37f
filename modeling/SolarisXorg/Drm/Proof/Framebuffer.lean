import SolarisXorg.Lib.Holders
import SolarisXorg.Lib.Run
import SolarisXorg.Drm.Framebuffer

/-!
# Framebuffers are freed when their last reference goes

`FbDev.refs` counts who has a reference to a framebuffer: the idr, the lists of the files, the
crtcs, the planes, the console and the tasks of the threads. While `drm_mode_set_config_internal`
runs, a crtc that its last loop has not reached yet still has the reference to what it showed before
(`shown`). `FbDevInv` says that `refcount` is this number in every state, that the threads have
their tasks in an order that keeps the locks, and that a framebuffer without an id is known to its
list only. A holder of a reference never meets a freed framebuffer (`FbDevInv.alive`).

A step of a thread leaves what the others rely on (`Apart`), so what is left for it is the account
of its own tasks: `of_same_lists` where the lists stay, `simple` where crtcs and planes stay as
well, `replace` where the step is a task.
-/

namespace Drm

open Lib

/-- The framebuffer that the task has a reference to. -/
def FbTask.holds : FbTask → Option Nat
  | .unref m | .use m | .setPlane _ m | .flip _ m | .remove m => some m
  | _ => none

/-- The framebuffer that the task brings to the list of its file. -/
def FbTask.lists : FbTask → Option Nat
  | .list _ m => some m
  | _ => none

/-- The crtc whose mutex the task needs alone. -/
def FbTask.crtcLock : FbTask → Option Nat
  | .flip c _ | .unlockCrtc c => some c
  | _ => none

/-- No page flip is going on. -/
def NoCrtc (l : List FbTask) : Prop := ∀ task ∈ l, task.crtcLock = none

/-- The crtcs that `drm_mode_set_config_internal` has not gone through yet. -/
def accountOf : List FbTask → List Nat
  | .account cs :: _ => cs
  | _ => []

namespace FbDev

/-- The crtcs whose new framebuffer has not got its reference yet. -/
def pending (s : FbDev) : List Nat :=
  match s.configMutex with
  | some t => accountOf (s.tasks t)
  | none => []

/-- The framebuffer that the crtc has a reference to. -/
def shown (s : FbDev) (c : Nat) : Option Nat :=
  if c ∈ s.pending then s.oldFb c else s.crtcFb c

/-- The number of references of the tasks of a thread. -/
def taskRefs (s : FbDev) (m t : Nat) : Nat := holders FbTask.holds (s.tasks t) m

/-- In how many lists the framebuffer is, or on the way there. -/
def lists (cfg : FbCfg) (s : FbDev) (m : Nat) : Nat :=
  tally cfg.files (fun f => (s.fbs f).count m) +
    tally cfg.threads fun t => holders FbTask.lists (s.tasks t) m

/-- The number of references that are neither of the idr nor of a list. -/
def others (cfg : FbCfg) (s : FbDev) (m : Nat) : Nat :=
  holders s.shown cfg.crtcs m + holders s.planeFb cfg.planes m +
    (if s.fbdev = some m then 1 else 0) + tally cfg.threads (s.taskRefs m)

/-- The number of references to the framebuffer. -/
def refs (cfg : FbCfg) (s : FbDev) (m : Nat) : Nat :=
  (if s.idr m then 1 else 0) + s.lists cfg m + s.others cfg m

end FbDev

/-- The tasks are in an order in which the locks are taken and dropped; `held` says whether the
thread has them. A framebuffer that `set_config` is asked to show has a reference that outlasts the
call, and one that `drm_framebuffer_remove` takes off the planes has that of its caller. -/
def TaskOrder (fbdev : Option Nat) : Bool → List FbTask → Prop
  | held, [] => held = false
  | held, .lockAll :: l => held = false ∧ TaskOrder fbdev true l
  | held, .unlockAll :: l => held = true ∧ NoCrtc l ∧ TaskOrder fbdev false l
  | held, .unref _ :: l => TaskOrder fbdev held l
  | held, .config _ fb :: l =>
    held = true ∧ (∀ m, fb = some m → .unref m ∈ l ∨ fbdev = some m) ∧ TaskOrder fbdev true l
  | _, .account _ :: _ => False
  | held, .setCrtc _ _ :: l => held = true ∧ l = []
  | held, .offPlanes m _ :: l => held = true ∧ .unref m ∈ l ∧ TaskOrder fbdev true l
  | held, .offCrtcs _ _ :: l => held = true ∧ TaskOrder fbdev true l
  | held, .disablePlanes _ :: l => held = true ∧ TaskOrder fbdev true l
  | held, .restoreCrtcs _ _ :: l => held = true ∧ TaskOrder fbdev true l
  | held, .unlockCrtc _ :: l => held = false ∧ NoCrtc l ∧ TaskOrder fbdev false l
  | held, .list _ _ :: l => held = false ∧ TaskOrder fbdev false l
  | held, .use _ :: l => held = false ∧ TaskOrder fbdev false l
  | held, .setPlane _ _ :: l => held = false ∧ TaskOrder fbdev false l
  | held, .flip _ _ :: l => held = false ∧ NoCrtc l ∧ TaskOrder fbdev false l
  | held, .remove _ :: l => held = false ∧ NoCrtc l ∧ TaskOrder fbdev false l
  | held, .release _ :: l => held = false ∧ NoCrtc l ∧ TaskOrder fbdev false l
  | held, .fbProbe _ :: l => held = false ∧ TaskOrder fbdev false l

/-- What a task of thread `t` says about the device. -/
def TaskFits (cfg : FbCfg) (s : FbDev) (t : Nat) : FbTask → Prop
  | .flip c _ => c ∈ cfg.crtcs ∧ s.crtcMutex c = some t
  | .unlockCrtc c => s.crtcMutex c = some t
  | .config c _ => c ∈ cfg.crtcs
  | .setCrtc c _ => c ∈ cfg.crtcs
  | .restoreCrtcs cs _ => ∀ c ∈ cs, c ∈ cfg.crtcs
  | .offCrtcs _ cs => ∀ c ∈ cs, c ∈ cfg.crtcs
  | .list f _ => f ∈ cfg.files
  | .setPlane p _ => p ∈ cfg.planes
  | _ => True

/-- The tasks of a thread, of which the first may be the last loop of
`drm_mode_set_config_internal`. -/
def ThreadOk (cfg : FbCfg) (s : FbDev) (t : Nat) : Prop :=
  (match s.tasks t with
    | .account cs :: l => s.configMutex = some t ∧ TaskOrder s.fbdev true l ∧ cs <:+ cfg.crtcs ∧
        ∀ c ∈ cs, ∀ m, s.crtcFb c = some m →
          s.oldFb c = some m ∨ .unref m ∈ l ∨ s.fbdev = some m
    | l => TaskOrder s.fbdev (decide (s.configMutex = some t)) l) ∧
    ∀ task ∈ s.tasks t, TaskFits cfg s t task

/-- The invariant of the device. -/
structure FbDevInv (cfg : FbCfg) (s : FbDev) : Prop where
  count : ∀ m, s.refcount m = s.refs cfg m
  freed : ∀ m, s.freed m = true ↔ m < s.made ∧ s.refcount m = 0
  fresh : ∀ m, s.made ≤ m → s.refcount m = 0
  threads : ∀ t ∈ cfg.threads, ThreadOk cfg s t
  owner : ∀ t, s.configMutex = some t → t ∈ cfg.threads ∧ ∀ c ∈ cfg.crtcs, s.crtcMutex c = some t
  files : ∀ f, f ∉ cfg.files → s.fbs f = []
  crtcs : ∀ c, c ∉ cfg.crtcs → s.crtcFb c = none
  planes : ∀ p, p ∉ cfg.planes → s.planeFb p = none
  once : ∀ m, s.lists cfg m ≤ 1
  registered : ∀ m, s.idr m = true → 0 < s.lists cfg m ∨ s.fbdev = some m
  published : ∀ m, 0 < s.lists cfg m → s.idr m = true ∨ s.refcount m = 1

variable {cfg : FbCfg} {s s' : FbDev} {t m : Nat} {task : FbTask} {rest l : List FbTask}

/-! ## Tasks -/

theorem next_tasks (s : FbDev) (t : Nat) (l : List FbTask) : (s.next t l).tasks t = l := by
  simp [FbDev.next]

theorem noCrtc_nil : NoCrtc [] := by simp [NoCrtc]

theorem NoCrtc.cons (h : NoCrtc l) (htask : task.crtcLock = none) : NoCrtc (task :: l) := by
  simp only [NoCrtc, List.mem_cons, forall_eq_or_imp]
  exact ⟨htask, h⟩

theorem TaskOrder.mono {fbdev fbdev' : Option Nat} (hf : ∀ m, fbdev = some m → fbdev' = some m)
    {held : Bool} (h : TaskOrder fbdev held l) : TaskOrder fbdev' held l := by
  induction l generalizing held with
  | nil => exact h
  | cons task l ih =>
    cases task with
    | config c fb =>
      obtain ⟨hheld, hfb, hl⟩ := h
      exact ⟨hheld, fun m hm => (hfb m hm).imp_right (hf m), ih hl⟩
    | setCrtc c req => exact h
    | account cs => exact h
    | unref m => exact ih h
    | offPlanes m ps => exact ⟨h.1, h.2.1, ih h.2.2⟩
    | lockAll => exact ⟨h.1, ih h.2⟩
    | unlockAll => exact ⟨h.1, h.2.1, ih h.2.2⟩
    | offCrtcs m cs => exact ⟨h.1, ih h.2⟩
    | disablePlanes ps => exact ⟨h.1, ih h.2⟩
    | restoreCrtcs cs lit => exact ⟨h.1, ih h.2⟩
    | unlockCrtc c => exact ⟨h.1, h.2.1, ih h.2.2⟩
    | list f m => exact ⟨h.1, ih h.2⟩
    | use m => exact ⟨h.1, ih h.2⟩
    | setPlane p m => exact ⟨h.1, ih h.2⟩
    | flip c m => exact ⟨h.1, h.2.1, ih h.2.2⟩
    | remove m => exact ⟨h.1, h.2.1, ih h.2.2⟩
    | release f => exact ⟨h.1, h.2.1, ih h.2.2⟩
    | fbProbe got => exact ⟨h.1, ih h.2⟩

/-- A thread that takes the locks, or drops them, has more to do than a restore of the console. -/
theorem TaskOrder.not_restores {fbdev : Option Nat} {held : Bool} (h : TaskOrder fbdev held l)
    (hne : held = true ∨ l ≠ []) : ∃ task ∈ l, task.restores = false := by
  induction l generalizing held with
  | nil =>
    rcases hne with hheld | hne
    · rw [hheld] at h
      cases h
    · exact absurd rfl hne
  | cons task l ih =>
    have hrest (hl : TaskOrder fbdev true l) : ∃ x ∈ task :: l, x.restores = false := by
      obtain ⟨x, hx, hno⟩ := ih hl (.inl rfl)
      exact ⟨x, .tail _ hx, hno⟩
    cases task with
    | config c fb => exact hrest h.2.2
    | account cs => exact h.elim
    | disablePlanes ps => exact hrest h.2
    | restoreCrtcs cs lit => exact hrest h.2
    | _ => exact ⟨_, List.mem_cons_self, rfl⟩

theorem TaskOrder.accountOf {fbdev : Option Nat} {held : Bool} (h : TaskOrder fbdev held l) :
    accountOf l = [] := by
  cases l with
  | nil => rfl
  | cons task l =>
    cases task with
    | account cs => exact h.elim
    | _ => rfl

/-- References to drop may stand in front. -/
theorem TaskOrder.unrefOld {fbdev : Option Nat} {held : Bool} (old : Option Nat)
    (h : TaskOrder fbdev held l) : TaskOrder fbdev held (unrefOld old ++ l) := by
  cases old <;> exact h

theorem threadOk_of_order (hl : s.tasks t = l)
    (ho : TaskOrder s.fbdev (decide (s.configMutex = some t)) l)
    (hf : ∀ task ∈ l, TaskFits cfg s t task) : ThreadOk cfg s t := by
  refine ⟨?_, by rw [hl]; exact hf⟩
  rw [hl]
  cases l with
  | nil => exact ho
  | cons task l =>
    cases task with
    | account cs => exact ho.elim
    | _ => exact ho

/-- The order of the tasks, unless the thread is in the last loop of
`drm_mode_set_config_internal`. -/
theorem ThreadOk.order (h : ThreadOk cfg s t) (hl : s.tasks t = l) (hne : accountOf l = [])
    (hacc : ∀ rest, l ≠ .account [] :: rest) :
    TaskOrder s.fbdev (decide (s.configMutex = some t)) l := by
  have h := h.1
  rw [hl] at h
  cases l with
  | nil => exact h
  | cons task l =>
    cases task with
    | account cs =>
      cases cs with
      | nil => exact absurd rfl (hacc l)
      | cons c cs => cases hne
    | _ => exact h

/-! ## Holders of references -/

theorem taskRefs_pos (task : FbTask) (h : task ∈ s.tasks t) (hm : task.holds = some m) :
    0 < s.taskRefs m t :=
  holders_pos_iff.2 ⟨task, h, hm⟩

namespace FbDevInv

variable (h : FbDevInv cfg s)
include h

/-- **A framebuffer to which there is a reference is not freed.** -/
theorem alive (hm : 0 < s.refs cfg m) : s.freed m = false := by
  rw [Bool.eq_false_iff]
  intro hfreed
  have hzero := ((h.freed m).1 hfreed).2
  rw [h.count] at hzero
  omega

omit h in
theorem others_task (ht : t ∈ cfg.threads) (task : FbTask) (htask : task ∈ s.tasks t)
    (hm : task.holds = some m) : 0 < s.others cfg m := by
  have hle := le_tally (a := s.taskRefs m) ht
  have hpos := taskRefs_pos task htask hm
  rw [FbDev.others]
  omega

omit h in
theorem refs_others (hm : 0 < s.others cfg m) : 0 < s.refs cfg m := by
  rw [FbDev.refs]
  omega

omit h in
theorem refs_idr (hm : s.idr m = true) : 0 < s.refs cfg m := by
  rw [FbDev.refs, if_pos hm]
  omega

omit h in
theorem others_fbdev (hm : s.fbdev = some m) : 0 < s.others cfg m := by
  rw [FbDev.others, if_pos hm]
  omega

theorem others_plane {p : Nat} (hp : s.planeFb p = some m) : 0 < s.others cfg m := by
  have hmem : p ∈ cfg.planes := by
    by_contra hno
    rw [h.planes p hno] at hp
    cases hp
  have hpos : 0 < holders s.planeFb cfg.planes m := holders_pos_iff.2 ⟨p, hmem, hp⟩
  rw [FbDev.others]
  omega

omit h in
theorem others_shown {c : Nat} (hc : c ∈ cfg.crtcs) (hm : s.shown c = some m) :
    0 < s.others cfg m := by
  have hpos : 0 < holders s.shown cfg.crtcs m := holders_pos_iff.2 ⟨c, hc, hm⟩
  rw [FbDev.others]
  omega

theorem lists_file {f : Nat} (hf : m ∈ s.fbs f) : f ∈ cfg.files ∧ 0 < s.lists cfg m := by
  have hmem : f ∈ cfg.files := by
    by_contra hno
    rw [h.files f hno] at hf
    cases hf
  have hle := le_tally (a := fun f => (s.fbs f).count m) hmem
  have hpos : 0 < (s.fbs f).count m := List.count_pos_iff.2 hf
  refine ⟨hmem, ?_⟩
  rw [FbDev.lists]
  omega

/-- A framebuffer that a list and someone else refer to has an id. -/
theorem idr_of_others (hl : 0 < s.lists cfg m) (ho : 0 < s.others cfg m) : s.idr m = true := by
  rcases h.published m hl with hidr | hone
  · exact hidr
  · rw [h.count, FbDev.refs] at hone
    omega

end FbDevInv

/-! ## Reference counts -/

theorem get_eq (h : s.freed m = false) :
    s.get m = .ok { s with refcount := Function.update s.refcount m (s.refcount m + 1) } := by
  simp [FbDev.get, h]

theorem put_eq (h : s.freed m = false) :
    s.put m = .ok { s with
      refcount := Function.update s.refcount m (s.refcount m - 1)
      freed := if s.refcount m - 1 = 0 then Function.update s.freed m true else s.freed } := by
  simp [FbDev.put, h]

theorem putBug_eq (h : s.freed m = false) (hm : s.refcount m ≠ 1) (hpos : 0 < s.refcount m) :
    s.putBug m =
      .ok { s with refcount := Function.update s.refcount m (s.refcount m - 1) } := by
  have hne : s.refcount m - 1 ≠ 0 := by omega
  simp [FbDev.putBug, h, hne]

theorem putBug_bug (h : s.freed m = false) (hm : s.refcount m = 1) : s.putBug m = .error .bug := by
  simp [FbDev.putBug, h, hm]

/-! ## Steps and the other threads -/

/-- What a step of thread `t` leaves to the other threads. -/
structure Apart (s s' : FbDev) (t : Nat) : Prop where
  tasks : ∀ u, u ≠ t → s'.tasks u = s.tasks u
  config : ∀ u, u ≠ t → (s'.configMutex = some u ↔ s.configMutex = some u)
  crtc : ∀ u, u ≠ t → ∀ c, s.crtcMutex c = some u → s'.crtcMutex c = some u
  fbdev : ∀ m, s.fbdev = some m → s'.fbdev = some m
  shows : ∀ u, u ≠ t → s.configMutex = some u → ∀ c ∈ accountOf (s.tasks u),
    s'.crtcFb c = s.crtcFb c ∧ s'.oldFb c = s.oldFb c

/-- A step that leaves the mutexes and the crtcs alone. -/
theorem apart_next (s : FbDev) (t : Nat) (l : List FbTask) (refcount : Nat → Nat)
    (freed idr : Nat → Bool) (made : Nat) (fbs : Nat → List Nat) (planeFb : Nat → Option Nat) :
    Apart s
      { s.next t l with
        refcount := refcount
        freed := freed
        idr := idr
        made := made
        fbs := fbs
        planeFb := planeFb } t :=
  ⟨fun _ hu => Function.update_of_ne hu _ _, fun _ _ => Iff.rfl, fun _ _ _ h => h, fun _ h => h,
    fun _ _ _ _ _ => ⟨rfl, rfl⟩⟩

theorem Apart.threadOk (ha : Apart s s' t) {u : Nat} (hu : u ≠ t) (h : ThreadOk cfg s u) :
    ThreadOk cfg s' u := by
  have hconfig : decide (s'.configMutex = some u) = decide (s.configMutex = some u) :=
    decide_eq_decide.2 (ha.config u hu)
  refine ⟨?_, fun task htask => ?_⟩
  · have horder := h.1
    have hshows := ha.shows u hu
    rw [ha.tasks u hu]
    cases htasks : s.tasks u with
    | nil =>
      rw [htasks] at horder
      simp only [hconfig]
      exact horder
    | cons task l =>
      rw [htasks] at horder hshows
      cases task with
      | account cs =>
        obtain ⟨hheld, hl, hsuffix, hfb⟩ := horder
        refine ⟨(ha.config u hu).2 hheld, hl.mono ha.fbdev, hsuffix, fun c hc m hm => ?_⟩
        obtain ⟨hcrtc, hold⟩ := hshows hheld c hc
        rw [hcrtc] at hm
        rw [hold]
        rcases hfb c hc m hm with h | h | h
        · exact .inl h
        · exact .inr (.inl h)
        · exact .inr (.inr (ha.fbdev m h))
      | _ =>
        simp only [hconfig]
        exact TaskOrder.mono ha.fbdev horder
  · rw [ha.tasks u hu] at htask
    have hfits := h.2 task htask
    cases task with
    | flip c m => exact ⟨hfits.1, ha.crtc u hu c hfits.2⟩
    | unlockCrtc c => exact ha.crtc u hu c hfits
    | _ => exact hfits

/-- The crtcs that wait for their references are the same, if the thread is not in the loop. -/
theorem Apart.pending (ha : Apart s s' t) (hold : accountOf (s.tasks t) = [])
    (hnew : accountOf (s'.tasks t) = []) : s'.pending = s.pending := by
  rw [FbDev.pending, FbDev.pending]
  cases howner : s.configMutex with
  | some u =>
    by_cases hu : u = t
    · subst hu
      cases howner' : s'.configMutex with
      | none => exact hold.symm
      | some v =>
        by_cases hv : v = u
        · subst hv
          simp only [hold, hnew]
        · have := (ha.config v hv).1 howner'
          rw [howner] at this
          exact absurd (Option.some.inj this).symm hv
    · rw [(ha.config u hu).2 howner]
      simp only [ha.tasks u hu]
  | none =>
    cases howner' : s'.configMutex with
    | none => rfl
    | some v =>
      by_cases hv : v = t
      · subst hv
        simp only [hnew]
      · have := (ha.config v hv).1 howner'
        rw [howner] at this
        cases this

/-- The references of the tasks, of which those of thread `t` changed. -/
theorem Apart.taskRefs (ha : Apart s s' t) (ht : t ∈ cfg.threads) (m : Nat) :
    tally cfg.threads (s'.taskRefs m) + s.taskRefs m t =
      tally cfg.threads (s.taskRefs m) + s'.taskRefs m t :=
  tally_of_eq_off cfg.nodupThreads ht fun u _ hu => by
    rw [FbDev.taskRefs, FbDev.taskRefs, ha.tasks u hu]

/-- The lists, when only the tasks of thread `t` bring framebuffers there. -/
theorem Apart.lists (ha : Apart s s' t) (ht : t ∈ cfg.threads) (m : Nat) :
    s'.lists cfg m + tally cfg.files (fun f => (s.fbs f).count m) +
        holders FbTask.lists (s.tasks t) m =
      s.lists cfg m + tally cfg.files (fun f => (s'.fbs f).count m) +
        holders FbTask.lists (s'.tasks t) m := by
  have htally := tally_of_eq_off (a := fun u => holders FbTask.lists (s.tasks u) m)
    (b := fun u => holders FbTask.lists (s'.tasks u) m) cfg.nodupThreads ht
    fun u _ hu => by rw [ha.tasks u hu]
  rw [FbDev.lists, FbDev.lists]
  omega

theorem shown_congr (hpending : s'.pending = s.pending) (hcrtc : s'.crtcFb = s.crtcFb)
    (hold : s'.oldFb = s.oldFb) : s'.shown = s.shown := by
  funext c
  rw [FbDev.shown, FbDev.shown, hpending, hcrtc, hold]

/-- What `refcount` says about `freed`. -/
structure RefCounted (s : FbDev) : Prop where
  freed : ∀ m, s.freed m = true ↔ m < s.made ∧ s.refcount m = 0
  fresh : ∀ m, s.made ≤ m → s.refcount m = 0

namespace RefCounted

variable (h : RefCounted s)
include h

theorem made (hm : 0 < s.refcount m) : m < s.made := by
  by_contra hge
  have := h.fresh m (by omega)
  omega

theorem alive (hm : 0 < s.refcount m) : s.freed m = false := by
  rw [Bool.eq_false_iff]
  intro hfreed
  have := ((h.freed m).1 hfreed).2
  omega

/-- A count that is not raised from nothing, or lowered, for a framebuffer that exists. -/
theorem update (hm : 0 < s.refcount m) (n : Nat) :
    RefCounted { s with
      refcount := Function.update s.refcount m n
      freed := if n = 0 then Function.update s.freed m true else s.freed } := by
  have hmade := h.made hm
  refine ⟨fun i => ?_, fun i hi => ?_⟩
  · by_cases him : i = m
    · subst him
      by_cases hn : n = 0
      · simp [hn, hmade]
      · simp only [hn, if_false, Function.update_self, and_false, iff_false]
        simpa using h.alive hm
    · have hfreed : (if n = 0 then Function.update s.freed m true else s.freed) i = s.freed i := by
        split
        · exact Function.update_of_ne him _ _
        · rfl
      simp only [hfreed, Function.update_of_ne him]
      exact h.freed i
  · have him : i ≠ m := by
      intro he
      simp only [he] at hi
      omega
    simp only [Function.update_of_ne him]
    exact h.fresh i hi

theorem get (hm : 0 < s.refcount m) :
    RefCounted { s with refcount := Function.update s.refcount m (s.refcount m + 1) } :=
  h.update hm (s.refcount m + 1)

theorem put (hm : 0 < s.refcount m) :
    RefCounted { s with
      refcount := Function.update s.refcount m (s.refcount m - 1)
      freed := if s.refcount m - 1 = 0 then Function.update s.freed m true else s.freed } :=
  h.update hm (s.refcount m - 1)

theorem putBug (hm : 1 < s.refcount m) :
    RefCounted { s with refcount := Function.update s.refcount m (s.refcount m - 1) } := by
  have hput := h.put (m := m) (by omega)
  have hne : s.refcount m - 1 ≠ 0 := by omega
  simp only [hne, if_false] at hput
  exact hput

end RefCounted

namespace FbDevInv

variable (h : FbDevInv cfg s)
include h

/-- The console is restored under the locks. -/
theorem not_bare (ht : t ∈ cfg.threads) : s.bare t = false := by
  cases hl : s.tasks t with
  | nil => simp [FbDev.bare, hl]
  | cons task rest =>
    have hok := (h.threads t ht).1
    rw [hl] at hok
    have hno : ∃ x ∈ task :: rest, x.restores = false := by
      cases task with
      | account cs =>
        obtain ⟨x, hx, hno⟩ := hok.2.1.not_restores (.inl rfl)
        exact ⟨x, .tail _ hx, hno⟩
      | _ => exact TaskOrder.not_restores hok (.inr (by simp))
    obtain ⟨x, hx, hno⟩ := hno
    rw [FbDev.bare, hl, Bool.and_eq_false_iff]
    exact .inr (List.all_eq_false.2 ⟨x, hx, by simp [hno]⟩)

theorem counted : RefCounted s := ⟨h.freed, h.fresh⟩

theorem pos (hm : 0 < s.refs cfg m) : 0 < s.refcount m := by
  rw [h.count]
  exact hm

/-- **A step of thread `t`** keeps the invariant of the others. -/
theorem of_apart (ha : Apart s s' t) (ht : t ∈ cfg.threads) (hcounted : RefCounted s')
    (hcount : ∀ m, s'.refcount m = s'.refs cfg m) (hthread : ThreadOk cfg s' t)
    (howner : s'.configMutex = some t → ∀ c ∈ cfg.crtcs, s'.crtcMutex c = some t)
    (hfiles : ∀ f, f ∉ cfg.files → s'.fbs f = [])
    (hcrtcs : ∀ c, c ∉ cfg.crtcs → s'.crtcFb c = none)
    (hplanes : ∀ p, p ∉ cfg.planes → s'.planeFb p = none)
    (honce : ∀ m, s'.lists cfg m ≤ 1)
    (hregistered : ∀ m, s'.idr m = true → 0 < s'.lists cfg m ∨ s'.fbdev = some m)
    (hpublished : ∀ m, 0 < s'.lists cfg m → s'.idr m = true ∨ s'.refcount m = 1) :
    FbDevInv cfg s' := by
  refine ⟨hcount, hcounted.freed, hcounted.fresh, fun u hu => ?_, fun u hu => ?_, hfiles, hcrtcs,
    hplanes, honce, hregistered, hpublished⟩
  · by_cases hut : u = t
    · exact hut ▸ hthread
    · exact ha.threadOk hut (h.threads u hu)
  · by_cases hut : u = t
    · subst hut
      exact ⟨ht, howner hu⟩
    · obtain ⟨hmem, hall⟩ := h.owner u ((ha.config u hut).1 hu)
      exact ⟨hmem, fun c hc => ha.crtc u hut c (hall c hc)⟩

/-- **A step that leaves ids and lists alone.** A reference that it takes is to a framebuffer which
has an id or someone else refers to. -/
theorem of_same_lists (ha : Apart s s' t) (ht : t ∈ cfg.threads) (hcounted : RefCounted s')
    (hidr : s'.idr = s.idr) (hfbs : s'.fbs = s.fbs)
    (hlists : ∀ m, holders FbTask.lists (s'.tasks t) m = holders FbTask.lists (s.tasks t) m)
    (hcount : ∀ m, s'.refcount m + s.others cfg m = s.refcount m + s'.others cfg m)
    (hget : ∀ m, s'.refcount m ≠ s.refcount m → s.idr m = true ∨ 0 < s.others cfg m)
    (hthread : ThreadOk cfg s' t)
    (howner : s'.configMutex = some t → ∀ c ∈ cfg.crtcs, s'.crtcMutex c = some t)
    (hcrtcs : ∀ c, c ∉ cfg.crtcs → s'.crtcFb c = none)
    (hplanes : ∀ p, p ∉ cfg.planes → s'.planeFb p = none) : FbDevInv cfg s' := by
  have hsame (m : Nat) : s'.lists cfg m = s.lists cfg m := by
    have hl := ha.lists ht m
    rw [hfbs, hlists m] at hl
    omega
  refine h.of_apart ha ht hcounted (fun m => ?_) hthread howner (by rw [hfbs]; exact h.files) hcrtcs
    hplanes (fun m => by rw [hsame]; exact h.once m) (fun m hm => ?_) fun m hm => ?_
  · have hm := hcount m
    have hcur := h.count m
    rw [FbDev.refs] at hcur ⊢
    rw [hidr, hsame]
    omega
  · rw [hidr] at hm
    rw [hsame]
    exact (h.registered m hm).imp_right (ha.fbdev m)
  · rw [hsame] at hm
    rw [hidr]
    by_cases heq : s'.refcount m = s.refcount m
    · rw [heq]
      exact h.published m hm
    · rcases hget m heq with hid | ho
      · exact .inl hid
      · exact .inl (h.idr_of_others hm ho)

omit h in
/-- The references other than those of ids and lists, after a step that moves some within thread `t`
only. -/
theorem others_of (ha : Apart s s' t) (ht : t ∈ cfg.threads) (hshown : s'.shown = s.shown)
    (hplane : s'.planeFb = s.planeFb) (hfbdev : s'.fbdev = s.fbdev) (m : Nat) :
    s'.others cfg m + s.taskRefs m t = s.others cfg m + s'.taskRefs m t := by
  have htally := ha.taskRefs ht m
  rw [FbDev.others, FbDev.others, hshown, hplane, hfbdev]
  omega

/-- **A step that only changes reference counts** and the tasks of its thread. -/
theorem simple (ht : t ∈ cfg.threads) {refcount : Nat → Nat} {freed : Nat → Bool}
    (hold : accountOf (s.tasks t) = []) (hnew : accountOf l = [])
    (hlists : ∀ m, holders FbTask.lists l m = holders FbTask.lists (s.tasks t) m)
    (hcount : ∀ m, refcount m + s.taskRefs m t = s.refcount m + holders FbTask.holds l m)
    (hget : ∀ m, s.refcount m < refcount m → s.idr m = true ∨ 0 < s.others cfg m)
    (hcounted : RefCounted { s with refcount := refcount, freed := freed })
    (horder : TaskOrder s.fbdev (decide (s.configMutex = some t)) l)
    (hfits : ∀ task ∈ l, TaskFits cfg s t task) :
    FbDevInv cfg { s.next t l with refcount := refcount, freed := freed } := by
  have ha : Apart s { s.next t l with refcount := refcount, freed := freed } t :=
    apart_next s t l refcount freed s.idr s.made s.fbs s.planeFb
  generalize hs : ({ s.next t l with refcount := refcount, freed := freed } : FbDev) = s' at ha
  have htasks : s'.tasks t = l := by
    rw [← hs]
    exact next_tasks s t l
  have hshown : s'.shown = s.shown :=
    shown_congr (ha.pending hold (by rw [htasks, hnew])) (by rw [← hs]; rfl) (by rw [← hs]; rfl)
  have hsame : s'.refcount = refcount := by rw [← hs]
  have hnewRefs (m : Nat) : s'.taskRefs m t = holders FbTask.holds l m := by
    rw [FbDev.taskRefs, htasks]
  refine h.of_same_lists ha ht ?_ (by rw [← hs]; rfl) (by rw [← hs]; rfl)
    (by rw [htasks]; exact hlists) (fun m => ?_) (fun m hne => ?_)
    (threadOk_of_order htasks ?_ ?_) ?_ ?_ ?_
  · exact hs ▸ ⟨hcounted.freed, hcounted.fresh⟩
  · have hothers := others_of ha ht hshown (by rw [← hs]; rfl) (by rw [← hs]; rfl) m
    have hm := hcount m
    rw [hnewRefs] at hothers
    rw [hsame]
    omega
  · rw [hsame] at hne
    rcases Nat.lt_or_gt_of_ne hne with hlt | hgt
    · have hm := hcount m
      have hle := le_tally (a := s.taskRefs m) ht
      refine .inr ?_
      rw [FbDev.others]
      omega
    · exact hget m hgt
  · exact hs ▸ horder
  · exact hs ▸ hfits
  · exact hs ▸ fun hown => (h.owner t hown).2
  · exact hs ▸ h.crtcs
  · exact hs ▸ h.planes

/-- The first task is replaced by others and reference counts are changed. -/
theorem replace (ht : t ∈ cfg.threads) (hl : s.tasks t = task :: rest)
    (hacc : accountOf (task :: rest) = []) (new : List FbTask)
    (hlists : ∀ i, holders FbTask.lists new i = if task.lists = some i then 1 else 0)
    {refcount : Nat → Nat} {freed : Nat → Bool}
    (hcount : ∀ m, refcount m + (if task.holds = some m then 1 else 0) =
      s.refcount m + holders FbTask.holds new m)
    (hget : ∀ m, s.refcount m < refcount m → s.idr m = true ∨ 0 < s.others cfg m)
    (hcounted : RefCounted { s with refcount := refcount, freed := freed })
    (horder : TaskOrder s.fbdev (decide (s.configMutex = some t)) (new ++ rest))
    (hfits : ∀ task ∈ new, TaskFits cfg s t task) :
    FbDevInv cfg { s.next t (new ++ rest) with refcount := refcount, freed := freed } := by
  refine h.simple ht (by rw [hl, hacc]) horder.accountOf (fun m => ?_) (fun m => ?_) hget hcounted
    horder fun task' htask => ?_
  · have hm := hlists m
    rw [hl, holders_cons, holders, holders, List.countP_append]
    rw [holders] at hm
    omega
  · have hm := hcount m
    rw [FbDev.taskRefs, hl, holders_cons, holders, holders, List.countP_append]
    rw [holders] at hm
    omega
  · rcases List.mem_append.1 htask with hmem | hmem
    · exact hfits task' hmem
    · exact (h.threads t ht).2 task' (by rw [hl]; exact List.mem_cons_of_mem _ hmem)

/-- The same without a change of a reference count. -/
theorem replace_same (ht : t ∈ cfg.threads) (hl : s.tasks t = task :: rest)
    (hacc : accountOf (task :: rest) = []) (new : List FbTask)
    (hlists : ∀ i, holders FbTask.lists new i = if task.lists = some i then 1 else 0)
    (hcount : ∀ i, holders FbTask.holds new i = if task.holds = some i then 1 else 0)
    (horder : TaskOrder s.fbdev (decide (s.configMutex = some t)) (new ++ rest))
    (hfits : ∀ task ∈ new, TaskFits cfg s t task) : FbDevInv cfg (s.next t (new ++ rest)) :=
  h.replace ht hl hacc new hlists (fun m => by rw [hcount m])
    (fun _ hlt => absurd hlt (Nat.lt_irrefl _)) h.counted horder hfits

/-- A reference more, which the new tasks hold. -/
theorem replace_get (ht : t ∈ cfg.threads) (hl : s.tasks t = task :: rest)
    (hacc : accountOf (task :: rest) = []) (new : List FbTask)
    (hlists : ∀ i, holders FbTask.lists new i = if task.lists = some i then 1 else 0)
    (hknown : s.idr m = true ∨ 0 < s.others cfg m) (hholds : task.holds = none)
    (hcount : ∀ i, holders FbTask.holds new i = if m = i then 1 else 0)
    (horder : TaskOrder s.fbdev (decide (s.configMutex = some t)) (new ++ rest))
    (hfits : ∀ task ∈ new, TaskFits cfg s t task) :
    ∃ s', s.get m = .ok s' ∧ FbDevInv cfg (s'.next t (new ++ rest)) := by
  have hpos : 0 < s.refs cfg m := hknown.elim refs_idr refs_others
  refine ⟨_, get_eq (h.alive hpos), ?_⟩
  refine h.replace ht hl hacc new hlists (fun i => ?_) (fun i hlt => ?_)
    (h.counted.get (h.pos hpos)) horder hfits
  · rw [hcount i, hholds]
    dsimp only
    rw [Function.update_apply]
    by_cases him : i = m
    · subst him
      simp
    · simp [him, Ne.symm him]
  · by_cases him : i = m
    · exact him ▸ hknown
    · dsimp only at hlt
      rw [Function.update_of_ne him] at hlt
      exact absurd hlt (Nat.lt_irrefl _)

end FbDevInv

end Drm
