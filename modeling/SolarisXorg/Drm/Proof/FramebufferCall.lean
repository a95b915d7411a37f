import SolarisXorg.Drm.Proof.FramebufferStep

/-!
# The calls of the threads

A call of a thread that is in none starts with a reference to the framebuffer that it looked up
(`start_get`), or with one that changes hands. The framebuffer of the console is made
(`probe_new`), or made again, which changes at most its id while it is in no use (`probe_again`).
With the tasks (`FbDevInv.exec_cases`) every step of every thread keeps the invariant, waits for a
mutex, or reaches one of the two `BUG`s of `BugAt` (`FbDevInv.step_cases`).
-/

namespace Drm

open Lib

variable {cfg : FbCfg} {s s' : FbDev} {t m : Nat} {task : FbTask} {rest l : List FbTask}
  {ans : FbAnswer}

/-! ## Orderly steps -/

section

variable {act : FbAct} (hord : s.orderly cfg ⟨t, act, ans⟩ = true)
include hord

theorem orderly_renewable {got : Bool} (hl : s.tasks t = .fbProbe got :: rest)
    (hok : ans.ok = true) (hm : s.fbdev = some m) : s.renewable m got = true := by
  have hstart := (Bool.and_eq_true _ _).mp hord |>.1
  simpa [hl, hok, hm] using hstart

theorem orderly_unlocked {lit : Nat → Bool} (hl : s.tasks t = []) (hact : act = .restore false lit) :
    s.unlocked cfg = true := by
  have hstart := (Bool.and_eq_true _ _).mp hord |>.1
  simpa [hl, hact] using hstart

theorem orderly_alone {u : Nat} (hu : u ∈ cfg.threads) (hbare : s.bare u = true) : u = t := by
  have hall := (Bool.and_eq_true _ _).mp hord |>.2
  simpa [hbare] using List.all_eq_true.1 hall u hu

end

namespace FbDevInv

variable (h : FbDevInv cfg s) (ht : t ∈ cfg.threads)
include h ht

/-! ## Starts of calls -/

/-- A thread between two calls has no lock. -/
theorem idle_held (hl : s.tasks t = []) : decide (s.configMutex = some t) = false :=
  (h.threads t ht).order hl rfl (by simp)

/-- A call that holds no reference yet. -/
theorem start_same (hl : s.tasks t = []) (new : List FbTask)
    (hlists : ∀ i, holders FbTask.lists new i = 0) (hcount : ∀ i, holders FbTask.holds new i = 0)
    (horder : TaskOrder s.fbdev false new) (hfits : ∀ task ∈ new, TaskFits cfg s t task) :
    FbDevInv cfg (s.next t new) := by
  refine h.simple ht (by rw [hl]; rfl) horder.accountOf (fun i => ?_) (fun i => ?_)
    (fun i hlt => absurd hlt (Nat.lt_irrefl _)) h.counted
    (by rw [h.idle_held ht hl]; exact horder) hfits
  · rw [hlists, hl]
    rfl
  · rw [FbDev.taskRefs, hl, hcount]
    rfl

/-- A call that has looked its framebuffer up. -/
theorem start_get (hl : s.tasks t = []) (hidr : s.idr m = true) (new : FbTask)
    (hlists : new.lists = none) (hholds : new.holds = some m)
    (horder : TaskOrder s.fbdev false [new]) (hfits : TaskFits cfg s t new) :
    FbDevInv cfg { s.next t [new] with
      refcount := Function.update s.refcount m (s.refcount m + 1) } := by
  have hpos := h.pos (refs_idr hidr)
  refine h.simple ht (by rw [hl]; rfl) horder.accountOf (fun i => ?_) (fun i => ?_)
    (fun i hlt => ?_) (h.counted.get hpos) (by rw [h.idle_held ht hl]; exact horder)
    (by simpa using hfits)
  · rw [hl, holders_cons, hlists]
    simp [holders]
  · rw [FbDev.taskRefs, hl, holders_cons, hholds, Function.update_apply]
    by_cases him : i = m
    · simp [him, holders]
    · simp [him, Ne.symm him, holders]
  · by_cases him : i = m
    · exact .inl (him ▸ hidr)
    · rw [Function.update_of_ne him] at hlt
      exact absurd hlt (Nat.lt_irrefl _)

/-- `mutex_lock(&crtc->mutex)` in `drm_mode_page_flip_ioctl` -/
theorem take_crtc {c : Nat} (hl : s.tasks t = []) (hc : c ∈ cfg.crtcs)
    (hfree : s.crtcMutex c = none) :
    FbDevInv cfg { s with crtcMutex := Function.update s.crtcMutex c (some t) } := by
  have hnone : s.configMutex = none := by
    cases hown : s.configMutex with
    | none => rfl
    | some u =>
      have hall := (h.owner u hown).2 c hc
      rw [hfree] at hall
      cases hall
  have ha : Apart s { s with crtcMutex := Function.update s.crtcMutex c (some t) } t := by
    refine ⟨fun _ _ => rfl, fun _ _ => Iff.rfl, fun u hu d hd => ?_, fun _ h => h,
      fun _ _ _ _ _ => ⟨rfl, rfl⟩⟩
    have hdc : d ≠ c := fun he => by
      rw [he, hfree] at hd
      cases hd
    exact (Function.update_of_ne hdc _ _).trans hd
  refine h.of_same_lists ha ht ⟨h.freed, h.fresh⟩ rfl rfl (fun _ => rfl) (fun i => ?_)
    (fun i hne => absurd rfl hne) (threadOk_of_order hl ?_ (by simp)) (fun hown => ?_) h.crtcs
    h.planes
  · rfl
  · exact h.idle_held ht hl
  · rw [hnone] at hown
    cases hown

/-! ## New framebuffers -/

omit ht in
/-- Nobody knows a framebuffer before it is made. -/
theorem unknown : s.idr s.made = false ∧ s.lists cfg s.made = 0 ∧ s.others cfg s.made = 0 := by
  have hzero := h.fresh s.made (Nat.le_refl _)
  rw [h.count, FbDev.refs] at hzero
  refine ⟨?_, by omega, by omega⟩
  cases hidr : s.idr s.made with
  | false => rfl
  | true =>
    rw [if_pos hidr] at hzero
    omega

omit ht in
theorem counted_init (got : Bool) : RefCounted (s.init got) := by
  refine ⟨fun i => ?_, fun i hi => ?_⟩
  · by_cases him : i = s.made
    · have hfreed : s.freed i = false := by
        rw [Bool.eq_false_iff]
        intro hfreed
        have := ((h.freed i).1 hfreed).1
        omega
      have hpos : (if got then 2 else 1) ≠ 0 := by cases got <;> simp
      subst him
      simp only [FbDev.init, hfreed, Function.update_self, hpos, and_false, Bool.false_eq_true]
    · have hlt : i < s.made + 1 ↔ i < s.made := by omega
      simp only [FbDev.init, Function.update_of_ne him, hlt]
      exact h.freed i
  · have him : i ≠ s.made := by
      simp only [FbDev.init] at hi
      omega
    simp only [FbDev.init, Function.update_of_ne him]
    simp only [FbDev.init] at hi
    exact h.fresh i (by omega)

omit ht in
/-- The count of a new framebuffer, which its creator puts at one place. -/
theorem count_init {got : Bool} (hidr : s'.idr = Function.update s.idr s.made got)
    (href : s'.refcount = Function.update s.refcount s.made (if got then 2 else 1))
    (hplace : ∀ i, s'.lists cfg i + s'.others cfg i =
      s.lists cfg i + s.others cfg i + if s.made = i then 1 else 0) (i : Nat) :
    s'.refcount i = s'.refs cfg i := by
  have hsum := hplace i
  rw [FbDev.refs, hidr, href, Function.update_apply, Function.update_apply]
  by_cases him : i = s.made
  · obtain ⟨-, hlists, hothers⟩ := h.unknown
    subst him
    rw [hlists, hothers, if_pos rfl] at hsum
    cases got <;> simp <;> omega
  · have hcur := h.count i
    rw [FbDev.refs] at hcur
    rw [if_neg (Ne.symm him)] at hsum
    rw [if_neg him, if_neg him]
    omega

theorem call_addfb {f : Nat} {got : Bool} (hl : s.tasks t = []) (hf : f ∈ cfg.files) :
    FbDevInv cfg ((s.init got).next t [.list f s.made]) := by
  obtain ⟨-, hlists0, -⟩ := h.unknown
  have hcounted := h.counted_init got
  have ha : Apart s ((s.init got).next t [.list f s.made]) t :=
    apart_next s t _ _ s.freed _ (s.made + 1) s.fbs s.planeFb
  generalize hs : (s.init got).next t [.list f s.made] = s' at ha
  have htasks : s'.tasks t = [.list f s.made] := by
    rw [← hs]
    exact next_tasks _ t _
  have hidr : s'.idr = Function.update s.idr s.made got := by rw [← hs]; rfl
  have href : s'.refcount = Function.update s.refcount s.made (if got then 2 else 1) := by
    rw [← hs]
    rfl
  have hshown : s'.shown = s.shown :=
    shown_congr (ha.pending (by rw [hl]; rfl) (by rw [htasks]; rfl)) (by rw [← hs]; rfl)
      (by rw [← hs]; rfl)
  have hlists (i : Nat) : s'.lists cfg i = s.lists cfg i + if s.made = i then 1 else 0 := by
    have hap := ha.lists ht i
    have hfbs : s'.fbs = s.fbs := by rw [← hs]; rfl
    rw [htasks, hl, hfbs, holders_cons] at hap
    simp only [FbTask.lists, Option.some.injEq, holders, List.countP_nil] at hap
    omega
  have hothers (i : Nat) : s'.others cfg i = s.others cfg i := by
    have hof := others_of ha ht hshown (by rw [← hs]; rfl) (by rw [← hs]; rfl) i
    rw [FbDev.taskRefs, FbDev.taskRefs, htasks, hl] at hof
    simp only [holders, FbTask.holds, List.countP_cons, List.countP_nil] at hof
    simpa using hof
  refine h.of_apart ha ht ?_ (fun i => ?_) (threadOk_of_order htasks ?_ ?_) ?_ ?_ ?_ ?_
    (fun i => ?_) (fun i hi => ?_) fun i hi => ?_
  · exact hs ▸ ⟨hcounted.freed, hcounted.fresh⟩
  · exact h.count_init hidr href (fun j => by rw [hlists, hothers]; omega) i
  · have hfalse : TaskOrder s.fbdev (decide (s.configMutex = some t)) [.list f s.made] := by
      rw [h.idle_held ht hl]
      exact ⟨rfl, rfl⟩
    exact hs ▸ hfalse
  · intro task htask
    rw [List.mem_singleton.1 htask]
    exact hf
  · exact hs ▸ fun hown => (h.owner t hown).2
  · exact hs ▸ h.files
  · exact hs ▸ h.crtcs
  · exact hs ▸ h.planes
  · rw [hlists]
    have honce := h.once i
    split
    next him =>
      subst him
      omega
    next => exact honce
  · rw [hidr, Function.update_apply] at hi
    rw [hlists]
    split at hi
    next him => exact .inl (by rw [if_pos him.symm]; omega)
    next him =>
      rw [if_neg (Ne.symm him)]
      exact (h.registered i hi).imp_right (ha.fbdev i)
  · rw [hlists] at hi
    rw [hidr, href, Function.update_apply, Function.update_apply]
    by_cases him : i = s.made
    · cases got <;> simp [him]
    · rw [if_neg (Ne.symm him)] at hi
      rw [if_neg him, if_neg him]
      exact h.published i hi

/-- The framebuffer of the console is made. -/
theorem probe_new {got : Bool} (hl : s.tasks t = .fbProbe got :: rest) (hnone : s.fbdev = none) :
    FbDevInv cfg { (s.init got).next t rest with fbdev := some s.made } := by
  obtain ⟨-, hlists0, -⟩ := h.unknown
  obtain ⟨hheld, hrest⟩ := h.order_of ht hl (by simp)
  have hcounted := h.counted_init got
  have ha : Apart s { (s.init got).next t rest with fbdev := some s.made } t :=
    ⟨fun _ hu => Function.update_of_ne hu _ _, fun _ _ => Iff.rfl, fun _ _ _ h => h,
      fun m hm => absurd (hm.symm.trans hnone) (by simp), fun _ _ _ _ _ => ⟨rfl, rfl⟩⟩
  generalize hs : ({ (s.init got).next t rest with fbdev := some s.made } : FbDev) = s' at ha
  have htasks : s'.tasks t = rest := by
    rw [← hs]
    exact next_tasks _ t rest
  have hfbdev : s'.fbdev = some s.made := by rw [← hs]
  have hidr : s'.idr = Function.update s.idr s.made got := by rw [← hs]; rfl
  have href : s'.refcount = Function.update s.refcount s.made (if got then 2 else 1) := by
    rw [← hs]
    rfl
  have hshown : s'.shown = s.shown :=
    shown_congr (ha.pending (by rw [hl]; rfl) (by rw [htasks, hrest.accountOf]))
      (by rw [← hs]; rfl) (by rw [← hs]; rfl)
  have hlists (i : Nat) : s'.lists cfg i = s.lists cfg i := by
    have hap := ha.lists ht i
    have hfbs : s'.fbs = s.fbs := by rw [← hs]; rfl
    rw [htasks, hl, hfbs, holders_cons] at hap
    simp only [FbTask.lists, reduceCtorEq, if_false] at hap
    omega
  have hothers (i : Nat) : s'.others cfg i = s.others cfg i + if s.made = i then 1 else 0 := by
    have htally := ha.taskRefs ht i
    have hplane : s'.planeFb = s.planeFb := by rw [← hs]; rfl
    rw [FbDev.taskRefs, FbDev.taskRefs, htasks, hl, holders_cons] at htally
    simp only [FbTask.holds, reduceCtorEq, if_false] at htally
    rw [FbDev.others, FbDev.others, hshown, hplane, hfbdev, hnone]
    simp only [Option.some.injEq, reduceCtorEq, if_false]
    omega
  refine h.of_apart ha ht ?_ (fun i => ?_) (threadOk_of_order htasks ?_ ?_) ?_ ?_ ?_ ?_
    (fun i => by rw [hlists]; exact h.once i) (fun i hi => ?_) fun i hi => ?_
  · exact hs ▸ ⟨hcounted.freed, hcounted.fresh⟩
  · exact h.count_init hidr href (fun j => by rw [hlists, hothers]; omega) i
  · have horder : TaskOrder s.fbdev (decide (s.configMutex = some t)) rest := hheld ▸ hrest
    have hmono := horder.mono ha.fbdev
    rw [← hs] at hmono ⊢
    exact hmono
  · exact hs ▸ fun task htask => (h.threads t ht).2 task (by rw [hl]; exact .tail _ htask)
  · exact hs ▸ fun hown => (h.owner t hown).2
  · exact hs ▸ h.files
  · exact hs ▸ h.crtcs
  · exact hs ▸ h.planes
  · rw [hidr, Function.update_apply] at hi
    rw [hlists]
    split at hi
    next him => exact .inr (him ▸ hfbdev)
    next him => exact (h.registered i hi).imp_right (ha.fbdev i)
  · rw [hlists] at hi
    have him : i ≠ s.made := fun he => by
      subst he
      omega
    rw [hidr, href, Function.update_of_ne him, Function.update_of_ne him]
    exact h.published i hi

/-- The framebuffer of the console gets an id. -/
theorem probe_id {got : Bool} (hl : s.tasks t = .fbProbe got :: rest) (hm : s.fbdev = some m)
    (hidr : s.idr m = false) :
    FbDevInv cfg { s.next t rest with
      refcount := Function.update s.refcount m (s.refcount m + 1)
      idr := Function.update s.idr m true } := by
  obtain ⟨hheld, hrest⟩ := h.order_of ht hl (by simp)
  have hcounted := h.counted.get (h.pos (refs_others (others_fbdev hm)))
  have ha : Apart s { s.next t rest with
      refcount := Function.update s.refcount m (s.refcount m + 1)
      idr := Function.update s.idr m true } t :=
    apart_next s t rest _ s.freed _ s.made s.fbs s.planeFb
  generalize hs : ({ s.next t rest with
      refcount := Function.update s.refcount m (s.refcount m + 1)
      idr := Function.update s.idr m true } : FbDev) = s' at ha
  have htasks : s'.tasks t = rest := by
    rw [← hs]
    exact next_tasks s t rest
  have hfbdev : s'.fbdev = s.fbdev := by rw [← hs]; rfl
  have hidr' : s'.idr = Function.update s.idr m true := by rw [← hs]
  have href : s'.refcount = Function.update s.refcount m (s.refcount m + 1) := by rw [← hs]
  have hshown : s'.shown = s.shown :=
    shown_congr (ha.pending (by rw [hl]; rfl) (by rw [htasks, hrest.accountOf]))
      (by rw [← hs]; rfl) (by rw [← hs]; rfl)
  have hlists (i : Nat) : s'.lists cfg i = s.lists cfg i := by
    have hap := ha.lists ht i
    have hfbs : s'.fbs = s.fbs := by rw [← hs]; rfl
    rw [htasks, hl, hfbs, holders_cons] at hap
    simp only [FbTask.lists, reduceCtorEq, if_false] at hap
    omega
  have hothers (i : Nat) : s'.others cfg i = s.others cfg i := by
    have hof := others_of ha ht hshown (by rw [← hs]; rfl) hfbdev i
    rw [FbDev.taskRefs, FbDev.taskRefs, htasks, hl, holders_cons] at hof
    simp only [FbTask.holds, reduceCtorEq, if_false] at hof
    omega
  refine h.of_apart ha ht ?_ (fun i => ?_) (threadOk_of_order htasks ?_ ?_) ?_ ?_ ?_ ?_
    (fun i => by rw [hlists]; exact h.once i) (fun i hi => ?_) fun i hi => ?_
  · exact hs ▸ ⟨hcounted.freed, hcounted.fresh⟩
  · have hcur := h.count i
    rw [FbDev.refs] at hcur ⊢
    rw [hidr', href, hlists, hothers, Function.update_apply, Function.update_apply]
    by_cases him : i = m
    · subst him
      rw [hidr] at hcur
      simp only [if_true, Bool.false_eq_true, if_false] at hcur ⊢
      omega
    · rw [if_neg him, if_neg him]
      exact hcur
  · have horder : TaskOrder s.fbdev (decide (s.configMutex = some t)) rest := hheld ▸ hrest
    exact hs ▸ horder
  · exact hs ▸ fun task htask => (h.threads t ht).2 task (by rw [hl]; exact .tail _ htask)
  · exact hs ▸ fun hown => (h.owner t hown).2
  · exact hs ▸ h.files
  · exact hs ▸ h.crtcs
  · exact hs ▸ h.planes
  · rw [hidr', Function.update_apply] at hi
    rw [hlists, hfbdev]
    split at hi
    next him => exact .inr (him ▸ hm)
    next him => exact h.registered i hi
  · rw [hlists] at hi
    rw [hidr', href, Function.update_apply, Function.update_apply]
    by_cases him : i = m
    · exact .inl (if_pos him)
    · rw [if_neg him, if_neg him]
      exact h.published i hi

/-- **`drm_framebuffer_init` once more** gives the console's framebuffer an id at most, if only the
references of its creation are there. -/
theorem probe_again {got : Bool} (hl : s.tasks t = .fbProbe got :: rest) (hm : s.fbdev = some m)
    (hrenew : s.renewable m got = true) : FbDevInv cfg ((s.reinit m got).next t rest) := by
  obtain ⟨hheld, hrest⟩ := h.order_of ht hl (by simp)
  rw [FbDev.renewable, Bool.and_eq_true, beq_iff_eq] at hrenew
  obtain ⟨hcount, hid⟩ := hrenew
  have hsame : FbDevInv cfg (s.next t ([] ++ rest)) :=
    h.replace_same ht hl rfl [] (fun _ => rfl) (fun _ => rfl) (hheld ▸ hrest) (by simp)
  cases hidr : s.idr m with
  | false =>
    rw [hidr] at hcount
    cases got with
    | false =>
      have hinit : s.reinit m false = s := by
        rw [FbDev.reinit, ← hcount]
        simp
      rw [hinit]
      exact hsame
    | true =>
      have hnew := h.probe_id ht hl hm hidr
      rw [hcount] at hnew
      exact hnew
  | true =>
    rw [hidr] at hcount hid
    cases got with
    | false => cases hid
    | true =>
      have hinit : s.reinit m true = s := by
        rw [FbDev.reinit, ← hcount, ← hidr]
        simp
      rw [hinit]
      exact hsame

theorem exec_fbProbe {got : Bool} (hl : s.tasks t = .fbProbe got :: rest)
    (hrenew : ans.ok = true → ∀ m, s.fbdev = some m → s.renewable m got = true) :
    Keeps cfg (fbExec cfg s t ans rest (.fbProbe got)) := by
  obtain ⟨hheld, hrest⟩ := h.order_of ht hl (by simp)
  rw [fbExec]
  by_cases hok : ans.ok = true
  case neg =>
    exact ⟨_, if_neg hok, h.replace_same ht hl rfl [] (fun _ => rfl) (fun _ => rfl)
      (hheld ▸ hrest) (by simp)⟩
  rw [if_pos hok]
  cases hfbdev : s.fbdev with
  | none => exact ⟨_, rfl, h.probe_new ht hl hfbdev⟩
  | some m =>
    have htouch := touch_eq (h.alive (refs_others (others_fbdev hfbdev)))
    refine ⟨_, ?_, h.probe_again ht hl hfbdev (hrenew hok m hfbdev)⟩
    simp only [htouch]
    rfl

/-! ## Steps -/

end FbDevInv

/-- The two places where a reference is dropped that must not be the last one: `drm_fb_release` of a
framebuffer for which `drm_mode_object_get` found no id, and the console taking a plane from a
framebuffer that nobody else refers to. -/
def BugAt (s : FbDev) (t : Nat) : Prop :=
  (∃ f m l rest, s.tasks t = .release f :: rest ∧ s.fbs f = m :: l ∧ s.idr m = false) ∨
    ∃ p ps m rest, s.tasks t = .disablePlanes (p :: ps) :: rest ∧ s.planeFb p = some m ∧
      s.refcount m = 1

/-- How a step of thread `t` ends. -/
def Ends (cfg : FbCfg) (s : FbDev) (t : Nat) (r : Except FbStop FbDev) : Prop :=
  Keeps cfg r ∨ r = .error .blocked ∨ (r = .error .bug ∧ BugAt s t)

namespace FbDevInv

variable (h : FbDevInv cfg s) (ht : t ∈ cfg.threads)
include h ht

theorem exec_cases (hl : s.tasks t = task :: rest)
    (hrenew : ∀ got, task = .fbProbe got → ans.ok = true → ∀ m, s.fbdev = some m →
      s.renewable m got = true) :
    Ends cfg s t (fbExec cfg s t ans rest task) := by
  cases task with
  | lockAll =>
    by_cases hwait : fbExec cfg s t ans rest .lockAll = .error .blocked
    · exact .inr (.inl hwait)
    · exact .inl (h.exec_lockAll ht hl hwait)
  | setPlane p m =>
    by_cases hwait : fbExec cfg s t ans rest (.setPlane p m) = .error .blocked
    · exact .inr (.inl hwait)
    · exact .inl (h.exec_setPlane ht hl hwait)
  | release f =>
    rcases h.exec_release ht hl ans with hkeeps | ⟨hbug, m, l, hfbs, hidr⟩
    · exact .inl hkeeps
    · exact .inr (.inr ⟨hbug, .inl ⟨f, m, l, rest, hl, hfbs, hidr⟩⟩)
  | disablePlanes ps =>
    rcases h.exec_disablePlanes ht hl ans with
      hkeeps | ⟨hbug, p, ps', m, rfl, hp, hone⟩
    · exact .inl hkeeps
    · exact .inr (.inr ⟨hbug, .inr ⟨p, ps', m, rest, hl, hp, hone⟩⟩)
  | unlockAll => exact .inl (h.exec_unlockAll ht hl)
  | unlockCrtc c => exact .inl (h.exec_unlockCrtc ht hl)
  | unref m => exact .inl (h.exec_unref ht hl)
  | list f m => exact .inl (h.exec_list ht hl)
  | use m => exact .inl (h.exec_use ht hl)
  | setCrtc c req => exact .inl (h.exec_setCrtc ht hl)
  | config c fb => exact .inl (h.exec_config ht hl)
  | account cs => exact .inl (h.exec_account ht hl)
  | flip c m => exact .inl (h.exec_flip ht hl)
  | remove m => exact .inl (h.exec_remove ht hl)
  | offCrtcs m cs => exact .inl (h.exec_offCrtcs ht hl)
  | offPlanes m ps => exact .inl (h.exec_offPlanes ht hl)
  | restoreCrtcs cs lit => exact .inl (h.exec_restoreCrtcs ht hl)
  | fbProbe got => exact .inl (h.exec_fbProbe ht hl (hrenew got rfl))

theorem call_rmfb {f : Nat} (hl : s.tasks t = []) :
    Keeps cfg (fbCall cfg s t (.rmfb f m)) := by
  rw [fbCall]
  by_cases hin : s.idr m = true ∧ m ∈ s.fbs f
  case neg => exact ⟨_, if_neg hin, h⟩
  obtain ⟨s', hs', hinv⟩ := h.unregister_spec ht (l := [.remove m]) ((s.fbs f).erase m) hin.2
    (fun i => by
      rw [List.count_erase]
      have hpos : 0 < (s.fbs f).count m := List.count_pos_iff.2 hin.2
      by_cases him : m = i
      · subst him
        simp only [beq_self_eq_true, if_true]
        omega
      · simp [him])
    hin.1 (by rw [hl]; rfl) (fun i => by rw [hl]; rfl)
    (fun i => by rw [FbDev.taskRefs, hl, holders_cons]; simp [FbTask.holds])
    (by rw [h.idle_held ht hl]; exact ⟨rfl, noCrtc_nil, rfl⟩) (by simp [TaskFits])
  have hfbs : s'.fbs = s.fbs := by
    rw [FbDev.unregister, FbDev.putBug] at hs'
    split at hs'
    · cases hs'
    · split at hs'
      · cases hs'
      · cases hs'
        rfl
  refine ⟨_, ?_, hinv⟩
  rw [if_pos hin, hs', ← hfbs]
  rfl

theorem call_setplane {p : Nat} (hl : s.tasks t = []) (id : Option Nat) :
    Ends cfg s t (fbCall cfg s t (.setplane p id)) := by
  cases id with
  | none =>
    rw [fbCall]
    by_cases hp : p ∈ cfg.planes
    case neg => exact .inl ⟨s, if_pos hp, h⟩
    rw [if_neg (by simpa using hp)]
    by_cases hfree : s.unlocked cfg = true
    case neg => exact .inr (.inl (if_neg hfree))
    refine .inl ⟨_, if_pos hfree, ?_⟩
    have hnil : TaskOrder s.fbdev (decide (s.configMutex = some t))
        (unrefOld (s.planeFb p) ++ []) := by
      rw [h.idle_held ht hl]
      exact TaskOrder.unrefOld _ rfl
    rw [List.append_nil] at hnil
    refine h.plane_move ht hp (by rw [hl]; rfl) (fun i => ?_) (fun i => ?_)
      (fun i hne => absurd rfl hne) h.counted hnil (unrefOld_fits _)
    · rw [← List.append_nil (unrefOld _), unrefOld_lists, hl]
    · have hsame : (s.next t (unrefOld (s.planeFb p))).refcount = s.refcount := rfl
      rw [FbDev.taskRefs, hl, ← List.append_nil (unrefOld _), unrefOld_holds, List.append_nil,
        hsame]
      simp only [reduceCtorEq, if_false]
      omega
  | some m =>
    rw [fbCall]
    by_cases hin : p ∈ cfg.planes ∧ s.idr m = true
    case neg => exact .inl ⟨s, if_neg hin, h⟩
    refine .inl ⟨_, ?_, h.start_get ht hl hin.2 (.setPlane p m) rfl rfl ⟨rfl, rfl⟩ hin.1⟩
    rw [if_pos hin, get_eq (h.alive (refs_idr hin.2))]
    rfl

theorem call_pageFlip {c : Nat} (hl : s.tasks t = []) :
    Ends cfg s t (fbCall cfg s t (.pageFlip c m)) := by
  rw [fbCall]
  by_cases hc : c ∈ cfg.crtcs
  case neg => exact .inl ⟨s, if_pos hc, h⟩
  rw [if_neg (by simpa using hc)]
  by_cases hbusy : (s.crtcMutex c).isSome = true
  · exact .inr (.inl (if_pos hbusy))
  rw [if_neg hbusy]
  by_cases hno : ((s.crtcFb c).isNone || !s.idr m) = true
  · exact .inl ⟨s, if_pos hno, h⟩
  rw [if_neg hno]
  have hidr : s.idr m = true := by
    cases hidr : s.idr m with
    | true => rfl
    | false => simp [hidr] at hno
  have htaken := h.take_crtc ht hl hc (by simpa using hbusy)
  refine .inl ⟨_, ?_, htaken.start_get ht hl hidr (.flip c m) rfl rfl ⟨rfl, noCrtc_nil, rfl⟩
    ⟨hc, Function.update_self _ _ _⟩⟩
  rw [get_eq (h.alive (refs_idr hidr))]
  rfl

theorem call_hotplug {got : Bool} (hl : s.tasks t = []) :
    Ends cfg s t (fbCall cfg s t (.hotplug got)) := by
  rw [fbCall]
  cases hfbdev : s.fbdev with
  | none => exact .inl ⟨s, rfl, h⟩
  | some m =>
    by_cases hbusy : s.configMutex.isSome = true
    · exact .inr (.inl (if_pos hbusy))
    by_cases hbound : s.isBound cfg m = true
    case neg => exact .inl ⟨s, (if_neg hbusy).trans (if_neg hbound), h⟩
    have htouch := touch_eq (h.alive (refs_others (others_fbdev hfbdev)))
    refine .inl ⟨_, ?_, h.start_same ht hl [.lockAll, .unlockAll, .fbProbe got] (fun _ => rfl)
      (fun _ => rfl) ⟨rfl, rfl, noCrtc_nil.cons rfl, rfl, rfl⟩ (by simp [TaskFits])⟩
    simp only [if_neg hbusy, if_pos hbound, htouch]
    rfl

theorem call_cases (act : FbAct) (hl : s.tasks t = [])
    (hlocked : ∀ lit, act ≠ .restore false lit) : Ends cfg s t (fbCall cfg s t act) := by
  cases act with
  | go => exact .inl ⟨s, rfl, h⟩
  | addfb f got =>
    rw [fbCall]
    by_cases hf : f ∈ cfg.files
    · exact .inl ⟨_, if_pos hf, h.call_addfb ht hl hf⟩
    · exact .inl ⟨s, if_neg hf, h⟩
  | rmfb f m => exact .inl (h.call_rmfb ht hl)
  | getfb m =>
    rw [fbCall]
    by_cases hidr : s.idr m = true
    case neg => exact .inl ⟨s, if_neg hidr, h⟩
    refine .inl ⟨_, ?_, h.start_get ht hl hidr (.use m) rfl rfl ⟨rfl, rfl⟩ trivial⟩
    rw [if_pos hidr, get_eq (h.alive (refs_idr hidr))]
    rfl
  | setcrtc c req =>
    rw [fbCall]
    by_cases hc : c ∈ cfg.crtcs
    case neg => exact .inl ⟨s, if_neg hc, h⟩
    exact .inl ⟨_, if_pos hc, h.start_same ht hl _ (fun _ => rfl) (fun _ => rfl)
      ⟨rfl, rfl, rfl⟩ (by simp [TaskFits, hc])⟩
  | setplane p id => exact h.call_setplane ht hl id
  | pageFlip c m => exact h.call_pageFlip ht hl
  | close f =>
    exact .inl ⟨_, rfl, h.start_same ht hl _ (fun _ => rfl) (fun _ => rfl)
      ⟨rfl, noCrtc_nil, rfl⟩ (by simp [TaskFits])⟩
  | restore locked lit =>
    cases locked with
    | false => exact absurd rfl (hlocked lit)
    | true =>
      exact .inl ⟨_, rfl, h.start_same ht hl _ (fun _ => rfl) (fun _ => rfl)
        ⟨rfl, rfl, rfl, rfl, noCrtc_nil, rfl⟩ (by simp [TaskFits])⟩
  | initialConfig got =>
    exact .inl ⟨_, rfl, h.start_same ht hl _ (fun _ => rfl) (fun _ => rfl) ⟨rfl, rfl⟩
      (by simp [TaskFits])⟩
  | hotplug got => exact h.call_hotplug ht hl

/-- **Every step of every thread** keeps the invariant, waits, or reaches one of the two `BUG`s,
unless a restore without locks starts. -/
theorem step_cases {act : FbAct} (hord : s.orderly cfg ⟨t, act, ans⟩ = true)
    (hlocked : ∀ lit, s.tasks t = [] → act ≠ .restore false lit) :
    Ends cfg s t (fbStep cfg s t act ans) := by
  rw [fbStep]
  cases hl : s.tasks t with
  | nil => exact h.call_cases ht act hl fun lit => hlocked lit hl
  | cons task rest =>
    refine h.exec_cases ht hl fun got htask hok m hm => ?_
    subst htask
    exact orderly_renewable hord hl hok hm

/-- At the two places the step does stop. -/
theorem bug_of_bugAt (act : FbAct) (ans : FbAnswer) (hbug : BugAt s t) :
    fbStep cfg s t act ans = .error .bug := by
  rcases hbug with ⟨f, m, l, rest, hl, hfbs, hidr⟩ | ⟨p, ps, m, rest, hl, hp, hone⟩
  · simp only [fbStep, hl]
    rcases h.exec_release ht hl ans with ⟨s', hs', -⟩ | ⟨hbug, -⟩
    · exfalso
      have hone : s.refcount m = 1 := by
        have hlisted := (h.lists_file (by rw [hfbs]; exact List.mem_cons_self)).2
        rcases h.published m hlisted with hid | hone
        · rw [hidr] at hid
          cases hid
        · exact hone
      have hunregister : s.unregister m = .error .bug :=
        putBug_bug (s := { s with idr := Function.update s.idr m false })
          (h.counted.alive (m := m) (by omega)) hone
      simp only [fbExec, hfbs, hunregister] at hs'
      cases hs'
    · exact hbug
  · have halive := h.counted.alive (m := m) (by omega)
    simp only [fbStep, hl, fbExec, hp, putBug_bug halive hone]
    rfl

end FbDevInv

end Drm
