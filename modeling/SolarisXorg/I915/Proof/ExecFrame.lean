import Mathlib.Data.UInt
import Mathlib.Data.List.Nodup
import Mathlib.Tactic.Abel
import SolarisXorg.I915.Execbuffer

/-!
# What an execbuffer leaves as it is

`owed` is what an object's count says beyond the reference of the active list and what other threads
did. All that the call does between its look-ups and its exit keeps it, the relocations apart, and
does not move the objects of the list once they are placed (`Frame`): they are retired and evicted
by others only through `i915_gem_evict_something`, which never returns to a list it has taken a node
from.
-/

namespace I915.Exec

open Drm (EINVAL)

/-- The references to an object that neither the active list nor the other threads account for. -/
def Eb.owed (s : Eb) (o : Nat) : UInt32 := s.held o - s.others o

theorem balanced_iff {s t : Eb} : Balanced s t ↔ ∀ o, t.owed o = s.owed o := by
  apply forall_congr'
  intro o
  simp only [Eb.owed, Eb.held, Eb.activeRef]
  constructor
  · intro h
    rw [h]
    abel
  · intro h
    have hcount := congrArg (· + t.others o + if (t.obj o).active then 1 else 0) h
    simp only [sub_add_cancel] at hcount
    rw [hcount]
    abel

/-- How often an object is in a list, as the counters count. -/
def tally (l : List Nat) (o : Nat) : UInt32 := .ofNat (l.count o)

@[simp] theorem tally_nil (o : Nat) : tally [] o = 0 := rfl

theorem tally_cons (x : Nat) (l : List Nat) (o : Nat) :
    tally (x :: l) o = (if o = x then 1 else 0) + tally l o := by
  simp only [tally, List.count_cons, beq_iff_eq]
  by_cases ho : o = x
  · simp only [ho, if_true, UInt32.ofNat_add]
    exact add_comm ..
  · simp only [ho, Ne.symm ho, if_false, Nat.add_zero, zero_add]

theorem tally_append (l l' : List Nat) (o : Nat) : tally (l ++ l') o = tally l o + tally l' o := by
  simp only [tally, List.count_append, UInt32.ofNat_add]

/-! ## Single changes -/

@[simp] theorem Eb.modify_gem (s : Eb) (o : Nat) (f : EbObject → EbObject) :
    (s.modify o f).gem = s.gem := rfl

@[simp] theorem Eb.modify_others (s : Eb) (o : Nat) (f : EbObject → EbObject) :
    (s.modify o f).others = s.others := rfl

theorem Eb.modify_obj (s : Eb) (o : Nat) (f : EbObject → EbObject) (x : Nat) :
    (s.modify o f).obj x = if x = o then f (s.obj o) else s.obj x := by
  simp only [Eb.modify, Function.update_apply]

theorem Eb.modify_owed (s : Eb) {o : Nat} {f : EbObject → EbObject}
    (hf : ∀ x, (f x).active = x.active) (x : Nat) : (s.modify o f).owed x = s.owed x := by
  simp only [Eb.owed, Eb.held, Eb.modify_gem, Eb.modify_others, Eb.modify_obj]
  split
  · rename_i hx
    subst hx
    rw [hf]
  · rfl

theorem Eb.unreference_eq (s : Eb) (o : Nat) :
    s.unreference o = { s with gem := s.gem.modifyObject o fun x =>
      { x with
        refcount := x.refcount - 1
        frees := if x.refcount - 1 = 0 then x.frees + 1 else x.frees } } := by
  have hput : Drm.gemObjectUnreference s.gem o = .ok (s.gem.modifyObject o fun x =>
      { x with
        refcount := x.refcount - 1
        frees := if x.refcount - 1 = 0 then x.frees + 1 else x.frees }) := by
    simp only [Drm.gemObjectUnreference, Drm.krefPut, Drm.gemObjectFree, Drm.Gem.modifyObject,
      Function.update_self, Function.update_idem]
    by_cases hz : (s.gem.object o).refcount - 1 = 0
    · simp only [hz, if_true]
    · simp only [hz, if_false]
  simp only [Eb.unreference, hput]

@[simp] theorem Eb.unreference_obj (s : Eb) (o : Nat) : (s.unreference o).obj = s.obj := by
  rw [s.unreference_eq]

theorem Eb.unreference_log (s : Eb) (o : Nat) :
    (s.unreference o).pass = s.pass ∧ (s.unreference o).done = s.done := by
  rw [s.unreference_eq]
  exact ⟨rfl, rfl⟩

@[simp] theorem Eb.unreference_files (s : Eb) (o : Nat) :
    (s.unreference o).gem.files = s.gem.files := by
  rw [s.unreference_eq]
  rfl

theorem Eb.unreference_owed (s : Eb) (o x : Nat) :
    (s.unreference o).owed x = s.owed x - if x = o then 1 else 0 := by
  rw [s.unreference_eq]
  simp only [Eb.owed, Eb.held, Drm.Gem.modifyObject, Function.update_apply]
  by_cases hx : x = o
  · simp only [hx, if_true]
    rw [sub_right_comm _ (s.others o) 1, sub_right_comm _ _ (1 : UInt32)]
  · simp only [hx, if_false, sub_zero]

theorem Eb.reference_owed (s : Eb) (o x : Nat) :
    (s.reference o).owed x = s.owed x + if x = o then 1 else 0 := by
  simp only [Eb.owed, Eb.held, Eb.reference, Drm.gemObjectReference, Drm.Gem.modifyObject,
    Function.update_apply]
  by_cases hx : x = o
  · simp only [hx, if_true]
    rw [add_sub_right_comm, add_sub_right_comm]
  · simp only [hx, if_false, add_zero]
    rfl

/-! ## Frames -/

/-- Nothing is owed that was not before, and the handles name what they did. -/
structure Steady (s t : Eb) : Prop where
  owed : ∀ o, t.owed o = s.owed o
  files : t.gem.files = s.gem.files

theorem Steady.refl (s : Eb) : Steady s s := ⟨fun _ => rfl, rfl⟩

theorem Steady.trans ⦃s t u : Eb⦄ (h₁ : Steady s t) (h₂ : Steady t u) : Steady s u :=
  ⟨fun o => (h₂.owed o).trans (h₁.owed o), h₂.files.trans h₁.files⟩

theorem Steady.of_eq {s t : Eb} (hgem : t.gem = s.gem) (hobj : t.obj = s.obj)
    (hothers : t.others = s.others) : Steady s t := by
  refine ⟨fun o => ?_, by rw [hgem]⟩
  simp only [Eb.owed, Eb.held, hgem, hobj, hothers]

theorem Steady.modify (s : Eb) {o : Nat} {f : EbObject → EbObject}
    (hf : ∀ x, (f x).active = x.active) : Steady s (s.modify o f) :=
  ⟨s.modify_owed hf, rfl⟩

/-- The objects of `objects` stay where they are; the entries of all objects and the relocations done
are the same. -/
structure Stays (objects : List Nat) (s t : Eb) : Prop where
  place : ∀ o ∈ objects, (t.obj o).gttSpace = (s.obj o).gttSpace ∧
    (t.obj o).gttOffset = (s.obj o).gttOffset
  entry : ∀ o, (t.obj o).execEntry = (s.obj o).execEntry
  log : t.pass = s.pass ∧ t.done = s.done

variable {objects : List Nat}

theorem Stays.of_obj {s t : Eb} (hobj : t.obj = s.obj) (hlog : t.pass = s.pass ∧ t.done = s.done) :
    Stays objects s t :=
  ⟨fun o _ => by rw [hobj]; exact ⟨rfl, rfl⟩, fun o => by rw [hobj], hlog⟩

theorem Stays.trans ⦃s t u : Eb⦄ (h₁ : Stays objects s t) (h₂ : Stays objects t u) :
    Stays objects s u where
  place o ho := ⟨(h₂.place o ho).1.trans (h₁.place o ho).1, (h₂.place o ho).2.trans (h₁.place o ho).2⟩
  entry o := (h₂.entry o).trans (h₁.entry o)
  log := ⟨h₂.log.1.trans h₁.log.1, h₂.log.2.trans h₁.log.2⟩

structure Frame (objects : List Nat) (s t : Eb) : Prop extends Steady s t, Stays objects s t

theorem Frame.refl (s : Eb) : Frame objects s s := ⟨.refl s, .of_obj rfl ⟨rfl, rfl⟩⟩

theorem Frame.trans ⦃s t u : Eb⦄ (h₁ : Frame objects s t) (h₂ : Frame objects t u) :
    Frame objects s u := ⟨h₁.toSteady.trans h₂.toSteady, h₁.toStays.trans h₂.toStays⟩

theorem Frame.mono {others : List Nat} {s t : Eb} (h : Frame objects s t)
    (hsub : ∀ o ∈ others, o ∈ objects) : Frame others s t :=
  ⟨h.toSteady, fun o ho => h.place o (hsub o ho), h.entry, h.log⟩

theorem Frame.of_eq {s t : Eb} (hgem : t.gem = s.gem) (hobj : t.obj = s.obj)
    (hothers : t.others = s.others) (hpass : t.pass = s.pass) (hdone : t.done = s.done) :
    Frame objects s t := ⟨.of_eq hgem hobj hothers, .of_obj hobj ⟨hpass, hdone⟩⟩

/-- An object that is not in `objects` may move. -/
theorem Frame.move (s : Eb) {o : Nat} {f : EbObject → EbObject} (ho : o ∉ objects)
    (hf : ∀ x, (f x).active = x.active ∧ (f x).execEntry = x.execEntry) :
    Frame objects s (s.modify o f) := by
  refine ⟨.modify s fun x => (hf x).1, fun x hx => ?_, fun x => ?_, rfl, rfl⟩
  · have hne : x ≠ o := fun hxo => ho (hxo ▸ hx)
    rw [Eb.modify_obj, if_neg hne]
    exact ⟨rfl, rfl⟩
  · rw [Eb.modify_obj]
    split
    · rename_i hx
      rw [hx]
      exact (hf _).2
    · rfl

/-- One object is changed, but neither its place nor its entry. -/
theorem Frame.of_modify {s t : Eb} {o : Nat} {f : EbObject → EbObject} (h : Steady s t)
    (hobj : t.obj = (s.modify o f).obj) (hpass : t.pass = s.pass) (hdone : t.done = s.done)
    (hf : ∀ x, (f x).execEntry = x.execEntry ∧ (f x).gttSpace = x.gttSpace ∧
      (f x).gttOffset = x.gttOffset) : Frame objects s t := by
  have hsame : ∀ x, (t.obj x).execEntry = (s.obj x).execEntry ∧
      (t.obj x).gttSpace = (s.obj x).gttSpace ∧ (t.obj x).gttOffset = (s.obj x).gttOffset := by
    intro x
    rw [hobj, Eb.modify_obj]
    split
    · rename_i hx
      rw [hx]
      exact hf _
    · exact ⟨rfl, rfl, rfl⟩
  exact ⟨h, fun x _ => (hsame x).2, fun x => (hsame x).1, hpass, hdone⟩

theorem Frame.modify (s : Eb) {o : Nat} {f : EbObject → EbObject}
    (hf : ∀ x, (f x).active = x.active ∧ (f x).execEntry = x.execEntry ∧
      (f x).gttSpace = x.gttSpace ∧ (f x).gttOffset = x.gttOffset) :
    Frame objects s (s.modify o f) :=
  .of_modify (.modify s fun x => (hf x).1) rfl rfl rfl fun x => (hf x).2

theorem Frame.foldl {α : Type} {f : Eb → α → Eb} {l : List α}
    (hf : ∀ s, ∀ x ∈ l, Frame objects s (f s x)) (s : Eb) : Frame objects s (l.foldl f s) := by
  induction l generalizing s with
  | nil => exact .refl s
  | cons x xs ih =>
    apply (hf s x List.mem_cons_self).trans
    exact ih (fun s y hy => hf s y (List.mem_cons_of_mem x hy)) (f s x)

/-! ## The active list -/

theorem objectMoveToActive_frame (s : Eb) (o : Nat) : Frame objects s (objectMoveToActive s o) := by
  unfold objectMoveToActive
  split
  · exact .refl s
  rename_i hact
  refine .of_modify (o := o) (f := fun x => { x with active := true }) ⟨fun x => ?_, rfl⟩ rfl rfl rfl
    fun _ => ⟨rfl, rfl, rfl⟩
  have href := s.reference_owed o x
  simp only [Eb.owed, Eb.held, Eb.modify_gem, Eb.modify_others, Eb.modify_obj] at href ⊢
  by_cases hx : x = o
  · subst hx
    have hinactive : ((s.reference x).obj x).active = false := by
      simpa [Eb.reference] using hact
    simp only [hinactive, hact, if_true, Bool.false_eq_true, if_false, sub_zero] at href ⊢
    rw [sub_right_comm, href]
    abel
  · simp only [hx, if_false, add_zero] at href ⊢
    exact href

theorem objectMoveToInactive_frame (s : Eb) (o : Nat) :
    Frame objects s (objectMoveToInactive s o) := by
  unfold objectMoveToInactive
  split
  · rename_i hact
    refine .of_modify (o := o) ⟨fun x => ?_, ?_⟩ (Eb.unreference_obj ..) (Eb.unreference_log ..).1
      (Eb.unreference_log ..).2 fun _ => ⟨rfl, rfl, rfl⟩
    · rw [Eb.unreference_owed]
      simp only [Eb.owed, Eb.held, Eb.modify_gem, Eb.modify_others, Eb.modify_obj]
      by_cases hx : x = o
      · subst hx
        simp only [hact, if_true, Bool.false_eq_true, if_false]
        abel
      · simp only [hx, if_false, sub_zero]
    · rw [Eb.unreference_files, Eb.modify_gem]
  · exact .refl s

theorem Called.run_frame (c : Called) (s : Eb) : Frame objects s (c.run s).2 :=
  Frame.foldl (fun s o _ => objectMoveToInactive_frame s o) s

/-! ## Placing -/

theorem objectUnbind_frame {o : Nat} (ho : o ∉ objects) (c : Called) (s : Eb) :
    Frame objects s (objectUnbind o c s).2 := by
  unfold objectUnbind
  split
  · exact .refl s
  split
  · exact .refl s
  split
  · exact c.run_frame s
  · apply (c.run_frame s).trans
    dsimp only
    exact .move _ ho fun _ => ⟨rfl, rfl⟩

theorem references_owed (l : List (Nat × Called)) (s : Eb) :
    (l.foldl (fun s p => s.reference p.1) s).gem.files = s.gem.files ∧
      Stays objects s (l.foldl (fun s p => s.reference p.1) s) ∧
      ∀ o, (l.foldl (fun s p => s.reference p.1) s).owed o =
        s.owed o + tally (l.map Prod.fst) o := by
  induction l generalizing s with
  | nil => exact ⟨rfl, (Frame.refl s).toStays, fun o => (add_zero _).symm⟩
  | cons p rest ih =>
    obtain ⟨hfiles, hstays, howed⟩ := ih (s.reference p.1)
    have href : Stays objects s (s.reference p.1) := .of_obj rfl ⟨rfl, rfl⟩
    refine ⟨hfiles.trans rfl, href.trans hstays, fun o => (howed o).trans ?_⟩
    rw [Eb.reference_owed, List.map_cons, tally_cons, add_assoc]

/-- The loop gives back the references that were taken for it. -/
theorem evictObjects_owed {l : List (Nat × Called)} (hl : ∀ p ∈ l, p.1 ∉ objects) (ret : Int)
    (s : Eb) :
    (evictObjects l ret s).2.gem.files = s.gem.files ∧
      Stays objects s (evictObjects l ret s).2 ∧
      ∀ o, (evictObjects l ret s).2.owed o = s.owed o - tally (l.map Prod.fst) o := by
  induction l generalizing ret s with
  | nil => exact ⟨rfl, (Frame.refl s).toStays, fun o => (sub_zero _).symm⟩
  | cons p rest ih =>
    obtain ⟨x, c⟩ := p
    have hstep : Frame objects s (if ret = 0 then objectUnbind x c s else (ret, s)).2 := by
      split
      · exact objectUnbind_frame (hl _ List.mem_cons_self) c s
      · exact .refl s
    have hput : ∀ u : Eb, Stays objects u (u.unreference x) := fun u =>
      .of_obj (u.unreference_obj x) (u.unreference_log x)
    obtain ⟨hfiles, hstays, howed⟩ := ih (fun p hp => hl p (List.mem_cons_of_mem _ hp))
      (if ret = 0 then objectUnbind x c s else (ret, s)).1
      ((if ret = 0 then objectUnbind x c s else (ret, s)).2.unreference x)
    refine ⟨hfiles.trans ?_, (hstep.toStays.trans (hput _)).trans hstays,
      fun o => (howed o).trans ?_⟩
    · rw [Eb.unreference_files, hstep.files]
    · rw [Eb.unreference_owed, hstep.owed, List.map_cons, tally_cons, sub_sub]

/-- What is evicted is not on the list of the execbuffer. -/
theorem evictSomething_frame (objects : List Nat) (scan : Scan) :
    (evictSomething objects scan).Keeps (Frame objects) := by
  intro s ret t h
  simp only [evictSomething] at h
  split at h
  · cases h
  rename_i hany
  cases Option.some.inj h
  have hfree : ∀ p ∈ (scan.filter fun p => decide ((s.obj p.1).pinCount = 0)).filterMap
      (fun p => p.2.map (p.1, ·)), p.1 ∉ objects := by
    intro p hp ho
    obtain ⟨q, hq, hpq⟩ := List.mem_filterMap.1 hp
    obtain ⟨c, -, hc⟩ := Option.map_eq_some_iff.1 hpq
    rw [← hc] at ho
    exact hany (List.any_eq_true.2 ⟨q, hq, decide_eq_true ho⟩)
  obtain ⟨hfiles, hstays, howed⟩ := @references_owed objects _ s
  obtain ⟨hfiles', hstays', howed'⟩ := evictObjects_owed hfree 0 _
  refine Frame.trans ⟨⟨fun o => ?_, hfiles'.trans hfiles⟩, hstays.trans hstays'⟩
    (Frame.foldl (fun s p _ => .modify s ?_) _)
  · rw [howed', howed, add_sub_cancel_right]
  · exact fun _ => ⟨rfl, rfl, rfl, rfl⟩

/-- `i915_gem_object_bind_to_gtt` moves no object of the list but its own. -/
theorem objectBindToGtt_frame {o : Nat} {others : List Nat} (ho : o ∉ others)
    (hsub : ∀ x ∈ others, x ∈ objects) (e : PinEnv) :
    (objectBindToGtt objects o e).Keeps (Frame others) := by
  refine .andThen Frame.trans ?_ (.andThen Frame.trans (.call e.bind.run_frame)
    (.modify fun s => .move s ho fun _ => ⟨rfl, rfl⟩))
  intro s ret t h
  exact (evictSomething_frame objects e.scan h).mono hsub

theorem objectPin_frame {o : Nat} {others : List Nat} (ho : o ∉ others)
    (hsub : ∀ x ∈ others, x ∈ objects) (alignment : UInt32) (mappable : Bool) (e : PinEnv) :
    (objectPin objects o alignment mappable e).Keeps (Frame others) := by
  unfold objectPin
  refine .ite (a := .call fun s => (-EBUSY, s)) (.call .refl) ?_
  refine .andThen Frame.trans ?_ (.andThen Frame.trans ?_
    (.modify fun s => .modify s fun _ => ⟨rfl, rfl, rfl, rfl⟩))
  · exact .ite (a := .call (objectUnbind o e.unbind)) (.call (objectUnbind_frame ho e.unbind))
      (.modify .refl)
  · exact .ite (.modify .refl) (objectBindToGtt_frame ho hsub e)

theorem reservePinned_frame (gen o : Nat) (e : PinEnv) :
    (reservePinned gen o e).Keeps (Frame objects) := by
  intro s ret t h
  unfold reservePinned at h
  refine Lib.Act.Keeps.andThen Frame.trans ?_ (Lib.Act.Keeps.andThen Frame.trans ?_
    (Lib.Act.Keeps.andThen Frame.trans ?_ ?_)) h
  · exact .modify fun s => .of_eq rfl rfl rfl rfl rfl
  · exact .ite (a := .call e.getFence.run) (.call e.getFence.run_frame) (.modify .refl)
  · apply Lib.Act.Keeps.modify
    intro s
    split
    · exact .of_eq rfl rfl rfl rfl rfl
    · exact .refl s
  · apply Lib.Act.Keeps.modify
    intro s
    split
    · exact .modify s fun _ => ⟨rfl, rfl, rfl, rfl⟩
    · exact .refl s

theorem execbufferReserveObject_frame {o : Nat} {others : List Nat} (ho : o ∉ others)
    (hsub : ∀ x ∈ others, x ∈ objects) (a : Args) (gen : Nat) (e : PinEnv) :
    (execbufferReserveObject a gen objects o e).Keeps (Frame others) := by
  intro s ret t h
  exact Lib.Act.Keeps.andThen Frame.trans (objectPin_frame ho hsub ..)
    (reservePinned_frame gen o e) h

theorem reserveBound_frame (a : Args) (gen : Nat) (objects : List Nat) (e : Nat → PinEnv)
    (o : Nat) : (reserveBound a gen objects e o).Keeps (Frame []) := by
  unfold reserveBound
  refine .ite (.modify .refl) (.ite (a := .call (objectUnbind o (e o).unbind)) ?_ ?_)
  · exact .call (objectUnbind_frame List.not_mem_nil (e o).unbind)
  · exact execbufferReserveObject_frame List.not_mem_nil nofun a gen (e o)

theorem reserveFresh_frame (a : Args) (gen : Nat) (objects : List Nat) (e : Nat → PinEnv)
    (o : Nat) : (reserveFresh a gen objects e o).Keeps (Frame []) := by
  unfold reserveFresh
  exact .ite (.modify .refl) (execbufferReserveObject_frame List.not_mem_nil nofun a gen (e o))

theorem execbufferUnreserveObject_frame (s : Eb) (o : Nat) :
    Frame objects s (execbufferUnreserveObject s o) := by
  unfold execbufferUnreserveObject
  split
  · exact .refl s
  · dsimp only
    split
    · have hunpin : Frame objects s (s.modify o fun x => { x with pinCount := x.pinCount - 1 }) :=
        .modify s fun _ => ⟨rfl, rfl, rfl, rfl⟩
      exact hunpin.trans (.of_eq rfl rfl rfl rfl rfl)
    · exact .of_eq rfl rfl rfl rfl rfl

theorem reserveTry_frame (a : Args) (gen : Nat) (objects : List Nat) (e : Nat → PinEnv) :
    (reserveTry a gen objects e).Keeps (Frame []) := by
  intro s ret t h
  unfold reserveTry at h
  split at h
  · cases h
  · rename_i ret' u hu
    cases h
    apply Frame.trans _ (Frame.foldl (fun s o _ => execbufferUnreserveObject_frame s o) u)
    refine Lib.Act.Keeps.andThen Frame.trans ?_ ?_ hu
    · exact .each .refl Frame.trans fun o _ => reserveBound_frame a gen objects e o
    · exact .each .refl Frame.trans fun o _ => reserveFresh_frame a gen objects e o

theorem evictEverything_frame (c : Called) (evicted : List (Nat × Called)) :
    (evictEverything c evicted).Keeps (Frame []) := by
  refine .andThen Frame.trans (.call c.run_frame) (.modify fun s => ?_)
  exact Frame.foldl (fun s p _ => objectUnbind_frame List.not_mem_nil p.2 s) s

theorem reserveOrder_frame (a : Args) (gen batch : Nat) (e : ReserveEnv) (l ordered : List Nat)
    (s : Eb) : Frame [] s (reserveOrder a gen batch e l ordered s).2 ∧
      ((reserveOrder a gen batch e l ordered s).1).Perm (l ++ ordered) := by
  induction l generalizing ordered s with
  | nil => exact ⟨.refl s, .refl _⟩
  | cons o rest ih =>
    simp only [reserveOrder]
    refine ⟨Frame.trans ?_ (ih _ _).1, (ih _ _).2.trans ?_⟩
    · split
      · refine Frame.trans (.modify s ?_) (Called.run_frame ..)
        exact fun _ => ⟨rfl, rfl, rfl, rfl⟩
      · exact .modify s fun _ => ⟨rfl, rfl, rfl, rfl⟩
    · split
      · exact List.perm_middle
      · rw [← List.append_assoc]
        exact List.perm_append_singleton o (rest ++ ordered)

theorem execbufferReserve_frame {a : Args} {gen : Nat} {e : ReserveEnv} {l objects : List Nat}
    {s t : Eb} {ret : Int} (h : execbufferReserve a gen e l s = (objects, some (ret, t))) :
    Frame [] s t ∧ objects.Perm l := by
  obtain ⟨horder, hperm⟩ := reserveOrder_frame a gen (l.getLastD 0) e l [] s
  simp only [execbufferReserve, Prod.mk.injEq] at h
  obtain ⟨rfl, h⟩ := h
  refine ⟨horder.trans ?_, by simpa using hperm⟩
  split at h
  · cases h
  · rename_i ret' u hu
    have htry := reserveTry_frame _ _ _ _ hu
    split at h
    · cases h
      exact htry
    · refine htry.trans (Lib.Act.Keeps.andThen Frame.trans ?_ ?_ h)
      · exact evictEverything_frame e.evict e.evicted
      · exact reserveTry_frame _ _ _ _

/-! ## Submitting -/

theorem execbufferMoveToGpu_frame (e : Env) (objects : List Nat) :
    (execbufferMoveToGpu e objects).Keeps (Frame objects) :=
  .andThen Frame.trans (.each .refl Frame.trans fun o _ => .call (e.sync o).run_frame)
    (.call e.invalidateCaches.run_frame)

theorem switchContext_frame (e : Env) (ring : RingId) (objects : List Nat) :
    (switchContext e ring objects).Keeps (Frame objects) := by
  unfold switchContext
  split
  · exact .modify .refl
  · exact .andThen Frame.trans (evictSomething_frame objects e.switchScan)
      (.call e.switchContext.run_frame)

theorem setConstants_frame (a : Args) (e : Env) (ring : RingId) :
    (setConstants a e ring).Keeps (Frame objects) := by
  unfold setConstants
  refine .ite (.andThen Frame.trans (.call e.ringBegin.run_frame) ?_) (.modify .refl)
  exact .modify fun s => .of_eq rfl rfl rfl rfl rfl

theorem resetSolOffsets_frame (a : Args) (e : Env) (ring : RingId) :
    (resetSolOffsets a e ring).Keeps (Frame objects) := by
  unfold resetSolOffsets
  split
  · exact .call e.solReset.run_frame
  · exact .modify .refl

theorem dispatchExecbuffer_frame (a : Args) (e : Env) :
    (dispatchExecbuffer a e).Keeps (Frame objects) := by
  unfold dispatchExecbuffer
  split
  · refine .each .refl Frame.trans fun i _ => ?_
    exact .andThen Frame.trans (.call (e.emitBox i).run_frame) (.call (e.dispatch i).run_frame)
  · exact .call (e.dispatch 0).run_frame

theorem execbufferMoveToActive_frame (l : List Nat) (s : Eb) :
    Frame objects s (execbufferMoveToActive l s) := by
  apply Frame.foldl
  intro s o _
  refine Frame.trans (.modify s ?_) (objectMoveToActive_frame _ o)
  exact fun _ => ⟨rfl, rfl, rfl, rfl⟩

theorem execbufferRetireCommands_frame (e : Env) (l : List Nat) (s : Eb) :
    Frame objects s (execbufferRetireCommands e l s) :=
  Frame.foldl (fun s o _ => objectMoveToInactive_frame s o) s

theorem submit_frame (a : Args) (e : Env) (ring : RingId) (batch : Nat) (objects : List Nat) :
    (submit a e ring batch objects).Keeps (Frame objects) := by
  unfold submit
  refine .ite (a := .call fun s => (-EINVAL, s)) (.call .refl) ?_
  refine .andThen Frame.trans (.modify fun s => .modify s fun _ => ⟨rfl, rfl, rfl, rfl⟩) ?_
  refine .andThen Frame.trans (execbufferMoveToGpu_frame e objects) ?_
  refine .andThen Frame.trans (switchContext_frame e ring objects) ?_
  refine .andThen Frame.trans (setConstants_frame a e ring) ?_
  refine .andThen Frame.trans (resetSolOffsets_frame a e ring) ?_
  refine .andThen Frame.trans (dispatchExecbuffer_frame a e) ?_
  refine .modify fun s => (execbufferMoveToActive_frame objects s).trans ?_
  exact execbufferRetireCommands_frame e objects _

end I915.Exec
