import SolarisXorg.I915.Proof.ExecBalance

/-!
# The targets of an execbuffer's relocations

After `i915_gem_execbuffer_reserve` has returned 0, the objects of the list are bound
(`reserve_bound`), and from there to the exit nothing moves them (`submit_frame`). A pass over the
relocations that returns 0 has done all relocations of the list, each with the place that its target
then had (`relocatePass_logs`). At the exit the objects of the list are active (`submit_active`). So a
target is bound where the relocation says and active if it is on the list; the look-up by handle does
not make sure that it is.
-/

namespace I915.Exec

variable {objects : List Nat}

/-! ## Placing -/

/-- A pin that succeeds is the pin of a bound object. -/
theorem objectPin_bound {o : Nat} {alignment : UInt32} {mappable : Bool} {e : PinEnv} {s t : Eb}
    (h : objectPin objects o alignment mappable e s = some (0, t)) :
    (t.obj o).gttSpace = true := by
  unfold objectPin at h
  split at h
  · cases h
  · obtain ⟨u, -, hu⟩ := Lib.Act.andThen_eq_zero h
    obtain ⟨v, hv, ht⟩ := Lib.Act.andThen_eq_zero hu
    cases Option.some.inj ht
    rw [Eb.modify_obj, if_pos rfl]
    show (v.obj o).gttSpace = true
    split at hv
    · rename_i hbound
      cases hv
      exact hbound
    · obtain ⟨w, -, hw⟩ := Lib.Act.andThen_eq_zero hv
      obtain ⟨x, -, hx⟩ := Lib.Act.andThen_eq_zero hw
      cases Option.some.inj hx
      rw [Eb.modify_obj, if_pos rfl]

theorem execbufferReserveObject_bound {a : Args} {gen o : Nat} {e : PinEnv} {s t : Eb}
    (h : execbufferReserveObject a gen objects o e s = some (0, t)) :
    (t.obj o).gttSpace = true := by
  obtain ⟨u, hpin, hrest⟩ := Lib.Act.andThen_eq_zero h
  have hframe : Frame [o] u t := reservePinned_frame gen o e hrest
  rw [(hframe.place o List.mem_cons_self).1]
  exact objectPin_bound hpin

/-- The second pass does not unbind an object of the list: it binds those that are not bound, and
evicts none of the list for it. -/
theorem reserveFresh_bound (a : Args) (gen : Nat) {objects : List Nat} (e : Nat → PinEnv) {o x : Nat}
    (hx : x ∈ objects) :
    (reserveFresh a gen objects e o).Keeps
      fun s t => (s.obj x).gttSpace = true → (t.obj x).gttSpace = true := by
  intro s ret t h hbound
  unfold reserveFresh at h
  split at h
  · cases h
    exact hbound
  · rename_i hfree
    have hne : o ∉ [x] := by
      intro ho
      rw [List.mem_singleton.1 ho] at hfree
      exact hfree hbound
    have hsub : ∀ y ∈ [x], y ∈ objects := by
      intro y hy
      rw [List.mem_singleton.1 hy]
      exact hx
    have hframe := execbufferReserveObject_frame hne hsub a gen (e o) h
    rw [(hframe.place x List.mem_cons_self).1]
    exact hbound

theorem reserveTry_bound {a : Args} {gen : Nat} {objects : List Nat} {e : Nat → PinEnv} {s t : Eb}
    (h : reserveTry a gen objects e s = some (0, t)) : ∀ o ∈ objects, (t.obj o).gttSpace = true := by
  unfold reserveTry at h
  split at h
  · cases h
  · rename_i ret u hu
    cases h
    obtain ⟨v, -, hfresh⟩ := Lib.Act.andThen_eq_zero hu
    intro o ho
    have hframe : Frame objects u (objects.foldl execbufferUnreserveObject u) :=
      Frame.foldl (fun s o _ => execbufferUnreserveObject_frame s o) u
    rw [(hframe.place o ho).1]
    refine Lib.Act.each_forall (Q := fun o s => (s.obj o).gttSpace = true) ?_ ?_ hfresh o ho
    · intro x _ y hy
      exact reserveFresh_bound a gen e hy
    · intro x _ s t hx
      unfold reserveFresh at hx
      split at hx
      · rename_i hbound
        cases hx
        exact hbound
      · exact execbufferReserveObject_bound hx

/-- **Placing**: when `i915_gem_execbuffer_reserve` returns 0, all objects of the list are bound. -/
theorem reserve_bound {a : Args} {gen : Nat} {e : ReserveEnv} {l objects : List Nat} {s t : Eb}
    (h : execbufferReserve a gen e l s = (objects, some (0, t))) :
    ∀ o ∈ objects, (t.obj o).gttSpace = true := by
  simp only [execbufferReserve, Prod.mk.injEq] at h
  obtain ⟨rfl, h⟩ := h
  split at h
  · cases h
  · rename_i ret u hu
    split at h
    · cases h
      exact reserveTry_bound hu
    · obtain ⟨v, -, hagain⟩ := Lib.Act.andThen_eq_zero h
      exact reserveTry_bound hagain

/-! ## The list and its entries -/

theorem map_takeWhile_fst (l : List (Nat × Nat)) (o : Nat) :
    (l.takeWhile (·.1 ≠ o)).map Prod.fst = (l.map Prod.fst).takeWhile (· ≠ o) := by
  rw [List.takeWhile_map]
  rfl

/-- The look-ups leave the list, and each object of it knows its entry. -/
theorem lookup_list {checked : Bool} {file : Nat} {xs : List (ExecObject × Nat)} {l l' : ExecList}
    {s t : Eb} (pairs : List (Nat × Nat)) (hnodes : l.nodes = pairs.map Prod.fst)
    (hentry : ∀ p ∈ pairs, (s.obj p.1).execEntry = p.2)
    (h : lookupObjects checked file xs l s = (0, l', t)) :
    l'.nodes = (listObjects (s.gem.files file) xs pairs).map Prod.fst ∧
      (∀ p ∈ listObjects (s.gem.files file) xs pairs, (t.obj p.1).execEntry = p.2) ∧
      t.gem.files = s.gem.files ∧ t.pass = s.pass ∧ t.done = s.done := by
  induction xs generalizing l s pairs with
  | nil =>
    cases h
    exact ⟨hnodes, hentry, rfl, rfl, rfl⟩
  | cons p rest ih =>
    obtain ⟨x, i⟩ := p
    cases hfind : Drm.idrListFind (s.gem.files file) x.handle with
    | none =>
      rw [lookupObjects_unknown hfind] at h
      cases h
    | some o =>
      rw [lookupObjects_cons hfind] at h
      split at h
      · cases h
      · simp only [listObjects, hfind]
        have hlist : ∀ y, ((s.listObject o i).obj y).execEntry =
            if y = o then i else (s.obj y).execEntry := by
          intro y
          rw [Eb.listObject, Eb.modify_obj]
          split <;> rfl
        refine ih (s := s.listObject o i) _ ?_ ?_ h
        · rw [List.map_append, map_takeWhile_fst, ← hnodes]
          rfl
        · intro q hq
          rw [hlist]
          rcases List.mem_append.1 hq with hq | hq
          · have hne : q.1 ≠ o := by simpa using List.mem_takeWhile_imp hq
            rw [if_neg hne]
            exact hentry q ((List.takeWhile_prefix _).subset hq)
          · rw [List.mem_singleton.1 hq, if_pos rfl]

/-- The objects of the list have been looked up and placed. -/
structure Acquired (a : Args) (head : Drm.IdrList Nat) (objects : List Nat) (t : Eb) : Prop where
  list : objects.Perm ((a.list head).map Prod.fst)
  entry : ∀ p ∈ a.list head, (t.obj p.1).execEntry = p.2
  bound : ∀ o ∈ objects, (t.obj o).gttSpace = true

theorem acquire_placed {checked : Bool} {a : Args} {e : Env} {r : ReserveEnv} {s t : Eb} {last : Nat}
    {l : ExecList} (h : acquireObjects checked a e r s = some (0, last, l, t)) :
    Acquired a (s.gem.files e.file) l.nodes t ∧ t.gem.files = s.gem.files ∧ t.pass = s.pass ∧
      t.done = s.done := by
  unfold acquireObjects at h
  cases hl : lookupObjects checked e.file a.exec.zipIdx {} s with
  | mk ret lu =>
    obtain ⟨l', u⟩ := lu
    rw [hl] at h
    dsimp only at h
    split at h
    · rename_i hret
      cases h
      exact absurd rfl hret
    · rename_i hret
      rw [not_not.1 hret] at hl
      obtain ⟨hnodes, hentry, hfiles, hpass, hdone⟩ := lookup_list [] rfl nofun hl
      split at h
      · cases h
      · split at h
        · cases h
        · rename_i objects ret₂ v hreserve
          cases h
          obtain ⟨hframe, hperm⟩ := execbufferReserve_frame hreserve
          refine ⟨⟨?_, fun p hp => ?_, reserve_bound hreserve⟩, hframe.files.trans hfiles,
            hframe.log.1.trans hpass, hframe.log.2.trans hdone⟩
          · rw [Args.list, ← hnodes]
            exact hperm
          · rw [hframe.entry]
            exact hentry p hp

/-! ## Active objects -/

theorem objectMoveToActive_active (s : Eb) (o x : Nat) :
    ((objectMoveToActive s o).obj x).active = (decide (x = o) || (s.obj x).active) := by
  unfold objectMoveToActive
  split
  · rename_i hact
    by_cases hx : x = o
    · rw [hx, hact, Bool.or_true]
    · rw [decide_eq_false hx, Bool.false_or]
  · rw [Eb.modify_obj]
    split
    · rename_i hx
      rw [decide_eq_true hx, Bool.true_or]
    · rename_i hx
      rw [decide_eq_false hx, Bool.false_or]
      rfl

theorem execbufferMoveToActive_active (objects : List Nat) (s : Eb) {o : Nat}
    (h : o ∈ objects ∨ (s.obj o).active = true) :
    ((execbufferMoveToActive objects s).obj o).active = true := by
  induction objects generalizing s with
  | nil => exact h.resolve_left List.not_mem_nil
  | cons x xs ih =>
    apply ih
    rw [objectMoveToActive_active, Eb.modify_obj, Bool.or_eq_true, decide_eq_true_eq]
    rcases h with h | h
    · rcases List.mem_cons.1 h with hx | hx
      · exact .inr (.inl hx)
      · exact .inl hx
    · refine .inr (.inr ?_)
      split
      · rename_i hx
        rw [← hx]
        exact h
      · exact h

theorem moveToInactive_active {l : List Nat} (s : Eb) {o : Nat} (ho : o ∉ l)
    (h : (s.obj o).active = true) : ((l.foldl objectMoveToInactive s).obj o).active = true := by
  induction l generalizing s with
  | nil => exact h
  | cons x xs ih =>
    apply ih _ (fun hmem => ho (List.mem_cons_of_mem x hmem))
    unfold objectMoveToInactive
    split
    · have hne : o ≠ x := fun hox => ho (hox ▸ List.mem_cons_self)
      rw [Eb.unreference_obj, Eb.modify_obj, if_neg hne]
      exact h
    · exact h

theorem submit_active {a : Args} {e : Env} {ring : RingId} {batch : Nat} {s t : Eb}
    (h : submit a e ring batch objects s = some (0, t)) : ∀ o ∈ objects, (t.obj o).active = true := by
  unfold submit at h
  split at h
  · cases h
  · obtain ⟨s₁, -, h₁⟩ := Lib.Act.andThen_eq_zero h
    obtain ⟨s₂, -, h₂⟩ := Lib.Act.andThen_eq_zero h₁
    obtain ⟨s₃, -, h₃⟩ := Lib.Act.andThen_eq_zero h₂
    obtain ⟨s₄, -, h₄⟩ := Lib.Act.andThen_eq_zero h₃
    obtain ⟨s₅, -, h₅⟩ := Lib.Act.andThen_eq_zero h₄
    obtain ⟨s₆, -, h₆⟩ := Lib.Act.andThen_eq_zero h₅
    cases Option.some.inj h₆
    intro o ho
    apply moveToInactive_active
    · intro hmem
      simp [ho] at hmem
    · exact execbufferMoveToActive_active objects s₆ (.inl ho)

theorem putObjects_obj (l : List Nat) (s : Eb) (o : Nat) :
    ((putObjects l s).obj o).active = (s.obj o).active ∧
      ((putObjects l s).obj o).gttSpace = (s.obj o).gttSpace ∧
      ((putObjects l s).obj o).gttOffset = (s.obj o).gttOffset ∧
      (putObjects l s).pass = s.pass ∧ (putObjects l s).done = s.done := by
  induction l generalizing s with
  | nil => exact ⟨rfl, rfl, rfl, rfl, rfl⟩
  | cons x xs ih =>
    obtain ⟨h₁, h₂, h₃, h₄, h₅⟩ := ih ((s.modify x fun y => { y with listed := false }).unreference x)
    have hlog := Eb.unreference_log (s.modify x fun y => { y with listed := false }) x
    rw [Eb.unreference_obj, Eb.modify_obj] at h₁ h₂ h₃
    have hobj : (if o = x then { s.obj x with listed := false } else s.obj o) =
        { s.obj o with listed := if o = x then false else (s.obj o).listed } := by
      split
      · rename_i hx
        rw [hx]
      · rfl
    rw [hobj] at h₁ h₂ h₃
    exact ⟨h₁, h₂, h₃, h₄.trans hlog.1, h₅.trans hlog.2⟩

theorem leave_ret {ret ret' : Int} {l : ExecList} {s t : Eb} (h : leave ret l s = some (ret', t)) :
    ret' = ret := by
  unfold leave at h
  split at h
  · cases h
    rfl
  · cases h

/-- What a call that returns 0 ends with, after its relocations. -/
structure Submitted (objects : List Nat) (s t : Eb) : Prop where
  log : t.pass = s.pass ∧ t.done = s.done
  kept : ∀ o ∈ objects, (t.obj o).active = true ∧ (t.obj o).gttSpace = (s.obj o).gttSpace ∧
    (t.obj o).gttOffset = (s.obj o).gttOffset

theorem finish_submitted {a : Args} {e : Env} {ring : RingId} {batch : Nat} {ret : Int}
    {l : ExecList} {s t : Eb} (h : finish a e ring batch ret l s = some (0, t)) :
    ret = 0 ∧ Submitted l.nodes s t := by
  unfold finish at h
  split at h
  · rename_i hret
    exact absurd (leave_ret h).symm hret
  rename_i hret
  split at h
  · cases h
  rename_i ret' u hu
  rw [← leave_ret h] at hu
  have hframe := submit_frame a e ring batch l.nodes hu
  have hput := putObjects_obj l.nodes u
  refine ⟨not_not.1 hret, ?_, fun o ho => ?_⟩
  · rw [leave_eq h]
    exact ⟨(hput 0).2.2.2.1.trans hframe.log.1, (hput 0).2.2.2.2.trans hframe.log.2⟩
  · obtain ⟨hactive, hspace, hoffset, -⟩ := hput o
    rw [leave_eq h, hactive, hspace, hoffset]
    exact ⟨submit_active hu o ho, hframe.place o ho⟩

/-! ## Targets -/

theorem mem_relocs {a : Args} {mem : Nat → Nat → RelocEnv} {i : Nat} {x : RelocEnv} :
    (∃ p ∈ a.relocs mem i, p.1 = x) ↔ ∃ j < (a.entry i).relocationCount.toNat, mem i j = x := by
  have hfst : (a.relocs mem i).map Prod.fst =
      (List.range (a.entry i).relocationCount.toNat).map (mem i) := by
    simp [Args.relocs]
  rw [← List.mem_map, hfst, List.mem_map]
  simp only [List.mem_range]

/-- The relocations of the list are those that a pass goes through. -/
theorem targetsListed_iff {a : Args} {head : Drm.IdrList Nat} {mem : Nat → Nat → RelocEnv} {s : Eb}
    (h : Acquired a head objects s) : TargetsListed a head mem ↔
      ∀ q ∈ a.passRelocs mem objects s, ∃ o ∈ objects,
        Drm.idrListFind head q.2.reloc.targetHandle = some o := by
  have hmem : ∀ o, o ∈ (a.list head).map Prod.fst ↔ o ∈ objects := fun o => h.list.mem_iff.symm
  constructor
  · intro hlisted q hq
    obtain ⟨obj, hobj, hq⟩ := List.mem_flatMap.1 hq
    obtain ⟨p, hp, rfl⟩ := List.mem_map.1 hq
    obtain ⟨⟨o, i⟩, hpair, rfl⟩ := List.mem_map.1 ((hmem obj).2 hobj)
    rw [h.entry _ hpair] at hp
    obtain ⟨j, hj, hjp⟩ := mem_relocs.1 ⟨p, hp, rfl⟩
    obtain ⟨o', ho', hfind⟩ := hlisted _ hpair j hj
    exact ⟨o', (hmem o').1 ho', hjp ▸ hfind⟩
  · intro hpass p hp j hj
    obtain ⟨x, hx, hxj⟩ := mem_relocs.2 ⟨j, hj, rfl⟩
    have hobj : p.1 ∈ objects := (hmem p.1).1 (List.mem_map_of_mem hp)
    have hq : (p.1, x.1) ∈ a.passRelocs mem objects s := by
      refine List.mem_flatMap.2 ⟨p.1, hobj, List.mem_map.2 ⟨x, ?_, rfl⟩⟩
      rw [h.entry p hp]
      exact hx
    obtain ⟨o, ho, hfind⟩ := hpass _ hq
    exact ⟨o, (hmem o).2 ho, hxj ▸ hfind⟩

/-- From the pass over the relocations to the exit. -/
theorem targets_kept_iff {a : Args} {file : Nat} {mem : Nat → Nat → RelocEnv} {s u t : Eb}
    (hs : Acquired a (s.gem.files file) objects s) (hdone : s.done = [])
    (hu : Logs file (a.passRelocs mem objects s) s u) (ht : Submitted objects u t) :
    (∀ p ∈ t.done, TargetKept (a.list (s.gem.files file)) (s.gem.files file) t p.2) ↔
      TargetsListed a (s.gem.files file) mem := by
  rw [targetsListed_iff hs, ht.log.2, hu.done, hdone, List.nil_append, List.forall_mem_map]
  apply forall₂_congr
  intro q hq
  obtain ⟨target, hfind⟩ := hu.known q hq
  simp only [relocDone, hfind, TargetKept, Option.some.injEq, exists_eq_left', exists_eq_right',
    ← hs.list.mem_iff]
  constructor
  · intro h
    exact h.1
  · intro ho
    obtain ⟨hactive, hspace, hoffset⟩ := ht.kept target ho
    obtain ⟨-, hspace', hoffset'⟩ := hu.place target
    refine ⟨ho, ?_, ?_, hactive⟩
    · rw [hspace, hspace']
      exact hs.bound target ho
    · rw [hoffset, hoffset']

theorem error_ite {c : Prop} [Decidable c] {err : Int} {x : Except Int RingId} (herr : c → err ≠ 0)
    (hx : ∀ ret, x = .error ret → ret ≠ 0) :
    ∀ ret, (if c then .error err else x) = .error ret → ret ≠ 0 := by
  intro ret h
  split at h
  · rename_i hc
    cases h
    exact herr hc
  · exact hx ret h

theorem preMutex_error {a : Args} {e : Env} {s : Eb} : ∀ ret, preMutex a e s = .error ret →
    ret ≠ 0 := by
  unfold preMutex
  apply error_ite (fun _ => by decide)
  apply error_ite (fun _ => by decide)
  apply error_ite (fun _ => by decide)
  cases execRing a.flags with
  | none =>
    intro ret h
    cases h
    decide
  | some ring =>
    apply error_ite (fun _ => by decide)
    apply error_ite (fun _ => by decide)
    apply error_ite (fun _ => by decide)
    apply error_ite (fun _ => by decide)
    apply error_ite (fun _ => by decide)
    apply error_ite (fun _ => by decide)
    apply error_ite (fun _ => by decide)
    apply error_ite (fun _ => by decide)
    apply error_ite id
    apply error_ite (fun _ => by decide)
    apply error_ite (fun _ => by decide)
    intro ret h
    cases h

/-- The slow path, when it returns 0. -/
theorem relocateSlow_logs {a : Args} {e : Env} {l : ExecList} {s t : Eb}
    (h : execbufferRelocateSlow a e objects s = some (0, l, t)) :
    ∃ u, Acquired a (e.slow.state.gem.files e.file) l.nodes u ∧
      u.gem.files = e.slow.state.gem.files ∧ u.pass = .slow ∧ u.done = [] ∧
      Logs e.file (a.passRelocs e.slow.reloc l.nodes u) u t := by
  unfold execbufferRelocateSlow at h
  dsimp only at h
  split at h
  · cases h
  split at h
  · cases h
  split at h
  · rename_i hlock
    exact absurd (Prod.mk.inj (Option.some.inj h)).1 hlock
  split at h
  · cases h
  rename_i ret last l' u hu
  split at h
  · rename_i hret
    cases h
    exact absurd rfl hret
  rename_i hret
  rw [not_not.1 hret] at hu
  obtain ⟨hacquired, hfiles, hpass, hdone⟩ := acquire_placed hu
  obtain ⟨⟨ret', v⟩, hv, hvt⟩ := Option.map_eq_some_iff.1 h
  cases hvt
  exact ⟨u, hacquired, hfiles, hpass, hdone, relocatePass_logs hv⟩

/-- **Targets of relocations**: of an execbuffer that has been submitted after a pass over its
relocations, every target is an object of its list, bound where the relocation says and active, if and
only if every relocation of the list has a handle of an object of the list. -/
theorem targets_kept {a : Args} {e : Env} {s t : Eb} (h : doExecbuffer a e s = some (0, t))
    (hpass : t.pass ≠ .none) :
    (∀ p ∈ t.done, TargetKept (a.list (passHandles e s t.pass)) (passHandles e s t.pass) t p.2) ↔
      TargetsListed a (passHandles e s t.pass) (passMemory e t.pass) := by
  unfold doExecbuffer at h
  cases hpre : preMutex a e s with
  | error err =>
    rw [hpre] at h
    cases h
    exact absurd rfl (preMutex_error _ hpre)
  | ok ring =>
    rw [hpre] at h
    dsimp only at h
    split at h
    · cases h
    rename_i ret batch l u hu
    split at h
    · rename_i hret
      exact absurd (leave_ret h).symm hret
    rename_i hret
    rw [not_not.1 hret] at hu
    obtain ⟨hacquired, hfiles, hnone, hdone⟩ := acquire_placed hu
    unfold relocateAndSubmit at h
    split at h
    · have hlog := (finish_submitted h).2.log.1
      exact absurd (hlog.trans hnone) hpass
    split at h
    · cases h
    rename_i ret' v hv
    split at h
    · split at h
      · cases h
      rename_i ret₂ l' w hslow
      obtain ⟨hret₂, hsubmitted⟩ := finish_submitted h
      rw [hret₂] at hslow
      obtain ⟨x, hx, hxfiles, hxpass, hxdone, hlogs⟩ := relocateSlow_logs hslow
      have hpass' : t.pass = .slow := hsubmitted.log.1.trans (hlogs.pass.trans hxpass)
      rw [hpass']
      have hfinal := targets_kept_iff (by rwa [hxfiles]) hxdone hlogs hsubmitted
      rwa [hxfiles] at hfinal
    · obtain ⟨hret', hsubmitted⟩ := finish_submitted h
      rw [hret'] at hv
      have hlogs := relocatePass_logs hv
      have hpass' : t.pass = .fast := hsubmitted.log.1.trans hlogs.pass
      rw [hpass']
      have hstart : Acquired a (u.gem.files e.file) l.nodes { u with pass := .fast } := by
        rw [hfiles]
        exact ⟨hacquired.list, hacquired.entry, hacquired.bound⟩
      have hfinal := targets_kept_iff (s := { u with pass := .fast }) hstart hdone hlogs hsubmitted
      rwa [show ({ u with pass := .fast } : Eb).gem.files = s.gem.files from hfiles] at hfinal

theorem targets_kept_two : ∃ t,
    doExecbuffer { exec := [{ handle := 1, relocationCount := 1 }, { handle := 2 }] }
      (allSucceed toSecond) twoObjects = some (0, t) ∧ t.pass ≠ .none ∧
    ((∀ p ∈ t.done, TargetKept
        (Args.list { exec := [{ handle := 1, relocationCount := 1 }, { handle := 2 }] }
          (passHandles (allSucceed toSecond) twoObjects t.pass))
        (passHandles (allSucceed toSecond) twoObjects t.pass) t p.2) ↔
      TargetsListed { exec := [{ handle := 1, relocationCount := 1 }, { handle := 2 }] }
        (passHandles (allSucceed toSecond) twoObjects t.pass)
        (passMemory (allSucceed toSecond) t.pass)) := by
  have hrun : (doExecbuffer { exec := [{ handle := 1, relocationCount := 1 }, { handle := 2 }] }
      (allSucceed toSecond) twoObjects).map (fun p => (p.1, p.2.pass)) = some (0, .fast) := by
    decide +kernel
  obtain ⟨⟨ret, t⟩, hr, hvalues⟩ := Option.map_eq_some_iff.1 hrun
  obtain ⟨hret, hpass⟩ : ret = 0 ∧ t.pass = .fast := by simpa using hvalues
  rw [hret] at hr
  have hne : t.pass ≠ .none := by
    rw [hpass]
    decide
  exact ⟨t, hr, hne, targets_kept hr hne⟩

/-- The list has only handle 1, and its relocation is to the object of handle 2, which is not bound:
the batch is submitted with the offset 0 for it. -/
theorem target_outside_list : ∃ t,
    doExecbuffer { exec := [{ handle := 1, relocationCount := 1 }] } (allSucceed toSecond) twoObjects =
      some (0, t) ∧ t.pass = .fast ∧
    ¬ ∀ p ∈ t.done, TargetKept
      (Args.list { exec := [{ handle := 1, relocationCount := 1 }] }
        (passHandles (allSucceed toSecond) twoObjects t.pass))
      (passHandles (allSucceed toSecond) twoObjects t.pass) t p.2 := by
  have hrun : (doExecbuffer { exec := [{ handle := 1, relocationCount := 1 }] }
      (allSucceed toSecond) twoObjects).map
        (fun p => (p.1, p.2.pass, p.2.done, (p.2.obj 1).gttSpace)) =
      some (0, .fast, [(0, { toSecond with presumedOffset := 0 })], false) := by
    decide +kernel
  obtain ⟨⟨ret, t⟩, hr, hvalues⟩ := Option.map_eq_some_iff.1 hrun
  obtain ⟨hret, hpass, hdone, hspace⟩ : ret = 0 ∧ t.pass = .fast ∧
      t.done = [(0, { toSecond with presumedOffset := 0 })] ∧ (t.obj 1).gttSpace = false := by
    simpa using hvalues
  rw [hret] at hr
  refine ⟨t, hr, hpass, fun hkept => ?_⟩
  obtain ⟨o, hfind, -, hbound, -⟩ := hkept (0, { toSecond with presumedOffset := 0 }) (by simp [hdone])
  have hname : Drm.idrListFind (passHandles (allSucceed toSecond) twoObjects t.pass) 2 = some 1 := by
    rw [hpass]
    decide +kernel
  have ho : o = 1 := Option.some.inj (hfind.symm.trans hname)
  rw [ho, hspace] at hbound
  cases hbound

end I915.Exec
