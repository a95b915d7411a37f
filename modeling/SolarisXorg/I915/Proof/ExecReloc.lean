import SolarisXorg.I915.Proof.ExecFrame

/-!
# The relocations of an execbuffer

`relocateEntry_cases` is the inversion of `i915_gem_execbuffer_relocate_entry`: the relocation is
refused, or it is done with the place that its target has (`Logs`), and either way the reference to
the target is given back; or the object that it is in cannot be made ready, and the reference stays.
Of a pass over all relocations of the list follows that it leaves one reference exactly if it ends
so (`relocatePass_owes`), and that it has done all of them if it returns 0 (`relocatePass_logs`).
-/

namespace I915.Exec

open Drm (EINVAL)

variable {objects : List Nat}

/-! ## One relocation -/

theorem objectSetToGttDomain_frame (o : Nat) (c : Called) (s : Eb) :
    Frame objects s (objectSetToGttDomain o c s).2 := by
  unfold objectSetToGttDomain
  split
  · exact .refl s
  split
  · exact .refl s
  split
  · exact c.run_frame s
  · apply (c.run_frame s).trans
    dsimp only
    exact .modify _ fun _ => ⟨rfl, rfl, rfl, rfl⟩

/-- What is owed after, with the references to `lost` on top. -/
def Owes (s t : Eb) (lost : List Nat) : Prop :=
  (∀ o, t.owed o = s.owed o + tally lost o) ∧ t.gem.files = s.gem.files

theorem Steady.owes {s t : Eb} (h : Steady s t) : Owes s t [] :=
  ⟨fun o => by rw [h.owed, tally_nil, add_zero], h.files⟩

theorem Owes.trans {s t u : Eb} {l l' : List Nat} (h₁ : Owes s t l) (h₂ : Owes t u l') :
    Owes s u (l ++ l') :=
  ⟨fun o => by rw [h₂.1, h₁.1, tally_append, add_assoc], h₂.2.trans h₁.2⟩

/-- A reference taken by a look-up and given back. -/
theorem Steady.put {s u : Eb} {target : Nat} (h : Frame [] (s.reference target) u) :
    Steady s (u.unreference target) := by
  refine ⟨fun o => ?_, ?_⟩
  · rw [Eb.unreference_owed, h.owed, Eb.reference_owed, add_sub_cancel_right]
  · rw [Eb.unreference_files, h.files]
    rfl

theorem Steady.did {s u : Eb} (h : Steady s u) (obj : Nat) (r : Reloc) : Steady s (u.did obj r) :=
  h.trans (.of_eq rfl rfl rfl)

theorem objectSetToGttDomain_ret (o : Nat) (c : Called) (s : Eb) :
    (objectSetToGttDomain o c s).1 =
      if (s.obj o).gttSpace = false then -EINVAL
      else if (s.obj o).writeDomain = domainGtt then 0 else c.ret := by
  unfold objectSetToGttDomain
  split
  · rfl
  split
  · rfl
  split
  · rfl
  · rename_i hret
    exact (not_not.1 hret).symm

/-- The state in which a relocation has its target and has passed the checks of its domains. -/
def Eb.marked (s : Eb) (target : Nat) (r : Reloc) : Eb :=
  (s.reference target).modify target fun x =>
    { x with
      pendingReadDomains := x.pendingReadDomains ||| r.readDomains
      pendingWriteDomain := x.pendingWriteDomain ||| r.writeDomain }

theorem Eb.marked_frame (s : Eb) (target : Nat) (r : Reloc) :
    Frame objects (s.reference target) (s.marked target r) :=
  .modify _ fun _ => ⟨rfl, rfl, rfl, rfl⟩

theorem Eb.marked_obj (s : Eb) (target : Nat) (r : Reloc) (o : Nat) :
    ((s.marked target r).obj o).size = (s.obj o).size ∧
      ((s.marked target r).obj o).gttSpace = (s.obj o).gttSpace ∧
      ((s.marked target r).obj o).writeDomain = (s.obj o).writeDomain := by
  simp only [Eb.marked, Eb.modify_obj]
  split
  · rename_i ho
    subst ho
    exact ⟨rfl, rfl, rfl⟩
  · exact ⟨rfl, rfl, rfl⟩

/-- The state in which the word is written. -/
def Eb.written (s : Eb) (obj target : Nat) (e : RelocEnv) : Eb :=
  let u := (objectSetToGttDomain obj e.setToGttDomain (s.marked target e.reloc)).2
  let word := (s.obj target).gttOffset + e.reloc.delta
  (e.putFence.run u).2.modify obj fun x =>
    { x with words := Function.update x.words e.reloc.offset word }

theorem Eb.written_frame (s : Eb) (obj target : Nat) (e : RelocEnv) :
    Frame objects (s.reference target) (s.written obj target e) := by
  apply (s.marked_frame target e.reloc).trans
  apply (objectSetToGttDomain_frame obj e.setToGttDomain _).trans
  apply (e.putFence.run_frame _).trans
  unfold Eb.written
  exact .modify _ fun _ => ⟨rfl, rfl, rfl, rfl⟩

/-- A relocation that is done, with the place that its target has. -/
def relocDone (file : Nat) (s : Eb) (q : Nat × RelocEnv) : Nat × Reloc :=
  match Drm.idrListFind (s.gem.files file) q.2.reloc.targetHandle with
  | none => (q.1, q.2.reloc)
  | some target =>
    (q.1, { q.2.reloc with presumedOffset := (s.obj target).gttOffset.toUInt64 })

/-- The relocations of `l` are done: their targets are known, they are in the log with the places of
these, and no place is changed. -/
structure Logs (file : Nat) (l : List (Nat × RelocEnv)) (s t : Eb) : Prop where
  files : t.gem.files = s.gem.files
  place : ∀ o, (t.obj o).execEntry = (s.obj o).execEntry ∧
    (t.obj o).gttSpace = (s.obj o).gttSpace ∧ (t.obj o).gttOffset = (s.obj o).gttOffset
  pass : t.pass = s.pass
  done : t.done = s.done ++ l.map (relocDone file s)
  known : ∀ q ∈ l, ∃ target,
    Drm.idrListFind (s.gem.files file) q.2.reloc.targetHandle = some target

/-- The end of a relocation that is done. -/
theorem Logs.one (obj : Nat) {file target : Nat} {e : RelocEnv} {s u : Eb}
    (hfind : Drm.idrListFind (s.gem.files file) e.reloc.targetHandle = some target)
    (hu : ∀ objects, Frame objects (s.reference target) u) :
    Logs file [(obj, e)] s ((u.unreference target).did obj (relocDone file s (obj, e)).2) where
  files := by
    show (u.unreference target).gem.files = s.gem.files
    rw [Eb.unreference_files, (hu []).files]
    rfl
  place o := by
    have hobj : ((u.unreference target).did obj (relocDone file s (obj, e)).2).obj = u.obj :=
      u.unreference_obj target
    rw [hobj]
    exact ⟨(hu []).entry o, (hu [o]).place o List.mem_cons_self⟩
  pass := ((u.unreference_log target).1).trans (hu []).log.1
  done := by
    show (u.unreference target).done ++ [(obj, (relocDone file s (obj, e)).2)] = _
    rw [(u.unreference_log target).2, (hu []).log.2]
    simp only [relocDone, hfind, List.map_cons, List.map_nil]
    rfl
  known q hq := by
    rw [List.mem_singleton.1 hq]
    exact ⟨target, hfind⟩

theorem relocateEntry_eq {file obj target : Nat} {e : RelocEnv} {s : Eb}
    (hfind : Drm.idrListFind (s.gem.files file) e.reloc.targetHandle = some target) :
    execbufferRelocateEntry file obj e s =
      if e.reloc.writeDomain &&& (e.reloc.writeDomain - 1) ≠ 0 then
        (-EINVAL, e.reloc, (s.reference target).unreference target)
      else if (e.reloc.writeDomain ||| e.reloc.readDomains) &&& ~~~gpuDomains ≠ 0 then
        (-EINVAL, e.reloc, (s.reference target).unreference target)
      else if (s.obj target).gttOffset.toUInt64 = e.reloc.presumedOffset then
        (0, e.reloc, ((s.marked target e.reloc).unreference target).did obj e.reloc)
      else if e.reloc.offset > ((s.marked target e.reloc).obj obj).size - 4 then
        (-EINVAL, e.reloc, (s.marked target e.reloc).unreference target)
      else if e.reloc.offset &&& 3 ≠ 0 then
        (-EINVAL, e.reloc, (s.marked target e.reloc).unreference target)
      else
        let g := objectSetToGttDomain obj e.setToGttDomain (s.marked target e.reloc)
        if g.1 ≠ 0 then (g.1, e.reloc, g.2)
        else if e.putFence.ret ≠ 0 then (e.putFence.ret, e.reloc, (e.putFence.run g.2).2)
        else
          let r := { e.reloc with presumedOffset := (s.obj target).gttOffset.toUInt64 }
          (0, r, ((s.written obj target e).unreference target).did obj r) := by
  simp only [execbufferRelocateEntry, Drm.gemObjectLookup, hfind]
  rfl

/-- A relocation is refused, or it is done with the place its target has, and either way its
reference is given back; or its object cannot be made ready, and the reference stays. -/
theorem relocateEntry_cases {file obj : Nat} {e : RelocEnv} {s t : Eb} {ret : Int} {r : Reloc}
    (h : execbufferRelocateEntry file obj e s = (ret, r, t)) :
    (ret ≠ 0 ∧ ¬ WriteFails file obj e s ∧ Steady s t) ∨
    (ret ≠ 0 ∧ WriteFails file obj e s ∧ ∃ target, Owes s t [target]) ∨
    (ret = 0 ∧ ¬ WriteFails file obj e s ∧ Steady s t ∧ Logs file [(obj, e)] s t) := by
  cases hfind : Drm.idrListFind (s.gem.files file) e.reloc.targetHandle with
  | none =>
    simp only [execbufferRelocateEntry, Drm.gemObjectLookup, hfind, Prod.mk.injEq] at h
    obtain ⟨rfl, rfl, rfl⟩ := h
    refine .inl ⟨by decide, fun hw => ?_, .refl s⟩
    obtain ⟨target, htarget, -⟩ := hw
    rw [hfind] at htarget
    cases htarget
  | some target =>
    have hfails : WriteFails file obj e s ↔
        e.reloc.writeDomain &&& (e.reloc.writeDomain - 1) = 0 ∧
        (e.reloc.writeDomain ||| e.reloc.readDomains) &&& ~~~gpuDomains = 0 ∧
        (s.obj target).gttOffset.toUInt64 ≠ e.reloc.presumedOffset ∧
        ¬ e.reloc.offset > (s.obj obj).size - 4 ∧ e.reloc.offset &&& 3 = 0 ∧
        ((objectSetToGttDomain obj e.setToGttDomain s).1 ≠ 0 ∨ e.putFence.ret ≠ 0) := by
      simp only [WriteFails, hfind, Option.some.injEq, exists_eq_left']
    obtain ⟨hsize, hspace, hdomain⟩ := s.marked_obj target e.reloc obj
    have hready : (objectSetToGttDomain obj e.setToGttDomain (s.marked target e.reloc)).1 =
        (objectSetToGttDomain obj e.setToGttDomain s).1 := by
      rw [objectSetToGttDomain_ret, objectSetToGttDomain_ret, hspace, hdomain]
    have href : Owes s (s.reference target) [target] := by
      refine ⟨fun o => ?_, rfl⟩
      rw [Eb.reference_owed, tally_cons, tally_nil, add_zero]
    have hsame : (relocDone file s (obj, e)).2 =
        { e.reloc with presumedOffset := (s.obj target).gttOffset.toUInt64 } := by
      simp only [relocDone, hfind]
    rw [relocateEntry_eq hfind, hsize] at h
    -- one case for each check, in the order of the source
    split at h
    · rename_i hc
      cases h
      exact .inl ⟨by decide, fun hw => hc (hfails.1 hw).1, .put (.refl _)⟩
    split at h
    · rename_i hc
      cases h
      exact .inl ⟨by decide, fun hw => hc (hfails.1 hw).2.1, .put (.refl _)⟩
    split at h
    · rename_i hc
      cases h
      have hlogs := Logs.one obj hfind fun objects => s.marked_frame target e.reloc
      rw [hsame, hc] at hlogs
      refine .inr (.inr ⟨rfl, fun hw => (hfails.1 hw).2.2.1 hc, ?_, hlogs⟩)
      exact .did (.put (s.marked_frame target e.reloc)) obj e.reloc
    split at h
    · rename_i hc
      cases h
      exact .inl ⟨by decide, fun hw => (hfails.1 hw).2.2.2.1 hc,
        .put (s.marked_frame target e.reloc)⟩
    split at h
    · rename_i hc
      cases h
      exact .inl ⟨by decide, fun hw => hc (hfails.1 hw).2.2.2.2.1,
        .put (s.marked_frame target e.reloc)⟩
    rename_i hone hgpu hne hbound halign
    have hpassed : ((objectSetToGttDomain obj e.setToGttDomain s).1 ≠ 0 ∨ e.putFence.ret ≠ 0) ↔
        WriteFails file obj e s :=
      ⟨fun hw => hfails.2 ⟨not_not.1 hone, not_not.1 hgpu, hne, hbound, not_not.1 halign, hw⟩,
        fun hw => (hfails.1 hw).2.2.2.2.2⟩
    have hset : Frame [] (s.reference target) _ := (s.marked_frame target e.reloc).trans
      (objectSetToGttDomain_frame obj e.setToGttDomain _)
    dsimp only at h
    rw [hready] at h
    split at h
    · rename_i hc
      cases h
      exact .inr (.inl ⟨hc, hpassed.1 (.inl hc), target, href.trans hset.toSteady.owes⟩)
    split at h
    · rename_i hc
      cases h
      exact .inr (.inl ⟨hc, hpassed.1 (.inr hc), target,
        href.trans (hset.trans (e.putFence.run_frame _)).toSteady.owes⟩)
    · rename_i hdom hfence
      cases h
      have hlogs := Logs.one obj hfind fun objects => s.written_frame obj target e
      rw [hsame] at hlogs
      refine .inr (.inr ⟨rfl, fun hw => ?_, ?_, hlogs⟩)
      · rcases hpassed.2 hw with hw | hw
        · exact hdom hw
        · exact hfence hw
      · exact .did (.put (s.written_frame obj target e)) obj _

/-- The entry is come to, and its object cannot be made ready for it. -/
def OneWriteFails (copies : Bool) (file obj : Nat) (p : RelocEnv × Nat) (s : Eb) : Prop :=
  ¬ (copies = true ∧ p.2 % nReloc = 0 ∧ p.1.copyFault = true) ∧ WriteFails file obj p.1 s

/-- One reference too many is left. -/
def LosesOne (s t : Eb) : Prop := ∃ target, Owes s t [target]

theorem LosesOne.after ⦃s t u : Eb⦄ (h : Steady s t) (h' : LosesOne t u) : LosesOne s u := by
  obtain ⟨target, howes⟩ := h'
  exact ⟨target, h.owes.trans howes⟩

theorem relocateOne_owes {copies : Bool} {file obj : Nat} {p : RelocEnv × Nat} {s t : Eb}
    {ret : Int} (h : relocateOne copies file obj p s = (ret, t)) :
    (¬ OneWriteFails copies file obj p s ∧ Steady s t) ∨
      (OneWriteFails copies file obj p s ∧ ret ≠ 0 ∧ LosesOne s t) := by
  unfold relocateOne at h
  split at h
  · rename_i hcopy
    cases h
    exact .inl ⟨fun hw => hw.1 hcopy, .refl s⟩
  rename_i hcopy
  cases hr : execbufferRelocateEntry file obj p.1 s with
  | mk ret' rt =>
    obtain ⟨r, u⟩ := rt
    rw [hr] at h
    dsimp only at h
    have ht : t = u := by
      split at h <;> exact (Prod.mk.inj h).2.symm
    subst ht
    rcases relocateEntry_cases hr with ⟨-, hw, hs⟩ | ⟨hne, hw, hlost⟩ | ⟨-, hw, hs, -⟩
    · exact .inl ⟨fun hone => hw hone.2, hs⟩
    · rw [if_neg fun hc => hne hc.2.1] at h
      cases h
      exact .inr ⟨⟨hcopy, hw⟩, hne, hlost⟩
    · exact .inl ⟨fun hone => hw hone.2, hs⟩

theorem relocateObject_owes {a : Args} {copies : Bool} {file : Nat} {mem : Nat → Nat → RelocEnv}
    {obj : Nat} {s t : Eb} {ret : Int}
    (h : relocateObject a copies file mem obj s = some (ret, t)) :
    (¬ (∃ p u, Lib.Act.failsAt (fun p => .call (relocateOne copies file obj p))
        (a.relocs mem (s.obj obj).execEntry) s = some (p, u) ∧
          OneWriteFails copies file obj p u) ∧ Steady s t) ∨
      ((∃ p u, Lib.Act.failsAt (fun p => .call (relocateOne copies file obj p))
        (a.relocs mem (s.obj obj).execEntry) s = some (p, u) ∧
          OneWriteFails copies file obj p u) ∧ ret ≠ 0 ∧ LosesOne s t) := by
  apply Lib.Act.each_bad Steady.refl Steady.trans LosesOne.after _ h
  intro p _ s ret t hone
  exact relocateOne_owes (Option.some.inj hone)

/-- A pass over the relocations leaves no reference, unless it ends at an object that cannot be made
ready. -/
theorem relocatePass_owes {a : Args} {copies : Bool} {file : Nat} {mem : Nat → Nat → RelocEnv}
    {objects : List Nat} {s t : Eb} {ret : Int}
    (h : Lib.Act.each (relocateObject a copies file mem) objects s = some (ret, t)) :
    (¬ PassWriteFails a copies file mem objects s ∧ Steady s t) ∨
      (PassWriteFails a copies file mem objects s ∧ ret ≠ 0 ∧ LosesOne s t) := by
  have hpass : PassWriteFails a copies file mem objects s ↔
      ∃ obj u, Lib.Act.failsAt (relocateObject a copies file mem) objects s = some (obj, u) ∧
        ∃ p v, Lib.Act.failsAt (fun p => .call (relocateOne copies file obj p))
          (a.relocs mem (u.obj obj).execEntry) u = some (p, v) ∧
            OneWriteFails copies file obj p v := by
    constructor
    · intro hw
      obtain ⟨obj, u, p, v, hobj, hp, hcopy, hfail⟩ := hw
      exact ⟨obj, u, hobj, p, v, hp, hcopy, hfail⟩
    · intro hw
      obtain ⟨obj, u, hobj, p, v, hp, hcopy, hfail⟩ := hw
      exact ⟨obj, u, p, v, hobj, hp, hcopy, hfail⟩
  rw [hpass]
  apply Lib.Act.each_bad Steady.refl Steady.trans LosesOne.after _ h
  intro obj _ s ret t hobj
  exact relocateObject_owes hobj

/-! ## What a pass has done -/

theorem relocDone_congr {file : Nat} {s t : Eb} (hfiles : t.gem.files = s.gem.files)
    (hplace : ∀ o, (t.obj o).gttOffset = (s.obj o).gttOffset) :
    relocDone file t = relocDone file s := by
  funext q
  simp only [relocDone, hfiles, hplace]

theorem Logs.nil (file : Nat) (s : Eb) : Logs file [] s s :=
  ⟨rfl, fun _ => ⟨rfl, rfl, rfl⟩, rfl, (List.append_nil _).symm, nofun⟩

theorem Logs.append {file : Nat} {l l' : List (Nat × RelocEnv)} {s t u : Eb} (h₁ : Logs file l s t)
    (h₂ : Logs file l' t u) : Logs file (l ++ l') s u where
  files := h₂.files.trans h₁.files
  place o := ⟨(h₂.place o).1.trans (h₁.place o).1, (h₂.place o).2.1.trans (h₁.place o).2.1,
    (h₂.place o).2.2.trans (h₁.place o).2.2⟩
  pass := h₂.pass.trans h₁.pass
  done := by
    rw [h₂.done, h₁.done, relocDone_congr h₁.files fun o => (h₁.place o).2.2, List.map_append,
      List.append_assoc]
  known q hq := by
    rcases List.mem_append.1 hq with hq | hq
    · exact h₁.known q hq
    · rw [← h₁.files]
      exact h₂.known q hq

/-- A loop whose passes are logged, where what a pass logs does not depend on the earlier ones. -/
theorem each_logs {α : Type} {file : Nat} {f : α → Lib.Act Eb} {g : α → Eb → List (Nat × RelocEnv)}
    (hg : ∀ x ⦃s t⦄, (∀ o, (t.obj o).execEntry = (s.obj o).execEntry) → g x t = g x s)
    (hf : ∀ x ⦃s t⦄, f x s = some (0, t) → Logs file (g x s) s t) {l : List α} {s t : Eb}
    (h : Lib.Act.each f l s = some (0, t)) : Logs file (l.flatMap (g · s)) s t := by
  induction l generalizing s with
  | nil =>
    cases Option.some.inj h
    exact .nil file _
  | cons x xs ih =>
    obtain ⟨u, hu, hxs⟩ := Lib.Act.andThen_eq_zero h
    have hlogs := hf x hu
    have hsame : xs.flatMap (g · u) = xs.flatMap (g · s) := by
      congr 1
      funext y
      exact hg y fun o => (hlogs.place o).1
    rw [List.flatMap_cons, ← hsame]
    exact hlogs.append (ih hxs)

theorem relocateOne_logs {copies : Bool} {file obj : Nat} {p : RelocEnv × Nat} {s t : Eb}
    (h : relocateOne copies file obj p s = (0, t)) : Logs file [(obj, p.1)] s t := by
  unfold relocateOne at h
  split at h
  · cases h
  cases hr : execbufferRelocateEntry file obj p.1 s with
  | mk ret rt =>
    obtain ⟨r, u⟩ := rt
    rw [hr] at h
    dsimp only at h
    split at h
    · cases h
    · cases h
      rcases relocateEntry_cases hr with ⟨hne, -⟩ | ⟨hne, -⟩ | ⟨-, -, -, hlogs⟩
      · exact absurd rfl hne
      · exact absurd rfl hne
      · exact hlogs

/-- The relocations of the objects of a list, with the object they are in. -/
def Args.passRelocs (a : Args) (mem : Nat → Nat → RelocEnv) (objects : List Nat) (s : Eb) :
    List (Nat × RelocEnv) :=
  objects.flatMap fun obj => (a.relocs mem (s.obj obj).execEntry).map fun p => (obj, p.1)

theorem relocatePass_logs {a : Args} {copies : Bool} {file : Nat} {mem : Nat → Nat → RelocEnv}
    {objects : List Nat} {s t : Eb}
    (h : Lib.Act.each (relocateObject a copies file mem) objects s = some (0, t)) :
    Logs file (a.passRelocs mem objects s) s t := by
  refine each_logs (g := fun obj s =>
    (a.relocs mem (s.obj obj).execEntry).map fun p => (obj, p.1)) ?_ ?_ h
  · intro obj s t hentry
    rw [hentry]
  · intro obj s t hobj
    have hlogs := each_logs (g := fun p _ => [(obj, p.1)]) (fun _ _ _ _ => rfl)
      (fun p _ _ hp => relocateOne_logs (Option.some.inj hp)) hobj
    rwa [← List.map_eq_flatMap] at hlogs

end I915.Exec
