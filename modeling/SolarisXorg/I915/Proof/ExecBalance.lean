import Mathlib.Data.List.TakeWhile
import SolarisXorg.I915.Proof.ExecReloc

/-!
# The reference balance of an execbuffer

The look-ups leave one reference for each object of the list and, if they stop at an object whose
node is in use, one more (`lookup_checked`); without that check they leave one for each handle, while
the list has every object once (`lookup_unchecked`). A pass over the relocations leaves one reference
if it ends at an object that cannot be made ready (`relocatePass_owes`). The loop at `err` gives back
what the list has (`putObjects_owed`). What is left over is counted through the whole call
(`doExecbuffer_owes`): nothing exactly if `Sound`.
-/

namespace I915.Exec

open Drm (EINVAL ENOENT)

/-! ## The list -/

theorem takeWhile_ne {l : List Nat} {o : Nat} (ho : o ∉ l) : l.takeWhile (· ≠ o) = l := by
  rw [List.takeWhile_eq_self_iff]
  intro x hx
  exact decide_eq_true fun hxo => ho (hxo ▸ hx)

theorem ExecList.addTail_new {l : ExecList} {o : Nat} (ho : o ∉ l.nodes) :
    l.addTail o = { l with nodes := l.nodes ++ [o], selfNext := false } := by
  have hlast : (l.nodes.getLast? == some o) = false :=
    beq_false_of_ne fun h => ho (List.mem_of_getLast? h)
  have hhead : (l.nodes.head? == some o) = false :=
    beq_false_of_ne fun h => ho (List.mem_of_head? h)
  simp only [ExecList.addTail, takeWhile_ne ho, hlast, hhead, Bool.or_false]

theorem ExecList.addTail_nodup {l : ExecList} {o : Nat} (h : l.nodes.Nodup) :
    (l.addTail o).nodes.Nodup ∧ ∀ x ∈ (l.addTail o).nodes, x = o ∨ x ∈ l.nodes := by
  have hpre := List.takeWhile_prefix (l := l.nodes) (fun x => decide (x ≠ o))
  constructor
  · apply List.nodup_append.2
    refine ⟨h.sublist hpre.sublist, List.nodup_singleton o, fun x hx y hy => ?_⟩
    rw [List.mem_singleton.1 hy]
    simpa using List.mem_takeWhile_imp hx
  · intro x hx
    rcases List.mem_append.1 hx with hx | hx
    · exact .inr (hpre.subset hx)
    · exact .inl (List.mem_singleton.1 hx)

/-! ## Look-ups -/

/-- The state in which a looked-up object is on the list. -/
def Eb.listObject (s : Eb) (o i : Nat) : Eb :=
  (s.reference o).modify o fun x => { x with listed := true, execEntry := i }

theorem Eb.listObject_owes (s : Eb) (o i : Nat) : Owes s (s.listObject o i) [o] := by
  refine ⟨fun x => ?_, rfl⟩
  have hmodify : Steady (s.reference o) (s.listObject o i) := by
    unfold Eb.listObject
    exact .modify _ fun _ => rfl
  rw [hmodify.owed, Eb.reference_owed, tally_cons, tally_nil, add_zero]

theorem Eb.listObject_listed (s : Eb) (o i x : Nat) :
    ((s.listObject o i).obj x).listed = (decide (x = o) || (s.obj x).listed) := by
  rw [Eb.listObject, Eb.modify_obj]
  split
  · rename_i hx
    simp [hx]
  · rename_i hx
    simp [hx, Eb.reference]

theorem lookupObjects_cons {checked : Bool} {file : Nat} {x : ExecObject} {i o : Nat}
    {rest : List (ExecObject × Nat)} {l : ExecList} {s : Eb}
    (hfind : Drm.idrListFind (s.gem.files file) x.handle = some o) :
    lookupObjects checked file ((x, i) :: rest) l s =
      if (checked && (s.obj o).listed) = true then (-EINVAL, l, s.reference o)
      else lookupObjects checked file rest (l.addTail o) (s.listObject o i) := by
  simp only [lookupObjects, Drm.gemObjectLookup, hfind]
  rfl

theorem lookupObjects_unknown {checked : Bool} {file : Nat} {x : ExecObject} {i : Nat}
    {rest : List (ExecObject × Nat)} {l : ExecList} {s : Eb}
    (hfind : Drm.idrListFind (s.gem.files file) x.handle = none) :
    lookupObjects checked file ((x, i) :: rest) l s = (-ENOENT, l, s) := by
  simp only [lookupObjects, Drm.gemObjectLookup, hfind]

/-- The objects are different, and their nodes are not in use. -/
def Distinct (s : Eb) (objects : List Nat) : Prop :=
  objects.Nodup ∧ ∀ o ∈ objects, (s.obj o).listed = false

theorem distinct_cons {s : Eb} {o i : Nat} {objects : List Nat} (ho : (s.obj o).listed = false) :
    Distinct (s.listObject o i) objects ↔ Distinct s (o :: objects) := by
  simp only [Distinct, List.nodup_cons, List.mem_cons, forall_eq_or_imp, ho, true_and,
    Eb.listObject_listed, Bool.or_eq_false_iff, decide_eq_false_iff_not]
  constructor
  · intro h
    exact ⟨⟨fun hmem => (h.2 o hmem).1 rfl, h.1⟩, fun x hx => (h.2 x hx).2⟩
  · intro h
    exact ⟨h.1.2, fun x hx => ⟨fun hxo => h.1.1 (hxo ▸ hx), h.2 x hx⟩⟩

/-- The look-ups of `i915_gem_do_execbuffer`. -/
theorem lookup_checked {file : Nat} {xs : List (ExecObject × Nat)} {l l' : ExecList} {s t : Eb}
    {ret : Int} (hdrains : l.drains = true) (hlisted : ∀ o ∈ l.nodes, (s.obj o).listed = true)
    (h : lookupObjects true file xs l s = (ret, l', t)) :
    l'.drains = true ∧
      ((Distinct s (knownObjects (s.gem.files file) (xs.map Prod.fst)) ∧
        l'.nodes = l.nodes ++ knownObjects (s.gem.files file) (xs.map Prod.fst) ∧
        Owes s t (knownObjects (s.gem.files file) (xs.map Prod.fst))) ∨
      (¬ Distinct s (knownObjects (s.gem.files file) (xs.map Prod.fst)) ∧ ret ≠ 0 ∧
        ∃ found o, l'.nodes = l.nodes ++ found ∧ Owes s t (found ++ [o]))) := by
  induction xs generalizing l s with
  | nil =>
    cases h
    exact ⟨hdrains, .inl ⟨⟨List.nodup_nil, nofun⟩, (List.append_nil _).symm, (Steady.refl _).owes⟩⟩
  | cons p rest ih =>
    obtain ⟨x, i⟩ := p
    rw [List.map_cons, knownObjects]
    cases hfind : Drm.idrListFind (s.gem.files file) x.handle with
    | none =>
      rw [lookupObjects_unknown hfind] at h
      cases h
      exact ⟨hdrains, .inl ⟨⟨List.nodup_nil, nofun⟩, (List.append_nil _).symm,
        (Steady.refl _).owes⟩⟩
    | some o =>
      rw [lookupObjects_cons hfind, Bool.true_and] at h
      dsimp only
      split at h
      · rename_i ho
        cases h
        refine ⟨hdrains, .inr ⟨fun hd => ?_, by decide, [], o, (List.append_nil _).symm, ?_⟩⟩
        · have hfree := hd.2 o List.mem_cons_self
          rw [ho] at hfree
          cases hfree
        · refine ⟨fun x => ?_, rfl⟩
          rw [Eb.reference_owed, List.nil_append, tally_cons, tally_nil, add_zero]
      · rename_i ho
        have hfree : (s.obj o).listed = false := by simpa using ho
        have hnew : o ∉ l.nodes := fun hmem => ho (hlisted o hmem)
        have howes := s.listObject_owes o i
        rw [ExecList.addTail_new hnew] at h
        have hrest := ih ?_ ?_ h
        · rw [howes.2, distinct_cons hfree] at hrest
          refine ⟨hrest.1, ?_⟩
          rcases hrest.2 with ⟨hd, hnodes, hrefs⟩ | ⟨hd, hret, found, y, hnodes, hrefs⟩
          · refine .inl ⟨hd, ?_, howes.trans hrefs⟩
            rw [hnodes, List.append_assoc, List.singleton_append]
          · refine .inr ⟨hd, hret, o :: found, y, ?_, howes.trans hrefs⟩
            rw [hnodes, List.append_assoc, List.singleton_append]
        · simp only [ExecList.drains, Bool.and_eq_true, Bool.not_eq_true'] at hdrains ⊢
          exact ⟨trivial, hdrains.2⟩
        · intro y hy
          rw [Eb.listObject_listed]
          rcases List.mem_append.1 hy with hy | hy
          · rw [hlisted y hy, Bool.or_true]
          · rw [List.mem_singleton.1 hy, decide_eq_true rfl, Bool.true_or]

/-- The look-ups of `i915_gem_execbuffer_relocate_slow`. -/
theorem lookup_unchecked {file : Nat} {xs : List (ExecObject × Nat)} {l l' : ExecList} {s t : Eb}
    {ret : Int} (hnodup : l.nodes.Nodup) (h : lookupObjects false file xs l s = (ret, l', t)) :
    Owes s t (knownObjects (s.gem.files file) (xs.map Prod.fst)) ∧ l'.nodes.Nodup ∧
      (∀ o ∈ l'.nodes, o ∈ l.nodes ∨ o ∈ knownObjects (s.gem.files file) (xs.map Prod.fst)) ∧
      ((l.nodes ++ knownObjects (s.gem.files file) (xs.map Prod.fst)).Nodup →
        l'.nodes = l.nodes ++ knownObjects (s.gem.files file) (xs.map Prod.fst)) := by
  induction xs generalizing l s with
  | nil =>
    cases h
    exact ⟨(Steady.refl _).owes, hnodup, fun o ho => .inl ho, fun _ => (List.append_nil _).symm⟩
  | cons p rest ih =>
    obtain ⟨x, i⟩ := p
    rw [List.map_cons, knownObjects]
    cases hfind : Drm.idrListFind (s.gem.files file) x.handle with
    | none =>
      rw [lookupObjects_unknown hfind] at h
      cases h
      exact ⟨(Steady.refl _).owes, hnodup, fun o ho => .inl ho, fun _ => (List.append_nil _).symm⟩
    | some o =>
      rw [lookupObjects_cons hfind, Bool.false_and, if_neg Bool.false_ne_true] at h
      have howes := s.listObject_owes o i
      obtain ⟨hadd, hsub⟩ := ExecList.addTail_nodup (o := o) hnodup
      have hrest := ih hadd h
      rw [howes.2] at hrest
      obtain ⟨hrefs, hnodup', hsub', heq⟩ := hrest
      dsimp only
      refine ⟨howes.trans hrefs, hnodup', fun y hy => ?_, fun hd => ?_⟩
      · rcases hsub' y hy with hy | hy
        · rcases hsub y hy with rfl | hy
          · exact .inr List.mem_cons_self
          · exact .inl hy
        · exact .inr (List.mem_cons_of_mem o hy)
      · have hnew : o ∉ l.nodes := by
          rw [List.nodup_append] at hd
          exact fun hmem => hd.2.2 o hmem o List.mem_cons_self rfl
        rw [ExecList.addTail_new hnew] at heq
        simp only [List.append_assoc, List.singleton_append] at heq
        exact heq hd

theorem putObjects_owed (objects : List Nat) (s : Eb) :
    (putObjects objects s).gem.files = s.gem.files ∧
      ∀ o, (putObjects objects s).owed o = s.owed o - tally objects o := by
  induction objects generalizing s with
  | nil => exact ⟨rfl, fun o => (sub_zero _).symm⟩
  | cons x rest ih =>
    have hmodify : Steady s (s.modify x fun y => { y with listed := false }) :=
      .modify s fun _ => rfl
    obtain ⟨hfiles, howed⟩ := ih ((s.modify x fun y => { y with listed := false }).unreference x)
    refine ⟨hfiles.trans ?_, fun o => (howed o).trans ?_⟩
    · rw [Eb.unreference_files, hmodify.files]
    · rw [Eb.unreference_owed, hmodify.owed, tally_cons, sub_sub]

theorem tally_perm {l l' : List Nat} (h : l.Perm l') (o : Nat) : tally l o = tally l' o := by
  rw [tally, tally, h.count_eq]

/-- The references for all handles are those for the list and those that the list has lost. -/
theorem tally_diff {known nodes : List Nat} (hnodup : nodes.Nodup) (hsub : ∀ o ∈ nodes, o ∈ known)
    (o : Nat) : tally known o = tally nodes o + tally (known.diff nodes) o := by
  have hle : nodes.count o ≤ known.count o := by
    by_cases ho : o ∈ nodes
    · rw [List.count_eq_one_of_mem hnodup ho]
      exact List.count_pos_iff.2 (hsub o ho)
    · rw [List.count_eq_zero_of_not_mem ho]
      exact Nat.zero_le _
  rw [tally, tally, tally, ← UInt32.ofNat_add, List.count_diff, Nat.add_sub_cancel' hle]

theorem diff_eq_nil_iff {known nodes : List Nat} (hnodup : nodes.Nodup)
    (heq : known.Nodup → nodes = known) : known.diff nodes = [] ↔ known.Nodup := by
  constructor
  · intro h
    rw [List.nodup_iff_count_le_one]
    intro o
    have hcount := List.count_diff o known nodes
    rw [h, List.count_nil] at hcount
    have hone := List.nodup_iff_count_le_one.1 hnodup o
    omega
  · intro h
    rw [heq h, List.eq_nil_iff_forall_not_mem]
    intro o ho
    have hpos := List.count_pos_iff.2 ho
    rw [List.count_diff] at hpos
    omega

/-! ## The parts of the call -/

/-- The call holds a reference for every object of `nodes`, and has lost those of `lost`. -/
def Holds (s t : Eb) (nodes lost : List Nat) : Prop :=
  ∀ o, t.owed o = s.owed o + tally nodes o + tally lost o

theorem Holds.steady {s t u : Eb} {nodes lost : List Nat} (h : Holds s t nodes lost)
    (h' : Steady t u) : Holds s u nodes lost := fun o => (h'.owed o).trans (h o)

theorem Holds.lose {s t u : Eb} {nodes lost lost' : List Nat} (h : Holds s t nodes lost)
    (h' : Owes t u lost') : Holds s u nodes (lost ++ lost') := fun o => by
  rw [h'.1, h, tally_append, add_assoc]

theorem Holds.put {s t : Eb} {nodes lost : List Nat} (h : Holds s t nodes lost) :
    Holds s (putObjects nodes t) [] lost := fun o => by
  rw [(putObjects_owed nodes t).2, h, tally_nil, add_zero, add_right_comm, add_sub_cancel_right]

theorem Eb.relock_owed (s found : Eb) (o : Nat) : (s.relock found).owed o = s.owed o := by
  simp only [Eb.owed]
  have hheld : (s.relock found).held o = found.held o := rfl
  have hothers : (s.relock found).others o = s.others o + (found.held o - s.held o) := rfl
  rw [hheld, hothers]
  abel

/-- What the look-ups and the placing leave. -/
theorem acquireObjects_owes {checked : Bool} {a : Args} {e : Env} {r : ReserveEnv} {s t : Eb}
    {ret : Int} {last : Nat} {l : ExecList}
    (h : acquireObjects checked a e r s = some (ret, last, l, t)) :
    ∃ ret' l' u, lookupObjects checked e.file a.exec.zipIdx {} s = (ret', l', u) ∧
      (ret' ≠ 0 → ret ≠ 0) ∧ Steady u t ∧ l.nodes.Perm l'.nodes := by
  unfold acquireObjects at h
  cases hl : lookupObjects checked e.file a.exec.zipIdx {} s with
  | mk ret' lu =>
    obtain ⟨l', u⟩ := lu
    rw [hl] at h
    refine ⟨ret', l', u, rfl, ?_⟩
    dsimp only at h
    split at h
    · rename_i hret
      cases h
      exact ⟨fun _ => hret, .refl _, .refl _⟩
    · rename_i hret
      split at h
      · cases h
      · split at h
        · cases h
        · rename_i objects ret₂ v hreserve
          cases h
          obtain ⟨hsteady, hperm⟩ := execbufferReserve_frame hreserve
          refine ⟨fun hne => absurd hne hret, Steady.trans ?_ hsteady.toSteady, hperm⟩
          exact .of_eq rfl rfl rfl

theorem zipIdx_fst (l : List ExecObject) : l.zipIdx.map Prod.fst = l := by simp

/-- The objects are looked up and placed for the first time. -/
theorem acquire_checked {a : Args} {e : Env} {r : ReserveEnv} {s t : Eb} {ret : Int} {last : Nat}
    {l : ExecList} (h : acquireObjects true a e r s = some (ret, last, l, t)) :
    (Distinct s (knownObjects (s.gem.files e.file) a.exec) ∧ Holds s t l.nodes []) ∨
      (¬ Distinct s (knownObjects (s.gem.files e.file) a.exec) ∧ ret ≠ 0 ∧
        ∃ o, Holds s t l.nodes [o]) := by
  obtain ⟨ret', l', u, hlookup, hstop, hsteady, hperm⟩ := acquireObjects_owes h
  have hempty : ∀ o ∈ ({} : ExecList).nodes, (s.obj o).listed = true := by
    intro o ho
    cases ho
  have hcases := (lookup_checked rfl hempty hlookup).2
  rw [zipIdx_fst] at hcases
  rcases hcases with ⟨hd, hnodes, howes⟩ | ⟨hd, hret, found, o, hnodes, howes⟩
  · refine .inl ⟨hd, fun x => ?_⟩
    rw [hsteady.owed, howes.1, tally_perm hperm, hnodes, List.nil_append, tally_nil, add_zero]
  · refine .inr ⟨hd, hstop hret, o, fun x => ?_⟩
    rw [hsteady.owed, howes.1, tally_perm hperm, hnodes, List.nil_append, tally_append, add_assoc]

theorem knownObjects_length (head : Drm.IdrList Nat) (xs : List ExecObject) :
    (knownObjects head xs).length ≤ xs.length := by
  induction xs with
  | nil => exact Nat.le_refl 0
  | cons x rest ih =>
    unfold knownObjects
    split
    · exact Nat.zero_le _
    · exact Nat.succ_le_succ ih

/-- The objects are looked up and placed again. -/
theorem acquire_unchecked {a : Args} {e : Env} {r : ReserveEnv} {s t : Eb} {ret : Int} {last : Nat}
    {l : ExecList} (h : acquireObjects false a e r s = some (ret, last, l, t)) :
    ∃ lost, Holds s t l.nodes lost ∧ lost.length ≤ a.exec.length ∧
      (lost = [] ↔ (knownObjects (s.gem.files e.file) a.exec).Nodup) := by
  obtain ⟨ret', l', u, hlookup, -, hsteady, hperm⟩ := acquireObjects_owes h
  have hspec := lookup_unchecked List.nodup_nil hlookup
  rw [zipIdx_fst] at hspec
  obtain ⟨howes, hnodup, hsub, heq⟩ := hspec
  refine ⟨(knownObjects (s.gem.files e.file) a.exec).diff l'.nodes, fun x => ?_, ?_, ?_⟩
  · have hin : ∀ o ∈ l'.nodes, o ∈ knownObjects (s.gem.files e.file) a.exec := by
      intro o ho
      exact (hsub o ho).resolve_left nofun
    rw [hsteady.owed, howes.1, tally_perm hperm, tally_diff hnodup hin, add_assoc]
  · exact (List.diff_sublist ..).length_le.trans (knownObjects_length ..)
  · apply diff_eq_nil_iff hnodup
    intro hknown
    exact heq hknown

theorem leave_eq {ret ret' : Int} {l : ExecList} {s t : Eb} (h : leave ret l s = some (ret', t)) :
    t = putObjects l.nodes s := by
  unfold leave at h
  split at h
  · cases h
    rfl
  · cases h

theorem finish_holds {a : Args} {e : Env} {ring : RingId} {batch : Nat} {ret ret' : Int}
    {l : ExecList} {s t u : Eb} {lost : List Nat} (hs : Holds s t l.nodes lost)
    (h : finish a e ring batch ret l t = some (ret', u)) : Holds s u [] lost := by
  unfold finish at h
  split at h
  · rw [leave_eq h]
    exact hs.put
  · split at h
    · cases h
    · rename_i ret₂ v hv
      rw [leave_eq h]
      exact (hs.steady (submit_frame _ _ _ _ _ hv).toSteady).put

/-- A pass adds to what is lost if it ends at an object that cannot be made ready. -/
theorem relocatePass_holds {a : Args} {copies : Bool} {file : Nat} {mem : Nat → Nat → RelocEnv}
    {objects nodes lost : List Nat} {s t u : Eb} {ret : Int} (hs : Holds s t nodes lost)
    (h : Lib.Act.each (relocateObject a copies file mem) objects t = some (ret, u)) :
    ∃ lost', Holds s u nodes (lost ++ lost') ∧ lost'.length ≤ 1 ∧
      (lost' = [] ↔ ¬ PassWriteFails a copies file mem objects t) := by
  rcases relocatePass_owes h with ⟨hw, hsteady⟩ | ⟨hw, -, target, howes⟩
  · refine ⟨[], hs.lose hsteady.owes, Nat.zero_le 1, ?_⟩
    exact ⟨fun _ => hw, fun _ => rfl⟩
  · refine ⟨[target], hs.lose howes, Nat.le_refl 1, ?_⟩
    exact ⟨nofun, fun hn => absurd hw hn⟩

theorem relocateSlow_holds {a : Args} {e : Env} {l : ExecList} {objects lost : List Nat}
    {s t u : Eb} {ret : Int} (hs : Holds s t objects lost)
    (h : execbufferRelocateSlow a e objects t = some (ret, l, u)) :
    ∃ lost', Holds s u l.nodes (lost ++ lost') ∧ lost'.length ≤ a.exec.length + 1 ∧
      (lost' = [] ↔ (e.slow.alloc = true → e.slow.copyFault = false → e.slow.lock = 0 →
        SlowSound a e ((putObjects objects t).relock e.slow.state))) := by
  have hput : Holds s ((putObjects objects t).relock e.slow.state) [] lost := by
    intro o
    rw [Eb.relock_owed]
    exact hs.put o
  have hearly : Holds s ((putObjects objects t).relock e.slow.state) [] (lost ++ []) := by
    rwa [List.append_nil]
  unfold execbufferRelocateSlow at h
  dsimp only at h
  split at h
  · rename_i halloc
    cases h
    refine ⟨[], hearly, Nat.zero_le _, fun _ hc => ?_, fun _ => rfl⟩
    rw [halloc] at hc
    cases hc
  split at h
  · rename_i hcopy
    cases h
    refine ⟨[], hearly, Nat.zero_le _, fun _ _ hc => ?_, fun _ => rfl⟩
    rw [hcopy] at hc
    cases hc
  split at h
  · rename_i hlock
    cases h
    exact ⟨[], hearly, Nat.zero_le _, fun _ _ _ hc => absurd hc hlock, fun _ => rfl⟩
  rename_i halloc hcopy hlock
  have hread : ∀ P : Prop, (e.slow.alloc = true → e.slow.copyFault = false → e.slow.lock = 0 → P) ↔
      P := by
    intro P
    have halloc' : e.slow.alloc = true := by simpa using halloc
    have hcopy' : e.slow.copyFault = false := by simpa using hcopy
    exact ⟨fun hp => hp halloc' hcopy' (not_not.1 hlock), fun hp _ _ _ => hp⟩
  rw [hread]
  split at h
  · cases h
  · rename_i ret' last l' v hv
    obtain ⟨again, hagain, hlen, hnodup⟩ := acquire_unchecked hv
    have hplaced : Holds s v l'.nodes (lost ++ again) := by
      intro o
      rw [hagain, hput, tally_nil, add_zero, tally_append]
      abel
    split at h
    · rename_i hret
      cases h
      refine ⟨again, hplaced, Nat.le_succ_of_le hlen, ?_⟩
      rw [hnodup, SlowSound]
      refine ⟨fun hk => ⟨hk, fun last' l' t' hplace => ?_⟩, fun hk => hk.1⟩
      rw [hv] at hplace
      cases hplace
      exact absurd rfl hret
    · rename_i hret
      cases hpass : Lib.Act.each (execbufferRelocateObjectSlow a e.file e.slow.reloc) l'.nodes v with
      | none =>
        rw [hpass] at h
        cases h
      | some p =>
        obtain ⟨ret₂, w⟩ := p
        rw [hpass] at h
        cases h
        obtain ⟨more, hmore, hone, hfails⟩ := relocatePass_holds hplaced hpass
        refine ⟨again ++ more, ?_, ?_, ?_⟩
        · rwa [List.append_assoc] at hmore
        · rw [List.length_append]
          omega
        · rw [List.append_eq_nil_iff, hnodup, hfails, SlowSound]
          apply and_congr_right
          intro _
          rw [not_not.1 hret] at hv
          constructor
          · intro hn last' l₂ t' hplace
            rw [hv] at hplace
            cases hplace
            exact hn
          · intro hn
            exact hn last l v hv

theorem relocateAndSubmit_holds {a : Args} {e : Env} {ring : RingId} {batch : Nat} {l : ExecList}
    {s t u : Eb} {ret : Int} (hs : Holds s t l.nodes [])
    (h : relocateAndSubmit a e ring batch l t = some (ret, u)) :
    ∃ lost, Holds s u [] lost ∧ lost.length ≤ a.exec.length + 2 ∧
      (lost = [] ↔ (t.needRelocs = true → FastSound a e l.nodes t)) := by
  unfold relocateAndSubmit at h
  split at h
  · rename_i hneed
    refine ⟨[], finish_holds hs h, Nat.zero_le _, fun _ hc => ?_, fun _ => rfl⟩
    rw [hneed] at hc
    cases hc
  rename_i hneed
  have hneed' : t.needRelocs = true := by simpa using hneed
  have hstart : Holds s { t with pass := .fast } l.nodes [] := hs.steady (.of_eq rfl rfl rfl)
  split at h
  · cases h
  · rename_i ret' v hpass
    obtain ⟨lost, hlost, hone, hfails⟩ := relocatePass_holds hstart hpass
    rw [List.nil_append] at hlost
    split at h
    · rename_i hret
      rw [hret] at hpass
      split at h
      · cases h
      · rename_i ret₂ l' w hslow
        obtain ⟨more, hmore, hlen, hsound⟩ := relocateSlow_holds hlost hslow
        refine ⟨lost ++ more, finish_holds hmore h, ?_, ?_⟩
        · rw [List.length_append]
          omega
        · rw [List.append_eq_nil_iff, hfails, hsound]
          refine ⟨fun hf _ => ⟨hf.1, fun t' ht' => ?_⟩, fun hf => ?_⟩
          · rw [hpass] at ht'
            cases ht'
            exact hf.2
          · exact ⟨(hf hneed').1, (hf hneed').2 v hpass⟩
    · rename_i hret
      refine ⟨lost, finish_holds hlost h, by omega, ?_⟩
      rw [hfails]
      refine ⟨fun hf _ => ⟨hf, fun t' ht' => ?_⟩, fun hf => (hf hneed').1⟩
      rw [hpass] at ht'
      cases ht'
      exact absurd rfl hret

/-- What the call has lost when it returns: nothing exactly if it is sound. -/
theorem doExecbuffer_holds {a : Args} {e : Env} {s t : Eb} {ret : Int}
    (h : doExecbuffer a e s = some (ret, t)) :
    ∃ lost, Holds s t [] lost ∧ lost.length ≤ a.exec.length + 2 ∧ (lost = [] ↔ Sound a e s) := by
  unfold doExecbuffer at h
  cases hpre : preMutex a e s with
  | error err =>
    rw [hpre] at h
    cases h
    refine ⟨[], fun o => ?_, Nat.zero_le _, fun _ hok => ?_, fun _ => rfl⟩
    · rw [tally_nil, add_zero, add_zero]
    · rw [hpre] at hok
      cases hok
  | ok ring =>
    rw [hpre] at h
    dsimp only at h
    have hstart : Steady s (s.start a) := .of_eq rfl rfl rfl
    have hsound : Sound a e s ↔ Distinct (s.start a) (knownObjects (s.gem.files e.file) a.exec) ∧
        ∀ last l t, acquireObjects true a e e.reserve (s.start a) = some (0, last, l, t) →
          t.needRelocs = true → FastSound a e l.nodes t := by
      rw [Sound, hpre]
      exact ⟨fun hs => ⟨⟨(hs rfl).1, (hs rfl).2.1⟩, (hs rfl).2.2⟩,
        fun hs _ => ⟨hs.1.1, hs.1.2, hs.2⟩⟩
    rw [hsound]
    split at h
    · cases h
    · rename_i ret' batch l u hu
      have hheld : ∀ {lost}, Holds (s.start a) u l.nodes lost → Holds s u l.nodes lost := by
        intro lost hh o
        rw [hh, hstart.owed]
      rcases acquire_checked hu with ⟨hd, hh⟩ | ⟨hd, hret, o, hh⟩
      · split at h
        · rename_i hret
          rw [leave_eq h]
          refine ⟨[], (hheld hh).put, Nat.zero_le _, fun _ => ⟨hd, fun last l' t' ha => ?_⟩,
            fun _ => rfl⟩
          rw [hu] at ha
          cases ha
          exact absurd rfl hret
        · rename_i hret
          rw [not_not.1 hret] at hu
          obtain ⟨lost, hlost, hlen, hfast⟩ := relocateAndSubmit_holds (hheld hh) h
          refine ⟨lost, hlost, hlen, ?_⟩
          rw [hfast]
          refine ⟨fun hf => ⟨hd, fun last l' t' ha => ?_⟩, fun hf => hf.2 batch l u hu⟩
          rw [hu] at ha
          cases ha
          exact hf
      · rw [if_pos hret] at h
        rw [leave_eq h]
        refine ⟨[o], (hheld hh).put, by simp, nofun, fun hf => absurd hf.1 hd⟩

/-- **References of an execbuffer**: at every exit, whatever the arguments and whatever the functions
that are called return, each object's count is what it was and one more exactly if the call put the
object on the active list, if and only if the handles of the list name different objects and no
relocation that is to be written fails at its object. -/
theorem execbuffer_balanced {a : Args} {e : Env} {s t : Eb} {ret : Int}
    (h : doExecbuffer a e s = some (ret, t)) : Balanced s t ↔ Sound a e s := by
  obtain ⟨lost, hlost, hlen, hsound⟩ := doExecbuffer_holds h
  have hbounded := a.bounded
  rw [balanced_iff, ← hsound]
  constructor
  · intro hbal
    rw [List.eq_nil_iff_forall_not_mem]
    intro o ho
    have hzero : tally lost o = 0 := by
      have hlost' := hlost o
      rw [hbal, tally_nil, add_zero] at hlost'
      exact left_eq_add.1 hlost'
    have hpos := List.count_pos_iff.2 ho
    have hle := List.count_le_length (a := o) (l := lost)
    have hnat := congrArg UInt32.toNat hzero
    have hsize : UInt32.size = 4294967296 := rfl
    rw [tally, UInt32.toNat_ofNat_of_lt' (by omega)] at hnat
    exact absurd hnat (by simpa using Nat.ne_of_gt hpos)
  · intro hnil o
    rw [hlost, hnil, tally_nil, add_zero, add_zero]

/-! ## Two objects -/

/-- Handles 1 and 2 of every file name the objects 0 and 1, of a page each; object 0 is bound. -/
def twoObjects : Eb where
  gem :=
    { ids := {}
      files := fun _ => (Drm.idrListInit.add 1 0).add 2 1
      objectNameIdr := Drm.idrListInit
      object := fun o => if o < 2 then { refcount := 1, handleCount := 1 } else {} }
  obj o :=
    { size := 4096
      gttSpace := o == 0
      gttOffset := if o = 0 then 0x1000 else 0
      mapAndFenceable := true }
  relativeConstantsMode := 0

/-- All that is called succeeds, and all relocations are `r`. -/
def allSucceed (r : Reloc) : Env where
  gen := 6
  file := 0
  reloc _ _ := { reloc := r }
  slow :=
    { state := twoObjects
      reloc := fun _ _ => { reloc := r } }

/-- A relocation of the word at 8 to the object of handle 2. -/
def toSecond : Reloc where
  targetHandle := 2
  delta := 4
  offset := 8
  presumedOffset := 0xffffffff
  readDomains := domainRender
  writeDomain := 0

theorem execbuffer_balanced_two : ∃ ret t,
    doExecbuffer { exec := [{ handle := 1, relocationCount := 1 }, { handle := 2 }] }
      (allSucceed toSecond) twoObjects = some (ret, t) ∧
    (Balanced twoObjects t ↔
      Sound { exec := [{ handle := 1, relocationCount := 1 }, { handle := 2 }] }
        (allSucceed toSecond) twoObjects) := by
  have hreturns : (doExecbuffer { exec := [{ handle := 1, relocationCount := 1 }, { handle := 2 }] }
      (allSucceed toSecond) twoObjects).isSome = true := by
    decide +kernel
  obtain ⟨r, hr⟩ := Option.isSome_iff_exists.1 hreturns
  exact ⟨r.1, r.2, hr, execbuffer_balanced hr⟩

/-- The list has handle 1 twice: the second look-up's reference stays. -/
theorem execbuffer_twice_unbalanced : ∃ t,
    doExecbuffer { exec := [{ handle := 1 }, { handle := 1 }] } (allSucceed toSecond) twoObjects =
      some (-EINVAL, t) ∧ ¬ Balanced twoObjects t := by
  have hrun : (doExecbuffer { exec := [{ handle := 1 }, { handle := 1 }] } (allSucceed toSecond)
      twoObjects).map (fun p => (p.1, (p.2.gem.object 0).refcount, p.2.activeRef 0, p.2.others 0)) =
      some (-EINVAL, 2, 0, 0) := by
    decide +kernel
  obtain ⟨⟨ret, t⟩, hr, hvalues⟩ := Option.map_eq_some_iff.1 hrun
  obtain ⟨hret, hcount, hactive, hothers⟩ : ret = -EINVAL ∧ (t.gem.object 0).refcount = 2 ∧
      t.activeRef 0 = 0 ∧ t.others 0 = 0 := by simpa using hvalues
  refine ⟨t, by rw [hr, hret], fun hbal => ?_⟩
  have hzero := hbal 0
  rw [hcount, hactive, hothers] at hzero
  exact absurd hzero (by decide +kernel)

end I915.Exec
