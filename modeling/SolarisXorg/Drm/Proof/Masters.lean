import SolarisXorg.Drm.Proof.Files

/-!
# Masters live as long as they are referred to

`MasterInv` counts the references to every `drm_master` (`Counts`) and says which file may be the
master of the minor; `CloneInv` says which file is found under which clone id. The second is there
for the first: files that `clone_idr` knows have different clone ids, and at most one file, left
behind by a failed `drm_setup`, is not known, so that there are at most `DRM_CLONEID_MAX + 2` files
(`live_length_le`) and no reference count overflows. `filesStep_inv` goes through the calls and
`masters_counted` is the statement about runs.
-/

namespace Drm

open Lib

variable {limit : CloneLimit} {s t : DrmDev} {id p m : Nat} {c : OpenCall}

/-! ## The invariant -/

/-- `clone_idr` knows the file under its clone id. -/
def DrmDev.known (s : DrmDev) (p : Nat) : Bool :=
  s.cloneIdr.store (s.file p).cloneId == some (some p)

/-- The masters of the open files. -/
structure MasterInv (limit : CloneLimit) (s : DrmDev) : Prop where
  fault : s.fault = false
  nodup : s.live.Nodup
  refs : Counts s.master s.masterRefs
  hasMaster : ∀ p ∈ s.live, (s.file p).master ≠ none
  isMaster : ∀ p ∈ s.live, (s.file p).isMaster = true → s.minorMaster = (s.file p).master
  unique : ∀ p ∈ s.live, ∀ q ∈ s.live, (s.file p).isMaster = true →
    (s.file q).isMaster = true → p = q
  limit : ∀ p ∈ s.live, (s.file p).cloneId ≤ limit.max

/-- The clone ids of the open files; at most one file is not known by its own. -/
structure CloneInv (s : DrmDev) : Prop where
  nodup : s.opened.Nodup
  table : ∀ id ∈ s.opened, ∃ p ∈ s.live, s.cloneIdr.store id = some (some p) ∧
    (s.file p).cloneId = id
  leaked : s.live.countP (fun p => !s.known p) ≤ 1
  count : s.openCount = s.live.length + s.others.length

theorem filesInit_master (others : List Nat) (file : Nat → DrmFile) :
    MasterInv limit (filesInit others file) := by
  refine ⟨rfl, List.nodup_nil, ?_, ?_, ?_, ?_, ?_⟩
  · intro m
    simp [filesInit, DrmDev.masterRefs, DrmDev.filesOf]
  · intro p hp
    cases hp
  · intro p hp
    cases hp
  · intro p hp
    cases hp
  · intro p hp
    cases hp

theorem filesInit_clone (others : List Nat) (file : Nat → DrmFile) :
    CloneInv (filesInit others file) := by
  refine ⟨List.nodup_nil, ?_, ?_, ?_⟩
  · intro id hid
    cases hid
  · simp [filesInit]
  · simp [filesInit]

/-- Each known file has a clone id of its own, so that there are not many files. -/
theorem live_length_le (h : MasterInv limit s) (hc : CloneInv s) :
    s.live.length ≤ limit.max + 2 := by
  have hsplit : s.live.length = s.live.countP s.known + s.live.countP (fun p => !s.known p) := by
    simpa using List.length_eq_countP_add_countP s.known
  have hinj : ∀ p ∈ s.live.filter s.known, ∀ q ∈ s.live.filter s.known,
      (s.file p).cloneId = (s.file q).cloneId → p = q := by
    intro p hp q hq he
    have hpk : s.cloneIdr.store (s.file p).cloneId = some (some p) := by
      simpa [DrmDev.known] using (List.mem_filter.1 hp).2
    have hqk : s.cloneIdr.store (s.file q).cloneId = some (some q) := by
      simpa [DrmDev.known] using (List.mem_filter.1 hq).2
    rw [he, hqk] at hpk
    exact (Option.some.inj (Option.some.inj hpk)).symm
  have hnd : ((s.live.filter s.known).map fun p => (s.file p).cloneId).Nodup :=
    List.Nodup.map_on hinj (h.nodup.filter _)
  have hsub : ((s.live.filter s.known).map fun p => (s.file p).cloneId) ⊆
      List.range (limit.max + 1) := by
    intro i hi
    obtain ⟨p, hp, rfl⟩ := List.mem_map.1 hi
    have := h.limit p (List.mem_filter.1 hp).1
    exact List.mem_range.2 (by omega)
  have hlen := (List.subperm_of_subset hnd hsub).length_le
  rw [List.length_map, List.length_range, ← List.countP_eq_length_filter] at hlen
  have := hc.leaked
  omega

theorem masterRefs_le (s : DrmDev) (m : Nat) : s.masterRefs m ≤ s.live.length + 1 := by
  have h1 : s.filesOf m ≤ s.live.length := List.countP_le_length
  unfold DrmDev.masterRefs
  split <;> omega

/-- A master that a file or the minor refers to is counted. -/
theorem masterRefs_pos_of_file (hp : p ∈ s.live) (hm : (s.file p).master = some m) :
    0 < s.masterRefs m := by
  have : 0 < s.filesOf m := List.countP_pos_iff.2 ⟨p, hp, by simp [hm]⟩
  unfold DrmDev.masterRefs
  omega

/-! ## Changes that do not matter -/

/-- Files that are not live, and the tables of the device, may change. -/
theorem MasterInv.retable (h : MasterInv limit s) (hf : ∀ q ∈ s.live, t.file q = s.file q)
    (hl : t.live = s.live) (hmm : t.minorMaster = s.minorMaster) (hm : t.master = s.master)
    (hfl : t.fault = s.fault) : MasterInv limit t := by
  have hrefs : t.masterRefs = s.masterRefs := by
    funext m
    have : t.filesOf m = s.filesOf m := by
      unfold DrmDev.filesOf
      rw [hl]
      apply List.countP_congr
      intro q hq
      rw [hf q hq]
    rw [DrmDev.masterRefs, this, hmm, DrmDev.masterRefs]
  refine ⟨?_, ?_, ?_, ?_, ?_, ?_, ?_⟩
  · rw [hfl]
    exact h.fault
  · rw [hl]
    exact h.nodup
  · rw [hrefs, hm]
    exact h.refs
  · intro q hq
    rw [hl] at hq
    rw [hf q hq]
    exact h.hasMaster q hq
  · intro q hq
    rw [hl] at hq
    rw [hf q hq, hmm]
    exact h.isMaster q hq
  · intro q hq r hr
    rw [hl] at hq hr
    rw [hf q hq, hf r hr]
    exact h.unique q hq r hr
  · intro q hq
    rw [hl] at hq
    rw [hf q hq]
    exact h.limit q hq

theorem CloneInv.retable (h : CloneInv s) (hf : ∀ q ∈ s.live, t.file q = s.file q)
    (ht : t = { s with file := t.file, cloneIdr := t.cloneIdr })
    (hs : ∀ j q, s.cloneIdr.store j = some (some q) → t.cloneIdr.store j = some (some q)) :
    CloneInv t := by
  have hl : t.live = s.live := by rw [ht]
  have ho : t.opened = s.opened := by rw [ht]
  refine ⟨?_, ?_, ?_, ?_⟩
  · rw [ho]
    exact h.nodup
  · intro j hj
    rw [ho] at hj
    obtain ⟨q, hq, hqs, hqc⟩ := h.table j hj
    exact ⟨q, hl ▸ hq, hs j q hqs, by rw [hf q hq, hqc]⟩
  · rw [hl]
    refine Nat.le_trans (List.countP_mono_left fun q hq hk => ?_) h.leaked
    by_contra hks
    have hks : s.cloneIdr.store (s.file q).cloneId = some (some q) := by
      simpa [DrmDev.known] using hks
    simp [DrmDev.known, hf q hq, hs _ _ hks] at hk
  · rw [ht]
    exact h.count

/-! ## Opening -/

theorem HelperOpens.live_eq (h : HelperOpens s t id p m) : t.live = p :: s.live := by rw [h.rest]

theorem HelperOpens.file_self (h : HelperOpens s t id p m) :
    (t.file p).cloneId = id ∧ (t.file p).isMaster = s.minorMaster.isNone ∧
      (t.file p).master = some m := by
  obtain ⟨a, ha⟩ := h.file
  rw [ha, Function.update_self]
  exact ⟨rfl, rfl, rfl⟩

theorem HelperOpens.file_other (h : HelperOpens s t id p m) :
    ∀ q ∈ s.live, t.file q = s.file q := by
  obtain ⟨a, ha⟩ := h.file
  rw [ha]
  exact update_file_live h.fresh.1 _

theorem HelperOpens.filesOf (h : HelperOpens s t id p m) (k : Nat) :
    t.filesOf k = s.filesOf k + if m = k then 1 else 0 := by
  unfold DrmDev.filesOf
  rw [h.live_eq, List.countP_cons, h.file_self.2.2]
  congr 1
  · apply List.countP_congr
    intro q hq
    rw [h.file_other q hq]
  · simp

theorem HelperOpens.inv (h : HelperOpens s t id p m) (hI : MasterInv limit s)
    (hlen : s.live.length ≤ limit.max + 2) (hid : id ≤ limit.max) : MasterInv limit t := by
  have hfit := limit.fits
  have hle := masterRefs_le s m
  -- the references: one more for the file, and one for the minor of a new master
  have hrefs : Counts t.master t.masterRefs ∧ t.fault = false := by
    rcases h.master with ⟨hmin, htm, htf⟩ | ⟨hmin, hm, htf, htm⟩
    · have hn : ∀ k, t.masterRefs k = s.masterRefs k + if m = k then 1 else 0 := by
        intro k
        simp only [DrmDev.masterRefs, h.filesOf, h.minor, hmin]
        omega
      have hpos : 0 < s.masterRefs m := by
        simp only [DrmDev.masterRefs, hmin, if_true]
        omega
      have hget := hI.refs.get t.masterRefs hpos (by omega) (by simp [hn])
        (fun k hk => by simp [hn, Ne.symm hk])
      rw [htm, htf, hget.2, hI.fault]
      exact ⟨hget.1, rfl⟩
    · have hz : s.masterRefs m = 0 := by
        have := hI.refs m
        rwa [hm] at this
      have hn : ∀ k, t.masterRefs k = s.masterRefs k + if m = k then 2 else 0 := by
        intro k
        simp only [DrmDev.masterRefs, h.filesOf, h.minor, hmin, Option.some.injEq, reduceCtorEq,
          if_false]
        split <;> omega
      rw [htm, htf]
      refine ⟨hI.refs.create (by simp [hn, hz]) (fun k hk => by simp [hn, Ne.symm hk]), hI.fault⟩
  -- a master file is there before only if the minor has a master
  have hother : ∀ q ∈ s.live, (s.file q).isMaster = true → s.minorMaster ≠ none := by
    intro q hq hqm hn
    exact hI.hasMaster q hq ((hI.isMaster q hq hqm).symm.trans hn)
  obtain ⟨hpc, hpm, hpmm⟩ := h.file_self
  refine ⟨hrefs.2, ?_, hrefs.1, ?_, ?_, ?_, ?_⟩
  · rw [h.live_eq]
    exact List.nodup_cons.2 ⟨h.fresh.1, hI.nodup⟩
  · intro q hq
    rw [h.live_eq] at hq
    rcases List.mem_cons.1 hq with rfl | hq
    · rw [hpmm]
      exact Option.some_ne_none _
    · rw [h.file_other q hq]
      exact hI.hasMaster q hq
  · intro q hq hqm
    rw [h.live_eq] at hq
    rw [h.minor]
    rcases List.mem_cons.1 hq with rfl | hq
    · rw [hpmm]
    · rw [h.file_other q hq] at hqm ⊢
      rcases h.master with ⟨hmin, -⟩ | ⟨hmin, -⟩
      · rw [← hI.isMaster q hq hqm, hmin]
      · exact absurd hmin (hother q hq hqm)
  · intro q hq r hr hqm hrm
    rw [h.live_eq] at hq hr
    have hnone : (t.file p).isMaster = true → s.minorMaster = none := by
      rw [hpm]
      exact Option.isNone_iff_eq_none.1
    rcases List.mem_cons.1 hq with rfl | hq'
    · rcases List.mem_cons.1 hr with rfl | hr'
      · rfl
      · rw [h.file_other r hr'] at hrm
        exact absurd (hnone hqm) (hother r hr' hrm)
    · rw [h.file_other q hq'] at hqm
      rcases List.mem_cons.1 hr with rfl | hr'
      · exact absurd (hnone hrm) (hother q hq' hqm)
      · rw [h.file_other r hr'] at hrm
        exact hI.unique q hq' r hr' hqm hrm
  · intro q hq
    rw [h.live_eq] at hq
    rcases List.mem_cons.1 hq with rfl | hq
    · rw [hpc]
      exact hid
    · rw [h.file_other q hq]
      exact hI.limit q hq

/-- The clone ids after an open that succeeds. -/
theorem HelperOpens.cloneInv (h : HelperOpens s t id p m) (hc : CloneInv s)
    (hid : s.cloneIdr.store id = some none) :
    CloneInv { t with openCount := t.openCount + 1, opened := id :: t.opened } := by
  have hst : t.cloneIdr.store = Function.update s.cloneIdr.store id (some (some p)) := by
    rw [h.table]
    exact (replace_store _ (by rw [hid]; simp)).1
  have hop : t.opened = s.opened := by rw [h.rest]
  have hnot : id ∉ s.opened := by
    intro hmem
    obtain ⟨q, -, hq, -⟩ := hc.table id hmem
    rw [hid] at hq
    cases hq
  refine ⟨?_, ?_, ?_, ?_⟩
  · show (id :: t.opened).Nodup
    rw [hop]
    exact List.nodup_cons.2 ⟨hnot, hc.nodup⟩
  · intro j hj
    show ∃ q ∈ t.live, _
    rw [h.live_eq]
    rcases List.mem_cons.1 hj with rfl | hj
    · refine ⟨p, List.mem_cons_self, ?_, h.file_self.1⟩
      show t.cloneIdr.store j = _
      rw [hst, Function.update_self]
    · rw [hop] at hj
      obtain ⟨q, hq, hqs, hqc⟩ := hc.table j hj
      have hji : j ≠ id := fun e => hnot (e ▸ hj)
      refine ⟨q, List.mem_cons_of_mem _ hq, ?_, ?_⟩
      · show t.cloneIdr.store j = _
        rw [hst, Function.update_of_ne hji, hqs]
      · show (t.file q).cloneId = j
        rw [h.file_other q hq, hqc]
  · show t.live.countP (fun q => !t.known q) ≤ 1
    have hknown : t.known p = true := by
      simp [DrmDev.known, h.file_self.1, hst]
    rw [h.live_eq, List.countP_cons_of_neg (by simp [hknown])]
    refine Nat.le_trans (List.countP_mono_left fun q hq hk => ?_) hc.leaked
    by_contra hks
    have hks : s.cloneIdr.store (s.file q).cloneId = some (some q) := by
      simpa [DrmDev.known] using hks
    have hne : (s.file q).cloneId ≠ id := by
      intro he
      rw [he, hid] at hks
      cases hks
    simp [DrmDev.known, h.file_other q hq, hst, Function.update_of_ne hne, hks] at hk
  · show t.openCount + 1 = t.live.length + t.others.length
    have h1 : t.openCount = s.openCount := by rw [h.rest]
    have h2 : t.others = s.others := by rw [h.rest]
    rw [h.live_eq, h1, h2, hc.count, List.length_cons]
    omega

/-- `drm_setup` has failed at the first open: the file stays, and is the only one. -/
theorem HelperOpens.leaked_inv {mem : Bool} (h : HelperOpens s t id p m) (hc : CloneInv s)
    (hz : s.openCount = 0) {u : DrmDev}
    (hd : dropCloneId { t with openCount := t.openCount + 1 } id mem = some u) : CloneInv u := by
  obtain ⟨hu, -, -⟩ := dropCloneId_spec hd
  have hcount := hc.count
  have hlive : s.live = [] := List.length_eq_zero_iff.1 (by omega)
  have hopened : s.opened = [] := by
    rw [List.eq_nil_iff_forall_not_mem]
    intro j hj
    obtain ⟨q, hq, -⟩ := hc.table j hj
    rw [hlive] at hq
    cases hq
  have hul : u.live = [p] := by
    rw [hu]
    show t.live = [p]
    rw [h.live_eq, hlive]
  have huo : u.opened = [] := by
    rw [hu, h.rest]
    exact hopened
  refine ⟨?_, ?_, ?_, ?_⟩
  · rw [huo]
    exact List.nodup_nil
  · rw [huo]
    intro j hj
    cases hj
  · rw [hul]
    exact List.countP_le_length
  · rw [hul, hu, h.rest]
    show s.openCount + 1 = _
    rw [hcount, hlive]
    simp only [List.length_nil, List.length_singleton]
    omega

theorem drmSunOpen_inv (hcome : (FilesCall.sunOpen c).Comes s) (hs : drmSunOpen limit s c = some t)
    (h : MasterInv limit s) (hc : CloneInv s) : MasterInv limit t ∧ CloneInv t := by
  rcases drmSunOpen_spec hcome hs with hr | ⟨id, p, m, u, ⟨hfree, hlim, idr, hopen, hst, -⟩, hout⟩
  · refine ⟨h.retable hr.files ?_ ?_ ?_ ?_, hc.retable hr.files hr.rest hr.kept⟩ <;> rw [hr.rest]
  · have hkeep : ∀ j q, s.cloneIdr.store j = some (some q) → idr.store j = some (some q) := by
      intro j q hq
      rw [hst, Function.update_of_ne, hq]
      rintro rfl
      rw [hfree] at hq
      cases hq
    have hid : ({ s with cloneIdr := idr } : DrmDev).cloneIdr.store id = some none := by
      show idr.store id = some none
      rw [hst, Function.update_self]
    have hI' : MasterInv limit { s with cloneIdr := idr } :=
      h.retable (fun _ _ => rfl) rfl rfl rfl rfl
    have hc' : CloneInv { s with cloneIdr := idr } := hc.retable (fun _ _ => rfl) rfl hkeep
    have hM := hopen.inv hI' (live_length_le hI' hc') hlim
    rcases hout with ⟨rfl, -⟩ | ⟨hz, -, hd⟩
    · exact ⟨hM.retable (fun _ _ => rfl) rfl rfl rfl rfl, hopen.cloneInv hc' hid⟩
    · obtain ⟨ht, -, -⟩ := dropCloneId_spec hd
      refine ⟨?_, hopen.leaked_inv hc' hz hd⟩
      rw [ht]
      exact hM.retable (fun _ _ => rfl) rfl rfl rfl rfl

/-! ## Closing -/

theorem Released.filesOf (h : Released s t p m) (hp : p ∈ s.live) (hn : s.live.Nodup)
    (hm : (s.file p).master = some m) (k : Nat) :
    s.filesOf k = t.filesOf k + if m = k then 1 else 0 := by
  unfold DrmDev.filesOf
  rw [(List.perm_cons_erase hp).countP_eq, List.countP_cons, hm, h.live]
  congr 1
  · apply List.countP_congr
    intro q hq
    have hqp : q ≠ p := (hn.mem_erase_iff.1 hq).1
    rw [(h.files q hqp).2.2]
  · simp

theorem Released.inv (h : Released s t p m) (hp : p ∈ s.live) (hm : (s.file p).master = some m)
    (hI : MasterInv limit s) : MasterInv limit t := by
  have hfiles := h.filesOf hp hI.nodup hm
  -- the file's reference goes, and that of the minor if the file was the master
  have hrefs : Counts t.master t.masterRefs ∧ t.fault = false := by
    rcases h.master with ⟨hpm, hmin, htm, hmast, hfault⟩ | ⟨-, htm, hmast, hfault⟩
    · have hn : ∀ k, s.masterRefs k = t.masterRefs k + if m = k then 2 else 0 := by
        intro k
        simp only [DrmDev.masterRefs, hfiles k, hmin, htm, Option.some.injEq, reduceCtorEq,
          if_false]
        split <;> omega
      have h1 := hI.refs.put (m := m) (fun k => t.masterRefs k + if m = k then 1 else 0)
        (by simp [hn]) (fun k hk => by simp [hn, Ne.symm hk])
      have h2 := h1.1.put (m := m) t.masterRefs (by simp)
        (fun k hk => by simp [Ne.symm hk])
      rw [hmast, hfault, h1.2, h2.2, hI.fault]
      exact ⟨h2.1, rfl⟩
    · have hn : ∀ k, s.masterRefs k = t.masterRefs k + if m = k then 1 else 0 := by
        intro k
        simp only [DrmDev.masterRefs, hfiles k, htm]
        omega
      have h1 := hI.refs.put (m := m) t.masterRefs (by simp [hn])
        (fun k hk => by simp [hn, Ne.symm hk])
      rw [hmast, hfault, h1.2, hI.fault]
      exact ⟨h1.1, rfl⟩
  have hmem : ∀ q ∈ t.live, q ∈ s.live ∧ (t.file q).Kept (s.file q) ∧ q ≠ p := by
    intro q hq
    rw [h.live, hI.nodup.mem_erase_iff] at hq
    exact ⟨hq.2, h.files q hq.1, hq.1⟩
  refine ⟨hrefs.2, ?_, hrefs.1, ?_, ?_, ?_, ?_⟩
  · rw [h.live]
    exact hI.nodup.erase p
  · intro q hq
    obtain ⟨hqs, hk, -⟩ := hmem q hq
    rw [hk.2.2]
    exact hI.hasMaster q hqs
  · intro q hq hqm
    obtain ⟨hqs, hk, hqp⟩ := hmem q hq
    rw [hk.2.1] at hqm
    rw [hk.2.2]
    rcases h.master with ⟨hpm, -⟩ | ⟨-, htm, -⟩
    · exact absurd (hI.unique q hqs p hp hqm hpm) hqp
    · rw [htm]
      exact hI.isMaster q hqs hqm
  · intro q hq r hr hqm hrm
    obtain ⟨hqs, hqk, -⟩ := hmem q hq
    obtain ⟨hrs, hrk, -⟩ := hmem r hr
    rw [hqk.2.1] at hqm
    rw [hrk.2.1] at hrm
    exact hI.unique q hqs r hrs hqm hrm
  · intro q hq
    obtain ⟨hqs, hk, -⟩ := hmem q hq
    rw [hk.1]
    exact hI.limit q hqs

/-- The clone ids when the file `p` of `id` is closed; the entry of `id` may stay. -/
theorem Released.cloneInv {u : DrmDev} (h : Released { s with opened := s.opened.erase id } t p m)
    (hc : CloneInv s) (hn : s.live.Nodup) (hp : p ∈ s.live) (hpc : (s.file p).cloneId = id)
    (hps : s.cloneIdr.store id = some (some p)) (hu : u = { t with cloneIdr := u.cloneIdr })
    (hst : ∀ j, j ≠ id → u.cloneIdr.store j = t.cloneIdr.store j) : CloneInv u := by
  have hul : u.live = s.live.erase p := by
    rw [hu]
    exact h.live
  have huf : ∀ q, q ≠ p → (u.file q).cloneId = (s.file q).cloneId := by
    intro q hq
    rw [hu]
    exact (h.files q hq).1
  have hus : ∀ j, j ≠ id → u.cloneIdr.store j = s.cloneIdr.store j := by
    intro j hj
    rw [hst j hj, h.table]
  refine ⟨?_, ?_, ?_, ?_⟩
  · rw [hu]
    show t.opened.Nodup
    rw [h.opened]
    exact hc.nodup.erase id
  · intro j hj
    rw [hu] at hj
    replace hj : j ∈ t.opened := hj
    rw [h.opened] at hj
    obtain ⟨hji, hj⟩ := hc.nodup.mem_erase_iff.1 hj
    obtain ⟨q, hq, hqs, hqc⟩ := hc.table j hj
    have hqp : q ≠ p := by
      rintro rfl
      exact hji (hqc.symm.trans hpc)
    refine ⟨q, ?_, ?_, ?_⟩
    · rw [hul]
      exact hn.mem_erase_iff.2 ⟨hqp, hq⟩
    · rw [hus j hji, hqs]
    · rw [huf q hqp, hqc]
  · rw [hul]
    have hsub : (s.live.erase p).countP (fun q => !s.known q) ≤ 1 :=
      Nat.le_trans ((List.erase_sublist (l := s.live)).countP_le ..) hc.leaked
    refine Nat.le_trans (List.countP_mono_left fun q hq hk => ?_) hsub
    have hqp : q ≠ p := (hn.mem_erase_iff.1 hq).1
    by_contra hks
    have hks : s.cloneIdr.store (s.file q).cloneId = some (some q) := by
      simpa [DrmDev.known] using hks
    have hne : (s.file q).cloneId ≠ id := by
      intro he
      rw [he, hps] at hks
      exact hqp (Option.some.inj (Option.some.inj hks)).symm
    simp [DrmDev.known, huf q hqp, hus _ hne, hks] at hk
  · have hlen := List.length_erase_of_mem hp
    have hpos : 0 < s.live.length := List.length_pos_of_mem hp
    rw [hul, hlen, hu]
    show t.openCount = _ + (t.others.length : Int)
    rw [h.openCount, h.others]
    show s.openCount - 1 = _ + (s.others.length : Int)
    rw [hc.count]
    omega

theorem drmSunClose_inv {busy mem : Bool} (hid : id ∈ s.opened)
    (hs : drmSunClose s id busy mem = some t) (h : MasterInv limit s) (hc : CloneInv s) :
    MasterInv limit t ∧ CloneInv t := by
  obtain ⟨p, hp, hps, hpc⟩ := hc.table id hid
  obtain ⟨m, hm⟩ := Option.ne_none_iff_exists'.1 (h.hasMaster p hp)
  have hfind : idrFind s.cloneIdr id = some p := by
    rw [idrFind_eq, hps]
    rfl
  have h' : MasterInv limit { s with opened := s.opened.erase id } :=
    h.retable (fun _ _ => rfl) rfl rfl rfl rfl
  have hrel := drmRelease_spec (s := { s with opened := s.opened.erase id }) hp hm busy
  have hI := hrel.inv hp hm h'
  simp only [drmSunClose, hfind] at hs
  split at hs
  · obtain ⟨ht, hj, -⟩ := dropCloneId_spec hs
    refine ⟨?_, hrel.cloneInv hc h.nodup hp hpc hps ht hj⟩
    rw [ht]
    exact hI.retable (fun _ _ => rfl) rfl rfl rfl rfl
  · cases hs
    exact ⟨hI, hrel.cloneInv hc h.nodup hp hpc hps rfl fun _ _ => rfl⟩

/-! ## The master calls -/

/-- Only masters and flags change. -/
theorem CloneInv.congr (h : CloneInv s) (hf : ∀ q, (t.file q).cloneId = (s.file q).cloneId)
    (hl : t.live = s.live) (ho : t.opened = s.opened) (hi : t.cloneIdr = s.cloneIdr)
    (hc : t.openCount = s.openCount) (hot : t.others = s.others) : CloneInv t := by
  have hk : t.known = s.known := by
    funext q
    rw [DrmDev.known, hi, hf, DrmDev.known]
  refine ⟨?_, ?_, ?_, ?_⟩
  · rw [ho]
    exact h.nodup
  · rw [ho, hl, hi]
    intro id hid
    obtain ⟨q, hq, hqs, hqc⟩ := h.table id hid
    exact ⟨q, hq, hqs, (hf q).trans hqc⟩
  · rw [hl, hk]
    exact h.leaked
  · rw [hc, hl, hot]
    exact h.count

/-- The minor gets or loses its master, and the file `p` becomes the master or stops being it. -/
theorem MasterInv.setMinor {b : Bool} {x : Option Nat} (h : MasterInv limit s)
    (hb : b = true → x = (s.file p).master)
    (hother : ∀ q ∈ s.live, q ≠ p → (s.file q).isMaster = false)
    (hf : t.file = Function.update s.file p { s.file p with isMaster := b })
    (hl : t.live = s.live) (hx : t.minorMaster = x)
    (hr : Counts t.master fun k => s.filesOf k + if x = some k then 1 else 0)
    (hfl : t.fault = false) : MasterInv limit t := by
  have hfile : ∀ q, (t.file q).cloneId = (s.file q).cloneId ∧
      (t.file q).master = (s.file q).master := by
    intro q
    rw [hf]
    by_cases hq : q = p
    · subst hq
      rw [Function.update_self]
      exact ⟨rfl, rfl⟩
    · rw [Function.update_of_ne hq]
      exact ⟨rfl, rfl⟩
  have honly : ∀ q ∈ s.live, (t.file q).isMaster = true → q = p ∧ b = true := by
    intro q hq hqm
    rw [hf] at hqm
    by_cases hqp : q = p
    · subst hqp
      rw [Function.update_self] at hqm
      exact ⟨rfl, hqm⟩
    · rw [Function.update_of_ne hqp, hother q hq hqp] at hqm
      cases hqm
  have hrefs : t.masterRefs = fun k => s.filesOf k + if x = some k then 1 else 0 := by
    funext k
    have : t.filesOf k = s.filesOf k := by
      unfold DrmDev.filesOf
      rw [hl]
      apply List.countP_congr
      intro q _
      rw [(hfile q).2]
    rw [DrmDev.masterRefs, this, hx]
  refine ⟨hfl, ?_, hrefs ▸ hr, ?_, ?_, ?_, ?_⟩
  · rw [hl]
    exact h.nodup
  · intro q hq
    rw [(hfile q).2]
    exact h.hasMaster q (hl ▸ hq)
  · intro q hq hqm
    obtain ⟨rfl, hbt⟩ := honly q (hl ▸ hq) hqm
    rw [(hfile q).2, hx, hb hbt]
  · intro q hq r hr hqm hrm
    exact (honly q (hl ▸ hq) hqm).1.trans (honly r (hl ▸ hr) hrm).1.symm
  · intro q hq
    rw [(hfile q).1]
    exact h.limit q (hl ▸ hq)

theorem drmSetmasterIoctl_inv {b : Bool} (hp : p ∈ s.live) (h : MasterInv limit s)
    (hlen : s.live.length ≤ limit.max + 2) : MasterInv limit (drmSetmasterIoctl s p b) := by
  have hfit := limit.fits
  unfold drmSetmasterIoctl
  cases hpm : (s.file p).isMaster with
  | true =>
    simp only [hpm, if_true]
    exact h
  | false =>
    simp only [hpm, if_false, Bool.false_eq_true]
    split
    · exact h
    · split
      · exact h
      case h_2 m hm =>
        split
        case isFalse => exact h
        case isTrue hmin =>
          -- without a master of the minor no file is the master
          have hother : ∀ q ∈ s.live, q ≠ p → (s.file q).isMaster = false := by
            intro q hq _
            by_contra hqm
            rw [Bool.not_eq_false] at hqm
            exact h.hasMaster q hq ((h.isMaster q hq hqm).symm.trans hmin)
          have hpos : 0 < s.masterRefs m := masterRefs_pos_of_file hp hm
          have hle := masterRefs_le s m
          have hn : ∀ k, s.masterRefs k = s.filesOf k := by
            intro k
            rw [DrmDev.masterRefs, hmin, if_neg (by simp), Nat.add_zero]
          have hget := h.refs.get (m := m)
            (fun k => s.filesOf k + if some m = some k then 1 else 0)
            hpos (by omega) (by simp [hn]) (fun k hk => by simp [hn, Ne.symm hk])
          cases b with
          | true =>
            refine h.setMinor (fun _ => hm.symm) hother rfl rfl rfl hget.1 ?_
            show (s.fault || (mastersGet s.master m).2) = false
            rw [h.fault, hget.2]
            rfl
          | false =>
            have hput := hget.1.put (m := m)
              (fun k => s.filesOf k + if none = some k then 1 else 0)
              (by simp) (fun k hk => by simp [Ne.symm hk])
            refine h.setMinor (b := false) (fun hb => by cases hb) hother ?_ rfl rfl hput.1 ?_
            · refine (Function.update_eq_self_iff.2 ?_).symm
              show (⟨_, false, _, _⟩ : DrmFile) = s.file p
              rw [← hpm]
            · show (s.fault || (mastersGet s.master m).2 || (mastersPut _ (some m)).2) = false
              rw [h.fault, hget.2]
              exact hput.2

theorem drmDropmasterIoctl_inv (hp : p ∈ s.live) (h : MasterInv limit s) :
    MasterInv limit (drmDropmasterIoctl s p) := by
  unfold drmDropmasterIoctl
  cases hpm : (s.file p).isMaster with
  | false =>
    simp only [hpm, Bool.not_false, if_true]
    exact h
  | true =>
    simp only [hpm, Bool.not_true, if_false, Bool.false_eq_true]
    split
    · exact h
    case isFalse hmin =>
      obtain ⟨m, hm⟩ := Option.ne_none_iff_exists'.1 hmin
      have hother : ∀ q ∈ s.live, q ≠ p → (s.file q).isMaster = false := by
        intro q hq hqp
        by_contra hqm
        rw [Bool.not_eq_false] at hqm
        exact hqp (h.unique q hq p hp hqm hpm)
      have hput := h.refs.put (m := m)
        (fun k => s.filesOf k + if none = some k then 1 else 0)
        (by simp [DrmDev.masterRefs, hm])
        (fun k hk => by simp [DrmDev.masterRefs, hm, Ne.symm hk])
      refine h.setMinor (b := false) (fun hb => by cases hb) hother rfl rfl rfl ?_ ?_
      · show Counts (mastersPut s.master s.minorMaster).1 _
        rw [hm]
        exact hput.1
      · show (s.fault || (mastersPut s.master s.minorMaster).2) = false
        rw [h.fault, hm]
        exact hput.2

theorem drmSetmasterIoctl_frame (s : DrmDev) (p : Nat) (b : Bool) :
    (∀ q, ((drmSetmasterIoctl s p b).file q).cloneId = (s.file q).cloneId) ∧
      drmSetmasterIoctl s p b = { s with
        file := (drmSetmasterIoctl s p b).file
        master := (drmSetmasterIoctl s p b).master
        minorMaster := (drmSetmasterIoctl s p b).minorMaster
        fault := (drmSetmasterIoctl s p b).fault } := by
  unfold drmSetmasterIoctl
  simp only
  split
  · exact ⟨fun _ => rfl, rfl⟩
  · split
    · exact ⟨fun _ => rfl, rfl⟩
    · split
      · exact ⟨fun _ => rfl, rfl⟩
      · split
        · cases b with
          | true =>
            refine ⟨fun q => ?_, rfl⟩
            by_cases hq : q = p
            · subst hq
              simp [DrmDev.setFile]
            · simp [DrmDev.setFile, DrmDev.masterGet, hq]
          | false => exact ⟨fun _ => rfl, rfl⟩
        · exact ⟨fun _ => rfl, rfl⟩

theorem drmDropmasterIoctl_frame (s : DrmDev) (p : Nat) :
    (∀ q, ((drmDropmasterIoctl s p).file q).cloneId = (s.file q).cloneId) ∧
      drmDropmasterIoctl s p = { s with
        file := (drmDropmasterIoctl s p).file
        master := (drmDropmasterIoctl s p).master
        minorMaster := (drmDropmasterIoctl s p).minorMaster
        fault := (drmDropmasterIoctl s p).fault } := by
  unfold drmDropmasterIoctl
  simp only
  split
  · exact ⟨fun _ => rfl, rfl⟩
  · split
    · exact ⟨fun _ => rfl, rfl⟩
    · refine ⟨fun q => ?_, rfl⟩
      by_cases hq : q = p
      · subst hq
        simp [DrmDev.setFile]
      · simp [DrmDev.setFile, DrmDev.putMinorMaster, DrmDev.masterPut, hq]

/-! ## Runs -/

theorem filesStep_inv {call : FilesCall} (hs : filesStep limit s call t) (h : MasterInv limit s)
    (hc : CloneInv s) : MasterInv limit t ∧ CloneInv t := by
  obtain ⟨hcome, hs⟩ := hs
  cases call with
  | sunOpen c => exact drmSunOpen_inv hcome hs h hc
  | sunClose id busy mem => exact drmSunClose_inv hcome hs h hc
  | setmaster id b =>
    obtain ⟨p, hp, hps, -⟩ := hc.table id hcome
    have hfind : idrFind s.cloneIdr id = some p := by
      rw [idrFind_eq, hps]
      rfl
    simp only [filesCall, hfind] at hs
    cases hs
    obtain ⟨hf, hrest⟩ := drmSetmasterIoctl_frame s p b
    refine ⟨drmSetmasterIoctl_inv hp h (live_length_le h hc), hc.congr hf ?_ ?_ ?_ ?_ ?_⟩ <;>
      rw [hrest]
  | dropmaster id =>
    obtain ⟨p, hp, hps, -⟩ := hc.table id hcome
    have hfind : idrFind s.cloneIdr id = some p := by
      rw [idrFind_eq, hps]
      rfl
    simp only [filesCall, hfind] at hs
    cases hs
    obtain ⟨hf, hrest⟩ := drmDropmasterIoctl_frame s p
    refine ⟨drmDropmasterIoctl_inv hp h, hc.congr hf ?_ ?_ ?_ ?_ ?_⟩ <;> rw [hrest]

/-- **Masters live as long as they are referred to**: after every sequence of opens, closes and
master calls, whichever of the hooks and allocations fail, a master is allocated exactly if a file
or the minor refers to it, and its count is the number of these references; at most one file is the
master of the minor, and its master is then that of the minor; no freed master is ever used. -/
theorem masters_counted {others : List Nat} {file : Nat → DrmFile} {calls : List FilesCall}
    (hr : Run (filesStep limit) (filesInit others file) calls s) :
    (∀ m, (s.master m).isSome = true ↔ 0 < s.masterRefs m) ∧
    (∀ m refcount, s.master m = some refcount → refcount.toNat = s.masterRefs m) ∧
    (∀ p ∈ s.live, (s.file p).isMaster = true →
      (s.file p).master ≠ none ∧ s.minorMaster = (s.file p).master) ∧
    (∀ p ∈ s.live, ∀ q ∈ s.live, (s.file p).isMaster = true → (s.file q).isMaster = true →
      p = q) ∧
    s.fault = false := by
  obtain ⟨h, -⟩ := hr.inv (I := fun s => MasterInv limit s ∧ CloneInv s)
    ⟨filesInit_master others file, filesInit_clone others file⟩
    fun _ _ _ hI hs => filesStep_inv hs hI.1 hI.2
  refine ⟨fun m => ?_, fun m refcount hm => ?_, fun p hp hpm => ?_, h.unique, h.fault⟩
  · have hm := h.refs m
    cases hmm : s.master m with
    | none =>
      rw [hmm] at hm
      simp only at hm
      simp [hm]
    | some refcount =>
      rw [hmm] at hm
      simp [hm.1]
  · have hc := h.refs m
    rw [hm] at hc
    exact hc.2
  · exact ⟨h.hasMaster p hp, h.isMaster p hp hpm⟩

/-- An open in which nothing fails. -/
def openCall (priv newMaster : Nat) : OpenCall where
  excl := false
  powerOn := true
  suser := false
  priv := some priv
  newMaster := some newMaster
  driverOpen := true
  masterCreate := true
  masterSet := true
  setup := true
  memNew := true
  memRemove := true

theorem openCall_comes (hp : p ∉ s.live) (ho : p ∉ s.others) (hm : s.master m = none) :
    (FilesCall.sunOpen (openCall p m)).Comes s := by
  constructor
  · intro q hq
    cases hq
    exact ⟨hp, ho⟩
  · intro k hk
    cases hk
    exact hm

/-- A file is open and is the master. -/
def oneFile : DrmDev where
  minorMaster := some 20
  cloneIdr := ⟨[⟨0, some 10⟩], [⟨0, idMax, 1, []⟩]⟩
  master := Function.update (Function.update (fun _ => none) 20 (some 1)) 20 (some 2)
  file := Function.update (Function.update (fun _ => ⟨0, false, false, none⟩) 10
    ⟨0, false, false, none⟩) 10 ⟨0, true, true, some 20⟩
  live := [10]
  others := []
  filelist := [10]
  openCount := 1
  opened := [0]
  fault := false

/-- The file has given up being the master. -/
def droppedFile : DrmDev :=
  { oneFile with
    minorMaster := none
    master := Function.update oneFile.master 20 (some 1)
    file := Function.update oneFile.file 10 ⟨0, false, true, some 20⟩ }

/-- Only the file refers to its master once it has given up being the master of the minor. -/
theorem masters_counted_dropped :
    ∃ s, Run (filesStep ⟨7, by decide⟩) (filesInit [] fun _ => ⟨0, false, false, none⟩)
        [.sunOpen (openCall 10 20), .dropmaster 0] s ∧
      s.masterRefs 20 = 1 ∧ ∃ refcount, s.master 20 = some refcount ∧ refcount.toNat = 1 := by
  have h1 : filesStep ⟨7, by decide⟩ (filesInit [] fun _ => ⟨0, false, false, none⟩)
      (.sunOpen (openCall 10 20)) oneFile :=
    ⟨openCall_comes List.not_mem_nil List.not_mem_nil rfl, rfl⟩
  have h2 : filesStep ⟨7, by decide⟩ oneFile (.dropmaster 0) droppedFile :=
    ⟨List.mem_cons_self, rfl⟩
  have hr : Run (filesStep ⟨7, by decide⟩) (filesInit [] fun _ => ⟨0, false, false, none⟩)
      [.sunOpen (openCall 10 20), .dropmaster 0] droppedFile := .snoc (.snoc .nil h1) h2
  obtain ⟨halloc, hcount, -⟩ := masters_counted hr
  have hrefs : droppedFile.masterRefs 20 = 1 := by decide
  obtain ⟨refcount, hm⟩ := Option.isSome_iff_exists.1 ((halloc 20).2 (by omega))
  exact ⟨_, hr, hrefs, refcount, hm, (hcount 20 refcount hm).trans hrefs⟩

end Drm
