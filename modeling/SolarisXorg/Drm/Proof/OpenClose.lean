import SolarisXorg.Drm.Proof.Masters

/-!
# The tables of open files agree

A file is registered in `clone_idr`, in `filelist` and by `open_count`. `FilesTables` says that the
three agree with the files that are live. Every call that is `Clean` keeps it
(`filesStep_tables`). The two calls that are not are in `tables_disagree`: `drm_sun_open` takes the
clone id back when `drm_setup` fails, but leaves the file open, and `drm_sun_close` returns before
it removes the clone id of the file that `drm_release` has freed when the device is busy.
-/

namespace Drm

open Lib

variable {limit : CloneLimit} {s t : DrmDev} {id p m : Nat}

/-- The tables agree with the live files. -/
structure FilesTables (s : DrmDev) : Prop where
  ids : s.cloneIdr.ids.Nodup
  nodup : s.live.Nodup
  disjoint : ∀ p ∈ s.live, p ∉ s.others
  table : ∀ id o, s.cloneIdr.store id = some o ↔
    ∃ p ∈ s.live, o = some p ∧ (s.file p).cloneId = id
  filelist : s.filelist = s.live ++ s.others
  count : s.openCount = s.live.length + s.others.length

theorem filesInit_tables (others : List Nat) (file : Nat → DrmFile) :
    FilesTables (filesInit others file) where
  ids := List.nodup_nil
  nodup := List.nodup_nil
  disjoint p hp := by cases hp
  table id o := by
    constructor
    · intro h
      cases h
    · rintro ⟨p, hp, -⟩
      cases hp
  filelist := rfl
  count := by simp [filesInit]

/-- Nothing changes for the live files. -/
theorem FilesTables.congr (h : FilesTables s)
    (hf : ∀ q ∈ s.live, (t.file q).cloneId = (s.file q).cloneId)
    (hids : t.cloneIdr.ids.Nodup) (hst : t.cloneIdr.store = s.cloneIdr.store)
    (hl : t.live = s.live) (ho : t.others = s.others) (hfl : t.filelist = s.filelist)
    (hc : t.openCount = s.openCount) : FilesTables t where
  ids := hids
  nodup := by
    rw [hl]
    exact h.nodup
  disjoint := by
    rw [hl, ho]
    exact h.disjoint
  table id o := by
    rw [hst, hl, h.table]
    constructor
    · rintro ⟨p, hp, hpo, hpc⟩
      exact ⟨p, hp, hpo, (hf p hp).trans hpc⟩
    · rintro ⟨p, hp, hpo, hpc⟩
      exact ⟨p, hp, hpo, (hf p hp).symm.trans hpc⟩
  filelist := by
    rw [hfl, hl, ho]
    exact h.filelist
  count := by
    rw [hc, hl, ho]
    exact h.count

/-! ## The calls -/

theorem OpenRefused.tables {mem : Bool} (hr : OpenRefused s t mem) (hmem : mem = true)
    (h : FilesTables s) : FilesTables t := by
  obtain ⟨hids, hst⟩ := hr.exact h.ids
  refine h.congr (fun q hq => by rw [hr.files q hq]) hids (hst hmem) ?_ ?_ ?_ ?_ <;> rw [hr.rest]

theorem OpenTaken.tables {u : DrmDev} (ho : OpenTaken limit s u id p m) (h : FilesTables s) :
    FilesTables { u with openCount := u.openCount + 1, opened := id :: u.opened } := by
  obtain ⟨hfree, -, idr, hopen, hst, hnd⟩ := ho
  have hid : idr.store id ≠ none := by
    rw [hst, Function.update_self]
    exact Option.some_ne_none _
  obtain ⟨hrep, hids⟩ := replace_store (some p) hid
  have hust : u.cloneIdr.store = Function.update s.cloneIdr.store id (some (some p)) := by
    rw [hopen.table]
    show (idrReplace idr (some p) id).2.store = _
    rw [hrep, hst, Function.update_idem]
  have hul : u.live = p :: s.live := hopen.live_eq
  have huo : u.others = s.others := by rw [hopen.rest]
  -- nobody had the clone id before
  have hold : ∀ q ∈ s.live, (s.file q).cloneId ≠ id := by
    intro q hq hqc
    have := (h.table id (some q)).2 ⟨q, hq, rfl, hqc⟩
    rw [hfree] at this
    cases this
  refine ⟨?_, ?_, ?_, ?_, ?_, ?_⟩
  · show u.cloneIdr.ids.Nodup
    rw [hopen.table]
    show (idrReplace idr (some p) id).2.ids.Nodup
    rw [hids]
    exact hnd h.ids
  · show u.live.Nodup
    rw [hul]
    exact List.nodup_cons.2 ⟨hopen.fresh.1, h.nodup⟩
  · show ∀ q ∈ u.live, q ∉ u.others
    rw [hul, huo]
    intro q hq
    rcases List.mem_cons.1 hq with rfl | hq
    · exact hopen.fresh.2
    · exact h.disjoint q hq
  · intro j o
    show u.cloneIdr.store j = some o ↔ ∃ q ∈ u.live, o = some q ∧ (u.file q).cloneId = j
    rw [hust, hul]
    by_cases hj : j = id
    · subst hj
      rw [Function.update_self]
      constructor
      · intro ho
        exact ⟨p, List.mem_cons_self, (Option.some.inj ho).symm, hopen.file_self.1⟩
      · rintro ⟨q, hq, rfl, hqc⟩
        rcases List.mem_cons.1 hq with rfl | hq
        · rfl
        · rw [hopen.file_other q hq] at hqc
          exact absurd hqc (hold q hq)
    · rw [Function.update_of_ne hj, h.table]
      constructor
      · rintro ⟨q, hq, hqo, hqc⟩
        exact ⟨q, List.mem_cons_of_mem _ hq, hqo, by rw [hopen.file_other q hq, hqc]⟩
      · rintro ⟨q, hq, hqo, hqc⟩
        rcases List.mem_cons.1 hq with rfl | hq
        · exact absurd (hqc.symm.trans hopen.file_self.1) hj
        · rw [hopen.file_other q hq] at hqc
          exact ⟨q, hq, hqo, hqc⟩
  · show u.filelist = u.live ++ u.others
    have huf : u.filelist = p :: s.filelist := by rw [hopen.rest]
    rw [huf, hul, huo, h.filelist]
    rfl
  · show u.openCount + 1 = u.live.length + u.others.length
    have huc : u.openCount = s.openCount := by rw [hopen.rest]
    rw [huc, hul, huo, h.count, List.length_cons]
    omega

theorem drmRelease_ok (s : DrmDev) (p : Nat) (busy : Bool) :
    (drmRelease s p busy).2 = !(decide (s.openCount - 1 = 0) && busy) := by
  unfold drmRelease
  simp only
  split <;> split <;> rfl

theorem Released.tables {u : DrmDev} (hr : Released { s with opened := s.opened.erase id } t p m)
    (h : FilesTables s) (hp : p ∈ s.live) (hpc : (s.file p).cloneId = id)
    (hd : dropCloneId t id true = some u) : FilesTables u := by
  obtain ⟨hu, hj, hn⟩ := dropCloneId_spec hd
  have hti : t.cloneIdr = s.cloneIdr := hr.table
  obtain ⟨hids, hnone⟩ := hn (by rw [hti]; exact h.ids)
  have hul : u.live = s.live.erase p := by
    rw [hu]
    exact hr.live
  have huo : u.others = s.others := by
    rw [hu]
    exact hr.others
  have huf : ∀ q, q ≠ p → (u.file q).cloneId = (s.file q).cloneId := by
    intro q hq
    rw [hu]
    exact (hr.files q hq).1
  refine ⟨hids, ?_, ?_, ?_, ?_, ?_⟩
  · rw [hul]
    exact h.nodup.erase p
  · rw [hul, huo]
    exact fun q hq => h.disjoint q (List.mem_of_mem_erase hq)
  · intro j o
    rw [hul]
    by_cases hji : j = id
    · subst hji
      rw [hnone rfl]
      constructor
      · intro ho
        cases ho
      · rintro ⟨q, hq, rfl, hqc⟩
        obtain ⟨hqp, hq⟩ := h.nodup.mem_erase_iff.1 hq
        rw [huf q hqp] at hqc
        have h1 := (h.table j (some q)).2 ⟨q, hq, rfl, hqc⟩
        have h2 := (h.table j (some p)).2 ⟨p, hp, rfl, hpc⟩
        rw [h1] at h2
        exact absurd (Option.some.inj (Option.some.inj h2)) hqp
    · rw [hj j hji, hti, h.table]
      constructor
      · rintro ⟨q, hq, hqo, hqc⟩
        have hqp : q ≠ p := by
          rintro rfl
          exact hji (hqc.symm.trans hpc)
        exact ⟨q, h.nodup.mem_erase_iff.2 ⟨hqp, hq⟩, hqo, by rw [huf q hqp, hqc]⟩
      · rintro ⟨q, hq, hqo, hqc⟩
        obtain ⟨hqp, hq⟩ := h.nodup.mem_erase_iff.1 hq
        exact ⟨q, hq, hqo, by rw [← huf q hqp, hqc]⟩
  · rw [hul, huo, hu]
    show t.filelist = _
    rw [hr.filelist]
    show s.filelist.erase p = _
    rw [h.filelist, List.erase_append_left _ hp]
  · have hlen := List.length_erase_of_mem hp
    have hpos : 0 < s.live.length := List.length_pos_of_mem hp
    rw [hul, huo, hlen, hu]
    show t.openCount = _
    rw [hr.openCount]
    show s.openCount - 1 = _
    rw [h.count]
    omega

theorem filesStep_tables {call : FilesCall} (hs : filesStep limit s call t) (hcl : call.Clean s)
    (hI : MasterInv limit s) (hc : CloneInv s) (h : FilesTables s) : FilesTables t := by
  obtain ⟨hcome, hs⟩ := hs
  cases call with
  | sunOpen c =>
    rcases drmSunOpen_spec hcome hs with hr | ⟨id, p, m, u, htaken, ⟨rfl, -⟩ | ⟨hz, hf, -⟩⟩
    · exact hr.tables hcl.1 h
    · exact htaken.tables h
    · rw [hcl.2 hz] at hf
      cases hf
  | sunClose id busy mem =>
    obtain ⟨p, hp, hps, hpc⟩ := hc.table id hcome
    obtain ⟨m, hm⟩ := Option.ne_none_iff_exists'.1 (hI.hasMaster p hp)
    have hfind : idrFind s.cloneIdr id = some p := by
      rw [idrFind_eq, hps]
      rfl
    have hrel := drmRelease_spec (s := { s with opened := s.opened.erase id }) hp hm busy
    have hok := drmRelease_ok { s with opened := s.opened.erase id } p busy
    have hnot : (decide (s.openCount - 1 = 0) && busy) = false := by
      by_contra hb
      simp only [Bool.not_eq_false, Bool.and_eq_true, decide_eq_true_eq] at hb
      exact hcl.2 ⟨by omega, hb.2⟩
    simp only [hnot, Bool.not_false] at hok
    simp only [filesCall, drmSunClose, hfind, hok, if_true, hcl.1] at hs
    exact hrel.tables h hp hpc hs
  | setmaster id b =>
    simp only [filesCall] at hs
    split at hs
    · cases hs
      exact h
    case h_2 p hp =>
      cases hs
      obtain ⟨hf, hrest⟩ := drmSetmasterIoctl_frame s p b
      refine h.congr (fun q _ => hf q) ?_ ?_ ?_ ?_ ?_ ?_ <;> rw [hrest]
      exact h.ids
  | dropmaster id =>
    simp only [filesCall] at hs
    split at hs
    · cases hs
      exact h
    case h_2 p hp =>
      cases hs
      obtain ⟨hf, hrest⟩ := drmDropmasterIoctl_frame s p
      refine h.congr (fun q _ => hf q) ?_ ?_ ?_ ?_ ?_ ?_ <;> rw [hrest]
      exact h.ids

/-! ## Runs -/

/-- **The tables of open files agree** in every run of clean calls: the entries of `clone_idr` are
the clone ids of the live files, these are the files of `filelist` that belong to the minor,
`open_count` is the number of live files, and an open that fails changes neither. -/
theorem open_tables_agree {others : List Nat} {file : Nat → DrmFile} {calls : List FilesCall}
    (hr : Run (fun s c t => filesStep limit s c t ∧ c.Clean s) (filesInit others file) calls s) :
    (∀ id o, s.cloneIdr.store id = some o ↔ ∃ p ∈ s.live, o = some p ∧ (s.file p).cloneId = id) ∧
    (∀ p, p ∈ s.live ↔ p ∈ s.filelist ∧ p ∉ s.others) ∧
    s.openCount = s.live.length + s.others.length ∧
    ∀ c t, filesStep limit s (.sunOpen c) t → (FilesCall.sunOpen c).Clean s →
      t.opened = s.opened → t.openCount = s.openCount ∧ t.filelist = s.filelist := by
  obtain ⟨-, -, h⟩ := hr.inv (I := fun s => MasterInv limit s ∧ CloneInv s ∧ FilesTables s)
    ⟨filesInit_master others file, filesInit_clone others file, filesInit_tables others file⟩
    fun _ _ _ hI hs =>
      have hM := filesStep_inv hs.1 hI.1 hI.2.1
      ⟨hM.1, hM.2, filesStep_tables hs.1 hs.2 hI.1 hI.2.1 hI.2.2⟩
  refine ⟨h.table, fun p => ?_, h.count, fun c t hs hcl ho => ?_⟩
  · rw [h.filelist, List.mem_append]
    constructor
    · exact fun hp => ⟨.inl hp, h.disjoint p hp⟩
    · rintro ⟨hp | hp, hno⟩
      · exact hp
      · exact absurd hp hno
  · rcases drmSunOpen_spec hs.1 hs.2 with hr | ⟨id, p, m, u, htaken, ⟨rfl, -⟩ | ⟨hz, hf, -⟩⟩
    · constructor <;> rw [hr.rest]
    · obtain ⟨idr, hopen, -⟩ := htaken.opens
      have hu : u.opened = s.opened := by rw [hopen.rest]
      exact absurd ho (by rw [← hu]; exact List.cons_ne_self _ _)
    · rw [hcl.2 hz] at hf
      cases hf

/-- One file, opened and known. -/
theorem open_tables_agree_one :
    Run (fun s c t => filesStep ⟨7, by decide⟩ s c t ∧ c.Clean s)
        (filesInit [] fun _ => ⟨0, false, false, none⟩) [.sunOpen (openCall 10 20)] oneFile ∧
      oneFile.cloneIdr.store 0 = some (some 10) ∧ oneFile.openCount = 1 := by
  have h1 : filesStep ⟨7, by decide⟩ (filesInit [] fun _ => ⟨0, false, false, none⟩)
      (.sunOpen (openCall 10 20)) oneFile :=
    ⟨openCall_comes List.not_mem_nil List.not_mem_nil rfl, rfl⟩
  have hr : Run (fun s c t => filesStep ⟨7, by decide⟩ s c t ∧ c.Clean s)
      (filesInit [] fun _ => ⟨0, false, false, none⟩) [.sunOpen (openCall 10 20)] oneFile :=
    .snoc .nil ⟨h1, rfl, fun _ => rfl⟩
  obtain ⟨htable, -, hcount, -⟩ := open_tables_agree hr
  exact ⟨hr, (htable 0 (some 10)).2 ⟨10, List.mem_cons_self, rfl, rfl⟩, hcount⟩

/-- `drm_setup` fails: the open fails and the file stays. The device is busy at the last close: the
clone id of the freed file stays. -/
theorem tables_disagree :
    (∃ t, filesStep ⟨7, by decide⟩ (filesInit [] fun _ => ⟨0, false, false, none⟩)
        (.sunOpen { openCall 10 20 with setup := false }) t ∧
      t.opened = [] ∧ t.openCount = 1 ∧ t.filelist = [10] ∧ t.live = [10] ∧
      t.cloneIdr.store 0 = none) ∧
    ∃ t, Run (filesStep ⟨7, by decide⟩) (filesInit [] fun _ => ⟨0, false, false, none⟩)
        [.sunOpen (openCall 10 20), .sunClose 0 true true] t ∧
      t.live = [] ∧ t.cloneIdr.store 0 = some (some 10) := by
  constructor
  · have hcome : (FilesCall.sunOpen { openCall 10 20 with setup := false }).Comes
        (filesInit [] fun _ => ⟨0, false, false, none⟩) :=
      ⟨fun p _ => ⟨List.not_mem_nil, List.not_mem_nil⟩, fun m _ => rfl⟩
    exact ⟨_, ⟨hcome, rfl⟩, rfl, rfl, rfl, rfl, rfl⟩
  · have h1 : filesStep ⟨7, by decide⟩ (filesInit [] fun _ => ⟨0, false, false, none⟩)
        (.sunOpen (openCall 10 20)) oneFile :=
      ⟨openCall_comes List.not_mem_nil List.not_mem_nil rfl, rfl⟩
    exact ⟨_, .snoc (.snoc .nil h1) ⟨List.mem_cons_self, rfl⟩, rfl, rfl⟩

end Drm
