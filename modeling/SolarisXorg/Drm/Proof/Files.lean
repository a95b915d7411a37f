import Mathlib.Data.List.Nodup
import SolarisXorg.Drm.Files
import SolarisXorg.Drm.Proof.IdrCalls

/-!
# What the calls on a minor do

The calls of `Drm.Files` as changes of the state: the references to masters (`Counts`), and the two
outcomes of `drm_open_helper` (`HelperFails`, `HelperOpens`). `drmOpenHelper_spec` and
`drmRelease_spec` are what the invariants are proved from.
-/

namespace Drm

/-! ## References to masters -/

/-- `n m` references to each master, and those without are freed. -/
def Counts (master : Nat → Option (BitVec 32)) (n : Nat → Nat) : Prop :=
  ∀ m, match master m with
    | none => n m = 0
    | some refcount => 0 < n m ∧ refcount.toNat = n m

section
variable {master : Nat → Option (BitVec 32)} {n : Nat → Nat} {m : Nat}

theorem Counts.alloc (h : Counts master n) (hm : 0 < n m) :
    ∃ refcount, master m = some refcount ∧ refcount.toNat = n m := by
  have hc := h m
  cases hmm : master m with
  | none =>
    rw [hmm] at hc
    exact absurd hc (by simpa using hm.ne')
  | some refcount =>
    rw [hmm] at hc
    exact ⟨refcount, rfl, hc.2⟩

/-- Only the count of `m` changes. -/
theorem Counts.update {n' : Nat → Nat} {x : Option (BitVec 32)} (h : Counts master n)
    (hn : ∀ k, k ≠ m → n' k = n k)
    (hx : match x with
      | none => n' m = 0
      | some refcount => 0 < n' m ∧ refcount.toNat = n' m) :
    Counts (Function.update master m x) n' := by
  intro k
  by_cases hk : k = m
  · subst hk
    rw [Function.update_self]
    exact hx
  · rw [Function.update_of_ne hk, hn k hk]
    exact h k

theorem Counts.create {n' : Nat → Nat} (h : Counts master n) (hm' : n' m = 2)
    (hn : ∀ k, k ≠ m → n' k = n k) : Counts (Function.update master m (some 2)) n' := by
  apply h.update hn
  rw [hm']
  exact ⟨by decide, by decide⟩

theorem Counts.get (n' : Nat → Nat) (h : Counts master n) (hm : 0 < n m)
    (hfit : n m + 1 < 2 ^ 32) (hm' : n' m = n m + 1) (hn : ∀ k, k ≠ m → n' k = n k) :
    Counts (mastersGet master m).1 n' ∧ (mastersGet master m).2 = false := by
  obtain ⟨refcount, hr, ht⟩ := h.alloc hm
  simp only [mastersGet, hr, and_true]
  refine h.update hn ⟨by omega, ?_⟩
  rw [BitVec.toNat_add, ht, hm']
  exact Nat.mod_eq_of_lt hfit

theorem Counts.put (n' : Nat → Nat) (h : Counts master n) (hm : n m = n' m + 1)
    (hn : ∀ k, k ≠ m → n' k = n k) :
    Counts (mastersPut master (some m)).1 n' ∧ (mastersPut master (some m)).2 = false := by
  obtain ⟨refcount, hr, ht⟩ := h.alloc (m := m) (by omega)
  have hsub : (refcount - 1).toNat = n' m := by bv_omega
  simp only [mastersPut, hr, and_true]
  apply h.update hn
  split
  case h_1 hz =>
    split at hz
    case isTrue h0 =>
      rw [← hsub, h0]
      rfl
    case isFalse => cases hz
  case h_2 r hz =>
    split at hz
    case isTrue => cases hz
    case isFalse h0 =>
      cases hz
      refine ⟨?_, hsub⟩
      rw [← hsub]
      bv_omega

end

/-! ## Opening -/

section
variable {s t : DrmDev} {id p m : Nat} {c : OpenCall}

/-- `drm_open_helper` has failed: a file that never was is left in memory and, until the caller
removes it, in `clone_idr`. -/
structure HelperFails (s t : DrmDev) (id : Nat) : Prop where
  rest : t = { s with file := t.file, cloneIdr := t.cloneIdr }
  files : ∀ q ∈ s.live, t.file q = s.file q
  table : ∀ j, j ≠ id → t.cloneIdr.store j = s.cloneIdr.store j
  ids : t.cloneIdr.ids = s.cloneIdr.ids

/-- `drm_open_helper` has opened the file `p` with the master `m`. -/
structure HelperOpens (s t : DrmDev) (id p m : Nat) : Prop where
  fresh : p ∉ s.live ∧ p ∉ s.others
  file : ∃ a, t.file = Function.update s.file p ⟨id, s.minorMaster.isNone, a, some m⟩
  minor : t.minorMaster = some m
  master : s.minorMaster = some m ∧ t.master = (mastersGet s.master m).1 ∧
      t.fault = (s.fault || (mastersGet s.master m).2) ∨
    s.minorMaster = none ∧ s.master m = none ∧ t.fault = s.fault ∧
      t.master = Function.update s.master m (some 2)
  table : t.cloneIdr = (idrReplace s.cloneIdr (some p) id).2
  rest : t = { s with
    live := p :: s.live
    filelist := p :: s.filelist
    file := t.file
    minorMaster := t.minorMaster
    master := t.master
    fault := t.fault
    cloneIdr := t.cloneIdr }

theorem update_file_live (hp : p ∉ s.live) (f : DrmFile) :
    ∀ q ∈ s.live, Function.update s.file p f q = s.file q := by
  intro q hq
  rw [Function.update_of_ne]
  rintro rfl
  exact hp hq

/-- A master that is created and loses both references again is as if it had never been. -/
theorem masters_unwind {master : Nat → Option (BitVec 32)} (hm : master m = none) :
    mastersGet (Function.update master m (some 1#32)) m =
      (Function.update master m (some 2#32), false) ∧
    mastersPut (Function.update master m (some 2#32)) (some m) =
      (Function.update master m (some 1#32), false) ∧
    mastersPut (Function.update master m (some 1#32)) (some m) = (master, false) := by
  have h0 : Function.update master m none = master := by
    rw [Function.update_eq_self_iff]
    exact hm.symm
  simp [mastersGet, mastersPut, h0]

theorem drmOpenHelper_spec (hid : s.cloneIdr.store id ≠ none)
    (hp : ∀ p, c.priv = some p → p ∉ s.live ∧ p ∉ s.others)
    (hnew : ∀ m, c.newMaster = some m → s.master m = none) :
    (drmOpenHelper s id c).2 = false ∧ HelperFails s (drmOpenHelper s id c).1 id ∨
      (drmOpenHelper s id c).2 = true ∧ ∃ p m, HelperOpens s (drmOpenHelper s id c).1 id p m := by
  obtain ⟨hst, hids⟩ := replace_store c.priv hid
  have htab : ∀ j, j ≠ id →
      (idrReplace s.cloneIdr c.priv id).2.store j = s.cloneIdr.store j := by
    intro j hj
    rw [hst, Function.update_of_ne hj]
  unfold drmOpenHelper
  split
  · exact .inl ⟨rfl, rfl, fun _ _ => rfl, fun _ _ => rfl, rfl⟩
  · cases hpriv : c.priv with
    | none => exact .inl ⟨rfl, rfl, fun _ _ => rfl, fun _ _ => rfl, rfl⟩
    | some p =>
      obtain ⟨hlive, hoth⟩ := hp p hpriv
      rw [hpriv] at htab hids
      have hfree : (p :: s.live).erase p = s.live := List.erase_cons_head ..
      simp only
      split
      · refine .inl ⟨rfl, ?_, update_file_live hlive _, htab, hids⟩
        simp [DrmDev.freeFile, DrmDev.newFile, DrmDev.setFile, hfree]
      · have hmm : (s.newFile id p c.suser).minorMaster = s.minorMaster := rfl
        rw [hmm]
        cases hmin : s.minorMaster with
        | none =>
          cases hn : c.newMaster with
          | none =>
            refine .inl ⟨rfl, ?_, update_file_live hlive _, htab, hids⟩
            simp [DrmDev.freeFile, DrmDev.newFile, DrmDev.setFile, hfree, hmin]
          | some m =>
            have hm := hnew m hn
            obtain ⟨h1, h2, h3⟩ := masters_unwind hm
            simp only
            split
            · refine .inr ⟨rfl, p, m, ⟨hlive, hoth⟩, ?_, rfl, .inr ⟨hmin, hm, ?_, ?_⟩, rfl, rfl⟩
              · exact ⟨true, by simp [DrmDev.masterCreate, DrmDev.newFile, DrmDev.setFile,
                  DrmDev.masterGet, hmin]⟩
              · simp [DrmDev.masterCreate, DrmDev.newFile, DrmDev.setFile, DrmDev.masterGet, h1]
              · simp [DrmDev.masterCreate, DrmDev.newFile, DrmDev.setFile, DrmDev.masterGet, h1]
            · refine .inl ⟨rfl, ?_, ?_, htab, hids⟩
              · simp [DrmDev.masterCreate, DrmDev.newFile, DrmDev.setFile, DrmDev.masterGet,
                  DrmDev.putMinorMaster, DrmDev.putFileMaster, DrmDev.masterPut, DrmDev.freeFile,
                  h1, h2, h3, hfree, hmin]
              · intro q hq
                have hqp : q ≠ p := fun e => hlive (e ▸ hq)
                simp [DrmDev.masterCreate, DrmDev.newFile, DrmDev.setFile, DrmDev.masterGet,
                  DrmDev.putMinorMaster, DrmDev.putFileMaster, DrmDev.masterPut, DrmDev.freeFile,
                  hqp]
        | some m =>
          refine .inr ⟨rfl, p, m, ⟨hlive, hoth⟩, ?_, ?_, .inl ⟨hmin, rfl, rfl⟩, rfl, ?_⟩
          · exact ⟨c.suser, by simp [DrmDev.newFile, DrmDev.setFile, DrmDev.masterGet, hmin]⟩
          · exact hmin
          · rfl

theorem dropCloneId_spec {mem : Bool} (h : dropCloneId s id mem = some t) :
    t = { s with cloneIdr := t.cloneIdr } ∧
      (∀ j, j ≠ id → t.cloneIdr.store j = s.cloneIdr.store j) ∧
      (s.cloneIdr.ids.Nodup → t.cloneIdr.ids.Nodup ∧
        (mem = true → t.cloneIdr.store id = none)) := by
  obtain ⟨⟨ret, idr⟩, hr, rfl⟩ := Option.map_eq_some_iff.1 h
  exact ⟨rfl, remove_store hr⟩

/-- `drm_sun_open` has failed before the file was opened; `mem` is whether the clone id could be
given back. -/
structure OpenRefused (s t : DrmDev) (mem : Bool) : Prop where
  rest : t = { s with file := t.file, cloneIdr := t.cloneIdr }
  files : ∀ q ∈ s.live, t.file q = s.file q
  kept : ∀ j q, s.cloneIdr.store j = some (some q) → t.cloneIdr.store j = some (some q)
  exact : s.cloneIdr.ids.Nodup →
    t.cloneIdr.ids.Nodup ∧ (mem = true → t.cloneIdr.store = s.cloneIdr.store)

/-- The file `p` is open under the clone id `id`, as far as `drm_open_helper` is concerned. -/
structure OpenTaken (limit : CloneLimit) (s u : DrmDev) (id p m : Nat) : Prop where
  free : s.cloneIdr.store id = none
  limit : id ≤ limit.max
  opens : ∃ idr, HelperOpens { s with cloneIdr := idr } u id p m ∧
    idr.store = Function.update s.cloneIdr.store id (some none) ∧
    (s.cloneIdr.ids.Nodup → idr.ids.Nodup)

/-- The clone id that `idr_get_new_above` gave is taken back. -/
theorem openRefused_of_drop {u : DrmDev} {idr : Idr Nat} {mem : Bool}
    (hfree : s.cloneIdr.store id = none)
    (hst : idr.store = Function.update s.cloneIdr.store id (some none))
    (hnd : s.cloneIdr.ids.Nodup → idr.ids.Nodup)
    (hf : HelperFails { s with cloneIdr := idr } u id) (hd : dropCloneId u id mem = some t) :
    OpenRefused s t mem := by
  obtain ⟨ht, hj, hn⟩ := dropCloneId_spec hd
  have hsame : ∀ j, j ≠ id → t.cloneIdr.store j = s.cloneIdr.store j := by
    intro j hji
    rw [hj j hji, hf.table j hji]
    show idr.store j = _
    rw [hst, Function.update_of_ne hji]
  refine ⟨?_, ?_, ?_, ?_⟩
  · rw [ht, hf.rest]
  · intro q hq
    rw [ht]
    exact hf.files q hq
  · intro j q hq
    rw [hsame j, hq]
    rintro rfl
    rw [hfree] at hq
    cases hq
  · intro hs
    have hu : u.cloneIdr.ids.Nodup := by
      rw [hf.ids]
      exact hnd hs
    refine ⟨(hn hu).1, fun hmem => funext fun j => ?_⟩
    by_cases hji : j = id
    · rw [hji, (hn hu).2 hmem, hfree]
    · exact hsame j hji

/-- What `drm_sun_open` can do: refuse, open, or fail in `drm_setup` with the file open. -/
theorem drmSunOpen_spec {limit : CloneLimit} (hcome : (FilesCall.sunOpen c).Comes s)
    (hs : drmSunOpen limit s c = some t) :
    OpenRefused s t c.memRemove ∨
      ∃ id p m u, OpenTaken limit s u id p m ∧
        (t = { u with openCount := u.openCount + 1, opened := id :: u.opened } ∧
            (s.openCount = 0 → c.setup = true) ∨
          s.openCount = 0 ∧ c.setup = false ∧
            dropCloneId { u with openCount := u.openCount + 1 } id c.memRemove = some t) := by
  obtain ⟨⟨ret, idr⟩, hget, hs⟩ := Option.bind_eq_some_iff.1 hs
  cases ret with
  | error e =>
    cases hs
    have hused := (getNewAbove_error hget).1
    have hst : idr.store = s.cloneIdr.store := by
      funext j
      simp only [Idr.store, hused]
    refine .inl ⟨rfl, fun _ _ => rfl, fun j q hq => (congrFun hst j).trans hq, fun hn => ⟨?_, ?_⟩⟩
    · show (idr.usedIds.map (·.id)).Nodup
      rw [hused]
      exact hn
    · exact fun _ => hst
  | ok id =>
    obtain ⟨hfree, hst, hnd⟩ := getNewAbove_ok hget
    have hid : ({ s with cloneIdr := idr } : DrmDev).cloneIdr.store id ≠ none := by
      show idr.store id ≠ none
      rw [hst, Function.update_self]
      exact Option.some_ne_none _
    simp only at hs
    split at hs
    · refine .inl (openRefused_of_drop hfree hst hnd ?_ hs)
      exact ⟨rfl, fun _ _ => rfl, fun _ _ => rfl, rfl⟩
    case isFalse hlim =>
      rcases drmOpenHelper_spec hid hcome.1 hcome.2 with ⟨hok, hfail⟩ | ⟨hok, p, m, hopen⟩
      · simp only [drmOpen, hok, if_false, Bool.false_eq_true] at hs
        exact .inl (openRefused_of_drop hfree hst hnd hfail hs)
      · have hcount : (drmOpenHelper { s with cloneIdr := idr } id c).1.openCount =
            s.openCount := by rw [hopen.rest]
        refine .inr ⟨id, p, m, _, ⟨hfree, by omega, idr, hopen, hst, hnd⟩, ?_⟩
        simp only [drmOpen, hok, if_true] at hs
        by_cases hsetup : (if s.openCount = 0 then c.setup else true) = true
        · rw [hcount, if_pos hsetup] at hs
          cases hs
          refine .inl ⟨by rw [hcount], fun hz => ?_⟩
          rwa [if_pos hz] at hsetup
        · rw [hcount, if_neg hsetup] at hs
          have hz : s.openCount = 0 := by
            by_contra hz
            exact hsetup (if_neg hz)
          rw [if_pos hz] at hsetup
          rw [hcount]
          exact .inr ⟨hz, by simpa using hsetup, hs⟩

/-! ## Closing -/

/-- What is left of a file when another one is closed. -/
def DrmFile.Kept (f g : DrmFile) : Prop :=
  f.cloneId = g.cloneId ∧ f.isMaster = g.isMaster ∧ f.master = g.master

/-- `drm_release` has closed the file `p`, whose master is `m`. -/
structure Released (s t : DrmDev) (p m : Nat) : Prop where
  live : t.live = s.live.erase p
  filelist : t.filelist = s.filelist.erase p
  openCount : t.openCount = s.openCount - 1
  opened : t.opened = s.opened
  others : t.others = s.others
  table : t.cloneIdr = s.cloneIdr
  files : ∀ q, q ≠ p → (t.file q).Kept (s.file q)
  master : (s.file p).isMaster = true ∧ s.minorMaster = some m ∧ t.minorMaster = none ∧
      t.master = (mastersPut (mastersPut s.master (some m)).1 (some m)).1 ∧
      t.fault = (s.fault || (mastersPut s.master (some m)).2 ||
        (mastersPut (mastersPut s.master (some m)).1 (some m)).2) ∨
    ¬ ((s.file p).isMaster = true ∧ s.minorMaster = some m) ∧ t.minorMaster = s.minorMaster ∧
      t.master = (mastersPut s.master (some m)).1 ∧
      t.fault = (s.fault || (mastersPut s.master (some m)).2)

theorem drmRelease_spec (hp : p ∈ s.live) (hm : (s.file p).master = some m) (busy : Bool) :
    Released s (drmRelease s p busy).1 p m := by
  have hkept : ∀ q, ((fun q => if q ∈ s.filelist ∧ (s.file q).master = some m ∧ q ≠ p then
      { s.file q with authenticated := false } else s.file q) q).Kept (s.file q) := by
    intro q
    show (ite _ _ _ : DrmFile).Kept _
    split
    · exact ⟨rfl, rfl, rfl⟩
    · exact ⟨rfl, rfl, rfl⟩
  unfold drmRelease
  cases hmaster : (s.file p).isMaster with
  | false =>
    simp only [hm, hmaster, Bool.false_and, if_false, Bool.false_eq_true]
    have hno : ¬ ((s.file p).isMaster = true ∧ s.minorMaster = some m) := by
      rw [hmaster]
      exact fun h => Bool.false_ne_true h.1
    refine ⟨rfl, rfl, rfl, rfl, rfl, rfl, fun q hq => ?_, .inr ⟨hno, rfl, ?_, ?_⟩⟩
    · simp [DrmDev.freeFile, DrmDev.setFile, DrmDev.putFileMaster, DrmDev.masterPut, hq,
        DrmFile.Kept]
    · simp [DrmDev.freeFile, DrmDev.setFile, DrmDev.putFileMaster, DrmDev.masterPut, hm]
    · simp [DrmDev.setFile, DrmDev.putFileMaster, DrmDev.masterPut, hm, hp]
  | true =>
    simp only [hm, hmaster, if_true, Bool.true_and]
    by_cases hmin : s.minorMaster = some m
    · simp only [hmin, beq_self_eq_true, if_true]
      refine ⟨rfl, rfl, rfl, rfl, rfl, rfl, fun q hq => ?_, .inl ⟨hmaster, hmin, rfl, ?_, ?_⟩⟩
      · simpa [DrmDev.freeFile, DrmDev.setFile, DrmDev.putFileMaster, DrmDev.masterPut,
          DrmDev.putMinorMaster, hq] using hkept q
      · simp [DrmDev.freeFile, DrmDev.setFile, DrmDev.putFileMaster, DrmDev.masterPut,
          DrmDev.putMinorMaster, hm]
      · simp [DrmDev.setFile, DrmDev.putFileMaster, DrmDev.masterPut, DrmDev.putMinorMaster, hm, hp]
    · have hne : (s.minorMaster == some m) = false := beq_false_of_ne hmin
      simp only [hne, if_false, Bool.false_eq_true]
      refine ⟨rfl, rfl, rfl, rfl, rfl, rfl, fun q hq => ?_,
        .inr ⟨fun h => hmin h.2, rfl, ?_, ?_⟩⟩
      · simpa [DrmDev.freeFile, DrmDev.setFile, DrmDev.putFileMaster, DrmDev.masterPut, hq]
          using hkept q
      · simp [DrmDev.freeFile, DrmDev.setFile, DrmDev.putFileMaster, DrmDev.masterPut, hm]
      · simp [DrmDev.setFile, DrmDev.putFileMaster, DrmDev.masterPut, hm, hp]

end

end Drm
