import Mathlib.Data.List.Nodup
import Mathlib.Tactic.SplitIfs
import SolarisXorg.Drm.Maps
import SolarisXorg.Drm.Proof.IdrCalls

/-!
# What a failed map leaves, and what `hw_lock` points to

`SwitchEnds` says how the `switch` of `drm_addmap_core` can end: with an error and nothing changed,
with an entry that is there, or with a map for a new entry, and then `hw_lock` is set if the map
contains the lock (`addmapPrepare_ends`). What comes after it fails without memory for the entry or
without an id (`addmapLink_spec`), and then `hw_lock` and the entry stay: so a call that returns an
error leaves the tables as they were exactly when it does not fail that late
(`addmap_unchanged_iff`).

`MapInv` is the invariant of runs: the lock of a master is the map of an entry that belongs to the
master or to nobody, so that the destruction of another master leaves it (`masterDestroyLoop_keeps`).
`maps_clean` puts both parts together.
-/

namespace Drm

open Lib

variable {cfg : MapConfig} {s t : MapDev} {r : AddmapReq}

theorem setHwLock_self (s : MapDev) (m : Nat) (lock : BitVec 64) :
    (s.setHwLock m lock).hwLock m = some lock := Function.update_self ..

theorem setHwLock_of_ne {m m' : Nat} (h : m' ≠ m) (s : MapDev) (lock : BitVec 64) :
    (s.setHwLock m lock).hwLock m' = s.hwLock m' := Function.update_of_ne h ..

/-! ## `drm_addmap_core` -/

/-- How the `switch` ends. -/
inductive SwitchEnds (s : MapDev) : MapSwitch → Prop
  | fail {ret : Int} : ret ≠ 0 → SwitchEnds s (.fail ret)
  | found (addr : Nat) (size : BitVec 64) (list : Nat) :
      SwitchEnds s (.found (s.setSize addr size) list)
  | plain {map : DrmLocalMap} : ¬ (map.type = .shm ∧ map.flags &&& drmContainsLock ≠ 0) →
      SwitchEnds s (.ready s map)
  | lock {map : DrmLocalMap} {m : Nat} : map.type = .shm → map.flags &&& drmContainsLock ≠ 0 →
      map.handle ≠ 0 → s.primaryMaster = some m → s.hwLock m = some 0 →
      SwitchEnds s (.ready (s.setHwLock m map.handle) map)

theorem checkMap_error {ret : Int} (h : r.checkMap = .error ret) : ret ≠ 0 := by
  unfold AddmapReq.checkMap at h
  dsimp only at h
  split_ifs at h <;> cases h <;> decide

theorem addmapShm_ends {map : DrmLocalMap} {p : MapSwitch} (htype : map.type = .shm)
    (h : addmapShm s r map = some p) : SwitchEnds s p := by
  unfold addmapShm at h
  split at h
  · cases h
    exact .fail (by decide)
  · next hspace =>
    dsimp only at h
    split at h
    · next hlock =>
      obtain ⟨m, hm, h⟩ := Option.bind_eq_some_iff.1 h
      obtain ⟨lock, hl, h⟩ := Option.bind_eq_some_iff.1 h
      split at h
      · cases h
        exact .fail (by decide)
      · next hzero =>
        cases h
        obtain rfl : lock = 0 := not_not.1 hzero
        exact @SwitchEnds.lock s { map with handle := r.space, offset := r.space } m htype hlock hspace
          hm hl
    · next hlock =>
      cases h
      exact .plain fun hc => hlock hc.2

theorem addmapSwitch_ends {map : DrmLocalMap} {p : MapSwitch}
    (h : addmapSwitch cfg s r map = some p) : SwitchEnds s p := by
  have plain : ∀ {map' : DrmLocalMap}, map'.type = map.type → map.type ≠ .shm →
      SwitchEnds s (.ready s map') := fun heq hne => .plain fun hc => hne (heq ▸ hc.1)
  unfold addmapSwitch at h
  cases htype : map.type with
  | registers =>
    have hne : map.type ≠ .shm := by simp [htype]
    simp only [htype, if_true] at h
    split at h
    · cases h
      exact .found _ _ _
    · split_ifs at h <;> cases h
      · exact .fail (by decide)
      · exact plain htype.symm hne
  | frameBuffer =>
    have hne : map.type ≠ .shm := by simp [htype]
    simp only [htype, reduceCtorEq, if_false] at h
    split at h <;> cases h
    · exact .found _ _ _
    · exact plain rfl hne
  | shm =>
    simp only [htype] at h
    split at h
    · cases h
      exact .found _ _ _
    · exact addmapShm_ends htype h
  | agp =>
    have hne : map.type ≠ .shm := by simp [htype]
    simp only [htype] at h
    split at h
    · cases h
      exact .fail (by decide)
    · split_ifs at h <;> cases h
      · exact .fail (by decide)
      · exact .fail (by decide)
      · exact plain htype.symm hne
  | gem =>
    simp only [htype] at h
    cases h
    exact plain rfl (by simp [htype])
  | scatterGather =>
    have hne : map.type ≠ .shm := by simp [htype]
    simp only [htype] at h
    split at h
    · cases h
      exact .fail (by decide)
    · split_ifs at h <;> cases h
      · exact .fail (by decide)
      · exact plain htype.symm hne
  | consistent | other =>
    simp only [htype] at h
    cases h
    exact .fail (by decide)

theorem addmapPrepare_ends {p : MapSwitch} (h : addmapPrepare cfg s r = some p) :
    SwitchEnds s p := by
  unfold addmapPrepare at h
  split at h
  · next ret hcheck =>
    cases h
    exact .fail (checkMap_error hcheck)
  · exact addmapSwitch_ends h

/-- The errors of `drm_map_handle` are not 0. -/
theorem drmMapHandle_error {mapIdr idrp : Idr Nat} {list : Nat} {mem : Bool} {ret : Int}
    (h : drmMapHandle mapIdr list mem = some (.error ret, idrp)) : ret ≠ 0 := by
  obtain ⟨⟨got, idrp'⟩, hget, hpair⟩ := Option.map_eq_some_iff.1 h
  cases got with
  | ok newid => cases hpair
  | error err =>
    cases hpair
    exact (getNewAbove_error hget).2

/-- The end of `drm_addmap_core`. -/
theorem addmapLink_spec {map : DrmLocalMap} {ret : Int} (h : addmapLink s r map = some (ret, t)) :
    (r.listMem = none ∧ ret ≠ 0 ∧ t = s) ∨
      (∃ list idrp, r.listMem = some list ∧ ret ≠ 0 ∧
        drmMapHandle s.mapIdr list r.idMem = some (.error ret, idrp) ∧
        t.maplist.length = s.maplist.length + 1) ∨
      ∃ list token idrp e, r.listMem = some list ∧ ret = 0 ∧
        drmMapHandle s.mapIdr list r.idMem = some (.ok token, idrp) ∧ e.map = map ∧
        e.addr = r.mapMem.getD 0 ∧ (e.master = s.primaryMaster ∨ e.master = none) ∧
        t = { s with maplist := e :: s.maplist, mapIdr := idrp } := by
  unfold addmapLink at h
  split at h
  · next hlist =>
    cases h
    exact .inl ⟨hlist, by decide, rfl⟩
  · next list hlist =>
    obtain ⟨⟨ret', idrp⟩, hhandle, h⟩ := Option.map_eq_some_iff.1 h
    cases ret' with
    | error err =>
      cases h
      exact .inr (.inl ⟨list, _, hlist, drmMapHandle_error hhandle, hhandle, rfl⟩)
    | ok token =>
      cases h
      refine .inr (.inr ⟨list, token, idrp, _, hlist, rfl, hhandle, rfl, rfl, ?_, rfl⟩)
      dsimp only
      split
      · exact .inl rfl
      · exact .inr rfl

/-- **An error leaves everything as it was** exactly when the request does not fail late. -/
theorem addmap_unchanged_iff {ret : Int} (h : drmAddmapCore cfg s r = some (ret, t))
    (hret : ret ≠ 0) : s.Unchanged t ↔ ¬ r.Late cfg s := by
  obtain ⟨p, hp, h⟩ := Option.bind_eq_some_iff.1 h
  cases p with
  | fail ret' =>
    cases h
    refine iff_of_true ⟨rfl, fun _ => Iff.rfl, rfl⟩ fun ⟨s', map, hready, _⟩ => ?_
    cases hp.symm.trans hready
  | found s' list =>
    cases h
    exact absurd rfl hret
  | ready s' map =>
    have hends := addmapPrepare_ends hp
    have hlate : r.Late cfg s ↔
        (r.listMem = none ∧ map.type = .shm ∧ map.flags &&& drmContainsLock ≠ 0) ∨
          ∃ list ret idrp, r.listMem = some list ∧
            drmMapHandle s.mapIdr list r.idMem = some (.error ret, idrp) := by
      constructor
      · rintro ⟨s'', map', hready, hcase⟩
        cases hp.symm.trans hready
        exact hcase
      · exact fun hcase => ⟨s', map, hp, hcase⟩
    rw [hlate]
    have hidr : s'.mapIdr = s.mapIdr ∧ s'.maplist = s.maplist := by
      cases hends <;> exact ⟨rfl, rfl⟩
    rcases addmapLink_spec h with ⟨hnone, -, rfl⟩ | ⟨list, idrp, hlist, -, hhandle, hlen⟩ |
      ⟨_, _, _, _, _, hzero, _⟩
    · -- no entry: what the switch did stays
      cases hends with
      | plain hlock =>
        refine iff_of_true ⟨rfl, fun _ => Iff.rfl, rfl⟩ ?_
        rintro (⟨-, hc⟩ | ⟨list, _, _, hsome, -⟩)
        · exact hlock hc
        · rw [hnone] at hsome
          cases hsome
      | @lock _ m htype hflag hhandle hm hfree =>
        refine iff_of_false (fun hun => ?_) (not_not.2 (.inl ⟨hnone, htype, hflag⟩))
        have hsame := congrFun hun.hwLock m
        rw [setHwLock_self, hfree] at hsame
        exact hhandle (Option.some.inj hsame)
    · -- no id: the entry stays
      refine iff_of_false (fun hun => ?_) (not_not.2 (.inr ⟨list, ret, idrp, hlist, ?_⟩))
      · rw [hun.maplist, hidr.2] at hlen
        omega
      · rwa [← hidr.1]
    · exact absurd hzero hret

/-! ## What a `hw_lock` points to -/

/-- What a run keeps. -/
structure MapInv (s : MapDev) : Prop where
  addrs : (s.maplist.map (·.addr)).Nodup
  locks : ∀ m lock, s.hwLock m = some lock → lock ≠ 0 →
    ∃ e ∈ s.maplist, e.map.type = .shm ∧ e.map.handle = lock ∧
      (e.master = some m ∨ e.master = none)

theorem mapInit_inv : MapInv mapInit where
  addrs := List.nodup_nil
  locks _ _ h := by cases h

/-- A step that leaves the entries. -/
theorem MapInv.setLock (h : MapInv s) (m : Nat) : MapInv (s.setHwLock m 0) := by
  refine ⟨h.addrs, fun m' lock hl hne => ?_⟩
  by_cases hm : m' = m
  · subst hm
    rw [setHwLock_self] at hl
    exact absurd (Option.some.inj hl).symm hne
  · rw [setHwLock_of_ne hm] at hl
    exact h.locks m' lock hl hne

theorem MapInv.setSize (h : MapInv s) (addr : Nat) (size : BitVec 64) :
    MapInv (s.setSize addr size) := by
  constructor
  · have haddrs : (s.setSize addr size).maplist.map (·.addr) = s.maplist.map (·.addr) := by
      rw [MapDev.setSize, List.map_map]
      apply List.map_congr_left
      intro e _
      simp only [Function.comp]
      split <;> rfl
    rw [haddrs]
    exact h.addrs
  · intro m lock hl hne
    obtain ⟨e, he, htype, hhandle, howner⟩ := h.locks m lock hl hne
    refine ⟨_, List.mem_map_of_mem he, ?_⟩
    split <;> exact ⟨htype, hhandle, howner⟩

/-- A new entry. -/
theorem MapInv.cons (h : MapInv s) {e : DrmMapList} (hnew : ∀ e' ∈ s.maplist, e'.addr ≠ e.addr)
    (idrp : Idr Nat) : MapInv { s with maplist := e :: s.maplist, mapIdr := idrp } := by
  refine ⟨List.nodup_cons.2 ⟨fun hm => ?_, h.addrs⟩, fun m lock hl hne => ?_⟩
  · obtain ⟨e', he', heq⟩ := List.mem_map.1 hm
    exact hnew e' he' heq
  · obtain ⟨e', he', hrest⟩ := h.locks m lock hl hne
    exact ⟨e', List.mem_cons_of_mem e he', hrest⟩

/-- A new entry whose map is the lock of the master. -/
theorem MapInv.consLock (h : MapInv s) {e : DrmMapList} {m : Nat}
    (hnew : ∀ e' ∈ s.maplist, e'.addr ≠ e.addr) (htype : e.map.type = .shm)
    (howner : e.master = some m ∨ e.master = none) (idrp : Idr Nat) :
    MapInv { s.setHwLock m e.map.handle with maplist := e :: s.maplist, mapIdr := idrp } := by
  refine ⟨(h.cons hnew idrp).addrs, fun m' lock hl hne => ?_⟩
  by_cases hm : m' = m
  · subst hm
    rw [setHwLock_self] at hl
    exact ⟨e, List.mem_cons_self, htype, Option.some.inj hl, howner⟩
  · rw [setHwLock_of_ne hm] at hl
    exact (h.cons hnew idrp).locks m' lock hl hne

theorem addmap_inv {ret : Int} (h : MapInv s) (hfresh : ∀ e ∈ s.maplist, r.mapMem ≠ some e.addr)
    (hlate : ¬ r.Late cfg s) (hc : drmAddmapCore cfg s r = some (ret, t)) : MapInv t := by
  obtain ⟨p, hp, hc⟩ := Option.bind_eq_some_iff.1 hc
  have hends := addmapPrepare_ends hp
  cases p with
  | fail ret' =>
    cases hc
    exact h
  | found s' list =>
    cases hc
    cases hends
    exact h.setSize _ _
  | ready s' map =>
    obtain ⟨a, ha⟩ : ∃ a, r.mapMem = some a := by
      cases hmem : r.mapMem with
      | some a => exact ⟨a, rfl⟩
      | none =>
        rw [addmapPrepare, AddmapReq.checkMap, hmem] at hp
        cases hp
    have hnew : ∀ e ∈ s.maplist, e.addr ≠ r.mapMem.getD 0 := by
      intro e he heq
      rw [ha, Option.getD_some] at heq
      exact hfresh e he (by rw [ha, heq])
    rcases addmapLink_spec hc with ⟨hnone, -, rfl⟩ | ⟨list, idrp, hlist, -, hhandle, -⟩ |
      ⟨list, token, idrp, e, -, -, -, rfl, haddr, howner, rfl⟩
    · cases hends with
      | plain => exact h
      | lock htype hflag => exact absurd ⟨_, _, hp, .inl ⟨hnone, htype, hflag⟩⟩ hlate
    · have hidr : s'.mapIdr = s.mapIdr := by cases hends <;> rfl
      rw [hidr] at hhandle
      exact absurd ⟨_, _, hp, .inr ⟨list, ret, idrp, hlist, hhandle⟩⟩ hlate
    · rw [← haddr] at hnew
      cases hends with
      | plain => exact h.cons hnew idrp
      | @lock _ m htype _ _ hm =>
        have hprimary : (s.setHwLock m e.map.handle).primaryMaster = some m := hm
        rw [hprimary] at howner
        exact h.consLock hnew htype howner idrp

/-- What `drm_rmmap_locked` takes off the list. -/
theorem drmRmmapLocked_spec {addr : Nat} {idMem : Bool} {ret : Int}
    (h : drmRmmapLocked s addr idMem = some (ret, t)) :
    t.hwLock = s.hwLock ∧ t.primaryMaster = s.primaryMaster ∧
      ((s.maplist.find? (·.addr = addr) = none ∧ t.maplist = s.maplist) ∨
        ∃ e, s.maplist.find? (·.addr = addr) = some e ∧ t.maplist = s.maplist.erase e) := by
  unfold drmRmmapLocked at h
  split at h
  · next hfind =>
    cases h
    exact ⟨rfl, rfl, .inl ⟨hfind, rfl⟩⟩
  · next e hfind =>
    obtain ⟨⟨ret', idrp⟩, -, h⟩ := Option.map_eq_some_iff.1 h
    cases h
    exact ⟨rfl, rfl, .inr ⟨e, hfind, rfl⟩⟩

theorem rmmap_inv {addr : Nat} {idMem : Bool} {ret : Int} (h : MapInv s)
    (hlock : ¬ s.IsLock addr) (hc : drmRmmapLocked s addr idMem = some (ret, t)) : MapInv t := by
  obtain ⟨hhw, -, ⟨-, hlist⟩ | ⟨e, hfind, hlist⟩⟩ := drmRmmapLocked_spec hc
  · refine ⟨hlist ▸ h.addrs, fun m lock hl hne => ?_⟩
    rw [hhw] at hl
    rw [hlist]
    exact h.locks m lock hl hne
  · refine ⟨?_, fun m lock hl hne => ?_⟩
    · rw [hlist]
      exact h.addrs.sublist (List.erase_sublist.map _)
    · rw [hhw] at hl
      obtain ⟨e', he', htype, rfl, howner⟩ := h.locks m lock hl hne
      refine ⟨e', ?_, htype, rfl, howner⟩
      rw [hlist]
      -- the entry of the lock is another one
      refine (List.mem_erase_of_ne ?_).2 he'
      rintro rfl
      exact hlock ⟨e', m, hfind, htype, hne, hl⟩

/-- The loop of `drm_master_destroy` keeps the entries that have another address than those of the
master. -/
theorem masterDestroyLoop_keeps {m : Nat} {idMem : Nat → Bool} {l : List DrmMapList}
    (h : masterDestroyLoop m idMem l s = some t) :
    t.hwLock = s.hwLock ∧ t.maplist.Sublist s.maplist ∧
      ∀ e ∈ s.maplist, (∀ e' ∈ l, e'.master = some m → e'.addr ≠ e.addr) → e ∈ t.maplist := by
  induction l generalizing s with
  | nil =>
    cases h
    exact ⟨rfl, .refl _, fun e he _ => he⟩
  | cons e' l ih =>
    rw [masterDestroyLoop] at h
    split at h
    · next hm =>
      obtain ⟨⟨ret, u⟩, hrm, h⟩ := Option.bind_eq_some_iff.1 h
      obtain ⟨hlock, hsub, hkeep⟩ := ih h
      obtain ⟨hhw, -, hlist⟩ := drmRmmapLocked_spec hrm
      refine ⟨hlock.trans hhw, hsub.trans ?_, fun e he hother => ?_⟩
      · rcases hlist with ⟨-, hlist⟩ | ⟨e'', -, hlist⟩
        · rw [hlist]
        · rw [hlist]
          exact List.erase_sublist
      · refine hkeep e ?_ fun e'' he'' => hother e'' (List.mem_cons_of_mem e' he'')
        rcases hlist with ⟨-, hlist⟩ | ⟨e'', hfind, hlist⟩
        · rwa [hlist]
        · rw [hlist]
          refine (List.mem_erase_of_ne ?_).2 he
          rintro rfl
          have haddr : e.addr = e'.addr := by simpa using List.find?_some hfind
          exact hother e' List.mem_cons_self hm haddr.symm
    · obtain ⟨hlock, hsub, hkeep⟩ := ih h
      exact ⟨hlock, hsub, fun e he hother =>
        hkeep e he fun e'' he'' => hother e'' (List.mem_cons_of_mem e' he'')⟩

theorem masterDestroy_inv {m : Nat} {idMem : Nat → Bool} (h : MapInv s)
    (hc : drmMasterDestroy s m idMem = some t) : MapInv t := by
  obtain ⟨u, hu, rfl⟩ := Option.map_eq_some_iff.1 hc
  obtain ⟨hhw, hsub, hkeep⟩ := masterDestroyLoop_keeps hu
  refine ⟨h.addrs.sublist (hsub.map _), fun m' lock hl hne => ?_⟩
  dsimp only at hl
  by_cases hm : m' = m
  · subst hm
    rw [Function.update_self] at hl
    cases hl
  · rw [Function.update_of_ne hm, hhw] at hl
    obtain ⟨e, he, htype, hhandle, howner⟩ := h.locks m' lock hl hne
    refine ⟨e, hkeep e he fun e' he' hm' haddr => ?_, htype, hhandle, howner⟩
    obtain rfl : e' = e := List.inj_on_of_nodup_map h.addrs he' he haddr
    rw [hm'] at howner
    rcases howner with howner | howner
    · exact hm (Option.some.inj howner).symm
    · cases howner

theorem mapCall_inv {c : MapCall} (h : MapInv s) (hclean : c.Clean cfg s)
    (hc : mapCall cfg s c t) : MapInv t := by
  cases c with
  | addmap r ret => exact addmap_inv h hc.1 hclean hc.2
  | rmmap addr idMem =>
    obtain ⟨ret, hc⟩ := hc
    exact rmmap_inv h hclean hc
  | gemHandle list idMem =>
    obtain ⟨ret, idrp, -, rfl⟩ := hc
    exact ⟨h.addrs, h.locks⟩
  | gemRelease token idMem =>
    obtain ⟨ret, idrp, -, rfl⟩ := hc
    exact ⟨h.addrs, h.locks⟩
  | masterCreate m =>
    obtain ⟨-, rfl⟩ := hc
    exact h.setLock m
  | setPrimary m =>
    obtain ⟨-, rfl⟩ := hc
    exact ⟨h.addrs, h.locks⟩
  | masterRelease m =>
    obtain ⟨-, rfl⟩ := hc
    exact h.setLock m
  | masterDestroy m idMem => exact masterDestroy_inv h hc.2

/-- **`drm_addmap_core` is atomic and `hw_lock` points to a map, when calls are clean**: a call that
returns an error leaves `maplist`, the ids in use and `hw_lock` as they were exactly when the request
does not fail late; and in every state of a run of clean calls a `hw_lock` that is not null is the
handle of a `_DRM_SHM` map on `maplist`. -/
theorem maps_clean (cfg : MapConfig) :
    (∀ s r ret t, drmAddmapCore cfg s r = some (ret, t) → ret ≠ 0 →
      (s.Unchanged t ↔ ¬ r.Late cfg s)) ∧
    ∀ cs s, MapRun cfg mapInit cs s → s.LocksMapped := by
  refine ⟨fun s r ret t => addmap_unchanged_iff, fun cs s hr m lock hl hne => ?_⟩
  have h : MapInv s := hr.inv mapInit_inv fun _ _ _ hi hs => mapCall_inv hi hs.1 hs.2
  obtain ⟨e, he, htype, hhandle, -⟩ := h.locks m lock hl hne
  exact ⟨e, he, htype, hhandle⟩

/-- A device without AGP and scatter-gather memory. -/
def plainDevice : MapConfig := ⟨none, none⟩

/-- A master that is the primary one's. -/
def oneMaster : MapDev :=
  { mapInit with primaryMaster := some 1, hwLock := Function.update (fun _ => none) 1 (some 0) }

theorem oneMaster_run : MapRun plainDevice mapInit [.masterCreate 1, .setPrimary (some 1)] oneMaster := by
  have h1 : MapRun plainDevice mapInit _ (mapInit.setHwLock 1 0) :=
    Run.snoc (l := MapCall.masterCreate 1) .nil ⟨trivial, rfl, rfl⟩
  refine Run.snoc (l := MapCall.setPrimary (some 1)) h1 ⟨trivial, fun m' hm => ?_, rfl⟩
  cases hm
  rfl

/-- A removable SAREA, with what the allocation of its id answers. -/
def sarea (idMem : Bool) : AddmapReq where
  offset := 0
  size := 0x2000
  type := .shm
  flags := drmContainsLock ||| drmRemovable
  mapMem := some 10
  space := 0xff000000
  cookie := true
  listMem := some 11
  idMem := idMem

/-- The entry of the SAREA. -/
def sareaEntry : DrmMapList := ⟨11, 10, ⟨0xff000000, 0x2000, .shm, 0x60, 0xff000000⟩, 0x1000, some 1⟩

/-- The device after the SAREA is mapped. -/
def sareaMapped : MapDev where
  maplist := [sareaEntry]
  mapIdr := ⟨[⟨1, some 11⟩], [⟨0, 1, 0, []⟩, ⟨1, idMax, 2, []⟩]⟩
  primaryMaster := some 1
  hwLock := Function.update oneMaster.hwLock 1 (some 0xff000000)

theorem sarea_mapped : drmAddmapCore plainDevice oneMaster (sarea true) = some (0, sareaMapped) :=
  rfl

/-- A second lock, in other memory. -/
def secondLock : AddmapReq :=
  { sarea true with mapMem := some 12, space := 0xfe000000, listMem := some 13 }

/-- The SAREA is mapped, and a request for a second lock fails early. -/
theorem maps_clean_sarea :
    ∃ s, MapRun plainDevice mapInit
        [.masterCreate 1, .setPrimary (some 1), .addmap (sarea true) 0] s ∧
      s.hwLock 1 = some 0xff000000 ∧ s.LocksMapped ∧
      ∃ t, drmAddmapCore plainDevice s secondLock = some (-EBUSY, t) ∧
        ¬ secondLock.Late plainDevice s ∧ s.Unchanged t := by
  have hclean : ¬ (sarea true).Late plainDevice oneMaster := by
    have hid : drmMapHandle oneMaster.mapIdr 11 true = some (.ok 0x1000, sareaMapped.mapIdr) := rfl
    rintro ⟨s', map, hp, ⟨hnone, -⟩ | ⟨list, ret, idrp, hlist, hhandle⟩⟩
    · cases hnone
    · cases hlist
      cases hid.symm.trans hhandle
  have hr : MapRun plainDevice mapInit _ sareaMapped :=
    Run.snoc (l := MapCall.addmap (sarea true) 0) oneMaster_run
      ⟨hclean, fun e he => absurd he List.not_mem_nil, sarea_mapped⟩
  have hearly : ¬ secondLock.Late plainDevice sareaMapped := by
    have hbusy : addmapPrepare plainDevice sareaMapped secondLock = some (.fail (-EBUSY)) := rfl
    intro h
    obtain ⟨s', map, hp, -⟩ := h
    cases hbusy.symm.trans hp
  exact ⟨_, hr, rfl, (maps_clean _).2 _ _ hr, _, rfl, hearly,
    ((maps_clean _).1 _ _ _ _ rfl (by decide)).2 hearly⟩

/-- Without an id the entry of the SAREA is freed, but it stays on `maplist` and `hw_lock` points to
its map; and the removal of the SAREA leaves `hw_lock` as well. -/
theorem sarea_lock_stays :
    (∃ t, drmAddmapCore plainDevice oneMaster (sarea false) = some (-ENOMEM, t) ∧
      t.maplist.length = 1 ∧ t.hwLock 1 = some 0xff000000 ∧ ¬ oneMaster.Unchanged t) ∧
    ∃ t, drmRmmapLocked sareaMapped 10 true = some (0, t) ∧ t.maplist = [] ∧
      t.hwLock 1 = some 0xff000000 ∧ ¬ t.LocksMapped := by
  refine ⟨⟨_, rfl, rfl, rfl, fun h => ?_⟩, _, rfl, rfl, rfl, fun hmapped => ?_⟩
  · have hsame := congrFun h.hwLock 1
    exact absurd hsame (by decide)
  · obtain ⟨e, he, -⟩ := hmapped 1 0xff000000 rfl (by decide)
    exact absurd he List.not_mem_nil

end Drm
