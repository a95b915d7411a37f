import Mathlib.Data.List.Nodup
import SolarisXorg.Drm.Proof.IdrRun

/-!
# Calls on any idr

What a call changes when nothing is known of the free ranges, so that also an idr that has lost ids
is covered. `GetNewAbove` lists the ends of `idr_get_new_above`. From it come the tree of used ids as
a map (`getNewAbove_ok`, `getNewAbove_error`, `replace_store`, `remove_store`), that no id is in the
tree twice (`ids_nodup_run`), and that all ids are below 0x7fffffff (`ids_lt_run`).
-/

namespace Drm

variable {α : Type} {idr idr' : Idr α} {id j : Nat} {obj : Option α}

theorem avlFind_orderedInsert {used : List (UsedId α)} {u : UsedId α}
    (h : avlFind used u.id = none) :
    avlFind (used.orderedInsert idrCompare u) j = if u.id = j then some u else avlFind used j := by
  induction used with
  | nil =>
    by_cases hj : u.id = j
    · simp [avlFind, hj]
    · simp [avlFind, hj]
  | cons v used ih =>
    have hv : v.id ≠ u.id := by
      intro hv
      simp [avlFind, hv] at h
    have h' : avlFind used u.id = none := by
      simpa [avlFind, List.find?_cons, hv] using h
    rw [List.orderedInsert]
    split
    · by_cases hj : u.id = j
      · simp [avlFind, hj]
      · simp [avlFind, List.find?_cons, hj]
    · by_cases hj : v.id = j
      · subst hj
        simp [avlFind, hv.symm]
      · have hcons : ∀ l, avlFind (v :: l) j = avlFind l j := by
          intro l
          simp [avlFind, hj]
        rw [hcons, hcons]
        exact ih h'

theorem avlFind_avlRemove {used : List (UsedId α)} {u : UsedId α} (h : j ≠ u.id) :
    avlFind (avlRemove used u) j = avlFind used j := by
  induction used with
  | nil => rfl
  | cons v used ih =>
    by_cases hv : v.id = u.id
    · have hj : v.id ≠ j := fun hvj => h (hvj.symm.trans hv)
      simp [avlRemove, avlFind, hv, (hv ▸ hj : u.id ≠ j)]
    · have hcons : avlRemove (v :: used) u = v :: avlRemove used u := by
        simp [avlRemove, hv]
      rw [hcons]
      simp only [avlFind, List.find?_cons] at ih ⊢
      rw [ih]

/-- How `idr_get_new_above` ends. -/
inductive GetNewAbove (idr : Idr α) (obj : Option α) (start : Int32) (mem : Bool) :
    Except Int Nat → Idr α → Prop
  | negative : start.toInt < 0 → GetNewAbove idr obj start mem (.error (-EINVAL)) idr
  | full {ranges : List FreeIdRange} {k : Nat} :
      frEnsure idr.freeIdRanges start.toInt.toNat = some (ranges, k) →
      idrTakeId (ranges.drop k) = none →
      GetNewAbove idr obj start mem (.error (-1)) { idr with freeIdRanges := ranges }
  | got {ranges rest : List FreeIdRange} {k id : Nat} :
      frEnsure idr.freeIdRanges start.toInt.toNat = some (ranges, k) →
      idrTakeId (ranges.drop k) = some (id, rest) → avlFind idr.usedIds id = none →
      GetNewAbove idr obj start mem (.ok id)
        { freeIdRanges := ranges.take k ++ rest
          usedIds := idr.usedIds.orderedInsert idrCompare ⟨id, obj⟩ }
  | lost {ranges rest : List FreeIdRange} {k id : Nat} :
      frEnsure idr.freeIdRanges start.toInt.toNat = some (ranges, k) →
      idrTakeId (ranges.drop k) = some (id, rest) →
      GetNewAbove idr obj start mem (.error (-ENOMEM))
        { idr with freeIdRanges := ranges.take k ++ rest }

theorem getNewAbove_ends {start : Int32} {mem : Bool} {ret : Except Int Nat}
    (h : idrGetNewAbove idr obj start mem = some (ret, idr')) :
    GetNewAbove idr obj start mem ret idr' := by
  unfold idrGetNewAbove at h
  split at h
  case isTrue hneg =>
    cases h
    exact .negative hneg
  case isFalse =>
    obtain ⟨⟨ranges, k⟩, hensure, h⟩ := Option.bind_eq_some_iff.1 h
    dsimp only at h
    split at h
    case h_1 hfull =>
      cases h
      exact .full hensure hfull
    case h_2 id rest htake =>
      split at h
      · obtain ⟨used, hadd, h⟩ := Option.bind_eq_some_iff.1 h
        unfold avlAdd at hadd
        split at hadd
        · cases hadd
        case isFalse hfree =>
          cases hadd
          cases h
          exact .got hensure htake (by simpa using hfree)
      · cases h
        exact .lost hensure htake

/-- A new id is one that was not used. -/
theorem getNewAbove_ok {start : Int32} {mem : Bool}
    (h : idrGetNewAbove idr obj start mem = some (.ok id, idr')) :
    idr.store id = none ∧ idr'.store = Function.update idr.store id (some obj) ∧
      (idr.ids.Nodup → idr'.ids.Nodup) := by
  cases getNewAbove_ends h with
  | got hensure htake hnone =>
    refine ⟨by simp [Idr.store, hnone], ?_, fun hn => ?_⟩
    · funext j
      simp only [Idr.store, avlFind_orderedInsert (u := ⟨id, obj⟩) hnone]
      by_cases hj : j = id
      · subst hj
        simp
      · rw [if_neg (Ne.symm hj), Function.update_of_ne hj]
        rfl
    · have hperm := (List.perm_orderedInsert idrCompare ⟨id, obj⟩ idr.usedIds).map UsedId.id
      exact hperm.nodup_iff.2 (List.nodup_cons.2 ⟨avlFind_eq_none_iff.1 hnone, hn⟩)

theorem getNewAbove_error {start : Int32} {mem : Bool} {e : Int}
    (h : idrGetNewAbove idr obj start mem = some (.error e, idr')) :
    idr'.usedIds = idr.usedIds ∧ e ≠ 0 := by
  cases getNewAbove_ends h with
  | negative => exact ⟨rfl, by decide⟩
  | full => exact ⟨rfl, by decide⟩
  | lost => exact ⟨rfl, by decide⟩

theorem replace_store (obj : Option α) (h : idr.store id ≠ none) :
    (idrReplace idr obj id).2.store = Function.update idr.store id (some obj) ∧
      (idrReplace idr obj id).2.ids = idr.ids := by
  obtain ⟨u, hu⟩ : ∃ u, avlFind idr.usedIds id = some u := by
    rw [← Option.isSome_iff_exists]
    simpa [Idr.store, Option.isSome_iff_ne_none] using h
  simp only [idrReplace, hu]
  constructor
  · funext j
    simp only [Idr.store, avlFind, List.find?_map]
    have hcomp : ((fun x : UsedId α => x.id == j) ∘
        fun u => if u.id == id then { u with obj := obj } else u) = fun x => x.id == j := by
      funext x
      by_cases hx : x.id = id <;> simp [hx]
    rw [hcomp]
    by_cases hj : j = id
    · subst hj
      have hfind : idr.usedIds.find? (fun x => x.id == j) = some u := hu
      have hid : u.id = j := by simpa using List.find?_some hfind
      simp [hfind, hid]
    · have hst : idr.store j = (idr.usedIds.find? (fun x => x.id == j)).map (·.obj) := rfl
      rw [Function.update_of_ne hj, hst]
      cases hf : idr.usedIds.find? (fun x => x.id == j) with
      | none => rfl
      | some v =>
        have hv : v.id = j := by simpa using List.find?_some hf
        simp [hv, hj]
  · simp only [Idr.ids, List.map_map]
    apply List.map_congr_left
    intro x _
    by_cases hx : x.id = id <;> simp [hx]

/-- `idr_remove` touches its own id only; with memory it takes a used id out. -/
theorem remove_store {mem : Bool} {ret : Int} (h : idrRemove idr id mem = some (ret, idr')) :
    (∀ j, j ≠ id → idr'.store j = idr.store j) ∧
      (idr.ids.Nodup → idr'.ids.Nodup ∧ (mem = true → idr'.store id = none)) := by
  unfold idrRemove at h
  cases hf : avlFind idr.usedIds id with
  | none =>
    simp only [hf] at h
    cases h
    exact ⟨fun _ _ => rfl, fun hn => ⟨hn, fun _ => by simp [Idr.store, hf]⟩⟩
  | some u =>
    simp only [hf] at h
    obtain ⟨hmem, rfl⟩ := avlFind_eq_some hf
    cases mem with
    | false =>
      cases h
      exact ⟨fun _ _ => rfl, fun hn => ⟨hn, fun hm => by cases hm⟩⟩
    | true =>
      simp only [if_true, Option.bind_eq_bind, Option.bind_eq_some_iff] at h
      obtain ⟨ranges, -, hs⟩ := h
      cases hs
      refine ⟨fun j hj => ?_, fun hn => ⟨?_, fun _ => ?_⟩⟩
      · simp only [Idr.store, avlFind_avlRemove hj]
      · exact hn.sublist (List.Sublist.map _ (List.eraseP_sublist (l := idr.usedIds)))
      · have : avlFind (avlRemove idr.usedIds u) u.id = none := by
          rw [avlFind_eq_none_iff, List.mem_map]
          rintro ⟨v, hv, hvu⟩
          exact ((mem_avlRemove hn hmem).1 hv).2 hvu
        simp [Idr.store, this]

/-- No call gives an id away twice. -/
theorem idrCall_nodup {c : IdrCall α} (h : idr.ids.Nodup) (hc : idrCall idr c idr') :
    idr'.ids.Nodup := by
  cases c with
  | getNewAbove obj start mem ret =>
    cases ret with
    | error err =>
      rw [Idr.ids, (getNewAbove_error hc).1]
      exact h
    | ok id => exact (getNewAbove_ok hc).2.2 h
  | remove id mem ret => exact ((remove_store hc).2 h).1
  | replace obj id ret =>
    have hidr : (idrReplace idr obj id).2 = idr' := congrArg Prod.snd hc
    rw [← hidr]
    cases hs : idr.store id with
    | none =>
      have hfind : avlFind idr.usedIds id = none := by simpa [Idr.store] using hs
      simpa only [idrReplace, hfind] using h
    | some old =>
      rw [(replace_store obj (by simp [hs])).2]
      exact h
  | removeAll =>
    cases hc
    exact List.nodup_nil

/-- **No id is in the tree twice**, whatever calls were made. -/
theorem ids_nodup_run {ls : List (IdrCall α)} (hr : Lib.Run idrCall idrInit ls idr) :
    idr.ids.Nodup := by
  have hnodup : ∀ (s : Idr α) c t, s.ids.Nodup → idrCall s c t → t.ids.Nodup :=
    fun _ _ _ h hc => idrCall_nodup h hc
  exact hr.inv (I := fun s => s.ids.Nodup) List.nodup_nil hnodup

/-! ## The largest id -/

/-- The range lies below 0x7fffffff, and so do the ids that were put back. -/
structure FreeIdRange.Below (r : FreeIdRange) : Prop where
  start : r.start ≤ idMax
  stop : r.stop ≤ idMax
  free : ∀ id ∈ r.freeIds, id < idMax

/-- And all ranges and ids of an idr. -/
structure Idr.Below (idr : Idr α) : Prop where
  ranges : ∀ r ∈ idr.freeIdRanges, r.Below
  ids : ∀ id ∈ idr.ids, id < idMax

theorem frLinked_below {start : Nat} {next : Option FreeIdRange} (h : start ≤ idMax)
    (hnext : ∀ r, next = some r → r.Below) : (frLinked start next).Below := by
  cases next with
  | none => exact ⟨h, Nat.le_refl _, by simp [frLinked, frNew]⟩
  | some r => exact ⟨h, (hnext r rfl).start, by simp [frLinked, frNew]⟩

theorem frSplit_below {prev : FreeIdRange} {next : Option FreeIdRange} {start : Nat}
    (h : start ≤ idMax) (hprev : prev.Below) (hnext : ∀ r, next = some r → r.Below) :
    (frSplit prev next start).1.Below ∧ (frSplit prev next start).2.Below := by
  have hn := frLinked_below h hnext
  unfold frSplit
  dsimp only
  split
  · refine ⟨⟨hprev.start, h, fun id hid => ?_⟩, ⟨hn.start, hn.stop, fun id hid => ?_⟩⟩
    · rw [frMoveIds_fst] at hid
      exact hprev.free id (List.mem_filter.1 hid).1
    · rw [frMoveIds_snd, List.mem_append, List.mem_reverse] at hid
      rcases hid with hid | hid
      · exact hprev.free id (List.mem_filter.1 hid).1
      · exact hn.free id hid
  · exact ⟨⟨hprev.start, h, hprev.free⟩, hn⟩

theorem frInsert_below {rs rs' : List FreeIdRange} {start k : Nat} (h : start ≤ idMax)
    (hrs : ∀ r ∈ rs, r.Below) (hi : frInsert rs start = some (rs', k)) : ∀ r ∈ rs', r.Below := by
  induction rs generalizing rs' k with
  | nil => cases hi
  | cons prev rest ih =>
    have hprev := hrs prev List.mem_cons_self
    cases rest with
    | nil =>
      have hnone : ∀ r, (none : Option FreeIdRange) = some r → r.Below := fun r hr => by cases hr
      have hsplit := frSplit_below h hprev hnone
      cases hi
      intro r hr
      simp only [List.mem_cons, List.not_mem_nil, or_false] at hr
      rcases hr with rfl | rfl
      · exact hsplit.1
      · exact hsplit.2
    | cons next rest =>
      have hrest : ∀ r ∈ next :: rest, r.Below := fun r hr => hrs r (List.mem_cons_of_mem _ hr)
      rw [frInsert] at hi
      split at hi
      · obtain ⟨⟨rs2, k2⟩, hrec, hpair⟩ := Option.map_eq_some_iff.1 hi
        cases hpair
        intro r hr
        rcases List.mem_cons.1 hr with rfl | hr
        · exact hprev
        · exact ih hrest hrec r hr
      · have hnext : ∀ r, some next = some r → r.Below := by
          rintro r ⟨⟩
          exact hrest next List.mem_cons_self
        have hsplit := frSplit_below h hprev hnext
        cases hi
        intro r hr
        rcases List.mem_cons.1 hr with rfl | hr
        · exact hsplit.1
        · rcases List.mem_cons.1 hr with rfl | hr
          · exact hsplit.2
          · exact hrest r hr

theorem frEnsure_below {rs rs' : List FreeIdRange} {start k : Nat} (h : start ≤ idMax)
    (hrs : ∀ r ∈ rs, r.Below) (he : frEnsure rs start = some (rs', k)) : ∀ r ∈ rs', r.Below := by
  unfold frEnsure at he
  cases hg : frGet rs start with
  | some k =>
    simp only [hg] at he
    cases he
    exact hrs
  | none =>
    simp only [hg] at he
    exact frInsert_below h hrs he

theorem getFreeId_below {r r' : FreeIdRange} (hr : r.Below)
    (hg : idrGetFreeIdInRange r = some (id, r')) : id < idMax ∧ r'.Below := by
  unfold idrGetFreeIdInRange at hg
  split at hg
  case h_1 id ids hfree =>
    cases hg
    have hids : ∀ x ∈ id :: ids, x < idMax := hfree ▸ hr.free
    exact ⟨hids id List.mem_cons_self,
      ⟨hr.start, hr.stop, fun x hx => hids x (List.mem_cons_of_mem _ hx)⟩⟩
  case h_2 hfree =>
    split at hg
    · cases hg
    case isFalse hfull =>
      cases hg
      have hlt : r.minUnusedId < r.stop := by simpa [frIsfull] using hfull
      exact ⟨hlt.trans_le hr.stop, ⟨hr.start, hr.stop, hr.free⟩⟩

theorem idrTakeId_below {rs rs' : List FreeIdRange} (hrs : ∀ r ∈ rs, r.Below)
    (ht : idrTakeId rs = some (id, rs')) : id < idMax ∧ ∀ r ∈ rs', r.Below := by
  induction rs generalizing rs' with
  | nil => cases ht
  | cons r rs ih =>
    have hrest : ∀ r ∈ rs, r.Below := fun r hr => hrs r (List.mem_cons_of_mem _ hr)
    have hr := hrs r List.mem_cons_self
    unfold idrTakeId at ht
    split at ht
    case h_1 hg =>
      cases ht
      obtain ⟨hlt, hr'⟩ := getFreeId_below hr hg
      exact ⟨hlt, List.forall_mem_cons.2 ⟨hr', hrest⟩⟩
    case h_2 =>
      obtain ⟨⟨id2, rs2⟩, hrec, hpair⟩ := Option.map_eq_some_iff.1 ht
      cases hpair
      obtain ⟨hlt, hrs2⟩ := ih hrest hrec
      exact ⟨hlt, List.forall_mem_cons.2 ⟨hr, hrs2⟩⟩

theorem idrPutId_below {rs rs' : List FreeIdRange} (hid : id < idMax) (hrs : ∀ r ∈ rs, r.Below)
    (hp : idrPutId id rs = some rs') : ∀ r ∈ rs', r.Below := by
  induction rs generalizing rs' with
  | nil => cases hp
  | cons r rs ih =>
    have hrest : ∀ r ∈ rs, r.Below := fun r hr => hrs r (List.mem_cons_of_mem _ hr)
    have hr := hrs r List.mem_cons_self
    unfold idrPutId at hp
    split at hp
    · obtain ⟨rs2, hrec, rfl⟩ := Option.map_eq_some_iff.1 hp
      exact List.forall_mem_cons.2 ⟨hr, ih hrest hrec⟩
    · cases hp
      exact List.forall_mem_cons.2
        ⟨⟨hr.start, hr.stop, List.forall_mem_cons.2 ⟨hid, hr.free⟩⟩, hrest⟩

theorem getNewAbove_below {start : Int32} {mem : Bool} {ret : Except Int Nat} (h : idr.Below)
    (hg : idrGetNewAbove idr obj start mem = some (ret, idr')) : idr'.Below := by
  have hstart : start.toInt.toNat ≤ idMax := by
    have := Int32.toInt_lt start
    simp only [idMax]
    omega
  have htaken : ∀ {ranges rest : List FreeIdRange} {k id : Nat},
      frEnsure idr.freeIdRanges start.toInt.toNat = some (ranges, k) →
      idrTakeId (ranges.drop k) = some (id, rest) →
        id < idMax ∧ ∀ r ∈ ranges.take k ++ rest, r.Below := by
    intro ranges rest k id hensure htake
    have hranges := frEnsure_below hstart h.ranges hensure
    obtain ⟨hid, hrest⟩ := idrTakeId_below (fun r hr => hranges r (List.mem_of_mem_drop hr)) htake
    refine ⟨hid, fun r hr => ?_⟩
    rcases List.mem_append.1 hr with hr | hr
    · exact hranges r (List.mem_of_mem_take hr)
    · exact hrest r hr
  cases getNewAbove_ends hg with
  | negative => exact h
  | full hensure => exact ⟨frEnsure_below hstart h.ranges hensure, h.ids⟩
  | @got ranges rest k id hensure htake =>
    obtain ⟨hid, hall⟩ := htaken hensure htake
    refine ⟨hall, fun x hx => ?_⟩
    have hperm := (List.perm_orderedInsert idrCompare ⟨id, obj⟩ idr.usedIds).map UsedId.id
    rcases List.mem_cons.1 (hperm.mem_iff.1 hx) with rfl | hx
    · exact hid
    · exact h.ids x hx
  | lost hensure htake => exact ⟨(htaken hensure htake).2, h.ids⟩

theorem remove_below {mem : Bool} {ret : Int} (h : idr.Below)
    (hrem : idrRemove idr id mem = some (ret, idr')) : idr'.Below := by
  unfold idrRemove at hrem
  split at hrem
  · cases hrem
    exact h
  case h_2 u hfind =>
    split at hrem
    · obtain ⟨ranges, hput, hpair⟩ := Option.bind_eq_some_iff.1 hrem
      cases hpair
      obtain ⟨hmem, rfl⟩ := avlFind_eq_some hfind
      have hid : u.id < idMax := h.ids u.id (List.mem_map_of_mem hmem)
      refine ⟨idrPutId_below hid h.ranges hput, fun x hx => h.ids x ?_⟩
      exact (List.Sublist.map UsedId.id (List.eraseP_sublist (l := idr.usedIds))).subset hx
    · cases hrem
      exact h

theorem replace_below (h : idr.Below) (obj : Option α) (id : Nat) :
    (idrReplace idr obj id).2.Below := by
  cases hs : idr.store id with
  | none =>
    have hfind : avlFind idr.usedIds id = none := by simpa [Idr.store] using hs
    simpa only [idrReplace, hfind] using h
  | some old =>
    refine ⟨?_, ?_⟩
    · unfold idrReplace
      split <;> exact h.ranges
    · rw [(replace_store obj (by simp [hs])).2]
      exact h.ids

theorem idrInit_below : (idrInit : Idr α).Below where
  ranges r hr := by
    rw [idrInit, List.mem_singleton] at hr
    subst hr
    exact ⟨Nat.zero_le _, Nat.le_refl _, by simp [frNew]⟩
  ids id hid := by cases hid

theorem idrCall_below {c : IdrCall α} (h : idr.Below) (hc : idrCall idr c idr') : idr'.Below := by
  cases c with
  | getNewAbove obj start mem ret => exact getNewAbove_below h hc
  | remove id mem ret => exact remove_below h hc
  | replace obj id ret =>
    have hidr : (idrReplace idr obj id).2 = idr' := congrArg Prod.snd hc
    exact hidr ▸ replace_below h obj id
  | removeAll =>
    cases hc
    exact idrInit_below

/-- **All ids are below 0x7fffffff**, whatever calls were made. -/
theorem ids_lt_run {ls : List (IdrCall α)} (hr : Lib.Run idrCall idrInit ls idr) :
    ∀ id ∈ idr.ids, id < idMax := by
  have hbelow : ∀ (s : Idr α) c t, s.Below → idrCall s c t → t.Below :=
    fun _ _ _ h hc => idrCall_below h hc
  exact (hr.inv (I := Idr.Below) idrInit_below hbelow).ids

end Drm
