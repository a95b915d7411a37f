import SolarisXorg.Drm.Proof.IdrRanges

/-!
# Runs of an idr

`IdrInv` is the representation invariant of `struct idr`: the ranges tile `[0, 0x7fffffff)` and
account for every id once. Every call keeps it except an `idr_get_new_above` that takes an id and
then fails to allocate the used node (`getNewAbove_spec`). `idr_run` carries it to every run
without such a call, together with the simulation: the tree of used ids is the map `lastStored`
computes from the calls alone. `idr_partitions_ids` and `idr_get_new_above_succeeds_iff` are what
the users of an idr rely on.
-/

namespace Drm

open Lib

variable {α : Type}

/-! ## The tree of used ids -/

/-- The ids of the tree, in its order. -/
def Idr.ids (idrp : Idr α) : List Nat := idrp.usedIds.map (·.id)

theorem Idr.used_iff {idrp : Idr α} {id : Nat} : idrp.Used id ↔ id ∈ idrp.ids := by
  simp [Idr.Used, Idr.ids]

theorem avlFind_eq_none_iff {used : List (UsedId α)} {id : Nat} :
    avlFind used id = none ↔ id ∉ used.map (·.id) := by
  simp [avlFind, List.find?_eq_none]

theorem avlFind_eq_some {used : List (UsedId α)} {id : Nat} {u : UsedId α}
    (h : avlFind used id = some u) : u ∈ used ∧ u.id = id :=
  ⟨List.mem_of_find?_eq_some h, by simpa using List.find?_some h⟩

theorem avlFind_of_mem {used : List (UsedId α)} {u : UsedId α} (hn : (used.map (·.id)).Nodup)
    (hu : u ∈ used) : avlFind used u.id = some u := by
  induction used with
  | nil => simp at hu
  | cons v used ih =>
    simp only [List.map_cons, List.nodup_cons] at hn
    unfold avlFind
    rcases List.mem_cons.mp hu with rfl | hu
    · simp
    · have hne : v.id ≠ u.id := fun e => hn.1 (e ▸ List.mem_map_of_mem hu)
      rw [List.find?_cons_of_neg (by simpa using hne)]
      exact ih hn.2 hu

/-- Removing the node of an id leaves the nodes of the other ids. -/
theorem mem_avlRemove {used : List (UsedId α)} {u v : UsedId α} (hn : (used.map (·.id)).Nodup)
    (hu : u ∈ used) : v ∈ avlRemove used u ↔ v ∈ used ∧ v.id ≠ u.id := by
  induction used with
  | nil => simp at hu
  | cons w used ih =>
    simp only [List.map_cons, List.nodup_cons] at hn
    unfold avlRemove
    by_cases hw : w.id = u.id
    · rw [List.eraseP_cons_of_pos (by simpa using hw)]
      constructor
      · intro hv
        exact ⟨.tail _ hv, fun e => hn.1 (hw.trans e.symm ▸ List.mem_map_of_mem hv)⟩
      · rintro ⟨hv, hne⟩
        rcases List.mem_cons.mp hv with rfl | hv
        · exact absurd hw hne
        · exact hv
    · rw [List.eraseP_cons_of_neg (by simpa using hw), List.mem_cons, List.mem_cons]
      have hu' : u ∈ used := by
        rcases List.mem_cons.mp hu with rfl | hu
        · exact absurd rfl hw
        · exact hu
      constructor
      · rintro (rfl | hv)
        · exact ⟨.inl rfl, hw⟩
        · obtain ⟨h1, h2⟩ := (ih hn.2 hu').1 hv
          exact ⟨.inr h1, h2⟩
      · rintro ⟨rfl | hv, hne⟩
        · exact .inl rfl
        · exact .inr ((ih hn.2 hu').2 ⟨hv, hne⟩)

/-! ## The invariant -/

/-- The representation invariant of `struct idr`. -/
structure IdrInv (idrp : Idr α) : Prop where
  tiles : Tiles 0 idrp.freeIdRanges idMax
  sorted : (idrp.freeIdRanges.map (·.start)).Pairwise (· < ·)
  ranges : ∀ r ∈ idrp.freeIdRanges, RangeInv (fun id => idrp.ids.count id) r
  used : ∀ id ∈ idrp.ids, id < idMax

theorem Tiles.exists_mem {rs : List FreeIdRange} {a b id : Nat} (h : Tiles a rs b) (h1 : a ≤ id)
    (h2 : id < b) : ∃ r ∈ rs, r.start ≤ id ∧ id < r.stop := by
  induction rs generalizing a with
  | nil => have : a = b := h; omega
  | cons r rs ih =>
    rcases Nat.lt_or_ge id r.stop with hlt | hge
    · exact ⟨r, .head _, by have := h.1; omega, hlt⟩
    · obtain ⟨r', hm, hb⟩ := ih h.2 hge
      exact ⟨r', .tail _ hm, hb⟩

/-- No id is used twice. -/
theorem IdrInv.nodup {idrp : Idr α} (h : IdrInv idrp) : idrp.ids.Nodup := by
  rw [List.nodup_iff_count_le_one]
  intro id
  by_cases hid : id ∈ idrp.ids
  · obtain ⟨r, hm, h1, h2⟩ := h.tiles.exists_mem (Nat.zero_le id) (h.used id hid)
    have := (h.ranges r hm).once id h1 h2
    split at this <;> omega
  · rw [List.count_eq_zero_of_not_mem hid]
    omega

theorem idrInit_inv : IdrInv (idrInit : Idr α) where
  tiles := ⟨rfl, rfl⟩
  sorted := by simp [idrInit]
  ranges r hr := by
    simp only [idrInit, List.mem_singleton] at hr
    subst hr
    exact ⟨Nat.le_refl _, by decide, by simp [frNew], by simp [frNew, Idr.ids, idrInit]⟩
  used id hid := by simp [Idr.ids, idrInit] at hid

/-! ## The calls -/

/-- What `idr_get_new_above` does on a well-formed idr. -/
theorem getNewAbove_spec {idrp : Idr α} (h : IdrInv idrp) (obj : Option α) (start : Int32)
    (mem : Bool) :
    ∃ ret idrp', idrGetNewAbove idrp obj start mem = some (ret, idrp') ∧
      ((start.toInt < 0 ∧ ret = .error (-EINVAL) ∧ idrp' = idrp) ∨
       ((∀ id : Nat, start.toInt ≤ id → id < idMax → idrp.Used id) ∧ ret = .error (-1) ∧
          IdrInv idrp' ∧ idrp'.usedIds = idrp.usedIds) ∨
       (∃ id : Nat, 0 ≤ start.toInt ∧ start.toInt ≤ id ∧ id < idMax ∧ ¬ idrp.Used id ∧
          ((mem = true ∧ ret = .ok id ∧ IdrInv idrp' ∧
              idrp'.usedIds = idrp.usedIds.orderedInsert idrCompare { id := id, obj := obj }) ∨
            (mem = false ∧ ret = .error (-ENOMEM) ∧ idrp'.usedIds = idrp.usedIds)))) := by
  unfold idrGetNewAbove
  by_cases hneg : start.toInt < 0
  · rw [if_pos hneg]
    exact ⟨_, _, rfl, .inl ⟨hneg, rfl, rfl⟩⟩
  rw [if_neg hneg]
  have hmax : start.toInt.toNat ≤ idMax := by
    have := Int32.toInt_lt start
    simp only [idMax]
    omega
  obtain ⟨ranges, k, e1, e2, e3, e4, e5⟩ := frEnsure_spec h.tiles h.sorted h.ranges hmax
  have hdrop : ∀ r ∈ ranges.drop k, RangeInv (fun id => idrp.ids.count id) r :=
    fun r hr => e5 r (List.mem_of_mem_drop hr)
  simp only [e1, Option.bind_eq_bind, Option.bind_some]
  cases hg : idrTakeId (ranges.drop k) with
  | none =>
    refine ⟨_, _, rfl, .inr (.inl ⟨fun id h1 h2 => ?_, rfl, ⟨?_, e4, e5, h.used⟩, rfl⟩)⟩
    · have := idrTakeId_none e3 hdrop hg (show start.toInt.toNat ≤ id by omega) h2
      exact Idr.used_iff.2 (List.count_pos_iff.1 (by omega))
    · show Tiles 0 ranges idMax
      rw [← List.take_append_drop k ranges]
      exact e2.append e3
  | some q =>
    obtain ⟨id, rest⟩ := q
    obtain ⟨h1, h2, h3, h4, h5, h6⟩ := idrTakeId_some e3 hdrop hg
    have hnew : id ∉ idrp.ids := List.count_eq_zero.1 h3
    have hnu : ¬ idrp.Used id := fun hu => hnew (Idr.used_iff.1 hu)
    have hlow : start.toInt ≤ (id : Int) := by omega
    cases mem with
    | false =>
      refine ⟨.error (-ENOMEM), { idrp with freeIdRanges := ranges.take k ++ rest }, by simp, ?_⟩
      exact .inr (.inr ⟨id, by omega, hlow, h2, hnu, .inr ⟨rfl, rfl, rfl⟩⟩)
    | true =>
      have hadd : avlAdd idrp.usedIds { id := id, obj := obj } =
          some (idrp.usedIds.orderedInsert idrCompare { id := id, obj := obj }) := by
        unfold avlAdd
        rw [if_neg]
        rw [avlFind_eq_none_iff.2 hnew]
        simp
      simp only [hadd, Option.bind_some, ↓reduceIte]
      refine ⟨_, _, rfl, .inr (.inr ⟨id, by omega, hlow, h2, hnu, .inl ⟨trivial, rfl, ?_, rfl⟩⟩)⟩
      -- the new tree has the ids of the old one and `id`
      have hids : ∀ x, (List.map (·.id) (idrp.usedIds.orderedInsert idrCompare
          { id := id, obj := obj })).count x = Function.update (fun y => idrp.ids.count y) id 1 x := by
        intro x
        rw [((List.perm_orderedInsert idrCompare _ idrp.usedIds).map _).count_eq]
        show (id :: idrp.ids).count x = _
        by_cases hx : x = id
        · subst hx
          simp [List.count_eq_zero_of_not_mem hnew]
        · rw [Function.update_of_ne hx, List.count_cons_of_ne fun e => hx e.symm]
      refine ⟨e2.append h4, ?_, fun r hr => ?_, fun x hx => ?_⟩
      · rw [List.map_append, h5, ← List.map_append, List.take_append_drop]
        exact e4
      · have hcnt : ∀ c, (∀ x, c x = Function.update (fun y => idrp.ids.count y) id 1 x) →
            RangeInv c r := by
          intro c hc
          rcases List.mem_append.1 hr with hr | hr
          · have hb := e2.mem_bounds (fun r hr => e5 r (List.mem_of_mem_take hr)) hr
            apply (e5 r (List.mem_of_mem_take hr)).congr
            intro y hy1 hy2
            rw [hc, Function.update_of_ne (by omega)]
          · exact (h6 r hr).congr fun y _ _ => hc y
        exact hcnt _ hids
      · have := List.count_pos_iff.2 hx
        simp only [Idr.ids] at this
        rw [hids x] at this
        by_cases hxi : x = id
        · omega
        · rw [Function.update_of_ne hxi] at this
          exact h.used x (List.count_pos_iff.1 this)

/-- What `idr_remove` does on a well-formed idr; the walk over the ranges stays on the list. -/
theorem remove_spec {idrp : Idr α} (h : IdrInv idrp) (id : Nat) (mem : Bool) :
    ∃ ret idrp', idrRemove idrp id mem = some (ret, idrp') ∧
      ((ret ≠ 0 ∧ idrp' = idrp) ∨
       (∃ u, avlFind idrp.usedIds id = some u ∧ ret = 0 ∧ IdrInv idrp' ∧
          idrp'.usedIds = avlRemove idrp.usedIds u)) := by
  unfold idrRemove
  cases hf : avlFind idrp.usedIds id with
  | none => exact ⟨_, _, rfl, .inl ⟨by decide, rfl⟩⟩
  | some u =>
    cases mem with
    | false => exact ⟨_, _, rfl, .inl ⟨by decide, rfl⟩⟩
    | true =>
      obtain ⟨hu, rfl⟩ := avlFind_eq_some hf
      have hmem : u.id ∈ idrp.ids := List.mem_map_of_mem hu
      have hone : idrp.ids.count u.id = 1 := List.count_eq_one_of_mem h.nodup hmem
      obtain ⟨rs', e1, e2, e3, e4⟩ :=
        idrPutId_spec h.tiles h.ranges (Nat.zero_le _) (h.used _ hmem) hone
      simp only [e1, Option.bind_eq_bind, Option.bind_some, ↓reduceIte]
      refine ⟨_, _, rfl, .inr ⟨u, rfl, rfl, ⟨e2, by rw [e3]; exact h.sorted, fun r hr => ?_,
        fun x hx => ?_⟩, rfl⟩⟩
      · apply (e4 r hr).congr
        intro x _ _
        have hmemx : x ∈ List.map (·.id) (avlRemove idrp.usedIds u) ↔ x ∈ idrp.ids ∧ x ≠ u.id := by
          simp only [List.mem_map, mem_avlRemove h.nodup hu, Idr.ids]
          constructor
          · rintro ⟨v, ⟨hv, hne⟩, rfl⟩
            exact ⟨⟨v, hv, rfl⟩, hne⟩
          · rintro ⟨⟨v, hv, rfl⟩, hne⟩
            exact ⟨v, ⟨hv, hne⟩, rfl⟩
        have hnd : (List.map (·.id) (avlRemove idrp.usedIds u)).Nodup :=
          h.nodup.sublist (List.eraseP_sublist.map _)
        show List.count x (List.map (·.id) (avlRemove idrp.usedIds u)) = _
        by_cases hx : x = u.id
        · subst hx
          rw [Function.update_self, List.count_eq_zero]
          exact fun hm => (hmemx.1 hm).2 rfl
        · rw [Function.update_of_ne hx, hnd.count, h.nodup.count]
          exact if_congr (by rw [hmemx]; exact ⟨fun h => h.1, fun h => ⟨h, hx⟩⟩) rfl rfl
      · exact h.used x ((List.eraseP_sublist.map _).subset hx)

/-- `idr_get_new_above` with memory for the node: no id is left, or one is new. -/
theorem getNewAbove_mem {idrp : Idr α} (h : IdrInv idrp) (obj : Option α) {start : Int32}
    (h0 : 0 ≤ start.toInt) :
    ∃ ret idrp', idrGetNewAbove idrp obj start true = some (ret, idrp') ∧ IdrInv idrp' ∧
      ((ret = .error (-1) ∧ idrp'.ids = idrp.ids) ∨
        ∃ id, ret = .ok id ∧ start.toInt ≤ id ∧ id < idMax ∧ id ∉ idrp.ids ∧
          ∀ x, x ∈ idrp'.ids ↔ x = id ∨ x ∈ idrp.ids) := by
  obtain ⟨ret, idrp', he, hneg | ⟨-, hret, hinv, hsame⟩ | ⟨id, -, hlow, hlt, hnew, hnode⟩⟩ :=
    getNewAbove_spec h obj start true
  · omega
  · exact ⟨ret, idrp', he, hinv, .inl ⟨hret, by rw [Idr.ids, Idr.ids, hsame]⟩⟩
  · rcases hnode with ⟨-, hret, hinv, hins⟩ | ⟨hmem, -⟩
    · refine ⟨ret, idrp', he, hinv, .inr ⟨id, hret, hlow, hlt, fun hm => hnew (Idr.used_iff.2 hm),
        fun x => ?_⟩⟩
      have hperm := (List.perm_orderedInsert idrCompare ⟨id, obj⟩ idrp.usedIds).map (·.id)
      rw [Idr.ids, hins, hperm.mem_iff, List.map_cons, List.mem_cons, Idr.ids]
    · cases hmem

/-- `idr_remove` with memory for the node: the id is not in use afterwards. -/
theorem remove_mem {idrp : Idr α} (h : IdrInv idrp) (id : Nat) :
    ∃ ret idrp', idrRemove idrp id true = some (ret, idrp') ∧ IdrInv idrp' ∧
      ∀ x, x ∈ idrp'.ids ↔ x ∈ idrp.ids ∧ x ≠ id := by
  obtain ⟨ret, idrp', he, ⟨hret, rfl⟩ | ⟨u, hu, -, hinv, hrem⟩⟩ := remove_spec h id true
  · refine ⟨ret, idrp', he, h, fun x => ⟨fun hx => ⟨hx, ?_⟩, fun hx => hx.1⟩⟩
    rintro rfl
    obtain ⟨v, hv, rfl⟩ := List.mem_map.1 hx
    rw [idrRemove, avlFind_of_mem h.nodup hv] at he
    simp only [if_true, Option.bind_eq_bind] at he
    obtain ⟨_, -, hpair⟩ := Option.bind_eq_some_iff.1 he
    exact hret (congrArg Prod.fst (Option.some.inj hpair)).symm
  · refine ⟨ret, idrp', he, hinv, fun x => ?_⟩
    obtain ⟨hmem, rfl⟩ := avlFind_eq_some hu
    simp only [Idr.ids, hrem, List.mem_map, mem_avlRemove h.nodup hmem]
    constructor
    · rintro ⟨v, ⟨hv, hne⟩, rfl⟩
      exact ⟨⟨v, hv, rfl⟩, hne⟩
    · rintro ⟨⟨v, hv, rfl⟩, hne⟩
      exact ⟨v, ⟨hv, hne⟩, rfl⟩

/-- `idr_replace` keeps every id where it is. -/
theorem replace_inv {idrp : Idr α} (h : IdrInv idrp) (obj : Option α) (id : Nat) :
    IdrInv (idrReplace idrp obj id).2 := by
  unfold idrReplace
  split
  · exact h
  · have hids : (idrp.usedIds.map fun u => if u.id == id then { u with obj := obj } else u).map
        (·.id) = idrp.ids := by
      rw [List.map_map]
      apply List.map_congr_left
      intro u _
      simp only [Function.comp]
      split <;> rfl
    refine ⟨h.tiles, h.sorted, fun r hr => ?_, fun x hx => h.used x ?_⟩
    · simp only [Idr.ids, hids]
      exact h.ranges r hr
    · simp only [Idr.ids, hids] at hx
      exact hx

/-! ## The map from ids to objects -/

theorem IdrInv.store_eq_some {idrp : Idr α} (h : IdrInv idrp) {id : Nat} {obj : Option α} :
    idrp.store id = some obj ↔ { id := id, obj := obj } ∈ idrp.usedIds := by
  unfold Idr.store
  constructor
  · intro hs
    obtain ⟨u, hu, rfl⟩ := Option.map_eq_some_iff.1 hs
    obtain ⟨hm, rfl⟩ := avlFind_eq_some hu
    exact hm
  · intro hm
    rw [show id = UsedId.id { id := id, obj := obj } from rfl, avlFind_of_mem h.nodup hm]
    rfl

/-- The map is determined by the nodes of the tree. -/
theorem IdrInv.store_eq {idrp : Idr α} (h : IdrInv idrp) {m : Store α}
    (hm : ∀ id obj, { id := id, obj := obj } ∈ idrp.usedIds ↔ m id = some obj) :
    idrp.store = m := by
  funext id
  apply Option.ext
  intro obj
  rw [h.store_eq_some]
  exact hm id obj

theorem store_isSome {idrp : Idr α} {id : Nat} : (idrp.store id).isSome ↔ idrp.Used id := by
  rw [Idr.used_iff, Idr.store, Option.isSome_map]
  cases h : avlFind idrp.usedIds id with
  | none => simpa [Idr.ids] using avlFind_eq_none_iff.1 h
  | some u =>
    obtain ⟨hm, rfl⟩ := avlFind_eq_some h
    simpa [Idr.ids] using ⟨u, hm, rfl⟩

theorem idrFind_eq {idrp : Idr α} {id : Nat} : idrFind idrp id = (idrp.store id).join := by
  unfold idrFind Idr.store
  cases avlFind idrp.usedIds id <;> rfl

/-- One call: the invariant is kept and the map changes as the call says. -/
theorem idrCall_inv {s s' : Idr α} {c : IdrCall α} (h : IdrInv s) (hc : idrCall s c s')
    (hn : c.NoLeak s) : IdrInv s' ∧ s'.store = s.store.call c := by
  cases c with
  | getNewAbove obj start mem ret =>
    obtain ⟨ret', s1, e1, e2⟩ := getNewAbove_spec h obj start mem
    simp only [idrCall, e1, Option.some.injEq, Prod.mk.injEq] at hc
    obtain ⟨rfl, rfl⟩ := hc
    rcases e2 with ⟨-, rfl, rfl⟩ | ⟨-, rfl, hi, hu⟩ |
      ⟨id, h0, h1, h2, h3, ⟨-, rfl, hi, hu⟩ | ⟨hmem, -, -⟩⟩
    · exact ⟨h, rfl⟩
    · exact ⟨hi, by unfold Idr.store; rw [hu]; rfl⟩
    · refine ⟨hi, hi.store_eq fun x o => ?_⟩
      rw [hu, (List.perm_orderedInsert idrCompare _ s.usedIds).mem_iff, List.mem_cons,
        UsedId.mk.injEq, ← h.store_eq_some]
      simp only [Store.call]
      by_cases hx : x = id
      · subst hx
        have hno : s.store x = none := by
          rw [← Option.not_isSome_iff_eq_none, store_isSome]
          exact h3
        simp [hno, eq_comm]
      · rw [Function.update_of_ne hx]
        simp [hx]
    · exact absurd (hn hmem h0 id h1 h2) h3
  | remove id mem ret =>
    obtain ⟨ret', s1, e1, e2⟩ := remove_spec h id mem
    simp only [idrCall, e1, Option.some.injEq, Prod.mk.injEq] at hc
    obtain ⟨rfl, rfl⟩ := hc
    rcases e2 with ⟨hne, rfl⟩ | ⟨u, hu, rfl, hi, hus⟩
    · exact ⟨h, by rw [Store.call, if_neg hne]⟩
    · obtain ⟨hm, rfl⟩ := avlFind_eq_some hu
      refine ⟨hi, hi.store_eq fun x o => ?_⟩
      rw [hus, mem_avlRemove h.nodup hm, ← h.store_eq_some, Store.call, if_pos rfl]
      by_cases hx : x = u.id
      · subst hx
        simp
      · rw [Function.update_of_ne hx]
        simp [hx]
  | replace obj id ret =>
    have hi := replace_inv h obj id
    simp only [idrCall] at hc
    rw [hc] at hi
    refine ⟨hi, ?_⟩
    unfold idrReplace at hc
    split at hc
    · cases hc
      rfl
    · rename_i u hu
      obtain ⟨hm, rfl⟩ := avlFind_eq_some hu
      simp only [Prod.mk.injEq] at hc
      obtain ⟨rfl, rfl⟩ := hc
      apply hi.store_eq
      intro x o
      simp only [Store.call, List.mem_map, beq_iff_eq]
      by_cases hx : x = u.id
      · subst hx
        rw [Function.update_self]
        constructor
        · rintro ⟨v, hv, he⟩
          split at he
          · exact congrArg some (congrArg UsedId.obj he)
          · rename_i hne
            exact absurd (congrArg UsedId.id he) hne
        · rintro ho
          cases ho
          exact ⟨u, hm, by simp⟩
      · rw [Function.update_of_ne hx, h.store_eq_some]
        constructor
        · rintro ⟨v, hv, he⟩
          split at he
          · rename_i hvu
            cases he
            exact absurd hvu hx
          · exact he ▸ hv
        · intro hv
          exact ⟨_, hv, by simp [hx]⟩
  | removeAll =>
    cases hc
    exact ⟨idrInit_inv, rfl⟩

/-- Along a run that loses no id the invariant holds, and the tree of used ids is the map the
calls describe. -/
theorem idr_run {ls : List (IdrCall α)} {s : Idr α}
    (h : Run (fun s c s' => idrCall s c s' ∧ c.NoLeak s) idrInit ls s) :
    IdrInv s ∧ s.store = lastStored ls := by
  apply h.history (P := fun ls s => IdrInv s ∧ s.store = lastStored ls) ⟨idrInit_inv, rfl⟩
  rintro ls t c u ⟨hi, hst⟩ ⟨hc, hn⟩
  obtain ⟨hi', hst'⟩ := idrCall_inv hi hc hn
  refine ⟨hi', ?_⟩
  rw [hst', hst, lastStored, lastStored, List.foldl_append]
  rfl

theorem IdrCall.MemOk.noLeak {c : IdrCall α} (h : c.MemOk) (s : Idr α) : c.NoLeak s := by
  cases c with
  | getNewAbove obj start mem ret => exact fun hf => absurd (h.symm.trans hf) (by decide)
  | remove => trivial
  | replace => trivial
  | removeAll => trivial

/-! ## What the users of an idr rely on -/

/-- **Runs with memory.** The ranges partition the ids and account for each of them once; a new
id is at or above the start asked for and was not live; `idr_find` returns the object last stored;
no call follows a null pointer or adds an id twice. -/
theorem idr_partitions_ids {ls : List (IdrCall α)} {s : Idr α}
    (h : Run (fun s c s' => idrCall s c s' ∧ c.MemOk) idrInit ls s) :
    IdrInv s ∧ s.ids.Nodup ∧
      (∀ id, s.Used id ↔ (lastStored ls id).isSome) ∧
      (∀ id, idrFind s id = (lastStored ls id).join) ∧
      (∀ obj start id s', idrGetNewAbove s obj start true = some (.ok id, s') →
        start.toInt ≤ id ∧ lastStored ls id = none) ∧
      (∀ obj start, idrGetNewAbove s obj start true ≠ none) ∧
      ∀ id, idrRemove s id true ≠ none := by
  obtain ⟨hi, hst⟩ := idr_run (h.mono fun s _ _ hc => ⟨hc.1, hc.2.noLeak s⟩)
  refine ⟨hi, hi.nodup, fun id => ?_, fun id => ?_, fun obj start id s' hg => ?_,
    fun obj start hg => ?_, fun id hg => ?_⟩
  · rw [← hst, store_isSome]
  · rw [idrFind_eq, hst]
  · obtain ⟨ret, s1, e1, e2⟩ := getNewAbove_spec hi obj start true
    rw [hg] at e1
    simp only [Option.some.injEq, Prod.mk.injEq] at e1
    obtain ⟨rfl, rfl⟩ := e1
    rcases e2 with ⟨-, he, -⟩ | ⟨-, he, -⟩ | ⟨id', -, h1, -, h3, ⟨-, he, -⟩ | ⟨hf, -⟩⟩
    · cases he
    · cases he
    · cases he
      refine ⟨h1, ?_⟩
      rw [← hst, ← Option.not_isSome_iff_eq_none, store_isSome]
      exact h3
    · cases hf
  · obtain ⟨ret, s1, e1, -⟩ := getNewAbove_spec hi obj start true
    rw [hg] at e1
    cases e1
  · obtain ⟨ret, s1, e1, -⟩ := remove_spec hi id true
    rw [hg] at e1
    cases e1

/-- Allocating above 5, which splits the one range there, and giving the id back. -/
theorem idr_partitions_ids_split :
    let s : Idr Nat := { usedIds := [], freeIdRanges := [⟨0, 5, 0, []⟩, ⟨5, idMax, 6, [5]⟩] }
    Run (fun s c s' => idrCall s c s' ∧ c.MemOk) idrInit
      [.getNewAbove (some 7) 5 true (.ok 5), .remove 5 true 0] s ∧ IdrInv s ∧ idrFind s 5 = none := by
  intro s
  let s1 : Idr Nat :=
    { usedIds := [⟨5, some 7⟩], freeIdRanges := [⟨0, 5, 0, []⟩, ⟨5, idMax, 6, []⟩] }
  have h1 : idrCall idrInit (.getNewAbove (some 7) 5 true (.ok 5)) s1 := rfl
  have h2 : idrCall s1 (.remove 5 true 0) s := rfl
  have run : Run (fun s c s' => idrCall s c s' ∧ c.MemOk) idrInit
      [.getNewAbove (some 7) 5 true (.ok 5), .remove 5 true 0] s :=
    .snoc (.snoc .nil ⟨h1, rfl⟩) ⟨h2, rfl⟩
  have hp := idr_partitions_ids run
  exact ⟨run, hp.1, hp.2.2.2.1 5⟩

/-- **No id is lost** along a run in which no `idr_get_new_above` takes an id and then fails to
allocate its node: a call whose own allocation succeeds returns an id exactly if one at or above
`start` is unused, and a failed `idr_remove` changes nothing. -/
theorem idr_get_new_above_succeeds_iff {ls : List (IdrCall α)} {s : Idr α}
    (h : Run (fun s c s' => idrCall s c s' ∧ c.NoLeak s) idrInit ls s) :
    (∀ (obj : Option α) (start : Int32), 0 ≤ start.toInt →
      ((∃ id s', idrGetNewAbove s obj start true = some (.ok id, s')) ↔
        ∃ id : Nat, start.toInt ≤ id ∧ id < idMax ∧ ¬ s.Used id)) ∧
      ∀ id mem s', idrRemove s id mem = some (-ENOMEM, s') → s' = s := by
  obtain ⟨hi, -⟩ := idr_run h
  refine ⟨fun obj start h0 => ?_, fun id mem s' hr => ?_⟩
  · obtain ⟨ret, s1, e1, e2⟩ := getNewAbove_spec hi obj start true
    simp only [e1, Option.some.injEq, Prod.mk.injEq]
    rcases e2 with ⟨hneg, -, -⟩ | ⟨hall, rfl, -⟩ | ⟨id, -, h1, h2, h3, ⟨-, rfl, -⟩ | ⟨hf, -⟩⟩
    · omega
    · constructor
      · rintro ⟨id, s', he, -⟩
        cases he
      · rintro ⟨id, h1, h2, h3⟩
        exact absurd (hall id h1 h2) h3
    · exact ⟨fun _ => ⟨id, h1, h2, h3⟩, fun _ => ⟨id, s1, rfl, rfl⟩⟩
    · cases hf
  · obtain ⟨ret, s1, e1, e2⟩ := remove_spec hi id mem
    rw [hr] at e1
    simp only [Option.some.injEq, Prod.mk.injEq] at e1
    obtain ⟨rfl, rfl⟩ := e1
    rcases e2 with ⟨-, rfl⟩ | ⟨u, -, h0, -⟩
    · rfl
    · exact absurd h0 (by decide)

/-- The last id, handed out and given back, can be handed out again. -/
theorem idr_get_new_above_succeeds_iff_top :
    let s : Idr Unit :=
      { usedIds := []
        freeIdRanges := [⟨0, 0x7ffffffe, 0, []⟩, ⟨0x7ffffffe, idMax, idMax, [0x7ffffffe]⟩] }
    Run (fun s c s' => idrCall s c s' ∧ c.NoLeak s) idrInit
      [.getNewAbove none 0x7ffffffe true (.ok 0x7ffffffe), .remove 0x7ffffffe true 0] s ∧
    ∃ id s', idrGetNewAbove s none 0x7ffffffe true = some (.ok id, s') := by
  intro s
  let s1 : Idr Unit :=
    { usedIds := [⟨0x7ffffffe, none⟩]
      freeIdRanges := [⟨0, 0x7ffffffe, 0, []⟩, ⟨0x7ffffffe, idMax, idMax, []⟩] }
  have h1 : idrCall idrInit (.getNewAbove none 0x7ffffffe true (.ok 0x7ffffffe)) s1 := rfl
  have h2 : idrCall s1 (.remove 0x7ffffffe true 0) s := rfl
  have run : Run (fun s c s' => idrCall s c s' ∧ c.NoLeak s) idrInit
      [.getNewAbove none 0x7ffffffe true (.ok 0x7ffffffe), .remove 0x7ffffffe true 0] s :=
    .snoc (.snoc .nil ⟨h1, by intro h; cases h⟩) ⟨h2, trivial⟩
  refine ⟨run, ?_⟩
  rw [(idr_get_new_above_succeeds_iff run).1 none 0x7ffffffe (by decide)]
  exact ⟨0x7ffffffe, by decide, by decide, by decide⟩

/-- The id taken by a call that then returns `-ENOMEM` is never handed out again. -/
theorem idr_get_new_above_loses_id :
    ¬ ∀ (ls : List (IdrCall Unit)) (s : Idr Unit), Run idrCall idrInit ls s →
      ∀ (obj : Option Unit) (start : Int32), 0 ≤ start.toInt →
        ((∃ id s', idrGetNewAbove s obj start true = some (.ok id, s')) ↔
          ∃ id : Nat, start.toInt ≤ id ∧ id < idMax ∧ ¬ s.Used id) := by
  intro h
  let s : Idr Unit :=
    { usedIds := []
      freeIdRanges := [⟨0, 0x7ffffffe, 0, []⟩, ⟨0x7ffffffe, idMax, idMax, []⟩] }
  have h1 : idrCall idrInit (.getNewAbove none 0x7ffffffe false (.error (-ENOMEM))) s := rfl
  have run := Run.snoc Run.nil h1
  obtain ⟨id, s', he⟩ := (h _ _ run none 0x7ffffffe (by decide)).2
    ⟨0x7ffffffe, by decide, by decide, by decide⟩
  cases he

end Drm
