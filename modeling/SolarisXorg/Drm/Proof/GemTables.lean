import SolarisXorg.Drm.Gem

/-!
# Hashed id lists are tables

`IdrList.Ok ids head`: the entries are filed under their keys, no id twice, and while the id counter
has not been reset (`fr_time` is 0) none is above it. Then `idr_list_find` behaves as a table:
`find_add` and `find_remove`. `getNewAbove_fresh` says that `idr_list_get_new_above` returns an id
that is not in the list, before a reset of the counter because the counter is above all ids handed
out, after it because it looked.
-/

namespace Drm

variable {α : Type}

/-- A well-formed id list, and what the counters say about it. -/
structure IdrList.Ok (ids : FrIds) (head : IdrList α) : Prop where
  keyed : ∀ k, ∀ e ∈ head.next k, idrListKey e.handle = k
  nodup : ∀ k, ((head.next k).map (·.handle)).Nodup
  pos : ∀ k, ∀ e ∈ head.next k, e.handle ≠ 0
  low : ids.frTime = 0 → ∀ k, ∀ e ∈ head.next k, e.handle ≤ ids.frId

theorem idrListInit_ok (ids : FrIds) : (idrListInit : IdrList α).Ok ids :=
  ⟨by simp [idrListInit], by simp [idrListInit], by simp [idrListInit], by simp [idrListInit]⟩

/-! ## Finding -/

theorem find_eq_some {ids : FrIds} {head : IdrList α} (h : head.Ok ids) {n : UInt32} {o : α} :
    idrListFind head n = some o ↔ ∃ k, ⟨n, o⟩ ∈ head.next k := by
  unfold idrListFind
  rw [Option.map_eq_some_iff]
  constructor
  · intro ⟨e, he, ho⟩
    have hm := List.mem_of_find?_eq_some he
    have hn := List.find?_some he
    simp only [beq_iff_eq] at hn
    exact ⟨_, by rw [← hn, ← ho]; exact hm⟩
  · intro ⟨k, hm⟩
    have hk := h.keyed k _ hm
    subst hk
    refine ⟨⟨n, o⟩, ?_, rfl⟩
    have hnd := h.nodup (idrListKey n)
    revert hm hnd
    generalize head.next (idrListKey n) = l
    intro hm hnd
    induction l with
    | nil => cases hm
    | cons e l ih =>
      rw [List.map_cons, List.nodup_cons] at hnd
      rcases List.mem_cons.1 hm with rfl | hm
      · simp
      · have hne : e.handle ≠ n := by
          intro hc
          exact hnd.1 (hc ▸ List.mem_map_of_mem hm)
        rw [List.find?_cons_of_neg (by simpa using hne)]
        exact ih hm hnd.2

theorem find_eq_none {ids : FrIds} {head : IdrList α} (h : head.Ok ids) {n : UInt32} :
    idrListFind head n = none ↔ ∀ k, ∀ e ∈ head.next k, e.handle ≠ n := by
  rw [Option.eq_none_iff_forall_ne_some]
  constructor
  · intro hn k e he hc
    exact hn e.obj ((find_eq_some h).2 ⟨k, by rw [← hc]; exact he⟩)
  · intro hn o ho
    obtain ⟨k, hm⟩ := (find_eq_some h).1 ho
    exact hn k _ hm rfl

/-! ## Adding and removing -/

/-- Later counters: before a reset of them the next id only grows. -/
def FrIds.Le (ids ids' : FrIds) : Prop :=
  ids'.frTime = 0 → ids.frTime = 0 ∧ ids.frId ≤ ids'.frId

theorem IdrList.Ok.mono {ids ids' : FrIds} {head : IdrList α} (h : head.Ok ids)
    (hle : ids.Le ids') : head.Ok ids' := by
  refine ⟨h.keyed, h.nodup, h.pos, fun ht k e he => ?_⟩
  obtain ⟨h1, h2⟩ := hle ht
  exact UInt32.le_trans (h.low h1 k e he) h2

theorem mem_add {head : IdrList α} {id : UInt32} {obj : α} {k : Nat} {e : IdrListEntry α} :
    e ∈ (head.add id obj).next k ↔ (k = idrListKey id ∧ e = ⟨id, obj⟩) ∨ e ∈ head.next k := by
  unfold IdrList.add
  by_cases hk : k = idrListKey id
  · subst hk
    simp
  · simp [hk]

theorem add_ok {ids : FrIds} {head : IdrList α} (h : head.Ok ids) {id : UInt32} (obj : α)
    (hnew : idrListFind head id = none) (hpos : id ≠ 0) (hlow : ids.frTime = 0 → id ≤ ids.frId) :
    (head.add id obj).Ok ids := by
  refine ⟨fun k e he => ?_, fun k => ?_, fun k e he => ?_, fun ht k e he => ?_⟩
  · rcases mem_add.1 he with ⟨hk, rfl⟩ | he
    · exact hk.symm
    · exact h.keyed k e he
  · unfold IdrList.add
    by_cases hk : k = idrListKey id
    · subst hk
      simp only [Function.update_self, List.map_cons, List.nodup_cons]
      refine ⟨?_, h.nodup _⟩
      intro hm
      obtain ⟨e, he, hc⟩ := List.mem_map.1 hm
      exact (find_eq_none h).1 hnew _ e he hc
    · simp only [Function.update_of_ne hk]
      exact h.nodup k
  · rcases mem_add.1 he with ⟨-, rfl⟩ | he
    · exact hpos
    · exact h.pos k e he
  · rcases mem_add.1 he with ⟨-, rfl⟩ | he
    · exact hlow ht
    · exact h.low ht k e he

theorem find_add {ids : FrIds} {head : IdrList α} (h : head.Ok ids) {id : UInt32} {obj : α}
    (hnew : idrListFind head id = none) (hadd : (head.add id obj).Ok ids) (n : UInt32) :
    idrListFind (head.add id obj) n = if n = id then some obj else idrListFind head n := by
  split
  · rename_i hn
    subst hn
    exact (find_eq_some hadd).2 ⟨_, mem_add.2 (.inl ⟨rfl, rfl⟩)⟩
  · rename_i hn
    ext o
    rw [find_eq_some hadd, find_eq_some h]
    apply exists_congr
    intro k
    rw [mem_add]
    constructor
    · intro hm
      rcases hm with ⟨-, hc⟩ | hm
      · exact absurd (congrArg IdrListEntry.handle hc) hn
      · exact hm
    · exact .inr

theorem mem_eraseP_handle {l : List (IdrListEntry α)} (hnd : (l.map (·.handle)).Nodup)
    (name : UInt32) (e : IdrListEntry α) :
    e ∈ l.eraseP (fun e => e.handle == name) ↔ e ∈ l ∧ e.handle ≠ name := by
  induction l with
  | nil => simp
  | cons x l ih =>
    rw [List.map_cons, List.nodup_cons] at hnd
    by_cases hx : x.handle = name
    · rw [List.eraseP_cons_of_pos (by simpa using hx), List.mem_cons]
      constructor
      · intro hm
        refine ⟨.inr hm, fun hc => hnd.1 ?_⟩
        rw [hx, ← hc]
        exact List.mem_map_of_mem hm
      · intro ⟨hm, hc⟩
        rcases hm with rfl | hm
        · exact absurd hx hc
        · exact hm
    · rw [List.eraseP_cons_of_neg (by simpa using hx), List.mem_cons, List.mem_cons, ih hnd.2]
      constructor
      · intro hm
        rcases hm with rfl | hm
        · exact ⟨.inl rfl, hx⟩
        · exact ⟨.inr hm.1, hm.2⟩
      · intro ⟨hm, hc⟩
        rcases hm with rfl | hm
        · exact .inl rfl
        · exact .inr ⟨hm, hc⟩

theorem mem_remove {ids : FrIds} {head : IdrList α} (h : head.Ok ids) {name : UInt32} {k : Nat}
    {e : IdrListEntry α} :
    e ∈ (idrListRemove head name).2.next k ↔ e ∈ head.next k ∧ e.handle ≠ name := by
  unfold idrListRemove
  split
  · by_cases hk : k = idrListKey name
    · subst hk
      simp only [Function.update_self]
      exact mem_eraseP_handle (h.nodup _) name e
    · simp only [Function.update_of_ne hk]
      refine ⟨fun hm => ⟨hm, fun hc => hk ?_⟩, And.left⟩
      rw [← hc]
      exact (h.keyed k e hm).symm
  · rename_i hf
    rw [Option.not_isSome_iff_eq_none] at hf
    exact ⟨fun hm => ⟨hm, (find_eq_none h).1 hf k e hm⟩, And.left⟩

theorem remove_ok {ids : FrIds} {head : IdrList α} (h : head.Ok ids) (name : UInt32) :
    (idrListRemove head name).2.Ok ids := by
  refine ⟨fun k e he => ?_, fun k => ?_, fun k e he => ?_, fun ht k e he => ?_⟩
  · exact h.keyed k e ((mem_remove h).1 he).1
  · unfold idrListRemove
    split
    · by_cases hk : k = idrListKey name
      · subst hk
        simp only [Function.update_self]
        exact (h.nodup _).sublist ((List.eraseP_sublist).map _)
      · simp only [Function.update_of_ne hk]
        exact h.nodup k
    · exact h.nodup k
  · exact h.pos k e ((mem_remove h).1 he).1
  · exact h.low ht k e ((mem_remove h).1 he).1

theorem find_remove {ids : FrIds} {head : IdrList α} (h : head.Ok ids) (name n : UInt32) :
    idrListFind (idrListRemove head name).2 n =
      if n = name then none else idrListFind head n := by
  ext o
  rw [find_eq_some (remove_ok h name)]
  simp only [mem_remove h]
  split
  · rename_i hn
    simp [hn]
  · rename_i hn
    rw [find_eq_some h]
    exact exists_congr fun k => and_iff_left hn

/-! ## New ids -/

/-- The search for an id that is not in the list. -/
theorem available_spec (head : IdrList α) : ∀ (n : Nat) (id : UInt32),
    id.toNat + n = 0x7fffffff →
    id ≤ idrListAvailable head n id ∧ (idrListAvailable head n id).toNat ≤ 0x7fffffff ∧
      (idrListAvailable head n id < 0x7fffffff →
        idrListFind head (idrListAvailable head n id) = none)
  | 0, id, h => by
    refine ⟨UInt32.le_refl _, by simp only [idrListAvailable]; omega, fun hlt => ?_⟩
    rw [UInt32.lt_iff_toNat_lt] at hlt
    simp only [idrListAvailable, UInt32.reduceToNat] at hlt
    omega
  | n + 1, id, h => by
    have hnext : (id + 1).toNat = id.toNat + 1 := by
      rw [UInt32.toNat_add, UInt32.toNat_one]
      omega
    obtain ⟨h1, h2, h3⟩ := available_spec head n (id + 1) (by omega)
    unfold idrListAvailable
    split
    · refine ⟨?_, h2, h3⟩
      rw [UInt32.le_iff_toNat_le] at h1 ⊢
      omega
    · rename_i hf
      exact ⟨UInt32.le_refl _, by omega, fun _ => by simpa using hf⟩

/-- The counter is below its limit. -/
def FrIds.Ok (ids : FrIds) : Prop := ids.frId.toNat < 0x7fffffff

theorem FrIds.next_spec {ids : FrIds} (h : ids.Ok) (ht : ids.NoWrap) :
    ids.next.Ok ∧ ids.next.frId ≠ 0 ∧ ids.Le ids.next ∧
      (ids.next.frTime = 0 → ids.frId < ids.next.frId) := by
  unfold FrIds.Ok at h
  have hnext : (ids.frId + 1).toNat = ids.frId.toNat + 1 := by
    rw [UInt32.toNat_add, UInt32.toNat_one]
    omega
  unfold FrIds.next
  split
  · rename_i hlim
    exact ⟨by simp [FrIds.Ok], by simp, fun hc => absurd hc (ht hlim), fun hc => absurd hc (ht hlim)⟩
  · rename_i hlim
    have hlim' : ids.frId.toNat + 1 ≠ 0x7fffffff := by
      rw [← hnext]
      exact fun hc => hlim (UInt32.toNat_inj.1 hc)
    have hlt : ids.frId < ids.frId + 1 := by
      rw [UInt32.lt_iff_toNat_lt, hnext]
      omega
    refine ⟨?_, ?_, fun hc => ⟨hc, UInt32.le_of_lt hlt⟩, fun _ => hlt⟩
    · simp only [FrIds.Ok, hnext]
      omega
    · intro hc
      have := congrArg UInt32.toNat hc
      rw [hnext] at this
      simp at this

/-- **New ids.** The id is not in the list, the list is otherwise as before, and whatever happens
the other lists agree with the new counters. A call that is to be repeated leaves the counter
at 0. -/
theorem getNewAbove_fresh {ids : FrIds} {head : IdrList α} (h : head.Ok ids) (hi : ids.Ok)
    (ht : ids.NoWrap) (obj : α) (mem : Bool) :
    ∃ ret ids' head', idrListGetNewAbove ids head obj mem = (ret, ids', head') ∧ ids'.Ok ∧
      ids.Le ids' ∧ (ret = .error (-EAGAIN) → ids'.NoWrap) ∧
      ∀ id, ret = .ok id → id ≠ 0 ∧ idrListFind head id = none ∧ head' = head.add id obj ∧
        head'.Ok ids' := by
  obtain ⟨hok, hpos, hle, hsucc⟩ := FrIds.next_spec hi ht
  unfold FrIds.Ok at hok
  by_cases hz : ids.next.frTime = 0
  · -- no reset so far: the counter is above all ids of the list
    have hnew : idrListFind head ids.next.frId = none := by
      apply (find_eq_none h).2
      intro k e he hc
      have h1 := h.low (hle hz).1 k e he
      rw [hc] at h1
      exact UInt32.lt_irrefl _ (UInt32.lt_of_lt_of_le (hsucc hz) h1)
    have hget : idrListGetNewAbove ids head obj mem =
        if mem then (.ok ids.next.frId, { ids.next with frId := ids.next.frId },
          head.add ids.next.frId obj)
        else (.error (-1), { ids.next with frId := ids.next.frId }, head) := by
      simp [idrListGetNewAbove, hz]
    cases mem with
    | false => exact ⟨_, ids.next, _, hget, hok, hle, by simp [EAGAIN], by simp⟩
    | true =>
      refine ⟨_, ids.next, _, hget, hok, hle, by simp, fun id hid => ?_⟩
      cases hid
      exact ⟨hpos, hnew, rfl, add_ok (h.mono hle) obj hnew hpos fun _ => UInt32.le_refl _⟩
  · obtain ⟨h1, h2, h3⟩ := available_spec head (0x7fffffff - ids.next.frId.toNat) ids.next.frId
      (by omega)
    have hget : idrListGetNewAbove ids head obj mem =
        (let id := idrListAvailable head (0x7fffffff - ids.next.frId.toNat) ids.next.frId
        if ¬ id < 0x7fffffff then (.error (-EAGAIN), { ids.next with frId := 0 }, head)
        else if mem then (.ok id, { ids.next with frId := id }, head.add id obj)
        else (.error (-1), { ids.next with frId := id }, head)) := by
      simp [idrListGetNewAbove, hz]
    generalize idrListAvailable head (0x7fffffff - ids.next.frId.toNat) ids.next.frId = id at *
    have hle' : ∀ x, ids.Le { ids.next with frId := x } := fun x hc => absurd hc hz
    by_cases hlt : id < 0x7fffffff
    · have hid : id ≠ 0 := by
        intro hc
        rw [hc, UInt32.le_iff_toNat_le] at h1
        exact hpos (UInt32.toNat_inj.1 (by simpa using h1))
      have hok' : FrIds.Ok { ids.next with frId := id } := by
        rw [UInt32.lt_iff_toNat_lt] at hlt
        exact hlt
      simp only [hlt, not_true_eq_false, if_false] at hget
      cases mem with
      | false => exact ⟨_, _, _, hget, hok', hle' id, by simp [EAGAIN], by simp⟩
      | true =>
        refine ⟨_, _, _, hget, hok', hle' id, by simp, fun id' hid' => ?_⟩
        cases hid'
        exact ⟨hid, h3 hlt, rfl, add_ok (h.mono (hle' id)) obj (h3 hlt) hid fun hc => absurd hc hz⟩
    · simp only [hlt, not_false_eq_true, if_true] at hget
      refine ⟨_, _, _, hget, by simp [FrIds.Ok], hle' 0, fun _ => ?_, by simp⟩
      intro hc
      simp at hc

end Drm
