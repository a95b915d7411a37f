import SolarisXorg.Drm.Proof.IdrCalls

/-!
# An idr that has lost ids

An `idr_get_new_above` that has no memory for the node of the id it took loses the id: it is neither
used nor free. Such an idr is *padded* by one in which the ids lost are in use (`Idr.Padded`). The
ranges are the same, so the calls do not panic, and leave an idr that is padded again
(`Padded.getNewAbove`, `Padded.remove`, `Padded.replace`).
-/

namespace Drm

variable {α : Type} {idr idr' : Idr α} {ranges rest : List FreeIdRange} {k id : Nat}
  {start : Int32} {mem : Bool}

/-- Ids may be lost: with these in use, the idr is well-formed. -/
def Idr.Padded (idr : Idr α) : Prop :=
  idr.ids.Nodup ∧ ∃ pad : Idr α, IdrInv pad ∧ pad.freeIdRanges = idr.freeIdRanges ∧
    ∀ id ∈ idr.ids, id ∈ pad.ids

theorem idrInit_padded : (idrInit : Idr α).Padded :=
  ⟨List.nodup_nil, idrInit, idrInit_inv, rfl, fun _ h => h⟩

/-- No range has an id left. -/
theorem idrGetNewAbove_full (obj : Option α) (hstart : ¬start.toInt < 0)
    (hensure : frEnsure idr.freeIdRanges start.toInt.toNat = some (ranges, k))
    (hfull : idrTakeId (ranges.drop k) = none) :
    idrGetNewAbove idr obj start mem = some (.error (-1), { idr with freeIdRanges := ranges }) := by
  rw [idrGetNewAbove, if_neg hstart, hensure]
  dsimp only [Option.bind_eq_bind, Option.bind_some]
  rw [hfull]

/-- An id is taken, and used or lost. -/
theorem idrGetNewAbove_taken (obj : Option α) (hstart : ¬start.toInt < 0)
    (hensure : frEnsure idr.freeIdRanges start.toInt.toNat = some (ranges, k))
    (htake : idrTakeId (ranges.drop k) = some (id, rest)) (hfree : avlFind idr.usedIds id = none) :
    idrGetNewAbove idr obj start mem = some (if mem then
      (.ok id, ⟨idr.usedIds.orderedInsert idrCompare ⟨id, obj⟩, ranges.take k ++ rest⟩)
      else (.error (-ENOMEM), ⟨idr.usedIds, ranges.take k ++ rest⟩)) := by
  rw [idrGetNewAbove, if_neg hstart, hensure]
  dsimp only [Option.bind_eq_bind, Option.bind_some]
  rw [htake]
  cases mem with
  | false => rfl
  | true =>
    dsimp only
    rw [if_pos rfl, avlAdd, hfree]
    rfl

/-- `idr_get_new_above` takes an id that is not in use, or fails. -/
theorem Idr.Padded.getNewAbove (h : idr.Padded) (obj : Option α) (hstart : 0 ≤ start.toInt)
    (mem : Bool) :
    ∃ ret idr', idrGetNewAbove idr obj start mem = some (ret, idr') ∧ idr'.Padded ∧
      ((∃ e, ret = .error e ∧ e < 0 ∧ idr'.ids = idr.ids) ∨
        ∃ id, ret = .ok id ∧ idr'.ids.Perm (id :: idr.ids)) := by
  obtain ⟨hnodup, pad, hpad, hranges, hsub⟩ := h
  obtain ⟨ret, pad', hcall, hpad', hend⟩ := getNewAbove_mem hpad obj hstart
  have hneg : ¬start.toInt < 0 := Int.not_lt.2 hstart
  cases getNewAbove_ends hcall with
  | negative h => exact absurd h hneg
  | @full ranges k hensure hfull =>
    rw [hranges] at hensure
    obtain ⟨-, hids⟩ | ⟨id, hid, -⟩ := hend
    case inr => cases hid
    exact ⟨_, _, idrGetNewAbove_full obj hneg hensure hfull,
      ⟨hnodup, _, hpad', rfl, fun id hid => hids ▸ hsub id hid⟩, .inl ⟨_, rfl, by decide, rfl⟩⟩
  | @got ranges rest k id hensure htake hnone =>
    rw [hranges] at hensure
    obtain ⟨hid, -⟩ | ⟨id', hid, -, -, -, hids⟩ := hend
    · cases hid
    cases hid
    have hfree : avlFind idr.usedIds id = none := by
      rw [avlFind_eq_none_iff] at hnone ⊢
      exact fun h => hnone (hsub id h)
    refine ⟨_, _, idrGetNewAbove_taken obj hneg hensure htake hfree, ?_⟩
    cases mem with
    | false =>
      exact ⟨⟨hnodup, _, hpad', rfl, fun x hx => (hids x).2 (.inr (hsub x hx))⟩,
        .inl ⟨_, rfl, by decide, rfl⟩⟩
    | true =>
      have hperm := (List.perm_orderedInsert idrCompare ⟨id, obj⟩ idr.usedIds).map UsedId.id
      have hnew : id ∉ idr.ids := avlFind_eq_none_iff.1 hfree
      refine ⟨⟨hperm.nodup_iff.2 (List.nodup_cons.2 ⟨hnew, hnodup⟩), _, hpad', rfl,
        fun x hx => ?_⟩, .inr ⟨id, rfl, hperm⟩⟩
      rw [hids]
      rcases List.mem_cons.1 (hperm.mem_iff.1 hx) with hx | hx
      · exact .inl hx
      · exact .inr (hsub x hx)
  | lost hensure htake =>
    obtain ⟨hid, -⟩ | ⟨id, hid, -⟩ := hend
    · cases hid
    · cases hid

/-- `idr_replace` leaves the ids in use as they are. -/
theorem Idr.Padded.replace (h : idr.Padded) (obj : Option α) (id : Nat) :
    (idrReplace idr obj id).2.Padded ∧ (idrReplace idr obj id).2.ids = idr.ids := by
  have hids : (idrReplace idr obj id).2.ids = idr.ids := by
    cases hstore : idr.store id with
    | none =>
      have hfind : avlFind idr.usedIds id = none := Option.map_eq_none_iff.1 hstore
      rw [idrReplace, hfind]
    | some old => exact (replace_store obj fun hnone => by rw [hnone] at hstore; cases hstore).2
  have hranges : (idrReplace idr obj id).2.freeIdRanges = idr.freeIdRanges := by
    unfold idrReplace
    split <;> rfl
  obtain ⟨hnodup, pad, hpad, heq, hsub⟩ := h
  exact ⟨⟨hids ▸ hnodup, pad, hpad, heq.trans hranges.symm, hids ▸ hsub⟩, hids⟩

/-- The node of an id. -/
theorem avlFind_of_mem_ids (hid : id ∈ idr.ids) :
    ∃ u, avlFind idr.usedIds id = some u ∧ u ∈ idr.usedIds ∧ u.id = id := by
  cases hfind : avlFind idr.usedIds id with
  | none => exact absurd hid (avlFind_eq_none_iff.1 hfind)
  | some u => exact ⟨u, rfl, avlFind_eq_some hfind⟩

theorem perm_avlRemove {used : List (UsedId α)} {u : UsedId α} (hu : u ∈ used) :
    (used.map UsedId.id).Perm (u.id :: (avlRemove used u).map UsedId.id) := by
  obtain ⟨v, ls, rs, -, hv, rfl, hrest⟩ := List.exists_of_eraseP (p := fun v => v.id == u.id) hu
    (beq_self_eq_true u.id)
  rw [avlRemove, hrest, ← beq_iff_eq.1 hv]
  exact List.perm_middle.map UsedId.id

/-- `idr_remove` of an id in use, with memory for its node. -/
theorem Idr.Padded.remove (h : idr.Padded) (hid : id ∈ idr.ids) :
    ∃ idr', idrRemove idr id true = some (0, idr') ∧ idr'.Padded ∧
      idr.ids.Perm (id :: idr'.ids) := by
  obtain ⟨hnodup, pad, hpad, hranges, hsub⟩ := h
  obtain ⟨ret, pad', hcall, hpad', hids⟩ := remove_mem hpad id
  obtain ⟨w, hw, -⟩ := avlFind_of_mem_ids (hsub id hid)
  rw [idrRemove, hw] at hcall
  obtain ⟨ranges, hput, heq⟩ := Option.bind_eq_some_iff.1 hcall
  cases heq
  obtain ⟨u, hu, hmem, rfl⟩ := avlFind_of_mem_ids hid
  have hperm : idr.ids.Perm (u.id :: (avlRemove idr.usedIds u).map UsedId.id) :=
    perm_avlRemove hmem
  have hrest := hperm.nodup_iff.1 hnodup
  rw [List.nodup_cons] at hrest
  refine ⟨⟨avlRemove idr.usedIds u, ranges⟩, ?_, ⟨hrest.2, _, hpad', rfl, fun x hx => ?_⟩, hperm⟩
  · rw [hranges] at hput
    rw [idrRemove, hu]
    dsimp only
    rw [if_pos rfl, hput]
    rfl
  · refine (hids x).2 ⟨hsub x (hperm.mem_iff.2 (.tail _ hx)), ?_⟩
    rintro rfl
    exact hrest.1 hx

end Drm
