import Mathlib.Algebra.Group.Nat.Defs
import SolarisXorg.Drm.Maps
import SolarisXorg.Drm.Proof.IdrCalls

/-!
# The tokens of maps

A token is the id shifted left in 32 bits and then made 64 bits long with its sign, so that the id
comes back exactly when it has no bit from 19 on (`tokenId_userToken_iff`). On an idr that holds no id
twice, which is any that calls lead to (`ids_nodup_run`), everything else that a token is for follows
from this (`tokenFinds_iff`, `map_tokens_iff`).

Nothing keeps the ids below 2^19: the idr hands out one after the other (`grown_run`).
-/

namespace Drm

open Lib

variable {mapIdr : Idr Nat}

/-- **The id comes back** when it fits into 19 bits. -/
theorem tokenId_userToken_iff {newid : Nat} (h : newid < idMax) :
    tokenId (userToken newid) = newid ↔ newid < 2 ^ 19 := by
  have hmax : newid < 0x7fffffff := h
  have hint : (BitVec.ofNat 32 newid <<< 12).toNat = newid * 4096 % 2 ^ 32 := by
    rw [BitVec.toNat_shiftLeft, BitVec.toNat_ofNat, Nat.shiftLeft_eq]
    omega
  have htoken : (userToken newid).toNat = newid * 4096 % 2 ^ 32 +
      if 2 ^ 31 ≤ newid * 4096 % 2 ^ 32 then 2 ^ 64 - 2 ^ 32 else 0 := by
    rw [userToken, BitVec.toNat_signExtend, BitVec.toNat_setWidth, BitVec.msb_eq_decide, hint]
    simp only [decide_eq_true_eq]
    split <;> omega
  have hid : tokenId (userToken newid) = (userToken newid).toNat / 4096 % 2 ^ 32 := by
    rw [tokenId, BitVec.toNat_setWidth, BitVec.toNat_ushiftRight, Nat.shiftRight_eq_div_pow]
  rw [hid, htoken]
  split <;> omega

/-! ## The table -/

/-- **A token does what it is for** exactly when its id fits into 19 bits. -/
theorem tokenFinds_iff (hn : mapIdr.ids.Nodup) {newid list : Nat} (hlt : newid < idMax)
    (hlive : mapIdr.Live newid list) : TokenFinds mapIdr newid list ↔ newid < 2 ^ 19 := by
  refine ⟨fun h => (tokenId_userToken_iff hlt).1 h.id, fun h19 => ?_⟩
  have hid := (tokenId_userToken_iff hlt).2 h19
  have hfind : avlFind mapIdr.usedIds newid = some { id := newid, obj := some list } :=
    avlFind_of_mem hn hlive
  refine ⟨hid, ?_, fun mem idrp hrem id => ?_⟩
  · rw [findLocalMap, hid, idrFind, hfind]
  · rw [mapIdrRemove, hid, idrRemove, hfind] at hrem
    cases mem with
    | false => cases hrem
    | true =>
      simp only [if_true] at hrem
      obtain ⟨ranges, -, hpair⟩ := Option.bind_eq_some_iff.1 hrem
      cases hpair
      have hmem := fun v => mem_avlRemove (v := v) hn hlive
      constructor
      · rintro ⟨v, hv, rfl⟩
        obtain ⟨hv, hne⟩ := (hmem v).1 hv
        exact ⟨⟨v, hv, rfl⟩, hne⟩
      · rintro ⟨⟨v, hv, rfl⟩, hne⟩
        exact ⟨v, (hmem v).2 ⟨hv, hne⟩, rfl⟩

/-- **The tokens of the live maps** after any calls: the one of an id does what it is for exactly when
the id fits into 19 bits, and all do when all ids fit. -/
theorem map_tokens_iff {ls : List (IdrCall Nat)} (hr : Run idrCall idrInit ls mapIdr) :
    (∀ newid list, mapIdr.Live newid list → (TokenFinds mapIdr newid list ↔ newid < 2 ^ 19)) ∧
      (TokensOk mapIdr ↔ ∀ newid list, mapIdr.Live newid list → newid < 2 ^ 19) := by
  have hn := ids_nodup_run hr
  have hlt : ∀ newid list, mapIdr.Live newid list → newid < idMax := fun newid list h =>
    ids_lt_run hr newid (List.mem_map_of_mem (f := UsedId.id) h)
  have hone : ∀ newid list, mapIdr.Live newid list →
      (TokenFinds mapIdr newid list ↔ newid < 2 ^ 19) := fun newid list h =>
    tokenFinds_iff hn (hlt newid list h) h
  refine ⟨hone, fun hok newid list h => (hone newid list h).1 (hok.finds newid list h), ?_⟩
  intro hall
  refine ⟨fun newid list h => (hone newid list h).2 (hall newid list h), ?_⟩
  intro newid list newid' list' h h' htoken
  rw [← (tokenId_userToken_iff (hlt newid list h)).2 (hall newid list h), htoken]
  exact (tokenId_userToken_iff (hlt newid' list' h')).2 (hall newid' list' h')

/-! ## Many maps -/

/-- The idr after `n` maps. -/
def grown (n : Nat) : Idr Nat where
  usedIds := (List.range n).map fun i => { id := i + 1, obj := some i }
  freeIdRanges := [⟨0, 1, 0, []⟩, ⟨1, idMax, n + 1, []⟩]

theorem orderedInsert_last {used : List (UsedId Nat)} {u : UsedId Nat}
    (h : ∀ v ∈ used, v.id < u.id) : used.orderedInsert idrCompare u = used ++ [u] := by
  induction used with
  | nil => rfl
  | cons v used ih =>
    have hv : ¬ idrCompare u v := Nat.not_le.2 (h v List.mem_cons_self)
    rw [List.orderedInsert, if_neg hv, ih fun w hw => h w (List.mem_cons_of_mem _ hw)]
    rfl

theorem grown_ids_lt {n : Nat} : ∀ v ∈ (grown n).usedIds, v.id < n + 1 := by
  intro v hv
  obtain ⟨i, hi, rfl⟩ := List.mem_map.1 hv
  exact Nat.succ_lt_succ (List.mem_range.1 hi)

/-- One more map takes the next id. -/
theorem grown_step {n : Nat} (h : n + 1 < idMax) :
    idrGetNewAbove (grown n) (some n) 1 true = some (.ok (n + 1), grown (n + 1)) := by
  have hget : frGet (grown n).freeIdRanges 1 = some 1 := rfl
  have hnone : avlFind (grown n).usedIds (n + 1) = none := by
    rw [avlFind_eq_none_iff, List.mem_map]
    rintro ⟨v, hv, hid⟩
    have := grown_ids_lt v hv
    omega
  have htake : idrTakeId ((grown n).freeIdRanges.drop 1) =
      some (n + 1, [⟨1, idMax, n + 2, []⟩]) := by
    have hfull : frIsfull ⟨1, idMax, n + 1, []⟩ = false := by
      simpa [frIsfull] using h
    simp [grown, idrTakeId, idrGetFreeIdInRange, hfull]
  have hstart : ((1 : Int32).toInt.toNat) = 1 := by decide
  have hpos : ¬ (1 : Int32).toInt < 0 := by decide
  have hadd : avlAdd (grown n).usedIds ⟨n + 1, some n⟩ = some (grown (n + 1)).usedIds := by
    rw [avlAdd, hnone, orderedInsert_last grown_ids_lt]
    simp [grown, List.range_succ]
  simp only [idrGetNewAbove, if_neg hpos, hstart, frEnsure, hget, Option.bind_eq_bind,
    Option.bind_some, htake, if_true, hadd]
  rfl

theorem grown_run {n : Nat} (h : n + 1 < idMax) :
    ∃ ls : List (IdrCall Nat), Run idrCall idrInit ls (grown (n + 1)) := by
  induction n with
  | zero => exact ⟨[] ++ [.getNewAbove (some 0) 1 true (.ok 1)], .snoc .nil (by rfl)⟩
  | succ n ih =>
    obtain ⟨ls, hr⟩ := ih (by omega)
    have hstep : idrCall (grown (n + 1)) (.getNewAbove (some (n + 1)) 1 true (.ok (n + 2)))
        (grown (n + 2)) := grown_step h
    exact ⟨_, .snoc hr hstep⟩

/-- After 2^19 maps there is one that is not found under its token. -/
theorem map_tokens_wrap :
    ∃ ls mapIdr, Run idrCall idrInit ls mapIdr ∧ mapIdr.Live (2 ^ 19) 524287 ∧
      findLocalMap mapIdr (userToken (2 ^ 19)) = none ∧ ¬ TokensOk mapIdr := by
  obtain ⟨ls, hr⟩ := grown_run (n := 524287) (by simp [idMax])
  have hlive : (grown 524288).Live (2 ^ 19) 524287 := by
    have hlast : ∀ n, (grown (n + 1)).Live (n + 1) n := fun n =>
      List.mem_map.2 ⟨n, List.mem_range.2 (Nat.lt_succ_self n), rfl⟩
    exact hlast 524287
  refine ⟨ls, grown 524288, hr, hlive, ?_, fun hok => ?_⟩
  · have hid : tokenId (userToken (2 ^ 19)) = 4294443008 := by decide
    have hnone : avlFind (grown 524288).usedIds 4294443008 = none := by
      rw [avlFind_eq_none_iff, List.mem_map]
      rintro ⟨v, hv, hid⟩
      have := grown_ids_lt v hv
      omega
    rw [findLocalMap, hid, idrFind, hnone]
  · have := (hok.finds _ _ hlive).id
    have hid : tokenId (userToken (2 ^ 19)) ≠ 2 ^ 19 := by decide
    exact hid this

/-- Two maps, of which the first goes again. -/
theorem map_tokens_iff_two :
    ∃ ls mapIdr, Run idrCall idrInit ls mapIdr ∧ mapIdr.usedIds = [⟨2, some 8⟩] ∧
      TokenFinds mapIdr 2 8 ∧ TokensOk mapIdr := by
  have h1 : Run idrCall idrInit _ _ :=
    Run.snoc (l := IdrCall.getNewAbove (some 7) 1 true (.ok 1)) .nil rfl
  have h2 : Run idrCall idrInit _ _ :=
    Run.snoc (l := IdrCall.getNewAbove (some 8) 1 true (.ok 2)) h1 rfl
  have h3 : Run idrCall idrInit _ _ := Run.snoc (l := IdrCall.remove 1 true 0) h2 rfl
  obtain ⟨hone, hall⟩ := map_tokens_iff h3
  refine ⟨_, _, h3, rfl, (hone 2 8 (List.mem_singleton.2 rfl)).2 (by decide), hall.2 ?_⟩
  intro newid list hlive
  cases List.mem_singleton.1 hlive
  decide

end Drm
