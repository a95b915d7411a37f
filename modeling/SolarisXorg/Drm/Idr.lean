import Mathlib.Data.List.Sort
import SolarisXorg.Lib.Run

/-!
# Id allocation (`drm_sun_idr.c`, `struct idr`)

The ids of an `idr` are the integers of `[0, 0x7fffffff)`. They are handed out of a list of
*ranges*: a range `[start, end)` has a high-water mark `min_unused_id`, the ids below it are used
or on the range's own free list, the ids from it on have never been handed out. A range is split
(`frInsert`) the first time an id is asked for above a start that no range has.

The singly linked `free_id_ranges` and `free_ids` are lists, a pointer to a range its index. The
AVL tree `used_ids` is the list of its nodes in the order of `idr_compare`. `kmem_alloc` with
`KM_NOSLEEP` may fail: the calls that use it take the outcome as a `Bool`. A `none` result of a
call is a kernel panic: a null pointer followed, or `avl_add` of an id that is in the tree.
-/

namespace Drm

/-! ## Free ranges -/

/-- The end of the last range: no id at or above it is handed out. -/
def idMax : Nat := 0x7fffffff

/-- `struct idr_free_id_range`. -/
structure FreeIdRange where
  start : Nat
  stop : Nat
  minUnusedId : Nat
  freeIds : List Nat
  deriving DecidableEq, Repr

/-- `fr_isfull` -/
def frIsfull (range : FreeIdRange) : Bool := range.stop ≤ range.minUnusedId

/-- `fr_new` -/
def frNew (start : Nat) : FreeIdRange :=
  { start := start, stop := idMax, minUnusedId := start, freeIds := [] }

/-- `fr_get`: the range that starts at `start`. -/
def frGet (list : List FreeIdRange) (start : Nat) : Option Nat :=
  list.findIdx? (·.start == start)

/-- The loop of `fr_insert` over `prev->free_ids`: the ids below `start` stay, every other one is
pushed on the new range's list. -/
def frMoveIds (start : Nat) : List Nat → List Nat → List Nat × List Nat
  | [], moved => ([], moved)
  | id :: ids, moved =>
    if id < start then
      let r := frMoveIds start ids moved
      (id :: r.1, r.2)
    else frMoveIds start ids (id :: moved)

/-- The new range `n` of `fr_insert`, linked before `next`. -/
def frLinked (start : Nat) : Option FreeIdRange → FreeIdRange
  | some next => { frNew start with stop := next.start }
  | none => frNew start

/-- The ranges `prev` and `n` after `fr_insert` has linked `n` behind `prev`. -/
def frSplit (prev : FreeIdRange) (next : Option FreeIdRange) (start : Nat) :
    FreeIdRange × FreeIdRange :=
  let n := frLinked start next
  let prev := { prev with stop := start }
  if frIsfull prev then
    let ids := frMoveIds start prev.freeIds n.freeIds
    ({ prev with minUnusedId := start, freeIds := ids.1 },
      { n with minUnusedId := prev.minUnusedId, freeIds := ids.2 })
  else (prev, n)

/-- `fr_insert`: the ranges after the split and the index of the new one. An empty list, whose
head `fr_insert` would dereference, has no result. -/
def frInsert : List FreeIdRange → Nat → Option (List FreeIdRange × Nat)
  | [], _ => none
  | [prev], start =>
    let p := frSplit prev none start
    some ([p.1, p.2], 1)
  | prev :: next :: rest, start =>
    if next.start < start then
      (frInsert (next :: rest) start).map fun r => (prev :: r.1, r.2 + 1)
    else
      let p := frSplit prev (some next) start
      some (p.1 :: p.2 :: next :: rest, 1)

/-- `idr_get_free_id_in_range`: the id and the range it was taken from, or `none` for `-1`. -/
def idrGetFreeIdInRange (range : FreeIdRange) : Option (Nat × FreeIdRange) :=
  match range.freeIds with
  | id :: ids => some (id, { range with freeIds := ids })
  | [] =>
    if frIsfull range then none
    else some (range.minUnusedId, { range with minUnusedId := range.minUnusedId + 1 })

/-- The `while (range)` loop of `idr_get_new_above`. -/
def idrTakeId : List FreeIdRange → Option (Nat × List FreeIdRange)
  | [] => none
  | range :: rest =>
    match idrGetFreeIdInRange range with
    | some (id, range') => some (id, range' :: rest)
    | none => (idrTakeId rest).map fun r => (r.1, range :: r.2)

/-! ## The tree of used ids -/

/-- `struct idr_used_id`; a null `obj` is `none`. -/
structure UsedId (α : Type) where
  id : Nat
  obj : Option α
  deriving DecidableEq, Repr

variable {α : Type}

/-- `idr_compare`, as the order the tree is kept in. -/
def idrCompare (a b : UsedId α) : Prop := a.id ≤ b.id

instance (a b : UsedId α) : Decidable (idrCompare a b) := inferInstanceAs (Decidable (a.id ≤ b.id))

/-- `avl_find` -/
def avlFind (used : List (UsedId α)) (id : Nat) : Option (UsedId α) := used.find? (·.id == id)

/-- `avl_add`, which panics on a node that compares equal to one of the tree. -/
def avlAdd (used : List (UsedId α)) (u : UsedId α) : Option (List (UsedId α)) :=
  if (avlFind used u.id).isSome then none else some (used.orderedInsert idrCompare u)

/-- `avl_remove` -/
def avlRemove (used : List (UsedId α)) (u : UsedId α) : List (UsedId α) :=
  used.eraseP (·.id == u.id)

/-! ## `struct idr` -/

/-- `struct idr` -/
structure Idr (α : Type) where
  usedIds : List (UsedId α)
  freeIdRanges : List FreeIdRange
  deriving DecidableEq, Repr

def EINVAL : Int := 22
def ENOMEM : Int := 12

/-- `idr_init` -/
def idrInit : Idr α := { usedIds := [], freeIdRanges := [frNew 0] }

/-- `fr_get`, and `fr_insert` where it finds no range: the ranges and the index of the range that
starts at `start`. -/
def frEnsure (list : List FreeIdRange) (start : Nat) : Option (List FreeIdRange × Nat) :=
  match frGet list start with
  | some k => some (list, k)
  | none => frInsert list start

/-- `idr_get_new_above`: the new id or the error returned, and the idr afterwards. `mem` is the
outcome of the allocation of the used node. -/
def idrGetNewAbove (idrp : Idr α) (obj : Option α) (start : Int32) (mem : Bool) :
    Option (Except Int Nat × Idr α) :=
  if start.toInt < 0 then some (.error (-EINVAL), idrp)
  else do
    let (ranges, k) ← frEnsure idrp.freeIdRanges start.toInt.toNat
    match idrTakeId (ranges.drop k) with
    | none => some (.error (-1), { idrp with freeIdRanges := ranges })
    | some (id, rest) =>
      let idrp := { idrp with freeIdRanges := ranges.take k ++ rest }
      if mem then do
        let used ← avlAdd idrp.usedIds { id := id, obj := obj }
        some (.ok id, { idrp with usedIds := used })
      else some (.error (-ENOMEM), idrp)

/-- `idr_find`, and `idr_find_used_id` below it. -/
def idrFind (idrp : Idr α) (id : Nat) : Option α :=
  match avlFind idrp.usedIds id with
  | some ret => ret.obj
  | none => none

/-- The walk of `idr_remove` to the range of `id`, and the push on its free list. The walk off the
end of the list has no result. -/
def idrPutId (id : Nat) : List FreeIdRange → Option (List FreeIdRange)
  | [] => none
  | range :: rest =>
    if range.stop ≤ id then (idrPutId id rest).map (range :: ·)
    else some ({ range with freeIds := id :: range.freeIds } :: rest)

/-- `idr_remove`; `mem` is the outcome of the allocation of the free node. -/
def idrRemove (idrp : Idr α) (id : Nat) (mem : Bool) : Option (Int × Idr α) :=
  match avlFind idrp.usedIds id with
  | none => some (-EINVAL, idrp)
  | some ide =>
    if mem then do
      let ranges ← idrPutId id idrp.freeIdRanges
      some (0, { usedIds := avlRemove idrp.usedIds ide, freeIdRanges := ranges })
    else some (-ENOMEM, idrp)

/-- `idr_replace`: the object that was stored, `none` where the id is not used, and the idr. -/
def idrReplace (idrp : Idr α) (obj : Option α) (id : Nat) : Option (Option α) × Idr α :=
  match avlFind idrp.usedIds id with
  | none => (none, idrp)
  | some ide =>
    (some ide.obj,
      { idrp with usedIds :=
          idrp.usedIds.map fun u => if u.id == id then { u with obj := obj } else u })

/-- `idr_remove_all`: `idr_destroy` frees every node and range, `idr_init` starts again. -/
def idrRemoveAll (_ : Idr α) : Idr α := idrInit

/-! ## Runs -/

/-- The calls that change an idr, with what they return. -/
inductive IdrCall (α : Type)
  | getNewAbove (obj : Option α) (start : Int32) (mem : Bool) (ret : Except Int Nat)
  | remove (id : Nat) (mem : Bool) (ret : Int)
  | replace (obj : Option α) (id : Nat) (ret : Option (Option α))
  | removeAll

/-- `idrp'` is the idr after a call on `idrp`. -/
def idrCall (idrp : Idr α) (c : IdrCall α) (idrp' : Idr α) : Prop :=
  match c with
  | .getNewAbove obj start mem ret => idrGetNewAbove idrp obj start mem = some (ret, idrp')
  | .remove id mem ret => idrRemove idrp id mem = some (ret, idrp')
  | .replace obj id ret => idrReplace idrp obj id = (ret, idrp')
  | .removeAll => idrRemoveAll idrp = idrp'

/-- Every allocation the call makes succeeds. -/
def IdrCall.MemOk : IdrCall α → Prop
  | .getNewAbove _ _ mem _ => mem = true
  | .remove _ mem _ => mem = true
  | .replace _ _ _ => True
  | .removeAll => True

/-- The id is in the tree of used ids. -/
def Idr.Used (idrp : Idr α) (id : Nat) : Prop := ∃ u ∈ idrp.usedIds, u.id = id

instance (idrp : Idr α) (id : Nat) : Decidable (idrp.Used id) :=
  inferInstanceAs (Decidable (∃ u ∈ idrp.usedIds, u.id = id))

/-- The call does not lose an id: where the allocation of the used node fails, there was no unused
id to take. -/
def IdrCall.NoLeak (idrp : Idr α) : IdrCall α → Prop
  | .getNewAbove _ start mem _ =>
    mem = false → 0 ≤ start.toInt → ∀ id : Nat, start.toInt ≤ id → id < idMax → idrp.Used id
  | .remove _ _ _ => True
  | .replace _ _ _ => True
  | .removeAll => True

/-! ## What an idr is for -/

/-- An id's object, where the id is live. -/
abbrev Store (α : Type) := Nat → Option (Option α)

/-- A call as a change of the finite map from live ids to objects. -/
def Store.call (m : Store α) : IdrCall α → Store α
  | .getNewAbove obj _ _ (.ok id) => Function.update m id (some obj)
  | .getNewAbove _ _ _ (.error _) => m
  | .remove id _ ret => if ret = 0 then Function.update m id none else m
  | .replace obj id (some _) => Function.update m id (some obj)
  | .replace _ _ none => m
  | .removeAll => fun _ => none

/-- The tree of used ids as that map. -/
def Idr.store (idrp : Idr α) : Store α := fun id => (avlFind idrp.usedIds id).map (·.obj)

/-- The object last stored under each live id, read off the calls made. -/
def lastStored (ls : List (IdrCall α)) : Store α := ls.foldl Store.call fun _ => none

end Drm
