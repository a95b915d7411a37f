import SolarisXorg.Drm.Gem

/-!
# Id lists that share a counter (`drm_sun_idr.c`)

Every file has an id list for its handles and the device has one for names, and all of them take
their ids from the globals `fr_id` and `fr_time`. Here the lists are numbered. What is live in them
is read off the calls made so far and their results (`liveHandles`), and `LiveHandles.Serves` says
what a call is to return.
-/

namespace Drm

variable {α : Type}

/-- The globals, and the lists that take their ids from them. -/
structure IdrLists (α : Type) where
  ids : FrIds := {}
  table : Nat → IdrList α := fun _ => idrListInit

/-- A call on the list `t`; `mem` says whether the `KM_NOSLEEP` allocation succeeds. -/
inductive IdrListCall (α : Type)
  | getNewAbove (t : Nat) (obj : α) (mem : Bool)
  | find (t : Nat) (name : UInt32)
  | remove (t : Nat) (name : UInt32)

/-- What the three functions return: a handle or an error, an object or `NULL`, a status. -/
inductive IdrListRet (α : Type)
  | handle (ret : Except Int UInt32)
  | object (ret : Option α)
  | status (ret : Int)

/-- The result of a call, and the lists after it. -/
def IdrLists.call (s : IdrLists α) : IdrListCall α → IdrListRet α × IdrLists α
  | .getNewAbove t obj mem =>
    let (ret, ids, head) := idrListGetNewAbove s.ids (s.table t) obj mem
    (.handle ret, { ids := ids, table := Function.update s.table t head })
  | .find t name => (.object (idrListFind (s.table t) name), s)
  | .remove t name =>
    let (ret, head) := idrListRemove (s.table t) name
    (.status ret, { s with table := Function.update s.table t head })

/-- `fr_time` does not wrap in the call. -/
def IdrLists.NoWrap (s : IdrLists α) : IdrListCall α → Prop
  | .getNewAbove .. => s.ids.NoWrap
  | _ => True

/-- A call with its result, as a step. -/
def idrListStep (s : IdrLists α) (l : IdrListCall α × IdrListRet α) (s' : IdrLists α) : Prop :=
  s.NoWrap l.1 ∧ s.call l.1 = (l.2, s')

/-! ## What id lists are for -/

/-- The objects under the live handles of the lists. -/
abbrev LiveHandles (α : Type) := Nat → UInt32 → Option α

/-- What a call makes of them: `remove` takes the handle it names, no other. -/
def LiveHandles.after (m : LiveHandles α) : IdrListCall α → IdrListRet α → LiveHandles α
  | .getNewAbove t obj _, .handle (.ok id) =>
    Function.update m t (Function.update (m t) id (some obj))
  | .remove t name, _ => Function.update m t (Function.update (m t) name none)
  | _, _ => m

/-- The live handles, read off the calls made. -/
def liveHandles (log : List (IdrListCall α × IdrListRet α)) : LiveHandles α :=
  log.foldl (fun m l => m.after l.1 l.2) fun _ _ => none

/-- The ids that are handed out. -/
def IsHandle (id : UInt32) : Prop := 1 ≤ id ∧ id < 0x7fffffff

/-- What a call returns: a handle that is not in use in its list, the object of a live handle and
nothing for another name, and whether there was a handle to remove. -/
def LiveHandles.Serves (m : LiveHandles α) : IdrListCall α → IdrListRet α → Prop
  | .getNewAbove t _ _, .handle (.ok id) => IsHandle id ∧ m t id = none
  | .getNewAbove .., .handle (.error ret) => ret = -EAGAIN ∨ ret = -1
  | .find t name, .object obj => obj = m t name
  | .remove t name, .status ret => ret = if (m t name).isSome then 0 else -1
  | _, _ => False

end Drm
