import SolarisXorg.Lib.Run

/-!
# Flink and close on one object at the same time (`drm_gem.c`, `drm_drv.c`)

One thread runs `drm_gem_flink_ioctl`, another `drm_gem_close_ioctl`, on handles of the same object.
The steps of a thread are the critical sections of `table_lock` and `object_name_lock` and the single
atomic updates of `refcount` and `handle_count`; a program counter says which comes next. The
object's other handles and references, those of clients that do nothing meanwhile, are numbers.

`obj->name` and the entry of `object_name_idr` are set and cleared in the same critical sections,
so that one flag stands for both. The two threads add two references at most, and the counters are
numbers here.
-/

namespace Drm

/-- The next step of `drm_gem_flink_ioctl`. -/
inductive FlinkPc
  /-- `drm_gem_object_lookup` -/
  | lookup
  /-- the critical section of `object_name_lock` -/
  | naming
  /-- `drm_gem_object_reference`, for the name table -/
  | reference
  /-- `drm_gem_object_unreference_unlocked` -/
  | unreference
  | done
  deriving DecidableEq, Repr

/-- The next step of `drm_gem_close_ioctl`. -/
inductive ClosePc
  /-- the critical section of `table_lock` in `drm_gem_handle_delete` -/
  | remove
  /-- `atomic_read` in `drm_gem_object_handle_unreference_unlocked` -/
  | read
  /-- `atomic_dec_and_test` -/
  | decrement
  /-- the critical section of `object_name_lock` in `drm_gem_object_handle_free` -/
  | unname
  /-- `kref_put` for the name -/
  | putName
  /-- `drm_gem_object_unreference_unlocked` -/
  | unreference
  | done
  deriving DecidableEq, Repr

/-- What else is known about the object. -/
structure RaceSetup where
  /-- both threads use the same handle -/
  sharedHandle : Bool
  /-- handles of the object other than the two of the threads -/
  otherHandles : Nat
  /-- references held by other callers -/
  otherRefs : Nat
  /-- the object has a name already -/
  named : Bool
  deriving DecidableEq, Repr

/-- The object and the two threads. `entry` is whether the handle to close is in its table. -/
structure Race where
  refcount : Nat
  handleCount : Nat
  named : Bool
  entry : Bool
  freed : Bool
  bug : Bool
  flink : FlinkPc
  close : ClosePc
  deriving DecidableEq, Repr

/-- The handles of the object that neither thread closes. -/
def RaceSetup.keptHandles (c : RaceSetup) : Nat := (if c.sharedHandle then 0 else 1) + c.otherHandles

/-- The handles of the object that are in a table. -/
def Race.handles (c : RaceSetup) (s : Race) : Nat := (if s.entry then 1 else 0) + c.keptHandles

/-- Neither thread has started. -/
def raceInit (c : RaceSetup) : Race where
  refcount := 1 + c.keptHandles + (if c.named then 1 else 0) + c.otherRefs
  handleCount := 1 + c.keptHandles
  named := c.named
  entry := true
  freed := false
  bug := false
  flink := .lookup
  close := .remove

/-- What `idr_list_get_new_above` answers. -/
inductive NewName
  | got
  | failed
  | again
  deriving DecidableEq, Repr

/-- Which thread moves. -/
inductive RaceMove
  | flink (name : NewName)
  | close
  deriving DecidableEq, Repr

/-- `kref_put` with `drm_gem_object_free` -/
def Race.put (s : Race) : Race :=
  { s with refcount := s.refcount - 1, freed := s.freed || s.refcount - 1 == 0 }

/-- The critical section of `object_name_lock` in `drm_gem_flink_ioctl`. -/
def Race.giveName (s : Race) (name : NewName) : Race :=
  if s.named then { s with flink := .unreference }
  else
    match name with
    | .got => { s with named := true, flink := .reference }
    | .failed => { s with flink := .unreference }
    | .again => s

/-- One step of `drm_gem_flink_ioctl`. -/
def flinkStep (c : RaceSetup) (s : Race) (name : NewName) : Option Race :=
  match s.flink with
  | .lookup =>
    if s.entry || !c.sharedHandle then
      some { s with refcount := s.refcount + 1, flink := .naming }
    else some { s with flink := .done }
  | .naming => some (s.giveName name)
  | .reference => some { s with refcount := s.refcount + 1, flink := .unreference }
  | .unreference => some { s.put with flink := .done }
  | .done => none

/-- One step of `drm_gem_close_ioctl`. -/
def closeStep (s : Race) : Option Race :=
  match s.close with
  | .remove => if s.entry then some { s with entry := false, close := .read }
    else some { s with close := .done }
  | .read => if s.handleCount = 0 then some { s with close := .done }
    else some { s with close := .decrement }
  | .decrement => some { s with
      handleCount := s.handleCount - 1
      close := if s.handleCount - 1 = 0 then .unname else .unreference }
  | .unname => if s.named then some { s with named := false, close := .putName }
    else some { s with close := .unreference }
  | .putName => some { s with
      refcount := s.refcount - 1
      bug := s.bug || s.refcount - 1 == 0
      close := .unreference }
  | .unreference => some { s.put with close := .done }
  | .done => none

/-- One step of one of the threads. -/
def raceStep (c : RaceSetup) (s : Race) : RaceMove → Option Race
  | .flink name => flinkStep c s name
  | .close => closeStep s

/-- `drm_gem_flink_ioctl` has its lookup reference, or a name reference still to take. -/
def Race.FlinkHolds (s : Race) : Prop :=
  s.flink = .naming ∨ s.flink = .reference ∨ s.flink = .unreference

/-- What is to hold in every state: the object outlives flink's hold on it, and a name that is left
in the end is that of an object with a handle. -/
def Race.Safe (c : RaceSetup) (s : Race) : Prop :=
  (s.FlinkHolds → s.freed = false) ∧
    (s.flink = .done → s.close = .done → s.named = true → 0 < s.handles c)

/-- `drm_gem_close_ioctl` has dropped the last handle and is done with the name. -/
def Race.NameDropped (s : Race) : Prop :=
  s.handleCount = 0 ∧ (s.close = .putName ∨ s.close = .unreference ∨ s.close = .done)

/-- The two steps that must not be: flink gives a name after close is done with it, and close drops
the last reference while flink has given a name and not yet taken the reference for it. -/
def Race.InOrder (s : Race) : RaceMove → Prop
  | .flink name => ¬ (s.flink = .naming ∧ s.named = false ∧ name = .got ∧ s.NameDropped)
  | .close => ¬ (s.close = .unreference ∧ s.flink = .reference ∧ s.refcount = 1)

end Drm
