import Mathlib.Logic.Function.Basic
import SolarisXorg.Lib.Run

/-!
# Magic numbers (`drm_auth.c`)

`drm_getmagic` gives a file a number from `sequence`, which all files of all masters share, and
registers it with the file's master; `drm_authmagic` authenticates the file that is registered under
a number and takes it off the list.

A step is one access to what is shared: the read of `sequence`, the compare-and-set, a call of
`drm_find_file`, of `drm_add_magic` or of `drm_remove_magic`. Calls of different files are cut between
their steps in any way; a file makes one call of `drm_getmagic` at a time, and is released when none
is in progress. `master` gives the master of a file.
-/

namespace Drm

/-- Where a file is in `drm_getmagic`. -/
inductive MagicPc
  /-- in no call -/
  | idle
  /-- before `int old = sequence` -/
  | read
  /-- before `atomic_cmpset_int`; `auth->magic` is `old + 1` -/
  | cmpset (old : BitVec 32)
  /-- before `drm_find_file`; the flag is whether `atomic_cmpset_int` succeeded -/
  | find (old : BitVec 32) (swapped : Bool)
  /-- before `drm_add_magic` -/
  | add
  deriving DecidableEq, Repr

/-- The fields of `struct drm_file` for magic numbers. -/
structure MagicFile where
  magic : BitVec 32
  authenticated : Bool
  /-- `drm_release` was called. -/
  released : Bool
  pc : MagicPc
  deriving DecidableEq, Repr

/-- `sequence`, the hash lists `magiclist` of the masters, the files, and the calls of
`drm_authmagic` that have found a file: the caller, the number and the file. -/
structure MagicSys where
  sequence : BitVec 32
  magiclist : Nat → Nat → List (BitVec 32 × Nat)
  files : Nat → MagicFile
  authmagic : List (Nat × BitVec 32 × Nat)

/-- `drm_hash_magic` -/
def drmHashMagic (magic : BitVec 32) : Nat := (magic &&& 15).toNat

namespace MagicSys

variable (s : MagicSys)

def setFile (file : Nat) (f : MagicFile) : MagicSys :=
  { s with files := Function.update s.files file f }

def setPc (file : Nat) (pc : MagicPc) : MagicSys :=
  s.setFile file { s.files file with pc := pc }

def setList (m hash : Nat) (l : List (BitVec 32 × Nat)) : MagicSys :=
  { s with
    magiclist := Function.update s.magiclist m (Function.update (s.magiclist m) hash l) }

/-- `drm_find_file` -/
def drmFindFile (m : Nat) (magic : BitVec 32) : Option Nat :=
  ((s.magiclist m (drmHashMagic magic)).find? (·.1 = magic)).map (·.2)

/-- `drm_add_magic`; `alloc` is whether `drm_alloc` succeeds. -/
def drmAddMagic (m file : Nat) (magic : BitVec 32) (alloc : Bool) : MagicSys :=
  let hash := drmHashMagic magic
  if alloc then s.setList m hash (s.magiclist m hash ++ [(magic, file)]) else s

/-- `drm_remove_magic` -/
def drmRemoveMagic (m : Nat) (magic : BitVec 32) : MagicSys :=
  let hash := drmHashMagic magic
  s.setList m hash ((s.magiclist m hash).eraseP (·.1 = magic))

end MagicSys

/-- One step of the system. -/
inductive MagicCall
  /-- The next step of the file's `drm_getmagic`, or the start of one. -/
  | getmagic (file : Nat) (alloc : Bool)
  /-- `drm_authmagic`, as far as `drm_find_file` -/
  | authmagic (caller : Nat) (magic : BitVec 32)
  /-- The rest of a call of `drm_authmagic` that has found a file. -/
  | authenticate (i : Nat)
  /-- `drm_release` -/
  | release (file : Nat)
  deriving DecidableEq, Repr

section Step

variable (master : Nat → Nat)

/-- The next step of `drm_getmagic`. After a failed `atomic_cmpset_int` the `continue` goes on with
the condition of the loop. -/
def drmGetmagic (s : MagicSys) (file : Nat) (alloc : Bool) : MagicSys :=
  let f := s.files file
  match f.pc with
  | .idle => if f.magic ≠ 0 then s else s.setPc file .read
  | .read => s.setPc file (.cmpset s.sequence)
  | .cmpset old =>
    if s.sequence = old then { s with sequence := old + 1 }.setPc file (.find old true)
    else s.setPc file (.find old false)
  | .find old _ =>
    match s.drmFindFile (master file) (old + 1) with
    | some _ => s.setPc file .read
    | none => s.setFile file { f with magic := old + 1, pc := .add }
  | .add => (s.drmAddMagic (master file) file f.magic alloc).setPc file .idle

/-- `drm_authmagic`, as far as `drm_find_file` -/
def drmAuthmagic (s : MagicSys) (caller : Nat) (magic : BitVec 32) : MagicSys :=
  match s.drmFindFile (master caller) magic with
  | some file => { s with authmagic := (caller, magic, file) :: s.authmagic }
  | none => s

/-- The rest of `drm_authmagic`. -/
def drmAuthenticate (s : MagicSys) (caller : Nat) (magic : BitVec 32) (file : Nat) : MagicSys :=
  (s.setFile file { s.files file with authenticated := true }).drmRemoveMagic (master caller) magic

/-- `drm_release`, as far as magic numbers go -/
def drmReleaseMagic (s : MagicSys) (file : Nat) : MagicSys :=
  let f := s.files file
  let s := if f.magic ≠ 0 then s.drmRemoveMagic (master file) f.magic else s
  s.setFile file { f with released := true }

/-- One step; `none` for one that cannot be taken here. -/
def magicStep (s : MagicSys) : MagicCall → Option MagicSys
  | .getmagic file alloc =>
    if (s.files file).released then none else some (drmGetmagic master s file alloc)
  | .authmagic caller magic =>
    if (s.files caller).released then none else some (drmAuthmagic master s caller magic)
  | .authenticate i =>
    s.authmagic[i]?.map fun (caller, magic, file) =>
      drmAuthenticate master { s with authmagic := s.authmagic.eraseIdx i } caller magic file
  | .release file =>
    if !(s.files file).released ∧ (s.files file).pc = .idle ∧
        s.authmagic.all (·.1 ≠ file) then
      some (drmReleaseMagic master s file)
    else none

/-- What `drm_getmagic` relies on: `sequence` does not wrap, and a number whose `atomic_cmpset_int`
failed is found registered, so that the loop goes on. -/
def MagicSys.retries (s : MagicSys) : MagicCall → Bool
  | .getmagic file _ =>
    match (s.files file).pc with
    | .cmpset old => s.sequence != old || old != 0xffffffff
    | .find old swapped => swapped || (s.drmFindFile (master file) (old + 1)).isSome
    | _ => true
  | _ => true

/-- Runs in which every step meets this. -/
def RetryRun : MagicSys → List MagicCall → MagicSys → Prop :=
  Lib.Run fun s l t => s.retries master l = true ∧ magicStep master s l = some t

end Step

/-- After the module is loaded. -/
def magicInit : MagicSys where
  sequence := 0
  magiclist _ _ := []
  files _ := ⟨0, false, false, .idle⟩
  authmagic := []

end Drm
