import Mathlib.Data.List.Basic

/-!
# Dispatching a request (`drm_ioctl`)

`drmIoctl` finds the entry of a command word in the driver's table or in the core's, checks the
caller's rights, chooses the buffer `kdata` and copies the argument in and out around the call of the
handler. What it does to `kdata` is the list of its `IoctlEvent`s, and what the rest of the kernel
answers is the `IoctlEnv`. The layout of a command word comes from `ioccom.h` and `drm.h`, which are
not in this repository: it is `IocLayout`.
-/

namespace Drm

/-- The layout of a command word, and the range of the numbers that belong to the driver
(`_IOC_NRSHIFT`, `_IOC_NRBITS`, `_IOC_SIZESHIFT`, `_IOC_SIZEBITS`, `IOC_IN`, `IOC_OUT`,
`DRM_COMMAND_BASE`, `DRM_COMMAND_END`, `DRM_IOCTL_NR(DRM_IOCTL_DMA)`). -/
structure IocLayout where
  nrShift : Nat
  nrBits : Nat
  sizeShift : Nat
  sizeBits : Nat
  iocIn : BitVec 32
  iocOut : BitVec 32
  commandBase : Nat
  commandEnd : Nat
  dmaNr : Nat

/-- The layout of `ioccom.h`, with the numbers of `drm.h`. -/
def solarisIoc : IocLayout where
  nrShift := 0
  nrBits := 8
  sizeShift := 16
  sizeBits := 8
  iocIn := 0x80000000
  iocOut := 0x40000000
  commandBase := 0x40
  commandEnd := 0xA0
  dmaNr := 0x29

/-- A field of a command word, which is an `int`: the shift keeps the sign. -/
def iocField (shift bits : Nat) (cmd : BitVec 32) : Nat :=
  (cmd.sshiftRight shift &&& (1#32 <<< bits - 1)).toNat

/-- `DRM_IOCTL_NR` -/
def IocLayout.nr (l : IocLayout) (cmd : BitVec 32) : Nat := iocField l.nrShift l.nrBits cmd

/-- `_IOC_SIZE` -/
def IocLayout.size (l : IocLayout) (cmd : BitVec 32) : Nat := iocField l.sizeShift l.sizeBits cmd

/-- `struct drm_ioctl_desc`; a handler is known by a number, a converter by its being there. -/
structure IoctlDesc where
  func : Option Nat
  flags : BitVec 32
  cmd : BitVec 32
  copyin32 : Bool
  copyout32 : Bool
  deriving DecidableEq, Repr

def DRM_AUTH : BitVec 32 := 0x1
def DRM_MASTER : BitVec 32 := 0x2
def DRM_ROOT_ONLY : BitVec 32 := 0x4
def DRM_CONTROL_ALLOW : BitVec 32 := 0x8

/-- The caller and what the kernel around `drm_ioctl` answers. -/
structure IoctlEnv where
  /-- `DRM_SUSER` -/
  suser : Bool
  authenticated : Bool
  isMaster : Bool
  /-- the minor is `DRM_MINOR_CONTROL` -/
  control : Bool
  /-- the caller is a 32-bit program -/
  ilp32 : Bool
  kmallocFails : Bool
  copyinFails : Bool
  copyoutFails : Bool
  /-- what the handlers return -/
  ret : Nat → Int

/-- What `kdata` points to. -/
inductive Kdata
  | null
  | stack
  | heap (size : Nat)
  deriving DecidableEq, Repr

/-- The bytes there are; `stack_kdata` has 128. -/
def Kdata.capacity : Kdata → Nat
  | .null => 0
  | .stack => 128
  | .heap size => size

inductive IoctlEvent
  /-- `memset` of the bytes from `start` on -/
  | clear (start len : Nat)
  | copyin (len : Nat)
  | copyin32
  | call (func : Nat)
  | copyout (len : Nat)
  | copyout32
  deriving DecidableEq, Repr

/-- The bytes of `kdata` from its start that an event touches; the handler and the converters keep to
the type of their entry. -/
def IoctlEvent.extent : IoctlEvent → Nat
  | .clear start len => start + len
  | .copyin len => len
  | .copyout len => len
  | .copyin32 | .copyout32 | .call _ => 0

structure IoctlResult where
  retcode : Int
  kdata : Kdata
  events : List IoctlEvent
  deriving DecidableEq, Repr

section
variable (l : IocLayout) (core driver : List IoctlDesc) (dmaIoctl : Option Nat) (env : IoctlEnv)

/-- The entry for a command word, with `usize` and `asize`: for a driver's command they are the size
in the caller's word, for a core command the size in the table. -/
def ioctlEntry (cmd : BitVec 32) : Option (IoctlDesc × Nat) :=
  let nr := l.nr cmd
  if core.length ≤ nr ∧ (nr < l.commandBase ∨ l.commandEnd ≤ nr) then none
  else if l.commandBase ≤ nr ∧ nr < l.commandEnd ∧ nr < l.commandBase + driver.length then
    driver[nr - l.commandBase]?.map fun ioctl => (ioctl, l.size cmd)
  else if l.commandEnd ≤ nr ∨ nr < l.commandBase then
    core[nr]?.map fun ioctl => (ioctl, l.size ioctl.cmd)
  else none

/-- The handler, with the override of the driver. -/
def ioctlFunc (cmd : BitVec 32) (ioctl : IoctlDesc) : Option Nat :=
  if l.nr cmd = l.dmaNr ∧ dmaIoctl.isSome = true then dmaIoctl else ioctl.func

/-- The caller lacks a right that the entry asks for. -/
def ioctlDenied (ioctl : IoctlDesc) : Bool :=
  (ioctl.flags &&& DRM_ROOT_ONLY != 0 && !env.suser) ||
  (ioctl.flags &&& DRM_AUTH != 0 && !env.authenticated) ||
  (ioctl.flags &&& DRM_MASTER != 0 && !env.isMaster) ||
  (ioctl.flags &&& DRM_CONTROL_ALLOW == 0 && env.control)

/-- The choice of `kdata`; there is none if `kmalloc` fails. -/
def ioctlKdata (cmd : BitVec 32) (asize : Nat) : Option Kdata :=
  if cmd &&& (l.iocIn ||| l.iocOut) = 0#32 then some .null
  else if asize ≤ 128 then some .stack
  else if env.kmallocFails then none
  else some (.heap asize)

/-- The first copy: what is done, and whether it fails. -/
def ioctlCopyin (ioctl : IoctlDesc) : List IoctlEvent × Bool :=
  if ioctl.cmd &&& l.iocIn = 0#32 then ([], false)
  else if env.ilp32 && ioctl.copyin32 then ([.copyin32], env.copyinFails)
  else ([.copyin (l.size ioctl.cmd)], env.copyinFails)

/-- The second copy. -/
def ioctlCopyout (ioctl : IoctlDesc) : List IoctlEvent × Bool :=
  if ioctl.cmd &&& l.iocOut = 0#32 then ([], false)
  else if env.ilp32 && ioctl.copyout32 then ([.copyout32], env.copyoutFails)
  else ([.copyout (l.size ioctl.cmd)], env.copyoutFails)

/-- The copies and the call of the handler. -/
def ioctlDispatch (ioctl : IoctlDesc) (func : Nat) (usize asize : Nat) (kdata : Kdata) :
    IoctlResult :=
  let cleared := if usize < asize ∧ kdata ≠ .null then [.clear usize (asize - usize)] else []
  let (copyin, inFails) := ioctlCopyin l env ioctl
  if inFails then ⟨-14, kdata, cleared ++ copyin⟩
  else
    let (copyout, outFails) := ioctlCopyout l env ioctl
    ⟨if outFails then -14 else env.ret func, kdata, cleared ++ copyin ++ [.call func] ++ copyout⟩

/-- `drm_ioctl` -/
def drmIoctl (cmd : BitVec 32) : IoctlResult :=
  match ioctlEntry l core driver cmd with
  | none => ⟨-22, .null, []⟩
  | some (ioctl, asize) =>
    match ioctlFunc l dmaIoctl cmd ioctl with
    | none => ⟨-22, .null, []⟩
    | some func =>
      if ioctlDenied env ioctl then ⟨-13, .null, []⟩
      else
        match ioctlKdata l env ioctl.cmd asize with
        | none => ⟨-12, .null, []⟩
        | some kdata => ioctlDispatch l env ioctl func asize asize kdata

/-- The driver's entry for a command word. -/
def driverEntry (cmd : BitVec 32) : Option IoctlDesc :=
  if l.commandBase ≤ l.nr cmd ∧ l.nr cmd < l.commandEnd then driver[l.nr cmd - l.commandBase]?
  else none

/-- A request that gets as far as the copies makes one without a converter. -/
def PlainCopy (ioctl : IoctlDesc) : Prop :=
  (ioctl.cmd &&& l.iocIn ≠ 0#32 ∧ (env.ilp32 && ioctl.copyin32) = false) ∨
    (ioctl.cmd &&& l.iocOut ≠ 0#32 ∧ (env.ilp32 && ioctl.copyout32) = false ∧
      (ioctl.cmd &&& l.iocIn ≠ 0#32 → env.copyinFails = false))

/-- The request gets as far as the copies for an entry: there is a handler, the rights suffice and
there is a buffer. -/
def Admitted (cmd : BitVec 32) (ioctl : IoctlDesc) (asize : Nat) : Prop :=
  (ioctlFunc l dmaIoctl cmd ioctl).isSome = true ∧ ioctlDenied env ioctl = false ∧
    (ioctlKdata l env ioctl.cmd asize).isSome = true

end

end Drm
