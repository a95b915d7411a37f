import SolarisXorg.Drm.I2c

/-!
# What can go wrong in a transfer

A slave can spoil a transfer in three ways: it holds the clock past the timeout, it keeps SDA low
where the master lets go of it, or it does not acknowledge a byte. `walkTransfer` goes through the
periods of the clock that a transfer takes and says which of these comes first, from the messages, the
memory and the slave's script alone, without the lines. A read puts what the slave has supplied in
memory, since a later message may write it.
-/

namespace Drm

/-- What the slave does wrong. -/
inductive I2cFault
  /-- it holds the clock too long -/
  | stretched
  /-- it keeps SDA low -/
  | kept
  /-- it does not acknowledge -/
  | nak
  deriving DecidableEq, Repr

/-- The slave's script and the memory. -/
structure I2cScript where
  periods : List Period
  mem : Nat → BitVec 8

abbrev I2cWalk := EStateM I2cFault I2cScript

/-- One period of the clock, in which a level of SDA may be a fault; the level is returned. -/
def walkPeriod (timeout : Nat) (fault : Bool → Option I2cFault) : I2cWalk Bool := fun x =>
  let p := x.periods.headD released
  if clockFreed timeout 0 p.hold then
    match fault p.sda with
    | some f => .error f x
    | none => .ok p.sda { x with periods := x.periods.tail }
  else .error .stretched x

/-- SDA must be high. -/
def mustRise (sda : Bool) : Option I2cFault := if sda then none else some .kept

/-- SDA must be low. -/
def mustAck (sda : Bool) : Option I2cFault := if sda then some .nak else none

section
variable (timeout : Nat)

/-- A period in which the master lets SDA have the level `v`. -/
def walkBit (v : Bool) : I2cWalk Unit := do
  let _ ← walkPeriod timeout (if v then mustRise else fun _ => none)

def walkBits (c : BitVec 8) : Nat → I2cWalk Unit
  | 0 => return
  | i + 1 => do
    walkBit timeout (c.getLsbD i)
    walkBits c i

/-- A byte from the master and its acknowledge. -/
def walkPutByte (c : BitVec 8) : I2cWalk Unit := do
  walkBits timeout c 8
  let _ ← walkPeriod timeout mustAck

/-- The bits below `i` of a byte from the slave. -/
def walkReadBits (cp : BitVec 8) : Nat → I2cWalk (BitVec 8)
  | 0 => return cp
  | i + 1 => do
    let r ← walkPeriod timeout fun _ => none
    walkReadBits (if r then cp ||| 1#8 <<< i else cp) i

def walkWriteFrom (m : I2cMsg) (i : Nat) : Nat → I2cWalk Unit
  | 0 => return
  | n + 1 => do
    walkPutByte timeout ((← get).mem (m.buf + i))
    walkWriteFrom m (i + 1) n

/-- A byte is put in memory. -/
def I2cScript.store (a : Nat) (c : BitVec 8) (x : I2cScript) : I2cScript :=
  { x with mem := Function.update x.mem a c }

def walkReadFrom (m : I2cMsg) (i : Nat) : Nat → I2cWalk Unit
  | 0 => return
  | n + 1 => do
    let c ← walkReadBits timeout 0 8
    modify (I2cScript.store (m.buf + i) c)
    walkBit timeout (!decide (i + 1 < m.len.toNat))
    walkReadFrom m (i + 1) n

/-- The data bytes of a message. -/
def walkData (m : I2cMsg) : I2cWalk Unit :=
  if m.rd then walkReadFrom timeout m 0 m.len.toNat else walkWriteFrom timeout m 0 m.len.toNat

/-- A START and the address, which message number `i` may do without unless it is the first. -/
def walkOpen (i : Nat) (m : I2cMsg) : I2cWalk Unit :=
  if i ≠ 0 ∧ m.nostart then
    return
  else do
    walkBit timeout true
    walkPutByte timeout m.addrByte

/-- The messages from number `i` on. -/
def walkMsgs (i : Nat) : List I2cMsg → I2cWalk Unit
  | [] => return
  | m :: ms => do
    walkOpen timeout i m
    walkData timeout m
    walkMsgs (i + 1) ms

/-- A transfer; the last period is that of the STOP. -/
def walkTransfer (msgs : List I2cMsg) : I2cWalk Unit := do
  walkMsgs timeout 0 msgs
  walkBit timeout true

/-- The first thing that goes wrong in a transfer. -/
def transferFault (msgs : List I2cMsg) (x : I2cScript) : Option I2cFault :=
  match (walkTransfer timeout msgs).run x with
  | .ok _ _ => none
  | .error f _ => some f

end

end Drm
