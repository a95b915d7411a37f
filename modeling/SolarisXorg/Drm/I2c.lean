import Mathlib.Logic.Function.Iterate
import SolarisXorg.Lib.I2cLine

/-!
# Bit-banged I2C: the transfer routines and the message level

`drm_sun_i2c.c` drives the two lines of an adapter by hand. `I2cBus` holds what the adapter drives,
what the slave does and the levels the lines have had; the routines below are those of the source, in
its order of line writes. A slave is the list of what it does in each period of the clock, a period
being the time from one falling edge of SCL to the next: the level it lets SDA have, and for how many
ticks it holds SCL after the master has let go of it (`Period`).

Over them stands the message level: `transferEvents` and `transferMem` say what a transfer is on the
lines and in memory, and `idealSlave` is the slave that answers it: it never holds the clock,
acknowledges every address and every written byte and supplies the bytes of a stream to the reads.
-/

namespace Drm

open Lib.I2c

/-! ## The lines -/

inductive I2cErrno
  | etimedout
  | ebusy
  | enotsup
  | enxio
  deriving DecidableEq, Repr

/-- What the slave does in one period of the clock. -/
structure Period where
  /-- the level it lets SDA have -/
  sda : Bool
  /-- the ticks it keeps SCL low when the master has let go of it -/
  hold : Nat
  deriving DecidableEq, Repr

/-- Both lines are left alone. -/
def released : Period := ⟨true, 0⟩

/-- An adapter and what is on its lines. -/
structure I2cBus where
  /-- SCL as the adapter drives it; `true` lets go of the line -/
  scl : Bool
  /-- SDA as the adapter drives it -/
  sda : Bool
  /-- `adap->timeout` -/
  timeout : Nat
  /-- the slave from this period of the clock on -/
  slave : List Period
  /-- the levels the lines have had, one entry for each write to a line -/
  trace : List Levels
  /-- the memory the buffers of the messages lie in -/
  mem : Nat → BitVec 8

namespace I2cBus

/-- The slave in this period; a script that has run out leaves the lines alone. -/
def now (b : I2cBus) : Period := b.slave.headD released

/-- The lines are low when anyone keeps them low. -/
def levels (b : I2cBus) : Levels := ⟨b.scl && b.now.hold == 0, b.sda && b.now.sda⟩

def record (b : I2cBus) : I2cBus := { b with trace := b.trace ++ [b.levels] }

/-- `adap->setsda` -/
def setsda (v : Bool) (b : I2cBus) : I2cBus := record { b with sda := v }

/-- `adap->setscl`: the slave moves on to its next period when SCL has fallen. -/
def setscl (v : Bool) (b : I2cBus) : I2cBus :=
  if b.levels.scl && !v then record { record { b with scl := v } with slave := b.slave.tail }
  else record { b with scl := v }

/-- The slave lets go of a clock that it has held. -/
def letGo (b : I2cBus) : I2cBus :=
  if b.now.hold = 0 then b
  else record { b with slave := { b.now with hold := 0 } :: b.slave.tail }

end I2cBus

/-- A routine of the adapter: it may fail, and leaves the lines as they are then. -/
abbrev I2cM := EStateM I2cErrno I2cBus

def i2cGetsda : I2cM Bool := return (← get).levels.sda

def i2cGetscl : I2cM Bool := return (← get).levels.scl

def i2cSetsda : I2cM Unit := modify (I2cBus.setsda true)

def i2cClrsda : I2cM Unit := modify (I2cBus.setsda false)

def i2cClrscl : I2cM Unit := modify (I2cBus.setscl false)

/-- Whether SCL comes high in time; the slave still holds it for the given ticks, and `elapsed` have
gone by. -/
def clockFreed (timeout elapsed : Nat) : Nat → Bool
  | 0 => true
  | hold + 1 => if timeout < elapsed then false else clockFreed timeout (elapsed + 1) hold

/-- The clock is let go; `false` is `-ETIMEDOUT`. -/
def i2cSetscl : I2cM Bool := do
  modify (I2cBus.setscl true)
  let b ← get
  if clockFreed b.timeout 0 b.now.hold then
    modify I2cBus.letGo
    return true
  else
    return false

/-- `I2C_HI_CLOCK` -/
def i2cHiClock : I2cM Unit := do
  if ← i2cSetscl then
    return
  else
    i2cSetsda
    throw .etimedout

/-- The guard of every routine but `i2cStart`: the clock must be low. -/
def i2cNeedLow : I2cM Unit := do
  if ← i2cGetscl then
    throw .enotsup

/-- The guard against another master, who keeps SDA low. -/
def i2cNeedSda : I2cM Unit := do
  unless ← i2cGetsda do
    throw .ebusy

/-! ## Conditions and bytes -/

def i2cStart : I2cM Unit := do
  i2cSetsda
  unless ← i2cSetscl do
    throw .etimedout
  i2cNeedSda
  i2cClrsda
  i2cClrscl

def i2cStop : I2cM Unit := do
  i2cNeedLow
  i2cClrsda
  i2cHiClock
  i2cSetsda
  i2cNeedSda

/-- One pass of the loop of `i2c_write_byte`. -/
def i2cWriteBit (v : Bool) : I2cM Unit := do
  if v then i2cSetsda else i2cClrsda
  i2cHiClock
  if v then
    i2cNeedSda
    i2cNeedSda
  i2cClrscl

/-- The loop of `i2c_write_byte`, with the bits below `i` still to be written. -/
def i2cWriteBits (c : BitVec 8) : Nat → I2cM Unit
  | 0 => return
  | i + 1 => do
    i2cWriteBit (c.getLsbD i)
    i2cWriteBits c i

def i2cWriteByte (c : BitVec 8) : I2cM Unit := do
  i2cNeedLow
  i2cWriteBits c 8

/-- One pass of the loop of `i2c_read_byte`. -/
def i2cReadBit : I2cM Bool := do
  i2cHiClock
  let r ← i2cGetsda
  unless r = (← i2cGetsda) do
    throw .ebusy
  i2cClrscl
  return r

/-- The loop of `i2c_read_byte`, with the bits below `i` still to be read. -/
def i2cReadBits (cp : BitVec 8) : Nat → I2cM (BitVec 8)
  | 0 => return cp
  | i + 1 => do
    let r ← i2cReadBit
    i2cReadBits (if r then cp ||| 1#8 <<< i else cp) i

def i2cReadByte : I2cM (BitVec 8) := do
  i2cNeedLow
  i2cSetsda
  i2cReadBits 0 8

def i2cAck : I2cM Unit := do
  i2cNeedLow
  i2cClrsda
  i2cHiClock
  i2cClrscl

def i2cNoAck : I2cM Unit := do
  i2cNeedLow
  i2cSetsda
  i2cHiClock
  i2cNeedSda
  i2cNeedSda
  i2cClrscl

/-- Whether the slave has acknowledged. -/
def i2cWaitAck : I2cM Bool := do
  i2cNeedLow
  i2cSetsda
  i2cHiClock
  let ret := !(← i2cGetsda)
  i2cClrscl
  return ret

/-- A byte written, and its acknowledge. -/
def i2cPutByte (c : BitVec 8) : I2cM Unit := do
  i2cWriteByte c
  unless ← i2cWaitAck do
    throw .enxio

/-! ## Messages -/

/-- `struct i2c_msg`; the buffer is the address of its first byte. -/
structure I2cMsg where
  addr : BitVec 16
  flags : BitVec 16
  len : BitVec 16
  buf : Nat
  deriving DecidableEq, Repr

namespace I2cMsg

/-- `I2C_M_RD` -/
def rd (m : I2cMsg) : Bool := m.flags &&& 0x01 != 0

/-- `I2C_M_NOSTART` -/
def nostart (m : I2cMsg) : Bool := m.flags &&& 0x02 != 0

/-- The byte that addresses the slave: `addr << 1`, cut to a byte, and the direction. -/
def addrByte (m : I2cMsg) : BitVec 8 :=
  if m.rd then (m.addr <<< 1).setWidth 8 ||| 1 else (m.addr <<< 1).setWidth 8

end I2cMsg

/-- The loop of `i2c_write_msg` from byte `i` on, with `n` bytes to go. -/
def i2cWriteFrom (m : I2cMsg) (i : Nat) : Nat → I2cM Unit
  | 0 => return
  | n + 1 => do
    i2cPutByte ((← get).mem (m.buf + i))
    i2cWriteFrom m (i + 1) n

def i2cWriteMsg (m : I2cMsg) : I2cM Unit := i2cWriteFrom m 0 m.len.toNat

/-- `buf[i] = c` -/
def I2cBus.store (a : Nat) (c : BitVec 8) (b : I2cBus) : I2cBus :=
  { b with mem := Function.update b.mem a c }

/-- The acknowledge of byte `i` of a read message: the last byte gets none. -/
def i2cReadAck (m : I2cMsg) (i : Nat) : I2cM Unit :=
  if i + 1 < m.len.toNat then i2cAck else i2cNoAck

/-- The loop of `i2c_read_msg` from byte `i` on, with `n` bytes to go. -/
def i2cReadFrom (m : I2cMsg) (i : Nat) : Nat → I2cM Unit
  | 0 => return
  | n + 1 => do
    let c ← i2cReadByte
    modify (I2cBus.store (m.buf + i) c)
    i2cReadAck m i
    i2cReadFrom m (i + 1) n

def i2cReadMsg (m : I2cMsg) : I2cM Unit := i2cReadFrom m 0 m.len.toNat

def i2cAddress (m : I2cMsg) : I2cM Unit := i2cPutByte m.addrByte

/-- The START of message number `i`, which it may do without unless it is the first. -/
def i2cOpenMsg (i : Nat) (m : I2cMsg) : I2cM Unit :=
  if i ≠ 0 ∧ m.nostart then
    return
  else do
    i2cStart
    i2cAddress m

/-- One pass of the loop of `i2c_do_transfer`, for message number `i`. -/
def i2cDoMsg (i : Nat) (m : I2cMsg) : I2cM Unit := do
  i2cOpenMsg i m
  if m.rd then i2cReadMsg m else i2cWriteMsg m

/-- The loop of `i2c_do_transfer` from message `i` on. -/
def i2cDoMsgs (i : Nat) : List I2cMsg → I2cM Unit
  | [] => return
  | m :: ms => do
    i2cDoMsg i m
    i2cDoMsgs (i + 1) ms

/-- `i2c_do_transfer`, with `num` the number of messages. -/
def i2cDoTransfer (msgs : List I2cMsg) : I2cM Nat := do
  i2cDoMsgs 0 msgs
  i2cStop
  return msgs.length

/-! ## Retries -/

def ETIMEDOUT : Int := 145

/-- The error numbers. -/
def I2cErrno.code : I2cErrno → Int
  | .etimedout => ETIMEDOUT
  | .ebusy => 16
  | .enotsup => 48
  | .enxio => 6

/-- `i2c_do_transfer` as a `master_xfer`: the value it returns and the bus it leaves. -/
def i2cBitXfer (msgs : List I2cMsg) (b : I2cBus) : Int × I2cBus :=
  match i2cDoTransfer msgs b with
  | .ok num b => (num, b)
  | .error e b => (-e.code, b)

section
variable {S : Type*} (masterXfer : S → Int × S) (late : Nat → Bool)

/-- The loop of `i2c_transfer` from attempt `i` on, with `n` attempts to go; `late i` is whether the
timeout has passed after attempt `i`. The values of the attempts made, and the bus after them. -/
def i2cTransferLoop (i : Nat) : Nat → S → List Int × S
  | 0, s => ([], s)
  | n + 1, s =>
    let (ret, s) := masterXfer s
    if ret = 0 ∨ ret = ETIMEDOUT then ([ret], s)
    else if late i then ([ret], s)
    else
      let (rets, s) := i2cTransferLoop (i + 1) n s
      (ret :: rets, s)

/-- `i2c_transfer`: the values of all attempts, of which it returns the last, and the bus. -/
def i2cTransfer (retries : Int) (s : S) : List Int × S :=
  i2cTransferLoop masterXfer late 0 (retries + 1).toNat s

/-- What `i2c_transfer` returns. -/
def i2cTransferRet (retries : Int) (s : S) : Int :=
  (i2cTransfer masterXfer late retries s).1.getLastD 0

/-- The value of attempt `k`, if it is made. -/
def attemptRet (s : S) (k : Nat) : Int := (masterXfer ((fun t => (masterXfer t).2)^[k] s)).1

end

/-! ## The message level -/

/-- Message number `i` begins with a START and its address. -/
def Started (i : Nat) (m : I2cMsg) : Bool := i = 0 || !m.nostart

/-- The data bytes of a message: those the slave supplies, the last not acknowledged, or those of the
buffer. -/
def dataEvents (m : I2cMsg) (d mem : Nat → BitVec 8) : List Event :=
  if m.rd then (List.range m.len.toNat).map fun j => .byte (d j) (j + 1 < m.len.toNat)
  else (List.range m.len.toNat).map fun j => .byte (mem (m.buf + j)) true

def msgEvents (i : Nat) (m : I2cMsg) (d mem : Nat → BitVec 8) : List Event :=
  (if Started i m then [.start, .byte m.addrByte true] else []) ++ dataEvents m d mem

/-- A read message puts what the slave supplies in its buffer. -/
def msgMem (m : I2cMsg) (d mem : Nat → BitVec 8) : Nat → BitVec 8 :=
  fun a => if m.rd ∧ m.buf ≤ a ∧ a < m.buf + m.len.toNat then d (a - m.buf) else mem a

/-- What the slave has left to supply after a message. -/
def msgRest (m : I2cMsg) (d : Nat → BitVec 8) : Nat → BitVec 8 :=
  if m.rd then fun n => d (m.len.toNat + n) else d

/-- What a transfer is on the lines, from message number `i` on. -/
def transferEvents (i : Nat) : List I2cMsg → (d mem : Nat → BitVec 8) → List Event
  | [], _, _ => [.stop]
  | m :: ms, d, mem =>
    msgEvents i m d mem ++ transferEvents (i + 1) ms (msgRest m d) (msgMem m d mem)

/-- The memory after the messages. -/
def transferMem : List I2cMsg → (d mem : Nat → BitVec 8) → Nat → BitVec 8
  | [], _, mem => mem
  | m :: ms, d, mem => transferMem ms (msgRest m d) (msgMem m d mem)

/-- A byte from the master, which the slave acknowledges. -/
def listen : List Period := List.replicate 8 released ++ [⟨false, 0⟩]

/-- A byte from the slave, which the master may acknowledge. -/
def supply (c : BitVec 8) : List Period := ((bitsFrom c 8).map fun b => ⟨b, 0⟩) ++ [released]

/-- The ideal slave during one message. -/
def idealMsg (i : Nat) (m : I2cMsg) (d : Nat → BitVec 8) : List Period :=
  (if Started i m then released :: listen else []) ++
    (List.range m.len.toNat).flatMap fun j => if m.rd then supply (d j) else listen

/-- The ideal slave from message number `i` on; the last period is that of the STOP. -/
def idealSlave (i : Nat) : List I2cMsg → (d : Nat → BitVec 8) → List Period
  | [], _ => [released]
  | m :: ms, d => idealMsg i m d ++ idealSlave (i + 1) ms (msgRest m d)

end Drm
