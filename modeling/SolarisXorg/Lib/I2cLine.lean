import Mathlib.Data.List.Basic

/-!
# Two-wire lines and what they say

The I2C rules read a sequence of levels of SCL and SDA: a change of SDA while SCL stays high is a
START (falling) or a STOP (rising), every other high period of SCL carries one bit, eight bits make a
byte, most significant first, and the ninth is its acknowledge (low is ACK). `Dec` is the reader in
the middle of such a sequence and `decode` reads a whole one. A condition in the middle of a byte
shows as `glitch`.
-/

namespace Lib.I2c

/-- Levels of the two lines. -/
structure Levels where
  scl : Bool
  sda : Bool
  deriving DecidableEq, Repr

/-- What the lines have said. -/
inductive Event
  | start
  | stop
  | byte (c : BitVec 8) (ack : Bool)
  /-- SDA has changed under a high SCL inside a byte -/
  | glitch
  deriving DecidableEq, Repr

/-- The `n` lowest bits of a byte, most significant first. -/
def bitsFrom (c : BitVec 8) : Nat → List Bool
  | 0 => []
  | i + 1 => c.getLsbD i :: bitsFrom c i

/-- The byte of eight bits, most significant first. -/
def ofBits (bits : List Bool) : BitVec 8 :=
  bits.foldl (fun c b => c <<< 1 ||| (BitVec.ofBool b).setWidth 8) 0

theorem ofBits_bitsFrom (c : BitVec 8) : ofBits (bitsFrom c 8) = c := by
  revert c
  decide

@[simp] theorem length_bitsFrom (c : BitVec 8) (n : Nat) : (bitsFrom c n).length = n := by
  induction n with
  | zero => rfl
  | succ n ih => simp only [bitsFrom, List.length_cons, ih]

/-- A reader of the lines. -/
structure Dec where
  last : Levels
  /-- a condition has been seen since SCL went high -/
  cond : Bool
  /-- the bits read of the byte that is going on -/
  bits : List Bool
  events : List Event

namespace Dec

/-- The reader before the first change. -/
def init (l : Levels) : Dec := ⟨l, false, [], []⟩

/-- One bit more; the ninth ends the byte. -/
def take (d : Dec) (b : Bool) : Dec :=
  if d.bits.length < 8 then { d with bits := d.bits ++ [b] }
  else { d with bits := [], events := d.events ++ [.byte (ofBits d.bits) (!b)] }

/-- A change of SDA to `v` under a high SCL. -/
def condition (d : Dec) (v : Bool) : Dec :=
  { d with
    cond := true
    bits := []
    events := d.events ++ (if d.bits = [] then [] else [.glitch]) ++ [if v then .stop else .start] }

/-- What a reader takes from SDA while SCL goes from `d.last.scl` to `l.scl`. -/
def read (d : Dec) (l : Levels) : Dec :=
  match d.last.scl, l.scl with
  | true, true => if d.last.sda = l.sda then d else d.condition l.sda
  | true, false => if d.cond then d else d.take d.last.sda
  | false, true => { d with cond := false }
  | false, false => d

/-- The next levels of the lines. -/
def step (d : Dec) (l : Levels) : Dec := { d.read l with last := l }

@[simp] theorem step_last (d : Dec) (l : Levels) : (d.step l).last = l := rfl

/-- Nothing is read while SCL is low. -/
theorem step_low {d : Dec} {l : Levels} (hd : d.last.scl = false) (hl : l.scl = false) :
    d.step l = { d with last := l } := by
  simp only [step, read, hd, hl]

theorem step_rise {d : Dec} {l : Levels} (hd : d.last.scl = false) (hl : l.scl = true) :
    d.step l = { d with last := l, cond := false } := by
  simp only [step, read, hd, hl]

theorem step_same {d : Dec} {l : Levels} (hd : d.last = l) (hl : l.scl = true) :
    d.step l = d := by
  subst hd
  simp only [step, read, hl, if_pos]

/-- SDA changes between two bytes. -/
theorem step_condition {d : Dec} {l : Levels} (hd : d.last.scl = true) (hl : l.scl = true)
    (hne : d.last.sda ≠ l.sda) (hb : d.bits = []) :
    d.step l = ⟨l, true, [], d.events ++ [if l.sda then .stop else .start]⟩ := by
  simp only [step, read, hd, hl, if_neg hne, condition, hb, if_pos, List.append_nil]

/-- The end of the clock pulse in which a condition has been. -/
theorem step_fall_cond {d : Dec} {l : Levels} (hd : d.last.scl = true) (hl : l.scl = false)
    (hc : d.cond = true) : d.step l = { d with last := l } := by
  simp only [step, read, hd, hl, hc, if_pos]

/-- The end of the clock pulse of one of the first eight bits. -/
theorem step_fall_bit {d : Dec} {l : Levels} (hd : d.last.scl = true) (hl : l.scl = false)
    (hc : d.cond = false) (hb : d.bits.length < 8) :
    d.step l = { d with last := l, bits := d.bits ++ [d.last.sda] } := by
  simp only [step, read, hd, hl, hc, Bool.false_eq_true, if_false, take, if_pos hb]

/-- The end of the clock pulse of the ninth. -/
theorem step_fall_ack {d : Dec} {l : Levels} (hd : d.last.scl = true) (hl : l.scl = false)
    (hc : d.cond = false) {c : BitVec 8} (hb : d.bits = bitsFrom c 8) :
    d.step l = { d with last := l, bits := [], events := d.events ++ [.byte c (!d.last.sda)] } := by
  have h8 : ¬ d.bits.length < 8 := by
    rw [hb, length_bitsFrom]
    omega
  simp only [step, read, hd, hl, hc, Bool.false_eq_true, if_false, take, if_neg h8]
  rw [hb, ofBits_bitsFrom]

end Dec

/-- Everything the levels `ls` say, after the lines were at `l`. -/
def decode (l : Levels) (ls : List Levels) : List Event := (ls.foldl Dec.step (Dec.init l)).events

/-- A START, the byte 0xa5 with its acknowledge low, and a STOP. -/
example : decode ⟨true, true⟩
    (⟨true, false⟩ :: ⟨false, false⟩ ::
      ((bitsFrom 0xa5 8 ++ [false]).flatMap fun b => [⟨false, b⟩, ⟨true, b⟩, ⟨false, b⟩]) ++
      [⟨false, false⟩, ⟨true, false⟩, ⟨true, true⟩]) =
    [.start, .byte 0xa5 true, .stop] := by decide

end Lib.I2c
