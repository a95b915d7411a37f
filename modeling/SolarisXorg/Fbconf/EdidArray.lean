import SolarisXorg.Fbconf.Edid

/-!
# The array of video modes (`sun_edid.c`)

`sun_edid_video_modes` allocates an array and passes it, with a pointer to its end, to one function
after the other. Here the array is memory: a program that looks at an element the array does not
have, or at one that was not written, has no result. What is stored where is up to the `addVideoMode`
of this file; what is decoded and how it is named is in `Edid`. `malloc` and `strdup` succeed.
-/

namespace Edid

/-- What is in the field `name` of an element. -/
inductive NamePtr where
  | unset
  | null
  | str (name : String)

/-- An element of the array. -/
structure Slot where
  name : NamePtr
  triple : Option Triple

/-- `edid_modes` and the index of `edid_modes_end` -/
structure ModeArray where
  slots : List Slot
  modesEnd : Nat

/-- `4 + 8 + 4*6 + ETIMING_BITS + ETIMING_III_BITS + 1` -/
def arraySize : Nat := 4 + 8 + 4 * 6 + 24 + 48 + 1

namespace ModeArray

/-- Stores at an index. -/
def setSlot (a : ModeArray) (i : Nat) (slot : Slot) : Option ModeArray :=
  if i < a.slots.length then some { a with slots := a.slots.set i slot } else none

/-- Stores a NULL name pointer. -/
def setNull (a : ModeArray) (i : Nat) : Option ModeArray := do
  let slot ← a.slots[i]?
  a.setSlot i { slot with name := .null }

/-- The loop over the elements up to the terminator: whether the mode is one of them. -/
def scan (mode : Mode) : List Slot → Option Bool
  | [] => none
  | ⟨.unset, _⟩ :: _ => none
  | ⟨.null, _⟩ :: _ => some false
  | ⟨.str _, none⟩ :: _ => none
  | ⟨.str name, some triple⟩ :: slots =>
    if mode.name = name ∧ mode.triple = triple then some true else scan mode slots

/-- The new end of the list, and its terminator. -/
def append (a : ModeArray) (mode : Mode) : Option ModeArray := do
  let a ← a.setSlot a.modesEnd ⟨.str mode.name, some mode.triple⟩
  { a with modesEnd := a.modesEnd + 1 }.setNull (a.modesEnd + 1)

/-- `add_video_mode` -/
def addVideoMode (a : ModeArray) (modeName : Option String) (width height frequency : Int) :
    Option ModeArray :=
  match modeName with
  | none => some a
  | some name => do
    let mode := ⟨name, shorts width height frequency⟩
    let found ← scan mode a.slots
    if found then some a else a.append mode

/-- The loop over a field of Established Timings flag bits. -/
def addBits (edid : Data) (addr : Nat) (timings : List SunTiming) (a : ModeArray) :
    Option ModeArray :=
  timings.zipIdx.foldlM (fun a (t, bitOff) =>
    if bitSet edid addr bitOff then a.addVideoMode t.name t.width t.height t.frequency
    else some a) a

/-- `add_etiming_modes` -/
def addEtimingModes (edid : Data) (a : ModeArray) : Option ModeArray := do
  let a ← addBits edid 0x23 estTimings a
  match findDisplayDescriptor edid 0xF7 with
  | none => some a
  | some addr => addBits edid (addr + 6) estTimingsIII a

/-- Shows that no Preferred Timing Mode was found. -/
def addPlaceholder (a : ModeArray) : Option ModeArray :=
  if a.modesEnd = 0 then a.addVideoMode (some "") 0 0 0 else some a

section Names

variable (sunVideoTable : List SunVideoSummary) (modeList : List ModeLine)

/-- Adding the Standard Timing at an address. -/
def addStiming (edid : Data) (a : ModeArray) (addr : Nat) : Option ModeArray :=
  match decodeStiming (verRev edid) edid addr with
  | none => some a
  | some (width, height, frequency) =>
    a.addVideoMode (some (getStimingName sunVideoTable modeList width height frequency))
      width height frequency

/-- `add_stiming_modes` -/
def addStimingModes (edid : Data) (a : ModeArray) : Option ModeArray := do
  let a ← (List.range' 0x26 8 2).foldlM (addStiming sunVideoTable modeList edid) a
  if verRev edid ≥ edid11 then
    dataBlocks.foldlM (fun a addr =>
      if isStimingBlock edid addr then
        (List.range' 5 6 2).foldlM (fun a _i =>
          addStiming sunVideoTable modeList edid a (addr + 1)) a
      else some a) a
  else some a

/-- `add_dtiming_modes`, from some of the data blocks on -/
def addDtimingModes (edid : Data) : List Nat → ModeArray → Option ModeArray
  | [], a => some a
  | addr :: addrs, a =>
    match decodeDtiming edid addr with
    | none => addDtimingModes edid addrs a
    | some dt => do
      let frequency := getDtimingFrequency dt
      let a ← a.addVideoMode (some (getDtimingName sunVideoTable modeList dt frequency))
        dt.hactive dt.vactive frequency
      if verRev edid < edid11 then some a else addDtimingModes edid addrs a

/-- `sun_edid_video_modes` -/
def sunEdidVideoModes (edid : Data) : Option ModeArray := do
  let a ← setNull ⟨List.replicate arraySize ⟨.unset, none⟩, 0⟩ 0
  let a ← addDtimingModes sunVideoTable modeList edid dataBlocks a
  let a ← a.addPlaceholder
  let a ← addStimingModes sunVideoTable modeList edid a
  addEtimingModes edid a

end Names

end ModeArray

end Edid
