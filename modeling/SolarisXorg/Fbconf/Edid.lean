import Mathlib.Data.List.Basic

/-!
# Video modes of a display device (`sun_edid.c`)

An EDID Base block has timings in four places: eight Standard Timings, flag bits for the Established
Timings, and four 18-byte data blocks, each of which is a Detailed Timing or a Display Descriptor; a
descriptor may have six more Standard Timings or the Established Timings III. `sun_edid_video_modes`
makes one list of the modes. The block is memory from `edid_data` on.

The table `SunVideoTable` of names is not part of the sources.
-/

namespace Edid

/-- EDID data. -/
abbrev Data := Nat → UInt8

/-- `sun_edid_get_be_short` -/
def getBeShort (edid : Data) (addr : Nat) : Nat := (edid addr).toNat * 256 + (edid (addr + 1)).toNat

/-- `sun_edid_get_le_short` -/
def getLeShort (edid : Data) (addr : Nat) : Nat := (edid (addr + 1)).toNat * 256 + (edid addr).toNat

/-- `EDID_VER_REV` -/
def verRev (edid : Data) : Nat := getBeShort edid 0x12

/-- `EDID_1_1` -/
def edid11 : Nat := 0x0101

/-- `EDID_1_2` -/
def edid12 : Nat := 0x0102

/-! ## Established Timings -/

/-- `sun_timing_t` -/
structure SunTiming where
  name : Option String
  width : Int
  height : Int
  frequency : Int

/-- A reserved flag bit. -/
def reserved : SunTiming := ⟨none, 0, 0, 0⟩

/-- `est_timings` -/
def estTimings : List SunTiming :=
  [⟨some "720x400x70", 720, 400, 70⟩, ⟨some "720x400x88", 720, 400, 88⟩,
    ⟨some "VESA_STD_640x480x60", 640, 480, 60⟩, ⟨some "640x480x67", 640, 480, 67⟩,
    ⟨some "VESA_STD_640x480x72", 640, 480, 72⟩, ⟨some "VESA_STD_640x480x75", 640, 480, 75⟩,
    ⟨some "800x600x56", 800, 600, 56⟩, ⟨some "800x600x60", 800, 600, 60⟩,
    ⟨some "800x600x72", 800, 600, 72⟩, ⟨some "VESA_STD_800x600x75", 800, 600, 75⟩,
    ⟨some "832x624x75", 832, 624, 75⟩, ⟨some "1024x768x87", 1024, 768, 87⟩,
    ⟨some "VESA_STD_1024x768x60", 1024, 768, 60⟩, ⟨some "VESA_STD_1024x768x70", 1024, 768, 70⟩,
    ⟨some "VESA_STD_1024x768x75", 1024, 768, 75⟩, ⟨some "VESA_STD_1280x1024x75", 1280, 1024, 75⟩,
    ⟨some "1152x870x75", 1152, 870, 75⟩, reserved, reserved, reserved, reserved, reserved, reserved,
    reserved]

/-- `est_timings_iii` -/
def estTimingsIII : List SunTiming :=
  [⟨some "640x350x85", 640, 350, 85⟩, ⟨some "640x400x85", 640, 400, 85⟩,
    ⟨some "720x400x85", 720, 400, 85⟩, ⟨some "640x480x85", 640, 480, 85⟩,
    ⟨some "848x480x60", 848, 480, 60⟩, ⟨some "800x600x85", 800, 600, 85⟩,
    ⟨some "1024x768x85", 1024, 768, 85⟩, ⟨some "1152x864x75", 1152, 864, 75⟩,
    ⟨some "1280x768x60", 1280, 768, 60⟩, ⟨some "1280x768x60", 1280, 768, 60⟩,
    ⟨some "1280x768x75", 1280, 768, 75⟩, ⟨some "1280x768x85", 1280, 768, 85⟩,
    ⟨some "1280x960x60", 1280, 960, 60⟩, ⟨some "1280x960x85", 1280, 960, 85⟩,
    ⟨some "1280x1024x60", 1280, 1024, 60⟩, ⟨some "1280x1024x85", 1280, 1024, 85⟩,
    ⟨some "1360x768x60", 1360, 768, 60⟩, ⟨some "1440x900x60", 1440, 900, 60⟩,
    ⟨some "VESA_STD_1440x900x60", 1440, 900, 60⟩, ⟨some "1440x900x75", 1440, 900, 75⟩,
    ⟨some "1440x900x85", 1440, 900, 85⟩, ⟨some "1400x1050x60", 1400, 1050, 60⟩,
    ⟨some "1400x1050x60", 1400, 1050, 60⟩, ⟨some "1400x1050x75", 1400, 1050, 75⟩,
    ⟨some "1400x1050x85", 1400, 1050, 85⟩, ⟨some "VESA_RB_1680x1050x60", 1680, 1050, 60⟩,
    ⟨some "VESA_STD_1680x1050x60", 1680, 1050, 60⟩, ⟨some "1680x1050x75", 1680, 1050, 75⟩,
    ⟨some "1680x1050x85", 1680, 1050, 85⟩, ⟨some "1600x1200x60", 1600, 1200, 60⟩,
    ⟨some "1600x1200x65", 1600, 1200, 65⟩, ⟨some "1600x1200x70", 1600, 1200, 70⟩,
    ⟨some "1600x1200x75", 1600, 1200, 75⟩, ⟨some "1600x1200x85", 1600, 1200, 85⟩,
    ⟨some "1792x1344x60", 1792, 1344, 60⟩, ⟨some "1792x1344x75", 1792, 1344, 75⟩,
    ⟨some "1856x1392x60", 1856, 1392, 60⟩, ⟨some "1856x1392x75", 1856, 1392, 75⟩,
    ⟨some "1920x1200x60", 1920, 1200, 60⟩, ⟨some "1920x1200x60", 1920, 1200, 60⟩,
    ⟨some "1920x1200x75", 1920, 1200, 75⟩, ⟨some "1920x1200x85", 1920, 1200, 85⟩,
    ⟨some "1920x1440x60", 1920, 1440, 60⟩, ⟨some "1920x1440x75", 1920, 1440, 75⟩,
    reserved, reserved, reserved, reserved]

/-- `sun_edid_bit_set` of the bit field at an address -/
def bitSet (edid : Data) (addr bitOff : Nat) : Bool :=
  edid (addr + bitOff / 8) &&& (0x80 >>> UInt8.ofNat (bitOff % 8)) != 0

/-! ## Standard and Detailed Timings -/

/-- `decode_stiming` of the byte pair at an address -/
def decodeStiming (edidVerRev : Nat) (edid : Data) (addr : Nat) : Option (Int × Int × Int) :=
  let b0 := (edid addr).toNat
  let b1 := (edid (addr + 1)).toNat
  if b0 = 0x00 then none
  else if b0 = 0x01 ∧ b1 = 0x01 then none
  else
    let x := (b0 + 31) * 8
    let y :=
      match b1 / 64 with
      | 0 => if edidVerRev ≤ edid12 then x else x * 10 / 16
      | 1 => x * 3 / 4
      | 2 => x * 4 / 5
      | _ => x * 9 / 16
    some (x, y, (b1 % 64 + 60 : Nat))

/-- `sun_edid_dtiming_t`, less the image's size -/
structure Dtiming where
  pixclock : Int
  hactive : Int
  hblanking : Int
  vactive : Int
  vblanking : Int
  hsyncOffset : Int
  hsyncWidth : Int
  vsyncOffset : Int
  vsyncWidth : Int
  hborder : Int
  vborder : Int
  flags : Nat

/-- `decode_dtiming` of the 18-byte data block at an address -/
def decodeDtiming (edid : Data) (addr : Nat) : Option Dtiming :=
  let b := fun i => (edid (addr + i)).toNat
  if b 0 = 0 ∧ b 1 = 0 then none
  else some {
    pixclock := getLeShort edid addr * 10000
    hactive := (b 2 ||| (b 4 <<< 4 &&& 0xF00) : Nat)
    hblanking := (b 3 ||| (b 4 <<< 8 &&& 0xF00) : Nat)
    vactive := (b 5 ||| (b 7 <<< 4 &&& 0xF00) : Nat)
    vblanking := (b 6 ||| (b 7 <<< 8 &&& 0xF00) : Nat)
    hsyncOffset := (b 8 ||| (b 11 <<< 2 &&& 0x300) : Nat)
    hsyncWidth := (b 9 ||| (b 11 <<< 4 &&& 0x300) : Nat)
    vsyncOffset := (b 10 >>> 4 ||| (b 11 <<< 2 &&& 0x30) : Nat)
    vsyncWidth := ((b 10 &&& 0x0F) ||| (b 11 <<< 4 &&& 0x30) : Nat)
    hborder := b 15
    vborder := b 16
    flags := b 17 }

/-- `get_dtiming_frequency` -/
def getDtimingFrequency (dt : Dtiming) : Int :=
  let htotal := dt.hborder + dt.hactive + dt.hborder + dt.hblanking
  let vtotal := dt.vborder + dt.vactive + dt.vborder + dt.vblanking
  if htotal ≤ 0 ∨ vtotal ≤ 0 then 0 else dt.pixclock / (htotal * vtotal)

/-! ## Mode names -/

/-- `SunVideoSummary` -/
structure SunVideoSummary where
  idString : String
  width : UInt32
  height : UInt32
  vfreq : UInt32
  hfp : UInt32
  hsw : UInt32
  hbp : UInt32
  vfp : UInt32
  vsw : UInt32
  vbp : UInt32
  pclk : UInt32
  fint : Bool
  fst : Bool
  stype : Bool
  shpol : Bool
  svpol : Bool

/-- `XF86ConfModeLineRec`, as far as names are looked up by it -/
structure ModeLine where
  mlIdentifier : String
  mlClock : Int32
  mlHdisplay : Int32
  mlHsyncstart : Int32
  mlHsyncend : Int32
  mlHtotal : Int32
  mlVdisplay : Int32
  mlVsyncstart : Int32
  mlVsyncend : Int32
  mlVtotal : Int32
  mlFlags : UInt32

/-- `std_timings` -/
def stdTimings : List (String × Int × Int × Int) :=
  [("SUNW_STD_1280x1024x76", 1280, 1024, 76), ("SUNW_STD_1152x900x76", 1152, 921, 76),
    ("VESA_STD_1280x1024x75", 1280, 1024, 75), ("SUNW_STD_1280x1024x67", 1280, 1024, 67),
    ("SUNW_STD_1152x900x66", 1152, 921, 66), ("VESA_STD_1024x768x75", 1024, 768, 75),
    ("SUNW_STD_1600x1200x75", 1600, 1200, 75), ("SUNW_STEREO_1280x1024x112", 1280, 1024, 112),
    ("VESA_STD_1280x1024x60", 1280, 1024, 60), ("SUNW_DIG_1920x1200x60", 1920, 1200, 60),
    ("SUNW_DIG_1920x1080x60", 1920, 1080, 60), ("SUNW_DIG_1600x1200x60", 1600, 1200, 60)]

/-- A name made of the mode's numbers. -/
def whfName (width height frequency : Int) : String :=
  toString width ++ "x" ++ toString height ++ "x" ++ toString frequency

/-- The comparison of a Standard Timing with a mode of the configuration file. -/
def stimingMatches (width height frequency : Int) (mode : ModeLine) : Bool :=
  let total := mode.mlHtotal * mode.mlVtotal
  if total ≤ 0 then false
  else width = mode.mlHdisplay.toInt && height = mode.mlVdisplay.toInt &&
    frequency = (mode.mlClock * 1000 / total).toInt

/-- `get_stiming_name` -/
def getStimingName (sunVideoTable : List SunVideoSummary) (modeList : List ModeLine)
    (width height frequency : Int) : String :=
  match stdTimings.find? (·.2 = (width, height, frequency)) with
  | some t => t.1
  | none =>
    match sunVideoTable.find? fun v =>
        v.width = UInt32.ofInt width && v.height = UInt32.ofInt height &&
          v.vfreq = UInt32.ofInt frequency with
    | some v => v.idString
    | none =>
      match modeList.find? (stimingMatches width height frequency) with
      | some mode => mode.mlIdentifier
      | none => whfName width height frequency

/-- `ispunct` -/
def isPunct (c : Char) : Bool := 33 ≤ c.toNat && c.toNat ≤ 126 && !c.isAlphanum

/-- `fbc_resname_attr_str` from a place in the name on, with the character before it -/
def resnameAttrStr (attr : List Char) (prev : Char) (resname : List Char) : Bool :=
  if resname.length < attr.length then false
  else if isPunct prev && ((resname.drop attr.length).head?.elim true isPunct) &&
      (resname.take attr.length).map Char.toUpper = attr then true
  else
    match resname with
    | [] => false
    | c :: resname => resnameAttrStr attr c resname

/-- `fbc_resname_stereo` -/
def resnameStereo (resname : String) : Bool :=
  resnameAttrStr "STEREO".toList '_' resname.toList ||
    resname.toList.getLast?.elim false (·.toUpper = 'S')

/-- `fbc_resname_digital` -/
def resnameDigital (resname : String) : Bool := resnameAttrStr "DIG".toList '_' resname.toList

/-- The flag bits of a Detailed Timing. -/
def Dtiming.flag (dt : Dtiming) (mask : Nat) : Bool := dt.flags &&& mask != 0

/-- The comparison of a Detailed Timing, as `dtiming_to_vtiming` converts it, with an entry of
`SunVideoTable`. -/
def dtimingMatchesTable (dt : Dtiming) (v : SunVideoSummary) : Bool :=
  let separate := dt.flag 0x10 && dt.flag 0x08
  v.width = UInt32.ofInt dt.hactive && v.height = UInt32.ofInt dt.vactive &&
    v.pclk = UInt32.ofInt (dt.pixclock / 1000) && v.hfp = UInt32.ofInt dt.hsyncOffset &&
    v.hsw = UInt32.ofInt dt.hsyncWidth &&
    v.hbp = UInt32.ofInt (dt.hblanking - dt.hsyncOffset - dt.hsyncWidth) &&
    v.vfp = UInt32.ofInt dt.vsyncOffset && v.vsw = UInt32.ofInt dt.vsyncWidth &&
    v.vbp = UInt32.ofInt (dt.vblanking - dt.vsyncOffset - dt.vsyncWidth) &&
    v.fint = dt.flag 0x80 && v.fst = dt.flag 0x60 && v.stype = separate &&
    v.shpol = (dt.flag 0x10 && dt.flag 0x02) && v.svpol = (separate && dt.flag 0x04)

/-- The comparison of a Detailed Timing with a mode of the configuration file. -/
def dtimingMatchesMode (dt : Dtiming) (mode : ModeLine) : Bool :=
  dt.pixclock = (mode.mlClock * 1000).toInt && dt.hactive = mode.mlHdisplay.toInt &&
    dt.hactive + dt.hsyncOffset = mode.mlHsyncstart.toInt &&
    dt.hactive + dt.hsyncOffset + dt.hsyncWidth = mode.mlHsyncend.toInt &&
    dt.hactive + dt.hblanking = mode.mlHtotal.toInt && dt.vactive = mode.mlVdisplay.toInt &&
    dt.vactive + dt.vsyncOffset = mode.mlVsyncstart.toInt &&
    dt.vactive + dt.vsyncOffset + dt.vsyncWidth = mode.mlVsyncend.toInt &&
    dt.vactive + dt.vblanking = mode.mlVtotal.toInt &&
    dt.flag 0x80 = (mode.mlFlags &&& 0x0010 != 0) &&
    (dt.flag 0x60 || !resnameStereo mode.mlIdentifier) &&
    (dt.flag 0x10 || !resnameDigital mode.mlIdentifier)

/-- `get_dtiming_name` -/
def getDtimingName (sunVideoTable : List SunVideoSummary) (modeList : List ModeLine)
    (dt : Dtiming) (frequency : Int) : String :=
  match sunVideoTable.find? (dtimingMatchesTable dt) with
  | some v => v.idString
  | none =>
    match modeList.find? (dtimingMatchesMode dt) with
    | some mode => mode.mlIdentifier
    | none => whfName dt.hactive dt.vactive frequency

/-! ## The list of modes -/

/-- A mode's width, height and frequency. -/
abbrev Triple := Int16 × Int16 × Int16

/-- Values that are passed as `short`. -/
def shorts (width height frequency : Int) : Triple :=
  (Int16.ofInt width, Int16.ofInt height, Int16.ofInt frequency)

/-- `sun_edid_mode_t` -/
structure Mode where
  name : String
  triple : Triple
  deriving DecidableEq

/-- `add_video_mode` -/
def addVideoMode (modes : List Mode) (modeName : Option String) (width height frequency : Int) :
    List Mode :=
  match modeName with
  | none => modes
  | some name =>
    let mode := ⟨name, shorts width height frequency⟩
    if mode ∈ modes then modes else modes ++ [mode]

/-- The addresses of the four 18-byte data blocks. -/
def dataBlocks : List Nat := List.range' 0x36 4 18

/-- `find_display_descriptor` -/
def findDisplayDescriptor (edid : Data) (tag : UInt8) : Option Nat :=
  if verRev edid < edid11 then none
  else dataBlocks.find? fun addr =>
    edid addr = 0 && edid (addr + 1) = 0 && edid (addr + 2) = 0 && edid (addr + 3) = tag

/-- The loop over a field of Established Timings flag bits. -/
def addBits (edid : Data) (addr : Nat) (timings : List SunTiming) (modes : List Mode) : List Mode :=
  timings.zipIdx.foldl (fun modes (t, bitOff) =>
    if bitSet edid addr bitOff then addVideoMode modes t.name t.width t.height t.frequency
    else modes) modes

/-- `add_etiming_modes` -/
def addEtimingModes (edid : Data) (modes : List Mode) : List Mode :=
  let modes := addBits edid 0x23 estTimings modes
  match findDisplayDescriptor edid 0xF7 with
  | none => modes
  | some addr => addBits edid (addr + 6) estTimingsIII modes

section Names

variable (sunVideoTable : List SunVideoSummary) (modeList : List ModeLine)

/-- Adding the Standard Timing at an address. -/
def addStiming (edid : Data) (modes : List Mode) (addr : Nat) : List Mode :=
  match decodeStiming (verRev edid) edid addr with
  | none => modes
  | some (width, height, frequency) =>
    addVideoMode modes (some (getStimingName sunVideoTable modeList width height frequency))
      width height frequency

/-- Whether an 18-byte data block has Standard Timings. -/
def isStimingBlock (edid : Data) (addr : Nat) : Bool :=
  edid addr = 0 && edid (addr + 1) = 0 && edid (addr + 2) = 0 && edid (addr + 3) = 0xFA &&
    edid (addr + 4) = 0

/-- `add_stiming_modes`. The loop over the six Standard Timings of a descriptor has its counter `i`
and decodes the pair at `addr + 1`. -/
def addStimingModes (edid : Data) (modes : List Mode) : List Mode :=
  let modes := (List.range' 0x26 8 2).foldl (addStiming sunVideoTable modeList edid) modes
  if verRev edid ≥ edid11 then
    dataBlocks.foldl (fun modes addr =>
      if isStimingBlock edid addr then
        (List.range' 5 6 2).foldl (fun modes _i =>
          addStiming sunVideoTable modeList edid modes (addr + 1)) modes
      else modes) modes
  else modes

/-- `add_dtiming_modes`, from some of the data blocks on -/
def addDtimingModes (edid : Data) : List Nat → List Mode → List Mode
  | [], modes => modes
  | addr :: addrs, modes =>
    match decodeDtiming edid addr with
    | none => addDtimingModes edid addrs modes
    | some dt =>
      let frequency := getDtimingFrequency dt
      let modes := addVideoMode modes
        (some (getDtimingName sunVideoTable modeList dt frequency)) dt.hactive dt.vactive frequency
      if verRev edid < edid11 then modes else addDtimingModes edid addrs modes

/-- `sun_edid_video_modes` -/
def videoModes (edid : Data) : List Mode :=
  let modes := addDtimingModes sunVideoTable modeList edid dataBlocks []
  let modes := if modes = [] then addVideoMode modes (some "") 0 0 0 else modes
  addEtimingModes edid (addStimingModes sunVideoTable modeList edid modes)

end Names

end Edid
