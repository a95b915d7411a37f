import Mathlib.Algebra.Group.Nat.Defs
import SolarisXorg.Lib.Chain
import SolarisXorg.Fbconf.Scan

/-!
# Finding the active sections of a configuration (`fbc_edit_config.c`)

The configuration in memory (`configIR`) has its Device, Screen and Monitor sections in lists that
are linked through the first word of each record. `xf86addListItem` appends to a list of any kind
and sees nothing of a record but that word. `findActiveSections` looks for the Device section of a
device, the Screen section that names it, the first Monitor entry of that and its Display
subsection, and creates the ones that are missing (`fbc_Device.c`, `fbc_Screen.c`, `fbc_Monitor.c`).

The records of the program are a `Heap`; the address of a record is its place. The lines of the
configuration file that go with the records are left out.
-/

namespace EditConfig

open Lib Fbc

/-- The place of a record; a pointer is an `Option Addr`, with `none` for `NULL`. -/
abbrev Addr := Nat

/-- A string of the program. -/
abbrev Str := List UInt8

/-! ## The records -/

/-- `XF86OptionRec` -/
structure OptionRec where
  optName : Str
  optVal : Option Str
  deriving DecidableEq

/-- `XF86ConfDeviceRec` -/
structure DeviceRec where
  next : Option Addr
  devIdentifier : Str
  devDriver : Str
  devScreen : Int
  devOptionLst : List OptionRec
  deriving DecidableEq

/-- `XF86ConfScreenRec` -/
structure ScreenRec where
  next : Option Addr
  scrnIdentifier : Str
  scrnDefaultdepth : Int
  scrnDefaultfbbpp : Int
  scrnMonitorLst : Option Addr
  scrnDeviceStr : Option Str
  scrnDisplayLst : Option Addr
  deriving DecidableEq

/-- `XF86ConfMonitorRec` -/
structure MonitorRec where
  next : Option Addr
  monIdentifier : Str
  deriving DecidableEq

/-- `XF86ConfScrnMonitorEntryRec` -/
structure MonitorEntryRec where
  next : Option Addr
  scrnMonitorNumSeen : Bool
  scrnMonitorNum : Int
  scrnMonitorName : Str
  scrnMonitor : Option Addr
  deriving DecidableEq

/-- `XF86ConfDisplayRec` -/
structure DisplayRec where
  next : Option Addr
  dispMonitorSeen : Bool
  dispMonitorNum : Int
  dispDepth : Int
  dispBpp : Int
  deriving DecidableEq

/-- `XF86ConfigRec`: the first word is not a link but the pointer to the Files section. -/
structure ConfigRec where
  confFiles : Option Addr
  confMonitorLst : Option Addr
  confDeviceLst : Option Addr
  confScreenLst : Option Addr
  deriving DecidableEq

/-- A record in memory; of the other kinds only the first word is of interest here. -/
inductive Rec where
  | config (c : ConfigRec)
  | device (d : DeviceRec)
  | screen (s : ScreenRec)
  | monitor (m : MonitorRec)
  | monitorEntry (e : MonitorEntryRec)
  | display (d : DisplayRec)
  | other (first : Option Addr)
  deriving DecidableEq

namespace Rec

/-- The first word, which `GenericListRec` takes for the link. -/
def next : Rec → Option Addr
  | config c => c.confFiles
  | device d => d.next
  | screen s => s.next
  | monitor m => m.next
  | monitorEntry e => e.next
  | display d => d.next
  | other first => first

/-- Writing the first word. -/
def setNext (p : Option Addr) : Rec → Rec
  | config c => config { c with confFiles := p }
  | device d => device { d with next := p }
  | screen s => screen { s with next := p }
  | monitor m => monitor { m with next := p }
  | monitorEntry e => monitorEntry { e with next := p }
  | display d => display { d with next := p }
  | other _ => other p

def config? : Rec → Option ConfigRec
  | config c => some c
  | _ => none

def device? : Rec → Option DeviceRec
  | device d => some d
  | _ => none

def screen? : Rec → Option ScreenRec
  | screen s => some s
  | _ => none

def monitor? : Rec → Option MonitorRec
  | monitor m => some m
  | _ => none

def monitorEntry? : Rec → Option MonitorEntryRec
  | monitorEntry e => some e
  | _ => none

def display? : Rec → Option DisplayRec
  | display d => some d
  | _ => none

end Rec

/-- The records in memory. -/
abbrev Heap := List Rec

namespace Heap

/-- The link of the record at `a`. -/
def link (h : Heap) (a : Addr) : Option (Option Addr) := h[a]?.map Rec.next

/-- The list from `p` on. It has at most one element for each record. -/
def list (h : Heap) (p : Option Addr) : Option (List Addr) := readList h.link h.length p

def config (h : Heap) (a : Addr) : Option ConfigRec := h[a]?.bind Rec.config?

def device (h : Heap) (a : Addr) : Option DeviceRec := h[a]?.bind Rec.device?

def screen (h : Heap) (a : Addr) : Option ScreenRec := h[a]?.bind Rec.screen?

def monitor (h : Heap) (a : Addr) : Option MonitorRec := h[a]?.bind Rec.monitor?

def monitorEntry (h : Heap) (a : Addr) : Option MonitorEntryRec := h[a]?.bind Rec.monitorEntry?

def display (h : Heap) (a : Addr) : Option DisplayRec := h[a]?.bind Rec.display?

/-- The identifier of a Device section. -/
def deviceIdent (h : Heap) (a : Addr) : Option Str := (h.device a).map DeviceRec.devIdentifier

/-- The identifier of a Screen section. -/
def screenIdent (h : Heap) (a : Addr) : Option Str := (h.screen a).map ScreenRec.scrnIdentifier

/-- The identifier of a Monitor section. -/
def monitorIdent (h : Heap) (a : Addr) : Option Str := (h.monitor a).map MonitorRec.monIdentifier

end Heap

/-! ## Ends of a call -/

/-- Why a call has no result: it returns `FBC_ERR_NOMEM`, or it uses a pointer that is not one to a
record of the kind (`NULL` among them). -/
inductive Stop where
  | nomem
  | fault
  deriving DecidableEq

/-- The result of a use of a pointer. -/
def deref {α : Type} : Option α → Except Stop α
  | some a => .ok a
  | none => .error .fault

/-- The result of an allocation that is checked. -/
def alloc (succeeds : Bool) : Except Stop Unit := if succeeds then .ok () else .error .nomem

/-- Which of the allocations of a call succeed; each is made at most once. -/
structure Mem where
  /-- `XF86OptionRec`, not checked -/
  option : Bool
  devIdentifier : Bool
  device : Bool
  devDriver : Bool
  scrnIdentifier : Bool
  screen : Bool
  /-- the copy for `scrn_device_str`, not checked -/
  scrnDeviceStr : Bool
  monIdentifier : Bool
  monitor : Bool
  monitorEntry : Bool
  scrnMonitorName : Bool
  display : Bool
  deriving DecidableEq

/-- `fbc_dev_t` -/
structure Device where
  path : Str
  name : Str
  type : Str
  isDefault : Bool
  deriving DecidableEq

/-! ## Lists -/

/-- `xf86addListItem` -/
def addListItem (h : Heap) (head : Option Addr) (new : Addr) :
    Except Stop (Option Addr × Heap) := do
  let items ← deref (h.list head)
  match items.getLast? with
  | some last => .ok (head, h.modify last (Rec.setNext (some new)))
  | none => .ok (some new, h)

/-- Writing a field of the record of the configuration. -/
def setConfig (h : Heap) (configIR : Addr) (f : ConfigRec → ConfigRec) : Heap :=
  h.modify configIR fun
    | .config c => .config (f c)
    | r => r

/-- Writing a field of a Screen section. -/
def setScreen (h : Heap) (a : Addr) (f : ScreenRec → ScreenRec) : Heap :=
  h.modify a fun
    | .screen s => .screen (f s)
    | r => r

/-- Writing a field of a Device section. -/
def setDevice (h : Heap) (a : Addr) (f : DeviceRec → DeviceRec) : Heap :=
  h.modify a fun
    | .device d => .device (f d)
    | r => r

/-! ## New identifiers -/

/-- The identifier that is tried with the counter `i`: `"%s"` first and `"%s_%u"` from then on. -/
def identifier (tmpl : Str) (i : Nat) : Str :=
  if i = 0 then tmpl else tmpl ++ chars "_" ++ chars (toString i)

/-- The loop for a new identifier, from the counter `i` on: it stops at one that no section has, or
when the counter wraps. -/
def uniqueIdentifierFrom (tmpl : Str) (taken : List Str) : Nat → Nat → Str
  | 0, i => identifier tmpl i
  | fuel + 1, i =>
    if taken.any fun t => nameEq (identifier tmpl i) t then
      if (i + 1) % 2 ^ 32 = 0 then identifier tmpl i
      else uniqueIdentifierFrom tmpl taken fuel (i + 1)
    else identifier tmpl i

/-- The identifier of a new section, with those of its kind that are `taken`. -/
def uniqueIdentifier (tmpl : Str) (taken : List Str) : Str :=
  uniqueIdentifierFrom tmpl taken (2 ^ 32) 0

/-! ## Device sections (`fbc_Device.c`) -/

/-- Whether an option is a "Device" Option. -/
def isDeviceOption (o : OptionRec) : Bool := nameEq o.optName (chars "Device")

/-- `xf86addNewOptionOrValue` for a name that is none of a Boolean option. -/
def addNewOptionOrValue (lst : List OptionRec) (name val : Str) (mem : Mem) :
    Except Stop (List OptionRec) :=
  match lst.findIdx? fun o => nameEq o.optName name with
  | some i => .ok (lst.set i ⟨name, some val⟩)
  | none => if mem.option then .ok (lst ++ [⟨name, some val⟩]) else .error .fault

/-- The loop of `fbc_find_active_Device_section`, with `blank` the first section of the device that
has no "Device" Option: the section, and whether it has the path of the device. -/
def scanDevices (h : Heap) (device : Device) (streamNum : Int) :
    List Addr → Option Addr → Except Stop (Option Addr × Bool)
  | [], blank => .ok (blank, false)
  | a :: rest, blank => do
    let d ← deref (h.device a)
    if device.type ≠ d.devDriver ∨ streamNum ≠ d.devScreen then
      scanDevices h device streamNum rest blank
    else
      match d.devOptionLst.find? isDeviceOption with
      | none => scanDevices h device streamNum rest (blank.or (some a))
      | some o => do
        let val ← deref o.optVal
        if val = device.path then .ok (some a, true)
        else scanDevices h device streamNum rest blank

/-- `fbc_set_Option_value` of the "Device" Option of a Device section -/
def setDeviceOption (h : Heap) (a : Addr) (device : Device) (mem : Mem) : Except Stop Heap := do
  let d ← deref (h.device a)
  let lst ← addNewOptionOrValue d.devOptionLst (chars "Device") device.path mem
  .ok (setDevice h a fun d => { d with devOptionLst := lst })

/-- `fbc_find_active_Device_section` -/
def findActiveDeviceSection (h : Heap) (device : Device) (confDeviceLst : Option Addr)
    (streamNum : Int) (mem : Mem) : Except Stop (Option Addr × Heap) := do
  let items ← deref (h.list confDeviceLst)
  match ← scanDevices h device streamNum items none with
  | (none, _) => .ok (none, h)
  | (some a, true) => .ok (some a, h)
  | (some a, false) => do
    let h ← setDeviceOption h a device mem
    .ok (some a, h)

/-- `fbc_insert_new_Device_section`: the record that goes into the list is `configIR`. -/
def insertNewDeviceSection (h : Heap) (configIR : Addr) (devIdentifier : Str) (device : Device)
    (mem : Mem) : Except Stop (Addr × Heap) := do
  alloc mem.device
  alloc mem.devDriver
  let a := h.length
  let h := h ++ [.device ⟨none, devIdentifier, device.type, 0, []⟩]
  let c ← deref (h.config configIR)
  let (lst, h) ← addListItem h c.confDeviceLst configIR
  let h := setConfig h configIR fun c => { c with confDeviceLst := lst }
  let h ← setDeviceOption h a device mem
  .ok (a, h)

/-- `fbc_insert_Device_section` -/
def insertDeviceSection (h : Heap) (device : Device) (configIR : Addr) (mem : Mem) :
    Except Stop (Addr × Heap) := do
  alloc mem.devIdentifier
  let c ← deref (h.config configIR)
  let items ← deref (h.list c.confDeviceLst)
  let sectns ← deref (items.mapM h.device)
  let ident := uniqueIdentifier device.name (sectns.map DeviceRec.devIdentifier)
  insertNewDeviceSection h configIR ident device mem

/-! ## Screen sections (`fbc_Screen.c`) -/

/-- A Screen section names the Device section with an identifier. -/
def ScreenRec.names (s : ScreenRec) (devIdentifier : Str) : Bool :=
  s.scrnDeviceStr.any fun str => nameEq str devIdentifier

/-- `fbc_find_active_Screen_section` -/
def findActiveScreenSection (h : Heap) (confScreenLst : Option Addr) (devIdentifier : Str) :
    Except Stop (Option Addr) := do
  let items ← deref (h.list confScreenLst)
  .ok (items.find? fun a => (h.screen a).any fun s => s.names devIdentifier)

/-- `fbc_insert_new_Screen_section`; `last` is `FBC_LAST_ER` for the lines. -/
def insertNewScreenSection (h : Heap) (configIR : Addr) (last : Bool)
    (scrnIdentifier scrnDeviceStr : Str) (mem : Mem) : Except Stop (Addr × Heap) := do
  alloc mem.screen
  let a := h.length
  let str := if mem.scrnDeviceStr then some scrnDeviceStr else none
  let h := h ++ [.screen ⟨none, scrnIdentifier, 0, 0, none, str, none⟩]
  let c ← deref (h.config configIR)
  if last then do
    let (lst, h) ← addListItem h c.confScreenLst a
    .ok (a, setConfig h configIR fun c => { c with confScreenLst := lst })
  else do
    let h := setScreen h a fun s => { s with next := c.confScreenLst }
    .ok (a, setConfig h configIR fun c => { c with confScreenLst := some a })

/-- `fbc_insert_Screen_section` -/
def insertScreenSection (h : Heap) (configIR : Addr) (last : Bool)
    (scrnIdentTmpl scrnDeviceStr : Str) (mem : Mem) : Except Stop (Addr × Heap) := do
  alloc mem.scrnIdentifier
  let c ← deref (h.config configIR)
  let items ← deref (h.list c.confScreenLst)
  let sectns ← deref (items.mapM h.screen)
  let ident := uniqueIdentifier scrnIdentTmpl (sectns.map ScreenRec.scrnIdentifier)
  insertNewScreenSection h configIR last ident scrnDeviceStr mem

/-- `fbc_insert_Monitor_entry` -/
def insertMonitorEntry (h : Heap) (screenSectn monitorSectn : Addr) (mem : Mem) :
    Except Stop (Addr × Heap) := do
  alloc mem.monitorEntry
  let m ← deref (h.monitor monitorSectn)
  alloc mem.scrnMonitorName
  let s ← deref (h.screen screenSectn)
  let a := h.length
  let h := h ++ [.monitorEntry ⟨none, false, 0, m.monIdentifier, some monitorSectn⟩]
  let (lst, h) ← addListItem h s.scrnMonitorLst a
  .ok (a, setScreen h screenSectn fun s => { s with scrnMonitorLst := lst })

/-- A Display subsection is one for the monitor of an entry and the default depth of the screen; a
depth of 0 is none. -/
def DisplayRec.isFor (d : DisplayRec) (s : ScreenRec) (e : MonitorEntryRec) : Bool :=
  d.dispMonitorSeen = e.scrnMonitorNumSeen ∧
    (d.dispMonitorSeen → d.dispMonitorNum = e.scrnMonitorNum) ∧
    (d.dispDepth ≠ 0 → d.dispDepth = s.scrnDefaultdepth) ∧
    (d.dispBpp ≠ 0 → d.dispBpp = s.scrnDefaultfbbpp)

/-- `fbc_find_active_Display_subsection` -/
def findActiveDisplaySubsection (h : Heap) (s : ScreenRec) (e : MonitorEntryRec) :
    Except Stop (Option Addr) := do
  let items ← deref (h.list s.scrnDisplayLst)
  .ok (items.find? fun a => (h.display a).any fun d => d.isFor s e)

/-- `fbc_insert_Display_subsection` -/
def insertDisplaySubsection (h : Heap) (screenSectn : Addr) (e : MonitorEntryRec) (mem : Mem) :
    Except Stop (Addr × Heap) := do
  alloc mem.display
  let s ← deref (h.screen screenSectn)
  let a := h.length
  let num := if e.scrnMonitorNumSeen then e.scrnMonitorNum else 0
  let h := h ++ [.display ⟨none, e.scrnMonitorNumSeen, num, 0, 0⟩]
  let (lst, h) ← addListItem h s.scrnDisplayLst a
  .ok (a, setScreen h screenSectn fun s => { s with scrnDisplayLst := lst })

/-! ## Monitor sections (`fbc_Monitor.c`) -/

/-- `fbc_insert_new_Monitor_section`: the record that goes into the list is `configIR`. -/
def insertNewMonitorSection (h : Heap) (configIR : Addr) (monIdentifier : Str) (mem : Mem) :
    Except Stop (Addr × Heap) := do
  alloc mem.monitor
  let a := h.length
  let h := h ++ [.monitor ⟨none, monIdentifier⟩]
  let c ← deref (h.config configIR)
  let (lst, h) ← addListItem h c.confMonitorLst configIR
  .ok (a, setConfig h configIR fun c => { c with confMonitorLst := lst })

/-- `fbc_insert_Monitor_section` -/
def insertMonitorSection (h : Heap) (configIR : Addr) (monIdentTmpl : Str) (mem : Mem) :
    Except Stop (Addr × Heap) := do
  alloc mem.monIdentifier
  let c ← deref (h.config configIR)
  let items ← deref (h.list c.confMonitorLst)
  let sectns ← deref (items.mapM h.monitor)
  let ident := uniqueIdentifier monIdentTmpl (sectns.map MonitorRec.monIdentifier)
  insertNewMonitorSection h configIR ident mem

/-! ## The active sections -/

/-- `xf86_active_t` -/
structure Active where
  deviceSectn : Option Addr
  screenSectn : Option Addr
  monitorSectn : Option Addr
  displaySubsectn : Option Addr
  deriving DecidableEq

/-- A message is printed for a call without memory, and the program goes on. -/
def attempt {α : Type} : Except Stop α → Except Stop (Option α)
  | .ok a => .ok (some a)
  | .error .nomem => .ok none
  | .error .fault => .error .fault

/-- `FBC_SUBSCTN_Display` -/
def subsctnDisplay : Nat := 0x0002

/-- `FBC_SECTION_Monitor` -/
def sectionMonitor : Nat := 0x0004

/-- The Device section, which is created if there is none. -/
def deviceSection (h : Heap) (device : Device) (configIR : Addr) (mem : Mem) :
    Except Stop (Addr × Heap) := do
  let c ← deref (h.config configIR)
  match ← findActiveDeviceSection h device c.confDeviceLst 0 mem with
  | (some a, h) => .ok (a, h)
  | (none, h) => insertDeviceSection h device configIR mem

/-- The Screen section that names the Device section, which is created if there is none: the first
one of the configuration for the default device. `lines`: the configuration has a line. -/
def screenSection (h : Heap) (device : Device) (configIR : Addr) (deviceSectn : Addr) (lines : Bool)
    (mem : Mem) : Except Stop (Addr × Heap) := do
  let d ← deref (h.device deviceSectn)
  let c ← deref (h.config configIR)
  match ← findActiveScreenSection h c.confScreenLst d.devIdentifier with
  | some a => .ok (a, h)
  | none =>
    insertScreenSection h configIR (!(device.isDefault && lines)) device.name d.devIdentifier mem

/-- The Monitor section and the Monitor entry, which are created for a reference to them. The
section comes from the entry where there is one. -/
def monitorEntry (h : Heap) (device : Device) (configIR : Addr) (screenSectn : Addr)
    (refConfig : Nat) (mem : Mem) : Except Stop (Option Addr × Option Addr × Heap) := do
  let s ← deref (h.screen screenSectn)
  match s.scrnMonitorLst with
  | some e => .ok (none, some e, h)
  | none =>
    if refConfig &&& (sectionMonitor ||| subsctnDisplay) = 0 then .ok (none, none, h)
    else
      match ← attempt (insertMonitorSection h configIR device.name mem) with
      | none => .ok (none, none, h)
      | some (m, h) =>
        match ← attempt (insertMonitorEntry h screenSectn m mem) with
        | none => .ok (some m, none, h)
        | some (e, h) => .ok (some m, some e, h)

/-- The Display subsection for a Monitor entry, which is created for a reference to it. -/
def displaySubsection (h : Heap) (screenSectn : Addr) (e : MonitorEntryRec) (refConfig : Nat)
    (mem : Mem) : Except Stop (Option Addr × Heap) := do
  let s ← deref (h.screen screenSectn)
  match ← findActiveDisplaySubsection h s e with
  | some x => .ok (some x, h)
  | none =>
    if refConfig &&& subsctnDisplay = 0 then .ok (none, h)
    else
      match ← attempt (insertDisplaySubsection h screenSectn e mem) with
      | none => .ok (none, h)
      | some (x, h) => .ok (some x, h)

/-- `fbc_find_active_sections` -/
def findActiveSections (h : Heap) (device : Device) (configIR : Addr) (refConfig : Nat)
    (lines : Bool) (mem : Mem) : Except Stop (Active × Heap) := do
  let (d, h) ← deviceSection h device configIR mem
  let (s, h) ← screenSection h device configIR d lines mem
  match ← monitorEntry h device configIR s refConfig mem with
  | (m, none, h) => .ok (⟨some d, some s, m, none⟩, h)
  | (_, some a, h) => do
    let e ← deref (h.monitorEntry a)
    let (x, h) ← displaySubsection h s e refConfig mem
    .ok (⟨some d, some s, e.scrnMonitor, x⟩, h)

/-! ## A configuration that was read, and one that was edited -/

/-- A configuration that was read from a file and passed `xf86validateConfig`, or the empty one: its
lists have the sections of their kind, and the Monitor entries point to Monitor sections. -/
structure Parsed (h : Heap) (configIR : Addr) (c : ConfigRec) (devs scrns mons : List Addr) :
    Prop where
  config : h.config configIR = some c
  devices : h.list c.confDeviceLst = some devs
  isDevice : ∀ a ∈ devs, (h.device a).isSome
  screens : h.list c.confScreenLst = some scrns
  isScreen : ∀ a ∈ scrns, (h.screen a).isSome
  monitors : h.list c.confMonitorLst = some mons
  isMonitor : ∀ a ∈ mons, (h.monitor a).isSome
  entries : ∀ a ∈ scrns, ∀ s, h.screen a = some s → ∃ l, h.list s.scrnMonitorLst = some l ∧
    ∀ x ∈ l, ∃ e m, h.monitorEntry x = some e ∧ e.scrnMonitor = some m ∧ m ∈ mons
  displays : ∀ a ∈ scrns, ∀ s, h.screen a = some s → ∃ l, h.list s.scrnDisplayLst = some l ∧
    ∀ x ∈ l, (h.display x).isSome

/-- The list of one kind of sections was `old` and is `new`: all are sections of the kind, those of
before are there in their order, and each new one has an identifier of its own. -/
structure Kept (ident : Addr → Option Str) (old new : List Addr) : Prop where
  kind : ∀ a ∈ new, (ident a).isSome
  order : old.Sublist new
  fresh : ∀ a ∈ new, a ∉ old → ∀ b ∈ new, b ≠ a → ∀ s t, ident a = some s → ident b = some t →
    nameEq s t = false

/-- The list `lst` of the configuration in `h`, and what it is in `h'`, where it has `sectn`. -/
def Listed (ident : Heap → Addr → Option Str) (lst : ConfigRec → Option Addr) (h h' : Heap)
    (configIR : Addr) (sectn : Option Addr) : Prop :=
  ∃ c c' old new a, h.config configIR = some c ∧ h'.config configIR = some c' ∧
    h.list (lst c) = some old ∧ h'.list (lst c') = some new ∧ sectn = some a ∧ a ∈ new ∧
    Kept (ident h') old new

/-- The references of the configuration `h'` that came of `h`: the active sections are in the lists,
and each is the one that the other names or points to. -/
structure Integrity (h h' : Heap) (configIR : Addr) (act : Active) : Prop where
  device : Listed Heap.deviceIdent ConfigRec.confDeviceLst h h' configIR act.deviceSectn
  screen : Listed Heap.screenIdent ConfigRec.confScreenLst h h' configIR act.screenSectn
  monitor : Listed Heap.monitorIdent ConfigRec.confMonitorLst h h' configIR act.monitorSectn
  names : ∃ a d b s, act.deviceSectn = some a ∧ h'.device a = some d ∧ act.screenSectn = some b ∧
    h'.screen b = some s ∧ s.names d.devIdentifier
  entry : ∃ b s p e, act.screenSectn = some b ∧ h'.screen b = some s ∧ s.scrnMonitorLst = some p ∧
    h'.monitorEntry p = some e ∧ e.scrnMonitor = act.monitorSectn
  display : ∃ b s x l, act.screenSectn = some b ∧ h'.screen b = some s ∧
    act.displaySubsectn = some x ∧ h'.list s.scrnDisplayLst = some l ∧ x ∈ l ∧
    ∀ y ∈ l, (h'.display y).isSome

/-- A Device section of the device that has its path. -/
def hasPath (h : Heap) (device : Device) (a : Addr) : Bool :=
  (h.device a).any fun d => d.devDriver = device.type ∧ d.devScreen = 0 ∧
    (d.devOptionLst.find? isDeviceOption).any fun o => o.optVal = some device.path

/-- A Device section of the device that has no "Device" Option. -/
def isBlankFor (h : Heap) (device : Device) (a : Addr) : Bool :=
  (h.device a).any fun d => d.devDriver = device.type ∧ d.devScreen = 0 ∧
    d.devOptionLst.find? isDeviceOption = none

/-- The Device section for the device: the first that has its path, or else the first that has
none. -/
def deviceFor (h : Heap) (device : Device) (devs : List Addr) : Option Addr :=
  (devs.find? (hasPath h device)).or (devs.find? (isBlankFor h device))

/-- The sections for the device are in the configuration up to the Monitor entry, and there is a
Display subsection for that or memory for one. -/
def Present (h : Heap) (configIR : Addr) (device : Device) (mem : Mem) : Prop :=
  ∃ c devs scrns a d b s p e displays, h.config configIR = some c ∧
    h.list c.confDeviceLst = some devs ∧ deviceFor h device devs = some a ∧ h.device a = some d ∧
    h.list c.confScreenLst = some scrns ∧
    (scrns.find? fun b => (h.screen b).any fun s => s.names d.devIdentifier) = some b ∧
    h.screen b = some s ∧ s.scrnMonitorLst = some p ∧ h.monitorEntry p = some e ∧
    h.list s.scrnDisplayLst = some displays ∧
    (mem.display ∨ ∃ x ∈ displays, (h.display x).any fun y => y.isFor s e)

end EditConfig
