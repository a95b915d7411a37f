import SolarisXorg.Fbconf.Scan

/-!
# `UseModes` entries of a Monitor section (`fbc_Monitor.c`, `fbc_Modes.c`)

A new video mode puts a `UseModes` line for the device's modes into the Monitor section, and a later
choice of another mode takes it out again. The list entry of a Monitor section has the name of the
modes and the line, if it has one of its own. The buffers for the names are long enough.
-/

namespace Fbc

open Lib

/-- `XF86ConfModesLinkRec` -/
structure ModesLink where
  modesStr : List UInt8
  lineEr : Option Nat

/-- `XF86ConfMonitorRec`, as far as `UseModes` entries go. -/
structure MonitorModes where
  identifier : List UInt8
  modesSectLst : List ModesLink
  endLineEr : Option Nat
  usemodesLineEr : Option Nat

/-- `xf86findModes` in the list of a Monitor section. -/
def findModes (ident : List UInt8) (links : List ModesLink) : Option ModesLink :=
  links.find? fun link => nameEq ident link.modesStr

/-- `fbc_insert_UseModes_entry` of a Modes section. The new line, if there is one, has the address
`addr`, the data `irPtr` and the print function `printFn`. -/
def insertUseModesEntry (lines : List Line) (monitor : MonitorModes) (modes : List UInt8)
    (addr : Nat) (irPtr : Option Nat)
    (printFn : Option (Option Nat → Whitespace → List UInt8)) : List Line × MonitorModes :=
  let links := monitor.modesSectLst ++ [⟨modes, none⟩]
  let name := modes ++ chars "_" ++ monitor.identifier
  match findModes name links with
  | some link => (lines, { monitor with modesSectLst := links, usemodesLineEr := link.lineEr })
  | none =>
    (insertLineEr lines addr monitor.endLineEr irPtr printFn 1,
      { monitor with
        modesSectLst := links ++ [⟨name, some addr⟩]
        usemodesLineEr := some addr })

/-- `fbc_remove_monitor_usemodes_entry_ER` -/
def removeMonitorUsemodesEntryEr (lines : List Line) (monitor : MonitorModes) : List Line :=
  match findModes (chars "SunModes_" ++ monitor.identifier) monitor.modesSectLst with
  | none => lines
  | some link => deleteLineEr lines link.lineEr

end Fbc
