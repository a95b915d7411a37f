import Mathlib.Data.List.Lex
import SolarisXorg.Fbconf.Scan
import SolarisXorg.Lib.SortedInsert

/-!
# The sorted list of video modes (`fbc_mode_list.c`)

An element of the list points to a `ModeLine` or `Mode` entry of the configuration; the functions
here take what the pointers point to (`entry`). `long` has 64 bits, so that none of the products
overflows. Allocations succeed.
-/

namespace Fbc

open Lib

/-- `XF86ConfModeLineRec`, as far as modes are compared. -/
structure ModeLine where
  mlIdentifier : CString
  mlClock : Int32
  mlHdisplay : Int32
  mlHsyncstart : Int32
  mlHsyncend : Int32
  mlHtotal : Int32
  mlVdisplay : Int32
  mlVsyncstart : Int32
  mlVsyncend : Int32
  mlVtotal : Int32
  mlVscan : Int32
  mlFlags : Int32
  mlHskew : Int32

/-- Total pixels. -/
def ModeLine.total (m : ModeLine) : Int := m.mlHtotal.toInt * m.mlVtotal.toInt

/-- The vertical frequency, in an `int`. -/
def ModeLine.frequency (m : ModeLine) : Int32 := .ofInt ((m.mlClock.toInt * 1000).tdiv m.total)

/-- Two tests of a descending key: `lt` breaks off the search, `gt` continues it. -/
def descending (new old : Int32) : Ordering :=
  if new > old then .lt else if new < old then .gt else .eq

/-- Two tests of the name comparison's result. -/
def ascending (nameComp : Int) : Ordering :=
  if nameComp < 0 then .lt else if nameComp > 0 then .gt else .eq

/-- The tests of the loop in `fbc_insert_mode_in_list`, for the new mode and one of the list. What
is left when all of them fail is a duplicate. -/
def compareModes (new mode : ModeLine) : Ordering :=
  (descending new.mlHdisplay mode.mlHdisplay).then <|
  (descending new.mlVdisplay mode.mlVdisplay).then <|
  (descending new.frequency mode.frequency).then <|
  (ascending (xf86nameCompare new.mlIdentifier.bytes mode.mlIdentifier.bytes)).then <|
  (descending new.mlHtotal mode.mlHtotal).then <|
  (descending new.mlVtotal mode.mlVtotal).then <|
  (descending new.mlClock mode.mlClock).then <|
  (descending new.mlHsyncstart mode.mlHsyncstart).then <|
  (descending new.mlHsyncend mode.mlHsyncend).then <|
  (descending new.mlVsyncstart mode.mlVsyncstart).then <|
  (descending new.mlVsyncend mode.mlVsyncend).then <|
  (descending new.mlVscan mode.mlVscan).then <|
  (descending new.mlHskew mode.mlHskew).then <|
  descending new.mlFlags mode.mlFlags

section Lists

variable {Ptr : Type} (entry : Ptr → ModeLine)

/-- `fbc_insert_mode_in_list` -/
def fbcInsertModeInList (modeList : List Ptr) (new : Ptr) : List Ptr :=
  if (entry new).total ≤ 0 then modeList
  else insertNew (fun new mode => compareModes (entry new) (entry mode)) new modeList

/-- `fbc_append_mode_list_to_list` -/
def fbcAppendModeListToList (modeList entries : List Ptr) : List Ptr :=
  entries.foldl (fbcInsertModeInList entry) modeList

/-- `fbc_get_mode_list`, with the monitor's own entries and those of each `Modes` section that it
uses. -/
def fbcGetModeList (monModelineLst : List Ptr) (modesSections : List (List Ptr)) : List Ptr :=
  modesSections.foldl (fbcAppendModeListToList entry)
    (fbcAppendModeListToList entry [] monModelineLst)

end Lists

/-! ## The documented order -/

/-- The keys before the name. They descend. -/
def ModeLine.displayKey (m : ModeLine) : List Int :=
  [m.mlHdisplay, m.mlVdisplay, m.frequency].map fun n => -n.toInt

/-- The keys after the name. They descend. -/
def ModeLine.restKey (m : ModeLine) : List Int :=
  [m.mlHtotal, m.mlVtotal, m.mlClock, m.mlHsyncstart, m.mlHsyncend, m.mlVsyncstart, m.mlVsyncend,
    m.mlVscan, m.mlHskew, m.mlFlags].map fun n => -n.toInt

/-- The first mode is before the second: lists of keys are in lexicographic order, with the name
between them. -/
def Before (m n : ModeLine) : Prop :=
  m.displayKey < n.displayKey ∨ m.displayKey = n.displayKey ∧
    (xf86nameCompare m.mlIdentifier.bytes n.mlIdentifier.bytes < 0 ∨
      xf86nameCompare m.mlIdentifier.bytes n.mlIdentifier.bytes = 0 ∧ m.restKey < n.restKey)

/-- Two modes agree on all keys. -/
def SameKeys (m n : ModeLine) : Prop :=
  m.displayKey = n.displayKey ∧
    xf86nameCompare m.mlIdentifier.bytes n.mlIdentifier.bytes = 0 ∧ m.restKey = n.restKey

instance (m n : ModeLine) : Decidable (SameKeys m n) := inferInstanceAs (Decidable (_ ∧ _ ∧ _))

end Fbc
