import SolarisXorg.Fbconf.ResCompatible
import SolarisXorg.Fbconf.Scan

/-!
# Looking modes up in the compatibility file (`fbc_res_compatible.c`)

`fbc_res_comp_lookup` goes through the lines of the file. With the name of a mode it returns at the
first line for this hardware that names the mode; with a list of modes it writes NULL over the
pointers to the modes that are named. The file, the model name of the frame buffer and what the
display devices say of themselves are given. A run stops with a `Fault` where the parser reads past
the line, and where a NULL pointer to a mode is followed.
-/

namespace ResComp

open Lib

/-- `MAX_LINE_LEN` -/
def maxLineLen : Nat := 1024

/-- The string `fgets` leaves in the line buffer. -/
def lineBuf (block : List UInt8) : CLine where
  bytes := block.takeWhile (· ≠ 0)
  nulFree := fun h => by simpa using List.mem_takeWhile_imp h

/-- The lines of a file, as `fgets` reads them. -/
def fileLines (file : List UInt8) : List CLine :=
  if _h : Fbc.fgets maxLineLen file = [] then []
  else
    lineBuf (Fbc.fgets maxLineLen file) ::
      fileLines (file.drop (Fbc.fgets maxLineLen file).length)
termination_by file.length
decreasing_by
  have hle := (Fbc.fgets_isPrefix maxLineLen file).length_le
  have hpos := List.length_pos_iff.2 _h
  rw [List.length_drop]
  omega

/-- `strcasecmp(s, t) == 0` -/
def strcaseEq (s t : List UInt8) : Bool := s.map Fbc.tolower = t.map Fbc.tolower

/-- `fbc_edid_res_t`, as far as lines are compared with it -/
structure EdidRes where
  manufacturerId : List UInt8
  productCode : UInt16

/-- `XF86ConfModeLineRec`: the mode's name, unless that is NULL -/
structure ResMode where
  mlIdentifier : Option (List UInt8)

/-- Where a run stops. -/
inductive Fault where
  /-- Memory behind the line is read. -/
  | pastLine
  /-- A NULL `mode_ptr` is followed. -/
  | nullMode

section Lookup

variable (gfxModelName : List UInt8) (edidResInfo : List EdidRes)

/-- Whether a line's display device is one of ours. -/
def matchesDisplay (manufacturer product : List UInt8) (code : UInt16) : Bool :=
  edidResInfo.any fun d =>
    (manufacturer = chars "*" || strcaseEq manufacturer d.manufacturerId) &&
      (product = chars "*" || code = d.productCode)

/-- The mode name of a line that is for our frame buffer and one of our display devices. -/
def modeOfInterest (p : Parsed) : Option (List UInt8) :=
  if p.rc ≠ .fbcSuccess then none
  else
    match p.fbModelName, p.manufacturerId, p.productField, p.videoMode with
    | some model, some manufacturer, some product, some mode =>
      if strcaseEq model gfxModelName ∧
          matchesDisplay edidResInfo manufacturer product p.productCode then some mode
      else none
    | _, _, _, _ => none

/-- A mode of the list has the name. -/
def ResMode.named (mode : ResMode) (name : List UInt8) : Bool :=
  mode.mlIdentifier.any (strcaseEq name)

/-- The loop over the list of modes. -/
def excludeModes (name : List UInt8) : List (Option ResMode) → Except Fault (List (Option ResMode))
  | [] => .ok []
  | none :: _ => .error .nullMode
  | some mode :: elems => do
    let elems ← excludeModes name elems
    .ok ((if mode.named name then none else some mode) :: elems)

/-- `fbc_res_comp_lookup`: the value returned, and the `mode_ptr`s of the list. What an earlier,
longer line left in `line_buf` is not kept here: a read past the end of a line is a fault. -/
def fbcResCompLookup (resModeName : Option (List UInt8)) :
    List CLine → Option (List (Option ResMode)) →
      Except Fault (Bool × Option (List (Option ResMode)))
  | [], resModeList => .ok (true, resModeList)
  | line :: lines, resModeList =>
    match fbcResCompParse line with
    | none => .error .pastLine
    | some p =>
      match modeOfInterest gfxModelName edidResInfo p with
      | none => fbcResCompLookup resModeName lines resModeList
      | some name =>
        if resModeName.any (strcaseEq name) then .ok (false, resModeList)
        else
          match resModeList with
          | none => fbcResCompLookup resModeName lines none
          | some elems => do
            let elems ← excludeModes name elems
            fbcResCompLookup resModeName lines (some elems)

end Lookup

end ResComp
