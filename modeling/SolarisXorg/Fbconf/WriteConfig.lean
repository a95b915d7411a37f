import SolarisXorg.Fbconf.Scan

/-!
# Writing the configuration file (`fbc_write_config.c`, `fbc_fields.c`)

`fbc_write_config_file` goes through the list of lines. A line that is to be copied is read again
from its input file, at the position saved; a line that is new or modified is printed, with the
whitespace of the last line read again. The result is the text written and whether the function
succeeds; `none` is a use of a NULL stream or one of the places of `scan.c` that go wrong.
-/

namespace Fbc

open Lib

/-! ## Whitespace -/

/-- `xf86whitespace_0` -/
def whitespace0 : Whitespace := [chars "", chars " ", chars " "]

/-- `xf86whitespace_1` -/
def whitespace1 : Whitespace := [chars "\t", chars "\t\t", chars " "]

/-- `xf86whitespace_2` -/
def whitespace2 : Whitespace := [chars "\t\t", chars "\t\t", chars " "]

/-- `XF86_TAB_WIDTH` -/
def tabWidth : Nat := 8

/-- `FBC_WSPACE_FIELDS` -/
def wspaceFields : Nat := 2

/-- The length of `whitespace_buf`. -/
def whitespaceBufLen : Nat := 1024

/-- A space or a tab. -/
def isBlank (c : UInt8) : Bool := c = 0x20 || c = 0x09

/-- The column after blanks. -/
def blankColumn (column : Nat) (blanks : List UInt8) : Nat :=
  blanks.foldl (fun column c => if c = 0x09 then (column / tabWidth + 1) * tabWidth else column + 1)
    column

/-- A text string at a column: its length in the blanks that follow it, and that blank. -/
def textWidth (column : Nat) (text rest : List UInt8) : Nat × UInt8 :=
  if rest.head? = some 0x09 then
    ((column + text.length) / tabWidth - column / tabWidth, 0x09)
  else (text.length, 0x20)

/-- The loop of `fbc_measure_whitespace` over the fields of a line, with the width and the blank of
the text before. -/
def measureFields (line : List UInt8) (field column width : Nat) (blank : UInt8) :
    Nat → Whitespace
  | 0 => []
  | fields + 1 =>
    let blanks := line.takeWhile isBlank
    let rest := line.dropWhile isBlank
    let column := blankColumn column blanks
    -- Whitespace that does not fit is replaced, and the text after it is not looked at.
    if whitespaceBufLen < width + blanks.length + 1 then
      whitespace1.getD field [] :: measureFields rest (field + 1) column width blank fields
    else
      let text := rest.takeWhile fun c => !(isBlank c || c = 0x0a)
      let rest := rest.dropWhile fun c => !(isBlank c || c = 0x0a)
      let (width', blank') := textWidth column text rest
      (List.replicate width blank ++ blanks) ::
        measureFields rest (field + 1) (column + text.length) width' blank' fields

/-- `fbc_measure_whitespace`. Comments are not measured. -/
def measureWhitespace (line : List UInt8) (wspace : Whitespace) : Whitespace :=
  if (line.dropWhile isBlank).head? = some 0x23 then wspace
  else measureFields line 0 0 0 0x20 wspaceFields

/-! ## Lines -/

/-- Written in place of an inserted line that cannot be printed. -/
def discardedText : List UInt8 :=
  chars "### A line to be inserted here was discarded for lack of a print function\n"

/-- Written before a modified line that cannot be printed. -/
def notModifiedText : List UInt8 :=
  chars "### The following line was not modified for lack of a print function\n"

section

variable (files : Nat → List UInt8)

/-- `fbc_reread_config_line`: the line, unless there is an error, the buffer's length and the
whitespace. -/
def rereadConfigLine (line : Line) (len : Nat) (wspace : Whitespace) :
    Option (Option (List UInt8) × Nat × Whitespace) :=
  match line.stream with
  | none => none
  | some stream =>
    if line.linePos < 0 then some (none, len, wspace)
    else
      match getNextLine len (files stream) line.linePos.toNat with
      | none => none
      | some (none, len, _) => some (none, len, wspace)
      | some (some text, len, _) => some (some text, len, measureWhitespace text wspace)

/-- The whitespace an inserted line is printed with, and whether whitespace is measured after it. -/
def insertedWhitespace (line : Line) (wspace : Whitespace) (measured : Bool) : Whitespace × Bool :=
  if !measured ∨ line.indentLevel = 0 then
    match line.indentLevel with
    | 0 => (whitespace0, false)
    | 1 => (whitespace1, measured)
    | 3 => (whitespace1, measured)
    | _ => (whitespace2, measured)
  else (wspace, measured)

/-- What is known at a line: the length of the line buffer, the whitespace and whether it was
measured. -/
structure WriteState where
  len : Nat
  wspace : Whitespace
  measured : Bool

/-- Copying a line: the text written, and whether the line could be read. -/
def copyLine (s : WriteState) (line : Line) : Option (List UInt8 × Bool × WriteState) :=
  match rereadConfigLine files line s.len s.wspace with
  | none => none
  | some (none, len, wspace) => some ([], false, ⟨len, wspace, s.measured⟩)
  | some (some text, len, wspace) => some (text, true, ⟨len, wspace, true⟩)

/-- One turn of the loop of `fbc_write_config_file`. -/
def writeLine (s : WriteState) (line : Line) : Option (List UInt8 × Bool × WriteState) :=
  match line.status with
  | .original => copyLine files s line
  | .inserted =>
    match line.printFn with
    | none => some (discardedText, true, s)
    | some printFn =>
      let (wspace, measured) := insertedWhitespace line s.wspace s.measured
      some (printFn line.irPtr wspace, true, { s with measured := measured })
  | .modified =>
    match rereadConfigLine files line s.len s.wspace with
    | none => none
    | some (_, len, wspace) =>
      match line.printFn with
      | none =>
        (copyLine files ⟨len, wspace, true⟩ line).map fun (text, ok, s) =>
          (notModifiedText ++ text, ok, s)
      | some printFn => some (printFn line.irPtr wspace, true, ⟨len, wspace, true⟩)
  | .deleted => some ([], true, s)

/-- The loop of `fbc_write_config_file`: the text, and whether it came to the end of the list. -/
def writeLines (s : WriteState) : List Line → Option (List UInt8 × Bool)
  | [] => some ([], true)
  | line :: lines =>
    match writeLine files s line with
    | none => none
    | some (text, false, _) => some (text, false)
    | some (text, true, s) => (writeLines s lines).map fun (out, ok) => (text ++ out, ok)

/-- `fbc_write_config_file` with a line buffer of a length. `modes` is the section that
`fbc_write_config_modes` prints if a video mode was asked for. -/
def writeConfigFile (lines : List Line) (len : Nat) (modes : Option (List UInt8)) :
    Option (List UInt8 × Bool) :=
  (writeLines files ⟨len, whitespace0, false⟩ lines).map fun (out, ok) =>
    if ok then (out ++ modes.getD [], ok) else (out, ok)

end

end Fbc
