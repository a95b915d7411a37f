import SolarisXorg.Lib.CStr

/-!
# Lines of the video mode compatibility file (`fbc_res_compatible.c`)

`fbc_res_comp_parse` scans a line from field to field and writes a NUL behind each. A pointer into
the line is the memory from there to the line's own terminating NUL; a function that reads past it
has no result. Everything the NULs overwrite is behind the pointer, except for the `#` of a comment:
a NUL takes its place before the scan, and the text of the comment stays in memory behind it.
-/

namespace ResComp

open Lib

/-- A line, as it is passed to the parser. -/
abbrev CLine := CString

/-- `FBC_WHITESPACE` -/
def isWhite (c : UInt8) : Bool := c = 0x09 || c = 0x0a || c = 0x20

/-- `FBC_SUCCESS` and `FBC_ERR_GENERAL` -/
inductive Rc where
  | fbcSuccess
  | fbcErrGeneral
  deriving DecidableEq

/-- What `fbc_res_comp_parse` returns. -/
structure Parsed where
  rc : Rc
  fbModelName : Option (List UInt8)
  manufacturerId : Option (List UInt8)
  productField : Option (List UInt8)
  productCode : UInt16
  videoMode : Option (List UInt8)
  errorText : Option String

/-- No fields to return yet. -/
def noFields : Parsed := ⟨.fbcSuccess, none, none, none, 0, none, none⟩

/-- An error that is returned at once. -/
def Parsed.fail (e : Parsed) (text : String) : Parsed :=
  { e with rc := .fbcErrGeneral, errorText := some text }

/-- An error text that is noted, if a condition holds, and nothing else. -/
def Parsed.note (e : Parsed) (cond : Bool) (text : String) : Parsed :=
  if cond then { e with errorText := some text } else e

/-- `strcspn`: the characters before one that ends the field, that one, and what is behind it. -/
def strcspn (stop : UInt8 → Bool) : List UInt8 → Option (List UInt8 × UInt8 × List UInt8)
  | [] => none
  | c :: mem =>
    if stop c || c = 0 then some ([], c, mem)
    else (strcspn stop mem).map fun (text, c', mem) => (c :: text, c', mem)

/-- `line_ptr += strspn(line_ptr, FBC_WHITESPACE)` -/
def skipWhite : List UInt8 → Option (List UInt8)
  | [] => none
  | c :: mem => if isWhite c then skipWhite mem else some (c :: mem)

/-- The line in memory, with a NUL in place of the first `#`. -/
def discardComment (line : CLine) : List UInt8 :=
  match line.bytes.dropWhile (· ≠ 0x23) with
  | [] => line.bytes ++ [0]
  | _ :: comment => line.bytes.takeWhile (· ≠ 0x23) ++ 0 :: (comment ++ [0])

/-- The product code field's value, unless something is left of it. -/
def readProduct (product : List UInt8) : Option UInt16 :=
  if product = chars "*" then some 0
  else
    let (code, rest) := strtoul product
    if rest = [] then some (.ofNat code) else none

/-- The video mode name, and what follows it. -/
def parseVideoMode (mem : List UInt8) (e : Parsed) : Option Parsed := do
  let mem ← skipWhite mem
  let (mode, c, mem) ← strcspn isWhite mem
  let e := { e with videoMode := some mode }
  if c = 0 then some e
  else
    let mem ← skipWhite mem
    if mem.head? = some 0 then some e else some (e.fail "Garbage following video mode name")

/-- The product code, and what follows it. -/
def parseProduct (mem : List UInt8) (e : Parsed) : Option Parsed := do
  let (product, c, mem) ← strcspn isWhite mem
  let e := { e with productField := some product }
  let e := e.note (product = [] || c = 0) "Error near display device product code"
  match readProduct product with
  | none =>
    -- what `strtoul` made of the field is stored before the rest of it is looked at
    let e := { e with productCode := .ofNat (strtoul product).1 }
    some (e.fail "Invalid display device product code")
  | some code => parseVideoMode mem { e with productCode := code }

/-- The manufacturer ID, and what follows it. -/
def parseManufacturer (mem : List UInt8) (e : Parsed) : Option Parsed := do
  let mem ← skipWhite mem
  let (manufacturer, c, mem) ← strcspn (· == 0x2c) mem
  let e := { e with manufacturerId := some manufacturer }
  if c = 0 then some (e.fail "Error near display device manufacturer ID")
  else parseProduct mem e

/-- `fbc_res_comp_parse` -/
def fbcResCompParse (line : CLine) : Option Parsed := do
  let mem ← skipWhite (discardComment line)
  if mem.head? = some 0 then some noFields
  else
    let (model, c, mem) ← strcspn isWhite mem
    let e := { noFields with fbModelName := some model }
    parseManufacturer mem (e.note (c = 0) "Error near frame buffer model name")

end ResComp
