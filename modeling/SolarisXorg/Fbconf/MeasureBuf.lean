import SolarisXorg.Fbconf.Fields
import SolarisXorg.Lib.Block

/-!
# The buffer for white space (`fbc_fields.c`)

`fbc_measure_whitespace` once more, with `whitespace_buf` as memory: the strings for both fields of a
line are written one after the other behind a pointer. There is no result where a string is written
past the end of the buffer. A column and the count of a text are an `int`, the length of white space
is not.
-/

namespace Fbc

open Lib

/-- `fbc_wspace_t.whitespace_buf` -/
structure WspaceBuf where
  bytes : List UInt8
  length_eq : bytes.length = whitespaceBufLen

/-- An element of `whitespace[]`: one of the strings of `xf86whitespace_1`, or a string in the
buffer. -/
inductive WspacePtr where
  | fixed (field : Nat)
  | buf (pos : Nat)
  deriving DecidableEq

/-- The column after blanks. -/
def intColumn (column : Int32) (blanks : List UInt8) : Int32 :=
  blanks.foldl (fun column c => if c = 0x09 then (column / 8 + 1) * 8 else column + 1) column

/-- The loop over a text: `wspace_char`, `wspace_count`, the column and what is left of the line. -/
def scanText (column count : Int32) : List UInt8 → UInt8 × Int32 × Int32 × List UInt8
  | [] => (0x20, count, column, [])
  | c :: line =>
    if c = 0x20 ∨ c = 0x0a then (0x20, count, column, c :: line)
    else if c = 0x09 then (0x09, column / 8 - (column - count) / 8, column, c :: line)
    else scanText (column + 1) (count + 1) line

/-- An `int` as a `size_t`. -/
def toSize (n : Int32) : Nat := (n.toInt % 2 ^ 64).toNat

/-- The string for a field is longer than a buffer. It is compared as a `size_t`, for which no length
is negative. -/
def tooLong (count : Int32) (blanks : List UInt8) : Bool :=
  count.toInt + blanks.length + 1 < 0 || whitespaceBufLen < count.toInt + blanks.length + 1

/-- The string for a field: the text before it as white space, the field, and the terminator. -/
def storeField (buf : List UInt8) (ptr : Nat) (char : UInt8) (count : Int32)
    (blanks line : List UInt8) : Option (List UInt8 × Nat) := do
  let n := toSize count
  let buf ← storeEach buf ptr (List.replicate n char)
  let ptr := ptr + n
  let n := toSize (Int32.ofNat blanks.length)
  let buf ← storeEach buf ptr (line.take n)
  let ptr := ptr + n
  let buf ← store buf ptr 0
  some (buf, ptr + 1)

/-- The loop of `fbc_measure_whitespace` over the fields of a line. -/
def measureBufFields (line : List UInt8) (field : Nat) (column : Int32) (char : UInt8)
    (count : Int32) (ptr : Nat) (buf : List UInt8) : Nat → Option (List WspacePtr × List UInt8)
  | 0 => some ([], buf)
  | fields + 1 =>
    let blanks := line.takeWhile isBlank
    let rest := line.dropWhile isBlank
    let column := intColumn column blanks
    if tooLong count blanks then
      (measureBufFields rest (field + 1) column char count ptr buf fields).map fun (ptrs, buf) =>
        (.fixed field :: ptrs, buf)
    else
      (storeField buf ptr char count blanks line).bind fun (buf, ptr') =>
        let (char, count, column, rest) := scanText column 0 rest
        (measureBufFields rest (field + 1) column char count ptr' buf fields).map
          fun (ptrs, buf) => (.buf ptr :: ptrs, buf)

/-- `fbc_measure_whitespace`: the pointers, unless the line is a comment, and the buffer. -/
def measureBuf (line : List UInt8) (buf : WspaceBuf) :
    Option (Option (List WspacePtr) × List UInt8) :=
  if (line.dropWhile isBlank).head? = some 0x23 then some (none, buf.bytes)
  else
    (measureBufFields line 0 0 0x20 0 0 buf.bytes wspaceFields).map fun (ptrs, buf) =>
      (some ptrs, buf)

/-! ## When there is room -/

namespace Fields

variable (line : List UInt8)

/-- The width of the text as white space: its length, or the tab stops it crosses if a tab follows. -/
def intWidth : Int32 :=
  let count := Int32.ofNat (text line).length
  let column := intColumn 0 (ws0 line) + count
  if (afterText line).head? = some 0x09 then column / 8 - (column - count) / 8 else count

end Fields

/-- The line is a comment, one of its two strings is left out because it is longer than the buffer,
or the buffer has room for both strings and their terminators. -/
def HasRoom (line : List UInt8) : Prop :=
  (line.dropWhile isBlank).head? = some 0x23 ∨
    whitespaceBufLen < (Fields.ws0 line).length + 1 ∨
    tooLong (Fields.intWidth line) (Fields.ws1 line) = true ∨
    0 ≤ (Fields.intWidth line).toInt ∧
      (Fields.ws0 line).length + 1 + ((Fields.intWidth line).toInt + (Fields.ws1 line).length + 1) ≤
        whitespaceBufLen

end Fbc
