import SolarisXorg.Fbconf.WriteConfig

/-!
# Aligned fields (`fields.c`)

`xf86printFields` writes white space and texts in turn. It goes through each string of white space
with the column that its characters were measured at (`field_col`), next to the column that the text
before it ends at (`cur_col`), and leaves out what the text has displaced. Columns do not overflow.
-/

namespace Fbc

open Lib

/-- The column width of a white space character. -/
def wspaceLen (fieldCol : Nat) (c : UInt8) : Nat :=
  if c = 0x09 then tabWidth - fieldCol % tabWidth else 1

/-- The loop over a string of white space: what is left of it, and the column behind it. -/
def scanWspace (curCol fieldCol : Nat) (wspace : List UInt8) : List UInt8 → List UInt8 × Nat
  | [] => (wspace, fieldCol)
  | c :: wspacePtr =>
    let wspace := if fieldCol ≤ curCol then c :: wspacePtr else wspace
    scanWspace curCol (fieldCol + wspaceLen fieldCol c) wspace wspacePtr

/-- The loop of `xf86printFields` from a field on, with the text before it: what is written. -/
def printFieldsFrom (field fieldCol curCol : Nat) (textPtr : List UInt8) :
    Whitespace → List (List UInt8) → List UInt8
  | [], _ => []
  | ws :: whitespace, texts =>
    let curCol := curCol + textPtr.length
    let (wspace, fieldCol) := scanWspace curCol fieldCol ws ws
    let (wspace, curCol) :=
      if 0 < field ∧ fieldCol ≤ curCol then ([0x20], curCol + 1) else (wspace, fieldCol)
    textPtr ++ wspace ++
      match texts with
      | [] => []
      | text :: texts => printFieldsFrom (field + 1) fieldCol curCol text whitespace texts

/-- `xf86printFields` -/
def printFields (whitespace : Whitespace) (texts : List (List UInt8)) : List UInt8 :=
  printFieldsFrom 0 0 0 [] whitespace texts

/-! ## The fields of a line

A line is white space, a text, white space again and the rest, each as long as it can be. -/

/-- A character of a text. -/
def isText (c : UInt8) : Bool := !(isBlank c || c = 0x0a)

namespace Fields

variable (line : List UInt8)

def ws0 : List UInt8 := line.takeWhile isBlank

def text : List UInt8 := (line.dropWhile isBlank).takeWhile isText

def afterText : List UInt8 := (line.dropWhile isBlank).dropWhile isText

def ws1 : List UInt8 := (afterText line).takeWhile isBlank

def rest : List UInt8 := (afterText line).dropWhile isBlank

/-- The column of the text. -/
def textColumn : Nat := blankColumn 0 (ws0 line)

/-- The column of the rest. -/
def restColumn : Nat := blankColumn (textColumn line + (text line).length) (ws1 line)

theorem append_eq : ws0 line ++ (text line ++ (ws1 line ++ rest line)) = line := by
  rw [ws0, text, ws1, rest, List.takeWhile_append_dropWhile, afterText,
    List.takeWhile_append_dropWhile, List.takeWhile_append_dropWhile]

end Fields

/-- A line with white space after its text, which does not start a comment. There is room for both
strings of white space in the buffer, the second one with what stands for the text. -/
structure FieldLine where
  line : List UInt8
  ws1_ne : Fields.ws1 line ≠ []
  noComment : (Fields.text line).head? ≠ some 0x23
  fits : (Fields.ws0 line).length + 1 +
    ((textWidth (Fields.textColumn line) (Fields.text line) (Fields.afterText line)).1 +
      (Fields.ws1 line).length + 1) ≤ whitespaceBufLen

/-- Two blanks, a text of two characters, and a tab up to the rest. -/
instance : Inhabited FieldLine :=
  ⟨⟨[0x20, 0x20, 0x61, 0x62, 0x09, 0x63], by decide, by decide, by decide⟩⟩

end Fbc
