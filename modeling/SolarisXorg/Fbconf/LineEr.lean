import Mathlib.Data.List.Basic

/-!
# Lines of the configuration (`fbc_line_er.c`)

The configuration file is kept as the list of its lines: where each was read from, and whether it is
to be copied, printed or left out when the file is written again. An element of the list is found by
its address, `malloc` succeeds and returns an address that is not in the list. A stream is the number
of an open input file, and closing a stream is recorded in `State.closed`.
-/

namespace Fbc

/-- `line_stat_t` -/
inductive LineStatus where
  | original
  | inserted
  | modified
  | deleted
  deriving DecidableEq

/-- The whitespace strings a line is printed with. -/
abbrev Whitespace := List (List UInt8)

/-- `fbc_line_elem_t`. A print function gets the pointer to the line's data and the whitespace. -/
structure Line where
  addr : Nat
  /-- `config_stream_in` -/
  stream : Option Nat
  linePos : Int
  irPtr : Option Nat
  printFn : Option (Option Nat → Whitespace → List UInt8)
  status : LineStatus
  indentLevel : Nat

/-- `FBC_INDENT_ENTRY` -/
def indentEntry : Nat := 3

/-- The list of lines, and the streams closed so far. A NULL stream is closed as `none`. -/
structure State where
  lines : List Line
  closed : List (Option Nat)

/-- `fbc_save_line_location` -/
def saveLineLocation (lines : List Line) (addr stream : Nat) (linePos : Nat) : List Line :=
  lines ++ [⟨addr, some stream, linePos, none, none, .original, 0⟩]

/-- `fbc_list_insert_prev` -/
def insertPrev (lines : List Line) (next : Nat) (line : Line) : List Line :=
  match lines with
  | [] => []
  | l :: lines => if l.addr = next then line :: l :: lines else l :: insertPrev lines next line

/-- `fbc_insert_line_ER`: the new line goes before `next`, or to the end. -/
def insertLineEr (lines : List Line) (addr : Nat) (next : Option Nat) (irPtr : Option Nat)
    (printFn : Option (Option Nat → Whitespace → List UInt8)) (indentLevel : Nat) : List Line :=
  match next with
  | none => lines ++ [⟨addr, none, -1, irPtr, printFn, .inserted, indentLevel⟩]
  | some next =>
    let indentLevel :=
      if indentLevel = indentEntry then
        match lines.find? fun line => line.addr = next with
        | some line => line.indentLevel + 1
        | none => indentLevel
      else indentLevel
    insertPrev lines next ⟨addr, none, -1, irPtr, printFn, .inserted, indentLevel⟩

/-- Changing the line at an address. -/
def update (lines : List Line) (addr : Nat) (f : Line → Line) : List Line :=
  lines.map fun line => if line.addr = addr then f line else line

/-- `fbc_modify_line_ER` -/
def modifyLineEr (lines : List Line) (addr : Nat) : List Line :=
  update lines addr fun line => { line with status := .modified }

/-- `fbc_edit_line_ER`, with the address of a line or NULL: the lines, and the address after it. -/
def editLineEr (lines : List Line) (line : Option Nat) (addr : Nat) (next : Option Nat)
    (irPtr : Option Nat) (printFn : Option (Option Nat → Whitespace → List UInt8))
    (indentLevel : Nat) : List Line × Option Nat :=
  match line with
  | none => (insertLineEr lines addr next irPtr printFn indentLevel, some addr)
  | some line => (modifyLineEr lines line, some line)

/-- `fbc_delete_line_ER` -/
def deleteLineEr (lines : List Line) (line : Option Nat) : List Line :=
  match line with
  | none => lines
  | some addr => update lines addr fun line => { line with irPtr := none, status := .deleted }

/-- The streams `fbc_close_down_config` closes, one where the stream changes from line to line. -/
def closedStreams (stream : Option Nat) : List Line → List (Option Nat)
  | [] => []
  | line :: lines =>
    if line.status ≠ .inserted ∧ stream ≠ line.stream then
      line.stream :: closedStreams line.stream lines
    else closedStreams stream lines

/-- `fbc_close_down_config` -/
def closeDownConfig (s : State) : State :=
  ⟨[], s.closed ++ closedStreams none s.lines⟩

end Fbc
