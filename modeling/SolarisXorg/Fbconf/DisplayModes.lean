import SolarisXorg.Fbconf.Scan
import SolarisXorg.Lib.Chain

/-!
# Setting the video mode of a Display subsection (`fbc_Screen.c`)

`fbc_edit_Display_subsection` looks for a name in the list of mode names of a Display subsection,
and makes its element the list: it takes the element out, or creates it, frees the first element
that is left, and has the subsection point to the one it found. The list is in memory with its
links, and the function works on it through a pointer to the link that it reads. There is no result
where a link leads to memory that has been freed.
-/

namespace DisplayModes

open Lib Fbc

/-- The place of a record; a pointer is an `Option Addr`, with `none` for `NULL`. -/
abbrev Addr := Nat

/-- `XF86ModeRec` -/
structure ModeRec where
  modeName : CString
  next : Option Addr

/-- A Display subsection's list of mode names, and the records in memory: `none` is one that has
been freed. -/
structure Display where
  dispModeLst : Option Addr
  modes : List (Option ModeRec)

namespace Display

/-- The record at an address. -/
def mode (d : Display) (a : Addr) : Option ModeRec := d.modes[a]?.join

/-- The link of the record at an address. -/
def next (d : Display) (a : Addr) : Option Addr := (d.mode a).bind ModeRec.next

/-- The record at an address has a name equivalent to this one. -/
def named (d : Display) (name : CString) (a : Addr) : Bool :=
  (d.mode a).any fun r => xf86nameCompare name.bytes r.modeName.bytes = 0

end Display

/-- What `disp_mode_pptr` points to. -/
inductive Slot where
  | dispModeLst
  | next (a : Addr)

/-- `*disp_mode_pptr` -/
def Display.load (d : Display) : Slot → Option (Option Addr)
  | .dispModeLst => some d.dispModeLst
  | .next a => (d.mode a).map ModeRec.next

/-- `*disp_mode_pptr = p` -/
def Display.store (d : Display) (p : Option Addr) : Slot → Display
  | .dispModeLst => { d with dispModeLst := p }
  | .next a => { d with modes := d.modes.modify a (Option.map fun r => { r with next := p }) }

/-- A new record, with a name. Its address is the first that is not in use. -/
def Display.create (d : Display) (name : CString) : Display :=
  { d with modes := d.modes ++ [some ⟨name, none⟩] }

/-- `xf86conffree` -/
def Display.free (d : Display) (a : Addr) : Display := { d with modes := d.modes.set a none }

/-- The result of the call. -/
inductive Rc where
  | fbcSuccess
  | fbcErrNomem
  deriving DecidableEq

/-- What becomes of the Modes line. -/
inductive Line where
  | inserted
  | modified

/-- Which of the allocations succeed. -/
structure Mem where
  modeRec : Bool
  modeName : Bool

/-- The loop that looks for a name: where it ends, and the element there. -/
def findMode (d : Display) (name : CString) : Nat → Slot → Option (Slot × Option Addr)
  | 0, _ => none
  | n + 1, pptr =>
    match d.load pptr with
    | none => none
    | some none => some (pptr, none)
    | some (some a) =>
      match d.mode a with
      | none => none
      | some r =>
        if xf86nameCompare name.bytes r.modeName.bytes = 0 then some (pptr, some a)
        else findMode d name n (.next a)

/-- The first element is freed, and another one takes its place. -/
def replaceMode (d : Display) (a : Addr) : Display :=
  match d.dispModeLst with
  | none => { d with dispModeLst := some a }
  | some old => { d.free old with dispModeLst := some a }

/-- `fbc_edit_Display_subsection` -/
def editDisplaySubsection (videoMode : Option CString) (mem : Mem) (d : Display) :
    Option (Rc × Display × Option Line) :=
  match videoMode with
  | none => some (.fbcSuccess, d, none)
  | some name =>
    let line := if d.dispModeLst.isNone then Line.inserted else Line.modified
    -- The loop meets each record at most once, and the end.
    match findMode d name (d.modes.length + 1) .dispModeLst with
    | none => none
    | some (_, none) =>
      if mem.modeRec && mem.modeName then
        some (.fbcSuccess, replaceMode (d.create name) d.modes.length, some line)
      else some (.fbcErrNomem, d, none)
    | some (pptr, some a) => some (.fbcSuccess, replaceMode (d.store (d.next a) pptr) a, some line)

/-- `fbc_find_active_Mode_name` -/
def findActiveModeName (d : Display) : Option CString :=
  d.dispModeLst.bind fun a => (d.mode a).map ModeRec.modeName

/-! ## What is to hold -/

/-- A Display subsection with its list. -/
structure Subsection extends Display where
  elems : List Addr
  linked : Chain toDisplay.next dispModeLst elems
  allocated : ∀ a ∈ elems, (toDisplay.mode a).isSome

/-- The links lead from a pointer to an element. -/
inductive Reaches (d : Display) : Option Addr → Addr → Prop where
  | here {a : Addr} : Reaches d (some a) a
  | next {a b : Addr} : Reaches d (d.next a) b → Reaches d (some a) b

/-- The list is one element with an equivalent name, and leads to nothing that has been freed. -/
def OnlyMode (name : CString) (d : Display) : Prop :=
  (∃ a, Chain d.next d.dispModeLst [a] ∧ d.named name a = true) ∧
    ∀ a, Reaches d d.dispModeLst a → (d.mode a).isSome

end DisplayModes
