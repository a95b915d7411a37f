import SolarisXorg.Lib.Block
import SolarisXorg.Lib.CStr

/-!
# Equivalent colormaps (`CmapEquiv.c`)

The root window has a property with lists of visuals whose colormaps are equivalent, each of them
the number of its elements and then the elements. `buildList` decodes the lists one after the other
into an array on the stack, or into memory of its own where a list is too long for it, and keeps the
first list that has `v1`; `searchList` looks for `v2` in it. A cell that nothing was stored in has
no value, and there is no result where such a cell is compared, where a store is outside of a list
and where a pointer is used that was never set.

The lists that the string is documented to have are those of `documented`.
-/

namespace X11.CmapEquiv

open Lib

/-- `VisualID`, an `unsigned long` -/
abbrev VisualID := Nat

/-- `INIT_LIST_SIZE` -/
def initListSize : Int32 := 100

/-- `sizeof(VisualID)` -/
def sizeofVisualID : Nat := 8

/-! ## The lists in memory -/

/-- The cells of a list. -/
abbrev Cells := List (Option VisualID)

/-- Memory in which nothing was stored yet. -/
def unsetCells (n : Nat) : Cells := List.replicate n none

/-- `getNextEntry`, and the pointer that it leaves. -/
def getNextEntry (pp : List UInt8) : VisualID × List UInt8 :=
  let (entry, newP) := strtoul pp
  if newP = pp then (0, pp) else (entry, newP)

/-- The loop for the elements of a list, of which there are `n` more to come. -/
def readElements (vidIn : VisualID) :
    Nat → Int → Cells → List UInt8 → Bool → Option (Cells × List UInt8 × Bool)
  | 0, _, pList, p, foundIt => some (pList, p, foundIt)
  | n + 1, i, pList, p, foundIt =>
    let (vid, p) := getNextEntry p
    if vid = 0 then some (pList, p, foundIt)
    else (store pList i (some vid)).bind fun pList =>
      readElements vidIn n (i + 1) pList p (foundIt || vid = vidIn)

/-- `pList` -/
inductive Pointer where
  | unset
  | null
  /-- `pOriginalList` -/
  | original
  /-- what `malloc` has returned -/
  | allocated (cells : Cells)

/-- How the body of the loop in `buildList` ends, with what is in the array on the stack. -/
inductive Iteration where
  | leave (pList : Pointer) (list : Cells)
  | again (p : List UInt8) (list : Cells)

/-- The body of the loop in `buildList`. `malloc` is whether there are so many bytes. -/
def buildListBody (malloc : Nat → Bool) (vidIn : VisualID) (num : Int32) (p : List UInt8)
    (list : Cells) : Option Iteration :=
  if initListSize < num + 1 then
    let size := (num + 1).toInt.toNat
    if malloc (size * sizeofVisualID) then
      (readElements vidIn num.toInt.toNat 0 (unsetCells size) p false).bind
        fun (pList, p, foundIt) =>
          if foundIt then
            (store pList num.toInt (some 0)).map fun pList => .leave (.allocated pList) list
          else some (.again p list)
    else some (.leave .null list)
  else
    (readElements vidIn num.toInt.toNat 0 list p false).bind fun (pList, p, foundIt) =>
      if foundIt then (store pList num.toInt (some 0)).map fun pList => .leave .original pList
      else some (.again p pList)

/-! ## The lists of the string -/

/-- A list: the number announced, and what comes before the first that is no id, of as many. -/
structure IdList where
  count : Int
  ids : List VisualID

/-- The ids of a list that has `n` more to come, and what is left of the string. -/
def takeIds : Nat → List UInt8 → List VisualID × List UInt8
  | 0, p => ([], p)
  | n + 1, p =>
    let (vid, p) := getNextEntry p
    if vid = 0 then ([], p)
    else
      let (ids, p) := takeIds n p
      (vid :: ids, p)

theorem getNextEntry_length (pp : List UInt8) : (getNextEntry pp).2.length ≤ pp.length := by
  rw [getNextEntry]
  dsimp only
  split
  · exact Nat.le_refl _
  · exact (strtoul_length pp).1

theorem takeIds_length (n : Nat) (p : List UInt8) : (takeIds n p).2.length ≤ p.length := by
  induction n generalizing p with
  | zero => exact Nat.le_refl _
  | succ n ih =>
    have hentry := getNextEntry_length p
    rw [takeIds]
    dsimp only
    split
    · exact hentry
    · exact Nat.le_trans (ih _) hentry

/-- What is left of the string behind a list is shorter. -/
theorem takeIds_strtoul_length (n : Nat) {p : List UInt8} (hcount : (strtoul p).1 ≠ 0) :
    (takeIds n (strtoul p).2).2.length < p.length :=
  Nat.lt_of_le_of_lt (takeIds_length _ _) ((strtoul_length p).2 hcount)

theorem ne_zero_of_ofNat {n : Nat} (h : Int32.ofNat n ≠ 0) : n ≠ 0 := by
  rintro rfl
  exact h rfl

/-- The lists of the string, up to a count that is 0; `count` is what the counts are taken for. -/
def lists (count : Nat → Int) (p : List UInt8) : List IdList :=
  if (strtoul p).1 = 0 ∨ count (strtoul p).1 = 0 then []
  else
    let elements := takeIds (count (strtoul p).1).toNat (strtoul p).2
    ⟨count (strtoul p).1, elements.1⟩ :: lists count elements.2
termination_by p.length
decreasing_by
  rename_i hend
  exact takeIds_strtoul_length _ fun h => hend (.inl h)

/-- The lists with the counts as they are announced. -/
def documented (p : List UInt8) : List IdList := lists (fun n => n) p

/-- The lists with the counts as `int`s. -/
def intLists (p : List UInt8) : List IdList := lists (fun n => (Int32.ofNat n).toInt) p

/-! ## Decoding -/

theorem readElements_eq (vidIn : VisualID) (n : Nat) (i : Int) (pList : Cells) (p : List UInt8)
    (foundIt : Bool) : readElements vidIn n i pList p foundIt =
      (storeEach pList i ((takeIds n p).1.map some)).map fun pList =>
        (pList, (takeIds n p).2, foundIt || (takeIds n p).1.contains vidIn) := by
  induction n generalizing i pList p foundIt with
  | zero =>
    rw [readElements, takeIds, List.map_nil, storeEach, Option.map_some, List.contains_nil,
      Bool.or_false]
  | succ n ih =>
    rw [readElements, takeIds]
    dsimp only
    by_cases hzero : (getNextEntry p).1 = 0
    case pos =>
      rw [if_pos hzero, if_pos hzero, List.map_nil, storeEach, Option.map_some, List.contains_nil,
        Bool.or_false]
    rw [if_neg hzero, if_neg hzero]
    dsimp only
    rw [List.map_cons, storeEach, Option.map_bind]
    refine Option.bind_congr fun pList' _ => ?_
    have hfound : (vidIn == (getNextEntry p).1) = decide ((getNextEntry p).1 = vidIn) := by
      rw [BEq.comm]
      rfl
    rw [ih, List.contains_cons, hfound, Bool.or_assoc]
    rfl

/-- An iteration that is not the last one goes on behind the elements. -/
theorem buildListBody_again {malloc : Nat → Bool} {vidIn : VisualID} {num : Int32}
    {p p' : List UInt8} {list list' : Cells}
    (h : buildListBody malloc vidIn num p list = some (.again p' list')) :
    p' = (takeIds num.toInt.toNat p).2 := by
  rw [buildListBody] at h
  simp only [readElements_eq] at h
  split at h
  · split at h
    · obtain ⟨r, hr, h⟩ := Option.bind_eq_some_iff.1 h
      obtain ⟨pList, -, rfl⟩ := Option.map_eq_some_iff.1 hr
      dsimp only at h
      split at h
      · obtain ⟨_, _, h⟩ := Option.map_eq_some_iff.1 h
        cases h
      · cases h
        rfl
    · cases h
  · obtain ⟨r, hr, h⟩ := Option.bind_eq_some_iff.1 h
    obtain ⟨pList, -, rfl⟩ := Option.map_eq_some_iff.1 hr
    dsimp only at h
    split at h
    · obtain ⟨_, _, h⟩ := Option.map_eq_some_iff.1 h
      cases h
    · cases h
      rfl

theorem again_shorter {malloc : Nat → Bool} {vidIn : VisualID} {p p' : List UInt8}
    {list list' : Cells} (hnum : Int32.ofNat (strtoul p).1 ≠ 0)
    (h : buildListBody malloc vidIn (Int32.ofNat (strtoul p).1) (strtoul p).2 list =
      some (.again p' list')) : p'.length < p.length := by
  rw [buildListBody_again h]
  exact takeIds_strtoul_length _ (ne_zero_of_ofNat hnum)

/-- `buildList` from `p` on, with `pList` and what is in the array on the stack. -/
def buildList (malloc : Nat → Bool) (vidIn : VisualID) (p : List UInt8) (pList : Pointer)
    (list : Cells) : Option (Pointer × Cells) :=
  let num := Int32.ofNat (strtoul p).1
  if hnum : num = 0 then some (pList, list)
  else
    match h : buildListBody malloc vidIn num (strtoul p).2 list with
    | none => none
    | some (.leave pList list) => some (pList, list)
    | some (.again p' list) =>
      have := again_shorter hnum h
      buildList malloc vidIn p' .null list
termination_by p.length

/-! ## Looking for a visual -/

/-- `searchList`, from a cell on. -/
def searchList (pList : Cells) (v : VisualID) : Option Bool :=
  match pList with
  | [] => none
  | none :: _ => none
  | some x :: pList => if x = 0 then some false else if x = v then some true else searchList pList v

/-- The call of `searchList`, where `pList` is not `NULL`. -/
def Pointer.search (list : Cells) (v2 : VisualID) : Pointer → Option Bool
  | .unset => none
  | .null => some false
  | .original => searchList list v2
  | .allocated cells => searchList cells v2

/-- `areEquiv` -/
def areEquiv (malloc : Nat → Bool) (pPropString : List UInt8) (v1 v2 : VisualID) : Option Bool :=
  (buildList malloc v1 pPropString .unset (unsetCells initListSize.toInt.toNat)).bind fun r =>
    r.1.search r.2 v2

/-! ## The answer -/

/-- The first list with `v1` has `v2`. -/
def Equivalent (ls : List IdList) (v1 v2 : VisualID) : Prop :=
  ∃ l ∈ ls.find? fun l => v1 ∈ l.ids, v2 ∈ l.ids

instance (ls : List IdList) (v1 v2 : VisualID) : Decidable (Equivalent ls v1 v2) :=
  inferInstanceAs (Decidable (∃ _ ∈ _, _))

/-- `INT_MAX` -/
def intMax : Int := 2 ^ 31 - 1

/-- The list has memory of its own. For `INT_MAX` elements it does not, as `num + 1` overflows. -/
def IdList.Large (l : IdList) : Prop := initListSize.toInt ≤ l.count ∧ l.count < intMax

instance (l : IdList) : Decidable l.Large := inferInstanceAs (Decidable (_ ∧ _))

/-- The ids fit into the array, if the list is kept there. -/
def IdList.Fits (l : IdList) : Prop := l.count = intMax → l.ids.length ≤ initListSize.toInt

instance (l : IdList) : Decidable l.Fits := inferInstanceAs (Decidable (_ → _))

/-- There is memory for the list. -/
def IdList.Obtained (malloc : Nat → Bool) (l : IdList) : Prop :=
  l.Large → malloc ((l.count.toNat + 1) * sizeofVisualID) = true

instance (malloc : Nat → Bool) (l : IdList) : Decidable (l.Obtained malloc) :=
  inferInstanceAs (Decidable (_ → _))

/-- `buildList` does not go on behind the list. -/
def IdList.Ends (malloc : Nat → Bool) (v1 : VisualID) (l : IdList) : Prop :=
  v1 ∈ l.ids ∨ ¬l.Obtained malloc

instance (malloc : Nat → Bool) (v1 : VisualID) (l : IdList) : Decidable (l.Ends malloc v1) :=
  inferInstanceAs (Decidable (_ ∨ _))

/-- What the lists have left in a cell of the array on the stack. -/
def leftover (ls : List IdList) (i : Nat) : Option VisualID :=
  ls.reverse.findSome? fun l => if l.Large then none else l.ids[i]?

/-- The array on the stack. -/
def leftCells (ls : List IdList) : Cells := (List.range initListSize.toInt.toNat).map (leftover ls)

/-- What is in a cell of the list, after the lists `ls`. -/
def IdList.cell (ls : List IdList) (l : IdList) (i : Nat) : Option VisualID :=
  l.ids[i]?.or (if l.Large then none else leftover ls i)

/-- What is in the cells of a list, up to the number announced. -/
def IdList.cells (ls : List IdList) (l : IdList) : Cells :=
  (List.range l.count.toNat).map (l.cell ls)

section

variable (malloc : Nat → Bool) (v1 v2 : VisualID) (string : List UInt8)

/-- The lists that are decoded without `buildList` ending with them. -/
def before : List IdList := (intLists string).takeWhile fun l => ¬l.Ends malloc v1

/-- The list that `buildList` ends with. -/
def last : Option IdList := (intLists string).find? fun l => l.Ends malloc v1

/-- There is a list; what is stored is stored in the lists; and in the list that is searched, `v2`
is stored or all of the elements announced are. -/
structure Readable : Prop where
  nonempty : intLists string ≠ []
  room : ∀ l ∈ before malloc v1 string, l.Fits
  elements : ∀ l ∈ last malloc v1 string, l.Obtained malloc →
    l.count < intMax ∧ (some v2 ∈ l.cells (before malloc v1 string) ∨
      none ∉ l.cells (before malloc v1 string))

/-- `v2` is stored in the list that is searched. -/
def Found : Prop :=
  ∃ l ∈ last malloc v1 string, l.Obtained malloc ∧ some v2 ∈ l.cells (before malloc v1 string)

instance : Decidable (Found malloc v1 v2 string) := inferInstanceAs (Decidable (∃ _ ∈ _, _))

/-- The counts are `int`s. -/
def CountsFit : Prop := ∀ l ∈ documented string, l.count ≤ intMax

/-- The conditions on the string under which the answer is the documented one. -/
structure Answered : Prop where
  readable : Readable malloc v1 v2 string
  /-- An earlier list has not left `v2` behind the elements of the list that is searched. -/
  ids : CountsFit string → ∀ l ∈ last malloc v1 string, l.Obtained malloc →
    some v2 ∈ l.cells (before malloc v1 string) → v2 ∈ l.ids
  /-- Where the memory has run out, the answer is that there is no such list. -/
  obtained : CountsFit string → ∀ l ∈ last malloc v1 string, ¬l.Obtained malloc →
    ¬Equivalent (documented string) v1 v2
  /-- Where a count is too large for an `int`, the lists that are read otherwise answer alike. -/
  overflow : ¬CountsFit string →
    (Found malloc v1 v2 string ↔ Equivalent (documented string) v1 v2)

end

end X11.CmapEquiv
