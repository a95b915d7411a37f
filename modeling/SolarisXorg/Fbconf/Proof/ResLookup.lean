import Mathlib.Data.List.Forall2
import SolarisXorg.Fbconf.ResLookup

/-!
# Listing and checking video modes

The lines for this hardware name modes, `named`, in the order of the file. A check looks for its
mode among the names (`lookup_name`); a listing takes the names one after the other through the
list (`lookup_list`), and that goes well exactly if no name but the last is one of the list
(`excludeAll_ok_iff`), as a pointer that has been overwritten is followed by the next line. Where it
goes well, the modes excluded are those named, which are the ones a check refuses
(`agrees_iff`).
-/

namespace ResComp

open Lib

variable (gfxModelName : List UInt8) (edidResInfo : List EdidRes)

/-- The names of modes on the lines for this hardware. -/
def hardwareNames (lines : List CLine) : List (List UInt8) :=
  lines.filterMap fun line =>
    (fbcResCompParse line).bind (modeOfInterest gfxModelName edidResInfo)

/-- The parser reads no line past its end. -/
def LinesEnd (lines : List CLine) : Prop := ∀ line ∈ lines, (fbcResCompParse line).isSome

/-- The list of modes as it is made. -/
def modeElems (modes : List ResMode) : List (Option ResMode) := modes.map some

/-- **Listing and checking agree**: the lookup with the list follows no NULL, excludes a mode exactly
if the lookup with its name returns FALSE, and leaves the other pointers alone. -/
def Agrees (lines : List CLine) (modes : List ResMode) : Prop :=
  ∃ ret elems, fbcResCompLookup gfxModelName edidResInfo none lines (some (modeElems modes)) =
      .ok (ret, some elems) ∧
    List.Forall₂ (fun mode elem =>
      (elem = none ↔ fbcResCompLookup gfxModelName edidResInfo mode.mlIdentifier lines none =
        .ok (false, none)) ∧
      (elem ≠ none → elem = some mode)) modes elems

/-- No line for this hardware follows one that names a mode of the list. -/
def NoneFollows (lines : List CLine) (modes : List ResMode) : Prop :=
  ∀ name ∈ (hardwareNames gfxModelName edidResInfo lines).dropLast, ∀ mode ∈ modes,
    mode.named name = false

variable {gfxModelName edidResInfo} {lines : List CLine} {modes : List ResMode}

/-! ## Names and the list -/

/-- The list without the modes that have one of the names. -/
def without (names : List (List UInt8)) (modes : List ResMode) : List (Option ResMode) :=
  modes.map fun mode => if names.any mode.named then none else some mode

/-- The names, one after the other. -/
def excludeAll (names : List (List UInt8)) (elems : List (Option ResMode)) :
    Except Fault (List (Option ResMode)) :=
  names.foldlM (fun elems name => excludeModes name elems) elems

theorem excludeModes_eq (name : List UInt8) (modes : List ResMode) :
    excludeModes name (modeElems modes) = .ok (without [name] modes) := by
  induction modes with
  | nil => rfl
  | cons mode modes ih =>
    show (excludeModes name (modeElems modes) >>= _) = _
    rw [ih]
    simp [without, bind, Except.bind]

/-- A pointer that was overwritten is followed. -/
theorem excludeModes_of_mem {name : List UInt8} {elems : List (Option ResMode)}
    (h : none ∈ elems) : excludeModes name elems = .error .nullMode := by
  induction elems with
  | nil => cases h
  | cons elem elems ih =>
    cases elem with
    | none => rfl
    | some mode =>
      have hmem : none ∈ elems := by simpa using h
      show (excludeModes name elems >>= _) = _
      rw [ih hmem]
      rfl

theorem without_singleton {name : List UInt8} (h : ∀ mode ∈ modes, mode.named name = false) :
    without [name] modes = modeElems modes := by
  apply List.map_congr_left
  intro mode hmode
  simp [h mode hmode]

theorem without_cons {name : List UInt8} {names : List (List UInt8)}
    (h : ∀ mode ∈ modes, mode.named name = false) :
    without (name :: names) modes = without names modes := by
  apply List.map_congr_left
  intro mode hmode
  simp [h mode hmode]

/-- The names go through the list if none but the last is in it. -/
theorem excludeAll_ok {names : List (List UInt8)}
    (h : ∀ name ∈ names.dropLast, ∀ mode ∈ modes, mode.named name = false) :
    excludeAll names (modeElems modes) = .ok (without names modes) := by
  induction names with
  | nil =>
    simp [excludeAll, without, modeElems]
    rfl
  | cons name names ih =>
    rw [excludeAll, List.foldlM_cons, excludeModes_eq]
    cases names with
    | nil => rfl
    | cons name' names =>
      rw [List.dropLast_cons_cons, List.forall_mem_cons] at h
      rw [without_singleton h.1, without_cons h.1]
      exact ih h.2

/-- Otherwise a pointer that was overwritten is followed. -/
theorem excludeAll_error {names : List (List UInt8)}
    (h : ¬∀ name ∈ names.dropLast, ∀ mode ∈ modes, mode.named name = false) :
    excludeAll names (modeElems modes) = .error .nullMode := by
  induction names with
  | nil => exact absurd (by simp) h
  | cons name names ih =>
    rw [excludeAll, List.foldlM_cons, excludeModes_eq]
    cases names with
    | nil => exact absurd (by simp) h
    | cons name' names =>
      rw [List.dropLast_cons_cons, List.forall_mem_cons] at h
      by_cases hname : ∀ mode ∈ modes, mode.named name = false
      · rw [without_singleton hname]
        exact ih fun hrest => h ⟨hname, hrest⟩
      · have hnull : none ∈ without [name] modes := by
          simp only [not_forall] at hname
          obtain ⟨mode, hmode, hnamed⟩ := hname
          refine List.mem_map.2 ⟨mode, hmode, ?_⟩
          simpa using hnamed
        show (excludeModes name' (without [name] modes) >>= _) = _
        rw [excludeModes_of_mem hnull]
        rfl

/-! ## The two uses -/

/-- The loop over the lines, when no line is read past its end. -/
theorem lookup_list (hends : LinesEnd lines) (elems : List (Option ResMode)) :
    fbcResCompLookup gfxModelName edidResInfo none lines (some elems) =
      (excludeAll (hardwareNames gfxModelName edidResInfo lines) elems).map fun elems =>
        (true, some elems) := by
  induction lines generalizing elems with
  | nil => rfl
  | cons line lines ih =>
    obtain ⟨p, hp⟩ := Option.isSome_iff_exists.1 (hends line List.mem_cons_self)
    have ih := ih fun line hline => hends line (List.mem_cons_of_mem _ hline)
    rw [fbcResCompLookup, hp, hardwareNames]
    cases hmode : modeOfInterest gfxModelName edidResInfo p with
    | none =>
      rw [List.filterMap_cons_none (by rw [hp]; exact hmode)]
      simp only [hmode]
      exact ih elems
    | some name =>
      rw [List.filterMap_cons_some (by rw [hp]; exact hmode)]
      simp only [hmode]
      show (excludeModes name elems >>= _) = _
      rw [excludeAll, List.foldlM_cons]
      cases excludeModes name elems with
      | error fault => rfl
      | ok elems => exact ih elems

/-- A line read past its end stops a listing. -/
theorem lookup_list_pastLine (hends : ¬LinesEnd lines) (elems : List (Option ResMode)) :
    ∃ fault, fbcResCompLookup gfxModelName edidResInfo none lines (some elems) =
      .error fault := by
  induction lines generalizing elems with
  | nil => exact absurd nofun hends
  | cons line lines ih =>
    rw [fbcResCompLookup]
    cases hp : fbcResCompParse line with
    | none => exact ⟨_, rfl⟩
    | some p =>
      have hrest : ¬LinesEnd lines := by
        intro hlines
        refine hends (List.forall_mem_cons.2 ⟨?_, hlines⟩)
        rw [hp]
        rfl
      dsimp only
      cases modeOfInterest gfxModelName edidResInfo p with
      | none => exact ih hrest elems
      | some name =>
        show ∃ fault, (excludeModes name elems >>= _) = _
        cases excludeModes name elems with
        | error fault => exact ⟨fault, rfl⟩
        | ok elems => exact ih hrest elems

/-- A check returns FALSE if its mode is named. -/
theorem lookup_name (hends : LinesEnd lines) (resModeName : Option (List UInt8)) :
    fbcResCompLookup gfxModelName edidResInfo resModeName lines none =
      .ok (!(hardwareNames gfxModelName edidResInfo lines).any
        fun name => resModeName.any (strcaseEq name), none) := by
  induction lines with
  | nil => rfl
  | cons line lines ih =>
    obtain ⟨p, hp⟩ := Option.isSome_iff_exists.1 (hends line List.mem_cons_self)
    have ih := ih fun line hline => hends line (List.mem_cons_of_mem _ hline)
    rw [fbcResCompLookup, hp, hardwareNames]
    cases hmode : modeOfInterest gfxModelName edidResInfo p with
    | none =>
      rw [List.filterMap_cons_none (by rw [hp]; exact hmode)]
      simp only [hmode]
      exact ih
    | some name =>
      rw [List.filterMap_cons_some (by rw [hp]; exact hmode)]
      simp only [hmode, List.any_cons]
      split
      · next hnamed => rw [hnamed]; rfl
      · next hnamed =>
        rw [Bool.eq_false_iff.2 hnamed]
        exact ih

/-- **Listing and checking agree** exactly if no line is read past its end, and no line for this
hardware follows one that names a mode of the list. -/
theorem agrees_iff (gfxModelName : List UInt8) (edidResInfo : List EdidRes) (file : List UInt8)
    (modes : List ResMode) :
    Agrees gfxModelName edidResInfo (fileLines file) modes ↔
      LinesEnd (fileLines file) ∧ NoneFollows gfxModelName edidResInfo (fileLines file) modes := by
  generalize fileLines file = lines
  by_cases hends : LinesEnd lines
  case neg =>
    refine iff_of_false ?_ fun h => hends h.1
    rintro ⟨ret, elems, hlist, -⟩
    obtain ⟨fault, herr⟩ :=
      @lookup_list_pastLine gfxModelName edidResInfo _ hends (modeElems modes)
    rw [herr] at hlist
    cases hlist
  rw [and_iff_right hends]
  unfold Agrees
  rw [lookup_list hends]
  by_cases hnames : NoneFollows gfxModelName edidResInfo lines modes
  case neg =>
    refine iff_of_false ?_ hnames
    rintro ⟨ret, elems, hlist, -⟩
    rw [excludeAll_error hnames] at hlist
    cases hlist
  refine iff_of_true ?_ hnames
  rw [excludeAll_ok hnames]
  refine ⟨_, _, rfl, List.forall₂_map_right_iff.2 (List.forall₂_same.2 ?_)⟩
  intro mode _
  rw [lookup_name hends]
  by_cases hnamed : (hardwareNames gfxModelName edidResInfo lines).any mode.named
  · rw [if_pos hnamed]
    refine ⟨iff_of_true rfl ?_, fun h => absurd rfl h⟩
    show Except.ok (!(hardwareNames gfxModelName edidResInfo lines).any mode.named, _) = _
    rw [hnamed]
    rfl
  · rw [if_neg hnamed]
    refine ⟨iff_of_false (by simp) ?_, fun _ => rfl⟩
    show ¬Except.ok (!(hardwareNames gfxModelName edidResInfo lines).any mode.named, _) = _
    rw [Bool.eq_false_iff.2 hnamed]
    simp

/-- A second line for the hardware after one that names a mode of the list. -/
theorem not_agrees :
    ¬Agrees (chars "m") [⟨chars "SUN", 0x586⟩] (fileLines (chars "m *,* a\nm *,* b\n"))
      [⟨some (chars "a")⟩] := by
  have hfile : fileLines (chars "m *,* a\nm *,* b\n") =
      [lineBuf (chars "m *,* a\n"), lineBuf (chars "m *,* b\n")] := by
    rw [fileLines, dif_neg (by decide +kernel)]
    show _ :: fileLines (chars "m *,* b\n") = _
    rw [fileLines, dif_neg (by decide +kernel)]
    show _ :: _ :: fileLines [] = _
    rw [fileLines, dif_pos (by decide +kernel)]
    rfl
  rw [hfile]
  rintro ⟨ret, elems, hlist, -⟩
  have hfault : fbcResCompLookup (chars "m") [⟨chars "SUN", 0x586⟩] none
      [lineBuf (chars "m *,* a\n"), lineBuf (chars "m *,* b\n")]
      (some (modeElems [⟨some (chars "a")⟩])) = .error .nullMode := rfl
  rw [hfault] at hlist
  cases hlist

end ResComp
