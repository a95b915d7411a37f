import SolarisXorg.Fbconf.Fields

/-!
# Printing measured fields

The white space that `measureWhitespace` saves leads from the text's column to the column that the
rest of the line had: what stands for the text ends at or before the end of the text, on the same
tab stop (`blankColumn_width`). `scanWspace` leaves the white space from the last character on that
does not start past the end of the text, so it leads to the same column from there
(`blankColumn_scanWspace`), and for the text that was measured it is the white space of the line
(`scanWspace_append`). `printFields_measureWhitespace` puts the two together.
-/

namespace Fbc

open Lib

/-! ## Columns -/

/-- The column behind one character. -/
theorem blankColumn_cons (column : Nat) (c : UInt8) (blanks : List UInt8) :
    blankColumn column (c :: blanks) = blankColumn (column + wspaceLen column c) blanks := by
  rw [blankColumn, List.foldl_cons, blankColumn]
  congr 1
  -- There are two ways to find a tab stop.
  simp only [wspaceLen, tabWidth]
  split <;> omega

theorem blankColumn_append (column : Nat) (a b : List UInt8) :
    blankColumn column (a ++ b) = blankColumn (blankColumn column a) b :=
  List.foldl_append

theorem lt_wspaceLen (fieldCol : Nat) (c : UInt8) : 0 < wspaceLen fieldCol c := by
  simp only [wspaceLen, tabWidth]
  split <;> omega

/-- Within the width of a character, the character leads to the same column. -/
theorem wspaceLen_within {curCol fieldCol : Nat} {c : UInt8} (hle : fieldCol ≤ curCol)
    (hlt : curCol < fieldCol + wspaceLen fieldCol c) :
    curCol + wspaceLen curCol c = fieldCol + wspaceLen fieldCol c := by
  rw [wspaceLen] at hlt
  rw [wspaceLen, wspaceLen]
  simp only [tabWidth] at hlt ⊢
  by_cases hc : c = 0x09
  · rw [if_pos hc] at hlt
    rw [if_pos hc, if_pos hc]
    omega
  · rw [if_neg hc] at hlt
    rw [if_neg hc, if_neg hc]
    omega

theorem blankColumn_spaces (column k : Nat) :
    blankColumn column (List.replicate k 0x20) = column + k := by
  induction k generalizing column with
  | zero => rfl
  | succ k ih =>
    rw [List.replicate_succ, blankColumn_cons, ih, wspaceLen, if_neg (by decide)]
    omega

/-- Tabs lead as many tab stops on as there are. -/
theorem blankColumn_tabs (column k : Nat) :
    blankColumn column (List.replicate k 0x09) / tabWidth = column / tabWidth + k ∧
      (blankColumn column (List.replicate k 0x09) = column ∨
        blankColumn column (List.replicate k 0x09) % tabWidth = 0) := by
  induction k generalizing column with
  | zero => exact ⟨rfl, .inl rfl⟩
  | succ k ih =>
    obtain ⟨hdiv, hcol⟩ := ih (column + wspaceLen column 0x09)
    rw [List.replicate_succ, blankColumn_cons]
    rw [wspaceLen, if_pos rfl] at hdiv hcol ⊢
    simp only [tabWidth] at hdiv hcol ⊢
    omega

theorem le_blankColumn (column : Nat) (blanks : List UInt8) :
    column ≤ blankColumn column blanks := by
  induction blanks generalizing column with
  | nil => exact Nat.le_refl _
  | cons c blanks ih =>
    rw [blankColumn_cons]
    exact (Nat.le_add_right ..).trans (ih _)

/-! ## The scan -/

variable {curCol fieldCol : Nat} {wspace ws : List UInt8}

theorem scanWspace_column : (scanWspace curCol fieldCol wspace ws).2 = blankColumn fieldCol ws := by
  induction ws generalizing fieldCol wspace with
  | nil => rfl
  | cons c ws ih => rw [scanWspace, ih, blankColumn_cons]

/-- Past the end of the text, all of the white space stays. -/
theorem scanWspace_of_lt (h : curCol < fieldCol) :
    (scanWspace curCol fieldCol wspace ws).1 = wspace := by
  induction ws generalizing fieldCol with
  | nil => rfl
  | cons c ws ih =>
    rw [scanWspace, if_neg (Nat.not_le.2 h)]
    exact ih (by omega)

/-- White space that ends at or before the end of the text is displaced, and what follows is left
if its first character ends past the end of the text. -/
theorem scanWspace_append {blanks : List UInt8} {c : UInt8}
    (hle : blankColumn fieldCol blanks ≤ curCol)
    (hlt : curCol < blankColumn (blankColumn fieldCol blanks) [c]) :
    (scanWspace curCol fieldCol wspace (blanks ++ c :: ws)).1 = c :: ws := by
  induction blanks generalizing fieldCol wspace with
  | nil =>
    have hle : fieldCol ≤ curCol := hle
    rw [List.nil_append, scanWspace, if_pos hle]
    rw [blankColumn_cons] at hlt
    exact scanWspace_of_lt hlt
  | cons b blanks ih =>
    rw [List.cons_append, scanWspace]
    rw [blankColumn_cons fieldCol b] at hle hlt
    exact ih hle hlt

/-- What is left leads from the end of the text to the same column. -/
theorem blankColumn_scanWspace (hle : fieldCol ≤ curCol) (hlt : curCol < blankColumn fieldCol ws) :
    blankColumn curCol (scanWspace curCol fieldCol wspace ws).1 = blankColumn fieldCol ws := by
  induction ws generalizing fieldCol wspace with
  | nil => exact absurd hlt (Nat.not_lt.2 hle)
  | cons c ws ih =>
    rw [blankColumn_cons] at hlt ⊢
    rw [scanWspace, if_pos hle]
    by_cases hnext : fieldCol + wspaceLen fieldCol c ≤ curCol
    case pos => exact ih hnext hlt
    have hnext := Nat.not_le.1 hnext
    rw [scanWspace_of_lt hnext, blankColumn_cons, wspaceLen_within hle hnext]

theorem scanWspace_blank (hws : ∀ c ∈ ws, isBlank c = true)
    (hwspace : ∀ c ∈ wspace, isBlank c = true) :
    ∀ c ∈ (scanWspace curCol fieldCol wspace ws).1, isBlank c = true := by
  induction ws generalizing fieldCol wspace with
  | nil => exact hwspace
  | cons b ws ih =>
    rw [scanWspace]
    apply ih fun c hc => hws c (.tail _ hc)
    split
    · exact hws
    · exact hwspace

/-! ## What is measured -/

/-- What stands for a text ends at or before its end, and before the same tab stop: the white space
behind it leads where it does behind the text. -/
theorem blankColumn_width (column : Nat) (text : List UInt8) {after : List UInt8} {c : UInt8}
    (hafter : after.head? = some c) :
    let width := textWidth column text after
    let shown := blankColumn column (List.replicate width.1 width.2)
    shown ≤ column + text.length ∧ column + text.length < shown + wspaceLen shown c := by
  simp only [textWidth, hafter, Option.some.injEq]
  by_cases htab : c = 0x09
  · obtain ⟨hdiv, hcol⟩ :=
      blankColumn_tabs column ((column + text.length) / tabWidth - column / tabWidth)
    rw [if_pos htab, wspaceLen, if_pos htab]
    simp only [tabWidth] at hdiv hcol ⊢
    omega
  · rw [if_neg htab, blankColumn_spaces, wspaceLen, if_neg htab]
    omega

/-- White space that fits is saved behind what stands for the text before it. -/
theorem measureFields_succ (line : List UInt8) (field column width : Nat) (blank : UInt8)
    (fields : Nat) (hfits : ¬whitespaceBufLen < width + (Fields.ws0 line).length + 1) :
    let column' := blankColumn column (Fields.ws0 line)
    let width' := textWidth column' (Fields.text line) (Fields.afterText line)
    measureFields line field column width blank (fields + 1) =
      (List.replicate width blank ++ Fields.ws0 line) ::
        measureFields (Fields.afterText line) (field + 1) (column' + (Fields.text line).length)
          width'.1 width'.2 fields := by
  rw [measureFields]
  exact if_neg hfits

/-- The white space that is saved of a line: the first as it is, and the second behind what stands
for the text. -/
theorem measureWhitespace_eq (l : FieldLine) (wspace : Whitespace) :
    let width := textWidth (Fields.textColumn l.line) (Fields.text l.line) (Fields.afterText l.line)
    measureWhitespace l.line wspace =
      [Fields.ws0 l.line, List.replicate width.1 width.2 ++ Fields.ws1 l.line] := by
  have hcomment : (l.line.dropWhile isBlank).head? ≠ some 0x23 := by
    intro hhead
    obtain ⟨t, ht⟩ := List.head?_eq_some_iff.1 hhead
    apply l.noComment
    rw [Fields.text, ht, List.takeWhile_cons_of_pos (by decide)]
    rfl
  have hfits := l.fits
  have hfirst := measureFields_succ l.line 0 0 0 0x20 1 (by omega)
  have hsecond := measureFields_succ (Fields.afterText l.line) 1
    (Fields.textColumn l.line + (Fields.text l.line).length)
    (textWidth (Fields.textColumn l.line) (Fields.text l.line) (Fields.afterText l.line)).1
    (textWidth (Fields.textColumn l.line) (Fields.text l.line) (Fields.afterText l.line)).2 0 <| by
      rw [Fields.ws1] at hfits
      rw [Fields.ws0]
      omega
  rw [measureWhitespace, if_neg hcomment]
  exact hfirst.trans (congrArg _ hsecond)

/-! ## What is printed -/

/-- The first string of white space is written as it is. -/
theorem scanWspace_first (ws : List UInt8) : (scanWspace 0 0 ws ws).1 = ws := by
  cases ws with
  | nil => rfl
  | cons c ws =>
    rw [scanWspace, if_pos (Nat.le_refl 0)]
    exact scanWspace_of_lt (Nat.zero_add _ ▸ lt_wspaceLen 0 c)

/-- One text between two strings of white space. -/
theorem printFields_one (ws0 ws1 text : List UInt8) :
    let column := blankColumn 0 ws0
    printFields [ws0, ws1] [text] = ws0 ++ text ++
      if blankColumn column ws1 ≤ column + text.length then [0x20]
      else (scanWspace (column + text.length) column ws1 ws1).1 := by
  have hfirst : scanWspace 0 0 ws0 ws0 = (ws0, blankColumn 0 ws0) :=
    Prod.ext (scanWspace_first ws0) scanWspace_column
  have hsecond : scanWspace (blankColumn 0 ws0 + text.length) (blankColumn 0 ws0) ws1 ws1 =
      ((scanWspace (blankColumn 0 ws0 + text.length) (blankColumn 0 ws0) ws1 ws1).1,
        blankColumn (blankColumn 0 ws0) ws1) :=
    Prod.ext rfl scanWspace_column
  rw [printFields, printFieldsFrom]
  simp only [List.length_nil, Nat.add_zero, hfirst, Nat.lt_irrefl, false_and, if_false,
    printFieldsFrom]
  rw [hsecond]
  simp only [Nat.zero_add, Nat.zero_lt_one, true_and, List.nil_append, List.append_nil]
  split
  · exact (List.append_assoc ..).symm
  · exact (List.append_assoc ..).symm

theorem isBlank_textWidth (column : Nat) (text after : List UInt8) :
    isBlank (textWidth column text after).2 = true := by
  rw [textWidth]
  split <;> rfl

/-- The second string of white space that is saved: where it leads, and what is left of it behind
the text of the line. -/
theorem saved_spec (l : FieldLine) :
    let column := Fields.textColumn l.line
    let width := textWidth column (Fields.text l.line) (Fields.afterText l.line)
    let saved := List.replicate width.1 width.2 ++ Fields.ws1 l.line
    (∀ c ∈ saved, isBlank c = true) ∧ blankColumn column saved = Fields.restColumn l.line ∧
      column + (Fields.text l.line).length < Fields.restColumn l.line ∧
      (scanWspace (column + (Fields.text l.line).length) column saved saved).1 =
        Fields.ws1 l.line := by
  intro column width saved
  obtain ⟨c, t, hws1⟩ := List.exists_cons_of_ne_nil l.ws1_ne
  have hafter : (Fields.afterText l.line).head? = some c := by
    rw [← List.takeWhile_append_dropWhile (p := isBlank) (l := Fields.afterText l.line),
      ← Fields.ws1, hws1]
    rfl
  obtain ⟨hle, hlt⟩ := blankColumn_width column (Fields.text l.line) hafter
  have hrest : Fields.restColumn l.line =
      blankColumn (blankColumn column (List.replicate width.1 width.2)) (c :: t) := by
    rw [Fields.restColumn, hws1, blankColumn_cons, blankColumn_cons, wspaceLen_within hle hlt]
  refine ⟨fun b hb => ?_, ?_, ?_, ?_⟩
  · rcases List.mem_append.1 hb with hb | hb
    · rw [List.eq_of_mem_replicate hb]
      exact isBlank_textWidth ..
    · exact List.mem_takeWhile_imp hb
  · rw [blankColumn_append, hws1, hrest]
  · rw [hrest, blankColumn_cons]
    exact hlt.trans_le (le_blankColumn ..)
  · have hsaved : saved = List.replicate width.1 width.2 ++ c :: t := congrArg _ hws1
    rw [hws1, hsaved]
    apply scanWspace_append hle
    rw [blankColumn_cons]
    exact hlt

/-- **Aligned fields**: with the white space measured, the text of the line is written as it was,
and any other text is followed by white space up to the column of the rest, or by one blank if the
text ends there or behind. -/
theorem printFields_measureWhitespace (l : FieldLine) (wspace : Whitespace) :
    printFields (measureWhitespace l.line wspace) [Fields.text l.line] =
        Fields.ws0 l.line ++ Fields.text l.line ++ Fields.ws1 l.line ∧
      ∀ text : List UInt8, ∃ ws, (∀ c ∈ ws, isBlank c = true) ∧
        printFields (measureWhitespace l.line wspace) [text] = Fields.ws0 l.line ++ text ++ ws ∧
        (Fields.textColumn l.line + text.length < Fields.restColumn l.line →
          blankColumn (Fields.textColumn l.line + text.length) ws = Fields.restColumn l.line) ∧
        (Fields.restColumn l.line ≤ Fields.textColumn l.line + text.length → ws = [0x20]) := by
  obtain ⟨hblank, hcolumn, hlt, hsame⟩ := saved_spec l
  rw [measureWhitespace_eq]
  constructor
  · rw [printFields_one, ← Fields.textColumn, hcolumn, if_neg (Nat.not_le.2 hlt), hsame]
  · intro text
    refine ⟨_, ?_, printFields_one .., fun hroom => ?_, fun hpast => ?_⟩
    · split
      · exact fun c hc => List.mem_singleton.1 hc ▸ rfl
      · exact scanWspace_blank hblank hblank
    · rw [← Fields.textColumn, hcolumn, if_neg (Nat.not_le.2 hroom),
        blankColumn_scanWspace (Nat.le_add_right ..) (hcolumn ▸ hroom), hcolumn]
    · rw [← Fields.textColumn, hcolumn, if_pos hpast]

/-- The rest of the line starts at column 8: behind a text of three characters too. -/
theorem printFields_measureWhitespace_tab :
    Fields.ws0 (default : FieldLine).line ++ (Fields.text (default : FieldLine).line ++
        (Fields.ws1 (default : FieldLine).line ++ Fields.rest (default : FieldLine).line)) =
      (default : FieldLine).line ∧
    printFields (measureWhitespace (default : FieldLine).line []) [[0x61, 0x62]] =
      [0x20, 0x20, 0x61, 0x62, 0x09] ∧
    ∃ ws, (∀ c ∈ ws, isBlank c = true) ∧
      printFields (measureWhitespace (default : FieldLine).line []) [[0x61, 0x62, 0x63]] =
        [0x20, 0x20] ++ [0x61, 0x62, 0x63] ++ ws ∧ blankColumn 5 ws = 8 := by
  obtain ⟨hsame, hother⟩ := printFields_measureWhitespace default []
  obtain ⟨ws, hblank, hprint, hcolumn, -⟩ := hother [0x61, 0x62, 0x63]
  exact ⟨Fields.append_eq _, hsame, ws, hblank, hprint, hcolumn (by decide)⟩

end Fbc
