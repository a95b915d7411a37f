import Mathlib.Data.List.Forall2
import SolarisXorg.Fbconf.WriteConfig

/-!
# What becomes of a configuration file

`fgets` with the initial buffer cuts a file into blocks, at newlines and where the buffer is full
(`blocksOf`). As long as each block holds the end of a line, a block is a line for the scanner
(`readLine_block`), the lines saved are the blocks (`readConfig_good`) and writing them gives the file
again (`writeLines_spec`). A block without the end of a line makes the buffer grow, and from then on
nothing is right: the line is lost if the file ends in it, and in every case the next line cannot be
read (`readConfig_bad`).
-/

namespace Fbc

open Lib

/-! ## Blocks -/

/-- The block at a position. -/
def blockAt (file : List UInt8) (pos : Nat) : List UInt8 := fgets (configBufLen - 1) (file.drop pos)

theorem fgets_ne_nil {size : Nat} {rest : List UInt8} (hsize : 1 < size) (hne : rest ≠ []) :
    fgets size rest ≠ [] := by
  obtain ⟨c, rest, rfl⟩ := List.exists_cons_of_ne_nil hne
  obtain ⟨n, hn⟩ : ∃ n, size - 1 = n + 1 := ⟨size - 2, by omega⟩
  rw [fgets, hn, List.take_succ_cons]
  split <;> simp

theorem fgets_nil (size : Nat) : fgets size [] = [] := by simp [fgets]

/-- What successive calls of `fgets` with the initial buffer read. -/
def blocksOf (rest : List UInt8) : List (List UInt8) :=
  let block := fgets (configBufLen - 1) rest
  if _h : block = [] then [] else block :: blocksOf (rest.drop block.length)
termination_by rest.length
decreasing_by
  have hle := (fgets_isPrefix (configBufLen - 1) rest).length_le
  have hpos := List.length_pos_iff.2 _h
  simp only [List.length_drop, block] at hpos ⊢
  omega

theorem blocksOf_nil : blocksOf [] = [] := by
  rw [blocksOf, dif_pos (fgets_nil _)]

theorem blocksOf_cons {rest : List UInt8} (hne : rest ≠ []) :
    blocksOf rest = fgets (configBufLen - 1) rest ::
      blocksOf (rest.drop (fgets (configBufLen - 1) rest).length) := by
  rw [blocksOf, dif_neg (fgets_ne_nil (by decide) hne)]

/-- Induction on the blocks of a file. -/
theorem blocks_induction {P : List UInt8 → Prop} (nil : P [])
    (block : ∀ rest, rest ≠ [] → P (rest.drop (fgets (configBufLen - 1) rest).length) → P rest)
    (rest : List UInt8) : P rest := by
  induction hn : rest.length using Nat.strong_induction_on generalizing rest with
  | _ n ih =>
    by_cases hne : rest = []
    · rw [hne]
      exact nil
    · refine block rest hne (ih _ ?_ _ rfl)
      have hblock : fgets (configBufLen - 1) rest ≠ [] := fgets_ne_nil (by decide) hne
      have hpos := List.length_pos_iff.2 hblock
      have hlen := List.length_pos_iff.2 hne
      rw [List.length_drop]
      omega

theorem flatten_blocksOf (rest : List UInt8) : (blocksOf rest).flatten = rest := by
  induction rest using blocks_induction with
  | nil => rw [blocksOf_nil, List.flatten_nil]
  | block rest hne ih =>
    rw [blocksOf_cons hne, List.flatten_cons, ih]
    exact List.prefix_iff_eq_append.1 (fgets_isPrefix (configBufLen - 1) rest)

/-- A block that holds the end of a line and in which every token ends. -/
def GoodBlock (block : List UInt8) : Prop := block.any isEol = true ∧ scanLine block = true

instance (block : List UInt8) : Decidable (GoodBlock block) := inferInstanceAs (Decidable (_ ∧ _))

/-- Every block of the file is good. -/
def GoodFile (file : List UInt8) : Prop := ∀ block ∈ blocksOf file, GoodBlock block

/-! ## Reading lines -/

/-- A block with the end of a line is the next line. -/
theorem readLine_block {file : List UInt8} {pos : Nat} (h : (blockAt file pos).any isEol = true) :
    readLine file configBufLen [] pos =
      (some (blockAt file pos), configBufLen, pos + (blockAt file pos).length) := by
  have hne : blockAt file pos ≠ [] := by
    intro hnil
    rw [hnil] at h
    exact nomatch h
  have hblock : fgets (configBufLen - ([] : List UInt8).length - 1) (file.drop pos) =
      blockAt file pos := rfl
  rw [readLine]
  simp only [hblock]
  rw [dif_neg hne, if_pos h, List.nil_append]

theorem readLine_eof {file : List UInt8} {pos : Nat} (h : file.drop pos = []) :
    readLine file configBufLen [] pos = (none, configBufLen, pos) := by
  rw [readLine]
  simp only [h, fgets_nil]
  rfl

theorem readLine_len (file : List UInt8) (len : Nat) (text : List UInt8) (pos : Nat) :
    len ≤ (readLine file len text pos).2.1 := by
  fun_induction readLine file len text pos with
  | case1 => exact Nat.le_refl _
  | case2 => exact Nat.le_refl _
  | case3 len text pos block hne heol ih => omega

/-- A block without the end of a line makes the buffer grow. -/
theorem readLine_long {file : List UInt8} {pos : Nat} (hne : file.drop pos ≠ [])
    (h : (blockAt file pos).any isEol = false) :
    configBufLen < (readLine file configBufLen [] pos).2.1 := by
  have hblock : fgets (configBufLen - ([] : List UInt8).length - 1) (file.drop pos) =
      blockAt file pos := rfl
  have hne' : blockAt file pos ≠ [] := fgets_ne_nil (by decide) hne
  rw [readLine]
  simp only [hblock]
  rw [dif_neg hne', if_neg (by simp [h])]
  have hlen := readLine_len file (configBufLen + configBufLen) ([] ++ blockAt file pos)
    (pos + (blockAt file pos).length)
  simp only [configBufLen] at hlen ⊢
  omega

/-- A line as it is saved. -/
structure Saved (stream : Nat) (line : Line) : Prop where
  stream : line.stream = some stream
  status : line.status = .original
  linePos : 0 ≤ line.linePos

/-- The lines saved for blocks one after the other. -/
def savedLines (addr : Nat → Nat) (stream pos : Nat) : List (List UInt8) → List Line
  | [] => []
  | block :: blocks =>
    ⟨addr pos, some stream, pos, none, none, .original, 0⟩ ::
      savedLines addr stream (pos + block.length) blocks

variable (addr : Nat → Nat) (stream : Nat)

theorem readConfig_good {file : List UInt8} {pos : Nat} (lines : List Line)
    (h : GoodFile (file.drop pos)) : readConfig addr stream file pos lines =
      some (lines ++ savedLines addr stream pos (blocksOf (file.drop pos)), configBufLen) := by
  obtain ⟨rest, hrest⟩ : ∃ rest, file.drop pos = rest := ⟨_, rfl⟩
  rw [hrest] at h ⊢
  induction rest using blocks_induction generalizing pos lines with
  | nil =>
    rw [readConfig, readLine_eof hrest, blocksOf_nil]
    simp [savedLines]
  | block rest hne ih =>
    have hblock : blockAt file pos = fgets (configBufLen - 1) rest := by rw [blockAt, hrest]
    rw [GoodFile, blocksOf_cons hne, List.forall_mem_cons, ← hblock] at h
    rw [← hblock] at ih
    have hnext : file.drop (pos + (blockAt file pos).length) =
        rest.drop (blockAt file pos).length := by
      rw [← List.drop_drop, hrest]
    rw [readConfig, readLine_block h.1.1]
    dsimp only
    rw [if_neg (by simp), if_pos h.1.2, ih _ h.2 hnext, blocksOf_cons hne, ← hblock]
    simp [saveLineLocation, savedLines]

theorem readConfig_bad {file : List UInt8} {pos : Nat} (lines : List Line)
    (h : ¬ GoodFile (file.drop pos)) : readConfig addr stream file pos lines = none ∨
      ∃ saved len, readConfig addr stream file pos lines = some (lines ++ saved, len) ∧
        len ≠ configBufLen ∧ ∀ line ∈ saved, Saved stream line := by
  obtain ⟨rest, hrest⟩ : ∃ rest, file.drop pos = rest := ⟨_, rfl⟩
  rw [hrest] at h
  induction rest using blocks_induction generalizing pos lines with
  | nil => exact absurd (by simp [GoodFile, blocksOf_nil]) h
  | block rest hne ih =>
    have hblock : blockAt file pos = fgets (configBufLen - 1) rest := by rw [blockAt, hrest]
    rw [GoodFile, blocksOf_cons hne, List.forall_mem_cons, ← hblock] at h
    rw [← hblock] at ih
    rw [readConfig]
    by_cases heol : (blockAt file pos).any isEol = true
    · rw [readLine_block heol]
      dsimp only
      rw [if_neg (by simp)]
      by_cases hscan : scanLine (blockAt file pos) = true
      · rw [if_pos hscan]
        have hnext : file.drop (pos + (blockAt file pos).length) =
            rest.drop (blockAt file pos).length := by
          rw [← List.drop_drop, hrest]
        rcases ih (saveLineLocation lines (addr pos) stream pos)
          (fun hgood => h ⟨⟨heol, hscan⟩, hgood⟩) hnext with hnone | ⟨saved, len, hread, hlen, hsaved⟩
        · exact .inl hnone
        · refine .inr ⟨⟨addr pos, some stream, pos, none, none, .original, 0⟩ :: saved, len, ?_, hlen,
            List.forall_mem_cons.2 ⟨⟨rfl, rfl, Int.natCast_nonneg pos⟩, hsaved⟩⟩
          rw [hread]
          simp [saveLineLocation]
      · rw [if_neg hscan]
        exact .inl rfl
    · have hlong := readLine_long (hrest ▸ hne) (by simpa using heol)
      split
      · rename_i len pos' heq
        rw [heq] at hlong
        refine .inr ⟨[], len, by rw [List.append_nil], ?_, by simp⟩
        dsimp only at hlong
        omega
      · rename_i text len pos' heq
        rw [heq] at hlong
        dsimp only at hlong
        rw [if_pos (by omega)]
        exact .inl rfl

/-! ## Writing lines -/

variable (files : Nat → List UInt8)

/-- What is written for a line. -/
def LineText (line : Line) (text : List UInt8) : Prop :=
  match line.status, line.printFn with
  | .original, _ =>
    ∃ stream, line.stream = some stream ∧ text = blockAt (files stream) line.linePos.toNat
  | .inserted, some printFn => ∃ wspace, text = printFn line.irPtr wspace
  | .inserted, none => text = discardedText
  | .modified, some printFn => ∃ wspace, text = printFn line.irPtr wspace
  | .modified, none => ∃ stream, line.stream = some stream ∧
      text = notModifiedText ++ blockAt (files stream) line.linePos.toNat
  | .deleted, _ => text = []

/-- A line that is there to be read again. -/
def Readable (line : Line) : Prop :=
  ∃ stream, line.stream = some stream ∧ 0 ≤ line.linePos ∧
    (blockAt (files stream) line.linePos.toNat).any isEol = true

/-- Reading a line again. -/
theorem rereadConfigLine_spec {line : Line} (h : Readable files line) (wspace : Whitespace) :
    ∃ stream wspace', line.stream = some stream ∧
      rereadConfigLine files line configBufLen wspace =
        some (some (blockAt (files stream) line.linePos.toNat), configBufLen, wspace') := by
  obtain ⟨stream, hstream, hpos, heol⟩ := h
  refine ⟨stream, measureWhitespace (blockAt (files stream) line.linePos.toNat) wspace, hstream, ?_⟩
  rw [rereadConfigLine, hstream]
  dsimp only
  rw [if_neg (by omega), getNextLine, if_neg (by simp), readLine_block heol]

/-- Writing a line whose text can be read, if it has to be. -/
theorem writeLine_spec {line : Line} {s : WriteState} (hlen : s.len = configBufLen)
    (h : line.status = .original ∨ line.status = .modified → Readable files line) :
    ∃ text s', LineText files line text ∧ s'.len = configBufLen ∧
      writeLine files s line = some (text, true, s') := by
  cases hstatus : line.status with
  | original =>
    obtain ⟨stream, wspace, hstream, hread⟩ :=
      rereadConfigLine_spec files (h (.inl hstatus)) s.wspace
    refine ⟨blockAt (files stream) line.linePos.toNat, ⟨configBufLen, wspace, true⟩, ?_, rfl, ?_⟩
    · simp only [LineText, hstatus]
      exact ⟨stream, hstream, rfl⟩
    · simp only [writeLine, hstatus, copyLine, hlen, hread]
  | inserted =>
    cases hprint : line.printFn with
    | none =>
      exact ⟨discardedText, s, by simp only [LineText, hstatus, hprint], hlen,
        by simp only [writeLine, hstatus, hprint]⟩
    | some printFn =>
      obtain ⟨wspace, measured, hws⟩ : ∃ wspace measured,
        insertedWhitespace line s.wspace s.measured = (wspace, measured) := ⟨_, _, rfl⟩
      refine ⟨printFn line.irPtr wspace, { s with measured := measured }, ?_, hlen, ?_⟩
      · simp only [LineText, hstatus, hprint]
        exact ⟨wspace, rfl⟩
      · simp only [writeLine, hstatus, hprint, hws]
  | modified =>
    have hreadable := h (.inr hstatus)
    obtain ⟨stream, wspace, hstream, hread⟩ := rereadConfigLine_spec files hreadable s.wspace
    cases hprint : line.printFn with
    | none =>
      obtain ⟨stream', wspace', hstream', hread'⟩ := rereadConfigLine_spec files hreadable wspace
      refine ⟨notModifiedText ++ blockAt (files stream') line.linePos.toNat,
        ⟨configBufLen, wspace', true⟩, ?_, rfl, ?_⟩
      · simp only [LineText, hstatus, hprint]
        exact ⟨stream', hstream', rfl⟩
      · simp only [writeLine, hstatus, hprint, hlen, hread, copyLine, hread', Option.map_some]
    | some printFn =>
      refine ⟨printFn line.irPtr wspace, ⟨configBufLen, wspace, true⟩, ?_, rfl, ?_⟩
      · simp only [LineText, hstatus, hprint]
        exact ⟨wspace, rfl⟩
      · simp only [writeLine, hstatus, hprint, hlen, hread]
  | deleted =>
    exact ⟨[], s, by simp only [LineText, hstatus], hlen, by simp only [writeLine, hstatus]⟩

/-- **Writing lines.** The text written is that of the lines, one after the other. -/
theorem writeLines_spec {lines : List Line} {s : WriteState} (hlen : s.len = configBufLen)
    (h : ∀ line ∈ lines, line.status = .original ∨ line.status = .modified →
      Readable files line) :
    ∃ texts, List.Forall₂ (LineText files) lines texts ∧
      writeLines files s lines = some (texts.flatten, true) := by
  induction lines generalizing s with
  | nil => exact ⟨[], .nil, rfl⟩
  | cons line lines ih =>
    obtain ⟨text, s', htext, hlen', hwrite⟩ := writeLine_spec files hlen (h line (.head _))
    obtain ⟨texts, htexts, hrest⟩ := ih hlen' fun l hl => h l (.tail _ hl)
    refine ⟨text :: texts, .cons htext htexts, ?_⟩
    rw [writeLines, hwrite]
    dsimp only
    rw [hrest]
    rfl

theorem writeConfigFile_spec {lines : List Line}
    (h : ∀ line ∈ lines, line.status = .original ∨ line.status = .modified →
      Readable files line) :
    ∃ texts, List.Forall₂ (LineText files) lines texts ∧
      writeConfigFile files lines configBufLen none = some (texts.flatten, true) := by
  obtain ⟨texts, htexts, hwrite⟩ :=
    writeLines_spec files (s := ⟨configBufLen, whitespace0, false⟩) rfl h
  refine ⟨texts, htexts, ?_⟩
  rw [writeConfigFile, hwrite]
  simp

/-- A buffer that has grown: no line can be read again. -/
theorem writeConfigFile_grown {stream len : Nat} {lines : List Line} (hlen : len ≠ configBufLen)
    (hne : lines ≠ []) (h : ∀ line ∈ lines, Saved stream line) :
    writeConfigFile files lines len none = none := by
  obtain ⟨line, lines, rfl⟩ := List.exists_cons_of_ne_nil hne
  obtain ⟨hstream, hstatus, hpos⟩ := h line (.head _)
  have hread : rereadConfigLine files line len whitespace0 = none := by
    rw [rereadConfigLine, hstream]
    dsimp only
    rw [if_neg (by omega), getNextLine, if_pos hlen]
  simp only [writeConfigFile, writeLines, writeLine, hstatus, copyLine, hread, Option.map_none]

/-! ## The file -/

theorem savedLines_readable {file : List UInt8} {pos : Nat} (h : GoodFile (file.drop pos)) :
    ∀ line ∈ savedLines addr stream pos (blocksOf (file.drop pos)),
      Readable (fun _ => file) line := by
  obtain ⟨rest, hrest⟩ : ∃ rest, file.drop pos = rest := ⟨_, rfl⟩
  rw [hrest] at h ⊢
  induction rest using blocks_induction generalizing pos with
  | nil => simp [blocksOf_nil, savedLines]
  | block rest hne ih =>
    have hblock : blockAt file pos = fgets (configBufLen - 1) rest := by rw [blockAt, hrest]
    rw [GoodFile, blocksOf_cons hne, List.forall_mem_cons] at h
    rw [blocksOf_cons hne, savedLines, List.forall_mem_cons]
    refine ⟨⟨stream, rfl, Int.natCast_nonneg pos, ?_⟩, ih h.2 ?_⟩
    · rw [Int.toNat_natCast, hblock]
      exact h.1.1
    · rw [← List.drop_drop, hrest]

theorem savedLines_texts {file : List UInt8} {pos : Nat} {texts : List (List UInt8)}
    (h : List.Forall₂ (LineText fun _ => file)
      (savedLines addr stream pos (blocksOf (file.drop pos))) texts) :
    texts = blocksOf (file.drop pos) := by
  obtain ⟨rest, hrest⟩ : ∃ rest, file.drop pos = rest := ⟨_, rfl⟩
  rw [hrest] at h ⊢
  induction rest using blocks_induction generalizing pos texts with
  | nil =>
    rw [blocksOf_nil] at h ⊢
    exact List.forall₂_nil_left_iff.1 h
  | block rest hne ih =>
    have hblock : blockAt file pos = fgets (configBufLen - 1) rest := by rw [blockAt, hrest]
    rw [blocksOf_cons hne] at h ⊢
    rw [savedLines] at h
    obtain ⟨text, texts', htext, htexts, rfl⟩ := List.forall₂_cons_left_iff.1 h
    obtain ⟨-, -, rfl⟩ := htext
    rw [ih htexts (by rw [← List.drop_drop, hrest])]
    rw [Int.toNat_natCast, hblock]

/-- Lines some of which are those saved, some changed and some new. -/
def Edited (saved lines : List Line) : Prop :=
  ∀ line ∈ lines, line.status = .original ∨ line.status = .modified →
    ∃ line' ∈ saved, line.stream = line'.stream ∧ line.linePos = line'.linePos

theorem Edited.refl (saved : List Line) : Edited saved saved :=
  fun line h _ => ⟨line, h, rfl, rfl⟩

theorem Edited.readable {saved lines : List Line} (h : Edited saved lines)
    (hsaved : ∀ line ∈ saved, Readable files line) :
    ∀ line ∈ lines, line.status = .original ∨ line.status = .modified → Readable files line := by
  intro line hline hstatus
  obtain ⟨line', hline', hstream, hpos⟩ := h line hline hstatus
  rw [Readable, hstream, hpos]
  exact hsaved line' hline'

/-- **The file is preserved** exactly when every block of it is good: without edits it is written as
it was, and after any edits the text is that of the lines. -/
theorem config_preserved_iff (file : List UInt8) :
    (∃ saved len, readConfig addr stream file 0 [] = some (saved, len) ∧
      writeConfigFile (fun _ => file) saved len none = some (file, true) ∧
      ∀ lines, Edited saved lines → ∃ texts, List.Forall₂ (LineText fun _ => file) lines texts ∧
        writeConfigFile (fun _ => file) lines len none = some (texts.flatten, true)) ↔
      GoodFile file := by
  constructor
  · rintro ⟨saved, len, hread, hwrite, -⟩
    by_contra hbad
    have hbad' : ¬ GoodFile (file.drop 0) := hbad
    rcases readConfig_bad addr stream [] hbad' with hnone | ⟨saved', len', hread', hlen, hsaved⟩
    · rw [hnone] at hread
      exact nomatch hread
    · rw [hread', Option.some.injEq, Prod.mk.injEq, List.nil_append] at hread
      obtain ⟨rfl, rfl⟩ := hread
      by_cases hnil : saved' = []
      · subst hnil
        have hfile : file = [] := by simpa [writeConfigFile, writeLines] using hwrite.symm
        rw [hfile] at hbad
        exact hbad (by simp [GoodFile, blocksOf_nil])
      · rw [writeConfigFile_grown _ hlen hnil hsaved] at hwrite
        exact nomatch hwrite
  · intro hgood
    have hgood' : GoodFile (file.drop 0) := hgood
    have hread := readConfig_good addr stream [] hgood'
    have hreadable := savedLines_readable addr stream hgood'
    rw [List.nil_append] at hread
    refine ⟨_, _, hread, ?_, fun lines hlines => ?_⟩
    · obtain ⟨texts, htexts, hwrite⟩ :=
        writeConfigFile_spec (fun _ => file) ((Edited.refl _).readable _ hreadable)
      rw [hwrite, savedLines_texts addr stream htexts, List.drop_zero, flatten_blocksOf]
    · exact writeConfigFile_spec _ (hlines.readable _ hreadable)

/-- A file of two lines, each with its newline. -/
example : GoodFile (chars "Section \"Files\"\nEndSection\n") := by
  have hblocks : blocksOf (chars "Section \"Files\"\nEndSection\n") =
      [chars "Section \"Files\"\n", chars "EndSection\n"] := by decide +kernel
  rw [GoodFile, hblocks]
  decide +kernel

/-- A file whose only line has no newline: nothing is saved, and nothing written. -/
theorem config_lost_line :
    ∃ saved len, readConfig id 0 (chars "EndSection") 0 [] = some (saved, len) ∧
      writeConfigFile (fun _ => chars "EndSection") saved len none = some ([], true) := by
  have hread : ((readConfig id 0 (chars "EndSection") 0 []).map fun read => read.1.length) =
      some 0 := by decide +kernel
  obtain ⟨⟨saved, len⟩, hsome, hlen⟩ := Option.map_eq_some_iff.1 hread
  obtain rfl := List.length_eq_zero_iff.1 hlen
  exact ⟨[], len, hsome, rfl⟩

end Fbc
