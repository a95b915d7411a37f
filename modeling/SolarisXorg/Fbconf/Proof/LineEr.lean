import Mathlib.Data.List.Count
import Mathlib.Data.List.Nodup
import SolarisXorg.Lib.Run
import SolarisXorg.Fbconf.UseModes
import SolarisXorg.Fbconf.WriteConfig

/-!
# Lines and their streams

A line that was inserted has no stream, and `fbc_write_config_file` and `fbc_close_down_config` know
it by its status. `StreamsOk` says that the status is right: a line has a stream unless it is
inserted. It also says that the streams of the list, in order, make each stream one run, so that the
closing loop sees it once (`closes_snoc`). Every operation keeps it, except that modifying or deleting
an inserted line takes away the status by which it is known (`Guarded`).
-/

namespace Fbc

open Lib

/-! ## Runs of streams -/

/-- The streams closed for streams one after the other. -/
def closes (prev : Option Nat) : List Nat → List Nat
  | [] => []
  | x :: xs => if prev = some x then closes prev xs else x :: closes (some x) xs

theorem closes_snoc (prev : Option Nat) (xs : List Nat) (x : Nat) :
    closes prev (xs ++ [x]) =
      closes prev xs ++ (if (xs.getLast?.or prev) = some x then [] else [x]) := by
  induction xs generalizing prev with
  | nil => by_cases h : prev = some x <;> simp [closes, h]
  | cons y xs ih =>
    rw [List.cons_append, closes, closes]
    have hlast : ((y :: xs).getLast?.or prev) = xs.getLast?.or (some y) := by
      rw [List.getLast?_cons]
      cases xs.getLast? <;> rfl
    split
    · rename_i h
      rw [ih, hlast, h]
    · rw [ih, hlast, List.cons_append]

theorem mem_closes_or (prev : Option Nat) (xs : List Nat) (x : Nat) :
    x ∈ closes prev xs ∨ prev = some x ↔ x ∈ xs ∨ prev = some x := by
  induction xs generalizing prev with
  | nil => rfl
  | cons y xs ih =>
    rw [closes]
    split
    · rename_i h
      rw [ih, h, Option.some.injEq, List.mem_cons]
      constructor
      · rintro (hx | rfl)
        · exact .inl (.inr hx)
        · exact .inr rfl
      · rintro ((rfl | hx) | rfl)
        · exact .inr rfl
        · exact .inl hx
        · exact .inr rfl
    · have hy := ih (some y)
      rw [Option.some.injEq] at hy
      rw [List.mem_cons, List.mem_cons, eq_comm (a := x), or_comm (a := y = x), hy,
        or_comm (a := x ∈ xs)]

theorem mem_closes (xs : List Nat) (x : Nat) : x ∈ closes none xs ↔ x ∈ xs := by
  have h := mem_closes_or none xs x
  simpa using h

/-- A stream that goes on, or a new one. -/
theorem closes_snoc_nodup {xs : List Nat} {x : Nat} (h : (closes none xs).Nodup)
    (hx : x ∉ xs ∨ xs.getLast? = some x) : (closes none (xs ++ [x])).Nodup := by
  rw [closes_snoc, Option.or_none]
  rcases hx with hnew | hlast
  · rw [if_neg fun hlast => hnew (List.mem_of_getLast? hlast)]
    refine List.nodup_append.2 ⟨h, by simp, ?_⟩
    rintro y hy z hz rfl
    obtain rfl := List.mem_singleton.1 hz
    exact hnew ((mem_closes xs y).1 hy)
  · rwa [if_pos hlast, List.append_nil]

/-! ## Lines with streams -/

/-- The streams of the lines that have one. -/
def streamsOf (lines : List Line) : List Nat := lines.filterMap Line.stream

/-- The lines without a stream are the inserted ones, and the lines of a stream follow each other. -/
structure StreamsOk (lines : List Line) : Prop where
  inserted : ∀ line ∈ lines, line.stream = none ↔ line.status = .inserted
  once : (closes none (streamsOf lines)).Nodup

/-- The closing loop sees the lines with a stream. -/
theorem closedStreams_eq {lines : List Line}
    (h : ∀ line ∈ lines, line.stream = none ↔ line.status = .inserted) (prev : Option Nat) :
    closedStreams prev lines = (closes prev (streamsOf lines)).map some := by
  induction lines generalizing prev with
  | nil => rfl
  | cons line lines ih =>
    have hline := h line (.head _)
    have ih := ih fun l hl => h l (.tail _ hl)
    rw [closedStreams, streamsOf]
    cases hstream : line.stream with
    | none =>
      rw [if_neg (by simp [hline.1 hstream]), List.filterMap_cons_none hstream]
      exact ih prev
    | some stream =>
      have hstatus : line.status ≠ .inserted := fun hs => by
        rw [hline.2 hs] at hstream
        exact nomatch hstream
      rw [List.filterMap_cons_some hstream, closes]
      by_cases hprev : prev = some stream
      · rw [if_neg (by simp [hprev]), if_pos hprev]
        exact ih prev
      · rw [if_pos ⟨hstatus, hprev⟩, if_neg hprev, List.map_cons]
        exact congrArg _ (ih (some stream))

theorem StreamsOk.nil : StreamsOk [] := ⟨by simp, List.nodup_nil⟩

theorem StreamsOk.save {lines : List Line} {addr stream linePos : Nat} (h : StreamsOk lines)
    (hstream : stream ∉ streamsOf lines ∨ (streamsOf lines).getLast? = some stream) :
    StreamsOk (saveLineLocation lines addr stream linePos) := by
  refine ⟨?_, ?_⟩
  · intro line hline
    rcases List.mem_append.1 hline with hline | hline
    · exact h.inserted line hline
    · obtain rfl := List.mem_singleton.1 hline
      simp
  · rw [saveLineLocation, streamsOf, List.filterMap_append]
    exact closes_snoc_nodup h.once hstream

theorem insertPrev_perm (lines : List Line) (next : Nat) (new : Line) :
    (∀ line ∈ insertPrev lines next new, line = new ∨ line ∈ lines) ∧
      (new.stream = none → streamsOf (insertPrev lines next new) = streamsOf lines) := by
  induction lines with
  | nil => simp [insertPrev]
  | cons line lines ih =>
    rw [insertPrev]
    split
    · refine ⟨by simp, fun hnew => ?_⟩
      rw [streamsOf, List.filterMap_cons_none hnew]
      rfl
    · refine ⟨?_, fun hnew => ?_⟩
      · intro l hl
        rcases List.mem_cons.1 hl with rfl | hl
        · exact .inr (.head _)
        · exact (ih.1 l hl).imp id (.tail _)
      · have hrest := ih.2 hnew
        simp only [streamsOf] at hrest
        simp only [streamsOf, List.filterMap_cons, hrest]

theorem StreamsOk.insert {lines : List Line} (h : StreamsOk lines) (addr : Nat)
    (next irPtr : Option Nat) (printFn : Option (Option Nat → Whitespace → List UInt8))
    (indentLevel : Nat) :
    StreamsOk (insertLineEr lines addr next irPtr printFn indentLevel) ∧
      streamsOf (insertLineEr lines addr next irPtr printFn indentLevel) = streamsOf lines := by
  cases next with
  | none =>
    rw [insertLineEr]
    have hstreams : streamsOf (lines ++ [⟨addr, none, -1, irPtr, printFn, .inserted, indentLevel⟩]) =
        streamsOf lines := by
      rw [streamsOf, List.filterMap_append, List.filterMap_cons_none rfl]
      simp [streamsOf]
    refine ⟨⟨fun line hline => ?_, by rw [hstreams]; exact h.once⟩, hstreams⟩
    rcases List.mem_append.1 hline with hline | hline
    · exact h.inserted line hline
    · obtain rfl := List.mem_singleton.1 hline
      simp
  | some next =>
    rw [insertLineEr]
    obtain ⟨hmem, hstreams⟩ := insertPrev_perm lines _ ⟨addr, none, -1, irPtr, printFn, .inserted, _⟩
    have hstreams := hstreams rfl
    refine ⟨⟨fun line hline => ?_, by rw [hstreams]; exact h.once⟩, hstreams⟩
    rcases hmem line hline with rfl | hline
    · simp
    · exact h.inserted line hline

/-- A change of lines that keeps their streams, and makes no line of a stream an inserted one. -/
theorem StreamsOk.update {lines : List Line} {addr : Nat} {f : Line → Line} (h : StreamsOk lines)
    (hstream : ∀ line, (f line).stream = line.stream)
    (hstatus : ∀ line ∈ lines, line.addr = addr → line.status ≠ .inserted ∧
      (f line).status ≠ .inserted) :
    StreamsOk (Fbc.update lines addr f) ∧
      streamsOf (Fbc.update lines addr f) = streamsOf lines := by
  have hstreams : streamsOf (Fbc.update lines addr f) = streamsOf lines := by
    rw [streamsOf, Fbc.update, List.filterMap_map, streamsOf]
    congr 1
    funext line
    simp only [Function.comp]
    split
    · exact hstream line
    · rfl
  refine ⟨⟨fun line hline => ?_, by rw [hstreams]; exact h.once⟩, hstreams⟩
  obtain ⟨l, hl, rfl⟩ := List.mem_map.1 hline
  split
  · rename_i haddr
    obtain ⟨hold, hnew⟩ := hstatus l hl haddr
    rw [hstream, h.inserted l hl]
    exact iff_of_false hold hnew
  · exact h.inserted l hl

/-! ## Operations -/

/-- The lines, and the Monitor sections with their `UseModes` entries. -/
structure ErState where
  lines : List Line
  monitors : Nat → MonitorModes

/-- Operations on lines. -/
inductive Op where
  | saveLineLocation (addr stream linePos : Nat)
  | insertLineEr (addr : Nat) (next irPtr : Option Nat)
      (printFn : Option (Option Nat → Whitespace → List UInt8)) (indentLevel : Nat)
  | editLineEr (line : Option Nat) (addr : Nat) (next irPtr : Option Nat)
      (printFn : Option (Option Nat → Whitespace → List UInt8)) (indentLevel : Nat)
  | modifyLineEr (addr : Nat)
  | deleteLineEr (line : Option Nat)
  | insertUseModesEntry (monitor : Nat) (modes : List UInt8) (addr : Nat) (irPtr : Option Nat)
      (printFn : Option (Option Nat → Whitespace → List UInt8))
  | removeMonitorUsemodesEntryEr (monitor : Nat)

/-- The state after an operation. -/
def exec (s : ErState) : Op → ErState
  | .saveLineLocation addr stream linePos =>
    { s with lines := saveLineLocation s.lines addr stream linePos }
  | .insertLineEr addr next irPtr printFn indentLevel =>
    { s with lines := insertLineEr s.lines addr next irPtr printFn indentLevel }
  | .editLineEr line addr next irPtr printFn indentLevel =>
    { s with lines := (editLineEr s.lines line addr next irPtr printFn indentLevel).1 }
  | .modifyLineEr addr => { s with lines := modifyLineEr s.lines addr }
  | .deleteLineEr line => { s with lines := deleteLineEr s.lines line }
  | .insertUseModesEntry monitor modes addr irPtr printFn =>
    let (lines, entry) :=
      insertUseModesEntry s.lines (s.monitors monitor) modes addr irPtr printFn
    ⟨lines, Function.update s.monitors monitor entry⟩
  | .removeMonitorUsemodesEntryEr monitor =>
    { s with lines := removeMonitorUsemodesEntryEr s.lines (s.monitors monitor) }

/-- The lines of an input file are saved one after the other. -/
def Contiguous (s : ErState) : Op → Prop
  | .saveLineLocation _ stream _ =>
    stream ∉ streamsOf s.lines ∨ (streamsOf s.lines).getLast? = some stream
  | _ => True

/-- There is no inserted line at an address. -/
def NotInserted (s : ErState) (line : Option Nat) : Prop :=
  ∀ l ∈ s.lines, line = some l.addr → l.status ≠ .inserted

/-- No inserted line is modified or deleted. -/
def Guarded (s : ErState) : Op → Prop
  | .editLineEr line .. => NotInserted s line
  | .modifyLineEr addr => NotInserted s (some addr)
  | .deleteLineEr line => NotInserted s line
  | .removeMonitorUsemodesEntryEr monitor =>
    ∀ link, findModes (chars "SunModes_" ++ (s.monitors monitor).identifier)
      (s.monitors monitor).modesSectLst = some link → NotInserted s link.lineEr
  | _ => True

/-- The stream an operation adds a line of. -/
def Op.saves : Op → Option Nat
  | .saveLineLocation _ stream _ => some stream
  | _ => none

theorem modify_ok {s : ErState} {addr : Nat} (h : StreamsOk s.lines)
    (hguard : NotInserted s (some addr)) : StreamsOk (modifyLineEr s.lines addr) ∧
      streamsOf (modifyLineEr s.lines addr) = streamsOf s.lines := by
  refine h.update (fun _ => rfl) fun line hline haddr => ⟨?_, nofun⟩
  exact hguard line hline (by rw [haddr])

theorem delete_ok {s : ErState} {line : Option Nat} (h : StreamsOk s.lines)
    (hguard : NotInserted s line) : StreamsOk (deleteLineEr s.lines line) ∧
      streamsOf (deleteLineEr s.lines line) = streamsOf s.lines := by
  cases line with
  | none => exact ⟨h, rfl⟩
  | some addr =>
    refine h.update (fun _ => rfl) fun l hl haddr => ⟨?_, nofun⟩
    exact hguard l hl (by rw [haddr])

theorem insertUseModesEntry_ok {lines : List Line} (h : StreamsOk lines) (monitor : MonitorModes)
    (modes : List UInt8) (addr : Nat) (irPtr : Option Nat)
    (printFn : Option (Option Nat → Whitespace → List UInt8)) :
    StreamsOk (insertUseModesEntry lines monitor modes addr irPtr printFn).1 ∧
      streamsOf (insertUseModesEntry lines monitor modes addr irPtr printFn).1 =
        streamsOf lines := by
  rw [insertUseModesEntry]
  split
  · exact ⟨h, rfl⟩
  · exact h.insert ..

/-- **One operation.** -/
theorem exec_ok {s : ErState} {op : Op} (h : StreamsOk s.lines) (hcont : Contiguous s op)
    (hguard : Guarded s op) : StreamsOk (exec s op).lines ∧
      streamsOf (exec s op).lines = streamsOf s.lines ++ op.saves.toList := by
  have hnone {lines : List Line} (hok : StreamsOk lines ∧ streamsOf lines = streamsOf s.lines) :
      StreamsOk lines ∧ streamsOf lines = streamsOf s.lines ++ (none : Option Nat).toList :=
    ⟨hok.1, hok.2.trans (List.append_nil _).symm⟩
  cases op with
  | saveLineLocation addr stream linePos =>
    refine ⟨h.save hcont, ?_⟩
    rw [exec, saveLineLocation, streamsOf, List.filterMap_append]
    rfl
  | insertLineEr addr next irPtr printFn indentLevel => exact hnone (h.insert ..)
  | editLineEr line addr next irPtr printFn indentLevel =>
    cases line with
    | none => exact hnone (h.insert ..)
    | some line => exact hnone (modify_ok h hguard)
  | modifyLineEr addr => exact hnone (modify_ok h hguard)
  | deleteLineEr line => exact hnone (delete_ok h hguard)
  | insertUseModesEntry monitor modes addr irPtr printFn =>
    refine hnone (insertUseModesEntry_ok h (s.monitors monitor) modes addr irPtr printFn)
  | removeMonitorUsemodesEntryEr monitor =>
    rw [exec, removeMonitorUsemodesEntryEr]
    split
    · exact hnone ⟨h, rfl⟩
    · rename_i link hlink
      exact hnone (delete_ok h (hguard link hlink))

/-! ## Runs -/

/-- The operations with which the streams stay right. -/
def Step (s : ErState) (op : Op) (s' : ErState) : Prop :=
  Contiguous s op ∧ Guarded s op ∧ exec s op = s'

theorem step_exec {s : ErState} (op : Op) (hcont : Contiguous s op) (hguard : Guarded s op) :
    Step s op (exec s op) := ⟨hcont, hguard, rfl⟩

/-- A line that `fbc_write_config_file` reads again. -/
def Rereads (line : Line) : Prop := line.status = .original ∨ line.status = .modified

theorem run_streamsOk {monitors : Nat → MonitorModes} {ops : List Op} {s : ErState}
    (run : Run Step ⟨[], monitors⟩ ops s) :
    StreamsOk s.lines ∧ streamsOf s.lines = ops.filterMap Op.saves := by
  refine run.history (P := fun ops s => StreamsOk s.lines ∧
    streamsOf s.lines = ops.filterMap Op.saves) ⟨.nil, rfl⟩ ?_
  rintro ops s op s' ⟨hok, hstreams⟩ ⟨hcont, hguard, rfl⟩
  obtain ⟨hok', hstreams'⟩ := exec_ok hok hcont hguard
  refine ⟨hok', ?_⟩
  rw [hstreams', hstreams, List.filterMap_append]
  cases op <;> rfl

/-- **Streams are read and closed as they should be.** After operations of which none modifies or
deletes an inserted line, every line that is read again has a stream, and closing down closes each
input stream once and NULL never. -/
theorem streams_closed_once {monitors : Nat → MonitorModes} {ops : List Op} {s : ErState}
    (run : Run Step ⟨[], monitors⟩ ops s) :
    (∀ line ∈ s.lines, Rereads line → line.stream ≠ none) ∧
    none ∉ (closeDownConfig ⟨s.lines, []⟩).closed ∧
    ∀ stream, (closeDownConfig ⟨s.lines, []⟩).closed.count (some stream) =
      if stream ∈ ops.filterMap Op.saves then 1 else 0 := by
  obtain ⟨hok, hstreams⟩ := run_streamsOk run
  have hclosed : (closeDownConfig ⟨s.lines, []⟩).closed =
      (closes none (ops.filterMap Op.saves)).map some := by
    rw [← hstreams]
    exact closedStreams_eq hok.inserted none
  rw [hclosed]
  refine ⟨?_, by simp, fun stream => ?_⟩
  · rintro line hline hread hnone
    have hinserted := (hok.inserted line hline).1 hnone
    rw [Rereads, hinserted] at hread
    rcases hread with hread | hread <;> exact nomatch hread
  · rw [List.count_map_of_injective _ _ fun _ _ h => Option.some.inj h]
    have hnodup : (closes none (ops.filterMap Op.saves)).Nodup := by
      rw [← hstreams]
      exact hok.once
    split
    · rename_i hmem
      exact List.nodup_iff_count_eq_one.1 hnodup stream ((mem_closes _ _).2 hmem)
    · rename_i hmem
      exact List.count_eq_zero.2 fun h => hmem ((mem_closes _ _).1 h)

/-- Two files, an inserted line between the lines of the first and a line of it deleted. -/
theorem streams_closed_once_two_files : ∃ s : ErState,
    Run Step ⟨[], fun _ => ⟨[], [], none, none⟩⟩
      [.saveLineLocation 1 0 0, .saveLineLocation 2 0 10, .saveLineLocation 3 1 0,
        .insertLineEr 4 (some 2) none none 1, .deleteLineEr (some 2)] s ∧
    none ∉ (closeDownConfig ⟨s.lines, []⟩).closed ∧
    (closeDownConfig ⟨s.lines, []⟩).closed.count (some 0) = 1 := by
  have run₁ : Run Step ⟨[], fun _ => ⟨[], [], none, none⟩⟩ _ _ :=
    Run.nil.snoc (step_exec (.saveLineLocation 1 0 0) (Or.inl (by decide)) trivial)
  have run₂ := run₁.snoc (step_exec (.saveLineLocation 2 0 10) (Or.inr (by decide)) trivial)
  have run₃ := run₂.snoc (step_exec (.saveLineLocation 3 1 0) (Or.inl (by decide)) trivial)
  have run₄ := run₃.snoc (step_exec (.insertLineEr 4 (some 2) none none 1) trivial trivial)
  have run₅ := run₄.snoc (step_exec (.deleteLineEr (some 2)) trivial
    (by unfold Guarded NotInserted; decide))
  obtain ⟨-, hnull, hcount⟩ := streams_closed_once run₅
  exact ⟨_, run₅, hnull, (hcount 0).trans (by decide)⟩

/-- A `UseModes` line inserted and taken out again: NULL is closed, and the input stream twice. -/
theorem null_stream_closed :
    (closeDownConfig ⟨(exec (exec (exec (exec ⟨[], fun _ => ⟨chars "m", [], some 2, none⟩⟩
        (.saveLineLocation 1 0 0)) (.saveLineLocation 2 0 18))
        (.insertUseModesEntry 0 (chars "SunModes") 3 none none))
        (.removeMonitorUsemodesEntryEr 0)).lines, []⟩).closed = [some 0, none, some 0] := by
  decide +kernel

end Fbc
