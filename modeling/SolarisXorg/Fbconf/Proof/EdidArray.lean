import SolarisXorg.Fbconf.EdidArray
import SolarisXorg.Lib.Fills

/-!
# The array of video modes is large enough

`Holds first a modes`: the array has the modes in front, a terminator behind them, and the end
pointer there. Adding a mode does to the array what it does to the list and takes up one element at
most (`addVideoMode_fills`), so each of the three functions takes up one for every timing it looks
at, and they look at 4, 8 + 4 * 6 and 24 + 48. The one element of the placeholder is among the first
four (`preferred_fills`).
-/

namespace Edid

open Lib

namespace ModeArray

/-- The element that has the mode. -/
def modeSlot (mode : Mode) : Slot := ⟨.str mode.name, some mode.triple⟩

/-- The array has the modes, all different and `first` in front, and a terminator behind them. -/
structure Holds (first : List Mode) (a : ModeArray) (modes : List Mode) : Prop where
  length : a.slots.length = arraySize
  modesEnd : a.modesEnd = modes.length
  slots : ∃ triple rest, a.slots = modes.map modeSlot ++ ⟨.null, triple⟩ :: rest
  nodup : modes.Nodup
  first : first <+: modes

variable {first modes : List Mode} {a : ModeArray} {edid : Data}

/-- The elements that can be taken: the last one is for the terminator. -/
def arrayRoom : Nat := arraySize - 1

/-- The scan ends at the terminator. -/
theorem scan_eq (mode : Mode) (modes : List Mode) (triple : Option Triple) (rest : List Slot) :
    scan mode (modes.map modeSlot ++ ⟨.null, triple⟩ :: rest) = some (decide (mode ∈ modes)) := by
  induction modes with
  | nil => rfl
  | cons m modes ih =>
    rw [List.map_cons, List.cons_append]
    simp only [modeSlot, scan]
    by_cases heq : mode = m
    · subst heq
      simp
    · have hne : ¬(mode.name = m.name ∧ mode.triple = m.triple) := by
        rintro ⟨hname, htriple⟩
        cases mode
        cases m
        exact heq (congrArg₂ Mode.mk hname htriple)
      rw [if_neg hne]
      refine ih.trans ?_
      simp [heq]

/-- Storing behind the modes. -/
theorem setSlot_append {modes : List Mode} {slot slot' : Slot} {rest : List Slot}
    (hslots : a.slots = modes.map modeSlot ++ slot :: rest) :
    a.setSlot modes.length slot' =
      some { a with slots := modes.map modeSlot ++ slot' :: rest } := by
  have hlt : modes.length < a.slots.length := by simp [hslots]
  rw [setSlot, if_pos hlt, hslots, List.set_append_right _ _ (by simp)]
  simp

/-- A new mode takes the place of the terminator, which moves to the element behind it. -/
theorem append_eq {modes : List Mode} {slot slot' : Slot} {rest : List Slot}
    (hend : a.modesEnd = modes.length)
    (hslots : a.slots = modes.map modeSlot ++ slot :: slot' :: rest) (mode : Mode) :
    a.append mode = some ⟨(modes ++ [mode]).map modeSlot ++ ⟨.null, slot'.triple⟩ :: rest,
      (modes ++ [mode]).length⟩ := by
  have hmap : modes.map modeSlot ++ modeSlot mode :: slot' :: rest =
      (modes ++ [mode]).map modeSlot ++ slot' :: rest := by simp
  have hlen : (modes ++ [mode]).length = modes.length + 1 := List.length_append
  have hget : ((modes ++ [mode]).map modeSlot ++ slot' :: rest)[modes.length + 1]? =
      some slot' := by
    rw [← hlen, List.getElem?_append_right (by simp)]
    simp
  rw [append, hend, setSlot_append hslots]
  show setNull ⟨modes.map modeSlot ++ modeSlot mode :: slot' :: rest, _⟩ _ = _
  rw [hmap, setNull, hend]
  show (_ : Option Slot).bind _ = _
  rw [hget, ← hlen]
  exact setSlot_append rfl

/-- **Adding a mode.** -/
theorem addVideoMode_fills (modeName : Option String) (width height frequency : Int) :
    Fills (Holds first) List.length arrayRoom 1
      (fun a => a.addVideoMode modeName width height frequency)
      fun modes => Edid.addVideoMode modes modeName width height frequency := by
  intro a modes h hroom
  cases modeName with
  | none => exact ⟨a, rfl, h, Nat.le_succ _⟩
  | some name =>
    obtain ⟨hlen, hend, ⟨triple, rest, hslots⟩, hnd, hfirst⟩ := h
    simp only [addVideoMode, Edid.addVideoMode]
    generalize (⟨name, shorts width height frequency⟩ : Mode) = mode
    rw [hslots, scan_eq]
    by_cases hm : mode ∈ modes
    · rw [if_pos hm, decide_eq_true hm]
      exact ⟨a, rfl, ⟨hlen, hend, ⟨triple, rest, hslots⟩, hnd, hfirst⟩, Nat.le_succ _⟩
    · rw [if_neg hm, decide_eq_false hm]
      -- There is an element behind the terminator.
      obtain ⟨slot, rest', rfl⟩ : ∃ slot rest', rest = slot :: rest' := by
        apply List.exists_cons_of_length_pos
        rw [hslots, List.length_append, List.length_map, List.length_cons] at hlen
        unfold arrayRoom at hroom
        omega
      refine ⟨_, append_eq hend hslots mode, ⟨?_, rfl, ⟨slot.triple, rest', rfl⟩, ?_, ?_⟩, ?_⟩
      · rw [hslots] at hlen
        simpa using hlen
      · refine List.nodup_append.2 ⟨hnd, by simp, ?_⟩
        rintro m hmem _ hlast rfl
        exact hm (List.mem_singleton.1 hlast ▸ hmem)
      · exact hfirst.trans (List.prefix_append _ _)
      · exact Nat.le_of_eq List.length_append

/-! ## The three functions -/

theorem addBits_fills (edid : Data) (addr : Nat) (timings : List SunTiming) :
    Fills (Holds first) List.length arrayRoom timings.length
      (addBits edid addr timings) (Edid.addBits edid addr timings) := by
  have hbody : ∀ x : SunTiming × Nat, Fills (Holds first) List.length arrayRoom 1
      (fun a => if bitSet edid addr x.2 then
        a.addVideoMode x.1.name x.1.width x.1.height x.1.frequency else some a)
      fun modes => if bitSet edid addr x.2 then
        Edid.addVideoMode modes x.1.name x.1.width x.1.height x.1.frequency else modes :=
    fun x => (addVideoMode_fills _ _ _ _).ite Fills.skip
  have hloop := Fills.foldlM timings.zipIdx hbody
  rwa [Nat.mul_one, List.length_zipIdx] at hloop

/-- The Established Timings take up 24 elements, and those of a descriptor 48. -/
theorem addEtimingModes_fills (edid : Data) :
    Fills (Holds first) List.length arrayRoom (24 + 48)
      (addEtimingModes edid) (Edid.addEtimingModes edid) := by
  have hbits : Fills (Holds first) _ _ _ _ _ := addBits_fills edid 0x23 estTimings
  unfold addEtimingModes Edid.addEtimingModes
  cases findDisplayDescriptor edid 0xF7 with
  | none => exact hbits.andThen (Fills.skip.mono (Nat.zero_le 48))
  | some addr => exact hbits.andThen (addBits_fills edid (addr + 6) estTimingsIII)

variable (sunVideoTable : List SunVideoSummary) (modeList : List ModeLine)

theorem addStiming_fills (edid : Data) (addr : Nat) :
    Fills (Holds first) List.length arrayRoom 1
      (fun a => addStiming sunVideoTable modeList edid a addr)
      fun modes => Edid.addStiming sunVideoTable modeList edid modes addr := by
  unfold addStiming Edid.addStiming
  cases decodeStiming (verRev edid) edid addr with
  | none => exact Fills.skip
  | some timing => exact addVideoMode_fills _ _ _ _

/-- The Standard Timings take up 8 elements, and those of the four data blocks 6 each. -/
theorem addStimingModes_fills (edid : Data) :
    Fills (Holds first) List.length arrayRoom (8 + 4 * 6)
      (addStimingModes sunVideoTable modeList edid)
      (Edid.addStimingModes sunVideoTable modeList edid) := by
  have hblock : ∀ addr : Nat, Fills (Holds first) List.length arrayRoom 6
      (fun a => if isStimingBlock edid addr then
        (List.range' 5 6 2).foldlM (fun a _i =>
          addStiming sunVideoTable modeList edid a (addr + 1)) a
        else some a)
      fun modes => if isStimingBlock edid addr then
        (List.range' 5 6 2).foldl (fun modes _i =>
          Edid.addStiming sunVideoTable modeList edid modes (addr + 1)) modes
        else modes :=
    fun addr => (Fills.foldlM (List.range' 5 6 2) fun _ =>
      addStiming_fills sunVideoTable modeList edid (addr + 1)).ite Fills.skip
  have hfirst : Fills (Holds first) List.length arrayRoom 8
      (fun a => (List.range' 0x26 8 2).foldlM (addStiming sunVideoTable modeList edid) a)
      fun modes => (List.range' 0x26 8 2).foldl (Edid.addStiming sunVideoTable modeList edid) modes :=
    Fills.foldlM (List.range' 0x26 8 2) fun addr => addStiming_fills sunVideoTable modeList edid addr
  exact hfirst.andThen ((Fills.foldlM dataBlocks hblock).ite Fills.skip)

/-- The Detailed Timings take up one element for each data block. -/
theorem addDtimingModes_fills (edid : Data) (addrs : List Nat) :
    Fills (Holds first) List.length arrayRoom addrs.length
      (addDtimingModes sunVideoTable modeList edid addrs)
      (Edid.addDtimingModes sunVideoTable modeList edid addrs) := by
  induction addrs with
  | nil => exact Fills.skip
  | cons addr addrs ih =>
    rw [List.length_cons, Nat.add_comm]
    intro a modes
    rw [addDtimingModes, Edid.addDtimingModes]
    cases decodeDtiming edid addr with
    | none => exact ih.mono (Nat.le_add_left _ _) a modes
    | some dt => exact ((addVideoMode_fills _ _ _ _).andThen (Fills.skip.ite ih)) a modes

/-! ## The whole array -/

/-- The mode of a Detailed Timing. -/
def dtimingMode (dt : Dtiming) : Mode :=
  ⟨getDtimingName sunVideoTable modeList dt (getDtimingFrequency dt),
    shorts dt.hactive dt.vactive (getDtimingFrequency dt)⟩

/-- What the first element is to be: the mode of the first Detailed Timing block, or the
placeholder. -/
def preferred (edid : Data) : Mode :=
  match (dataBlocks.filterMap (decodeDtiming edid)).head? with
  | some dt => dtimingMode sunVideoTable modeList dt
  | none => ⟨"", shorts 0 0 0⟩

theorem prefix_addVideoMode (modes : List Mode) (modeName : Option String)
    (width height frequency : Int) :
    modes <+: Edid.addVideoMode modes modeName width height frequency := by
  unfold Edid.addVideoMode
  split
  · exact List.prefix_rfl
  · dsimp only
    split
    · exact List.prefix_rfl
    · exact List.prefix_append _ _

theorem prefix_addDtimingModes (addrs : List Nat) (modes : List Mode) :
    modes <+: Edid.addDtimingModes sunVideoTable modeList edid addrs modes := by
  induction addrs generalizing modes with
  | nil => exact List.prefix_rfl
  | cons addr addrs ih =>
    rw [Edid.addDtimingModes]
    cases decodeDtiming edid addr with
    | none => exact ih modes
    | some dt =>
      have hadd := prefix_addVideoMode modes (some (getDtimingName sunVideoTable modeList dt
        (getDtimingFrequency dt))) dt.hactive dt.vactive (getDtimingFrequency dt)
      dsimp only
      split
      · exact hadd
      · exact hadd.trans (ih _)

/-- The list starts with the mode of the first Detailed Timing block. -/
theorem addDtimingModes_nil (edid : Data) (addrs : List Nat) :
    match (addrs.filterMap (decodeDtiming edid)).head? with
    | some dt => [dtimingMode sunVideoTable modeList dt] <+:
        Edid.addDtimingModes sunVideoTable modeList edid addrs []
    | none => Edid.addDtimingModes sunVideoTable modeList edid addrs [] = [] := by
  induction addrs with
  | nil => rfl
  | cons addr addrs ih =>
    rw [Edid.addDtimingModes]
    cases hdt : decodeDtiming edid addr with
    | none =>
      rw [List.filterMap_cons_none hdt]
      exact ih
    | some dt =>
      rw [List.filterMap_cons_some hdt]
      show [_] <+: if _ then [_] else _
      split
      · exact List.prefix_rfl
      · exact prefix_addDtimingModes sunVideoTable modeList addrs _

/-- The array as it is allocated, with the terminator stored. -/
def emptyArray : ModeArray :=
  ⟨⟨.null, none⟩ :: List.replicate (arraySize - 1) ⟨.unset, none⟩, 0⟩

theorem setNull_malloc :
    setNull ⟨List.replicate arraySize ⟨.unset, none⟩, 0⟩ 0 = some emptyArray := rfl

theorem holds_emptyArray : Holds [] emptyArray [] where
  length := by rw [emptyArray, List.length_cons, List.length_replicate]; rfl
  modesEnd := rfl
  slots := ⟨none, _, rfl⟩
  nodup := List.nodup_nil
  first := List.prefix_rfl

theorem Holds.modesEnd_eq_zero (h : Holds first a modes) : a.modesEnd = 0 ↔ modes = [] := by
  rw [h.modesEnd]
  exact List.length_eq_zero_iff

/-- The list after the Detailed Timings and the placeholder. -/
def preferredModes (edid : Data) : List Mode :=
  let modes := Edid.addDtimingModes sunVideoTable modeList edid dataBlocks []
  if modes = [] then Edid.addVideoMode modes (some "") 0 0 0 else modes

/-- The Detailed Timings and the placeholder take up four elements together. -/
theorem preferred_fills (edid : Data) :
    ∃ a, (addDtimingModes sunVideoTable modeList edid dataBlocks emptyArray).bind
        addPlaceholder = some a ∧
      Holds [preferred sunVideoTable modeList edid] a
        (preferredModes sunVideoTable modeList edid) ∧
      (preferredModes sunVideoTable modeList edid).length ≤ 4 := by
  obtain ⟨a, hrun, hholds, hlen⟩ :=
    addDtimingModes_fills sunVideoTable modeList edid dataBlocks emptyArray [] holds_emptyArray
      (by decide)
  have hfirst := addDtimingModes_nil sunVideoTable modeList edid dataBlocks
  rw [hrun]
  simp only [Option.bind_some, addPlaceholder, preferred, preferredModes]
  cases hhead : (dataBlocks.filterMap (decodeDtiming edid)).head? with
  | some dt =>
    rw [hhead] at hfirst
    have hne : Edid.addDtimingModes sunVideoTable modeList edid dataBlocks [] ≠ [] :=
      fun h => List.cons_ne_nil _ _ (List.prefix_nil.1 (h ▸ hfirst))
    rw [if_neg (mt hholds.modesEnd_eq_zero.1 hne)]
    simp only [if_neg hne]
    exact ⟨a, rfl, { hholds with first := hfirst }, hlen⟩
  | none =>
    rw [hhead] at hfirst
    dsimp only at hfirst
    rw [hfirst] at hholds ⊢
    obtain ⟨a', hadd, hholds', -⟩ := addVideoMode_fills (some "") 0 0 0 a [] hholds (by decide)
    rw [if_pos (hholds.modesEnd_eq_zero.2 rfl)]
    exact ⟨a', hadd, { hholds' with first := List.prefix_rfl }, by decide⟩

/-- The array has the modes of the list model. -/
theorem sunEdidVideoModes_holds (edid : Data) :
    ∃ a, sunEdidVideoModes sunVideoTable modeList edid = some a ∧
      Holds [preferred sunVideoTable modeList edid] a (videoModes sunVideoTable modeList edid) := by
  obtain ⟨a₁, hrun₁, hholds₁, hlen₁⟩ := preferred_fills sunVideoTable modeList edid
  have hroom : (preferredModes sunVideoTable modeList edid).length + (8 + 4 * 6 + (24 + 48)) ≤
      arrayRoom := by
    show _ ≤ 108
    omega
  obtain ⟨a₂, hrun₂, hholds₂, -⟩ :=
    ((addStimingModes_fills sunVideoTable modeList edid).andThen (addEtimingModes_fills edid))
      a₁ _ hholds₁ hroom
  refine ⟨a₂, ?_, hholds₂⟩
  obtain ⟨a₀, hdt, hif⟩ := Option.bind_eq_some_iff.1 hrun₁
  rw [sunEdidVideoModes, setNull_malloc]
  show (addDtimingModes _ _ _ _ emptyArray).bind (fun a => a.addPlaceholder.bind _) = _
  rw [hdt, Option.bind_some, hif]
  exact hrun₂

/-- **The array of video modes**: no access is outside of its elements, the modes are all different
and end with a terminator, and the preferred mode comes first. -/
theorem sunEdidVideoModes_array (edid : Data) :
    ∃ a first modes triple rest, sunEdidVideoModes sunVideoTable modeList edid = some a ∧
      a.slots = (first :: modes).map modeSlot ++ ⟨.null, triple⟩ :: rest ∧
      a.slots.length = 4 + 8 + 24 + 24 + 48 + 1 ∧ a.modesEnd = (first :: modes).length ∧
      (first :: modes).Nodup ∧ first = preferred sunVideoTable modeList edid := by
  obtain ⟨a, hrun, h⟩ := sunEdidVideoModes_holds sunVideoTable modeList edid
  obtain ⟨modes, hmodes⟩ := h.first
  obtain ⟨triple, rest, hslots⟩ := h.slots
  rw [← hmodes] at hslots h
  exact ⟨a, _, modes, triple, rest, hrun, hslots, h.length, h.modesEnd, h.nodup, rfl⟩

end ModeArray

end Edid
