import SolarisXorg.Fbconf.Edid

/-!
# Which modes `sun_edid_video_modes` lists

Adding a mode adds its width, height and frequency and nothing else (`mem_triples_addVideoMode`): one
that is in the list already is there with the same numbers. So a loop that adds modes adds the
triples of what it goes through (`mem_triples_foldl`), and the list has the Detailed Timings, the
eight Standard Timings and the Established Timings (`mem_listed`). The Standard Timings of
descriptors are never decoded: their loop decodes the second byte of the block, which is zero
(`addStimingModes_eq`).
-/

namespace Edid

open List

variable {edid : Data} {modes : List Mode} {t : Triple} {sunVideoTable : List SunVideoSummary}
  {modeList : List ModeLine} {addr : Nat}

/-! ## The timings of an EDID block -/

/-- The Standard Timing at an address. -/
def stimingAt (edid : Data) (addr : Nat) : Option Triple :=
  (decodeStiming (verRev edid) edid addr).map fun (width, height, frequency) =>
    shorts width height frequency

/-- The Detailed Timing at an address. -/
def dtimingAt (edid : Data) (addr : Nat) : Option Triple :=
  (decodeDtiming edid addr).map fun dt => shorts dt.hactive dt.vactive (getDtimingFrequency dt)

/-- The Detailed Timing blocks. -/
def detailed (edid : Data) : List Triple := dataBlocks.filterMap (dtimingAt edid)

/-- The eight Standard Timings. -/
def standard (edid : Data) : List Triple := (range' 0x26 8 2).filterMap (stimingAt edid)

/-- The six Standard Timings of each descriptor with tag `0xFA`. -/
def descriptorStandard (edid : Data) : List Triple :=
  (dataBlocks.filter (isStimingBlock edid)).flatMap fun addr =>
    (range' (addr + 5) 6 2).filterMap (stimingAt edid)

/-- The timings of the bits that are set and not reserved. -/
def bitTimings (edid : Data) (addr : Nat) (timings : List SunTiming) : List Triple :=
  (timings.zipIdx.filter fun (t, bitOff) => t.name.isSome && bitSet edid addr bitOff).map
    fun (t, _) => shorts t.width t.height t.frequency

/-- The Established Timings I, II and III. -/
def established (edid : Data) : List Triple :=
  bitTimings edid 0x23 estTimings ++
    (findDisplayDescriptor edid 0xF7).elim [] fun addr => bitTimings edid (addr + 6) estTimingsIII

/-- The triples of a list of modes, without the placeholder that stands first when there is no
Detailed Timing. -/
def listed (edid : Data) (modes : List Mode) : List Triple :=
  (if detailed edid = [] then modes.tail else modes).map Mode.triple

/-! ## Adding modes -/

theorem mem_triples_addVideoMode {name : String} {width height frequency : Int} :
    t ∈ (addVideoMode modes (some name) width height frequency).map Mode.triple ↔
      t ∈ modes.map Mode.triple ∨ t = shorts width height frequency := by
  rw [addVideoMode]
  split
  · rename_i hm
    constructor
    · exact .inl
    · rintro (ht | rfl)
      · exact ht
      · exact mem_map.2 ⟨_, hm, rfl⟩
  · simp

theorem mem_triples_foldl {α : Type} {f : List Mode → α → List Mode} {P : α → Prop} {l : List α}
    {m : List Mode}
    (hf : ∀ modes x, t ∈ (f modes x).map Mode.triple ↔ t ∈ modes.map Mode.triple ∨ P x) :
    t ∈ (l.foldl f m).map Mode.triple ↔ t ∈ m.map Mode.triple ∨ ∃ x ∈ l, P x := by
  induction l generalizing m with
  | nil => simp
  | cons x l ih =>
    rw [foldl_cons, ih, hf]
    simp [or_assoc]

theorem mem_addStiming :
    t ∈ (addStiming sunVideoTable modeList edid modes addr).map Mode.triple ↔
      t ∈ modes.map Mode.triple ∨ stimingAt edid addr = some t := by
  rw [addStiming, stimingAt]
  cases decodeStiming (verRev edid) edid addr with
  | none => simp
  | some x =>
    obtain ⟨width, height, frequency⟩ := x
    simp only [mem_triples_addVideoMode, Option.map_some, Option.some.injEq, eq_comm]

theorem mem_addBits {timings : List SunTiming} :
    t ∈ (addBits edid addr timings modes).map Mode.triple ↔
      t ∈ modes.map Mode.triple ∨ t ∈ bitTimings edid addr timings := by
  have hstep : ∀ (modes : List Mode) (x : SunTiming × Nat),
      t ∈ (if bitSet edid addr x.2 then
          addVideoMode modes x.1.name x.1.width x.1.height x.1.frequency else modes).map
            Mode.triple ↔
        t ∈ modes.map Mode.triple ∨ ((x.1.name.isSome && bitSet edid addr x.2) = true ∧
          shorts x.1.width x.1.height x.1.frequency = t) := by
    rintro modes ⟨timing, bitOff⟩
    dsimp only
    cases hname : timing.name with
    | none => simp [addVideoMode]
    | some name =>
      split
      · rename_i hbit
        simp [mem_triples_addVideoMode, hbit, eq_comm]
      · rename_i hbit
        simp [hbit]
  have hfold := mem_triples_foldl (l := timings.zipIdx) hstep (m := modes)
  rw [bitTimings]
  simpa [addBits, and_assoc] using hfold

theorem mem_addEtimingModes :
    t ∈ (addEtimingModes edid modes).map Mode.triple ↔
      t ∈ modes.map Mode.triple ∨ t ∈ established edid := by
  rw [addEtimingModes, established]
  cases findDisplayDescriptor edid 0xF7 with
  | none => simp [mem_addBits]
  | some addr => simp [mem_addBits, or_assoc]

/-- The descriptors' Standard Timings are not decoded: their first byte is that of the block's
header. -/
theorem addStimingModes_eq :
    addStimingModes sunVideoTable modeList edid modes =
      (range' 0x26 8 2).foldl (addStiming sunVideoTable modeList edid) modes := by
  have hskip : ∀ modes addr, isStimingBlock edid addr = true →
      addStiming sunVideoTable modeList edid modes (addr + 1) = modes := by
    intro modes addr hblock
    have hzero : edid (addr + 1) = 0 := by
      simp only [isStimingBlock, Bool.and_eq_true, decide_eq_true_eq] at hblock
      exact hblock.1.1.1.2
    have hnone : decodeStiming (verRev edid) edid (addr + 1) = none := by
      rw [decodeStiming, hzero]
      rfl
    rw [addStiming, hnone]
  have hfold : ∀ (l : List Nat) modes, l.foldl (fun modes addr =>
      if isStimingBlock edid addr then
        (range' 5 6 2).foldl (fun modes _i =>
          addStiming sunVideoTable modeList edid modes (addr + 1)) modes
      else modes) modes = modes := by
    intro l
    induction l with
    | nil => exact fun _ => rfl
    | cons addr l ih =>
      intro modes
      rw [foldl_cons]
      split
      · rename_i hblock
        have hinner : ∀ (k : List Nat) modes, k.foldl (fun modes _i =>
            addStiming sunVideoTable modeList edid modes (addr + 1)) modes = modes := by
          intro k
          induction k with
          | nil => exact fun _ => rfl
          | cons i k ihk =>
            intro modes
            rw [foldl_cons, hskip modes addr hblock, ihk]
        rw [hinner, ih]
      · exact ih modes
  rw [addStimingModes, hfold]
  split <;> rfl

theorem mem_addStimingModes :
    t ∈ (addStimingModes sunVideoTable modeList edid modes).map Mode.triple ↔
      t ∈ modes.map Mode.triple ∨ t ∈ standard edid := by
  rw [addStimingModes_eq, standard, mem_filterMap]
  exact mem_triples_foldl fun _ _ => mem_addStiming

/-- From EDID 1.1 on, every Detailed Timing block is added. -/
theorem mem_addDtimingModes (hver : edid11 ≤ verRev edid) {addrs : List Nat} :
    t ∈ (addDtimingModes sunVideoTable modeList edid addrs modes).map Mode.triple ↔
      t ∈ modes.map Mode.triple ∨ t ∈ addrs.filterMap (dtimingAt edid) := by
  induction addrs generalizing modes with
  | nil => simp [addDtimingModes]
  | cons addr addrs ih =>
    rw [addDtimingModes]
    cases hdt : decodeDtiming edid addr with
    | none =>
      have hnone : dtimingAt edid addr = none := by rw [dtimingAt, hdt]; rfl
      simp only [ih, filterMap_cons, hnone]
    | some dt =>
      have hsome : dtimingAt edid addr =
          some (shorts dt.hactive dt.vactive (getDtimingFrequency dt)) := by
        rw [dtimingAt, hdt]
        rfl
      have hnot : ¬ verRev edid < edid11 := by omega
      simp only [hnot, if_false, ih, mem_triples_addVideoMode, filterMap_cons, hsome, mem_cons,
        or_assoc]

/-! ## The placeholder -/

/-- What stands first when there is no Detailed Timing. -/
def placeholder : Mode := ⟨"", shorts 0 0 0⟩

theorem addVideoMode_placeholder {modeName : Option String} {width height frequency : Int}
    (h : modeName ≠ none → shorts width height frequency ≠ shorts 0 0 0) :
    addVideoMode (placeholder :: modes) modeName width height frequency =
      placeholder :: addVideoMode modes modeName width height frequency := by
  cases modeName with
  | none => rfl
  | some name =>
    have hne : (⟨name, shorts width height frequency⟩ : Mode) ≠ placeholder := fun he =>
      h (by simp) (congrArg Mode.triple he)
    simp only [addVideoMode, mem_cons, hne, false_or]
    split <;> rfl

theorem foldl_placeholder {α : Type} {f : List Mode → α → List Mode} {l : List α}
    (hf : ∀ modes, ∀ x ∈ l, f (placeholder :: modes) x = placeholder :: f modes x) :
    l.foldl f (placeholder :: modes) = placeholder :: l.foldl f modes := by
  induction l generalizing modes with
  | nil => rfl
  | cons x l ih =>
    rw [foldl_cons, foldl_cons, hf modes x (by simp)]
    exact ih fun modes y hy => hf modes y (by simp [hy])

/-- A Standard Timing is at least 256 pixels wide. -/
theorem decodeStiming_ne {ver : Nat} {width height frequency : Int}
    (h : decodeStiming ver edid addr = some (width, height, frequency)) :
    shorts width height frequency ≠ shorts 0 0 0 := by
  have hbyte := (edid addr).toNat_lt
  obtain ⟨hlo, hhi⟩ : 256 ≤ width ∧ width < 2 ^ 15 := by
    rw [decodeStiming] at h
    dsimp only at h
    split at h
    · cases h
    · split at h
      · cases h
      · simp only [Option.some.injEq, Prod.mk.injEq] at h
        omega
  intro he
  have hw : Int16.ofInt width = Int16.ofInt 0 := congrArg Prod.fst he
  have htoInt := congrArg Int16.toInt hw
  rw [Int16.toInt_ofInt_of_le (by omega) hhi] at htoInt
  have hzero : (Int16.ofInt 0).toInt = 0 := by decide
  omega

theorem addStimingModes_placeholder :
    addStimingModes sunVideoTable modeList edid (placeholder :: modes) =
      placeholder :: addStimingModes sunVideoTable modeList edid modes := by
  rw [addStimingModes_eq, addStimingModes_eq]
  apply foldl_placeholder
  intro modes addr _
  rw [addStiming, addStiming]
  cases h : decodeStiming (verRev edid) edid addr with
  | none => rfl
  | some x => exact addVideoMode_placeholder fun _ => decodeStiming_ne h

theorem addBits_placeholder {timings : List SunTiming}
    (ht : ∀ t ∈ timings, t.name ≠ none → shorts t.width t.height t.frequency ≠ shorts 0 0 0) :
    addBits edid addr timings (placeholder :: modes) =
      placeholder :: addBits edid addr timings modes := by
  apply foldl_placeholder
  intro modes x hx
  obtain ⟨timing, bitOff⟩ := x
  dsimp only
  split
  · exact addVideoMode_placeholder (ht timing (fst_mem_of_mem_zipIdx hx))
  · rfl

theorem addEtimingModes_placeholder :
    addEtimingModes edid (placeholder :: modes) = placeholder :: addEtimingModes edid modes := by
  have h₁ : ∀ t ∈ estTimings, t.name ≠ none →
      shorts t.width t.height t.frequency ≠ shorts 0 0 0 := by
    decide
  have h₂ : ∀ t ∈ estTimingsIII, t.name ≠ none →
      shorts t.width t.height t.frequency ≠ shorts 0 0 0 := by
    decide
  rw [addEtimingModes, addEtimingModes, addBits_placeholder h₁]
  cases findDisplayDescriptor edid 0xF7 with
  | none => rfl
  | some addr => exact addBits_placeholder h₂

/-! ## The modes that are listed -/

/-- The list has the Detailed Timings, the eight Standard Timings and the Established Timings. -/
theorem mem_listed (hver : edid11 ≤ verRev edid) :
    t ∈ listed edid (videoModes sunVideoTable modeList edid) ↔
      t ∈ detailed edid ∨ t ∈ standard edid ∨ t ∈ established edid := by
  have hd : ∀ t, t ∈ (addDtimingModes sunVideoTable modeList edid dataBlocks []).map Mode.triple ↔
      t ∈ detailed edid := by
    intro t
    rw [mem_addDtimingModes hver]
    simp [detailed]
  rw [listed, videoModes]
  by_cases hnil : detailed edid = []
  · have hempty : addDtimingModes sunVideoTable modeList edid dataBlocks [] = [] := by
      rw [← map_eq_nil_iff (f := Mode.triple), eq_nil_iff_forall_not_mem]
      intro t ht
      rw [hd, hnil] at ht
      cases ht
    have hfirst : addVideoMode [] (some "") 0 0 0 = [placeholder] := rfl
    rw [if_pos hnil, if_pos hempty, hempty, hfirst, addStimingModes_placeholder,
      addEtimingModes_placeholder, tail_cons, mem_addEtimingModes, mem_addStimingModes, hnil]
    simp
  · have hempty : addDtimingModes sunVideoTable modeList edid dataBlocks [] ≠ [] := by
      intro he
      refine hnil (eq_nil_iff_forall_not_mem.2 fun t ht => ?_)
      rw [← hd, he] at ht
      cases ht
    rw [if_neg hnil, if_neg hempty, mem_addEtimingModes, mem_addStimingModes, hd, or_assoc]

/-- The timings of an EDID block. -/
def timings (edid : Data) : List Triple :=
  detailed edid ++ standard edid ++ descriptorStandard edid ++ established edid

/-- **The mode list is exact iff the descriptors' Standard Timings say nothing new**: each of them is
a Detailed Timing, one of the eight Standard Timings or an Established Timing too. -/
theorem videoModes_exact_iff (hver : edid11 ≤ verRev edid) :
    (∀ t, t ∈ listed edid (videoModes sunVideoTable modeList edid) ↔ t ∈ timings edid) ↔
      ∀ t ∈ descriptorStandard edid,
        t ∈ detailed edid ∨ t ∈ standard edid ∨ t ∈ established edid := by
  have hmem : ∀ t, t ∈ listed edid (videoModes sunVideoTable modeList edid) ↔
      t ∈ detailed edid ∨ t ∈ standard edid ∨ t ∈ established edid := fun _ => mem_listed hver
  constructor
  · intro h t ht
    rw [← hmem, h, timings]
    simp [ht]
  · intro h t
    rw [hmem, timings]
    simp only [mem_append]
    have ht := h t
    tauto

/-- EDID 1.3 with one descriptor, whose first Standard Timing is 1280x1024 at 60 Hz; `b0` and `b1`
are the first of the eight Standard Timings. -/
def sampleEdid (b0 b1 checksum : UInt8) : Data := fun i =>
  if 1 ≤ i ∧ i ≤ 6 then 0xFF
  else if i = 0x12 then 0x01
  else if i = 0x13 then 0x03
  else if i = 0x26 then b0
  else if i = 0x27 then b1
  else if i = 0x39 then 0xFA
  else if i = 0x3B then 0x81
  else if i = 0x3C then 0x80
  else if i = 0x7F then checksum
  else 0

/-- The descriptor's timing is one of the eight as well. -/
theorem videoModes_exact_repeated :
    edid11 ≤ verRev (sampleEdid 0x81 0x80 6) ∧
      ∀ t, t ∈ listed (sampleEdid 0x81 0x80 6) (videoModes [] [] (sampleEdid 0x81 0x80 6)) ↔
        t ∈ timings (sampleEdid 0x81 0x80 6) := by
  have hone : descriptorStandard (sampleEdid 0x81 0x80 6) = [shorts 1280 1024 60] := by
    decide +kernel
  refine ⟨by decide, (videoModes_exact_iff (by decide)).2 fun t ht => ?_⟩
  rw [hone, mem_singleton] at ht
  subst ht
  exact .inr (.inl (by decide +kernel))

/-- The descriptor's timing is nowhere else, and not listed. -/
theorem descriptor_timing_not_listed :
    edid11 ≤ verRev (sampleEdid 1 1 5) ∧
      ¬ ∀ t, t ∈ listed (sampleEdid 1 1 5) (videoModes [] [] (sampleEdid 1 1 5)) ↔
        t ∈ timings (sampleEdid 1 1 5) := by
  refine ⟨by decide, fun h => ?_⟩
  have hmem : shorts 1280 1024 60 ∈ timings (sampleEdid 1 1 5) := by decide +kernel
  rw [← h, mem_listed (by decide)] at hmem
  revert hmem
  decide +kernel

end Edid
