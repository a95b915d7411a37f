import SolarisXorg.Drm.I2c

/-!
# Bit-banged I2C: the lines carry the messages

`Low` and `High` describe the bus between two clock pulses and inside one: what the adapter drives,
what is left of the slave's script, and what a reader of the lines has got so far. Each line write
moves between them (`Low.setsda`, `Low.hiClock`, `High.clrscl_bit`, `High.clrscl_ack`), so a pulse
adds one bit to the reader (`Low.writeBit`, `Low.readBit`), a byte with its acknowledge adds one event
(`Low.putByte`, `Low.readByte`, `Low.ack`, `Low.noAck`), and a message its events (`Low.doMsg`). The
induction over the messages (`Low.doMsgs`) and the STOP give the transfer.
-/

namespace Drm

open Lib.I2c

/-! ## The reader of the lines -/

/-- The reader of what has been on the lines, which were at `l` at the beginning. -/
def I2cBus.dec (l : Levels) (b : I2cBus) : Dec := b.trace.foldl Dec.step (Dec.init l)

@[simp] theorem dec_record (l : Levels) (b : I2cBus) :
    b.record.dec l = (b.dec l).step b.levels := by
  simp only [I2cBus.dec, I2cBus.record, List.foldl_append, List.foldl_cons, List.foldl_nil]

/-- Between two clock pulses: `ps` is left of the slave, `bits` of a byte have been read and `evs`
before them. -/
structure Low (l : Levels) (ps : List Period) (bits : List Bool) (evs : List Event)
    (mem : Nat → BitVec 8) (b : I2cBus) : Prop where
  scl : b.scl = false
  slave : b.slave = ps
  last : (b.dec l).last.scl = false
  bits : (b.dec l).bits = bits
  events : (b.dec l).events = evs
  mem : b.mem = mem

/-- Inside the clock pulse of period `p`, with SDA at level `v`; `c` says whether a condition has
been. -/
structure High (l : Levels) (v c : Bool) (p : Period) (ps : List Period) (bits : List Bool)
    (evs : List Event) (mem : Nat → BitVec 8) (b : I2cBus) : Prop where
  scl : b.scl = true
  hold : p.hold = 0
  sda : (b.sda && p.sda) = v
  slave : b.slave = p :: ps
  dec : b.dec l = ⟨⟨true, v⟩, c, bits, evs⟩
  mem : b.mem = mem

variable {l : Levels} {ps : List Period} {p : Period} {bits : List Bool} {evs : List Event}
  {mem : Nat → BitVec 8} {b : I2cBus} {v c : Bool}

/-! ## Line writes -/

theorem Low.levels_scl (h : Low l ps bits evs mem b) : b.levels.scl = false := by
  simp only [I2cBus.levels, h.scl, Bool.false_and]

theorem High.levels (h : High l v c p ps bits evs mem b) : b.levels = ⟨true, v⟩ := by
  simp only [I2cBus.levels, I2cBus.now, h.scl, h.slave, List.headD_cons, h.hold, h.sda, BEq.rfl,
    Bool.and_self]

/-- SDA may change while the clock is low. -/
theorem Low.setsda (h : Low l ps bits evs mem b) (v : Bool) :
    Low l ps bits evs mem (b.setsda v) ∧ (b.setsda v).sda = v := by
  have hs : ({ b with sda := v } : I2cBus).levels.scl = false := by
    simp only [I2cBus.levels, h.scl, Bool.false_and]
  have hd : (b.setsda v).dec l = { b.dec l with last := ({ b with sda := v } : I2cBus).levels } := by
    rw [I2cBus.setsda, dec_record]
    exact Dec.step_low h.last hs
  refine ⟨⟨h.scl, h.slave, ?_, ?_, ?_, h.mem⟩, rfl⟩
  · rw [hd]
    exact hs
  · rw [hd]
    exact h.bits
  · rw [hd]
    exact h.events

/-- The clock goes high at once when the slave does not hold it. -/
theorem i2cSetscl_free (h : b.now.hold = 0) : i2cSetscl.run b = .ok true (b.setscl true) := by
  have hs : b.setscl true = I2cBus.record { b with scl := true } := by
    simp only [I2cBus.setscl, Bool.not_true, Bool.and_false, Bool.false_eq_true, if_false]
  have hn : (b.setscl true).now.hold = 0 := by
    rw [hs]
    exact h
  have hg : (b.setscl true).letGo = b.setscl true := by
    rw [I2cBus.letGo, if_pos hn]
  simp only [i2cSetscl, EStateM.run_bind, EStateM.run_modify, EStateM.run_get, hn, clockFreed,
    if_true, hg, EStateM.run_pure]

theorem Low.setscl (h : Low l (p :: ps) bits evs mem b) (hp : p.hold = 0) :
    ∃ b', i2cSetscl.run b = .ok true b' ∧
      High l (b.sda && p.sda) false p ps bits evs mem b' ∧ b'.sda = b.sda := by
  have hs : b.setscl true = I2cBus.record { b with scl := true } := by
    simp only [I2cBus.setscl, Bool.not_true, Bool.and_false, Bool.false_eq_true, if_false]
  have hl : ({ b with scl := true } : I2cBus).levels = ⟨true, b.sda && p.sda⟩ := by
    simp only [I2cBus.levels, I2cBus.now, h.slave, List.headD_cons, hp, BEq.rfl, Bool.and_self]
  have hd : (b.setscl true).dec l = ⟨⟨true, b.sda && p.sda⟩, false, bits, evs⟩ := by
    rw [hs, dec_record]
    show (b.dec l).step _ = _
    rw [hl, Dec.step_rise h.last rfl, h.bits, h.events]
  have hnow : b.now.hold = 0 := by
    simp only [I2cBus.now, h.slave, List.headD_cons, hp]
  refine ⟨b.setscl true, i2cSetscl_free hnow, ?_⟩
  rw [hs] at hd ⊢
  exact ⟨⟨rfl, hp, rfl, h.slave, hd, h.mem⟩, rfl⟩

theorem Low.hiClock (h : Low l (p :: ps) bits evs mem b) (hp : p.hold = 0) :
    ∃ b', i2cHiClock.run b = .ok () b' ∧ High l (b.sda && p.sda) false p ps bits evs mem b' := by
  obtain ⟨b', hr, hb', -⟩ := h.setscl hp
  refine ⟨b', ?_, hb'⟩
  simp only [i2cHiClock, EStateM.run_bind, hr, if_true, EStateM.run_pure]

/-- The end of a pulse: the reader takes `bits'` and `evs'` of it, and the slave moves on. -/
theorem High.clrscl {bits' : List Bool} {evs' : List Event} (h : High l v c p ps bits evs mem b)
    (hd : ∀ l' : Levels, l'.scl = false →
      (b.dec l).step l' = { last := l', cond := c, bits := bits', events := evs' }) :
    Low l ps bits' evs' mem (b.setscl false) := by
  set b1 : I2cBus := I2cBus.record { b with scl := false } with hb1
  have hs : b.setscl false = I2cBus.record { b1 with slave := b.slave.tail } := by
    simp only [I2cBus.setscl, h.levels, Bool.not_false, Bool.and_self, if_true, hb1]
  have h0 : ({ b with scl := false } : I2cBus).levels.scl = false := rfl
  have h1 : b1.dec l = ⟨({ b with scl := false } : I2cBus).levels, c, bits', evs'⟩ := by
    rw [hb1, dec_record]
    exact hd _ h0
  have h2 : ({ b1 with slave := b.slave.tail } : I2cBus).levels.scl = false := rfl
  have h3 : (b.setscl false).dec l =
      ⟨({ b1 with slave := b.slave.tail } : I2cBus).levels, c, bits', evs'⟩ := by
    rw [hs, dec_record]
    show (b1.dec l).step _ = _
    rw [h1]
    exact Dec.step_low h0 h2
  refine ⟨?_, ?_, ?_, ?_, ?_, ?_⟩
  · rw [hs]
    rfl
  · rw [hs]
    show b.slave.tail = ps
    rw [h.slave, List.tail_cons]
  · rw [h3]
    exact h2
  · rw [h3]
  · rw [h3]
  · rw [hs]
    exact h.mem

/-- One of the first eight pulses of a byte is over. -/
theorem High.clrscl_bit (h : High l v false p ps bits evs mem b) (hb : bits.length < 8) :
    Low l ps (bits ++ [v]) evs mem (b.setscl false) := by
  apply h.clrscl
  intro l' hl'
  rw [h.dec]
  exact Dec.step_fall_bit rfl hl' rfl hb

/-- The ninth pulse of a byte is over. -/
theorem High.clrscl_ack {x : BitVec 8} (h : High l v false p ps (bitsFrom x 8) evs mem b) :
    Low l ps [] (evs ++ [.byte x (!v)]) mem (b.setscl false) := by
  apply h.clrscl
  intro l' hl'
  rw [h.dec]
  exact Dec.step_fall_ack rfl hl' rfl rfl

/-- The pulse of a START is over. -/
theorem High.clrscl_cond (h : High l v true p ps bits evs mem b) :
    Low l ps bits evs mem (b.setscl false) := by
  apply h.clrscl
  intro l' hl'
  rw [h.dec]
  exact Dec.step_fall_cond rfl hl' rfl

/-- Between two bytes, a change of SDA under the high clock is a condition. -/
theorem High.setsda_cond (h : High l v c p ps [] evs mem b) (hp : p.sda = true) (w : Bool)
    (hv : v ≠ w) :
    High l w true p ps [] (evs ++ [if w then .stop else .start]) mem (b.setsda w) := by
  have hl : ({ b with sda := w } : I2cBus).levels = ⟨true, w⟩ := by
    simp only [I2cBus.levels, I2cBus.now, h.scl, h.slave, List.headD_cons, h.hold, hp, BEq.rfl,
      Bool.and_true]
  refine ⟨h.scl, h.hold, ?_, h.slave, ?_, h.mem⟩
  · show (w && p.sda) = w
    rw [hp, Bool.and_true]
  · rw [I2cBus.setsda, dec_record]
    show (b.dec l).step _ = _
    rw [hl, h.dec]
    exact Dec.step_condition rfl rfl hv rfl

/-- A write that leaves the line as it is says nothing. -/
theorem High.record (h : High l v c p ps bits evs mem b) :
    High l v c p ps bits evs mem b.record := by
  refine ⟨h.scl, h.hold, h.sda, h.slave, ?_, h.mem⟩
  rw [dec_record, h.levels, h.dec]
  exact Dec.step_same rfl rfl

/-! ## Guards -/

theorem Low.needLow (h : Low l ps bits evs mem b) : i2cNeedLow.run b = .ok () b := by
  simp only [i2cNeedLow, i2cGetscl, EStateM.run_bind, EStateM.run_get, EStateM.run_pure,
    h.levels_scl, Bool.false_eq_true, if_false]

theorem High.getsda (h : High l v c p ps bits evs mem b) : i2cGetsda.run b = .ok v b := by
  simp only [i2cGetsda, EStateM.run_bind, EStateM.run_get, EStateM.run_pure, h.levels]

theorem High.needSda (h : High l true c p ps bits evs mem b) : i2cNeedSda.run b = .ok () b := by
  simp only [i2cNeedSda, EStateM.run_bind, h.getsda, if_true, EStateM.run_pure]

/-! ## Conditions -/

/-- The last part of `i2cStart`: SDA falls under the high clock. -/
theorem High.start (h : High l true c released ps [] evs mem b) :
    ∃ b', (do i2cNeedSda; i2cClrsda; i2cClrscl : I2cM Unit).run b = .ok () b' ∧
      Low l ps [] (evs ++ [.start]) mem b' := by
  have h1 := h.setsda_cond rfl false (by decide)
  refine ⟨(b.setsda false).setscl false, ?_, h1.clrscl_cond⟩
  simp only [EStateM.run_bind, h.needSda, i2cClrsda, i2cClrscl, EStateM.run_modify]

theorem Low.start (h : Low l (released :: ps) [] evs mem b) :
    ∃ b', i2cStart.run b = .ok () b' ∧ Low l ps [] (evs ++ [.start]) mem b' := by
  obtain ⟨h1, hsda⟩ := h.setsda true
  obtain ⟨b2, hr, h2, -⟩ := h1.setscl rfl
  rw [hsda] at h2
  obtain ⟨b3, hr3, h3⟩ := h2.start
  refine ⟨b3, ?_, h3⟩
  simp only [i2cStart, i2cSetsda, EStateM.run_bind, EStateM.run_modify, hr, if_true]
  simpa only [EStateM.run_bind] using hr3

/-- On an idle bus the first two writes of `i2cStart` change nothing. -/
theorem High.start_idle (h : High l true c released ps [] evs mem b) (hsda : b.sda = true) :
    ∃ b', i2cStart.run b = .ok () b' ∧ Low l ps [] (evs ++ [.start]) mem b' := by
  have e1 : b.setsda true = b.record := by
    rw [I2cBus.setsda, ← hsda]
  have e2 : b.record.setscl true = b.record.record := by
    simp only [I2cBus.setscl, Bool.not_true, Bool.and_false, Bool.false_eq_true, if_false]
    rw [← h.record.scl]
  have hnow : b.record.now.hold = 0 := by
    simp only [I2cBus.now, h.record.slave, List.headD_cons, h.hold]
  have e3 : i2cSetscl.run b.record = .ok true b.record.record := by
    rw [i2cSetscl_free hnow, e2]
  obtain ⟨b3, hr3, h3⟩ := h.record.record.start
  refine ⟨b3, ?_, h3⟩
  simp only [i2cStart, i2cSetsda, EStateM.run_bind, EStateM.run_modify, e1, e3, if_true]
  simpa only [EStateM.run_bind] using hr3

theorem Low.stop (h : Low l (released :: ps) [] evs mem b) :
    ∃ b', i2cStop.run b = .ok () b' ∧
      High l true true released ps [] (evs ++ [.stop]) mem b' ∧ b'.sda = true := by
  obtain ⟨h1, hsda⟩ := h.setsda false
  obtain ⟨b2, hr, h2⟩ := h1.hiClock rfl
  rw [hsda] at h2
  have h3 := h2.setsda_cond rfl true (by decide)
  refine ⟨b2.setsda true, ?_, h3, rfl⟩
  simp only [i2cStop, EStateM.run_bind, h.needLow, i2cClrsda, i2cSetsda, EStateM.run_modify, hr,
    h3.needSda]

/-! ## Bytes -/

theorem Low.writeBit (h : Low l (released :: ps) bits evs mem b) (hb : bits.length < 8) (v : Bool) :
    ∃ b', (i2cWriteBit v).run b = .ok () b' ∧ Low l ps (bits ++ [v]) evs mem b' := by
  obtain ⟨h1, hsda⟩ := h.setsda v
  obtain ⟨b2, hr, h2⟩ := h1.hiClock rfl
  rw [hsda, released, Bool.and_true] at h2
  refine ⟨b2.setscl false, ?_, h2.clrscl_bit hb⟩
  cases v with
  | true =>
    simp only [i2cWriteBit, i2cSetsda, i2cClrscl, if_true, EStateM.run_bind, EStateM.run_modify, hr,
      h2.needSda]
  | false =>
    simp only [i2cWriteBit, i2cClrsda, i2cClrscl, Bool.false_eq_true, if_false, EStateM.run_bind,
      EStateM.run_modify, hr]

theorem Low.writeBits (x : BitVec 8) (i : Nat) :
    ∀ {bits : List Bool} {b : I2cBus},
      Low l (List.replicate i released ++ ps) bits evs mem b → bits.length + i = 8 →
      ∃ b', (i2cWriteBits x i).run b = .ok () b' ∧ Low l ps (bits ++ bitsFrom x i) evs mem b' := by
  induction i with
  | zero =>
    intro bits b h _
    exact ⟨b, rfl, by rwa [bitsFrom, List.append_nil]⟩
  | succ i ih =>
    intro bits b h hlen
    rw [List.replicate_succ, List.cons_append] at h
    obtain ⟨b1, hr1, h1⟩ := h.writeBit (by omega) (x.getLsbD i)
    obtain ⟨b2, hr2, h2⟩ := ih h1 (by rw [List.length_append, List.length_singleton]; omega)
    refine ⟨b2, ?_, ?_⟩
    · simp only [i2cWriteBits, EStateM.run_bind, hr1, hr2]
    · rwa [List.append_assoc, List.singleton_append] at h2

/-- A byte that is written and acknowledged. -/
theorem Low.putByte (h : Low l (listen ++ ps) [] evs mem b) (x : BitVec 8) :
    ∃ b', (i2cPutByte x).run b = .ok () b' ∧ Low l ps [] (evs ++ [.byte x true]) mem b' := by
  rw [listen, List.append_assoc] at h
  obtain ⟨b1, hr1, h1⟩ := Low.writeBits x 8 h rfl
  obtain ⟨h2, hsda⟩ := h1.setsda true
  obtain ⟨b3, hr3, h3⟩ := h2.hiClock rfl
  rw [hsda, Bool.and_false, List.nil_append] at h3
  refine ⟨b3.setscl false, ?_, h3.clrscl_ack⟩
  simp only [i2cPutByte, i2cWriteByte, i2cWaitAck, EStateM.run_bind, h.needLow, hr1, h1.needLow,
    i2cSetsda, i2cClrscl, EStateM.run_modify, hr3, h3.getsda, EStateM.run_pure, Bool.not_false,
    if_true]

@[simp] theorem setscl_sda (b : I2cBus) (v : Bool) : (b.setscl v).sda = b.sda := by
  unfold I2cBus.setscl
  split <;> rfl

/-- SDA stays let go while a byte is read. -/
theorem Low.readBit (h : Low l (⟨v, 0⟩ :: ps) bits evs mem b) (hsda : b.sda = true)
    (hb : bits.length < 8) :
    ∃ b', i2cReadBit.run b = .ok v b' ∧ Low l ps (bits ++ [v]) evs mem b' ∧ b'.sda = true := by
  obtain ⟨b2, hr, h2, h2sda⟩ := h.setscl rfl
  rw [hsda, Bool.true_and] at h2
  have hc : i2cHiClock.run b = .ok () b2 := by
    simp only [i2cHiClock, EStateM.run_bind, hr, if_true, EStateM.run_pure]
  refine ⟨b2.setscl false, ?_, h2.clrscl_bit hb, ?_⟩
  · simp only [i2cReadBit, i2cClrscl, EStateM.run_bind, hc, h2.getsda, if_true, EStateM.run_modify,
      EStateM.run_pure]
  · rw [setscl_sda, h2sda, hsda]

/-- What the loop of `i2c_read_byte` makes of the low bits of `x`. -/
def gather (x : BitVec 8) (cp : BitVec 8) : Nat → BitVec 8
  | 0 => cp
  | i + 1 => gather x (if x.getLsbD i then cp ||| 1#8 <<< i else cp) i

theorem gather_eight (x : BitVec 8) : gather x 0 8 = x := by
  revert x
  decide

theorem Low.readBits (x : BitVec 8) (i : Nat) :
    ∀ (cp : BitVec 8) {bits : List Bool} {b : I2cBus},
      Low l (((bitsFrom x i).map fun v => ⟨v, 0⟩) ++ ps) bits evs mem b → b.sda = true →
      bits.length + i = 8 →
      ∃ b', (i2cReadBits cp i).run b = .ok (gather x cp i) b' ∧
        Low l ps (bits ++ bitsFrom x i) evs mem b' := by
  induction i with
  | zero =>
    intro cp bits b h _ _
    exact ⟨b, rfl, by rwa [bitsFrom, List.append_nil]⟩
  | succ i ih =>
    intro cp bits b h hsda hlen
    rw [bitsFrom, List.map_cons, List.cons_append] at h
    obtain ⟨b1, hr1, h1, h1sda⟩ := h.readBit hsda (by omega)
    obtain ⟨b2, hr2, h2⟩ := ih (if x.getLsbD i then cp ||| 1#8 <<< i else cp) h1 h1sda
      (by rw [List.length_append, List.length_singleton]; omega)
    refine ⟨b2, ?_, ?_⟩
    · simp only [i2cReadBits, EStateM.run_bind, hr1, hr2, gather]
    · rwa [List.append_assoc, List.singleton_append] at h2

theorem Low.readByte {x : BitVec 8} (h : Low l (supply x ++ ps) [] evs mem b) :
    ∃ b', i2cReadByte.run b = .ok x b' ∧ Low l (released :: ps) (bitsFrom x 8) evs mem b' := by
  rw [supply, List.append_assoc] at h
  obtain ⟨h1, hsda⟩ := h.setsda true
  obtain ⟨b2, hr2, h2⟩ := Low.readBits x 8 0 h1 hsda rfl
  refine ⟨b2, ?_, h2⟩
  simp only [i2cReadByte, EStateM.run_bind, h.needLow, i2cSetsda, EStateM.run_modify, hr2,
    gather_eight]

theorem Low.ack {x : BitVec 8} (h : Low l (released :: ps) (bitsFrom x 8) evs mem b) :
    ∃ b', i2cAck.run b = .ok () b' ∧ Low l ps [] (evs ++ [.byte x true]) mem b' := by
  obtain ⟨h1, hsda⟩ := h.setsda false
  obtain ⟨b2, hr, h2⟩ := h1.hiClock rfl
  rw [hsda] at h2
  refine ⟨b2.setscl false, ?_, h2.clrscl_ack⟩
  simp only [i2cAck, EStateM.run_bind, h.needLow, i2cClrsda, i2cClrscl, EStateM.run_modify, hr]

theorem Low.noAck {x : BitVec 8} (h : Low l (released :: ps) (bitsFrom x 8) evs mem b) :
    ∃ b', i2cNoAck.run b = .ok () b' ∧ Low l ps [] (evs ++ [.byte x false]) mem b' := by
  obtain ⟨h1, hsda⟩ := h.setsda true
  obtain ⟨b2, hr, h2⟩ := h1.hiClock rfl
  rw [hsda] at h2
  refine ⟨b2.setscl false, ?_, h2.clrscl_ack⟩
  simp only [i2cNoAck, EStateM.run_bind, h.needLow, i2cSetsda, i2cClrscl, EStateM.run_modify, hr,
    h2.needSda]

/-! ## Messages -/

theorem Low.store (h : Low l ps bits evs mem b) (a : Nat) (x : BitVec 8) :
    Low l ps bits evs (Function.update mem a x) (b.store a x) :=
  ⟨h.scl, h.slave, h.last, h.bits, h.events, by rw [← h.mem]; rfl⟩

/-- The loop of `i2c_write_msg`. -/
theorem Low.writeFrom {m : I2cMsg} (n : Nat) :
    ∀ {i : Nat} {evs : List Event} {b : I2cBus},
      Low l (((List.range' i n).flatMap fun _ => listen) ++ ps) [] evs mem b →
      ∃ b', (i2cWriteFrom m i n).run b = .ok () b' ∧
        Low l ps [] (evs ++ (List.range' i n).map fun j => .byte (mem (m.buf + j)) true) mem b' := by
  induction n with
  | zero =>
    intro i evs b h
    exact ⟨b, rfl, by simpa using h⟩
  | succ n ih =>
    intro i evs b h
    rw [List.range'_succ, List.flatMap_cons, List.append_assoc] at h
    obtain ⟨b1, hr1, h1⟩ := h.putByte (b.mem (m.buf + i))
    obtain ⟨b2, hr2, h2⟩ := ih h1
    refine ⟨b2, ?_, ?_⟩
    · simp only [i2cWriteFrom, EStateM.run_bind, EStateM.run_get, hr1, hr2]
    · rw [h.mem, List.append_assoc] at h2
      rwa [List.range'_succ, List.map_cons]

/-- Bytes `i` to `i + n` of a buffer hold what the slave has supplied. -/
def filled (m : I2cMsg) (d mem : Nat → BitVec 8) (i n : Nat) : Nat → BitVec 8 :=
  fun a => if m.buf + i ≤ a ∧ a < m.buf + i + n then d (a - m.buf) else mem a

theorem filled_zero (m : I2cMsg) (d mem : Nat → BitVec 8) (i : Nat) : filled m d mem i 0 = mem := by
  funext a
  rw [filled, if_neg (by omega)]

theorem filled_update (m : I2cMsg) (d mem : Nat → BitVec 8) (i n : Nat) :
    filled m d (Function.update mem (m.buf + i) (d i)) (i + 1) n = filled m d mem i (n + 1) := by
  funext a
  unfold filled
  by_cases ha : a = m.buf + i
  · subst ha
    rw [if_neg (by omega), if_pos (by omega), Function.update_self, Nat.add_sub_cancel_left]
  · rw [Function.update_of_ne ha]
    exact if_congr (by omega) rfl rfl

/-- The loop of `i2c_read_msg`. -/
theorem Low.readFrom {m : I2cMsg} {d : Nat → BitVec 8} (n : Nat) :
    ∀ {i : Nat} {evs : List Event} {mem : Nat → BitVec 8} {b : I2cBus},
      Low l (((List.range' i n).flatMap fun j => supply (d j)) ++ ps) [] evs mem b →
      ∃ b', (i2cReadFrom m i n).run b = .ok () b' ∧
        Low l ps [] (evs ++ (List.range' i n).map fun j => .byte (d j) (j + 1 < m.len.toNat))
          (filled m d mem i n) b' := by
  induction n with
  | zero =>
    intro i evs mem b h
    exact ⟨b, rfl, by simpa [filled_zero] using h⟩
  | succ n ih =>
    intro i evs mem b h
    rw [List.range'_succ, List.flatMap_cons, List.append_assoc] at h
    obtain ⟨b1, hr1, h1⟩ := h.readByte
    have h2 := h1.store (m.buf + i) (d i)
    obtain ⟨b3, hr3, h3⟩ : ∃ b3,
        (i2cReadAck m i).run (b1.store (m.buf + i) (d i)) = .ok () b3 ∧
        Low l (((List.range' (i + 1) n).flatMap fun j => supply (d j)) ++ ps) []
          (evs ++ [.byte (d i) (i + 1 < m.len.toNat)])
          (Function.update mem (m.buf + i) (d i)) b3 := by
      by_cases hi : i + 1 < m.len.toNat
      · rw [i2cReadAck, if_pos hi, decide_eq_true hi]
        exact h2.ack
      · rw [i2cReadAck, if_neg hi, decide_eq_false hi]
        exact h2.noAck
    obtain ⟨b4, hr4, h4⟩ := ih h3
    refine ⟨b4, ?_, ?_⟩
    · simp only [i2cReadFrom, EStateM.run_bind, hr1, EStateM.run_modify, hr3, hr4]
    · rw [filled_update, List.append_assoc] at h4
      rwa [List.range'_succ, List.map_cons]

/-- The data of a message. -/
theorem Low.msgData {m : I2cMsg} {d : Nat → BitVec 8}
    (h : Low l (((List.range m.len.toNat).flatMap fun j => if m.rd then supply (d j) else listen) ++ ps)
      [] evs mem b) :
    ∃ b', (if m.rd then i2cReadMsg m else i2cWriteMsg m).run b = .ok () b' ∧
      Low l ps [] (evs ++ dataEvents m d mem) (msgMem m d mem) b' := by
  rw [List.range_eq_range'] at h
  cases hrd : m.rd with
  | true =>
    simp only [hrd, if_true] at h
    obtain ⟨b', hr, h'⟩ := h.readFrom (m := m)
    refine ⟨b', by simpa only [if_true, i2cReadMsg] using hr, ?_⟩
    have hm : msgMem m d mem = filled m d mem 0 m.len.toNat := by
      funext a
      simp only [msgMem, filled, hrd, Nat.add_zero, true_and]
    rw [hm, dataEvents, hrd, if_pos rfl, List.range_eq_range']
    exact h'
  | false =>
    simp only [hrd, Bool.false_eq_true, if_false] at h
    obtain ⟨b', hr, h'⟩ := h.writeFrom (m := m)
    refine ⟨b', by simpa only [Bool.false_eq_true, if_false, i2cWriteMsg] using hr, ?_⟩
    have hm : msgMem m d mem = mem := by
      funext a
      simp only [msgMem, hrd, Bool.false_eq_true, false_and, if_false]
    rw [hm, dataEvents, hrd, if_neg Bool.false_ne_true, List.range_eq_range']
    exact h'

theorem Low.openMsg {m : I2cMsg} {i : Nat}
    (h : Low l ((if Started i m then released :: listen else []) ++ ps) [] evs mem b) :
    ∃ b', (i2cOpenMsg i m).run b = .ok () b' ∧
      Low l ps [] (evs ++ if Started i m then [.start, .byte m.addrByte true] else []) mem b' := by
  by_cases hs : i ≠ 0 ∧ m.nostart = true
  · have hst : Started i m = false := by simp [Started, hs.1, hs.2]
    rw [hst, if_neg Bool.false_ne_true, List.nil_append] at h
    refine ⟨b, by rw [i2cOpenMsg, if_pos hs]; rfl, ?_⟩
    rwa [hst, if_neg Bool.false_ne_true, List.append_nil]
  · have hst : Started i m = true := by
      rw [Started, Bool.or_eq_true, decide_eq_true_eq, Bool.not_eq_true', ← Bool.not_eq_true]
      tauto
    rw [hst, if_pos rfl, List.cons_append] at h
    obtain ⟨b1, hr1, h1⟩ := h.start
    obtain ⟨b2, hr2, h2⟩ := h1.putByte m.addrByte
    refine ⟨b2, ?_, ?_⟩
    · rw [i2cOpenMsg, if_neg hs]
      simp only [i2cAddress, EStateM.run_bind, hr1, hr2]
    · rw [List.append_assoc, List.singleton_append] at h2
      rwa [hst, if_pos rfl]

theorem Low.doMsg {m : I2cMsg} {d : Nat → BitVec 8} {i : Nat}
    (h : Low l (idealMsg i m d ++ ps) [] evs mem b) :
    ∃ b', (i2cDoMsg i m).run b = .ok () b' ∧
      Low l ps [] (evs ++ msgEvents i m d mem) (msgMem m d mem) b' := by
  rw [idealMsg, List.append_assoc] at h
  obtain ⟨b1, hr1, h1⟩ := h.openMsg
  obtain ⟨b2, hr2, h2⟩ := h1.msgData
  refine ⟨b2, ?_, ?_⟩
  · simp only [i2cDoMsg, EStateM.run_bind, hr1, hr2]
  · rwa [msgEvents, ← List.append_assoc]

/-- The messages from number `i` on, and the STOP. -/
theorem Low.doMsgs {msgs : List I2cMsg} :
    ∀ {i : Nat} {d mem : Nat → BitVec 8} {evs : List Event} {b : I2cBus},
      Low l (idealSlave i msgs d ++ ps) [] evs mem b →
      ∃ b', (do i2cDoMsgs i msgs; i2cStop : I2cM Unit).run b = .ok () b' ∧
        High l true true released ps [] (evs ++ transferEvents i msgs d mem)
          (transferMem msgs d mem) b' := by
  induction msgs with
  | nil =>
    intro i d mem evs b h
    obtain ⟨b1, hr1, h1, -⟩ := Low.stop h
    refine ⟨b1, ?_, h1⟩
    simp only [i2cDoMsgs, EStateM.run_bind, EStateM.run_pure, hr1]
  | cons m ms ih =>
    intro i d mem evs b h
    rw [idealSlave, List.append_assoc] at h
    obtain ⟨b1, hr1, h1⟩ := h.doMsg
    obtain ⟨b2, hr2, h2⟩ := ih h1
    refine ⟨b2, ?_, ?_⟩
    · rw [EStateM.run_bind] at hr2 ⊢
      simp only [i2cDoMsgs, EStateM.run_bind, hr1]
      exact hr2
    · rwa [transferEvents, transferMem, ← List.append_assoc]

/-! ## Transfers -/

/-- The first START of a transfer, on a bus that is idle or whose clock an earlier transfer has left
low. -/
theorem start_first (ht : b.trace = []) (hs : b.slave = released :: ps)
    (hidle : b.scl = true → b.sda = true) :
    ∃ b', i2cStart.run b = .ok () b' ∧ Low b.levels ps [] [.start] b.mem b' := by
  have hd : b.dec b.levels = Dec.init b.levels := by
    rw [I2cBus.dec, ht, List.foldl_nil]
  cases hscl : b.scl with
  | false =>
    have hlow : Low b.levels (released :: ps) [] [] b.mem b := by
      refine ⟨hscl, hs, ?_, ?_, ?_, rfl⟩
      · rw [hd]
        simp only [Dec.init, I2cBus.levels, hscl, Bool.false_and]
      · rw [hd]
        rfl
      · rw [hd]
        rfl
    exact hlow.start
  | true =>
    have hsda := hidle hscl
    have hhigh : High b.levels true false released ps [] [] b.mem b := by
      refine ⟨hscl, rfl, ?_, hs, ?_, rfl⟩
      · rw [hsda]
        rfl
      · rw [hd]
        simp only [Dec.init, I2cBus.levels, I2cBus.now, hs, hscl, hsda, List.headD_cons]
        rfl
    exact hhigh.start_idle hsda

theorem glitch_notMem_transferEvents (msgs : List I2cMsg) :
    ∀ (i : Nat) (d mem : Nat → BitVec 8), Event.glitch ∉ transferEvents i msgs d mem := by
  induction msgs with
  | nil => intro i d mem; simp [transferEvents]
  | cons m ms ih =>
    intro i d mem
    rw [transferEvents, List.mem_append]
    intro hg
    rcases hg with hg | hg
    · simp only [msgEvents, dataEvents, List.mem_append] at hg
      rcases hg with hg | hg
      · split at hg <;> simp at hg
      · split at hg <;> simp at hg
    · exact ih _ _ _ hg

/-- **A transfer on the lines is its messages**: with an ideal slave, what a reader of the lines gets
is for each started message a START and its address, its data bytes, and one STOP at the end; no
change of SDA under a high clock falls inside a byte, the buffers hold what the slave has supplied,
and the number of messages is returned. -/
theorem transfer_refines_messages {b : I2cBus} {msgs : List I2cMsg} {d : Nat → BitVec 8}
    {rest : List Period} (hne : msgs ≠ []) (ht : b.trace = [])
    (hs : b.slave = idealSlave 0 msgs d ++ rest) (hidle : b.scl = true → b.sda = true) :
    ∃ b', (i2cDoTransfer msgs).run b = .ok msgs.length b' ∧
      decode b.levels b'.trace = transferEvents 0 msgs d b.mem ∧
      Event.glitch ∉ decode b.levels b'.trace ∧
      b'.mem = transferMem msgs d b.mem ∧ b'.levels = ⟨true, true⟩ := by
  obtain ⟨m, ms, rfl⟩ : ∃ m ms, msgs = m :: ms := List.exists_cons_of_ne_nil hne
  have hst : Started 0 m = true := rfl
  rw [idealSlave, idealMsg, hst, if_pos rfl, List.append_assoc, List.append_assoc,
    List.cons_append] at hs
  obtain ⟨b1, hr1, h1⟩ := start_first ht hs hidle
  obtain ⟨b2, hr2, h2⟩ := h1.putByte m.addrByte
  obtain ⟨b3, hr3, h3⟩ := h2.msgData
  obtain ⟨b4, hr4, h4⟩ := h3.doMsgs
  have hopen : (i2cOpenMsg 0 m).run b = .ok () b2 := by
    rw [i2cOpenMsg, if_neg (by simp)]
    simp only [i2cAddress, EStateM.run_bind, hr1, hr2]
  have hev : decode b.levels b4.trace = transferEvents 0 (m :: ms) d b.mem := by
    show (b4.dec b.levels).events = _
    rw [h4.dec, transferEvents, msgEvents, hst, if_pos rfl]
    simp only [List.cons_append, List.nil_append]
  refine ⟨b4, ?_, hev, ?_, h4.mem, h4.levels⟩
  · have hall : (do i2cDoMsgs 0 (m :: ms); i2cStop : I2cM Unit).run b = .ok () b4 := by
      simpa only [i2cDoMsgs, i2cDoMsg, EStateM.run_bind, hopen, hr3] using hr4
    have hassoc : i2cDoTransfer (m :: ms) =
        (do i2cDoMsgs 0 (m :: ms); i2cStop : I2cM Unit) >>= fun _ => pure (m :: ms).length := by
      rw [bind_assoc]
      rfl
    rw [hassoc, EStateM.run_bind, hall]
    rfl
  · rw [hev]
    exact glitch_notMem_transferEvents _ _ _ _

/-- Two bytes are read on a bus that a failed transfer has left with the clock low. -/
theorem transfer_refines_messages_read :
    ∃ b', (i2cDoTransfer [⟨0x50, 1, 2, 8⟩]).run
        ⟨false, false, 5, idealSlave 0 [⟨0x50, 1, 2, 8⟩] (fun n => BitVec.ofNat 8 (3 + n)), [],
          fun _ => 0⟩ = .ok 1 b' ∧
      decode ⟨false, false⟩ b'.trace =
        [.start, .byte 0xa1 true, .byte 3 true, .byte 4 false, .stop] := by
  have h := @transfer_refines_messages
    ⟨false, false, 5, idealSlave 0 [⟨0x50, 1, 2, 8⟩] (fun n => BitVec.ofNat 8 (3 + n)), [],
      fun _ => 0⟩ [⟨0x50, 1, 2, 8⟩] (fun n => BitVec.ofNat 8 (3 + n)) []
    (List.cons_ne_nil _ _) rfl (List.append_nil _).symm Bool.noConfusion
  obtain ⟨b', hr, hd, -⟩ := h
  exact ⟨b', hr, hd⟩

/-- Without a message the clock is still high when the STOP is due, and `i2cStop` refuses. -/
theorem transfer_of_none_fails :
    ¬ ∀ (b : I2cBus) (msgs : List I2cMsg) (d : Nat → BitVec 8), b.trace = [] →
      b.slave = idealSlave 0 msgs d → b.levels = ⟨true, true⟩ →
      ∃ b', (i2cDoTransfer msgs).run b = .ok msgs.length b' ∧
        decode b.levels b'.trace = transferEvents 0 msgs d b.mem := by
  intro h
  obtain ⟨b', hr, -⟩ := h ⟨true, true, 0, [released], [], fun _ => 0⟩ [] (fun _ => 0) rfl rfl rfl
  cases hr

end Drm
