import SolarisXorg.Drm.I2cFault
import SolarisXorg.Lib.Sim

/-!
# The lines after a transfer that fails

`Between t b x`: the master keeps the clock low, and the bus `b` has the script and the memory of `x`.
From there every routine of the adapter follows its walk over the script (`Lib.Sim`): a period of the
clock is `clock_sim`, and the bits, the bytes and the messages are put together from it. A routine
fails as its walk does, and `Left` says how it leaves the lines: a clock that is held and a data line
that is kept leave both released, since `I2C_HI_CLOCK` lets go of SDA and the others fail under the
high clock; an acknowledge that does not come leaves the clock low, since `i2c_wait_ack` frees it
before anyone looks at the answer. `i2cDoTransfer_sim` is the simulation of the whole transfer.
-/

namespace Drm

open Lib

variable {t : Nat} {b : I2cBus} {x : I2cScript} {v w : Bool} {α : Type}
  {Q : I2cBus → I2cScript → Prop}

/-! ## A period of the clock -/

/-- The bus has the script and the memory of `x`. -/
structure Follows (t : Nat) (b : I2cBus) (x : I2cScript) : Prop where
  timeout : b.timeout = t
  slave : b.slave = x.periods
  mem : b.mem = x.mem

/-- Between two pulses of the clock. -/
structure Between (t : Nat) (b : I2cBus) (x : I2cScript) : Prop extends Follows t b x where
  scl : b.scl = false

/-- Between two pulses, with SDA driven as `v` says. -/
structure Driving (t : Nat) (v : Bool) (b : I2cBus) (x : I2cScript) : Prop
    extends Between t b x where
  sda : b.sda = v

/-- How a failure leaves the lines: released, unless it was an acknowledge that did not come. -/
def Left (b : I2cBus) (f : I2cFault) : Prop := (b.scl = true ∧ b.sda = true) ↔ f ≠ .nak

theorem Left.released {f : I2cFault} (hscl : b.scl = true) (hsda : b.sda = true) (hf : f ≠ .nak) :
    Left b f := iff_of_true ⟨hscl, hsda⟩ hf

theorem setscl_true (b : I2cBus) : b.setscl true = I2cBus.record { b with scl := true } := by
  simp only [I2cBus.setscl, Bool.not_true, Bool.and_false, Bool.false_eq_true, if_false]

/-- The bus in the pulse that has begun, when the slave has let go of the clock. -/
def I2cBus.pulse (b : I2cBus) : I2cBus := (b.setscl true).letGo

/-- What is the same in the pulse, and what is on the lines. -/
theorem pulse_spec (b : I2cBus) :
    b.pulse.scl = true ∧ b.pulse.sda = b.sda ∧ b.pulse.timeout = b.timeout ∧
      b.pulse.mem = b.mem ∧ b.pulse.slave.tail = b.slave.tail ∧
      b.pulse.now = ⟨b.now.sda, 0⟩ := by
  have hnow : (b.setscl true).now = b.now := by
    rw [setscl_true]
    rfl
  unfold I2cBus.pulse I2cBus.letGo
  split
  case isTrue h0 =>
    rw [hnow] at h0
    rw [setscl_true]
    refine ⟨rfl, rfl, rfl, rfl, rfl, ?_⟩
    show b.now = _
    rw [← h0]
  case isFalse =>
    rw [setscl_true]
    exact ⟨rfl, rfl, rfl, rfl, rfl, rfl⟩

/-- Inside a pulse in which the slave lets SDA have the level `w`. -/
structure Within (t : Nat) (v w : Bool) (b : I2cBus) (x : I2cScript) : Prop where
  scl : b.scl = true
  sda : b.sda = v
  now : b.now = ⟨w, 0⟩
  timeout : b.timeout = t
  tail : b.slave.tail = x.periods.tail
  mem : b.mem = x.mem

theorem Follows.pulse (h : Follows t b x) : Within t b.sda b.now.sda b.pulse x := by
  obtain ⟨hscl, hsda, htime, hmem, htail, hnow⟩ := pulse_spec b
  exact ⟨hscl, hsda, hnow, htime.trans h.timeout, htail.trans (by rw [h.slave]), hmem.trans h.mem⟩

theorem Within.setsda (h : Within t v w b x) (u : Bool) : Within t u w (b.setsda u) x :=
  ⟨h.scl, rfl, h.now, h.timeout, h.tail, h.mem⟩

/-- The end of a pulse. -/
theorem Within.fall (h : Within t v w b x) :
    Driving t v (b.setscl false) { x with periods := x.periods.tail } := by
  have hlev : b.levels.scl = true := by
    simp only [I2cBus.levels, h.scl, h.now, BEq.rfl, Bool.and_self]
  have hset : b.setscl false =
      I2cBus.record { I2cBus.record { b with scl := false } with slave := b.slave.tail } := by
    simp only [I2cBus.setscl, hlev, Bool.not_false, Bool.and_self, if_true]
  rw [hset]
  exact ⟨⟨⟨h.timeout, h.tail, h.mem⟩, rfl⟩, h.sda⟩

theorem Within.getsda (h : Within t v w b x) : i2cGetsda.run b = .ok (v && w) b := by
  simp only [i2cGetsda, EStateM.run_bind, EStateM.run_get, EStateM.run_pure, I2cBus.levels, h.sda,
    h.now]

theorem Within.needSda (h : Within t v w b x) :
    i2cNeedSda.run b = if (v && w) = true then .ok () b else .error .ebusy b := by
  simp only [i2cNeedSda, EStateM.run_bind, h.getsda]
  split <;> rfl

theorem Follows.setsda (h : Follows t b x) (v : Bool) : Follows t (b.setsda v) x :=
  ⟨h.timeout, h.slave, h.mem⟩

theorem Between.setsda (h : Between t b x) (v : Bool) : Driving t v (b.setsda v) x :=
  ⟨⟨h.toFollows.setsda v, h.scl⟩, rfl⟩

theorem Follows.now (h : Follows t b x) : b.now = x.periods.headD released := by
  rw [I2cBus.now, h.slave]

theorem i2cSetscl_run (b : I2cBus) :
    i2cSetscl.run b =
      if clockFreed b.timeout 0 b.now.hold then .ok true b.pulse else .ok false (b.setscl true) := by
  have hsame : (b.setscl true).timeout = b.timeout ∧ (b.setscl true).now = b.now := by
    rw [setscl_true]
    exact ⟨rfl, rfl⟩
  simp only [i2cSetscl, EStateM.run_bind, EStateM.run_modify, EStateM.run_get, hsame]
  split <;> rfl

theorem i2cHiClock_run (b : I2cBus) :
    i2cHiClock.run b =
      if clockFreed b.timeout 0 b.now.hold then .ok () b.pulse
      else .error .etimedout ((b.setscl true).setsda true) := by
  simp only [i2cHiClock, EStateM.run_bind, i2cSetscl_run]
  by_cases hfree : clockFreed b.timeout 0 b.now.hold = true
  · simp only [if_pos hfree]
    rfl
  · simp only [if_neg hfree]
    rfl

theorem walkPeriod_run (fault : Bool → Option I2cFault) (x : I2cScript) :
    (walkPeriod t fault).run x =
      if clockFreed t 0 (x.periods.headD released).hold then
        match fault (x.periods.headD released).sda with
        | some f => .error f x
        | none => .ok (x.periods.headD released).sda { x with periods := x.periods.tail }
      else .error .stretched x := rfl

/-- A period of the clock: `k` is what a routine does under the high clock and after it. -/
theorem clock_sim {k : I2cM α} {fault : Bool → Option I2cFault} {g : Bool → α}
    (hok : ∀ c x w, Within t v w c x → fault w = none →
      ∃ c', k.run c = .ok (g w) c' ∧ Q c' { x with periods := x.periods.tail })
    (hbad : ∀ c x w f, Within t v w c x → fault w = some f →
      ∃ e c', k.run c = .error e c' ∧ Left c' f) :
    Sim (Driving t v) Q Left (do i2cHiClock; k)
      (walkPeriod t fault >>= fun r => pure (g r)) := by
  intro b x h
  have hin := h.toFollows.pulse
  rw [h.sda] at hin
  simp only [EStateM.run_bind, i2cHiClock_run, walkPeriod_run, ← h.toFollows.now, h.timeout]
  by_cases hfree : clockFreed t 0 b.now.hold = true
  · simp only [if_pos hfree]
    cases hf : fault b.now.sda with
    | none =>
      obtain ⟨c', hk, hc'⟩ := hok _ x _ hin hf
      simp only [hk, EStateM.run_pure]
      exact .ok hc'
    | some f =>
      obtain ⟨e, c', hk, hc'⟩ := hbad _ x _ f hin hf
      simp only [hk]
      exact .error hc'
  · simp only [if_neg hfree]
    refine .error (.released ?_ rfl (by simp))
    rw [setscl_true]
    rfl

/-! ## Guards and writes before a pulse -/

theorem needLow_sim {k : I2cM α} {w : I2cWalk α} (h : Sim (Between t) Q Left k w) :
    Sim (Between t) Q Left (do i2cNeedLow; k) w := by
  intro b x hb
  have hlow : i2cNeedLow.run b = .ok () b := by
    simp only [i2cNeedLow, i2cGetscl, EStateM.run_bind, EStateM.run_get, EStateM.run_pure,
      I2cBus.levels, hb.scl, Bool.false_and, Bool.false_eq_true, if_false]
  rw [EStateM.run_bind, hlow]
  exact h b x hb

theorem setsda_sim {k : I2cM α} {w : I2cWalk α} (h : Sim (Driving t true) Q Left k w) :
    Sim (Between t) Q Left (do i2cSetsda; k) w :=
  fun b x hb => h (b.setsda true) x (hb.setsda true)

theorem clrsda_sim {k : I2cM α} {w : I2cWalk α} (h : Sim (Driving t false) Q Left k w) :
    Sim (Between t) Q Left (do i2cClrsda; k) w :=
  fun b x hb => h (b.setsda false) x (hb.setsda false)

/-- The pulse of a high SDA is checked twice. -/
theorem high_sim :
    Sim (Driving t true) (Between t) Left (do i2cHiClock; i2cNeedSda; i2cNeedSda; i2cClrscl)
      (walkBit t true) := by
  refine clock_sim (fun c x w hc hw => ?_) (fun c x w f hc hw => ?_)
  · have hhigh : w = true := by
      cases w
      · cases hw
      · rfl
    subst hhigh
    refine ⟨c.setscl false, ?_, hc.fall.toBetween⟩
    simp only [EStateM.run_bind, hc.needSda, Bool.and_self, if_true, i2cClrscl, EStateM.run_modify]
  · have hlow : w = false ∧ f = .kept := by
      cases w
      · exact ⟨rfl, (Option.some.inj hw).symm⟩
      · cases hw
    obtain ⟨rfl, rfl⟩ := hlow
    refine ⟨.ebusy, c, ?_, .released hc.scl hc.sda (by simp)⟩
    simp only [EStateM.run_bind, hc.needSda, Bool.and_false, Bool.false_eq_true, if_false]

/-- The pulse of a low SDA. -/
theorem low_sim :
    Sim (Driving t false) (Between t) Left (do i2cHiClock; i2cClrscl) (walkBit t false) := by
  refine clock_sim (fun c x w hc hw => ?_) (fun c x w f hc hw => by cases hw)
  exact ⟨c.setscl false, rfl, hc.fall.toBetween⟩

/-! ## Bits and bytes -/

theorem writeBit_sim (v : Bool) :
    Sim (Between t) (Between t) Left (i2cWriteBit v) (walkBit t v) := by
  cases v with
  | true => exact setsda_sim high_sim
  | false => exact clrsda_sim low_sim

theorem writeBits_sim (c : BitVec 8) (i : Nat) :
    Sim (Between t) (Between t) Left (i2cWriteBits c i) (walkBits t c i) := by
  induction i with
  | zero => exact Sim.pure ()
  | succ i ih => exact (writeBit_sim _).bind fun _ => ih

/-- The answer to a byte is read before the clock falls, and looked at afterwards. -/
theorem answer_sim :
    Sim (Driving t true) (Between t) Left
      (do i2cHiClock; let ret := !(← i2cGetsda); i2cClrscl; unless ret do throw .enxio)
      (do let _ ← walkPeriod t mustAck) := by
  refine clock_sim (fun c x w hc hw => ?_) (fun c x w f hc hw => ?_)
  · have hlow : w = false := by
      cases w
      · rfl
      · cases hw
    subst hlow
    refine ⟨c.setscl false, ?_, hc.fall.toBetween⟩
    simp only [EStateM.run_bind, hc.getsda, Bool.and_false, i2cClrscl, EStateM.run_modify,
      Bool.not_false, if_true, EStateM.run_pure]
  · have hhigh : w = true ∧ f = .nak := by
      cases w
      · cases hw
      · exact ⟨rfl, (Option.some.inj hw).symm⟩
    obtain ⟨rfl, rfl⟩ := hhigh
    have hlow := hc.fall.scl
    refine ⟨.enxio, c.setscl false, ?_, iff_of_false (fun hrel => ?_) (fun hne => hne rfl)⟩
    · simp only [EStateM.run_bind, hc.getsda, Bool.and_self, i2cClrscl, EStateM.run_modify,
        Bool.not_true, Bool.false_eq_true, if_false, EStateM.run_throw]
    · rw [hlow] at hrel
      cases hrel.1

theorem putByte_sim (c : BitVec 8) :
    Sim (Between t) (Between t) Left (i2cPutByte c) (walkPutByte t c) := by
  have hans : Sim (Between t) (Between t) Left
      (do i2cNeedLow; i2cSetsda; i2cHiClock; let ret := !(← i2cGetsda); i2cClrscl
          unless ret do throw .enxio)
      (do let _ ← walkPeriod t mustAck) := needLow_sim (setsda_sim answer_sim)
  have hbyte : Sim (Between t) (Between t) Left (i2cWriteByte c) (walkBits t c 8) :=
    needLow_sim (writeBits_sim c 8)
  unfold i2cPutByte walkPutByte i2cWaitAck
  simp only [bind_assoc, pure_bind]
  exact hbyte.bind fun _ => hans

theorem readBit_sim :
    Sim (Driving t true) (Driving t true) Left i2cReadBit (walkPeriod t fun _ => none) := by
  have hpure : (walkPeriod t fun _ => none) =
      (walkPeriod t (fun _ => none) >>= fun r => pure r : I2cWalk Bool) := (bind_pure _).symm
  rw [hpure]
  refine clock_sim (g := id) (fun c x w hc _ => ?_) (fun c x w f hc hw => by cases hw)
  refine ⟨c.setscl false, ?_, hc.fall⟩
  simp only [EStateM.run_bind, hc.getsda, Bool.true_and, if_true, i2cClrscl, EStateM.run_modify,
    EStateM.run_pure, id]

theorem readBits_sim (cp : BitVec 8) (i : Nat) :
    Sim (Driving t true) (Between t) Left (i2cReadBits cp i) (walkReadBits t cp i) := by
  induction i generalizing cp with
  | zero => exact fun b x h => .ok h.toBetween
  | succ i ih => exact readBit_sim.bind fun r => ih _

theorem readByte_sim :
    Sim (Between t) (Between t) Left i2cReadByte (walkReadBits t 0 8) :=
  needLow_sim (setsda_sim (readBits_sim 0 8))

theorem readAck_sim (m : I2cMsg) (i : Nat) :
    Sim (Between t) (Between t) Left (i2cReadAck m i)
      (walkBit t (!decide (i + 1 < m.len.toNat))) := by
  unfold i2cReadAck
  by_cases hi : i + 1 < m.len.toNat
  · simp only [hi, if_true, decide_true, Bool.not_true]
    exact needLow_sim (clrsda_sim low_sim)
  · simp only [hi, if_false, decide_false, Bool.not_false]
    exact needLow_sim (setsda_sim high_sim)

/-! ## Messages -/

theorem writeFrom_sim (m : I2cMsg) (i n : Nat) :
    Sim (Between t) (Between t) Left (i2cWriteFrom m i n) (walkWriteFrom t m i n) := by
  induction n generalizing i with
  | zero => exact Sim.pure ()
  | succ n ih =>
    intro b x h
    have hbyte := (putByte_sim (t := t) (b.mem (m.buf + i))).bind fun _ => ih (i + 1)
    have hres := hbyte b x h
    rw [h.mem] at hres
    simpa only [i2cWriteFrom, walkWriteFrom, EStateM.run_bind, EStateM.run_get, h.mem] using hres

theorem store_sim (a : Nat) (c : BitVec 8) :
    Sim (Between t) (Between t) Left (modify (I2cBus.store a c) : I2cM Unit)
      (modify (I2cScript.store a c)) := by
  intro b x h
  refine .ok ⟨⟨h.timeout, h.slave, ?_⟩, h.scl⟩
  simp only [I2cBus.store, I2cScript.store, h.mem]

theorem readFrom_sim (m : I2cMsg) (i n : Nat) :
    Sim (Between t) (Between t) Left (i2cReadFrom m i n) (walkReadFrom t m i n) := by
  induction n generalizing i with
  | zero => exact Sim.pure ()
  | succ n ih =>
    exact readByte_sim.bind fun c => (store_sim _ c).bind fun _ => (readAck_sim m i).bind fun _ =>
      ih (i + 1)

theorem data_sim (m : I2cMsg) :
    Sim (Between t) (Between t) Left (if m.rd then i2cReadMsg m else i2cWriteMsg m)
      (walkData t m) :=
  (readFrom_sim m 0 m.len.toNat).ite (writeFrom_sim m 0 m.len.toNat)

/-- A START may come from any state of the clock. -/
theorem start_sim : Sim (Follows t) (Between t) Left i2cStart (walkBit t true) := by
  intro b x hb
  have h := hb.setsda true
  have hin : Within t true (b.setsda true).now.sda (b.setsda true).pulse x := h.pulse
  simp only [i2cStart, walkBit, EStateM.run_bind, i2cSetsda, EStateM.run_modify, i2cSetscl_run,
    walkPeriod_run, ← h.now, h.timeout, if_true]
  by_cases hfree : clockFreed t 0 (b.setsda true).now.hold = true
  · simp only [if_pos hfree, if_true]
    cases hw : (b.setsda true).now.sda with
    | true =>
      rw [hw] at hin
      simp only [EStateM.run_bind, hin.needSda, Bool.and_self, if_true]
      exact .ok (hin.setsda false).fall.toBetween
    | false =>
      rw [hw] at hin
      simp only [EStateM.run_bind, hin.needSda, Bool.and_false, Bool.false_eq_true, if_false]
      exact .error (.released hin.scl hin.sda (by simp))
  · simp only [if_neg hfree, Bool.false_eq_true, if_false]
    refine .error (.released ?_ ?_ (by simp))
    · rw [setscl_true]
      rfl
    · rw [setscl_true]
      rfl

theorem address_sim (m : I2cMsg) :
    Sim (Follows t) (Between t) Left (do i2cStart; i2cAddress m)
      (do walkBit t true; walkPutByte t m.addrByte) :=
  start_sim.bind fun _ => putByte_sim _

theorem open_sim (i : Nat) (m : I2cMsg) :
    Sim (Between t) (Between t) Left (i2cOpenMsg i m) (walkOpen t i m) :=
  (Sim.pure ()).ite fun b x h => address_sim m b x h.toFollows

theorem msgs_sim (i : Nat) (ms : List I2cMsg) :
    Sim (Between t) (Between t) Left (i2cDoMsgs i ms) (walkMsgs t i ms) := by
  induction ms generalizing i with
  | nil => exact Sim.pure ()
  | cons m ms ih =>
    unfold i2cDoMsgs walkMsgs i2cDoMsg
    simp only [bind_assoc]
    exact (open_sim i m).bind fun _ => (data_sim m).bind fun _ => ih (i + 1)

theorem stop_sim : Sim (Between t) (fun _ _ => True) Left i2cStop (walkBit t true) := by
  refine needLow_sim (clrsda_sim (clock_sim (fun c x w hc hw => ?_) (fun c x w f hc hw => ?_)))
  · have hhigh : w = true := by
      cases w
      · cases hw
      · rfl
    subst hhigh
    refine ⟨c.setsda true, ?_, trivial⟩
    simp only [i2cSetsda, EStateM.run_bind, EStateM.run_modify, (hc.setsda true).needSda,
      Bool.and_self, if_true]
  · have hlow : w = false ∧ f = .kept := by
      cases w
      · exact ⟨rfl, (Option.some.inj hw).symm⟩
      · cases hw
    obtain ⟨rfl, rfl⟩ := hlow
    refine ⟨.ebusy, c.setsda true, ?_, .released hc.scl rfl (by simp)⟩
    simp only [i2cSetsda, EStateM.run_bind, EStateM.run_modify, (hc.setsda true).needSda,
      Bool.and_false, Bool.false_eq_true, if_false]

/-! ## The transfer -/

/-- A transfer that begins with a START follows its walk. -/
theorem transfer_sim (m : I2cMsg) (ms : List I2cMsg) :
    Sim (Follows t) (fun _ _ => True) Left (do i2cDoMsgs 0 (m :: ms); i2cStop)
      (walkTransfer t (m :: ms)) := by
  have hmsgs : Sim (Follows t) (Between t) Left (i2cDoMsgs 0 (m :: ms)) (walkMsgs t 0 (m :: ms)) := by
    unfold i2cDoMsgs walkMsgs i2cDoMsg i2cOpenMsg walkOpen
    simp only [ne_eq, not_true_eq_false, false_and, if_false, bind_assoc]
    exact start_sim.bind fun _ => (putByte_sim _).bind fun _ => (data_sim m).bind fun _ =>
      msgs_sim 1 ms
  exact hmsgs.bind fun _ => stop_sim

/-- A bit from the master is not acknowledged, so it cannot lack its acknowledge. -/
theorem walkBit_ne_nak {y : I2cScript} {f : I2cFault} (h : (walkBit t v).run x = .error f y) :
    f ≠ .nak := by
  have hper : (walkPeriod t (if v then mustRise else fun _ => none)).run x = .error f y := by
    simp only [walkBit, EStateM.run_bind] at h
    split at h
    · cases h
    · cases h
      assumption
  rw [walkPeriod_run] at hper
  split at hper
  · split at hper
    case h_1 g hg =>
      cases hper
      cases v with
      | true =>
        simp only [if_true, mustRise] at hg
        split at hg <;> cases hg
        simp
      | false => cases hg
    case h_2 => cases hper
  · cases hper
    simp

theorem transferFault_eq_some {msgs : List I2cMsg} {f : I2cFault} :
    transferFault t msgs x = some f ↔ ∃ y, (walkTransfer t msgs).run x = .error f y := by
  unfold transferFault
  cases (walkTransfer t msgs).run x with
  | ok _ y => simp
  | error g y => simp

/-- What goes wrong in a START is not an acknowledge. -/
theorem start_of_nak {m : I2cMsg} {ms : List I2cMsg} {y : I2cScript} (h : Follows t b x)
    (hnak : (walkTransfer t (m :: ms)).run x = .error .nak y) : ∃ c, i2cStart.run b = .ok () c := by
  have hfirst : ∃ rest : Unit → I2cWalk Unit,
      walkTransfer t (m :: ms) = walkBit t true >>= rest := by
    simp only [walkTransfer, walkMsgs, walkOpen, ne_eq, not_true_eq_false, false_and, if_false,
      bind_assoc]
    exact ⟨_, rfl⟩
  obtain ⟨rest, hrest⟩ := hfirst
  have hsim := start_sim b x h
  cases hi : i2cStart.run b with
  | ok u c => exact ⟨c, rfl⟩
  | error e c =>
    rw [hi] at hsim
    cases hb : (walkBit t true).run x with
    | ok u z =>
      rw [hb] at hsim
      cases hsim
    | error f z =>
      rw [hrest, EStateM.run_bind, hb] at hnak
      cases hnak
      exact absurd rfl (walkBit_ne_nak hb)

/-- The transfer sends a START. -/
def StartIssued (msgs : List I2cMsg) (b : I2cBus) : Prop :=
  msgs ≠ [] ∧ ∃ c, i2cStart.run b = .ok () c

/-- The levels of the lines when the slave has let go of them. -/
def I2cBus.alone (b : I2cBus) : Lib.I2c.Levels := { b with slave := [] }.levels

/-- **The bus after a transfer that fails.** A transfer that fails after a START leaves both lines
high, as soon as the slave has let go of them, if and only if the first thing that goes wrong in it is
not a byte that the slave does not acknowledge. -/
theorem i2cDoTransfer_releases_iff (msgs : List I2cMsg) (b : I2cBus) :
    (∀ e c, (i2cDoTransfer msgs).run b = .error e c → StartIssued msgs b →
        c.alone = ⟨true, true⟩) ↔
      transferFault b.timeout msgs ⟨b.slave, b.mem⟩ ≠ some .nak := by
  have hrun : ∀ e c, (i2cDoTransfer msgs).run b = .error e c ↔
      (do i2cDoMsgs 0 msgs; i2cStop : I2cM Unit).run b = .error e c := by
    intro e c
    simp only [i2cDoTransfer, EStateM.run_bind]
    cases (i2cDoMsgs 0 msgs).run b with
    | ok u d =>
      cases hs : i2cStop.run d with
      | ok u d => simp [hs]
      | error f d => simp [hs]
    | error f d => simp
  have halone : ∀ c : I2cBus, c.alone = ⟨true, true⟩ ↔ c.scl = true ∧ c.sda = true := by
    intro c
    simp [I2cBus.alone, I2cBus.levels, I2cBus.now, released]
  have hfollows : Follows b.timeout b ⟨b.slave, b.mem⟩ := ⟨rfl, rfl, rfl⟩
  rw [ne_eq, transferFault_eq_some]
  cases msgs with
  | nil =>
    apply iff_of_true (fun e c _ hs => absurd rfl hs.1)
    rintro ⟨y, hy⟩
    exact absurd rfl (walkBit_ne_nak hy)
  | cons m ms =>
    have hsim := transfer_sim m ms b _ hfollows
    constructor
    · rintro h ⟨y, hy⟩
      rw [hy] at hsim
      cases hm : (do i2cDoMsgs 0 (m :: ms); i2cStop : I2cM Unit).run b with
      | ok u c =>
        rw [hm] at hsim
        cases hsim
      | error e c =>
        rw [hm] at hsim
        cases hsim with
        | error hleft =>
          have hrel := h e c ((hrun e c).2 hm) ⟨List.cons_ne_nil m ms, start_of_nak hfollows hy⟩
          exact hleft.1 ((halone c).1 hrel) rfl
    · intro hnak e c he _
      rw [(hrun e c).1 he] at hsim
      cases hw : (walkTransfer b.timeout (m :: ms)).run ⟨b.slave, b.mem⟩ with
      | ok u y =>
        rw [hw] at hsim
        cases hsim
      | error f y =>
        rw [hw] at hsim
        cases hsim with
        | error hleft =>
          refine (halone c).2 (hleft.2 ?_)
          rintro rfl
          exact hnak ⟨y, hw⟩

/-- Nobody answers: the clock stays low. -/
theorem i2cDoTransfer_releases_fails :
    ¬ ∀ (msgs : List I2cMsg) (b : I2cBus) (e : I2cErrno) (c : I2cBus),
      (i2cDoTransfer msgs).run b = .error e c → StartIssued msgs b → c.alone = ⟨true, true⟩ := by
  intro h
  have hnak : ∃ c, (i2cDoTransfer [⟨0x38, 0, 0, 0⟩]).run ⟨true, true, 1, [], [], fun _ => 0⟩ =
      .error .enxio c ∧ c.alone = ⟨false, true⟩ := ⟨_, rfl, rfl⟩
  obtain ⟨c, hc, hlow⟩ := hnak
  have hrel := h _ _ _ c hc ⟨List.cons_ne_nil _ _, _, rfl⟩
  rw [hlow] at hrel
  cases hrel

end Drm
