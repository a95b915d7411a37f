import Mathlib.Algebra.Order.Ring.Int
import SolarisXorg.Drm.VblankTime

/-!
# Which vblank interrupts are counted

An interrupt is counted exactly when its timestamp and the stored one differ by more than the
threshold after both are rounded to ticks (`counted_iff`). The slots of a crtc are its own
(`vblankSlot_ne`), so that the stored timestamp is the one of the last counted interrupt, whatever
happens on the other crtcs (`drmHandleVblank_other`). By induction over the interrupts, all of a crtc
are counted exactly when its timestamps, the stored one first, are apart in ticks one from the next
(`vblanks_counted_iff`). Below 1000 ticks a second this means that no two of them fall into one tick
(`apart_ofHz_iff`).

`drmHandleVblank_sys` is the connection to the device without timestamps.
-/

namespace Drm

open VblTimed

variable {k : VblTimedConfig} {s : VblTimed} {crtc other : Nat}

/-! ## The events do not touch the counters -/

theorem foldl_deliver_crtc (seq : BitVec 32) (es : List VblEvent) (s : VblSys) (crtc : Nat) :
    ((es.foldl (VblSys.deliver seq) s).crtcs crtc).count = (s.crtcs crtc).count ∧
      ((es.foldl (VblSys.deliver seq) s).crtcs crtc).enabled = (s.crtcs crtc).enabled := by
  induction es generalizing s with
  | nil => exact ⟨rfl, rfl⟩
  | cons e es ih =>
    obtain ⟨hcount, henabled⟩ := ih (VblSys.deliver seq s e)
    have hput : (((VblSys.deliver seq s e).crtcs crtc).count = (s.crtcs crtc).count) ∧
        ((VblSys.deliver seq s e).crtcs crtc).enabled = (s.crtcs crtc).enabled := by
      have hsend : (VblSys.deliver seq s e).crtcs = (s.vblankPut e.pipe).crtcs := by
        rw [VblSys.deliver, VblSys.sendVblankEvent]
        split <;> rfl
      rw [hsend]
      by_cases he : crtc = e.pipe
      · simp [VblSys.vblankPut, VblSys.setCrtc, he]
      · simp [VblSys.vblankPut, VblSys.setCrtc, he]
    exact ⟨hcount.trans hput.1, henabled.trans hput.2⟩

theorem drmHandleVblankEvents_crtc (s : VblSys) (crtc other : Nat) :
    ((drmHandleVblankEvents s crtc).crtcs other).count = (s.crtcs other).count ∧
      ((drmHandleVblankEvents s crtc).crtcs other).enabled = (s.crtcs other).enabled :=
  foldl_deliver_crtc _ _ _ _

/-! ## The slots -/

/-- Two crtcs have no slot together. -/
theorem vblankSlot_ne (h : other ≠ crtc) (a b : BitVec 32) :
    vblankSlot other a ≠ vblankSlot crtc b := by
  simp only [vblankSlot, vblanktimeRbsize]
  omega

/-! ## Ticks -/

/-- `nsec_per_tick` by numbers. -/
theorem nsecPerTick_toInt {hz : Int64} (h0 : 0 < hz.toInt) :
    (1000000000 / hz).toInt = 1000000000 / hz.toInt := by
  have h1 : hz ≠ -1 := fun h => by simp [h] at h0
  rw [Int64.toInt_div_of_ne_right _ _ h1, Int.tdiv_eq_ediv_of_nonneg (by decide)]
  rfl

/-- `abs` above the threshold, by numbers. -/
theorem thresh_lt_absS64 {x y : Int64} (hx : x.toInt.natAbs < 2 ^ 62) (hy : y.toInt.natAbs < 2 ^ 62) :
    redundantVblirqThreshNs < absS64 (y - x) ↔ 1000000 < (y.toInt - x.toInt).natAbs := by
  have hsub : (y - x).toInt = y.toInt - x.toInt := by
    rw [Int64.toInt_sub, Int.bmod_eq_of_le (by omega) (by omega)]
  have hthresh : redundantVblirqThreshNs.toInt = 1000000 := rfl
  rw [Int64.lt_iff_toInt_lt, hthresh, absS64]
  split
  · next hneg =>
    rw [Int64.lt_iff_toInt_lt, hsub, Int64.toInt_zero] at hneg
    rw [Int64.toInt_neg, hsub, Int.bmod_eq_of_le (by omega) (by omega)]
    omega
  · next hpos =>
    rw [Int64.lt_iff_toInt_lt, hsub, Int64.toInt_zero] at hpos
    rw [hsub]
    omega

/-- **Below 1000 ticks a second** two timestamps are apart when they fall into different ticks. -/
theorem apart_ofHz_iff {hz : Int64} (h0 : 0 < hz.toInt) (h1 : hz.toInt < 1000) {a b : Timeval}
    (ha : (((TickMacros.ofHz hz).timevalToTick a).toInt * (1000000000 / hz.toInt)).natAbs < 2 ^ 62)
    (hb : (((TickMacros.ofHz hz).timevalToTick b).toInt * (1000000000 / hz.toInt)).natAbs < 2 ^ 62) :
    (TickMacros.ofHz hz).apart a b ↔
      (TickMacros.ofHz hz).timevalToTick a ≠ (TickMacros.ofHz hz).timevalToTick b := by
  have hns : ∀ tv, (((TickMacros.ofHz hz).timevalToTick tv).toInt *
      (1000000000 / hz.toInt)).natAbs < 2 ^ 62 → ((TickMacros.ofHz hz).timevalToNs tv).toInt =
        ((TickMacros.ofHz hz).timevalToTick tv).toInt * (1000000000 / hz.toInt) := by
    intro tv htv
    rw [TickMacros.timevalToNs]
    show (_ * (1000000000 / hz)).toInt = _
    rw [Int64.toInt_mul, nsecPerTick_toInt h0, Int.bmod_eq_of_le (by omega) (by omega)]
  have hlong : 1000000 < 1000000000 / hz.toInt := by
    have := Int.lt_mul_ediv_self_add (x := 1000000000) h0
    by_contra hle
    have hmul : hz.toInt * (1000000000 / hz.toInt) ≤ hz.toInt * 1000000 :=
      Int.mul_le_mul_of_nonneg_left (by omega) (by omega)
    omega
  rw [TickMacros.apart, thresh_lt_absS64 (by rwa [hns a ha]) (by rwa [hns b hb]), hns a ha,
    hns b hb, ← Int.sub_mul, Int.natAbs_mul, ne_eq, ← Int64.toInt_inj]
  constructor
  · intro h heq
    rw [heq, Int.sub_self] at h
    simp at h
  · intro hne
    have hpos : 1 ≤ (((TickMacros.ofHz hz).timevalToTick b).toInt -
        ((TickMacros.ofHz hz).timevalToTick a).toInt).natAbs := by omega
    calc 1000000 < (1000000000 / hz.toInt).natAbs := by omega
      _ = 1 * (1000000000 / hz.toInt).natAbs := (Nat.one_mul _).symm
      _ ≤ _ := Nat.mul_le_mul_right _ hpos

/-! ## One interrupt -/

/-- **The device without timestamps** takes the same step. -/
theorem drmHandleVblank_sys (clocks : VblClocks) :
    (s.drmHandleVblank k crtc clocks).1.sys =
      Drm.drmHandleVblank k.cfg s.sys crtc
        (k.ticks.apart (s.vblanktimestamp crtc (s.sys.crtcs crtc).count)
          (drmGetLastVbltimestamp k.precision clocks)) := by
  unfold VblTimed.drmHandleVblank Drm.drmHandleVblank
  by_cases hn : k.cfg.numCrtcs = 0
  · rw [if_pos hn, if_pos hn]
  · by_cases he : (s.sys.crtcs crtc).enabled = true
    · by_cases hap : k.ticks.apart (s.vblanktimestamp crtc (s.sys.crtcs crtc).count)
        (drmGetLastVbltimestamp k.precision clocks) <;>
      simp [hn, he, hap]
    · simp [hn, he]

/-- Of an enabled crtc: the count and the slots after an interrupt. -/
theorem drmHandleVblank_enabled (clocks : VblClocks) (hn : k.cfg.numCrtcs ≠ 0)
    (he : (s.sys.crtcs crtc).enabled = true) :
    ((s.drmHandleVblank k crtc clocks).1.sys.crtcs crtc).enabled = true ∧
      if k.ticks.apart (s.vblanktimestamp crtc (s.sys.crtcs crtc).count)
          (drmGetLastVbltimestamp k.precision clocks) then
        s.Counted crtc (drmGetLastVbltimestamp k.precision clocks)
          (s.drmHandleVblank k crtc clocks).1
      else
        ((s.drmHandleVblank k crtc clocks).1.sys.crtcs crtc).count = (s.sys.crtcs crtc).count := by
  have hev := fun t : VblSys => drmHandleVblankEvents_crtc t crtc crtc
  unfold VblTimed.drmHandleVblank
  rw [if_neg hn, if_neg (by simp [he])]
  by_cases hap : k.ticks.apart (s.vblanktimestamp crtc (s.sys.crtcs crtc).count)
      (drmGetLastVbltimestamp k.precision clocks)
  · simp only [if_pos hap]
    simp [Counted, vblanktimestamp, (hev _).1, (hev _).2, VblSys.setCrtc, he]
  · simp only [if_neg hap]
    simp [(hev _).1, (hev _).2, he]

/-- **An interrupt is counted** exactly when its timestamp is apart from the stored one. -/
theorem counted_iff (clocks : VblClocks) (hn : k.cfg.numCrtcs ≠ 0)
    (he : (s.sys.crtcs crtc).enabled = true) :
    s.Counted crtc (drmGetLastVbltimestamp k.precision clocks)
        (s.drmHandleVblank k crtc clocks).1 ↔
      k.ticks.apart (s.vblanktimestamp crtc (s.sys.crtcs crtc).count)
        (drmGetLastVbltimestamp k.precision clocks) := by
  have h := (drmHandleVblank_enabled clocks hn he).2
  split at h
  · exact iff_of_true h ‹_›
  · refine iff_of_false (fun hc => ?_) ‹_›
    rw [hc.1] at h
    exact absurd h (by simp)

/-- An interrupt on another crtc leaves the count, the slots and the flag of this one. -/
theorem drmHandleVblank_other (clocks : VblClocks) (h : other ≠ crtc) :
    ((s.drmHandleVblank k other clocks).1.sys.crtcs crtc).count = (s.sys.crtcs crtc).count ∧
      ((s.drmHandleVblank k other clocks).1.sys.crtcs crtc).enabled
        = (s.sys.crtcs crtc).enabled ∧
      ∀ count, (s.drmHandleVblank k other clocks).1.vblanktimestamp crtc count
        = s.vblanktimestamp crtc count := by
  have hev := fun t : VblSys => drmHandleVblankEvents_crtc t other crtc
  unfold VblTimed.drmHandleVblank
  split
  · exact ⟨rfl, rfl, fun _ => rfl⟩
  · split
    · exact ⟨rfl, rfl, fun _ => rfl⟩
    · by_cases hap : k.ticks.apart (s.vblanktimestamp other (s.sys.crtcs other).count)
        (drmGetLastVbltimestamp k.precision clocks)
      · simp only [if_pos hap]
        refine ⟨?_, ?_, fun count => ?_⟩
        · simp [(hev _).1, VblSys.setCrtc, Function.update_of_ne h.symm]
        · simp [(hev _).2, VblSys.setCrtc, Function.update_of_ne h.symm]
        · exact Function.update_of_ne (vblankSlot_ne h _ _).symm _ _
      · simp only [if_neg hap]
        exact ⟨(hev _).1, (hev _).2, fun _ => rfl⟩

/-! ## Interrupts one after the other -/

theorem vblankTimes_cons (irq : VblIrq) (irqs : List VblIrq) :
    vblankTimes k crtc (irq :: irqs) =
      if irq.crtc = crtc then irq.tvblank k :: vblankTimes k crtc irqs
      else vblankTimes k crtc irqs := by
  by_cases h : irq.crtc = crtc <;> simp [vblankTimes, h]

/-- **All vblank interrupts on an enabled crtc are counted, each with its timestamp in the slot of
the new count**, exactly when each of their timestamps is apart from the one before, the stored
timestamp being the first, once they are rounded to ticks. -/
theorem vblanks_counted_iff (irqs : List VblIrq) (hn : k.cfg.numCrtcs ≠ 0)
    (he : (s.sys.crtcs crtc).enabled = true) :
    s.AllCounted k crtc irqs ↔
      List.IsChain k.ticks.apart
        (s.vblanktimestamp crtc (s.sys.crtcs crtc).count :: vblankTimes k crtc irqs) := by
  induction irqs generalizing s with
  | nil => simp [AllCounted, vblankTimes]
  | cons irq irqs ih =>
    rw [AllCounted, vblankTimes_cons]
    by_cases hc : irq.crtc = crtc
    · subst hc
      have hstep := counted_iff irq.clocks hn he
      have hrest := ih (drmHandleVblank_enabled irq.clocks hn he).1
      rw [if_pos rfl, List.isChain_cons_cons, hrest]
      constructor
      · intro ⟨hcount, hchain⟩
        have hcount := hcount rfl
        rw [hcount.2] at hchain
        exact ⟨hstep.1 hcount, hchain⟩
      · intro ⟨hap, hchain⟩
        have hcount := hstep.2 hap
        refine ⟨fun _ => hcount, ?_⟩
        rw [hcount.2]
        exact hchain
    · obtain ⟨hcount, henabled, htime⟩ :=
        drmHandleVblank_other (k := k) (s := s) irq.clocks hc
      rw [if_neg hc, ih (henabled.trans he), hcount, htime]
      exact and_iff_right fun h => absurd h hc

/-- One crtc at count 7 with a timestamp of 100 s, enabled. -/
def timedAt100 : VblTimed where
  sys := { vblInit with crtcs := fun _ => ⟨1, true, 7, 0, 0⟩ }
  vblankTime _ := ⟨100, 0⟩

/-- A device with one crtc and precise timestamps, on a system of `hz` ticks a second. -/
def oneCrtc (hz : Int64) : VblTimedConfig where
  cfg := ⟨1, 0xffffff, 32⟩
  ticks := .ofHz hz
  precision := 20

/-- An interrupt on crtc 0 with the time that the driver gives. -/
def irqAt (sec usec : Int64) : VblIrq := ⟨0, ⟨some (1, ⟨sec, usec⟩), ⟨0, 0⟩⟩⟩

/-- Three interrupts 16667 microseconds apart at 100 ticks a second. -/
theorem vblanks_counted_iff_three :
    (oneCrtc 100).cfg.numCrtcs ≠ 0 ∧ (timedAt100.sys.crtcs 0).enabled = true ∧
      timedAt100.AllCounted (oneCrtc 100) 0
        [irqAt 100 16667, irqAt 100 33334, irqAt 100 50001] := by
  have hchain : List.IsChain (oneCrtc 100).ticks.apart
      (timedAt100.vblanktimestamp 0 7 :: vblankTimes (oneCrtc 100) 0
        [irqAt 100 16667, irqAt 100 33334, irqAt 100 50001]) := by
    simp only [vblankTimes]
    decide
  exact ⟨by decide, rfl, (vblanks_counted_iff _ (by decide) rfl).2 hchain⟩

/-- At 100 ticks a second an interrupt 5 ms after the last one is taken for the same vblank. -/
theorem vblank_in_same_tick :
    (timedAt100.sys.crtcs 0).enabled = true ∧
      PreciselyApart (timedAt100.vblanktimestamp 0 7 ::
        vblankTimes (oneCrtc 100) 0 [irqAt 100 5000]) ∧
      (((timedAt100.drmHandleVblank (oneCrtc 100) 0 (irqAt 100 5000).clocks).1.sys.crtcs 0).count
        = 7) ∧
      ¬ timedAt100.AllCounted (oneCrtc 100) 0 [irqAt 100 5000] := by
  have hcount : ((timedAt100.drmHandleVblank (oneCrtc 100) 0
      (irqAt 100 5000).clocks).1.sys.crtcs 0).count = 7 := by decide
  refine ⟨rfl, ?_, hcount, fun h => ?_⟩
  · simp only [PreciselyApart, vblankTimes]
    decide
  · have h7 := (h.1 rfl).1
    rw [show (irqAt 100 5000).crtc = 0 from rfl, hcount] at h7
    exact absurd h7 (by decide)

end Drm
