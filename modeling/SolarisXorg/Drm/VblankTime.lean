import Mathlib.Data.List.Basic
import SolarisXorg.Drm.Vblank

/-!
# The times of vertical blanks (`drm_irq.c`)

`drm_handle_vblank` with the timestamps that `Drm.drmHandleVblank` leaves out: `_vblank_time` has two
slots for each crtc, and the slot of the count `n` is the one of `n % DRM_VBLANKTIME_RBSIZE`. An
interrupt whose timestamp is at most `DRM_REDUNDANT_VBLIRQ_THRESH_NS` away from the one stored for the
current count is taken for a second interrupt of the same vblank.

`timeval_to_ns` is `TICK_TO_NSEC(TIMEVAL_TO_TICK(tvp))`; the two macros come from the system's
headers and are a parameter here (`TickMacros`).
-/

namespace Drm

/-- `struct timeval` -/
structure Timeval where
  tvSec : Int64
  tvUsec : Int64
  deriving DecidableEq, Repr

/-- The macros `TIMEVAL_TO_TICK` and `TICK_TO_NSEC`. -/
structure TickMacros where
  timevalToTick : Timeval → Int64
  tickToNsec : Int64 → Int64

/-- The macros on a system that counts `hz` ticks a second: a tick is `usec_per_tick` microseconds and
`nsec_per_tick` nanoseconds long. -/
def TickMacros.ofHz (hz : Int64) : TickMacros where
  timevalToTick tv := tv.tvSec * hz + tv.tvUsec / (1000000 / hz)
  tickToNsec tick := tick * (1000000000 / hz)

/-- `timeval_to_ns` -/
def TickMacros.timevalToNs (m : TickMacros) (tv : Timeval) : Int64 :=
  m.tickToNsec (m.timevalToTick tv)

/-- `DRM_VBLANKTIME_RBSIZE` -/
def vblanktimeRbsize : Nat := 2

/-- `DRM_REDUNDANT_VBLIRQ_THRESH_NS` -/
def redundantVblirqThreshNs : Int64 := 1000000

/-- The macro `abs` of `drm_linux.h`, of an `s64`. -/
def absS64 (x : Int64) : Int64 := if x < 0 then -x else x

/-- The device and its `_vblank_time`. -/
structure VblTimed where
  sys : VblSys
  vblankTime : Nat → Timeval

/-- The index of `vblanktimestamp(dev, crtc, count)` in `_vblank_time`. -/
def vblankSlot (crtc : Nat) (count : BitVec 32) : Nat :=
  crtc * vblanktimeRbsize + count.toNat % vblanktimeRbsize

/-- `vblanktimestamp` -/
def VblTimed.vblanktimestamp (s : VblTimed) (crtc : Nat) (count : BitVec 32) : Timeval :=
  s.vblankTime (vblankSlot crtc count)

/-- The clocks at an interrupt. -/
structure VblClocks where
  /-- what `get_vblank_timestamp` returns and the time it gives, if the driver has one -/
  driver : Option (Int × Timeval)
  /-- `do_gettimeofday` -/
  now : Timeval
  deriving DecidableEq, Repr

/-- `drm_get_last_vbltimestamp`, called with `DRM_CALLED_FROM_VBLIRQ`; `precision` is
`drm_timestamp_precision`. -/
def drmGetLastVbltimestamp (precision : BitVec 32) (clocks : VblClocks) : Timeval :=
  let maxError := (precision * 1000).toInt
  match clocks.driver with
  | some (ret, tv) => if 0 < maxError ∧ 0 < ret then tv else clocks.now
  | none => clocks.now

/-- What is fixed about a device and the system it runs on. -/
structure VblTimedConfig where
  cfg : VblConfig
  ticks : TickMacros
  precision : BitVec 32

/-- `abs(diff_ns) > DRM_REDUNDANT_VBLIRQ_THRESH_NS` for the timestamps of two vblanks. -/
def TickMacros.apart (m : TickMacros) (last tvblank : Timeval) : Prop :=
  redundantVblirqThreshNs < absS64 (m.timevalToNs tvblank - m.timevalToNs last)

instance (m : TickMacros) (last tvblank : Timeval) : Decidable (m.apart last tvblank) :=
  inferInstanceAs (Decidable (_ < _))

/-- `drm_handle_vblank` and what it returns -/
def VblTimed.drmHandleVblank (k : VblTimedConfig) (s : VblTimed) (crtc : Nat) (clocks : VblClocks) :
    VblTimed × Bool :=
  if k.cfg.numCrtcs = 0 then (s, false)
  else if !(s.sys.crtcs crtc).enabled then (s, false)
  else
    let c := s.sys.crtcs crtc
    let vblcount := c.count
    let tvblank := drmGetLastVbltimestamp k.precision clocks
    let s :=
      if k.ticks.apart (s.vblanktimestamp crtc vblcount) tvblank then
        { sys := s.sys.setCrtc crtc { c with count := c.count + 1 }
          vblankTime := Function.update s.vblankTime (vblankSlot crtc (vblcount + 1)) tvblank }
      else s
    ({ s with sys := drmHandleVblankEvents s.sys crtc }, true)

/-- A vblank interrupt. -/
structure VblIrq where
  crtc : Nat
  clocks : VblClocks
  deriving DecidableEq, Repr

/-- Its timestamp. -/
def VblIrq.tvblank (k : VblTimedConfig) (irq : VblIrq) : Timeval :=
  drmGetLastVbltimestamp k.precision irq.clocks

/-! ## What the interrupts of a crtc are counted by -/

/-- The interrupt from `s` to `t` is counted, and its timestamp is in the slot of the new count. -/
def VblTimed.Counted (crtc : Nat) (tvblank : Timeval) (s t : VblTimed) : Prop :=
  (t.sys.crtcs crtc).count = (s.sys.crtcs crtc).count + 1 ∧
    t.vblanktimestamp crtc (t.sys.crtcs crtc).count = tvblank

/-- Interrupts one after the other, on any crtcs: each one on `crtc` is counted. -/
def VblTimed.AllCounted (k : VblTimedConfig) (crtc : Nat) : VblTimed → List VblIrq → Prop
  | _, [] => True
  | s, irq :: irqs =>
    let t := (s.drmHandleVblank k irq.crtc irq.clocks).1
    (irq.crtc = crtc → s.Counted crtc (irq.tvblank k) t) ∧ AllCounted k crtc t irqs

/-- The timestamps of the interrupts on `crtc`. -/
def vblankTimes (k : VblTimedConfig) (crtc : Nat) (irqs : List VblIrq) : List Timeval :=
  (irqs.filter (·.crtc = crtc)).map (·.tvblank k)

/-- A timestamp in nanoseconds. -/
def Timeval.ns (tv : Timeval) : Int := tv.tvSec.toInt * 1000000000 + tv.tvUsec.toInt * 1000

/-- Timestamps that follow each other are more than a millisecond apart. -/
def PreciselyApart : List Timeval → Prop :=
  List.IsChain fun a b => 1000000 < (b.ns - a.ns).natAbs

end Drm
