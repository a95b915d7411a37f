import Mathlib.Algebra.Group.Nat.Defs
import SolarisXorg.Drm.Read

/-!
# What one read takes from the queue

The test of `drm_dequeue_event` adds the bytes read so far to the event's length, and compares the
sum with an `iov_len` that `uiomove` has already shortened by the bytes read so far. `Counted` is the
loop's invariant: the two together are the size of the buffer, and none of the sums wraps. So the
loop takes events as `Lib.takeRoom` does with a room that is counted down (`loop_takes`), and by
`Lib.takeRoom_eq_iff` and `Lib.passes_sub_iff` it takes the longest beginning that fits exactly when
this beginning, counted once with and once without its last event, fits (`read_longest_iff`).
-/

namespace Drm.Fops

open Lib

/-- What the loop keeps: the bytes read and those left in the iovec are the buffer. -/
structure Counted (len : UInt64) (s : Reading) : Prop where
  sum : s.total.toNat + s.uio.iovLen.toNat = len.toNat
  half : 2 * s.total.toNat < 2 ^ 64 + 2 ^ 32

theorem toNat_length_add (e : PendingEvent) {total : UInt64} (h : 2 * total.toNat < 2 ^ 64 + 2 ^ 32) :
    (e.length.toUInt64 + total).toNat = e.size + total.toNat := by
  have hlt := e.length.toNat_lt
  rw [UInt64.toNat_add, UInt32.toNat_toUInt64, Nat.mod_eq_of_lt (by omega)]
  rfl

/-- `drm_dequeue_event` by numbers. -/
theorem drmDequeueEvent_cons {f : File} {e : PendingEvent} {es : List PendingEvent}
    {total max : UInt64} (hf : f.eventList = e :: es) (h : 2 * total.toNat < 2 ^ 64 + 2 ^ 32) :
    drmDequeueEvent f total max =
      if e.size + total.toNat ≤ max.toNat then
        some (e, { eventSpace := f.eventSpace + e.length.toNat, eventList := es })
      else none := by
  simp only [drmDequeueEvent, hf, UInt64.lt_iff_toNat_lt, toNat_length_add e h]
  split
  · rw [if_neg (by omega)]
  · rw [if_pos (by omega)]

/-- The loop's room: the buffer less what was read. -/
def roomLeft (len : UInt64) (t : Nat) : Nat := len.toNat - t

theorem Counted.roomLeft_eq {len : UInt64} {s : Reading} (hc : Counted len s) :
    roomLeft len s.total.toNat = s.uio.iovLen.toNat := by
  have := hc.sum
  unfold roomLeft
  omega

section Loop

variable {uiomove : List UInt8 → Uio → Int × Uio} {len : UInt64}

/-- A turn that takes an event keeps the count. -/
theorem Counted.next {s : Reading} (hc : Counted len s) {e : PendingEvent}
    (he : e.size + s.total.toNat ≤ s.uio.iovLen.toNat) (f : File) (moved : List UInt8) :
    Counted len
      ⟨f, ⟨s.uio.iovLen - UInt64.ofNat e.event.length, moved⟩, s.total + e.length.toUInt64⟩ := by
  have hlt := e.length.toNat_lt
  have hlen := len.toNat_lt
  have hsum := hc.sum
  have htotal : (s.total + e.length.toUInt64).toNat = e.size + s.total.toNat := by
    rw [UInt64.add_comm, toNat_length_add e hc.half]
  have hsize : (UInt64.ofNat e.event.length).toNat = e.size := by
    rw [e.event_length, UInt64.toNat_ofNat_of_lt' (by rw [UInt64.size]; omega)]
    rfl
  have hiov : (s.uio.iovLen - UInt64.ofNat e.event.length).toNat = s.uio.iovLen.toNat - e.size := by
    rw [UInt64.toNat_sub_of_le _ _ (by rw [UInt64.le_iff_toNat_le, hsize]; omega), hsize]
  have hsz : e.size = e.length.toNat := rfl
  constructor
  · simp only [htotal, hiov]
    omega
  · simp only [htotal]
    omega

/-- One turn: the next event is taken if it fits into the room that is left. -/
theorem readTurn_cons (hm : Moves uiomove) {s : Reading} (hc : Counted len s) {e : PendingEvent}
    {es : List PendingEvent} (hf : s.file.eventList = e :: es) :
    readTurn uiomove s =
      if e.size + s.total.toNat ≤ roomLeft len s.total.toNat then
        .next ⟨⟨s.file.eventSpace + e.length.toNat, es⟩,
          ⟨s.uio.iovLen - UInt64.ofNat e.event.length, s.uio.moved ++ e.event⟩,
          s.total + e.length.toUInt64⟩
      else .leave s := by
  have hsz : e.event.length = e.size := e.event_length
  rw [readTurn, drmDequeueEvent_cons hf hc.half, hc.roomLeft_eq]
  by_cases he : e.size + s.total.toNat ≤ s.uio.iovLen.toNat
  · simp only [if_pos he, hm e.event s.uio (by omega), ne_eq, not_true_eq_false, if_false]
  · simp only [if_neg he]

/-- **What the loop takes**: the events from the front that go into the room that is counted down. -/
theorem loop_takes (hm : Moves uiomove) {s : Reading} (hc : Counted len s) {n : Nat}
    (hn : s.file.eventList.length < n) :
    ∃ r, loop (readTurn uiomove) n s = some r ∧
      s.file.eventList =
        takeRoom PendingEvent.size (roomLeft len) s.total.toNat s.file.eventList
          ++ r.file.eventList ∧
      r.uio.moved = s.uio.moved ++ (takeRoom PendingEvent.size (roomLeft len) s.total.toNat
        s.file.eventList).flatMap PendingEvent.event ∧
      r.total.toNat = s.total.toNat + weight PendingEvent.size
        (takeRoom PendingEvent.size (roomLeft len) s.total.toNat s.file.eventList) := by
  obtain ⟨n, rfl⟩ : ∃ k, n = k + 1 := ⟨n - 1, by omega⟩
  induction hes : s.file.eventList generalizing s n with
  | nil =>
    refine ⟨s, ?_, ?_⟩
    · simp only [loop, readTurn, drmDequeueEvent, hes]
    · simp [takeRoom, hes]
  | cons e es ih =>
    rw [hes, List.length_cons] at hn
    rw [loop, readTurn_cons hm hc hes, takeRoom]
    by_cases he : e.size + s.total.toNat ≤ roomLeft len s.total.toNat
    · have htotal : (s.total + e.length.toUInt64).toNat = e.size + s.total.toNat := by
        rw [UInt64.add_comm, toNat_length_add e hc.half]
      obtain ⟨n, rfl⟩ : ∃ k, n = k + 1 := ⟨n - 1, by omega⟩
      obtain ⟨r, hr, hlist, hmoved, hweight⟩ :=
        ih (hc.next (hc.roomLeft_eq ▸ he) ⟨s.file.eventSpace + e.length.toNat, es⟩
          (s.uio.moved ++ e.event)) n (by simpa using hn) rfl
      simp only [htotal] at hlist hmoved hweight
      refine ⟨r, ?_, ?_, ?_, ?_⟩
      · simpa only [if_pos he] using hr
      · rw [if_pos he, List.cons_append]
        exact congrArg (e :: ·) hlist
      · rw [if_pos he, hmoved, List.flatMap_cons, List.append_assoc]
      · rw [if_pos he, hweight, weight_cons]
        omega
    · refine ⟨s, ?_, ?_⟩
      · simp only [if_neg he]
      · simp [if_neg he, hes]

/-- **One read delivers the longest beginning of the queue that fits into the buffer** exactly when
the length of this beginning and its length without the last event together fit. -/
theorem read_longest_iff (hm : Moves uiomove) (f : File) (len : UInt64) :
    ReadsLongest f len (drmRead uiomove f ⟨len, []⟩) ↔
      ∀ p, Fits PendingEvent.size len.toNat p f.eventList →
        weight PendingEvent.size p.dropLast + weight PendingEvent.size p ≤ len.toNat := by
  have hc : Counted len ⟨f, ⟨len, []⟩, 0⟩ := by
    constructor <;> simp
  obtain ⟨r, hr, hlist, hmoved, hweight⟩ := loop_takes hm hc (Nat.lt_succ_self _)
  simp only [UInt64.toNat_zero, Nat.zero_add, List.nil_append] at hlist hmoved hweight
  have hfits : Fits PendingEvent.size len.toNat _ f.eventList := fits_takeRoom
  have hless : takeRoom PendingEvent.size (roomLeft len) 0 f.eventList =
      takeRoom PendingEvent.size (fun _ => len.toNat) 0 f.eventList ↔ _ :=
    takeRoom_eq_iff fun t => Nat.sub_le _ _
  have hpasses : ∀ p, Passes PendingEvent.size (roomLeft len) 0 p ↔
      weight PendingEvent.size p.dropLast + weight PendingEvent.size p ≤ len.toNat := by
    intro p
    show Passes PendingEvent.size (len.toNat - ·) 0 p ↔ _
    rw [passes_sub_iff]
    exact or_iff_right_of_imp fun h => by simp [h]
  constructor
  · rintro ⟨p, es, hp, happ, s, hs, rfl, -, -⟩ p' hp'
    obtain rfl : s = r := Option.some.inj (hs.symm.trans hr)
    have htake : takeRoom PendingEvent.size (roomLeft len) 0 f.eventList = p :=
      List.append_cancel_right (hlist.symm.trans happ)
    rw [← hpasses, hp'.unique hfits, ← hless, htake]
    exact hp.unique hfits
  · intro h
    have htake := hless.2 ((hpasses _).2 (h _ hfits))
    rw [htake] at hlist hmoved hweight
    exact ⟨_, _, hfits, hlist, r, hr, rfl, hmoved, hweight⟩

end Loop

/-- A vblank event of 32 bytes. -/
def event32 : PendingEvent := ⟨32, List.replicate 32 0, rfl⟩

/-- Three events and a buffer for one and a half: one is delivered. -/
theorem read_longest_iff_three :
    Moves copyAll ∧
      ReadsLongest ⟨4000, [event32, event32, event32]⟩ 48
        (drmRead copyAll ⟨4000, [event32, event32, event32]⟩ ⟨48, []⟩) := by
  refine ⟨copyAll_moves, (read_longest_iff copyAll_moves _ _).2 fun p hp => ?_⟩
  rw [hp.unique fits_takeRoom]
  decide

/-- Two events of 32 bytes go into a buffer of 64; the read delivers one. -/
theorem read_half :
    Moves copyAll ∧
      (drmRead copyAll ⟨4032, [event32, event32]⟩ ⟨64, []⟩).map (·.total) = some 32 ∧
      ¬ ReadsLongest ⟨4032, [event32, event32]⟩ 64
        (drmRead copyAll ⟨4032, [event32, event32]⟩ ⟨64, []⟩) := by
  have htotal : (drmRead copyAll ⟨4032, [event32, event32]⟩ ⟨64, []⟩).map (·.total) = some 32 := by
    decide
  refine ⟨copyAll_moves, htotal, ?_⟩
  rintro ⟨p, es, hp, -, s, hs, -, -, hweight⟩
  rw [hs] at htotal
  have hboth : Fits PendingEvent.size (64 : UInt64).toNat [event32, event32] [event32, event32] :=
    ⟨List.prefix_rfl, by decide, fun q hq _ => hq.length_le⟩
  have hs32 : s.total = 32 := Option.some.inj htotal
  rw [hp.unique hboth, hs32] at hweight
  exact absurd hweight (by decide)

end Drm.Fops
