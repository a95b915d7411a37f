import Mathlib.Data.Set.Basic
import SolarisXorg.Dga.Proof.Cmap
import SolarisXorg.Lib.Run

/-!
# The range of valid entries of a grabbed colormap

`widen` moves the start of the range first, and then compares its end, for which it takes the length
that the range had from the old start (`widen_toInt`). So a call that writes before the start and
not up to the end loses the entries behind it. `smallest_iff` is about the intervals alone, and
`widens_iff` about a call.
-/

namespace Dga.Cmap

open Lib

variable {m m' : Grabbedcmap}

/-! ## Intervals -/

section

variable {s n i k : Int}

theorem interval_subset_iff (lo hi : Int) :
    interval s (s + n) ⊆ interval lo hi ↔ 0 < n → lo ≤ s ∧ s + n ≤ hi := by
  constructor
  · intro h hn
    -- the first entry and the last
    have hfirst := h (a := s) ⟨le_refl s, by omega⟩
    have hlast := h (a := s + n - 1) ⟨by omega, by omega⟩
    exact ⟨hfirst.1, Int.sub_one_lt_iff.1 hlast.2⟩
  · intro h e he
    obtain ⟨hlo, hhi⟩ := he
    obtain ⟨hlo', hhi'⟩ := h (by omega)
    exact ⟨by omega, by omega⟩

/-- The interval of two tests, the second of which has the start that the first one made. -/
theorem smallest_iff {r : Int} (hs : 0 ≤ s) (hn : 0 ≤ n) (hstop : s + n ≤ r) (hi : 0 ≤ i)
    (hk : 0 < k) (hinside : i + k ≤ r) {s' n' : Int} (hs' : s' = if i < s then i else s)
    (hn' : n' = if s' + n < i + k then i + k - s' else n) :
    (interval s (s + n) ⊆ interval s' (s' + n') ∧ interval i (i + k) ⊆ interval s' (s' + n') ∧
        (∀ lo hi, interval s (s + n) ⊆ interval lo hi → interval i (i + k) ⊆ interval lo hi →
          interval s' (s' + n') ⊆ interval lo hi) ∧ interval s' (s' + n') ⊆ interval 0 r) ↔
      n = 0 ∧ i ≤ s ∨ n ≠ 0 ∧ (s ≤ i ∨ s + n ≤ i + k) := by
  simp only [interval_subset_iff]
  have hnonempty : 0 < n' := by split at hs' <;> split at hn' <;> omega
  constructor
  · intro ⟨hkept, _, hleast, _⟩
    by_cases hzero : n = 0
    case pos =>
      -- nothing was valid, so the interval is that of the entries written
      have hwritten := hleast i (i + k) (fun h => by omega) (fun _ => ⟨by omega, by omega⟩)
        hnonempty
      refine .inl ⟨hzero, ?_⟩
      split at hs' <;> omega
    have hold := hkept (by omega)
    refine .inr ⟨hzero, ?_⟩
    split at hs' <;> split at hn' <;> omega
  · intro hcase
    refine ⟨fun h => ?_, fun _ => ?_, fun lo hi hold hwritten _ => ?_, fun _ => ?_⟩
    · split at hs' <;> split at hn' <;> omega
    · split at hs' <;> split at hn' <;> omega
    · have hwritten := hwritten hk
      by_cases hzero : n = 0
      case pos => split at hs' <;> split at hn' <;> omega
      have hold := hold (by omega)
      split at hs' <;> split at hn' <;> omega
    · split at hs' <;> split at hn' <;> omega

end

/-! ## A call -/

/-- The second test, for the start that the first one has left. -/
theorem widen_len {index count : Int32} (h0 : 0 ≤ m.cmStart.toInt) (hlen : 0 ≤ m.cmLen.toInt)
    (hindex : 0 ≤ index.toInt) (hcount : 0 < count.toInt)
    (hstop : m.cmStart.toInt + m.cmLen.toInt < 2 ^ 31)
    (hinside : index.toInt + count.toInt < 2 ^ 31) :
    (if m.cmStart + m.cmLen < index + count then index + count - m.cmStart
        else m.cmLen).toInt =
      if m.cmStart.toInt + m.cmLen.toInt < index.toInt + count.toInt then
        index.toInt + count.toInt - m.cmStart.toInt
      else m.cmLen.toInt := by
  have hlt := m.cmStart.toInt_lt
  have hsum : (index + count).toInt = index.toInt + count.toInt :=
    toInt_add_of_le (by omega) hinside
  have hend : (m.cmStart + m.cmLen).toInt = m.cmStart.toInt + m.cmLen.toInt :=
    toInt_add_of_le (by omega) hstop
  simp only [Int32.lt_iff_toInt_lt, hsum, hend]
  split
  · rw [toInt_sub_of_le (by omega) (by omega), hsum]
  · rfl

/-- The start, and the end with the length that the range had. -/
theorem widen_toInt {index count : Int32} (hm : m.Ranged) (hindex : 0 ≤ index.toInt)
    (hcount : 0 < count.toInt) (hinside : index.toInt + count.toInt ≤ m.cmReallen.toInt) :
    (widen m index count).cmStart.toInt =
        (if index.toInt < m.cmStart.toInt then index.toInt else m.cmStart.toInt) ∧
      (widen m index count).cmLen.toInt =
        if (widen m index count).cmStart.toInt + m.cmLen.toInt < index.toInt + count.toInt then
          index.toInt + count.toInt - (widen m index count).cmStart.toInt
        else m.cmLen.toInt := by
  obtain ⟨hstart, hlen, hstop⟩ := hm
  have hlt := m.cmReallen.toInt_lt
  have hstart' : (widen m index count).cmStart =
      if index < m.cmStart then index else m.cmStart := by
    rw [widen]
    split <;> split <;> rfl
  have hlen' : (widen m index count).cmLen =
      if (widen m index count).cmStart + m.cmLen < index + count then
        index + count - (widen m index count).cmStart
      else m.cmLen := by
    rw [hstart', widen]
    by_cases hbefore : index < m.cmStart
    case pos =>
      simp only [if_pos hbefore]
      split <;> rfl
    simp only [if_neg hbefore]
    split <;> rfl
  have hmoved : (widen m index count).cmStart.toInt =
      if index.toInt < m.cmStart.toInt then index.toInt else m.cmStart.toInt := by
    rw [hstart']
    simp only [Int32.lt_iff_toInt_lt]
    split <;> rfl
  refine ⟨hmoved, ?_⟩
  rw [hlen']
  have hle : (widen m index count).cmStart.toInt ≤ m.cmStart.toInt := by
    rw [hmoved]
    split <;> omega
  have h0 : 0 ≤ (widen m index count).cmStart.toInt := by
    rw [hmoved]
    split <;> omega
  exact widen_len (m := { m with cmStart := (widen m index count).cmStart }) h0 hlen hindex hcount
    (by dsimp only; omega) (by omega)

/-- What a call does to the range. -/
theorem apply_range {k : Call} (h : k.apply m = some m') :
    m'.cmReallen = m.cmReallen ∧
      if 0 < clip m.cmReallen k.args.index k.args.count then
        m'.cmStart = (widen m k.args.index (clip m.cmReallen k.args.index k.args.count)).cmStart ∧
          m'.cmLen = (widen m k.args.index (clip m.cmReallen k.args.index k.args.count)).cmLen
      else m'.cmStart = m.cmStart ∧ m'.cmLen = m.cmLen := by
  rw [apply_eq] at h
  by_cases hcount : 0 < clip m.cmReallen k.args.index k.args.count
  case neg =>
    rw [if_neg hcount] at h
    cases h
    rw [if_neg hcount]
    exact ⟨rfl, rfl, rfl⟩
  rw [if_pos hcount] at h
  obtain ⟨m₁, hm₁, rfl⟩ := Option.map_eq_some_iff.1 h
  obtain ⟨planes, flags, rfl⟩ := writeShadow_some hm₁
  rw [if_pos hcount]
  dsimp only [bump]
  exact ⟨widen_cmReallen _ _, rfl, rfl⟩

theorem widens_iff_and {l : CallMade} : l.Widens ↔
    l.before.valid ⊆ l.after.valid ∧ l.before.written l.call.args ⊆ l.after.valid ∧
      (∀ lo hi, l.before.valid ⊆ interval lo hi → l.before.written l.call.args ⊆ interval lo hi →
        l.after.valid ⊆ interval lo hi) ∧ l.after.valid ⊆ interval 0 l.before.cmReallen.toInt :=
  ⟨fun h => ⟨h.kept, h.added, h.least, h.inside⟩, fun ⟨h₁, h₂, h₃, h₄⟩ => ⟨h₁, h₂, h₃, h₄⟩⟩

/-- A call that writes nothing keeps the range. -/
theorem widens_of_written_empty {l : CallMade} (hm : l.before.Ranged)
    (hvalid : l.after.valid = l.before.valid) (hnone : l.before.written l.call.args = ∅) :
    l.Widens := by
  rw [widens_iff_and, hvalid, hnone]
  refine ⟨fun e he => he, Set.empty_subset _, fun _ _ h _ => h, fun e he => ?_⟩
  exact ⟨hm.start.trans he.1, he.2.trans_le hm.stop⟩

/-- **A call widens the range iff it does not lose the end.** -/
theorem widens_iff {l : CallMade} (hm : l.before.Ranged) (hk : l.call.args.Valid)
    (h : l.call.apply l.before = some l.after) :
    l.after.Ranged ∧ (l.Widens ↔ l.StartOrEnd) := by
  obtain ⟨m, k, m'⟩ := l
  dsimp only at hm hk h
  obtain ⟨hreallen, hrange⟩ := apply_range h
  obtain ⟨hstart, hlen, hstop⟩ := id hm
  have hinside : k.args.index.toInt + (clip m.cmReallen k.args.index k.args.count).toInt ≤
      m.cmReallen.toInt := clip_inside (by omega) hk.index hk.fits
  by_cases hcount : 0 < clip m.cmReallen k.args.index k.args.count
  case neg =>
    rw [if_neg hcount] at hrange
    rw [Int32.lt_iff_toInt_lt, Int32.toInt_zero] at hcount
    refine ⟨⟨hrange.1 ▸ hstart, hrange.2 ▸ hlen, ?_⟩, ?_⟩
    · rw [hrange.1, hrange.2, hreallen]
      exact hstop
    have hvalid : m'.valid = m.valid := by
      rw [Grabbedcmap.valid, hrange.1, hrange.2, Grabbedcmap.valid]
    have hempty : m.written k.args = ∅ := by
      refine Set.eq_empty_iff_forall_notMem.2 fun e he => ?_
      obtain ⟨hlo, hhi⟩ := he
      omega
    exact iff_of_true (widens_of_written_empty hm hvalid hempty) (.inl (by dsimp only; omega))
  rw [if_pos hcount] at hrange
  rw [Int32.lt_iff_toInt_lt, Int32.toInt_zero] at hcount
  have hindex := hk.index
  obtain ⟨hstart', hlen'⟩ := widen_toInt hm hindex hcount hinside
  rw [← hrange.1] at hstart' hlen'
  rw [← hrange.2] at hlen'
  have hranged : m'.Ranged := by
    refine ⟨?_, ?_, ?_⟩
    · split at hstart' <;> omega
    · split at hlen' <;> omega
    · rw [hreallen]
      split at hstart' <;> split at hlen' <;> omega
  refine ⟨hranged, ?_⟩
  have hzero : m.cmLen = 0 ↔ m.cmLen.toInt = 0 := by rw [← Int32.toInt_inj, Int32.toInt_zero]
  rw [widens_iff_and, CallMade.StartOrEnd]
  dsimp only
  rw [Ne, hzero, or_iff_right (by omega)]
  exact smallest_iff hstart hlen hstop hindex hcount hinside hstart' hlen'

/-! ## Calls of all clients -/

/-- **The range of valid entries.** A call makes of it the smallest interval with the entries that
it writes iff it does not write before the start without writing up to the end (and, where nothing
was valid, not behind the start). -/
theorem range_widens {ls : List CallMade} (hm : m.Ranged) (h : Run CallStep m ls m') :
    m'.Ranged ∧ ∀ l ∈ ls, l.Widens ↔ l.StartOrEnd := by
  induction h with
  | nil => exact ⟨hm, fun l hl => absurd hl List.not_mem_nil⟩
  | snoc _ hstep ih =>
    obtain ⟨hranged, hall⟩ := ih
    obtain ⟨hvalid, rfl, rfl, happly⟩ := hstep
    obtain ⟨hafter, hiff⟩ := widens_iff hranged hvalid happly
    refine ⟨hafter, fun l hl => ?_⟩
    rcases List.mem_append.1 hl with hl | hl
    · exact hall l hl
    · rw [List.mem_singleton.1 hl]
      exact hiff

/-- The last four of eight entries are valid. -/
def lastFour : Grabbedcmap where
  cmCount := 0
  cmInstalled := true
  cmReallen := 8
  cmStart := 4
  cmLen := 4
  cmCmapnum := 0
  cmIoctlbits := 0
  cmShadowofs := 4096
  planes := List.replicate 24 0
  flags := List.replicate 8 0

/-- A black first entry is written. -/
def writeFirst : CallMade where
  before := lastFour
  call := .write ⟨0, true⟩ ⟨0, 1, [0], [0], [0]⟩
  after := { lastFour with cmCount := 1, cmStart := 0, flags := 1 :: List.replicate 7 0 }

theorem writeFirst_run : Run CallStep lastFour [writeFirst] writeFirst.after :=
  .snoc .nil ⟨⟨by decide, by decide, by decide, by decide, by decide⟩, rfl, rfl, rfl⟩

theorem lastFour_ranged : lastFour.Ranged := ⟨by decide, by decide, by decide⟩

theorem range_widens_writeFirst :
    writeFirst.after.Ranged ∧ ∀ l ∈ [writeFirst], l.Widens ↔ l.StartOrEnd :=
  range_widens lastFour_ranged writeFirst_run

/-- The last four entries are not valid any more. -/
theorem range_loses_end : lastFour.Mapped ∧ lastFour.Ranged ∧
    Run CallStep lastFour [writeFirst] writeFirst.after ∧ ¬writeFirst.Widens ∧
    lastFour.valid = interval 4 8 ∧ writeFirst.after.valid = interval 0 4 := by
  refine ⟨⟨by decide, by decide, by decide, by decide, by decide⟩, lastFour_ranged,
    writeFirst_run, fun h => ?_, rfl, rfl⟩
  have hlost := h.kept (show (7 : Int) ∈ interval 4 8 from ⟨by decide, by decide⟩)
  exact absurd hlost.2 (by decide)

end Dga.Cmap
