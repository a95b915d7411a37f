import SolarisXorg.Drm.Proof.MmRun

/-!
# What the searches of the range allocator find

`check_free_hole` passes a hole exactly when there is an address in it for the block, where no address
wraps (`passes_iff`), and passes every such hole even where one does (`passes_of_canHold`). The first
fit is then found whenever there is a fit (`searchHoles_first`), and the insertion puts the block
there: `mmInsertNode_complete`.

With `best_match` the search compares the sizes of the nodes in front of the holes, and not those of
the holes: it finds the first of the smallest of these nodes (`searchHoles_best`). `mmSearch_best_iff`
says when this is a smallest hole.
-/

namespace Drm

open Lib

variable {mm : Mm} {start size : UInt64} {xs : List NodeRef} {a b : NodeRef} {bsize : UInt64}
  {alignment : UInt32} {color : UInt64} {range : Option (UInt64 × UInt64)}

/-! ## Addresses -/

/-- The rounding up gives the least multiple of the alignment that is not below. -/
theorem alignNat_le_iff {s addr : Nat} (h : alignment ≠ 0 → alignment.toNat ∣ addr) :
    alignNat s alignment.toNat ≤ addr ↔ s ≤ addr := by
  constructor
  · exact Nat.le_trans (le_alignNat s _)
  · intro hs
    unfold alignNat
    split
    case isTrue => exact hs
    case isFalse hmod =>
      by_cases h0 : alignment = 0
      · subst h0
        simpa using hs
      · have hpos : 0 < alignment.toNat := by
          rw [Nat.pos_iff_ne_zero]
          exact fun e => h0 (UInt32.toNat_inj.1 e)
        have hlt := Nat.mod_lt s hpos
        obtain ⟨k, rfl⟩ := h h0
        -- the quotient of `s` is below `k`, since `s` itself is no multiple
        have hdiv := Nat.div_add_mod s alignment.toNat
        have hk : s / alignment.toNat < k := by
          apply (Nat.div_lt_iff_lt_mul hpos).2
          rw [Nat.mul_comm]
          refine Nat.lt_of_le_of_ne hs fun e => hmod ?_
          rw [e, Nat.mul_mod_right]
        have hstep := Nat.mul_le_mul_left alignment.toNat (Nat.succ_le_of_lt hk)
        rw [Nat.mul_succ] at hstep
        omega

theorem alignNat_dvd (s : Nat) (h : alignment ≠ 0) : alignment.toNat ∣ alignNat s alignment.toNat := by
  have hpos : 0 < alignment.toNat := by
    rw [Nat.pos_iff_ne_zero]
    exact fun e => h (UInt32.toNat_inj.1 e)
  have hlt := Nat.mod_lt s hpos
  unfold alignNat
  split
  case isTrue h0 => exact Nat.dvd_of_mod_eq_zero h0
  case isFalse h0 =>
    have hdiv := Nat.div_add_mod s alignment.toNat
    refine ⟨s / alignment.toNat + 1, ?_⟩
    rw [Nat.mul_add, Nat.mul_one]
    omega

theorem clampStart_le_iff {s : UInt64} {addr : Nat} :
    (clampStart range s).toNat ≤ addr ↔
      s.toNat ≤ addr ∧ ∀ lo hi, range = some (lo, hi) → lo.toNat ≤ addr := by
  cases range with
  | none => simp [clampStart]
  | some r =>
    obtain ⟨lo, hi⟩ := r
    have hlo : (∀ l h, some (lo, hi) = some (l, h) → l.toNat ≤ addr) ↔ lo.toNat ≤ addr :=
      ⟨fun h => h lo hi rfl, fun h l h' e => by cases e; exact h⟩
    rw [hlo]
    simp only [clampStart, UInt64.lt_iff_toNat_lt]
    split
    · omega
    · omega

theorem le_clampEnd_iff {e : UInt64} {addr : Nat} :
    addr ≤ (clampEnd range e).toNat ↔
      addr ≤ e.toNat ∧ ∀ lo hi, range = some (lo, hi) → addr ≤ hi.toNat := by
  cases range with
  | none => simp [clampEnd]
  | some r =>
    obtain ⟨lo, hi⟩ := r
    have hhi : (∀ l h, some (lo, hi) = some (l, h) → addr ≤ h.toNat) ↔ addr ≤ hi.toNat :=
      ⟨fun h => h lo hi rfl, fun h l h' e => by cases e; exact h⟩
    rw [hhi]
    simp only [clampEnd, UInt64.lt_iff_toNat_lt]
    split
    · omega
    · omega

/-- A hole that passes is large enough for the block at its rounded start. -/
theorem checkFreeHole_iff {s e : UInt64}
    (hb : alignNat s.toNat alignment.toNat + bsize.toNat < 2 ^ 64) :
    checkFreeHole s e bsize alignment = true ↔
      alignNat s.toNat alignment.toNat + bsize.toNat ≤ e.toNat := by
  have hle := le_alignNat s.toNat alignment.toNat
  have hal := alignStart_toNat (Nat.lt_of_le_of_lt (Nat.le_add_right _ _) hb)
  have hsum : (alignStart s alignment + bsize).toNat =
      alignNat s.toNat alignment.toNat + bsize.toNat := by
    rw [UInt64.toNat_add, hal]
    exact Nat.mod_eq_of_lt hb
  unfold checkFreeHole
  split
  case isTrue hlt =>
    -- the difference is no wrapped one, since it is small
    apply iff_of_false (by simp)
    intro hfit
    have hse : s ≤ e := by
      rw [UInt64.le_iff_toNat_le]
      omega
    rw [UInt64.lt_iff_toNat_lt, UInt64.toNat_sub_of_le _ _ hse] at hlt
    omega
  case isFalse =>
    rw [decide_eq_true_iff, UInt64.le_iff_toNat_le, hsum]

/-! ## Holes -/

theorem Mm.WellFormed.hole_exists (h : mm.WellFormed start size xs) (ha : a ∈ mm.holeStack) :
    ∃ e, mmHoleNodeStart mm a = some (rawHoleNodeStart mm a) ∧ mmHoleNodeEnd mm a = some e := by
  obtain ⟨hmem, hf⟩ := (h.holeMem a).1 ha
  obtain ⟨p, q, hpq⟩ := List.append_of_mem hmem
  have hr := h.ring
  rw [hpq] at hr
  refine ⟨(mm.node (succ p a q)).start, by rw [mmHoleNodeStart, if_pos hf], ?_⟩
  rw [mmHoleNodeEnd, hr.next]
  rfl

/-- The address found for a block, in terms of the cut hole. -/
theorem fitsAt_iff {e : UInt64} (he : mmHoleNodeEnd mm a = some e) {addr : Nat} :
    mm.FitsAt a bsize alignment range addr ↔
      (clampStart range (rawHoleNodeStart mm a)).toNat ≤ addr ∧
        (alignment ≠ 0 → alignment.toNat ∣ addr) ∧
          addr + bsize.toNat ≤ (clampEnd range e).toNat := by
  rw [clampStart_le_iff, le_clampEnd_iff]
  constructor
  · rintro ⟨hlow, ⟨e', he', hhigh⟩, hal, hin⟩
    rw [he] at he'
    cases he'
    exact ⟨⟨hlow, fun lo hi h => (hin lo hi h).1⟩, hal, hhigh, fun lo hi h => (hin lo hi h).2⟩
  · rintro ⟨⟨hlow, hlo⟩, hal, hhigh, hhi⟩
    exact ⟨hlow, ⟨e, he, hhigh⟩, hal, fun lo hi h => ⟨hlo lo hi h, hhi lo hi h⟩⟩

/-- A hole that has room passes, wherever it is. -/
theorem passes_of_canHold (h : mm.CanHold a bsize alignment range) :
    mm.passes bsize alignment range a = true := by
  obtain ⟨addr, hfit⟩ := h
  obtain ⟨e, he, -⟩ := hfit.high
  obtain ⟨hlow, hal, hhigh⟩ := (fitsAt_iff he).1 hfit
  have hle := (alignNat_le_iff hal).2 hlow
  have hlt := (clampEnd range e).toNat_lt
  simp only [Mm.passes, he]
  rw [checkFreeHole_iff (by omega)]
  omega

/-- A hole that passes has room at its rounded start, where that does not wrap. -/
theorem fitsAt_of_passes (hb : mm.EndsBelow a bsize alignment range)
    (h : mm.passes bsize alignment range a = true) :
    mm.FitsAt a bsize alignment range
      (alignStart (clampStart range (rawHoleNodeStart mm a)) alignment).toNat := by
  unfold Mm.EndsBelow at hb
  unfold Mm.passes at h
  split at h
  case h_1 e he =>
    rw [checkFreeHole_iff hb] at h
    rw [alignStart_toNat (Nat.lt_of_le_of_lt (Nat.le_add_right _ _) hb), fitsAt_iff he]
    exact ⟨le_alignNat _ _, alignNat_dvd _, h⟩
  case h_2 => cases h

theorem holeFits_passes (h : mm.WellFormed start size xs) (hc : mm.colorAdjust = none)
    (ha : a ∈ mm.holeStack) :
    holeFits mm bsize alignment color range a = some (mm.passes bsize alignment range a) := by
  obtain ⟨e, hs, he⟩ := h.hole_exists ha
  rw [holeFits_eq hc hs he]
  simp only [Mm.passes, he]

/-! ## The first fit -/

theorem searchHoles_first {f : NodeRef → Bool} {l : List NodeRef}
    (hl : ∀ a ∈ l, holeFits mm bsize alignment color range a = some (f a)) (bestSize : UInt64) :
    searchHoles mm bsize alignment color range false l none bestSize = some (l.find? f) := by
  induction l with
  | nil => rfl
  | cons a l ih =>
    have hl' := fun x hx => hl x (List.mem_cons_of_mem a hx)
    simp only [searchHoles, hl a (.head _), Option.bind_eq_bind, Option.bind_some]
    cases hf : f a with
    | true => simp [hf]
    | false => simp [hf, ih hl']

/-- The first hole that passes. -/
theorem mmSearch_first (h : mm.WellFormed start size xs) (hc : mm.colorAdjust = none)
    (hscan : mm.scannedBlocks = 0) :
    mmSearch mm bsize alignment color range false =
      some (mm.holeStack.find? (mm.passes bsize alignment range)) := by
  rw [mmSearch, if_neg (not_not.2 hscan)]
  exact searchHoles_first (fun a ha => holeFits_passes h hc ha) _

/-! ## Insertions -/

/-- What an insertion comes to: the block is put at an address of a hole that has room for it, or
there is no such hole and nothing changes. -/
structure Inserted (mm mm' : Mm) (x : NodeRef) (size : UInt64) (alignment : UInt32)
    (range : Option (UInt64 × UInt64)) (ret : Int) : Prop where
  ok_iff : ret = 0 ↔ ∃ a ∈ mm.holeStack, mm.CanHold a size alignment range
  placed : ret = 0 → ∃ a ∈ mm.holeStack, ∃ e, mmHoleNodeEnd mm a = some e ∧
    mm.FitsAt a size alignment range (mm'.node x).start.toNat ∧
      Placed mm mm' a x (mm'.node x).start size e
  failed : ret ≠ 0 → ret = -ENOSPC ∧ mm' = mm

/-- A node that is not allocated is put in a hole that passes, and no `BUG_ON` fires. -/
theorem mmPlace_passes (h : mm.WellFormed start size xs) {n : Nat}
    (hn : (mm.node (.node n)).allocated = false) (ha : a ∈ mm.holeStack)
    (hb : mm.EndsBelow a bsize alignment range) (hp : mm.passes bsize alignment range a = true)
    {e : UInt64} (he : mmHoleNodeEnd mm a = some e) (color : UInt64) {bug : UInt64 → Bool}
    (hbug : ∀ u ≤ clampEnd range e, bug u = false) :
    ∃ mm', mmPlace mm a (.node n) bsize color (rawHoleNodeStart mm a) e
        (alignStart (clampStart range (rawHoleNodeStart mm a)) alignment) bug = some mm' ∧
      Placed mm mm' a (.node n) (alignStart (clampStart range (rawHoleNodeStart mm a)) alignment)
        bsize e := by
  obtain ⟨hmem, hf⟩ := (h.holeMem a).1 ha
  have hout : NodeRef.node n ∉ NodeRef.headNode :: xs := by
    intro hm
    have hal := ((h.blocks (.node n)).1 ((List.mem_cons.1 hm).resolve_left (by simp))).2
    rw [hn] at hal
    cases hal
  have hring := h.ring
  obtain ⟨p, q, hpq⟩ := List.append_of_mem hmem
  rw [hpq] at hring
  obtain ⟨L, hL, -⟩ := hring.insertAfter (hpq ▸ hout)
  obtain ⟨-, -, hhigh⟩ := (fitsAt_iff he).1 (fitsAt_of_passes hb hp)
  have hsum : (alignStart (clampStart range (rawHoleNodeStart mm a)) alignment + bsize).toNat =
      (alignStart (clampStart range (rawHoleNodeStart mm a)) alignment).toNat + bsize.toNat := by
    rw [UInt64.toNat_add]
    exact Nat.mod_eq_of_lt (Nat.lt_of_le_of_lt hhigh (UInt64.toNat_lt _))
  have hend : alignStart (clampStart range (rawHoleNodeStart mm a)) alignment + bsize ≤
      clampEnd range e := by
    rw [UInt64.le_iff_toNat_le, hsum]
    exact hhigh
  exact mmPlace_placed (fun e => hout (e ▸ hmem)) ha hf hL (hbug _ hend)
    (UInt64.le_trans hend (clampEnd_le range e))

theorem mmInsertHelper_passes (h : mm.WellFormed start size xs) (hc : mm.colorAdjust = none)
    {n : Nat} (hn : (mm.node (.node n)).allocated = false) (ha : a ∈ mm.holeStack)
    (hb : mm.EndsBelow a bsize alignment none) (hp : mm.passes bsize alignment none a = true)
    (color : UInt64) :
    ∃ mm' e, mmInsertHelper mm a (.node n) bsize alignment color = some mm' ∧
      mmHoleNodeEnd mm a = some e ∧
      Placed mm mm' a (.node n) (alignStart (clampStart none (rawHoleNodeStart mm a)) alignment)
        bsize e := by
  obtain ⟨e, hs, he⟩ := h.hole_exists ha
  have hbug : ∀ u ≤ clampEnd none e, decide (e < u) = false := by
    intro u hu
    simpa [clampEnd] using hu
  obtain ⟨mm', hplace, hplaced⟩ := mmPlace_passes h hn ha hb hp he color hbug
  refine ⟨mm', e, ?_, he, hplaced⟩
  simp only [mmInsertHelper, hs, he, Option.bind_eq_bind, Option.bind_some, hn, Bool.false_eq_true,
    if_false, colorAdjusted, hc]
  exact hplace

theorem mmInsertHelperRange_passes (h : mm.WellFormed start size xs) (hc : mm.colorAdjust = none)
    {n : Nat} (hn : (mm.node (.node n)).allocated = false) (ha : a ∈ mm.holeStack) {lo hi : UInt64}
    (hb : mm.EndsBelow a bsize alignment (some (lo, hi)))
    (hp : mm.passes bsize alignment (some (lo, hi)) a = true) (color : UInt64) :
    ∃ mm' e, mmInsertHelperRange mm a (.node n) bsize alignment color lo hi = some mm' ∧
      mmHoleNodeEnd mm a = some e ∧
      Placed mm mm' a (.node n)
        (alignStart (clampStart (some (lo, hi)) (rawHoleNodeStart mm a)) alignment) bsize e := by
  obtain ⟨e, hs, he⟩ := h.hole_exists ha
  have hf := ((h.holeMem a).1 ha).2
  have hbug : ∀ u ≤ clampEnd (some (lo, hi)) e,
      (decide (clampEnd (some (lo, hi)) e < u) || decide (hi < u)) = false := by
    intro u hu
    have hstop := UInt64.le_trans hu (clampEnd_le_stop lo hi e)
    simp [UInt64.not_lt.2 hu, UInt64.not_lt.2 hstop]
  obtain ⟨mm', hplace, hplaced⟩ := mmPlace_passes h hn ha hb hp he color hbug
  refine ⟨mm', e, ?_, he, hplaced⟩
  simp only [mmInsertHelperRange, hs, he, Option.bind_eq_bind, Option.bind_some, hf, hn,
    Bool.not_true, Bool.or_self, Bool.false_eq_true, if_false, colorAdjusted, hc]
  exact hplace

/-- The search and the placement together: `insert` puts the node in a hole that passes. -/
theorem inserted_of_first {n : Nat} {insert : NodeRef → Option Mm}
    (hb : ∀ a ∈ mm.holeStack, mm.EndsBelow a bsize alignment range)
    (hinsert : ∀ a ∈ mm.holeStack, mm.passes bsize alignment range a = true →
      ∃ mm' e, insert a = some mm' ∧ mmHoleNodeEnd mm a = some e ∧
        Placed mm mm' a (.node n) (alignStart (clampStart range (rawHoleNodeStart mm a)) alignment)
          bsize e) :
    ∃ ret mm', (match mm.holeStack.find? (mm.passes bsize alignment range) with
        | none => some (-ENOSPC, mm)
        | some a => (insert a).bind fun mm' => pure ((0 : Int), mm')) = some (ret, mm') ∧
      Inserted mm mm' (.node n) bsize alignment range ret := by
  cases hfind : mm.holeStack.find? (mm.passes bsize alignment range) with
  | none =>
    refine ⟨-ENOSPC, mm, rfl, ⟨?_, fun h0 => absurd h0 (by decide), fun _ => ⟨rfl, rfl⟩⟩⟩
    apply iff_of_false (by decide)
    rintro ⟨a, ha, hcan⟩
    exact List.find?_eq_none.1 hfind a ha (passes_of_canHold hcan)
  | some a =>
    have ha := List.mem_of_find?_eq_some hfind
    have hp := List.find?_some hfind
    obtain ⟨mm', e, hins, he, hplaced⟩ := hinsert a ha hp
    have hfit := fitsAt_of_passes (hb a ha) hp
    refine ⟨0, mm', by simp only [hins]; rfl, ⟨?_, fun _ => ?_, fun h0 => absurd rfl h0⟩⟩
    · exact iff_of_true rfl ⟨a, ha, _, hfit⟩
    · refine ⟨a, ha, e, he, ?_⟩
      rw [hplaced.newStart]
      exact ⟨hfit, hplaced⟩

/-- **Search and insertion agree.** On a well-formed manager that is not being scanned and has no
`color_adjust`, and for a node that is not allocated, both insertions return 0 if and only if some
hole has an address for the block, and then put it at such an address of a hole; otherwise they return
`-ENOSPC` and change nothing. No `BUG_ON` fires. No address with the alignment and the size of the
block may wrap. -/
theorem mmInsertNode_complete (h : mm.WellFormed start size xs) (hc : mm.colorAdjust = none)
    (hscan : mm.scannedBlocks = 0) {n : Nat} (hn : (mm.node (.node n)).allocated = false)
    (bsize : UInt64) (alignment : UInt32) (color : UInt64) :
    ((∀ a ∈ mm.holeStack, mm.EndsBelow a bsize alignment none) →
      ∃ ret mm', mmInsertNodeGeneric mm (.node n) bsize alignment color = some (ret, mm') ∧
        Inserted mm mm' (.node n) bsize alignment none ret) ∧
    ∀ lo hi, (∀ a ∈ mm.holeStack, mm.EndsBelow a bsize alignment (some (lo, hi))) →
      ∃ ret mm', mmInsertNodeInRangeGeneric mm (.node n) bsize alignment color lo hi =
          some (ret, mm') ∧
        Inserted mm mm' (.node n) bsize alignment (some (lo, hi)) ret := by
  constructor
  · intro hb
    obtain ⟨ret, mm', hres, hins⟩ := inserted_of_first hb fun a ha hp =>
      mmInsertHelper_passes h hc hn ha (hb a ha) hp color
    refine ⟨ret, mm', ?_, hins⟩
    rw [← hres]
    rw [mmInsertNodeGeneric, mmSearchFreeGeneric, mmSearch_first h hc hscan]
    cases mm.holeStack.find? (mm.passes bsize alignment none) <;> rfl
  · intro lo hi hb
    obtain ⟨ret, mm', hres, hins⟩ := inserted_of_first hb fun a ha hp =>
      mmInsertHelperRange_passes h hc hn ha (hb a ha) hp color
    refine ⟨ret, mm', ?_, hins⟩
    rw [← hres]
    rw [mmInsertNodeInRangeGeneric, mmSearchFreeInRangeGeneric, mmSearch_first h hc hscan]
    cases mm.holeStack.find? (mm.passes bsize alignment (some (lo, hi))) <;> rfl

/-- A block with an alignment in part of a fresh manager. -/
theorem mmInsertNode_complete_fresh :
    ∃ ret mm', mmInsertNodeInRangeGeneric (mmInit blankMm 0x1000 0x8000) (.node 0) 0x1000 0x4000 0
        0x2000 0x9000 = some (ret, mm') ∧
      Inserted (mmInit blankMm 0x1000 0x8000) mm' (.node 0) 0x1000 0x4000 (some (0x2000, 0x9000))
        ret ∧ ret = 0 := by
  have h : (mmInit blankMm 0x1000 0x8000).Inv 0x1000 0x8000 [] :=
    mmInit_inv (fun _ _ => rfl) (by decide) (by decide)
  have hb : ∀ a ∈ (mmInit blankMm 0x1000 0x8000).holeStack,
      (mmInit blankMm 0x1000 0x8000).EndsBelow a 0x1000 0x4000 (some (0x2000, 0x9000)) := by
    intro a ha
    obtain rfl : a = .headNode := List.mem_singleton.1 ha
    unfold Mm.EndsBelow
    decide
  obtain ⟨ret, mm', hres, hins⟩ :=
    (mmInsertNode_complete h.wellFormed rfl rfl rfl 0x1000 0x4000 0).2 0x2000 0x9000 hb
  refine ⟨ret, mm', hres, hins, hins.ok_iff.2 ⟨.headNode, .head _, 0x4000, ?_⟩⟩
  exact
    { low := by decide
      high := ⟨0x9000, by decide, by decide⟩
      aligned := fun _ => ⟨1, by decide⟩
      inRange := by
        rintro lo hi ⟨⟩
        decide }

/-! ## The best match -/

/-- `a` is the first of the nodes with the smallest size among those that satisfy `f` and whose size
is not the largest of all. -/
def Mm.FirstSmallest (mm : Mm) (f : NodeRef → Bool) (l : List NodeRef) (a : NodeRef) : Prop :=
  ∃ p q, l = p ++ a :: q ∧ f a = true ∧ (mm.node a).size < 0 - 1 ∧
    (∀ b ∈ p, f b = true → (mm.node a).size < (mm.node b).size) ∧
    ∀ b ∈ q, f b = true → (mm.node a).size ≤ (mm.node b).size

/-- The loop keeps the best so far unless a smaller node comes, and then ends with the first of the
smallest. -/
theorem searchHoles_best {f : NodeRef → Bool} {l : List NodeRef}
    (hl : ∀ a ∈ l, holeFits mm bsize alignment color range a = some (f a)) (best : Option NodeRef)
    (bestSize : UInt64) :
    ∃ r, searchHoles mm bsize alignment color range true l best bestSize = some r ∧
      ((r = best ∧ ∀ b ∈ l, f b = true → bestSize ≤ (mm.node b).size) ∨
        ∃ a p q, r = some a ∧ l = p ++ a :: q ∧ f a = true ∧ (mm.node a).size < bestSize ∧
          (∀ b ∈ p, f b = true → (mm.node a).size < (mm.node b).size) ∧
          ∀ b ∈ q, f b = true → (mm.node a).size ≤ (mm.node b).size) := by
  induction l generalizing best bestSize with
  | nil => exact ⟨best, rfl, .inl ⟨rfl, by simp⟩⟩
  | cons x l ih =>
    have hl' := fun y hy => hl y (List.mem_cons_of_mem x hy)
    simp only [searchHoles, hl x (.head _), Option.bind_eq_bind, Option.bind_some]
    cases hf : f x with
    | false =>
      simp only [Bool.false_eq_true, if_false]
      obtain ⟨r, hr, h | ⟨a, p, q, rfl, rfl, hfa, hlt, hp, hq⟩⟩ := ih hl' best bestSize
      · refine ⟨r, hr, .inl ⟨h.1, ?_⟩⟩
        simpa [hf] using h.2
      · refine ⟨some a, hr, .inr ⟨a, x :: p, q, rfl, rfl, hfa, hlt, ?_, hq⟩⟩
        simpa [hf] using hp
    | true =>
      simp only [if_true, Bool.not_true, Bool.false_eq_true, if_false]
      split
      case isTrue hlt =>
        obtain ⟨r, hr, h | ⟨a, p, q, rfl, rfl, hfa, ha, hp, hq⟩⟩ :=
          ih hl' (some x) (mm.node x).size
        · exact ⟨r, hr, .inr ⟨x, [], l, h.1, rfl, hf, hlt, by simp, h.2⟩⟩
        · refine ⟨some a, hr, .inr ⟨a, x :: p, q, rfl, rfl, hfa, UInt64.lt_trans ha hlt, ?_, hq⟩⟩
          simpa [hf, ha] using hp
      case isFalse hge =>
        rw [UInt64.not_lt] at hge
        obtain ⟨r, hr, h | ⟨a, p, q, rfl, rfl, hfa, ha, hp, hq⟩⟩ := ih hl' best bestSize
        · refine ⟨r, hr, .inl ⟨h.1, ?_⟩⟩
          simpa [hf, hge] using h.2
        · refine ⟨some a, hr, .inr ⟨a, x :: p, q, rfl, rfl, hfa, ha, ?_, hq⟩⟩
          simpa [hf, UInt64.lt_of_lt_of_le ha hge] using hp

/-- What the search with `best_match` returns. -/
theorem mmSearch_best (h : mm.WellFormed start size xs) (hc : mm.colorAdjust = none)
    (hscan : mm.scannedBlocks = 0) :
    ∃ r, mmSearch mm bsize alignment color range true = some r ∧
      ((r = none ∧ ∀ b ∈ mm.holeStack, mm.passes bsize alignment range b = true →
          (mm.node b).size = 0 - 1) ∨
        ∃ a, r = some a ∧
          mm.FirstSmallest (mm.passes bsize alignment range) mm.holeStack a) := by
  rw [mmSearch, if_neg (not_not.2 hscan)]
  have hbest : ∃ r, searchHoles mm bsize alignment color range true mm.holeStack none (0 - 1) =
      some r ∧ _ := searchHoles_best (fun a ha => holeFits_passes h hc ha) none (0 - 1)
  obtain ⟨r, hr, ⟨rfl, hall⟩ | ⟨a, p, q, rfl, hpq, hrest⟩⟩ := hbest
  · refine ⟨none, hr, .inl ⟨rfl, fun b hb hp => ?_⟩⟩
    have hmax := hall b hb hp
    have hlt := (mm.node b).size.toNat_lt
    have htop : (0 - 1 : UInt64).toNat = 2 ^ 64 - 1 := rfl
    rw [UInt64.le_iff_toNat_le, htop] at hmax
    apply UInt64.toNat_inj.1
    omega
  · exact ⟨some a, hr, .inr ⟨a, rfl, p, q, hpq, hrest⟩⟩

/-- The hole the search should find: one that has room, and of the smallest size, or none if no hole
has room. -/
def Mm.BestFit (mm : Mm) (size : UInt64) (alignment : UInt32) (range : Option (UInt64 × UInt64))
    (r : Option NodeRef) : Prop :=
  match r with
  | none => ∀ b ∈ mm.holeStack, ¬ mm.CanHold b size alignment range
  | some a => a ∈ mm.holeStack ∧ mm.CanHold a size alignment range ∧
      ∀ b ∈ mm.holeStack, mm.CanHold b size alignment range → mm.holeSize a ≤ mm.holeSize b

/-- The search prefers `c` to `a`: the node in front of it is smaller, or as large and `c` stands
before `a` on `hole_stack`. -/
def Mm.Preferred (mm : Mm) (c a : NodeRef) : Prop :=
  (mm.node c).size < (mm.node a).size ∨
    (mm.node c).size = (mm.node a).size ∧ mm.holeStack.idxOf c < mm.holeStack.idxOf a

/-- The sizes of the nodes order the holes as the sizes of the holes do, as far as a request goes: a
hole that is larger than one with room, or passes `check_free_hole` without room, is not the one with
the least node among those that pass, and a hole with room is not overlooked because every node in
front of one that passes has the largest size. -/
structure Mm.NodesOrderHoles (mm : Mm) (size : UInt64) (alignment : UInt32)
    (range : Option (UInt64 × UInt64)) : Prop where
  larger : ∀ a ∈ mm.holeStack, mm.passes size alignment range a = true →
    (mm.node a).size < 0 - 1 → ∀ b ∈ mm.holeStack, mm.CanHold b size alignment range →
      mm.holeSize b < mm.holeSize a →
        ∃ c ∈ mm.holeStack, mm.passes size alignment range c = true ∧ mm.Preferred c a
  room : ∀ a ∈ mm.holeStack, mm.passes size alignment range a = true →
    (mm.node a).size < 0 - 1 → ¬ mm.CanHold a size alignment range →
      ∃ c ∈ mm.holeStack, mm.passes size alignment range c = true ∧ mm.Preferred c a
  seen : ∀ b ∈ mm.holeStack, mm.CanHold b size alignment range →
    ∃ a ∈ mm.holeStack, mm.passes size alignment range a = true ∧ (mm.node a).size < 0 - 1

theorem Mm.Preferred.asymm {c : NodeRef} (h : mm.Preferred c a) : ¬ mm.Preferred a c := by
  intro h'
  rcases h with hlt | ⟨heq, hidx⟩
  · rcases h' with hlt' | ⟨heq', -⟩
    · exact absurd hlt' (UInt64.not_lt.2 (UInt64.le_of_lt hlt))
    · rw [heq'] at hlt
      exact absurd hlt (UInt64.lt_irrefl _)
  · rcases h' with hlt' | ⟨-, hidx'⟩
    · rw [heq] at hlt'
      exact absurd hlt' (UInt64.lt_irrefl _)
    · exact Nat.lt_asymm hidx hidx'

/-- The first of the smallest is preferred to every other hole that passes. -/
theorem Mm.FirstSmallest.preferred (hnodup : mm.holeStack.Nodup) {f : NodeRef → Bool}
    (h : mm.FirstSmallest f mm.holeStack a) {c : NodeRef} (hc : c ∈ mm.holeStack) (hf : f c = true)
    (hne : c ≠ a) : mm.Preferred a c := by
  obtain ⟨p, q, hpq, -, -, hp, hq⟩ := h
  rw [hpq] at hc
  rcases List.mem_append.1 hc with hcp | hcq
  · exact .inl (hp c hcp hf)
  have hcq := (List.mem_cons.1 hcq).resolve_left hne
  rcases UInt64.le_iff_lt_or_eq.1 (hq c hcq hf) with hlt | heq
  · exact .inl hlt
  -- as large, and behind
  refine .inr ⟨heq, ?_⟩
  rw [hpq] at hnodup
  have hap : a ∉ p := fun ha => (List.nodup_append.1 hnodup).2.2 a ha a (.head _) rfl
  have hcp : c ∉ p := fun hcp =>
    (List.nodup_append.1 hnodup).2.2 c hcp c (List.mem_cons_of_mem a hcq) rfl
  rw [hpq, List.idxOf_append_of_notMem hap, List.idxOf_append_of_notMem hcp, List.idxOf_cons_self,
    List.idxOf_cons_ne _ (Ne.symm hne)]
  omega

theorem mmSearch_best_iff (h : mm.WellFormed start size xs) (hc : mm.colorAdjust = none)
    (hscan : mm.scannedBlocks = 0) :
    (∃ r, mmSearch mm bsize alignment color range true = some r ∧
      mm.BestFit bsize alignment range r) ↔ mm.NodesOrderHoles bsize alignment range := by
  have hbest : ∃ r, mmSearch mm bsize alignment color range true = some r ∧ _ :=
    mmSearch_best h hc hscan
  obtain ⟨r, hr, hcase⟩ := hbest
  have hfound : (∃ r, mmSearch mm bsize alignment color range true = some r ∧
      mm.BestFit bsize alignment range r) ↔ mm.BestFit bsize alignment range r := by
    rw [hr]
    constructor
    · intro hres
      obtain ⟨r', hr', hfit⟩ := hres
      cases hr'
      exact hfit
    · exact fun hfit => ⟨r, rfl, hfit⟩
  rw [hfound]
  rcases hcase with ⟨rfl, hall⟩ | ⟨a, rfl, hfirst⟩
  · -- every node in front of a hole that passes has the largest size
    have hmax {x : NodeRef} (hx : x ∈ mm.holeStack) (hp : mm.passes bsize alignment range x = true) :
        ¬ (mm.node x).size < 0 - 1 := by
      rw [hall x hx hp]
      exact UInt64.lt_irrefl _
    constructor
    · intro hfit
      exact
        { larger := fun x hx hp hlt => absurd hlt (hmax hx hp)
          room := fun x hx hp hlt => absurd hlt (hmax hx hp)
          seen := fun b hb hcan => absurd hcan (hfit b hb) }
    · intro hcond b hb hcan
      obtain ⟨x, hx, hp, hlt⟩ := hcond.seen b hb hcan
      exact hmax hx hp hlt
  · have ha : a ∈ mm.holeStack := by
      obtain ⟨p, q, hpq, -⟩ := hfirst
      rw [hpq]
      simp
    obtain ⟨hpass, hlt⟩ : mm.passes bsize alignment range a = true ∧ (mm.node a).size < 0 - 1 := by
      obtain ⟨p, q, -, hpass, hlt, -⟩ := hfirst
      exact ⟨hpass, hlt⟩
    constructor
    · intro hfit
      obtain ⟨-, hcan, hleast⟩ := hfit
      refine ⟨fun x hx hp _ b hb hb' hsize => ⟨a, ha, hpass, hfirst.preferred h.holeNodup hx hp ?_⟩,
        fun x hx hp _ hno => ⟨a, ha, hpass, hfirst.preferred h.holeNodup hx hp ?_⟩,
        fun _ _ _ => ⟨a, ha, hpass, hlt⟩⟩
      · intro hxa
        have hle := hleast b hb hb'
        rw [hxa] at hsize
        omega
      · intro hxa
        rw [hxa] at hno
        exact hno hcan
    · intro hcond
      -- no hole is preferred to the one that is found
      have hbeaten : ¬ ∃ c ∈ mm.holeStack,
          mm.passes bsize alignment range c = true ∧ mm.Preferred c a := by
        intro hpref
        obtain ⟨c, hc, hp, hpref⟩ := hpref
        by_cases hca : c = a
        · subst hca
          exact hpref.asymm hpref
        · exact hpref.asymm (hfirst.preferred h.holeNodup hc hp hca)
      refine ⟨ha, ?_, fun b hb hcan => ?_⟩
      · by_contra hno
        exact hbeaten (hcond.room a ha hpass hlt hno)
      · by_contra hsize
        exact hbeaten (hcond.larger a ha hpass hlt b hb hcan (by omega))

/-- **The best match.** On a well-formed manager that is not being scanned and has no
`color_adjust`, each of the two searches finds with `best_match` a smallest hole that has room, or none
if there is none, exactly when the sizes of the nodes in front of the holes lead to one
(`Mm.NodesOrderHoles`). -/
theorem mmSearchFree_best_iff (h : mm.WellFormed start size xs) (hc : mm.colorAdjust = none)
    (hscan : mm.scannedBlocks = 0) (bsize : UInt64) (alignment : UInt32) (color : UInt64) :
    ((∃ r, mmSearchFreeGeneric mm bsize alignment color true = some r ∧
        mm.BestFit bsize alignment none r) ↔ mm.NodesOrderHoles bsize alignment none) ∧
    ∀ lo hi, (∃ r, mmSearchFreeInRangeGeneric mm bsize alignment color lo hi true = some r ∧
        mm.BestFit bsize alignment (some (lo, hi)) r) ↔
      mm.NodesOrderHoles bsize alignment (some (lo, hi)) :=
  ⟨mmSearch_best_iff h hc hscan, fun _ _ => mmSearch_best_iff h hc hscan⟩

/-- A fresh manager has one hole. -/
theorem mmSearchFree_best_fresh :
    ∃ r, mmSearchFreeGeneric (mmInit blankMm 0 100) 5 0 0 true = some r ∧
      (mmInit blankMm 0 100).BestFit 5 0 none r := by
  have h : (mmInit blankMm 0 100).Inv 0 100 [] :=
    mmInit_inv (fun _ _ => rfl) (by decide) (by decide)
  have hfit : (mmInit blankMm 0 100).FitsAt .headNode 5 0 none 0 :=
    { low := by decide
      high := ⟨100, by decide, by decide⟩
      aligned := fun h0 => absurd rfl h0
      inRange := by
        rintro lo hi ⟨⟩ }
  have hhead : ∀ a ∈ (mmInit blankMm 0 100).holeStack, a = .headNode :=
    fun a ha => List.mem_singleton.1 ha
  have hcan : (mmInit blankMm 0 100).CanHold .headNode 5 0 none := ⟨0, hfit⟩
  refine ((mmSearchFree_best_iff h.wellFormed rfl rfl 5 0 0).1).2 ⟨?_, ?_, ?_⟩
  · intro a ha _ _ b hb _ hlt
    rw [hhead a ha, hhead b hb] at hlt
    exact absurd hlt (Nat.lt_irrefl _)
  · intro a ha _ _ hno
    rw [hhead a ha] at hno
    exact absurd hcan hno
  · exact fun _ _ _ => ⟨.headNode, .head _, passes_of_canHold hcan, by decide⟩

/-- The manager of `[0, 100)` with a block of 10 bytes at 0 and one of 20 bytes at 60: the smaller
block stands before the larger hole. -/
def twoHoles : Option Mm := do
  let mm ← mmStep (mmInit blankMm 0 100) (.createBlock 0 10 (some 0))
  mmStep mm (.createBlock 60 20 (some 1))

theorem twoHoles_wellFormed : ∃ mm xs, twoHoles = some mm ∧ mm.Inv 0 100 xs := by
  have h0 : (mmInit blankMm 0 100).Inv 0 100 [] :=
    mmInit_inv (fun _ _ => rfl) (by decide) (by decide)
  have hfresh0 : (mmInit blankMm 0 100).FreshMem (some 0) := by
    rintro n ⟨⟩
    exact ⟨rfl, by simp [mmInit]⟩
  have had0 : (mmInit blankMm 0 100).Admissible (.createBlock 0 10 (some 0)) :=
    ⟨by decide, by decide, hfresh0⟩
  obtain ⟨mm1, xs1, h1, hinv1⟩ := mmStep_inv h0 had0 trivial
  have hmm1 : some mm1 = mmStep (mmInit blankMm 0 100) (.createBlock 0 10 (some 0)) := h1.symm
  have had1 : mm1.Admissible (.createBlock 60 20 (some 1)) := by
    refine ⟨by decide, by decide, ?_⟩
    rintro n ⟨⟩
    cases hmm1
    exact ⟨rfl, by decide⟩
  obtain ⟨mm2, xs2, h2, hinv2⟩ := mmStep_inv hinv1 had1 trivial
  exact ⟨mm2, xs2, by simp only [twoHoles, h1, Option.bind_eq_bind, Option.bind_some, h2], hinv2⟩

/-- The larger of the two holes is found, since its node is the smaller one. -/
theorem mmSearchFree_best_fails :
    ¬ ∀ (mm : Mm) (start size : UInt64) (xs : List NodeRef) (bsize : UInt64) (alignment : UInt32)
        (color : UInt64), mm.WellFormed start size xs → mm.colorAdjust = none →
      mm.scannedBlocks = 0 → ∃ r, mmSearchFreeGeneric mm bsize alignment color true = some r ∧
        mm.BestFit bsize alignment none r := by
  intro h
  obtain ⟨mm, xs, hmm, hinv⟩ := twoHoles_wellFormed
  have hfound : twoHoles.bind (fun mm => mmSearchFreeGeneric mm 5 0 0 true) =
      some (some (.node 0)) := by decide
  have hsizes : twoHoles.map (fun mm => (mm.holeStack, mm.holeSize (.node 0), mm.holeSize (.node 1),
      mmHoleNodeEnd mm (.node 1), rawHoleNodeStart mm (.node 1))) =
      some ([.node 1, .node 0], 50, 20, some 100, 80) := by decide
  rw [hmm] at hfound hsizes
  simp only [Option.bind_some, Option.map_some, Option.some.injEq, Prod.mk.injEq] at hfound hsizes
  obtain ⟨hstack, h0, h1, hend, hraw⟩ := hsizes
  obtain ⟨r, hr, hfit⟩ := h mm 0 100 xs 5 0 0 hinv.wellFormed hinv.colorAdjust hinv.scannedBlocks
  rw [hfound] at hr
  cases hr
  have hroom : mm.FitsAt (.node 1) 5 0 none 80 :=
    { low := by rw [hraw]; decide
      high := ⟨100, hend, by decide⟩
      aligned := fun hal => absurd rfl hal
      inRange := by
        rintro lo hi ⟨⟩ }
  have hle := hfit.2.2 (.node 1) (by simp [hstack]) ⟨80, hroom⟩
  rw [h0, h1] at hle
  exact absurd hle (by decide)

end Drm
