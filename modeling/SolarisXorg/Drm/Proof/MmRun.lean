import SolarisXorg.Drm.Proof.MmInv

/-!
# Runs of the range allocator

`mmStep_inv`: a call keeps `Mm.Inv` and does not panic, when its address arithmetic does not wrap.
The parts: what the search returns (`searchHoles_spec`, `mmSearch_hole`), that a hole it accepts has
room (`Mm.HoleOk.room`), and what `drm_mm_kmalloc` hands out (`mmKmalloc_spec`).

`mm_run_keeps_invariant` carries this to every run from `drm_mm_init`. Without the condition it
fails: a hole whose start wraps when it is rounded up to the alignment passes `check_free_hole`
(`mm_insert_wraps`).
-/

namespace Drm

open Lib

/-! ## Rounding up -/

theorem le_alignNat (start alignment : Nat) : start ≤ alignNat start alignment := by
  unfold alignNat
  split <;> omega

/-- The rounding up of the code is that of the numbers, where it does not wrap. -/
theorem alignStart_toNat {start : UInt64} {alignment : UInt32}
    (h : alignNat start.toNat alignment.toNat < 2 ^ 64) :
    (alignStart start alignment).toNat = alignNat start.toNat alignment.toNat := by
  unfold alignStart alignNat at *
  have hal := alignment.toNat_lt
  by_cases h0 : alignment = 0
  · subst h0
    simp
  · have hpos : 0 < alignment.toNat := by
      rw [Nat.pos_iff_ne_zero]
      exact fun e => h0 (UInt32.toNat_inj.1 e)
    have hmod := Nat.mod_lt start.toNat hpos
    have htmp : (start % alignment.toUInt64).toUInt32.toNat = start.toNat % alignment.toNat := by
      simp
      omega
    rw [if_pos h0]
    by_cases ht : start.toNat % alignment.toNat = 0
    · have : (start % alignment.toUInt64).toUInt32 = 0 := UInt32.toNat_inj.1 (by rw [htmp, ht]; rfl)
      simp [this, ht]
    · have hne : (start % alignment.toUInt64).toUInt32 ≠ 0 := fun e => ht (by rw [← htmp, e]; rfl)
      have hle : (start % alignment.toUInt64).toUInt32 ≤ alignment := by
        rw [UInt32.le_iff_toNat_le, htmp]
        omega
      rw [if_neg ht] at h ⊢
      rw [if_pos hne, UInt64.toNat_add, UInt32.toNat_toUInt64, UInt32.toNat_sub_of_le _ _ hle, htmp]
      exact Nat.mod_eq_of_lt h

/-! ## Searching -/

/-- The hole of `a` can take the block, as `check_free_hole` sees it. -/
structure Mm.HoleOk (mm : Mm) (a : NodeRef) (size : UInt64) (alignment : UInt32)
    (range : Option (UInt64 × UInt64)) (holeEnd : UInt64) : Prop where
  mem : a ∈ mm.holeStack
  stop : mmHoleNodeEnd mm a = some holeEnd
  check : checkFreeHole (clampStart range (rawHoleNodeStart mm a)) (clampEnd range holeEnd) size
    alignment = true

theorem le_clampStart (range : Option (UInt64 × UInt64)) (s : UInt64) : s ≤ clampStart range s := by
  unfold clampStart
  split
  · split
    · rename_i h
      exact UInt64.le_of_lt h
    · exact UInt64.le_refl s
  · exact UInt64.le_refl s

theorem clampEnd_le (range : Option (UInt64 × UInt64)) (e : UInt64) : clampEnd range e ≤ e := by
  unfold clampEnd
  split
  · split
    · rename_i h
      exact UInt64.le_of_lt h
    · exact UInt64.le_refl e
  · exact UInt64.le_refl e

theorem clampEnd_le_stop (start stop e : UInt64) : clampEnd (some (start, stop)) e ≤ stop := by
  simp only [clampEnd]
  split
  · exact UInt64.le_refl stop
  · rename_i h
    exact UInt64.not_lt.1 h

/-- **Room.** A hole that passes the check holds the rounded block, where no address wraps. -/
theorem Mm.HoleOk.room {mm : Mm} {a : NodeRef} {size : UInt64} {alignment : UInt32}
    {range : Option (UInt64 × UInt64)} {holeEnd : UInt64}
    (h : mm.HoleOk a size alignment range holeEnd) (hb : mm.EndsBelow a size alignment range) :
    let start := alignStart (clampStart range (rawHoleNodeStart mm a)) alignment
    rawHoleNodeStart mm a ≤ start ∧ start + size ≤ clampEnd range holeEnd ∧
      start.toNat + size.toNat < 2 ^ 64 := by
  intro start
  unfold Mm.EndsBelow at hb
  have hal : start.toNat = _ := alignStart_toNat (Nat.lt_of_le_of_lt (Nat.le_add_right _ _) hb)
  have hle := le_alignNat (clampStart range (rawHoleNodeStart mm a)).toNat alignment.toNat
  refine ⟨UInt64.le_trans (le_clampStart range _) ?_, ?_, by rw [hal]; exact hb⟩
  · rw [UInt64.le_iff_toNat_le, hal]
    exact hle
  · have hc := h.check
    unfold checkFreeHole at hc
    split at hc
    · cases hc
    · simpa using hc

theorem holeFits_eq {mm : Mm} (hc : mm.colorAdjust = none) {size : UInt64} {alignment : UInt32}
    {color : UInt64} {range : Option (UInt64 × UInt64)} {a : NodeRef} {s e : UInt64}
    (hs : mmHoleNodeStart mm a = some s) (he : mmHoleNodeEnd mm a = some e) :
    holeFits mm size alignment color range a =
      some (checkFreeHole (clampStart range s) (clampEnd range e) size alignment) := by
  simp [holeFits, hs, he, hc, colorAdjusted]

/-- The loop returns, and only an entry that fits. -/
theorem searchHoles_spec {mm : Mm} {size : UInt64} {alignment : UInt32} {color : UInt64}
    {range : Option (UInt64 × UInt64)} {bestMatch : Bool} {P : NodeRef → Prop}
    {l : List NodeRef} (hl : ∀ a ∈ l, ∃ b, holeFits mm size alignment color range a = some b ∧
      (b = true → P a)) {best : Option NodeRef} (hbest : ∀ a, best = some a → P a)
    (bestSize : UInt64) :
    ∃ r, searchHoles mm size alignment color range bestMatch l best bestSize = some r ∧
      ∀ a, r = some a → P a := by
  induction l generalizing best bestSize with
  | nil => exact ⟨best, rfl, hbest⟩
  | cons a l ih =>
    have hl' := fun x hx => hl x (List.mem_cons_of_mem a hx)
    obtain ⟨b, hb, hP⟩ := hl a (.head _)
    simp only [searchHoles, hb, Option.bind_eq_bind, Option.bind_some]
    cases b with
    | false => exact ih hl' hbest bestSize
    | true =>
      have hnew : ∀ x, some a = some x → P x := fun x hx => by
        cases hx
        exact hP rfl
      cases bestMatch with
      | false => exact ⟨some a, rfl, hnew⟩
      | true =>
        simp only [Bool.not_true, Bool.false_eq_true, if_false, if_true]
        split
        · exact ih hl' hnew _
        · exact ih hl' hbest _

/-- **The search** returns, and a hole it returns fits. -/
theorem mmSearch_hole {mm : Mm} {start size : UInt64} {xs : List NodeRef}
    (h : mm.Inv start size xs) (bsize : UInt64) (alignment : UInt32) (color : UInt64)
    (range : Option (UInt64 × UInt64)) (bestMatch : Bool) :
    ∃ r, mmSearch mm bsize alignment color range bestMatch = some r ∧
      ∀ a, r = some a → ∃ holeEnd, mm.HoleOk a bsize alignment range holeEnd := by
  rw [mmSearch, if_neg (not_not.2 h.scannedBlocks)]
  refine searchHoles_spec (fun a ha => ?_) (by simp) _
  obtain ⟨e, hs, he⟩ := h.hole_exists ha
  exact ⟨_, holeFits_eq h.colorAdjust hs he, fun hc => ⟨e, ha, he, hc⟩⟩

/-! ## Nodes to insert -/

/-- A node that is not in use. -/
structure Mm.Fresh (mm : Mm) (x : NodeRef) : Prop where
  ne_head : x ≠ .headNode
  allocated : (mm.node x).allocated = false
  unscanned : (mm.node x).Unscanned
  unused : x ∉ mm.unusedNodes

theorem Mm.Inv.fresh_not_mem {mm : Mm} {start size : UInt64} {xs : List NodeRef}
    (h : mm.Inv start size xs) {x : NodeRef} (hx : mm.Fresh x) : x ∉ NodeRef.headNode :: xs := by
  intro hm
  rcases List.mem_cons.1 hm with rfl | hm
  · exact hx.ne_head rfl
  · have := (h.block x hm).allocated
    rw [hx.allocated] at this
    cases this

theorem Mm.Cleared.fresh {mm : Mm} {n : Nat} (h : mm.Cleared n) : mm.Fresh (.node n) :=
  ⟨by simp, h.allocated, h.unscanned, h.unused⟩

/-- Changes to nodes that are not in the ring. -/
theorem Mm.Inv.congr {mm mm' : Mm} {start size : UInt64} {xs : List NodeRef}
    (h : mm.Inv start size xs) (hlist : mm'.nodeList = mm.nodeList)
    (hholes : mm'.holeStack = mm.holeStack)
    (hnode : ∀ n ∈ NodeRef.headNode :: xs, mm'.node n = mm.node n)
    (hout : ∀ n, n ∉ NodeRef.headNode :: xs → (mm'.node n).allocated = false)
    (hunused : ∀ n ∈ mm'.unusedNodes,
      n ≠ .headNode ∧ (mm'.node n).allocated = false ∧ (mm'.node n).Unscanned)
    (hnodup : mm'.unusedNodes.Nodup) (hscan : mm'.scannedBlocks = mm.scannedBlocks)
    (hcolor : mm'.colorAdjust = mm.colorAdjust) : mm'.Inv start size xs := by
  have hraw : ∀ n ∈ NodeRef.headNode :: xs, rawHoleNodeStart mm' n = rawHoleNodeStart mm n := by
    intro n hn
    rw [rawHoleNodeStart, rawHoleNodeStart, hnode n hn]
  have hhead := hnode .headNode (.head _)
  refine
    { ring := hlist ▸ h.ring
      gap := ?_
      noWrap := h.noWrap
      headStart := by rw [hhead, h.headStart]
      headEnd := by rw [hraw _ (.head _), h.headEnd]
      headUnscanned := by rw [hhead]; exact h.headUnscanned
      block := fun n hn => by rw [hnode n (.tail _ hn)]; exact h.block n hn
      allocated := fun n hn hal => ?_
      holeNodup := hholes ▸ h.holeNodup
      holeMem := fun a => ?_
      unused := hunused
      unusedNodup := hnodup
      scannedBlocks := hscan.trans h.scannedBlocks
      colorAdjust := hcolor.trans h.colorAdjust }
  · have hsub : ∀ n ∈ NodeRef.headNode :: xs ++ [NodeRef.headNode], n ∈ NodeRef.headNode :: xs := by
      intro n hn
      rcases List.mem_append.1 hn with hn | hn
      · exact hn
      · exact List.mem_singleton.1 hn ▸ .head _
    refine isChain_imp_dropLast (fun u hu v hv huv => ?_) h.gap_walk
    unfold Mm.Gap at huv ⊢
    have hu' := hsub u (List.dropLast_subset _ hu)
    rw [hraw u hu', hnode u hu', hnode v (hsub v hv)]
    exact huv
  · by_contra hm
    have := hout n fun hc => hm ((List.mem_cons.1 hc).resolve_left hn)
    rw [this] at hal
    cases hal
  · rw [hholes, h.holeMem]
    exact and_congr_right fun ha => by rw [hnode a ha]

/-- What `drm_mm_kmalloc` leaves unchanged, and that the node it returns is not in use. -/
theorem mmKmalloc_spec {mm : Mm} {start size : UInt64} {xs : List NodeRef}
    (h : mm.Inv start size xs) {mem : Option Nat} (hm : mm.FreshMem mem) :
    ∃ mm' r, mmKmalloc mm mem = (mm', r) ∧ mm'.Inv start size xs ∧
      (∀ x, r = some x → mm'.Fresh x) ∧ mm'.nodeList = mm.nodeList ∧
      mm'.holeStack = mm.holeStack ∧
      ∀ n ∈ NodeRef.headNode :: xs, mm'.node n = mm.node n := by
  have hfree : ∀ n, n ∉ NodeRef.headNode :: xs → (mm.node n).allocated = false := by
    intro n hn
    by_contra hal
    rw [Bool.not_eq_false] at hal
    exact hn (.tail _ (h.allocated n (fun e => hn (e ▸ .head _)) hal))
  cases mem with
  | some i =>
    obtain ⟨hal, hun⟩ := hm i rfl
    have hout : NodeRef.node i ∉ NodeRef.headNode :: xs := by
      intro hc
      have := (h.block _ ((List.mem_cons.1 hc).resolve_left (by simp))).allocated
      rw [hal] at this
      cases this
    have hne : ∀ n ∈ NodeRef.headNode :: xs, n ≠ .node i := fun n hn e => hout (e ▸ hn)
    refine ⟨_, _, rfl, ?_, ?_, rfl, rfl, fun n hn => modifyNode_ne _ _ _ (hne n hn)⟩
    · refine h.congr rfl rfl (fun n hn => modifyNode_ne _ _ _ (hne n hn)) (fun n hn => ?_)
        (fun n hn => ?_) h.unusedNodup rfl rfl
      · by_cases hni : n = .node i
        · subst hni
          rw [modifyNode_self]
        · rw [modifyNode_ne _ _ _ hni]
          exact hfree n hn
      · have hni : n ≠ .node i := fun e => hun (e ▸ hn)
        rw [modifyNode_ne _ _ _ hni]
        exact h.unused n hn
    · rintro x ⟨⟩
      refine ⟨by simp, ?_, ?_, hun⟩
      · rw [modifyNode_self]
      · rw [modifyNode_self]
        exact ⟨rfl, rfl, rfl⟩
  | none =>
    cases hu : mm.unusedNodes with
    | nil => exact ⟨mm, none, by simp [mmKmalloc, hu], h, by simp, rfl, rfl, fun _ _ => rfl⟩
    | cons child rest =>
      have hnd := h.unusedNodup
      rw [hu, List.nodup_cons] at hnd
      have hun := fun n hn => h.unused n (by rw [hu]; exact hn)
      refine ⟨{ mm with unusedNodes := rest, numUnused := mm.numUnused - 1 }, some child,
        by simp only [mmKmalloc, hu], ?_, ?_, rfl, rfl, fun _ _ => rfl⟩
      · exact h.congr rfl rfl (fun _ _ => rfl) hfree (fun n hn => hun n (.tail _ hn)) hnd.2 rfl rfl
      · rintro x ⟨⟩
        obtain ⟨h1, h2, h3⟩ := hun child (.head _)
        exact ⟨h1, h2, h3, hnd.1⟩

/-! ## Insertions -/

/-- Putting a block into a hole that the check accepted. -/
theorem mmPlace_inv {mm : Mm} {start size : UInt64} {xs : List NodeRef}
    (h : mm.Inv start size xs) {a x : NodeRef} {bsize : UInt64} {alignment : UInt32}
    {range : Option (UInt64 × UInt64)} {holeEnd : UInt64}
    (hok : mm.HoleOk a bsize alignment range holeEnd) (hb : mm.EndsBelow a bsize alignment range)
    (hx : mm.Fresh x) (hsize : bsize ≠ 0) (color : UInt64) {bug : UInt64 → Bool}
    (hbug : ∀ e ≤ clampEnd range holeEnd, bug e = false) :
    ∃ mm' xs', mmPlace mm a x bsize color (rawHoleNodeStart mm a) holeEnd
        (alignStart (clampStart range (rawHoleNodeStart mm a)) alignment) bug = some mm' ∧
      mm'.Inv start size xs' := by
  obtain ⟨hlow, hhigh, hwrap⟩ := hok.room hb
  obtain ⟨ha, hf⟩ := (h.holeMem a).1 hok.mem
  have hxm := h.fresh_not_mem hx
  obtain ⟨p, q, hpq⟩ := List.append_of_mem ha
  have hend := hok.stop
  rw [(h.hole hok.mem hpq).2.1] at hend
  cases hend
  have hring := h.ring
  rw [hpq] at hring
  obtain ⟨L, hL, -⟩ := hring.insertAfter (hpq ▸ hxm)
  have hle := UInt64.le_trans hhigh (clampEnd_le range _)
  have hxa : x ≠ a := fun e => hxm (e ▸ ha)
  obtain ⟨mm', e, hp⟩ := mmPlace_placed hxa hok.mem hf hL (hbug _ hhigh) hle
  have hpos : 0 < bsize.toNat := by
    rw [Nat.pos_iff_ne_zero]
    exact fun e => hsize (UInt64.toNat_inj.1 e)
  obtain ⟨xs', h', -⟩ := hp.inv h hpq hok.mem hxm hx.unused hx.unscanned hpos hwrap hlow hle
  exact ⟨mm', xs', e, h'⟩

theorem mmInsertHelper_inv {mm : Mm} {start size : UInt64} {xs : List NodeRef}
    (h : mm.Inv start size xs) {a x : NodeRef} {bsize : UInt64} {alignment : UInt32}
    {holeEnd : UInt64} (hok : mm.HoleOk a bsize alignment none holeEnd)
    (hb : mm.EndsBelow a bsize alignment none) (hx : mm.Fresh x) (hsize : bsize ≠ 0)
    (color : UInt64) :
    ∃ mm' xs', mmInsertHelper mm a x bsize alignment color = some mm' ∧
      mm'.Inv start size xs' := by
  obtain ⟨e, hs, -⟩ := h.hole_exists hok.mem
  simp only [mmInsertHelper, hs, hok.stop, Option.bind_eq_bind, Option.bind_some, hx.allocated,
    colorAdjusted, h.colorAdjust, Bool.false_eq_true, if_false]
  apply mmPlace_inv h hok hb hx hsize color
  intro e he
  simpa [clampEnd] using he

theorem mmInsertHelperRange_inv {mm : Mm} {start size : UInt64} {xs : List NodeRef}
    (h : mm.Inv start size xs) {a x : NodeRef} {bsize : UInt64} {alignment : UInt32}
    {lo hi holeEnd : UInt64} (hok : mm.HoleOk a bsize alignment (some (lo, hi)) holeEnd)
    (hb : mm.EndsBelow a bsize alignment (some (lo, hi))) (hx : mm.Fresh x) (hsize : bsize ≠ 0)
    (color : UInt64) :
    ∃ mm' xs', mmInsertHelperRange mm a x bsize alignment color lo hi = some mm' ∧
      mm'.Inv start size xs' := by
  obtain ⟨e, hs, -⟩ := h.hole_exists hok.mem
  have hf := ((h.holeMem a).1 hok.mem).2
  simp only [mmInsertHelperRange, hs, hok.stop, Option.bind_eq_bind, Option.bind_some, hf,
    hx.allocated, colorAdjusted, h.colorAdjust, Bool.not_true, Bool.or_self, Bool.false_eq_true,
    if_false]
  apply mmPlace_inv h hok hb hx hsize color
  intro e he
  have hstop := UInt64.le_trans he (clampEnd_le_stop lo hi holeEnd)
  simp [UInt64.not_lt.2 he, UInt64.not_lt.2 hstop]

/-- An insertion after a search with the same request. -/
theorem mmInsertNodeGeneric_inv {mm : Mm} {start size : UInt64} {xs : List NodeRef}
    (h : mm.Inv start size xs) {x : NodeRef} {bsize : UInt64} {alignment : UInt32} {color : UInt64}
    (hsize : bsize ≠ 0) (hx : mm.Fresh x) (hw : mm.SearchNoWrap bsize alignment color none) :
    ∃ ret mm' xs', mmInsertNodeGeneric mm x bsize alignment color = some (ret, mm') ∧
      mm'.Inv start size xs' := by
  obtain ⟨r, hr, hok⟩ := mmSearch_hole h bsize alignment color none false
  simp only [mmInsertNodeGeneric, mmSearchFreeGeneric, hr, Option.bind_eq_bind, Option.bind_some]
  cases r with
  | none => exact ⟨_, mm, xs, rfl, h⟩
  | some a =>
    obtain ⟨holeEnd, hok⟩ := hok a rfl
    obtain ⟨mm', xs', e, h'⟩ := mmInsertHelper_inv h hok (hw a hr) hx hsize color
    exact ⟨0, mm', xs', by simp [e], h'⟩

theorem mmInsertNodeInRangeGeneric_inv {mm : Mm} {start size : UInt64} {xs : List NodeRef}
    (h : mm.Inv start size xs) {x : NodeRef} {bsize : UInt64} {alignment : UInt32}
    {color lo hi : UInt64} (hsize : bsize ≠ 0) (hx : mm.Fresh x)
    (hw : mm.SearchNoWrap bsize alignment color (some (lo, hi))) :
    ∃ ret mm' xs', mmInsertNodeInRangeGeneric mm x bsize alignment color lo hi =
      some (ret, mm') ∧ mm'.Inv start size xs' := by
  obtain ⟨r, hr, hok⟩ := mmSearch_hole h bsize alignment color (some (lo, hi)) false
  simp only [mmInsertNodeInRangeGeneric, mmSearchFreeInRangeGeneric, hr, Option.bind_eq_bind,
    Option.bind_some]
  cases r with
  | none => exact ⟨_, mm, xs, rfl, h⟩
  | some a =>
    obtain ⟨holeEnd, hok⟩ := hok a rfl
    obtain ⟨mm', xs', e, h'⟩ := mmInsertHelperRange_inv h hok (hw a hr) hx hsize color
    exact ⟨0, mm', xs', by simp [e], h'⟩

/-- The bounds of a hole depend on the nodes of the ring only. -/
theorem Mm.Inv.hole_congr {mm mm' : Mm} {start size : UInt64} {xs : List NodeRef}
    (h : mm.Inv start size xs) (hlist : mm'.nodeList = mm.nodeList)
    (hnode : ∀ n ∈ NodeRef.headNode :: xs, mm'.node n = mm.node n) {a : NodeRef}
    (ha : a ∈ NodeRef.headNode :: xs) :
    rawHoleNodeStart mm' a = rawHoleNodeStart mm a ∧ mmHoleNodeEnd mm' a = mmHoleNodeEnd mm a := by
  constructor
  · rw [rawHoleNodeStart, rawHoleNodeStart, hnode a ha]
  · rw [mmHoleNodeEnd, mmHoleNodeEnd, hlist]
    cases hn : mm.nodeList.next a with
    | none => rfl
    | some b => rw [Option.map_some, Option.map_some, hnode b (h.ring.next_mem ha hn)]

/-- A hole is not touched by `drm_mm_kmalloc`. -/
theorem Mm.HoleOk.congr {mm mm' : Mm} {start size : UInt64} {xs : List NodeRef}
    (h : mm.Inv start size xs) (hlist : mm'.nodeList = mm.nodeList)
    (hholes : mm'.holeStack = mm.holeStack)
    (hnode : ∀ n ∈ NodeRef.headNode :: xs, mm'.node n = mm.node n) {a : NodeRef} {bsize : UInt64}
    {alignment : UInt32} {range : Option (UInt64 × UInt64)} {holeEnd : UInt64}
    (hok : mm.HoleOk a bsize alignment range holeEnd) :
    mm'.HoleOk a bsize alignment range holeEnd ∧
      (mm.EndsBelow a bsize alignment range → mm'.EndsBelow a bsize alignment range) := by
  obtain ⟨hraw, hstop⟩ := h.hole_congr hlist hnode ((h.holeMem a).1 hok.mem).1
  refine ⟨⟨hholes ▸ hok.mem, hstop.trans hok.stop, by rw [hraw]; exact hok.check⟩, fun hb => ?_⟩
  unfold Mm.EndsBelow at hb ⊢
  rw [hraw]
  exact hb

theorem mmGetBlockGeneric_inv {mm : Mm} {start size : UInt64} {xs : List NodeRef}
    (h : mm.Inv start size xs) {a : NodeRef} {bsize : UInt64} {alignment : UInt32}
    {holeEnd : UInt64} {mem : Option Nat} (hok : mm.HoleOk a bsize alignment none holeEnd)
    (hb : mm.EndsBelow a bsize alignment none) (hsize : bsize ≠ 0) (hm : mm.FreshMem mem)
    (color : UInt64) :
    ∃ r mm' xs', mmGetBlockGeneric mm a bsize alignment color mem = some (r, mm') ∧
      mm'.Inv start size xs' := by
  obtain ⟨mm1, r, hk, h1, hx, hlist, hholes, hnode⟩ := mmKmalloc_spec h hm
  obtain ⟨hok1, hb1⟩ := hok.congr h hlist hholes hnode
  simp only [mmGetBlockGeneric, hk]
  cases r with
  | none => exact ⟨none, mm1, xs, rfl, h1⟩
  | some x =>
    obtain ⟨mm', xs', e, h'⟩ := mmInsertHelper_inv h1 hok1 (hb1 hb) (hx x rfl) hsize color
    exact ⟨some x, mm', xs', by simp [e], h'⟩

theorem mmGetBlockRangeGeneric_inv {mm : Mm} {start size : UInt64} {xs : List NodeRef}
    (h : mm.Inv start size xs) {a : NodeRef} {bsize : UInt64} {alignment : UInt32}
    {lo hi holeEnd : UInt64} {mem : Option Nat}
    (hok : mm.HoleOk a bsize alignment (some (lo, hi)) holeEnd)
    (hb : mm.EndsBelow a bsize alignment (some (lo, hi))) (hsize : bsize ≠ 0)
    (hm : mm.FreshMem mem) (color : UInt64) :
    ∃ r mm' xs', mmGetBlockRangeGeneric mm a bsize alignment color lo hi mem = some (r, mm') ∧
      mm'.Inv start size xs' := by
  obtain ⟨mm1, r, hk, h1, hx, hlist, hholes, hnode⟩ := mmKmalloc_spec h hm
  obtain ⟨hok1, hb1⟩ := hok.congr h hlist hholes hnode
  simp only [mmGetBlockRangeGeneric, hk]
  cases r with
  | none => exact ⟨none, mm1, xs, rfl, h1⟩
  | some x =>
    obtain ⟨mm', xs', e, h'⟩ := mmInsertHelperRange_inv h1 hok1 (hb1 hb) (hx x rfl) hsize color
    exact ⟨some x, mm', xs', by simp [e], h'⟩

/-- A block put at a given place of a hole around it. -/
theorem mmCreateAt_inv {mm : Mm} {start size : UInt64} {xs : List NodeRef}
    (h : mm.Inv start size xs) {a x : NodeRef} {bstart bsize holeEnd : UInt64}
    (ha : a ∈ mm.holeStack) (hend : mmHoleNodeEnd mm a = some holeEnd) (hx : mm.Fresh x)
    (hsize : bsize ≠ 0) (hwrap : bstart.toNat + bsize.toNat < 2 ^ 64)
    (hlow : rawHoleNodeStart mm a ≤ bstart) (hhigh : bstart + bsize ≤ holeEnd) :
    ∃ mm' xs', mmCreateAt mm a x bstart bsize (bstart + bsize) (rawHoleNodeStart mm a) holeEnd =
      some mm' ∧ mm'.Inv start size xs' := by
  obtain ⟨hm, hf⟩ := (h.holeMem a).1 ha
  have hxm := h.fresh_not_mem hx
  obtain ⟨p, q, hpq⟩ := List.append_of_mem hm
  rw [(h.hole ha hpq).2.1] at hend
  cases hend
  have hring := h.ring
  rw [hpq] at hring
  obtain ⟨L, hL, -⟩ := hring.insertAfter (hpq ▸ hxm)
  have hxa : x ≠ a := fun e => hxm (e ▸ hm)
  obtain ⟨mm', e, hp⟩ := mmCreateAt_placed hxa ha hf hL
  have hpos : 0 < bsize.toNat := by
    rw [Nat.pos_iff_ne_zero]
    exact fun e => hsize (UInt64.toNat_inj.1 e)
  obtain ⟨xs', h', -⟩ := hp.inv h hpq ha hxm hx.unused hx.unscanned hpos hwrap hlow hhigh
  exact ⟨mm', xs', e, h'⟩

theorem mmCreateIn_inv {mm : Mm} {start size : UInt64} {xs : List NodeRef}
    (h : mm.Inv start size xs) {bstart bsize : UInt64} {mem : Option Nat} (hsize : bsize ≠ 0)
    (hwrap : bstart.toNat + bsize.toNat < 2 ^ 64) (hm : mm.FreshMem mem) {l : List NodeRef}
    (hl : ∀ a ∈ l, a ∈ mm.holeStack) :
    ∃ r mm' xs', mmCreateIn mm bstart bsize (bstart + bsize) mem l = some (r, mm') ∧
      mm'.Inv start size xs' := by
  induction l with
  | nil => exact ⟨none, mm, xs, rfl, h⟩
  | cons a l ih =>
    have ha := hl a (.head _)
    obtain ⟨holeEnd, hs, he⟩ := h.hole_exists ha
    simp only [mmCreateIn, hs, he, Option.bind_eq_bind, Option.bind_some]
    split
    · exact ih fun x hx => hl x (.tail _ hx)
    · rename_i hfit
      simp only [not_or, UInt64.not_lt] at hfit
      obtain ⟨mm1, r, hk, h1, hx, hlist, hholes, hnode⟩ := mmKmalloc_spec h hm
      rw [hk]
      cases r with
      | none => exact ⟨none, mm1, xs, rfl, h1⟩
      | some x =>
        obtain ⟨hraw, hstop⟩ := h.hole_congr hlist hnode ((h.holeMem a).1 ha).1
        obtain ⟨mm', xs', e, h'⟩ := mmCreateAt_inv h1 (hholes ▸ ha) (hstop.trans he) (hx x rfl)
          hsize hwrap (hraw ▸ hfit.1) hfit.2
        rw [hraw] at e
        exact ⟨some x, mm', xs', by simp [e], h'⟩

/-! ## Removals -/

/-- A block has a node before it. -/
theorem ring_prev_exists {xs : List NodeRef} {x : NodeRef} (hx : x ∈ xs) :
    ∃ p a q, NodeRef.headNode :: xs = p ++ a :: x :: q := by
  obtain ⟨l, r, rfl⟩ := List.append_of_mem hx
  rcases List.eq_nil_or_concat l with rfl | ⟨l, a, rfl⟩
  · exact ⟨[], .headNode, r, rfl⟩
  · exact ⟨.headNode :: l, a, r, by simp⟩

theorem mmRemoveNode_inv {mm : Mm} {start size : UInt64} {xs : List NodeRef}
    (h : mm.Inv start size xs) {x : NodeRef} (hx : x ∈ xs) :
    ∃ mm' xs', mmRemoveNode mm x = some mm' ∧ mm'.Inv start size xs' ∧ mm'.Fresh x := by
  obtain ⟨p, a, q, hpq⟩ := ring_prev_exists hx
  obtain ⟨mm', e, hr⟩ := mmRemoveNode_removed h hpq hx
  obtain ⟨xs', h', -⟩ := hr.inv h hpq
  refine ⟨mm', xs', e, h', h.ne_head hx, ?_, hr.unscanned (h.block x hx).unscanned, fun hu => ?_⟩
  · rw [hr.oldNode]
  · rw [hr.unusedNodes] at hu
    have := (h.unused x hu).2.1
    rw [(h.block x hx).allocated] at this
    cases this

theorem mmPutBlock_inv {mm : Mm} {start size : UInt64} {xs : List NodeRef}
    (h : mm.Inv start size xs) {x : NodeRef} (hx : x ∈ xs) :
    ∃ mm' xs', mmPutBlock mm x = some mm' ∧ mm'.Inv start size xs' := by
  obtain ⟨mm1, xs', e, h1, hf⟩ := mmRemoveNode_inv h hx
  simp only [mmPutBlock, e, Option.bind_eq_bind, Option.bind_some]
  split
  · refine ⟨_, xs', rfl, h1.congr rfl rfl (fun _ _ => rfl) (fun n hn => ?_) (fun n hn => ?_) ?_ rfl
      rfl⟩
    · by_contra hal
      rw [Bool.not_eq_false] at hal
      exact hn (.tail _ (h1.allocated n (fun e => hn (e ▸ .head _)) hal))
    · rcases List.mem_cons.1 hn with rfl | hn
      · exact ⟨hf.ne_head, hf.allocated, hf.unscanned⟩
      · exact h1.unused n hn
    · exact List.nodup_cons.2 ⟨hf.unused, h1.unusedNodup⟩
  · exact ⟨mm1, xs', rfl, h1⟩

/-! ## Runs -/

/-- **One call** keeps the invariant and does not panic. -/
theorem mmStep_inv {mm : Mm} {start size : UInt64} {xs : List NodeRef} (h : mm.Inv start size xs)
    {op : MmOp} (ha : mm.Admissible op) (hw : mm.NoWrap op) :
    ∃ mm' xs', mmStep mm op = some mm' ∧ mm'.Inv start size xs' := by
  cases op with
  | insertNode n bsize alignment =>
    obtain ⟨ret, mm', xs', e, h'⟩ := mmInsertNodeGeneric_inv h ha.1 ha.2.fresh hw
    exact ⟨mm', xs', by simp [mmStep, mmInsertNode, e], h'⟩
  | insertNodeGeneric n bsize alignment color =>
    obtain ⟨ret, mm', xs', e, h'⟩ := mmInsertNodeGeneric_inv h ha.1 ha.2.fresh hw
    exact ⟨mm', xs', by simp [mmStep, e], h'⟩
  | insertNodeInRange n bsize alignment lo hi =>
    obtain ⟨ret, mm', xs', e, h'⟩ := mmInsertNodeInRangeGeneric_inv h ha.1 ha.2.fresh hw
    exact ⟨mm', xs', by simp [mmStep, mmInsertNodeInRange, e], h'⟩
  | insertNodeInRangeGeneric n bsize alignment color lo hi =>
    obtain ⟨ret, mm', xs', e, h'⟩ := mmInsertNodeInRangeGeneric_inv h ha.1 ha.2.fresh hw
    exact ⟨mm', xs', by simp [mmStep, e], h'⟩
  | createBlock bstart bsize mem =>
    obtain ⟨r, mm', xs', e, h'⟩ :=
      mmCreateIn_inv h ha.1 ha.2.1 ha.2.2 (l := mm.holeStack) fun _ => id
    exact ⟨mm', xs', by simp [mmStep, mmCreateBlock, e], h'⟩
  | getBlockGeneric hole bsize alignment color mem =>
    obtain ⟨hsize, hm, bestMatch, hs⟩ := ha
    obtain ⟨r, hr, hok⟩ := mmSearch_hole h bsize alignment color none bestMatch
    rw [mmSearchFreeGeneric, hr] at hs
    obtain ⟨holeEnd, hok⟩ := hok hole (Option.some.inj hs)
    obtain ⟨r, mm', xs', e, h'⟩ := mmGetBlockGeneric_inv h hok hw hsize hm color
    exact ⟨mm', xs', by simp [mmStep, e], h'⟩
  | getBlockRangeGeneric hole bsize alignment color lo hi mem =>
    obtain ⟨hsize, hm, bestMatch, hs⟩ := ha
    obtain ⟨r, hr, hok⟩ := mmSearch_hole h bsize alignment color (some (lo, hi)) bestMatch
    rw [mmSearchFreeInRangeGeneric, hr] at hs
    obtain ⟨holeEnd, hok⟩ := hok hole (Option.some.inj hs)
    obtain ⟨r, mm', xs', e, h'⟩ := mmGetBlockRangeGeneric_inv h hok hw hsize hm color
    exact ⟨mm', xs', by simp [mmStep, e], h'⟩
  | removeNode node =>
    obtain ⟨mm', xs', e, h', -⟩ := mmRemoveNode_inv h (h.allocated node ha.1 ha.2)
    exact ⟨mm', xs', e, h'⟩
  | putBlock node => exact mmPutBlock_inv h (h.allocated node ha.1 ha.2)

/-- A manager of a range that is not empty, with no block. -/
theorem mmInit_inv {mm : Mm} {start size : UInt64}
    (hfree : ∀ n, n ≠ .headNode → (mm.node n).allocated = false) (hsize : size ≠ 0)
    (hwrap : start.toNat + size.toNat < 2 ^ 64) : (mmInit mm start size).Inv start size [] := by
  have hraw : rawHoleNodeStart (mmInit mm start size) .headNode = start := by
    simp only [rawHoleNodeStart, mmInit, Function.update_self]
    rw [UInt64.add_comm, UInt64.sub_add_cancel]
  have hstart : ((mmInit mm start size).node .headNode).start = start + size := by
    simp [mmInit]
  have hsum : (start + size).toNat = start.toNat + size.toNat := by
    rw [UInt64.toNat_add]
    exact Nat.mod_eq_of_lt hwrap
  have hpos : size.toNat ≠ 0 := fun e => hsize (UInt64.toNat_inj.1 e)
  refine
    { ring := ⟨?_, by simp⟩
      gap := ?_
      noWrap := hwrap
      headStart := hstart
      headEnd := hraw
      headUnscanned := ⟨by simp [mmInit], by simp [mmInit], by simp [mmInit]⟩
      block := by simp
      allocated := fun n hn hal => ?_
      holeNodup := by simp [mmInit]
      holeMem := fun a => ?_
      unused := by simp [mmInit]
      unusedNodup := by simp [mmInit]
      scannedBlocks := rfl
      colorAdjust := rfl }
  · simp [Cyc, Links.Adj, mmInit, Links.setNext, Links.setPrev]
  · simp only [Cyc, List.take_succ_cons, List.take_zero, List.singleton_append,
      List.isChain_cons_cons, List.isChain_singleton, and_true, Mm.Gap, hraw, hstart]
    refine ⟨by rw [UInt64.le_iff_toNat_le, hsum]; omega, iff_of_true (by simp [mmInit]) fun e => ?_⟩
    rw [← UInt64.toNat_inj, hsum] at e
    omega
  · simp only [mmInit, Function.update_of_ne hn] at hal
    rw [hfree n hn] at hal
    cases hal
  · simp only [mmInit, List.mem_singleton]
    constructor
    · rintro rfl
      exact ⟨rfl, by simp⟩
    · exact And.left

/-- **Runs.** After any calls on a manager of a non-empty range, none of which wraps an address,
the manager is well formed, and no further such call panics. -/
theorem mm_run_keeps_invariant {mm0 : Mm} {start size : UInt64}
    (hfree : ∀ n, n ≠ .headNode → (mm0.node n).allocated = false) (hsize : size ≠ 0)
    (hwrap : start.toNat + size.toNat < 2 ^ 64) {ops : List MmOp} {mm : Mm}
    (h : Run (fun mm op mm' => mmCall mm op mm' ∧ mm.NoWrap op) (mmInit mm0 start size) ops mm) :
    (∃ xs, mm.WellFormed start size xs) ∧
      ∀ op, mm.Admissible op → mm.NoWrap op → mmStep mm op ≠ none := by
  have hinv : ∃ xs, mm.Inv start size xs := by
    apply h.inv (I := fun mm : Mm => ∃ xs, mm.Inv start size xs)
    · exact ⟨[], mmInit_inv hfree hsize hwrap⟩
    rintro mm1 op mm2 ⟨xs, h1⟩ ⟨⟨ha, e⟩, hw⟩
    obtain ⟨mm', xs', e', h'⟩ := mmStep_inv h1 ha hw
    rw [e] at e'
    cases e'
    exact ⟨xs', h'⟩
  obtain ⟨xs, hi⟩ := hinv
  refine ⟨⟨xs, hi.wellFormed⟩, fun op ha hw hnone => ?_⟩
  obtain ⟨mm', xs', e, -⟩ := mmStep_inv hi ha hw
  rw [hnone] at e
  cases e

/-- Memory in which no manager has been set up. -/
def blankMm : Mm where
  node _ := {}
  nodeList := ⟨fun _ => none, fun _ => none⟩
  holeStack := []
  unusedNodes := []
  numUnused := 0
  scanCheckRange := false
  scanAlignment := 0
  scanColor := 0
  scanSize := 0
  scanHitStart := 0
  scanHitEnd := 0
  scannedBlocks := 0
  scanStart := 0
  scanEnd := 0
  prevScannedNode := none
  colorAdjust := none

/-- A block in the middle of a fresh manager leaves a hole on both sides. -/
theorem mm_run_keeps_invariant_block : ∃ mm,
    mmStep (mmInit blankMm 0x1000 0x8000) (.createBlock 0x2000 0x1000 (some 0)) = some mm ∧
      (∃ xs, mm.WellFormed 0x1000 0x8000 xs) ∧ mm.holeStack = [.node 0, .headNode] := by
  have hfree : ∀ n, n ≠ .headNode → (blankMm.node n).allocated = false := fun _ _ => rfl
  have hfresh : (mmInit blankMm 0x1000 0x8000).FreshMem (some 0) := by
    rintro n ⟨⟩
    exact ⟨rfl, by simp [mmInit]⟩
  let mm := (mmStep (mmInit blankMm 0x1000 0x8000) (.createBlock 0x2000 0x1000 (some 0))).get rfl
  have hstep : mmCall (mmInit blankMm 0x1000 0x8000) (.createBlock 0x2000 0x1000 (some 0)) mm :=
    ⟨⟨by decide, by decide, hfresh⟩, rfl⟩
  have run : Run (fun mm op mm' => mmCall mm op mm' ∧ mm.NoWrap op) _ _ mm :=
    .snoc .nil ⟨hstep, trivial⟩
  exact ⟨mm, rfl, (mm_run_keeps_invariant hfree (by decide) (by decide) run).1, rfl⟩

/-- The start of the one hole of a manager at the top of the address space, rounded up, is 0: the
block is put there, outside of the managed range. -/
theorem mm_insert_wraps :
    ¬ ∀ (mm0 : Mm) (start size : UInt64) (ops : List MmOp) (mm : Mm),
      (∀ n, n ≠ .headNode → (mm0.node n).allocated = false) → size ≠ 0 →
      start.toNat + size.toNat < 2 ^ 64 →
      Run mmCall (mmInit mm0 start size) ops mm → ∃ xs, mm.WellFormed start size xs := by
  intro h
  let mm0 := mmInit blankMm 0xffffffffffffe000 0x1fff
  have hclear : mm0.Cleared 0 := ⟨rfl, ⟨rfl, rfl, rfl⟩, by simp [mm0, mmInit]⟩
  let mm := (mmStep mm0 (.insertNode 0 0x1000 0x4000)).get (by decide)
  have hadm : mm0.Admissible (.insertNode 0 0x1000 0x4000) := ⟨by decide, hclear⟩
  have hstep : mmCall mm0 (.insertNode 0 0x1000 0x4000) mm := ⟨hadm, (Option.some_get _).symm⟩
  have run : Run mmCall mm0 [.insertNode 0 0x1000 0x4000] mm := .snoc .nil hstep
  obtain ⟨xs, hw⟩ := h blankMm _ _ _ mm (fun _ _ => rfl) (by decide) (by decide) run
  have hal : (mm.node (.node 0)).allocated = true := by decide
  have hmem : NodeRef.node 0 ∈ xs := (hw.blocks _).2 ⟨by simp, hal⟩
  exact absurd (hw.inside _ hmem).1 (by decide)

end Drm
