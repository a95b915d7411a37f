import SolarisXorg.Drm.Mm

/-!
# The representation invariant of the range allocator

`Mm.Inv mm start size xs`: the ring of nodes is `head_node` followed by `xs`, neighbours leave a
gap that `hole_follows` reports (`Mm.Gap`), and `hole_stack` holds the nodes with a gap, once each.
That the blocks are in order, disjoint and inside the managed range follows (`Inv.sorted`,
`Inv.inside`).

A call changes the ring at one place. `Placed` says what the insertion of a block does to every
field, whichever call makes it, and `Placed.inv` that the invariant is kept; `mmPlace_placed` and
`mmCreateAt_placed` bring the code's insertions under it. `Removed`, `Removed.inv` and
`mmRemoveNode_removed` are the same for the other direction.
-/

namespace Drm

open Lib

/-! ## The invariant -/

/-- `a` ends where `b` starts or before, and has `hole_follows` set exactly in the second case. -/
def Mm.Gap (mm : Mm) (a b : NodeRef) : Prop :=
  rawHoleNodeStart mm a ≤ (mm.node b).start ∧
    ((mm.node a).holeFollows = true ↔ rawHoleNodeStart mm a ≠ (mm.node b).start)

/-- An allocated block that is not empty and does not wrap. -/
structure MmNode.Block (n : MmNode) : Prop where
  allocated : n.allocated = true
  size : 0 < n.size.toNat
  noWrap : n.start.toNat + n.size.toNat < 2 ^ 64
  unscanned : n.Unscanned

/-- The representation invariant. -/
structure Mm.Inv (mm : Mm) (start size : UInt64) (xs : List NodeRef) : Prop where
  ring : IsRing mm.nodeList (.headNode :: xs)
  gap : Cyc mm.Gap (.headNode :: xs)
  noWrap : start.toNat + size.toNat < 2 ^ 64
  headStart : (mm.node .headNode).start = start + size
  headEnd : rawHoleNodeStart mm .headNode = start
  headUnscanned : (mm.node .headNode).Unscanned
  block : ∀ n ∈ xs, (mm.node n).Block
  allocated : ∀ n, n ≠ .headNode → (mm.node n).allocated = true → n ∈ xs
  holeNodup : mm.holeStack.Nodup
  holeMem : ∀ a, a ∈ mm.holeStack ↔ a ∈ NodeRef.headNode :: xs ∧ (mm.node a).holeFollows = true
  unused : ∀ n ∈ mm.unusedNodes,
    n ≠ .headNode ∧ (mm.node n).allocated = false ∧ (mm.node n).Unscanned
  unusedNodup : mm.unusedNodes.Nodup
  scannedBlocks : mm.scannedBlocks = 0
  colorAdjust : mm.colorAdjust = none

/-! ## Addresses -/

theorem MmNode.Block.end_toNat {n : MmNode} (h : n.Block) :
    (n.start + n.size).toNat = n.start.toNat + n.size.toNat := by
  have := h.noWrap
  rw [UInt64.toNat_add]
  exact Nat.mod_eq_of_lt this

theorem MmNode.Block.start_lt_end {n : MmNode} (h : n.Block) : n.start < n.start + n.size := by
  have := h.size
  rw [UInt64.lt_iff_toNat_lt, h.end_toNat]
  omega

section
variable {mm : Mm} {start size : UInt64} {xs : List NodeRef} (h : mm.Inv start size xs)
include h

theorem Mm.Inv.headStart_toNat : (mm.node .headNode).start.toNat = start.toNat + size.toNat := by
  have := h.noWrap
  rw [h.headStart, UInt64.toNat_add]
  exact Nat.mod_eq_of_lt this

theorem Mm.Inv.ne_head {n : NodeRef} (hn : n ∈ xs) : n ≠ .headNode := by
  rintro rfl
  exact (List.nodup_cons.1 h.ring.nodup).1 hn

/-- The neighbours in ring order, `head_node` once at each end. -/
theorem Mm.Inv.gap_walk : (NodeRef.headNode :: xs ++ [NodeRef.headNode]).IsChain mm.Gap := h.gap

/-- Every block lies behind all blocks before it, and behind the start of the managed range. -/
theorem Mm.Inv.order :
    (.headNode :: xs : List NodeRef).Pairwise
      fun a b => rawHoleNodeStart mm a ≤ (mm.node b).start ∧
        (mm.node b).start < rawHoleNodeStart mm b := by
  have : IsTrans NodeRef fun a b => rawHoleNodeStart mm a ≤ (mm.node b).start ∧
      (mm.node b).start < rawHoleNodeStart mm b :=
    ⟨fun a b c h1 h2 => ⟨UInt64.le_trans h1.1 (UInt64.le_trans (UInt64.le_of_lt h1.2) h2.1), h2.2⟩⟩
  apply List.IsChain.pairwise
  have hw : (.headNode :: xs : List NodeRef).IsChain mm.Gap := h.gap_walk.left_of_append
  refine List.IsChain.imp_of_mem_tail_imp (fun a b _ hb hg => ⟨hg.1, ?_⟩) hw
  exact (h.block b hb).start_lt_end

/-- Every block ends at the end of the managed range or before. -/
theorem Mm.Inv.end_le {n : NodeRef} (hn : n ∈ xs) :
    rawHoleNodeStart mm n ≤ (mm.node .headNode).start := by
  have : IsTrans NodeRef fun a b => rawHoleNodeStart mm a ≤ (mm.node b).start ∧
      (mm.node a).start < rawHoleNodeStart mm a :=
    ⟨fun a b c h1 h2 => ⟨UInt64.le_trans h1.1 (UInt64.le_trans (UInt64.le_of_lt h2.2) h2.1), h1.2⟩⟩
  have hw : (xs ++ [NodeRef.headNode]).IsChain mm.Gap := h.gap_walk.tail
  have hp : (xs ++ [NodeRef.headNode]).Pairwise fun a b =>
      rawHoleNodeStart mm a ≤ (mm.node b).start ∧ (mm.node a).start < rawHoleNodeStart mm a := by
    refine List.IsChain.pairwise (isChain_imp_dropLast (fun a ha b _ hg => ⟨hg.1, ?_⟩) hw)
    rw [List.dropLast_concat] at ha
    exact (h.block a ha).start_lt_end
  rw [List.pairwise_append] at hp
  exact (hp.2.2 n hn .headNode (by simp)).1

/-- The blocks are sorted by their start and disjoint. -/
theorem Mm.Inv.sorted : xs.Pairwise fun a b =>
    (mm.node a).start.toNat + (mm.node a).size.toNat ≤ (mm.node b).start.toNat := by
  refine (List.pairwise_cons.1 h.order).2.imp_of_mem fun ha _ hab => ?_
  rw [← (h.block _ ha).end_toNat, ← UInt64.le_iff_toNat_le]
  exact hab.1

/-- The blocks lie in the managed range. -/
theorem Mm.Inv.inside {n : NodeRef} (hn : n ∈ xs) :
    start.toNat ≤ (mm.node n).start.toNat ∧
      (mm.node n).start.toNat + (mm.node n).size.toNat ≤ start.toNat + size.toNat := by
  constructor
  · have := ((List.pairwise_cons.1 h.order).1 n hn).1
    rwa [h.headEnd, UInt64.le_iff_toNat_le] at this
  · rw [← (h.block n hn).end_toNat, ← h.headStart_toNat, ← UInt64.le_iff_toNat_le]
    exact h.end_le hn

/-- The invariant is what the users rely on, and more. -/
theorem Mm.Inv.wellFormed : mm.WellFormed start size xs := by
  refine
    { ring := h.ring
      blocks := fun n => ⟨fun hn => ⟨h.ne_head hn, (h.block n hn).allocated⟩,
        fun hn => h.allocated n hn.1 hn.2⟩
      sorted := ?_
      disjoint := h.sorted
      inside := fun n hn => h.inside hn
      head := ⟨h.headEnd, h.headStart⟩
      holeFollows := fun p a q hpq => ?_
      holeNodup := h.holeNodup
      holeMem := h.holeMem }
  · refine (List.pairwise_cons.1 h.order).2.imp_of_mem fun ha _ hab => ?_
    exact UInt64.lt_of_lt_of_le (h.block _ ha).start_lt_end hab.1
  · have hg := h.gap
    rw [hpq] at hg
    obtain ⟨hle, hiff⟩ := hg.rel_succ
    rw [hiff]
    exact ⟨UInt64.lt_of_le_of_ne hle, UInt64.ne_of_lt⟩

/-! ## Holes -/

/-- The hole of a node on `hole_stack` reaches to its successor. -/
theorem Mm.Inv.hole {a : NodeRef} (ha : a ∈ mm.holeStack) {p q : List NodeRef}
    (hpq : NodeRef.headNode :: xs = p ++ a :: q) :
    mmHoleNodeStart mm a = some (rawHoleNodeStart mm a) ∧
      mmHoleNodeEnd mm a = some (mm.node (succ p a q)).start ∧
      rawHoleNodeStart mm a < (mm.node (succ p a q)).start := by
  obtain ⟨-, hf⟩ := (h.holeMem a).1 ha
  have hr := h.ring
  have hg := h.gap
  rw [hpq] at hr hg
  have hgs := hg.rel_succ
  refine ⟨by rw [mmHoleNodeStart, if_pos hf], by rw [mmHoleNodeEnd, hr.next]; rfl, ?_⟩
  exact UInt64.lt_of_le_of_ne hgs.1 (hgs.2.1 hf)

theorem Mm.Inv.hole_exists {a : NodeRef} (ha : a ∈ mm.holeStack) :
    ∃ holeEnd, mmHoleNodeStart mm a = some (rawHoleNodeStart mm a) ∧
      mmHoleNodeEnd mm a = some holeEnd := by
  obtain ⟨p, q, hpq⟩ := List.append_of_mem ((h.holeMem a).1 ha).1
  exact ⟨_, (h.hole ha hpq).1, (h.hole ha hpq).2.1⟩

end

/-! ## Writes to a node -/

section
variable (mm : Mm) (n : NodeRef) (f : MmNode → MmNode)

@[simp] theorem modifyNode_self : (mm.modifyNode n f).node n = f (mm.node n) := by
  simp [Mm.modifyNode]

theorem modifyNode_ne {m : NodeRef} (h : m ≠ n) : (mm.modifyNode n f).node m = mm.node m := by
  simp [Mm.modifyNode, h]

@[simp] theorem modifyNode_nodeList : (mm.modifyNode n f).nodeList = mm.nodeList := rfl
@[simp] theorem modifyNode_holeStack : (mm.modifyNode n f).holeStack = mm.holeStack := rfl
@[simp] theorem modifyNode_unusedNodes : (mm.modifyNode n f).unusedNodes = mm.unusedNodes := rfl
@[simp] theorem modifyNode_scannedBlocks :
    (mm.modifyNode n f).scannedBlocks = mm.scannedBlocks := rfl
@[simp] theorem modifyNode_colorAdjust : (mm.modifyNode n f).colorAdjust = mm.colorAdjust := rfl

end

/-! ## Inserting a block -/

/-- A ring that starts at `head_node` still does when a node is put in. -/
theorem ring_insert {xs p q : List NodeRef} {a x : NodeRef}
    (hpq : NodeRef.headNode :: xs = p ++ a :: q) :
    ∃ xs', NodeRef.headNode :: xs' = p ++ a :: x :: q ∧
      ∀ n, n ∈ NodeRef.headNode :: xs' ↔ n = x ∨ n ∈ NodeRef.headNode :: xs := by
  obtain ⟨xs', hxs'⟩ : ∃ xs', NodeRef.headNode :: xs' = p ++ a :: x :: q := by
    cases p with
    | nil => exact ⟨x :: q, by rw [(List.cons.inj hpq).1]; rfl⟩
    | cons b p => exact ⟨p ++ a :: x :: q, by rw [(List.cons.inj hpq).1]; rfl⟩
  refine ⟨xs', hxs', fun n => ?_⟩
  rw [hxs', hpq]
  simp only [List.mem_append, List.mem_cons]
  tauto

/-- A ring that starts at `head_node` still does when another node is taken out. -/
theorem ring_erase {xs p q : List NodeRef} {a x : NodeRef}
    (hpq : NodeRef.headNode :: xs = p ++ a :: x :: q) :
    ∃ xs', NodeRef.headNode :: xs' = p ++ a :: q ∧ x ∈ xs ∧
      ∀ n, n ∈ NodeRef.headNode :: xs ↔ n = x ∨ n ∈ NodeRef.headNode :: xs' := by
  obtain ⟨xs', hxs', hx⟩ : ∃ xs', NodeRef.headNode :: xs' = p ++ a :: q ∧ x ∈ xs := by
    cases p with
    | nil => exact ⟨q, by rw [(List.cons.inj hpq).1]; rfl, by rw [(List.cons.inj hpq).2]; simp⟩
    | cons b p =>
      refine ⟨p ++ a :: q, by rw [(List.cons.inj hpq).1]; rfl, ?_⟩
      rw [(List.cons.inj hpq).2]
      simp
  refine ⟨xs', hxs', hx, fun n => ?_⟩
  rw [hxs', hpq]
  simp only [List.mem_append, List.mem_cons]
  tauto

/-- `mm'` is `mm` with the block `[start, start + size)` of the node `x` put in the hole of `a`,
which ends at `holeEnd`. -/
structure Placed (mm mm' : Mm) (a x : NodeRef) (start size holeEnd : UInt64) : Prop where
  list : mm.nodeList.insertAfter x a = some mm'.nodeList
  newStart : (mm'.node x).start = start
  newSize : (mm'.node x).size = size
  newAllocated : (mm'.node x).allocated = true
  newUnscanned : (mm.node x).Unscanned → (mm'.node x).Unscanned
  newHole : (mm'.node x).holeFollows = true ↔ start + size ≠ holeEnd
  oldHole : (mm'.node a).holeFollows = true ↔ start ≠ rawHoleNodeStart mm a
  oldNode : ∃ f, mm'.node a = { mm.node a with holeFollows := f }
  other : ∀ n, n ≠ a → n ≠ x → mm'.node n = mm.node n
  holes : mm'.holeStack =
    (if start + size ≠ holeEnd then [x] else []) ++
      (if start = rawHoleNodeStart mm a then mm.holeStack.erase a else mm.holeStack)
  unusedNodes : mm'.unusedNodes = mm.unusedNodes
  scannedBlocks : mm'.scannedBlocks = mm.scannedBlocks
  colorAdjust : mm'.colorAdjust = mm.colorAdjust

namespace Placed

variable {mm mm' : Mm} {a x : NodeRef} {bstart bsize holeEnd : UInt64}

/-- Of the other nodes, only `a` changes, and only in `hole_follows`. -/
theorem node_eq (hp : Placed mm mm' a x bstart bsize holeEnd) {n : NodeRef} (hn : n ≠ x) :
    ∃ f, mm'.node n = { mm.node n with holeFollows := f } := by
  by_cases hna : n = a
  · subst hna
    exact hp.oldNode
  · exact ⟨(mm.node n).holeFollows, hp.other n hna hn⟩

theorem start_eq (hp : Placed mm mm' a x bstart bsize holeEnd) {n : NodeRef} (hn : n ≠ x) :
    (mm'.node n).start = (mm.node n).start := by
  obtain ⟨f, hf⟩ := hp.node_eq hn
  rw [hf]

theorem raw_eq (hp : Placed mm mm' a x bstart bsize holeEnd) {n : NodeRef} (hn : n ≠ x) :
    rawHoleNodeStart mm' n = rawHoleNodeStart mm n := by
  obtain ⟨f, hf⟩ := hp.node_eq hn
  rw [rawHoleNodeStart, hf, rawHoleNodeStart]

theorem raw_new (hp : Placed mm mm' a x bstart bsize holeEnd) :
    rawHoleNodeStart mm' x = bstart + bsize := by
  rw [rawHoleNodeStart, hp.newStart, hp.newSize]

theorem unscanned (hp : Placed mm mm' a x bstart bsize holeEnd) {n : NodeRef} (hn : n ≠ x)
    (hu : (mm.node n).Unscanned) : (mm'.node n).Unscanned := by
  obtain ⟨f, hf⟩ := hp.node_eq hn
  rw [hf]
  exact ⟨hu.block, hu.prevFree, hu.nextFree⟩

theorem block (hp : Placed mm mm' a x bstart bsize holeEnd) {n : NodeRef} (hn : n ≠ x)
    (hb : (mm.node n).Block) : (mm'.node n).Block := by
  obtain ⟨f, hf⟩ := hp.node_eq hn
  rw [hf]
  exact ⟨hb.allocated, hb.size, hb.noWrap, ⟨hb.unscanned.block, hb.unscanned.prevFree,
    hb.unscanned.nextFree⟩⟩

/-- The new block splits the gap it is put in. -/
theorem gap {p q : List NodeRef} (hp : Placed mm mm' a x bstart bsize (mm.node (succ p a q)).start)
    (hg : Cyc mm.Gap (p ++ a :: q)) (hn : (p ++ a :: q).Nodup) (hx : x ∉ p ++ a :: q)
    (hlow : rawHoleNodeStart mm a ≤ bstart)
    (hhigh : bstart + bsize ≤ (mm.node (succ p a q)).start) : Cyc mm'.Gap (p ++ a :: x :: q) := by
  have hne : ∀ n ∈ p ++ a :: q, n ≠ x := fun n hn e => hx (e ▸ hn)
  have hax : a ≠ x := hne a (List.mem_append_right _ (.head _))
  refine hg.insert (fun u hu v hv huv => ?_) ⟨?_, ?_⟩ ⟨?_, ?_⟩
  · have hua : u ≠ a := by
      rintro rfl
      rw [List.nodup_middle, List.nodup_cons] at hn
      exact hn.1 hu
    have hux : u ≠ x := hne u (by simp only [List.mem_append, List.mem_cons] at hu ⊢; tauto)
    unfold Mm.Gap at huv ⊢
    rw [hp.raw_eq hux, hp.start_eq (hne v hv), hp.other u hua hux]
    exact huv
  · rw [hp.raw_eq hax, hp.newStart]
    exact hlow
  · rw [hp.raw_eq hax, hp.newStart, hp.oldHole]
    exact ne_comm
  · rw [hp.raw_new, hp.start_eq (hne _ (succ_mem p a q))]
    exact hhigh
  · rw [hp.raw_new, hp.start_eq (hne _ (succ_mem p a q)), hp.newHole]

theorem mem_holes (hp : Placed mm mm' a x bstart bsize holeEnd) (hn : mm.holeStack.Nodup)
    {n : NodeRef} :
    n ∈ mm'.holeStack ↔ (n = x ∧ bstart + bsize ≠ holeEnd) ∨
      (n ∈ mm.holeStack ∧ (n = a → bstart ≠ rawHoleNodeStart mm a)) := by
  rw [hp.holes, List.mem_append]
  apply or_congr
  · split
    · rename_i he
      simp [he]
    · rename_i he
      simp [he]
  · split
    · rename_i he
      rw [hn.mem_erase_iff]
      simp only [he, ne_eq, not_true_eq_false, imp_false]
      exact and_comm
    · rename_i he
      simp [he]

theorem holeNodup (hp : Placed mm mm' a x bstart bsize holeEnd) (hn : mm.holeStack.Nodup)
    (hx : x ∉ mm.holeStack) : mm'.holeStack.Nodup := by
  rw [hp.holes]
  apply List.Nodup.append
  · split <;> simp
  · split
    · exact hn.erase a
    · exact hn
  · intro n h1 h2
    have hnx : n = x := by
      split at h1
      · simpa using h1
      · simp at h1
    subst hnx
    split at h2
    · exact hx (List.mem_of_mem_erase h2)
    · exact hx h2

/-- A block put in a hole it fits in. -/
theorem inv {start size : UInt64} {xs p q : List NodeRef} (h : mm.Inv start size xs)
    (hp : Placed mm mm' a x bstart bsize (mm.node (succ p a q)).start)
    (hpq : NodeRef.headNode :: xs = p ++ a :: q) (ha : a ∈ mm.holeStack)
    (hx : x ∉ NodeRef.headNode :: xs) (hxu : x ∉ mm.unusedNodes) (hxs : (mm.node x).Unscanned)
    (hsize : 0 < bsize.toNat) (hwrap : bstart.toNat + bsize.toNat < 2 ^ 64)
    (hlow : rawHoleNodeStart mm a ≤ bstart)
    (hhigh : bstart + bsize ≤ (mm.node (succ p a q)).start) :
    ∃ xs', mm'.Inv start size xs' ∧ NodeRef.headNode :: xs' = p ++ a :: x :: q := by
  have hring := h.ring
  have hgap := h.gap
  have hxh : NodeRef.headNode ≠ x := fun e => hx (e ▸ .head _)
  rw [hpq] at hring hgap
  obtain ⟨L', hL, hring'⟩ := hring.insertAfter (hpq ▸ hx)
  rw [hp.list] at hL
  cases hL
  obtain ⟨xs', hxs', hmem'⟩ := ring_insert (x := x) hpq
  have hnd' := hring'.nodup
  rw [← hxs'] at hnd'
  have hcase : ∀ n ∈ xs', n = x ∨ n ∈ xs := by
    intro n hn
    apply ((hmem' n).1 (.tail _ hn)).imp_right
    intro hm
    rcases List.mem_cons.1 hm with rfl | hm
    · exact absurd hn (List.nodup_cons.1 hnd').1
    · exact hm
  have hne : ∀ n ∈ xs, n ≠ x := fun n hn e => hx (e ▸ .tail _ hn)
  refine ⟨xs', ?_, hxs'⟩
  refine
    { ring := hxs' ▸ hring'
      gap := hxs' ▸ hp.gap hgap hring.nodup (hpq ▸ hx) hlow hhigh
      noWrap := h.noWrap
      headStart := by rw [hp.start_eq hxh, h.headStart]
      headEnd := by rw [hp.raw_eq hxh, h.headEnd]
      headUnscanned := hp.unscanned hxh h.headUnscanned
      block := fun n hn => ?_
      allocated := fun n hn hal => ?_
      holeNodup := hp.holeNodup h.holeNodup fun hm => hx ((h.holeMem x).1 hm).1
      holeMem := fun n => ?_
      unused := fun n hn => ?_
      unusedNodup := hp.unusedNodes ▸ h.unusedNodup
      scannedBlocks := hp.scannedBlocks.trans h.scannedBlocks
      colorAdjust := hp.colorAdjust.trans h.colorAdjust }
  · rcases hcase n hn with rfl | hm
    · exact ⟨hp.newAllocated, by rw [hp.newSize]; exact hsize,
        by rw [hp.newStart, hp.newSize]; exact hwrap, hp.newUnscanned hxs⟩
    · exact hp.block (hne n hm) (h.block n hm)
  · have hm : n ∈ NodeRef.headNode :: xs' := by
      rw [hmem']
      by_cases hnx : n = x
      · exact .inl hnx
      · obtain ⟨f, hf⟩ := hp.node_eq hnx
        rw [hf] at hal
        exact .inr (.tail _ (h.allocated n hn hal))
    exact (List.mem_cons.1 hm).resolve_left hn
  · rw [hp.mem_holes h.holeNodup, hmem' n]
    by_cases hnx : n = x
    · subst hnx
      have hno : n ∉ mm.holeStack := fun hm => hx ((h.holeMem n).1 hm).1
      simp only [hp.newHole, hno, true_and, false_and, or_false, true_or]
    · by_cases hna : n = a
      · subst hna
        simp only [hp.oldHole, hnx, ha, ((h.holeMem n).1 ha).1, true_and, false_and, false_or,
          forall_const]
      · simp only [hp.other n hna hnx, h.holeMem n, hnx, hna, false_and, false_or, false_imp_iff,
          and_true]
  · rw [hp.unusedNodes] at hn
    obtain ⟨h1, h2, h3⟩ := h.unused n hn
    have hnx : n ≠ x := fun e => hxu (e ▸ hn)
    obtain ⟨f, hf⟩ := hp.node_eq hnx
    exact ⟨h1, by rw [hf]; exact h2, hp.unscanned hnx h3⟩

end Placed

theorem closeHole_eq {mm : Mm} {a : NodeRef} (ha : a ∈ mm.holeStack) (start holeStart : UInt64) :
    mm.closeHole a start holeStart = some
      { mm with
        node := if start = holeStart then
          Function.update mm.node a { mm.node a with holeFollows := false } else mm.node
        holeStack := if start = holeStart then mm.holeStack.erase a else mm.holeStack } := by
  unfold Mm.closeHole
  split
  · rw [Mm.holeStackDel, if_pos (by simpa using ha)]
    rfl
  · rfl

theorem openHole_eq (mm : Mm) (x : NodeRef) (left : Bool) :
    mm.openHole x left =
      { mm with
        node := Function.update mm.node x { mm.node x with holeFollows := left }
        holeStack := (if left then [x] else []) ++ mm.holeStack } := by
  cases left <;> rfl

/-- The insertions of `insert_helper` and `insert_helper_range`. -/
theorem mmPlace_placed {mm : Mm} {a x : NodeRef} {size color holeEnd adjStart : UInt64}
    {bug : UInt64 → Bool} {L : Links NodeRef} (hxa : x ≠ a) (ha : a ∈ mm.holeStack)
    (hf : (mm.node a).holeFollows = true) (hL : mm.nodeList.insertAfter x a = some L)
    (hbug : bug (adjStart + size) = false) (hle : adjStart + size ≤ holeEnd) :
    ∃ mm', mmPlace mm a x size color (rawHoleNodeStart mm a) holeEnd adjStart bug = some mm' ∧
      Placed mm mm' a x adjStart size holeEnd := by
  have hlt : adjStart + size < holeEnd ↔ adjStart + size ≠ holeEnd :=
    ⟨UInt64.ne_of_lt, UInt64.lt_of_le_of_ne hle⟩
  simp only [mmPlace, closeHole_eq ha, Option.bind_eq_bind, Option.bind_some, Mm.nodeListAdd,
    Mm.modifyNode, hL, Option.map_some, hbug, openHole_eq, Bool.false_eq_true, if_false,
    Function.update_idem, Function.update_self]
  refine ⟨_, rfl, ?_⟩
  refine
    { list := hL
      newStart := by simp only [Function.update_self]
      newSize := by simp only [Function.update_self]
      newAllocated := by simp only [Function.update_self]
      newUnscanned := fun hu => ?_
      newHole := by simp [rawHoleNodeStart, hlt]
      oldHole := ?_
      oldNode := ?_
      other := fun n hna hnx => ?_
      holes := by simp [rawHoleNodeStart, hlt]
      unusedNodes := rfl
      scannedBlocks := rfl
      colorAdjust := rfl }
  · simp only [Function.update_self]
    split
    · rw [Function.update_of_ne hxa]
      exact ⟨hu.block, hu.prevFree, hu.nextFree⟩
    · exact ⟨hu.block, hu.prevFree, hu.nextFree⟩
  · simp only [Function.update_of_ne hxa.symm]
    split
    · rename_i hs
      simp [hs]
    · rename_i hs
      simp [hs, hf]
  · simp only [Function.update_of_ne hxa.symm]
    split
    · exact ⟨false, Function.update_self ..⟩
    · exact ⟨_, rfl⟩
  · simp only [Function.update_of_ne hnx]
    split
    · exact Function.update_of_ne hna ..
    · rfl

/-- The insertion of `drm_mm_create_block`. -/
theorem mmCreateAt_placed {mm : Mm} {a x : NodeRef} {start size holeEnd : UInt64}
    {L : Links NodeRef} (hxa : x ≠ a) (ha : a ∈ mm.holeStack)
    (hf : (mm.node a).holeFollows = true) (hL : mm.nodeList.insertAfter x a = some L) :
    ∃ mm', mmCreateAt mm a x start size (start + size) (rawHoleNodeStart mm a) holeEnd = some mm' ∧
      Placed mm mm' a x start size holeEnd := by
  simp only [mmCreateAt, Mm.nodeListAdd, Mm.modifyNode, hL, Option.map_some, Option.bind_eq_bind,
    Option.bind_some]
  rw [closeHole_eq (by exact ha), Option.bind_some, openHole_eq]
  refine ⟨_, rfl, ?_⟩
  refine
    { list := hL
      newStart := ?_
      newSize := ?_
      newAllocated := ?_
      newUnscanned := fun hu => ?_
      newHole := by simp
      oldHole := ?_
      oldNode := ?_
      other := fun n hna hnx => ?_
      holes := by simp
      unusedNodes := rfl
      scannedBlocks := rfl
      colorAdjust := rfl }
  · split <;> simp [hxa]
  · split <;> simp [hxa]
  · split <;> simp [hxa]
  · split
    · simp only [Function.update_self, Function.update_of_ne hxa]
      exact ⟨hu.block, hu.prevFree, hu.nextFree⟩
    · simp only [Function.update_self]
      exact ⟨hu.block, hu.prevFree, hu.nextFree⟩
  · simp only [Function.update_of_ne hxa.symm]
    split
    · rename_i hs
      simp [hs]
    · rename_i hs
      simp [hs, hf, Function.update_of_ne hxa.symm]
  · simp only [Function.update_of_ne hxa.symm]
    split
    · exact ⟨false, Function.update_self ..⟩
    · exact ⟨_, Function.update_of_ne hxa.symm ..⟩
  · simp only [Function.update_of_ne hnx]
    split
    · rw [Function.update_of_ne hna, Function.update_of_ne hnx]
    · exact Function.update_of_ne hnx ..

/-! ## Removing a block -/

/-- `mm'` is `mm` without the block of the node `x`, the one behind `a`. -/
structure Removed (mm mm' : Mm) (a x : NodeRef) : Prop where
  list : mm.nodeList.unlink x = some mm'.nodeList
  oldNode : mm'.node x = { mm.node x with allocated := false }
  prevNode : mm'.node a = { mm.node a with holeFollows := true }
  other : ∀ n, n ≠ a → n ≠ x → mm'.node n = mm.node n
  holes : mm'.holeStack = a :: (mm.holeStack.erase x).erase a
  unusedNodes : mm'.unusedNodes = mm.unusedNodes
  scannedBlocks : mm'.scannedBlocks = mm.scannedBlocks
  colorAdjust : mm'.colorAdjust = mm.colorAdjust

namespace Removed

variable {mm mm' : Mm} {a x : NodeRef}

/-- What a node keeps. -/
theorem node_eq (hr : Removed mm mm' a x) (n : NodeRef) :
    ∃ f b, mm'.node n = { mm.node n with holeFollows := f, allocated := b } ∧
      (b = true → (mm.node n).allocated = true) ∧
      (n ≠ x → b = (mm.node n).allocated) := by
  by_cases hna : n = a
  · subst hna
    exact ⟨_, _, hr.prevNode, id, fun _ => rfl⟩
  · by_cases hnx : n = x
    · subst hnx
      exact ⟨_, _, hr.oldNode, by simp, fun h => absurd rfl h⟩
    · exact ⟨_, _, hr.other n hna hnx, id, fun _ => rfl⟩

theorem start_eq (hr : Removed mm mm' a x) (n : NodeRef) :
    (mm'.node n).start = (mm.node n).start := by
  obtain ⟨f, b, hf, -⟩ := hr.node_eq n
  rw [hf]

theorem raw_eq (hr : Removed mm mm' a x) (n : NodeRef) :
    rawHoleNodeStart mm' n = rawHoleNodeStart mm n := by
  obtain ⟨f, b, hf, -⟩ := hr.node_eq n
  rw [rawHoleNodeStart, hf, rawHoleNodeStart]

theorem unscanned (hr : Removed mm mm' a x) {n : NodeRef} (hu : (mm.node n).Unscanned) :
    (mm'.node n).Unscanned := by
  obtain ⟨f, b, hf, -⟩ := hr.node_eq n
  rw [hf]
  exact ⟨hu.block, hu.prevFree, hu.nextFree⟩

theorem block (hr : Removed mm mm' a x) {n : NodeRef} (hn : n ≠ x) (hb : (mm.node n).Block) :
    (mm'.node n).Block := by
  obtain ⟨f, b, hf, -, hb'⟩ := hr.node_eq n
  have hu := hr.unscanned hb.unscanned
  rw [hf, hb' hn] at hu ⊢
  exact ⟨hb.allocated, hb.size, hb.noWrap, hu⟩

/-- The gap of `a` grows by the block and the gap behind it. -/
theorem gap {p q : List NodeRef} (hr : Removed mm mm' a x) (hg : Cyc mm.Gap (p ++ a :: x :: q))
    (hn : (p ++ a :: x :: q).Nodup) (hb : (mm.node x).Block) : Cyc mm'.Gap (p ++ a :: q) := by
  have hax : mm.Gap a x := hg.rel_succ
  have hxb : mm.Gap x (succ p a q) := by
    have hcut : p ++ a :: x :: q = (p ++ [a]) ++ x :: q := by simp
    rw [hcut] at hg
    have := hg.rel_succ
    rwa [succ_append] at this
  have hlt : rawHoleNodeStart mm a < (mm.node (succ p a q)).start :=
    UInt64.lt_of_le_of_lt hax.1 (UInt64.lt_of_lt_of_le hb.start_lt_end hxb.1)
  rw [List.nodup_middle, List.nodup_cons] at hn
  refine hg.erase (fun u hu v hv huv => ?_) ⟨?_, ?_⟩
  · have hua : u ≠ a := by
      rintro rfl
      exact hn.1 (by simp only [List.mem_append, List.mem_cons] at hu ⊢; tauto)
    have hux : u ≠ x := by
      rintro rfl
      exact (List.nodup_cons.1 (List.nodup_middle.1 hn.2)).1 hu
    unfold Mm.Gap at huv ⊢
    rw [hr.raw_eq, hr.start_eq, hr.other u hua hux]
    exact huv
  · rw [hr.raw_eq, hr.start_eq]
    exact UInt64.le_of_lt hlt
  · rw [hr.raw_eq, hr.start_eq, hr.prevNode]
    exact iff_of_true rfl (UInt64.ne_of_lt hlt)

theorem mem_holes (hr : Removed mm mm' a x) (hn : mm.holeStack.Nodup) {n : NodeRef} :
    n ∈ mm'.holeStack ↔ n = a ∨ (n ∈ mm.holeStack ∧ n ≠ x) := by
  rw [hr.holes, List.mem_cons, (hn.erase x).mem_erase_iff, hn.mem_erase_iff]
  tauto

theorem holeNodup (hr : Removed mm mm' a x) (hn : mm.holeStack.Nodup) : mm'.holeStack.Nodup := by
  rw [hr.holes, List.nodup_cons]
  exact ⟨(hn.erase x).not_mem_erase, (hn.erase x).erase a⟩

/-- A block taken out. -/
theorem inv {start size : UInt64} {xs p q : List NodeRef} (h : mm.Inv start size xs)
    (hr : Removed mm mm' a x) (hpq : NodeRef.headNode :: xs = p ++ a :: x :: q) :
    ∃ xs', mm'.Inv start size xs' ∧ NodeRef.headNode :: xs' = p ++ a :: q := by
  have hring := h.ring
  have hgap := h.gap
  obtain ⟨xs', hxs', hx, hmem⟩ := ring_erase hpq
  rw [hpq] at hring hgap
  obtain ⟨L', hL, hring'⟩ := hring.unlink
  rw [hr.list] at hL
  cases hL
  have hcut : p ++ a :: x :: q = (p ++ [a]) ++ x :: q := by simp
  have hnx : x ∉ NodeRef.headNode :: xs' := by
    rw [hxs']
    have := hring.nodup
    rw [hcut, List.nodup_middle, List.nodup_cons] at this
    simpa using this.1
  have hnd' := hring'.nodup
  rw [← hxs'] at hnd'
  have hsub : ∀ n ∈ xs', n ∈ xs ∧ n ≠ x := by
    intro n hn
    refine ⟨?_, fun e => hnx (e ▸ .tail _ hn)⟩
    apply (List.mem_cons.1 ((hmem n).2 (.inr (.tail _ hn)))).resolve_left
    rintro rfl
    exact (List.nodup_cons.1 hnd').1 hn
  refine ⟨xs', ?_, hxs'⟩
  refine
    { ring := hxs' ▸ hring'
      gap := hxs' ▸ hr.gap hgap hring.nodup (h.block x hx)
      noWrap := h.noWrap
      headStart := by rw [hr.start_eq, h.headStart]
      headEnd := by rw [hr.raw_eq, h.headEnd]
      headUnscanned := hr.unscanned h.headUnscanned
      block := fun n hn => hr.block (hsub n hn).2 (h.block n (hsub n hn).1)
      allocated := fun n hn hal => ?_
      holeNodup := hr.holeNodup h.holeNodup
      holeMem := fun n => ?_
      unused := fun n hn => ?_
      unusedNodup := hr.unusedNodes ▸ h.unusedNodup
      scannedBlocks := hr.scannedBlocks.trans h.scannedBlocks
      colorAdjust := hr.colorAdjust.trans h.colorAdjust }
  · obtain ⟨f, b, hf, hb, -⟩ := hr.node_eq n
    rw [hf] at hal
    have hm := (hmem n).1 (.tail _ (h.allocated n hn (hb hal)))
    rcases hm with rfl | hm
    · rw [← hf, hr.oldNode] at hal
      cases hal
    · exact (List.mem_cons.1 hm).resolve_left hn
  · rw [hr.mem_holes h.holeNodup, h.holeMem n, hmem n]
    by_cases hna : n = a
    · subst hna
      have : n ∈ NodeRef.headNode :: xs' := by
        rw [hxs']
        simp
      simp only [hr.prevNode, this, true_or, and_self]
    · by_cases hnx' : n = x
      · subst hnx'
        simp only [hna, hnx, false_or, ne_eq, not_true_eq_false, and_false, false_and]
      · simp only [hr.other n hna hnx', hna, hnx', false_or, ne_eq, not_false_eq_true, and_true]
  · rw [hr.unusedNodes] at hn
    obtain ⟨h1, h2, h3⟩ := h.unused n hn
    obtain ⟨f, b, hf, hb, -⟩ := hr.node_eq n
    refine ⟨h1, ?_, hr.unscanned h3⟩
    rw [hf]
    cases b with
    | false => rfl
    | true => exact absurd (hb rfl) (by rw [h2]; simp)

end Removed

theorem dropHole_eq {mm : Mm} {x b : NodeRef} (hg : mm.Gap x b)
    (hx : x ∈ mm.holeStack ↔ (mm.node x).holeFollows = true) :
    mm.dropHole x (mm.node b).start = some { mm with holeStack := mm.holeStack.erase x } := by
  unfold Mm.dropHole
  split
  · rename_i hf
    rw [if_neg (hg.2.1 hf), Mm.holeStackDel, if_pos (hx.2 hf)]
  · rename_i hf
    rw [if_neg (not_not.2 (not_ne_iff.1 (mt hg.2.2 hf))), List.erase_of_not_mem (mt hx.1 hf)]

theorem raiseHole_eq {mm : Mm} {a : NodeRef}
    (ha : a ∈ mm.holeStack ↔ (mm.node a).holeFollows = true) :
    mm.raiseHole a = some
      { mm with
        node := Function.update mm.node a { mm.node a with holeFollows := true }
        holeStack := a :: mm.holeStack.erase a } := by
  unfold Mm.raiseHole
  split
  · rename_i hf
    have hupd : Function.update mm.node a { mm.node a with holeFollows := true } = mm.node := by
      rw [← hf]
      exact Function.update_eq_self a mm.node
    rw [Mm.holeStackDel, if_pos (ha.2 hf), hupd]
    rfl
  · rename_i hf
    rw [List.erase_of_not_mem (mt ha.1 hf)]
    rfl

/-- **`drm_mm_remove_node`** on an allocated node never panics. -/
theorem mmRemoveNode_removed {mm : Mm} {start size : UInt64} {xs p q : List NodeRef}
    {a x : NodeRef} (h : mm.Inv start size xs)
    (hpq : NodeRef.headNode :: xs = p ++ a :: x :: q) (hx : x ∈ xs) :
    ∃ mm', mmRemoveNode mm x = some mm' ∧ Removed mm mm' a x := by
  have hring := h.ring
  have hgap := h.gap
  rw [hpq] at hring hgap
  obtain ⟨L', hL, -⟩ := hring.unlink
  have hprev := hring.prev
  have hcut : p ++ a :: x :: q = (p ++ [a]) ++ x :: q := by simp
  have hnd := hring.nodup
  rw [hcut] at hring hgap hnd
  have hax : a ≠ x := by
    rintro rfl
    rw [List.nodup_middle, List.nodup_cons] at hnd
    exact hnd.1 (by simp)
  have hnext := hring.next
  have hu := (h.block x hx).unscanned
  have ha : a ∈ NodeRef.headNode :: xs := by
    rw [hpq]
    simp
  have hmx : x ∈ mm.holeStack ↔ (mm.node x).holeFollows = true := by
    rw [h.holeMem]
    exact and_iff_right (.tail _ hx)
  have hma : a ∈ mm.holeStack.erase x ↔ (mm.node a).holeFollows = true := by
    rw [h.holeNodup.mem_erase_iff, h.holeMem]
    simp only [hax, ne_eq, not_false_eq_true, true_and, ha]
  simp only [mmRemoveNode, hu.block, hu.prevFree, hu.nextFree, Bool.or_self, Bool.false_eq_true,
    if_false, hprev, mmHoleNodeEnd, hnext, Option.map_some, Option.bind_eq_bind, Option.bind_some,
    dropHole_eq hgap.rel_succ hmx]
  rw [raiseHole_eq hma]
  simp only [Mm.nodeListDel, hL, Option.map_some, Option.bind_some, Mm.modifyNode]
  refine ⟨_, rfl, ?_⟩
  refine
    { list := hL
      oldNode := ?_
      prevNode := ?_
      other := fun n hna hnx => ?_
      holes := rfl
      unusedNodes := rfl
      scannedBlocks := rfl
      colorAdjust := rfl }
  · simp only [Function.update_self, Function.update_of_ne hax.symm]
  · simp only [Function.update_self, Function.update_of_ne hax]
  · simp only [Function.update_of_ne hnx, Function.update_of_ne hna]

end Drm
