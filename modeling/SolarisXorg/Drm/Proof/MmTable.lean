import SolarisXorg.Drm.MmTable
import SolarisXorg.Drm.Proof.MmRun

/-!
# The loop over the nodes of a manager does not end

The ring of nodes has no head of its own: `head_node` is a node, and `drm_mm_init` gives its
`node_list` a `contain_ptr` like any other. `Mm.Linked` is the part of the invariant of the ring
that no address enters, so that every call keeps it, wrapped addresses or not: `PutIn.linked` for
the insertions and `Removed.linked` for the removals. With the pointers of the nodes in the ring
(`MmPtrs.Linked`, `mmPtrsStep_linked`), every entry that `list_entry` gives is a node of the ring
and has one behind it: `mmForEachNode_runs_round` says which, and that the loop never ends.
-/

namespace Drm

open Lib

/-! ## The ring without addresses -/

/-- The nodes are in a ring, those of the blocks are the allocated ones, and the nodes on
`hole_stack` are in the ring. -/
structure Mm.Linked (mm : Mm) (xs : List NodeRef) : Prop where
  ring : IsRing mm.nodeList (.headNode :: xs)
  allocated : ∀ n, n ≠ .headNode → ((mm.node n).allocated = true ↔ n ∈ xs)
  holeNodup : mm.holeStack.Nodup
  holes : ∀ a ∈ mm.holeStack, a ∈ NodeRef.headNode :: xs ∧ (mm.node a).holeFollows = true
  unused : ∀ n ∈ mm.unusedNodes, n ≠ .headNode ∧ (mm.node n).allocated = false
  unusedNodup : mm.unusedNodes.Nodup

variable {mm mm' : Mm} {xs : List NodeRef} {a x : NodeRef}

/-- A node that is not allocated is not in the ring. -/
theorem Mm.Linked.not_mem (h : mm.Linked xs) (hx : x ≠ .headNode)
    (hal : (mm.node x).allocated = false) : x ∉ NodeRef.headNode :: xs := by
  intro hm
  have := (h.allocated x hx).2 ((List.mem_cons.1 hm).resolve_left hx)
  rw [hal] at this
  cases this

/-- `mm'` is `mm` with the node `x` behind `a`; `closed` says that `a` has no hole any more, `left`
that `x` has one. -/
structure PutIn (mm mm' : Mm) (a x : NodeRef) (closed left : Bool) : Prop where
  list : mm.nodeList.insertAfter x a = some mm'.nodeList
  newNode : (mm'.node x).allocated = true ∧ (mm'.node x).holeFollows = left
  oldNode : (mm'.node a).allocated = (mm.node a).allocated ∧
    (closed = false → (mm'.node a).holeFollows = (mm.node a).holeFollows)
  other : ∀ n, n ≠ a → n ≠ x → mm'.node n = mm.node n
  holes : mm'.holeStack =
    (if left then [x] else []) ++ if closed then mm.holeStack.erase a else mm.holeStack
  unused : mm'.unusedNodes = mm.unusedNodes

theorem PutIn.allocated_eq {closed left : Bool} (hp : PutIn mm mm' a x closed left) {n : NodeRef}
    (hn : n ≠ x) : (mm'.node n).allocated = (mm.node n).allocated := by
  by_cases hna : n = a
  · subst hna
    exact hp.oldNode.1
  · rw [hp.other n hna hn]

theorem PutIn.mem_holes {closed left : Bool} (hp : PutIn mm mm' a x closed left)
    (hn : mm.holeStack.Nodup) {n : NodeRef} (h : n ∈ mm'.holeStack) :
    (n = x ∧ left = true) ∨ (n ∈ mm.holeStack ∧ (n = a → closed = false)) := by
  rw [hp.holes, List.mem_append] at h
  rcases h with h | h
  · cases left with
    | true => exact .inl ⟨List.mem_singleton.1 h, rfl⟩
    | false => cases h
  · cases closed with
    | true =>
      rw [if_pos rfl, hn.mem_erase_iff] at h
      exact .inr ⟨h.2, fun e => absurd e h.1⟩
    | false => exact .inr ⟨h, fun _ => rfl⟩

/-- A node is put in the ring. -/
theorem PutIn.linked {closed left : Bool} (h : mm.Linked xs) (hp : PutIn mm mm' a x closed left)
    (ha : a ∈ mm.holeStack) (hx : x ∉ NodeRef.headNode :: xs) (hxu : x ∉ mm.unusedNodes) :
    ∃ xs', mm'.Linked xs' ∧
      ∀ n, n ∈ NodeRef.headNode :: xs' ↔ n = x ∨ n ∈ NodeRef.headNode :: xs := by
  obtain ⟨hmem, -⟩ := h.holes a ha
  have hring := h.ring
  obtain ⟨p, q, hpq⟩ := List.append_of_mem hmem
  rw [hpq] at hring
  obtain ⟨L', hL, hring'⟩ := hring.insertAfter (hpq ▸ hx)
  rw [hp.list] at hL
  cases hL
  obtain ⟨xs', hxs', hmem'⟩ := ring_insert (x := x) hpq
  have hxs : x ∉ mm.holeStack := fun hm => hx (h.holes x hm).1
  refine ⟨xs', ?_, hmem'⟩
  refine
    { ring := hxs' ▸ hring'
      allocated := fun n hn => ?_
      holeNodup := ?_
      holes := fun n hn => ?_
      unused := fun n hn => ?_
      unusedNodup := hp.unused ▸ h.unusedNodup }
  · have hin : n ∈ xs' ↔ n = x ∨ n ∈ xs := by
      have := hmem' n
      simpa only [List.mem_cons, hn, false_or] using this
    rw [hin]
    by_cases hnx : n = x
    · subst hnx
      exact iff_of_true hp.newNode.1 (.inl rfl)
    · rw [hp.allocated_eq hnx, h.allocated n hn]
      simp only [hnx, false_or]
  · rw [hp.holes]
    refine List.Nodup.append ?_ ?_ fun n h1 h2 => ?_
    · split <;> simp
    · split
      · exact h.holeNodup.erase a
      · exact h.holeNodup
    · have hnx : n = x := by
        split at h1
        · exact List.mem_singleton.1 h1
        · cases h1
      subst hnx
      split at h2
      · exact hxs (List.mem_of_mem_erase h2)
      · exact hxs h2
  · obtain ⟨rfl, hleft⟩ | ⟨hold, hclosed⟩ := hp.mem_holes h.holeNodup hn
    · exact ⟨(hmem' n).2 (.inl rfl), hp.newNode.2.trans hleft⟩
    · obtain ⟨hr, hf⟩ := h.holes n hold
      refine ⟨(hmem' n).2 (.inr hr), ?_⟩
      by_cases hna : n = a
      · subst hna
        rw [hp.oldNode.2 (hclosed rfl), hf]
      · rw [hp.other n hna (fun e => hxs (e ▸ hold)), hf]
  · rw [hp.unused] at hn
    obtain ⟨hh, hal⟩ := h.unused n hn
    exact ⟨hh, (hp.allocated_eq fun e => hxu (e ▸ hn)).trans hal⟩

/-- A node is taken out of the ring. -/
theorem Removed.linked (h : mm.Linked xs) (hr : Removed mm mm' a x) {p q : List NodeRef}
    (hpq : NodeRef.headNode :: xs = p ++ a :: x :: q) :
    ∃ xs', mm'.Linked xs' ∧ ∀ n ∈ NodeRef.headNode :: xs', n ∈ NodeRef.headNode :: xs := by
  obtain ⟨xs', hxs', hx, hmem⟩ := ring_erase hpq
  have hring := h.ring
  rw [hpq] at hring
  obtain ⟨L', hL, hring'⟩ := hring.unlink
  rw [hr.list] at hL
  cases hL
  have hnx : x ∉ NodeRef.headNode :: xs' := by
    have hnd := hring.nodup
    have hcut : p ++ a :: x :: q = (p ++ [a]) ++ x :: q := by simp
    rw [hcut, List.nodup_middle, List.nodup_cons] at hnd
    rw [hxs']
    simpa using hnd.1
  refine ⟨xs', ?_, fun n hn => (hmem n).2 (.inr hn)⟩
  refine
    { ring := hxs' ▸ hring'
      allocated := fun n hn => ?_
      holeNodup := hr.holeNodup h.holeNodup
      holes := fun n hn => ?_
      unused := fun n hn => ?_
      unusedNodup := hr.unusedNodes ▸ h.unusedNodup }
  · by_cases hne : n = x
    · subst hne
      rw [hr.oldNode]
      exact iff_of_false (by simp) fun hm => hnx (.tail _ hm)
    · obtain ⟨f, b, hf, -, hb⟩ := hr.node_eq n
      have hin : n ∈ xs ↔ n ∈ xs' := by
        have := hmem n
        simpa only [List.mem_cons, hn, hne, false_or] using this
      rw [hf, hb hne, ← hin]
      exact h.allocated n hn
  · by_cases hna : n = a
    · subst hna
      rw [hr.prevNode, hxs']
      exact ⟨by simp, rfl⟩
    · obtain ⟨hold, hne⟩ := ((hr.mem_holes h.holeNodup).1 hn).resolve_left hna
      obtain ⟨hm, hf⟩ := h.holes n hold
      rw [hr.other n hna hne]
      exact ⟨((hmem n).1 hm).resolve_left hne, hf⟩
  · rw [hr.unusedNodes] at hn
    obtain ⟨hh, hal⟩ := h.unused n hn
    obtain ⟨f, b, hf, hb, -⟩ := hr.node_eq n
    refine ⟨hh, ?_⟩
    rw [hf]
    cases b with
    | false => rfl
    | true => exact absurd (hb rfl) (by rw [hal]; simp)

/-! ## The calls -/

/-- The insertions of `insert_helper` and `insert_helper_range`, wherever the block goes. -/
theorem mmPlace_putIn {size color holeStart holeEnd adjStart : UInt64} {bug : UInt64 → Bool}
    (hxa : x ≠ a) (ha : a ∈ mm.holeStack)
    (e : mmPlace mm a x size color holeStart holeEnd adjStart bug = some mm') :
    ∃ closed left, PutIn mm mm' a x closed left := by
  simp only [mmPlace, closeHole_eq ha, Option.bind_eq_bind, Option.bind_some, Mm.nodeListAdd,
    Mm.modifyNode] at e
  cases hL : mm.nodeList.insertAfter x a with
  | none => simp [hL] at e
  | some L =>
    simp only [hL, Option.map_some, Option.bind_some] at e
    split at e
    · cases e
    · simp only [openHole_eq, Option.some.injEq] at e
      subst e
      refine ⟨decide (adjStart = holeStart), decide (adjStart + size < holeEnd), ?_⟩
      refine
        { list := hL
          newNode := ⟨by simp, by simp [rawHoleNodeStart]⟩
          oldNode := ?_
          other := fun n hna hnx => ?_
          holes := by simp [rawHoleNodeStart]
          unused := rfl }
      · simp only [Function.update_of_ne hxa.symm]
        split
        case isTrue hs => simp [hs]
        case isFalse hs => simp [hs]
      · simp only [Function.update_of_ne hnx]
        split
        · exact Function.update_of_ne hna ..
        · rfl

/-- The insertion of `drm_mm_create_block`. -/
theorem mmCreateAt_putIn {start size stop holeStart holeEnd : UInt64} (hxa : x ≠ a)
    (ha : a ∈ mm.holeStack)
    (e : mmCreateAt mm a x start size stop holeStart holeEnd = some mm') :
    ∃ closed left, PutIn mm mm' a x closed left := by
  simp only [mmCreateAt, Mm.nodeListAdd, Mm.modifyNode, Option.bind_eq_bind] at e
  cases hL : mm.nodeList.insertAfter x a with
  | none => simp [hL] at e
  | some L =>
    simp only [hL, Option.map_some, Option.bind_some] at e
    rw [closeHole_eq (by exact ha), Option.bind_some, openHole_eq] at e
    cases e
    refine ⟨decide (start = holeStart), decide (stop ≠ holeEnd), ?_⟩
    refine
      { list := hL
        newNode := ⟨?_, by simp⟩
        oldNode := ?_
        other := fun n hna hnx => ?_
        holes := by simp
        unused := rfl }
    · split <;> simp [hxa]
    · simp only [Function.update_of_ne hxa.symm]
      split
      case isTrue hs => simp [hs]
      case isFalse hs => simp [hs, Function.update_of_ne hxa.symm]
    · simp only [Function.update_of_ne hnx]
      split
      · rw [Function.update_of_ne hna, Function.update_of_ne hnx]
      · exact Function.update_of_ne hnx ..

theorem dropHole_some {holeEnd : UInt64} (e : mm.dropHole x holeEnd = some mm')
    (hx : x ∈ mm.holeStack → (mm.node x).holeFollows = true) :
    mm' = { mm with holeStack := mm.holeStack.erase x } := by
  unfold Mm.dropHole at e
  split at e
  case isTrue hf =>
    split at e
    · cases e
    · unfold Mm.holeStackDel at e
      split at e
      · cases e
        rfl
      · cases e
  case isFalse hf =>
    split at e
    · cases e
    · cases e
      rw [List.erase_of_not_mem fun hm => hf (hx hm)]

theorem raiseHole_some (e : mm.raiseHole a = some mm')
    (ha : a ∈ mm.holeStack → (mm.node a).holeFollows = true) :
    mm' = { mm with
      node := Function.update mm.node a { mm.node a with holeFollows := true }
      holeStack := a :: mm.holeStack.erase a } := by
  have hiff : (a ∈ mm.holeStack ↔ (mm.node a).holeFollows = true) := by
    refine ⟨ha, fun hf => ?_⟩
    unfold Mm.raiseHole at e
    rw [if_pos hf, Mm.holeStackDel] at e
    by_contra hm
    simp [hm] at e
  rw [raiseHole_eq hiff] at e
  exact (Option.some.inj e).symm

/-- `drm_mm_remove_node` takes the node out of the ring. -/
theorem mmRemoveNode_linked (h : mm.Linked xs) (hx : x ∈ xs) (e : mmRemoveNode mm x = some mm') :
    ∃ xs', mm'.Linked xs' ∧ (∀ n ∈ NodeRef.headNode :: xs', n ∈ NodeRef.headNode :: xs) ∧
      (mm'.node x).allocated = false ∧ mm'.unusedNodes = mm.unusedNodes := by
  obtain ⟨p, a, q, hpq⟩ := ring_prev_exists hx
  have hring := h.ring
  have hnd := h.ring.nodup
  rw [hpq] at hring hnd
  obtain ⟨L', hL, -⟩ := hring.unlink
  have hax : a ≠ x := by
    rintro rfl
    rw [List.nodup_append] at hnd
    exact (List.nodup_cons.1 hnd.2.1).1 (.head _)
  unfold mmRemoveNode at e
  simp only at e
  split at e
  · cases e
  · simp only [hring.prev, Option.bind_eq_bind, Option.bind_some, Option.bind_eq_some_iff] at e
    obtain ⟨holeEnd, -, mm1, hdrop, mm2, hraise, mm3, hdel, e⟩ := e
    have h1 := dropHole_some hdrop fun hm => (h.holes x hm).2
    subst h1
    have h2 := raiseHole_some hraise fun hm => (h.holes a (List.mem_of_mem_erase hm)).2
    subst h2
    simp only [Mm.nodeListDel, hL, Option.map_some, Option.some.injEq] at hdel
    subst hdel
    have hr : Removed mm mm' a x := by
      cases e
      exact
        { list := hL
          oldNode := by
            simp only [Mm.modifyNode, Function.update_self, Function.update_of_ne hax.symm]
          prevNode := by simp only [Mm.modifyNode, Function.update_self, Function.update_of_ne hax]
          other := fun n hna hnx => by
            simp only [Mm.modifyNode, Function.update_of_ne hnx, Function.update_of_ne hna]
          holes := rfl
          unusedNodes := rfl
          scannedBlocks := rfl
          colorAdjust := rfl }
    obtain ⟨xs', h', hsub⟩ := hr.linked h hpq
    exact ⟨xs', h', hsub, by rw [hr.oldNode], hr.unusedNodes⟩

/-- The search returns a node of `hole_stack`. -/
theorem searchHoles_mem {size : UInt64} {alignment : UInt32} {color : UInt64}
    {range : Option (UInt64 × UInt64)} {bestMatch : Bool} {l : List NodeRef}
    {best : Option NodeRef} {bestSize : UInt64}
    (e : searchHoles mm size alignment color range bestMatch l best bestSize = some (some a)) :
    best = some a ∨ a ∈ l := by
  induction l generalizing best bestSize with
  | nil => exact .inl (Option.some.inj e)
  | cons b l ih =>
    simp only [searchHoles, Option.bind_eq_bind, Option.bind_eq_some_iff] at e
    obtain ⟨fits, -, e⟩ := e
    split at e
    · split at e
      · cases e
        exact .inr (.head _)
      · split at e
        · rcases ih e with h | h
          · cases h
            exact .inr (.head _)
          · exact .inr (.tail _ h)
        · exact (ih e).imp_right (.tail _)
    · exact (ih e).imp_right (.tail _)

theorem mmSearch_mem {size : UInt64} {alignment : UInt32} {color : UInt64}
    {range : Option (UInt64 × UInt64)} {bestMatch : Bool}
    (e : mmSearch mm size alignment color range bestMatch = some (some a)) : a ∈ mm.holeStack := by
  unfold mmSearch at e
  split at e
  · cases e
  · exact (searchHoles_mem e).resolve_left (by simp)

/-! ## The pointers -/

/-- The nodes of the ring are those of their `contain_ptr`s. -/
structure MmPtrs.Linked (s : MmPtrs) (xs : List NodeRef) : Prop where
  mm : s.mm.Linked xs
  contain : ∀ n ∈ NodeRef.headNode :: xs, s.containPtr n = some n

variable {s t : MmPtrs}

/-- A node that is not allocated, nor kept for later, goes into a hole. -/
theorem MmPtrs.Linked.put (h : s.Linked xs) {closed left : Bool} {mm1 : Mm} (h1 : mm1.Linked xs)
    (hp : PutIn mm1 mm' a x closed left) (ha : a ∈ mm1.holeStack)
    (hx : x ∉ NodeRef.headNode :: xs) (hxu : x ∉ mm1.unusedNodes) :
    ∃ xs', MmPtrs.Linked ⟨mm', setContain s.containPtr x⟩ xs' := by
  obtain ⟨xs', h', hmem⟩ := hp.linked h1 ha hx hxu
  refine ⟨xs', h', fun n hn => ?_⟩
  rcases (hmem n).1 hn with rfl | hn
  · exact Function.update_self ..
  · have hne : n ≠ x := fun e => hx (e ▸ hn)
    exact (Function.update_of_ne hne ..).trans (h.contain n hn)

theorem MmPtrs.Linked.place (h : s.Linked xs) {mm1 : Mm} (h1 : mm1.Linked xs)
    {size color holeStart holeEnd adjStart : UInt64} {bug : UInt64 → Bool} (ha : a ∈ mm1.holeStack)
    (hx : x ∉ NodeRef.headNode :: xs) (hxu : x ∉ mm1.unusedNodes)
    (e : mmPlace mm1 a x size color holeStart holeEnd adjStart bug = some mm') :
    ∃ xs', MmPtrs.Linked ⟨mm', setContain s.containPtr x⟩ xs' := by
  have hxa : x ≠ a := fun e => hx (e ▸ (h1.holes a ha).1)
  obtain ⟨closed, left, hp⟩ := mmPlace_putIn hxa ha e
  exact h.put h1 hp ha hx hxu

theorem mmInsertHelper_put (h : s.Linked xs) {mm1 : Mm} (h1 : mm1.Linked xs)
    {size : UInt64} {alignment : UInt32} {color : UInt64} (ha : a ∈ mm1.holeStack)
    (hx : x ∉ NodeRef.headNode :: xs) (hxu : x ∉ mm1.unusedNodes)
    (e : mmInsertHelper mm1 a x size alignment color = some mm') :
    ∃ xs', MmPtrs.Linked ⟨mm', setContain s.containPtr x⟩ xs' := by
  simp only [mmInsertHelper, Option.bind_eq_bind, Option.bind_eq_some_iff] at e
  obtain ⟨hs, -, he, -, e⟩ := e
  split at e
  · cases e
  · exact h.place h1 ha hx hxu e

theorem mmInsertHelperRange_put (h : s.Linked xs) {mm1 : Mm} (h1 : mm1.Linked xs)
    {size : UInt64} {alignment : UInt32} {color lo hi : UInt64} (ha : a ∈ mm1.holeStack)
    (hx : x ∉ NodeRef.headNode :: xs) (hxu : x ∉ mm1.unusedNodes)
    (e : mmInsertHelperRange mm1 a x size alignment color lo hi = some mm') :
    ∃ xs', MmPtrs.Linked ⟨mm', setContain s.containPtr x⟩ xs' := by
  simp only [mmInsertHelperRange, Option.bind_eq_bind, Option.bind_eq_some_iff] at e
  obtain ⟨hs, -, he, -, e⟩ := e
  split at e
  · cases e
  · exact h.place h1 ha hx hxu e

/-- An insertion after a search. -/
theorem inserted_linked (h : s.Linked xs) {n : Nat} {r : Option (Int × Mm)}
    (hr : ∀ ret mm', r = some (ret, mm') → (ret ≠ 0 ∧ mm' = s.mm) ∨
      ∃ xs', MmPtrs.Linked ⟨mm', setContain s.containPtr (.node n)⟩ xs' ∧ ret = 0)
    (e : s.inserted (.node n) r = some t) : ∃ xs', t.Linked xs' := by
  simp only [MmPtrs.inserted, Option.map_eq_some_iff] at e
  obtain ⟨⟨ret, mm'⟩, hres, rfl⟩ := e
  rcases hr ret mm' hres with ⟨hret, rfl⟩ | ⟨xs', h', rfl⟩
  · refine ⟨xs, ?_⟩
    simp only [if_neg hret]
    exact h
  · exact ⟨xs', h'⟩

theorem mmInsertNodeGeneric_linked (h : s.Linked xs) {n : Nat} (hn : s.mm.Cleared n)
    {size : UInt64} {alignment : UInt32} {color : UInt64}
    (e : s.inserted (.node n) (mmInsertNodeGeneric s.mm (.node n) size alignment color) = some t) :
    ∃ xs', t.Linked xs' := by
  refine inserted_linked h (fun ret mm' hres => ?_) e
  simp only [mmInsertNodeGeneric, mmSearchFreeGeneric, Option.bind_eq_bind,
    Option.bind_eq_some_iff] at hres
  obtain ⟨r, hsearch, hres⟩ := hres
  cases r with
  | none =>
    cases hres
    exact .inl ⟨by decide, rfl⟩
  | some a =>
    simp only [Option.bind_eq_some_iff] at hres
    obtain ⟨mm1, hins, hres⟩ := hres
    cases hres
    obtain ⟨xs', h'⟩ := mmInsertHelper_put h h.mm (mmSearch_mem hsearch)
      (h.mm.not_mem (by simp) hn.allocated) hn.unused hins
    exact .inr ⟨xs', h', rfl⟩

theorem mmInsertNodeInRangeGeneric_linked (h : s.Linked xs) {n : Nat} (hn : s.mm.Cleared n)
    {size : UInt64} {alignment : UInt32} {color lo hi : UInt64}
    (e : s.inserted (.node n)
      (mmInsertNodeInRangeGeneric s.mm (.node n) size alignment color lo hi) = some t) :
    ∃ xs', t.Linked xs' := by
  refine inserted_linked h (fun ret mm' hres => ?_) e
  simp only [mmInsertNodeInRangeGeneric, mmSearchFreeInRangeGeneric, Option.bind_eq_bind,
    Option.bind_eq_some_iff] at hres
  obtain ⟨r, hsearch, hres⟩ := hres
  cases r with
  | none =>
    cases hres
    exact .inl ⟨by decide, rfl⟩
  | some a =>
    simp only [Option.bind_eq_some_iff] at hres
    obtain ⟨mm1, hins, hres⟩ := hres
    cases hres
    obtain ⟨xs', h'⟩ := mmInsertHelperRange_put h h.mm (mmSearch_mem hsearch)
      (h.mm.not_mem (by simp) hn.allocated) hn.unused hins
    exact .inr ⟨xs', h', rfl⟩

/-- `drm_mm_kmalloc` hands out a node that is not in the ring. -/
theorem mmKmalloc_linked (h : mm.Linked xs) {mem : Option Nat} (hm : mm.FreshMem mem)
    {r : Option NodeRef} (e : mmKmalloc mm mem = (mm', r)) :
    mm'.Linked xs ∧ mm'.holeStack = mm.holeStack ∧
      ∀ x, r = some x → x ∉ NodeRef.headNode :: xs ∧ x ∉ mm'.unusedNodes := by
  cases mem with
  | some i =>
    cases e
    obtain ⟨hal, hun⟩ := hm i rfl
    have hout := h.not_mem (x := .node i) (by simp) hal
    have hne : ∀ n ∈ NodeRef.headNode :: xs, n ≠ .node i := fun n hn e => hout (e ▸ hn)
    refine ⟨⟨h.ring, fun n hn => ?_, h.holeNodup, fun a ha => ?_, fun n hn => ?_, h.unusedNodup⟩,
      rfl, ?_⟩
    · by_cases hni : n = .node i
      · subst hni
        rw [modifyNode_self]
        exact iff_of_false (by simp) fun hm => hout (.tail _ hm)
      · rw [modifyNode_ne _ _ _ hni]
        exact h.allocated n hn
    · obtain ⟨hmem, hf⟩ := h.holes a ha
      rw [modifyNode_ne _ _ _ (hne a hmem)]
      exact ⟨hmem, hf⟩
    · have hni : n ≠ .node i := fun e => hun (e ▸ hn)
      rw [modifyNode_ne _ _ _ hni]
      exact h.unused n hn
    · rintro x ⟨⟩
      exact ⟨hout, hun⟩
  | none =>
    unfold mmKmalloc at e
    simp only at e
    split at e
    case h_1 =>
      cases e
      exact ⟨h, rfl, by simp⟩
    case h_2 child rest hu =>
      cases e
      have hnd := h.unusedNodup
      rw [hu, List.nodup_cons] at hnd
      have hun := fun n hn => h.unused n (by rw [hu]; exact hn)
      refine ⟨⟨h.ring, h.allocated, h.holeNodup, h.holes, fun n hn => hun n (.tail _ hn), hnd.2⟩,
        rfl, ?_⟩
      rintro x ⟨⟩
      obtain ⟨h1, h2⟩ := hun child (.head _)
      exact ⟨h.not_mem h1 h2, hnd.1⟩

/-- A call that makes its node. -/
theorem made_linked (h : s.Linked xs) {mem : Option Nat} (hm : s.mm.FreshMem mem)
    {f : Mm → NodeRef → Option Mm}
    (hput : ∀ mm1 x mm', mm1.Linked xs → mm1.holeStack = s.mm.holeStack →
      x ∉ NodeRef.headNode :: xs → x ∉ mm1.unusedNodes → f mm1 x = some mm' →
      ∃ xs', MmPtrs.Linked ⟨mm', setContain s.containPtr x⟩ xs')
    (e : s.made (match mmKmalloc s.mm mem with
      | (mm, none) => some (none, mm)
      | (mm, some node) => (f mm node).map (some node, ·)) = some t) :
    ∃ xs', t.Linked xs' := by
  cases hk : mmKmalloc s.mm mem with
  | mk mm1 r =>
    obtain ⟨h1, hholes, hx⟩ := mmKmalloc_linked h.mm hm hk
    rw [hk] at e
    cases r with
    | none =>
      cases e
      exact ⟨xs, h1, h.contain⟩
    | some x =>
      simp only [MmPtrs.made, Option.map_map, Option.map_eq_some_iff] at e
      obtain ⟨mm', hp, rfl⟩ := e
      obtain ⟨hxr, hxu⟩ := hx x rfl
      exact hput mm1 x mm' h1 hholes hxr hxu hp

theorem mmCreateIn_linked (h : s.Linked xs) {start size stop : UInt64} {mem : Option Nat}
    (hm : s.mm.FreshMem mem) {l : List NodeRef} (hl : ∀ a ∈ l, a ∈ s.mm.holeStack)
    (e : s.made (mmCreateIn s.mm start size stop mem l) = some t) : ∃ xs', t.Linked xs' := by
  induction l with
  | nil =>
    cases e
    exact ⟨xs, h⟩
  | cons a l ih =>
    have ha := hl a (.head _)
    simp only [mmCreateIn, Option.bind_eq_bind] at e
    cases hs : mmHoleNodeStart s.mm a with
    | none => simp [hs, MmPtrs.made] at e
    | some holeStart =>
      cases he : mmHoleNodeEnd s.mm a with
      | none => simp [hs, he, MmPtrs.made] at e
      | some holeEnd =>
        simp only [hs, he, Option.bind_some] at e
        split at e
        · exact ih (fun x hx => hl x (.tail _ hx)) e
        · refine made_linked h hm
            (f := fun mm x => mmCreateAt mm a x start size stop holeStart holeEnd) ?_ e
          intro mm1 x mm' h1 hholes hxr hxu hp
          rw [← hholes] at ha
          have hxa : x ≠ a := fun e => hxr (e ▸ (h1.holes a ha).1)
          obtain ⟨closed, left, hp⟩ := mmCreateAt_putIn hxa ha hp
          exact h.put h1 hp ha hxr hxu

/-- `drm_mm_put_block` takes the node out of the ring and may keep it for later. -/
theorem mmPutBlock_linked (h : s.Linked xs) (hx : x ∈ xs)
    (e : mmPtrsStep s (.putBlock x) = some t) : ∃ xs', t.Linked xs' := by
  simp only [mmPtrsStep, mmPutBlock, Option.bind_eq_bind, Option.map_eq_some_iff,
    Option.bind_eq_some_iff] at e
  obtain ⟨mm', ⟨mm1, hrem, hput⟩, rfl⟩ := e
  obtain ⟨xs', h1, hsub, hal, hunused⟩ := mmRemoveNode_linked h.mm hx hrem
  have hxh : x ≠ .headNode := by
    rintro rfl
    exact (List.nodup_cons.1 h.mm.ring.nodup).1 hx
  have hxu : x ∉ mm1.unusedNodes := by
    intro hm
    rw [hunused] at hm
    have := (h.mm.allocated x hxh).2 hx
    rw [(h.mm.unused x hm).2] at this
    cases this
  have hcontain : ∀ n ∈ NodeRef.headNode :: xs',
      (if s.mm.numUnused < mmUnusedTarget then setContain s.containPtr x else s.containPtr) n =
        some n := by
    intro n hn
    have hold := h.contain n (hsub n hn)
    split
    · by_cases hnx : n = x
      · subst hnx
        exact Function.update_self ..
      · exact (Function.update_of_ne hnx ..).trans hold
    · exact hold
  split at hput
  · cases hput
    refine ⟨xs', ⟨h1.ring, h1.allocated, h1.holeNodup, h1.holes, fun n hn => ?_, ?_⟩, hcontain⟩
    · rcases List.mem_cons.1 hn with rfl | hn
      · exact ⟨hxh, hal⟩
      · exact h1.unused n hn
    · exact List.nodup_cons.2 ⟨hxu, h1.unusedNodup⟩
  · cases hput
    exact ⟨xs', h1, hcontain⟩

/-! ## Runs -/

/-- The pointers do not change what a call does to the manager. -/
theorem mmPtrsStep_mm (s : MmPtrs) (op : MmOp) :
    (mmPtrsStep s op).map (·.mm) = mmStep s.mm op := by
  cases op <;> simp only [mmPtrsStep, mmStep, MmPtrs.inserted, MmPtrs.made, Option.map_map] <;>
    first | rfl | exact Option.map_id'

/-- **One call** keeps the ring and the pointers of its nodes. -/
theorem mmPtrsStep_linked (h : s.Linked xs) {op : MmOp} (ha : s.mm.Admissible op)
    (e : mmPtrsStep s op = some t) : ∃ xs', t.Linked xs' := by
  cases op with
  | insertNode n size alignment => exact mmInsertNodeGeneric_linked h ha.2 e
  | insertNodeGeneric n size alignment color => exact mmInsertNodeGeneric_linked h ha.2 e
  | insertNodeInRange n size alignment lo hi => exact mmInsertNodeInRangeGeneric_linked h ha.2 e
  | insertNodeInRangeGeneric n size alignment color lo hi =>
    exact mmInsertNodeInRangeGeneric_linked h ha.2 e
  | createBlock start size mem => exact mmCreateIn_linked h ha.2.2 (fun _ => id) e
  | getBlockGeneric hole size alignment color mem =>
    obtain ⟨-, hm, bestMatch, hsearch⟩ := ha
    refine made_linked h hm (f := fun mm x => mmInsertHelper mm hole x size alignment color) ?_ e
    intro mm1 x mm' h1 hholes hxr hxu hp
    exact mmInsertHelper_put h h1 (hholes ▸ mmSearch_mem hsearch) hxr hxu hp
  | getBlockRangeGeneric hole size alignment color lo hi mem =>
    obtain ⟨-, hm, bestMatch, hsearch⟩ := ha
    refine made_linked h hm
      (f := fun mm x => mmInsertHelperRange mm hole x size alignment color lo hi) ?_ e
    intro mm1 x mm' h1 hholes hxr hxu hp
    exact mmInsertHelperRange_put h h1 (hholes ▸ mmSearch_mem hsearch) hxr hxu hp
  | removeNode node =>
    simp only [mmPtrsStep, Option.map_eq_some_iff] at e
    obtain ⟨mm', hrem, rfl⟩ := e
    obtain ⟨xs', h', hsub, -⟩ := mmRemoveNode_linked h.mm ((h.mm.allocated node ha.1).1 ha.2) hrem
    exact ⟨xs', h', fun n hn => h.contain n (hsub n hn)⟩
  | putBlock node => exact mmPutBlock_linked h ((h.mm.allocated node ha.1).1 ha.2) e

theorem mmPtrsInit_linked {start size : UInt64}
    (hfree : ∀ n, n ≠ .headNode → (s.mm.node n).allocated = false) :
    (mmPtrsInit s start size).Linked [] := by
  refine ⟨⟨⟨?_, by simp⟩, fun n hn => ?_, ?_, fun a ha => ?_, ?_, ?_⟩, fun n hn => ?_⟩
  · simp [Cyc, Links.Adj, mmPtrsInit, mmInit, Links.setNext, Links.setPrev]
  · simp only [mmPtrsInit, mmInit, Function.update_of_ne hn, hfree n hn]
    simp
  · simp [mmPtrsInit, mmInit]
  · obtain rfl := List.mem_singleton.1 ha
    exact ⟨.head _, by simp [mmPtrsInit, mmInit]⟩
  · simp [mmPtrsInit, mmInit]
  · simp [mmPtrsInit, mmInit]
  · obtain rfl := List.mem_singleton.1 hn
    simp only [mmPtrsInit, setContain, Function.update_self]

/-! ## The loops -/

/-- The node behind the one at place `k` of the ring, counted round. -/
theorem MmPtrs.Linked.listEntry_next (h : s.Linked xs) {k : Nat} {n : NodeRef}
    (hn : (NodeRef.headNode :: xs)[k]? = some n) :
    s.listEntry (s.mm.nodeList.next n) = (NodeRef.headNode :: xs)[(k + 1) % (xs.length + 1)]? := by
  rw [h.mm.ring.next_getElem? hn, List.length_cons, MmPtrs.listEntry]
  cases hm : (NodeRef.headNode :: xs)[(k + 1) % (xs.length + 1)]? with
  | none => rfl
  | some m => exact h.contain m (List.mem_of_getElem? hm)

/-- From a node of the ring the loop comes to a node of the ring. -/
theorem MmPtrs.Linked.listEntry_mem (h : s.Linked xs) {n : NodeRef}
    (hn : n ∈ NodeRef.headNode :: xs) :
    ∃ m ∈ NodeRef.headNode :: xs, s.listEntry (s.mm.nodeList.next n) = some m := by
  obtain ⟨k, hk⟩ := List.mem_iff_getElem?.1 hn
  have hlt : (k + 1) % (xs.length + 1) < (NodeRef.headNode :: xs).length :=
    Nat.mod_lt _ (Nat.succ_pos _)
  rw [h.listEntry_next hk, List.getElem?_eq_getElem hlt]
  exact ⟨_, List.getElem_mem hlt, rfl⟩

/-- The loop goes round the ring, `head_node` included. -/
theorem MmPtrs.Linked.entry_eq (h : s.Linked xs) (k : Nat) :
    s.entry k = (NodeRef.headNode :: xs)[(k + 1) % (xs.length + 1)]? := by
  induction k with
  | zero => exact h.listEntry_next rfl
  | succ k ih =>
    rw [MmPtrs.entry, ih]
    have hlt : (k + 1) % (xs.length + 1) < (NodeRef.headNode :: xs).length :=
      Nat.mod_lt _ (Nat.succ_pos _)
    rw [List.getElem?_eq_getElem hlt, Option.bind_some,
      h.listEntry_next (List.getElem?_eq_getElem hlt), Nat.mod_add_mod]

/-- A loop that is at a node of the ring has a node behind it. -/
theorem MmPtrs.Linked.visitFrom_eq_none (h : s.Linked xs) (fuel : Nat) {n : NodeRef}
    (hn : n ∈ NodeRef.headNode :: xs) : s.visitFrom fuel (some n) = none := by
  induction fuel generalizing n with
  | zero => rfl
  | succ fuel ih =>
    obtain ⟨m, hm, he⟩ := h.listEntry_mem hn
    rw [MmPtrs.visitFrom, he, ih hm, Option.map_none]

theorem MmPtrs.Linked.debugFrom_eq_none (h : s.Linked xs) (fuel : Nat) {n : NodeRef}
    (hn : n ∈ NodeRef.headNode :: xs) (used free : UInt64) :
    s.debugFrom fuel (some n) used free = none := by
  induction fuel generalizing n used free with
  | zero => rfl
  | succ fuel ih =>
    obtain ⟨m, hm, he⟩ := h.listEntry_mem hn
    rw [MmPtrs.debugFrom, he, Option.bind_eq_bind]
    cases mmDebugHole s.mm n with
    | none => rfl
    | some hole => exact ih hm _ _

/-- **The loop does not end.** After any calls on a new manager `drm_mm_for_each_node` goes round
the ring for ever, over the blocks and `head_node`, and so does `drm_mm_debug_table`. -/
theorem mmForEachNode_runs_round {s0 : MmPtrs} {start size : UInt64}
    (hfree : ∀ n, n ≠ .headNode → (s0.mm.node n).allocated = false) {ops : List MmOp}
    (h : Run mmPtrsCall (mmPtrsInit s0 start size) ops s) :
    (∃ xs, (∀ n, n ∈ xs ↔ n ≠ .headNode ∧ (s.mm.node n).allocated = true) ∧
      ∀ k, s.entry k = (NodeRef.headNode :: xs)[(k + 1) % (xs.length + 1)]?) ∧
    (∀ fuel, mmForEachNode s fuel = none ∧ mmDebugTable s fuel = none) ∧ ¬ s.TableEnds size := by
  have hlinked : ∃ xs, s.Linked xs := by
    apply h.inv (I := fun s : MmPtrs => ∃ xs, s.Linked xs)
    · exact ⟨[], mmPtrsInit_linked hfree⟩
    rintro s1 op s2 ⟨xs, h1⟩ ⟨ha, e⟩
    exact mmPtrsStep_linked h1 ha e
  obtain ⟨xs, hl⟩ := hlinked
  obtain ⟨n, hn, hfirst⟩ := hl.listEntry_mem (.head _)
  have heach : ∀ fuel, mmForEachNode s fuel = none := fun fuel => by
    rw [mmForEachNode, hfirst]
    exact hl.visitFrom_eq_none fuel hn
  have htable : ∀ fuel, mmDebugTable s fuel = none := fun fuel => by
    rw [mmDebugTable, hfirst, Option.bind_eq_bind]
    cases mmDebugHole s.mm .headNode with
    | none => rfl
    | some hole => exact hl.debugFrom_eq_none fuel hn _ _
  refine ⟨⟨xs, fun n => ⟨fun hm => ?_, fun hm => ?_⟩, hl.entry_eq⟩,
    fun fuel => ⟨heach fuel, htable fuel⟩, ?_⟩
  · have hne : n ≠ .headNode := by
      rintro rfl
      exact (List.nodup_cons.1 hl.mm.ring.nodup).1 hm
    exact ⟨hne, (hl.mm.allocated n hne).2 hm⟩
  · exact (hl.mm.allocated n hm.1).1 hm.2
  · rintro ⟨⟨fuel, visited, hv, -⟩, -⟩
    rw [heach fuel] at hv
    cases hv

/-- The loop of a manager with one block comes to the block, then to `head_node`, and so on. -/
theorem mmForEachNode_runs_round_block : ∃ s,
    mmPtrsStep (mmPtrsInit ⟨blankMm, fun _ => none⟩ 0x1000 0x8000)
      (.createBlock 0x2000 0x1000 (some 0)) = some s ∧ ¬ s.TableEnds 0x8000 ∧
      s.entry 0 = some (.node 0) ∧ s.entry 1 = some .headNode ∧ s.entry 2 = some (.node 0) := by
  let s0 := mmPtrsInit ⟨blankMm, fun _ => none⟩ 0x1000 0x8000
  have hfree : ∀ n, n ≠ .headNode → (blankMm.node n).allocated = false := fun _ _ => rfl
  have hfresh : s0.mm.FreshMem (some 0) := by
    rintro n ⟨⟩
    exact ⟨rfl, by simp [s0, mmPtrsInit, mmInit]⟩
  let s := (mmPtrsStep s0 (.createBlock 0x2000 0x1000 (some 0))).get (by decide)
  have hcall : mmPtrsCall s0 (.createBlock 0x2000 0x1000 (some 0)) s :=
    ⟨⟨by decide, by decide, hfresh⟩, (Option.some_get _).symm⟩
  have run : Run mmPtrsCall s0 [.createBlock 0x2000 0x1000 (some 0)] s := .snoc .nil hcall
  exact ⟨s, hcall.2, (mmForEachNode_runs_round hfree run).2.2, by decide, by decide, by decide⟩

/-- The loop does not end on a manager just set up. -/
theorem mmForEachNode_stuck_on_empty :
    ¬ ∀ (s0 s : MmPtrs) (start size : UInt64) (ops : List MmOp),
      (∀ n, n ≠ .headNode → (s0.mm.node n).allocated = false) → size ≠ 0 →
      start.toNat + size.toNat < 2 ^ 64 →
      Run mmPtrsCall (mmPtrsInit s0 start size) ops s → s.TableEnds size := by
  intro h
  have hfree : ∀ n, n ≠ .headNode → (blankMm.node n).allocated = false := fun _ _ => rfl
  obtain ⟨⟨fuel, visited, hv, -⟩, -⟩ :=
    h ⟨blankMm, fun _ => none⟩ _ 0x1000 0x8000 [] hfree (by decide) (by decide) .nil
  have hl : (mmPtrsInit ⟨blankMm, fun _ => none⟩ 0x1000 0x8000).Linked [] := mmPtrsInit_linked hfree
  have hnone := hl.visitFrom_eq_none fuel (n := .headNode) (.head _)
  rw [show mmForEachNode _ fuel = none from hnone] at hv
  cases hv

end Drm
