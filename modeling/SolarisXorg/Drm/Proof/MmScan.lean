import SolarisXorg.Drm.MmScan
import SolarisXorg.Drm.Proof.MmRun

/-!
# The eviction scan finds a hole and leaves no trace

During a scan the ring consists of `head_node` and a sublist `ys` of the blocks `xs`.
`scanAdd_spec` says what one `drm_mm_scan_add_block` does, and that the matching
`drm_mm_scan_remove_block` takes it back, whatever has been added and removed in between
(`mmScanRemoveBlock_undo`). By induction over the blocks, the unwinding of a scan restores the
manager (`evict_loop`).

The answers are decided by addresses: `window_iff` says that the one for a block is whether it
starts in the hit window. The window lies between two neighbours `a` and `b` of the ring at the
time of the hit, so every block in it has been scanned (`window_scanned`), and once these are
removed the hole of `a` is the one that passed the check (`removed_hole`).
-/

namespace Drm

open Lib

/-! ## Addresses along the ring -/

section
variable {mm : Mm} {start size : UInt64} {xs : List NodeRef} (h : mm.Inv start size xs)
include h

/-- Everything ends before what comes later, `head_node` being first and last. -/
theorem Mm.Inv.walk_order : (NodeRef.headNode :: xs ++ [NodeRef.headNode]).Pairwise
    fun a b => rawHoleNodeStart mm a ≤ (mm.node b).start := by
  rw [List.pairwise_append]
  refine ⟨h.order.imp And.left, List.pairwise_singleton _ _, fun a ha b hb => ?_⟩
  rw [List.mem_singleton.1 hb]
  rcases List.mem_cons.1 ha with rfl | ha
  · rw [h.headEnd, UInt64.le_iff_toNat_le, h.headStart_toNat]
    omega
  · exact h.end_le ha

theorem Mm.Inv.sub_order {ys : List NodeRef} (hy : ys.Sublist xs) :
    (NodeRef.headNode :: ys ++ [NodeRef.headNode]).Pairwise
      fun a b => rawHoleNodeStart mm a ≤ (mm.node b).start :=
  h.walk_order.sublist ((hy.cons_cons _).append (.refl _))

end

/-- The part of the ring up to a position starts with `head_node`; the rest are blocks. -/
theorem ring_split {ys p q : List NodeRef} {a : NodeRef}
    (hpq : NodeRef.headNode :: ys = p ++ a :: q) :
    ∃ t, p ++ [a] = NodeRef.headNode :: t ∧ ys = t ++ q := by
  cases p with
  | nil => exact ⟨[], by rw [(List.cons.inj hpq).1]; rfl, (List.cons.inj hpq).2⟩
  | cons c p =>
    refine ⟨p ++ [a], by rw [(List.cons.inj hpq).1]; rfl, ?_⟩
    rw [(List.cons.inj hpq).2]
    simp

/-- The walk behind a position of the ring starts with the successor. -/
theorem walk_succ {ys p q : List NodeRef} {a : NodeRef}
    (hpq : NodeRef.headNode :: ys = p ++ a :: q) :
    ∃ r, q ++ [NodeRef.headNode] = succ p a q :: r := by
  cases q with
  | cons b q => exact ⟨q ++ [.headNode], rfl⟩
  | nil =>
    refine ⟨[], ?_⟩
    cases p with
    | nil => rw [(List.cons.inj hpq).1]; rfl
    | cons b p => rw [(List.cons.inj hpq).1]; rfl

/-- Where two elements of an appended list stand. -/
theorem pair_sublist_append {A : Type*} {a b : A} {l r : List A} (h : [a, b].Sublist (l ++ r)) :
    [a, b].Sublist l ∨ [a, b].Sublist r ∨ (a ∈ l ∧ b ∈ r) := by
  obtain ⟨l1, l2, he, h1, h2⟩ := List.sublist_append_iff.1 h
  rcases l1 with _ | ⟨x, _ | ⟨y, l1⟩⟩
  · exact .inr (.inl (he ▸ h2))
  · simp only [List.cons_append, List.nil_append, List.cons.injEq] at he
    obtain ⟨rfl, rfl⟩ := he
    exact .inr (.inr ⟨h1.subset (by simp), h2.subset (by simp)⟩)
  · simp only [List.cons_append, List.cons.injEq] at he
    obtain ⟨rfl, rfl, he⟩ := he
    rw [(List.append_eq_nil_iff.1 he.symm).1] at h1
    exact .inl h1

/-- **The answer for a block.** `n` is taken out between `a` and its successor; `a'` and `b` are in
the ring from then on. The test of `drm_mm_scan_remove_block` for the window from the end of `a'`
to the start of `b` says whether `n` starts in it. -/
theorem window_iff {mm : Mm} {start size : UInt64} {xs ys p q : List NodeRef}
    {a n a' b : NodeRef} (h : mm.Inv start size xs) (hy : ys.Sublist xs)
    (hpq : NodeRef.headNode :: ys = p ++ a :: n :: q)
    (hab : [a', b].Sublist (p ++ a :: q ++ [NodeRef.headNode])) :
    (rawHoleNodeStart mm a' < (mm.node (succ p a q)).start ∧
        (mm.node n).start < (mm.node b).start) ↔
      (rawHoleNodeStart mm a' ≤ (mm.node n).start ∧ (mm.node n).start < (mm.node b).start) := by
  have hord := h.sub_order hy
  have hblock : ∀ x ∈ ys, (mm.node x).start < rawHoleNodeStart mm x := fun x hx =>
    (h.block x (hy.subset hx)).start_lt_end
  obtain ⟨t, ht, hys⟩ := ring_split hpq
  have hn : n ∈ ys := by simp [hys]
  have hnb := hblock n hn
  have hcut : NodeRef.headNode :: ys ++ [.headNode] = (p ++ [a]) ++ n :: (q ++ [.headNode]) := by
    rw [hpq]
    simp
  obtain ⟨r, hr⟩ : ∃ r, q ++ [NodeRef.headNode] = succ p a q :: r := by
    have hcut' : NodeRef.headNode :: ys = (p ++ [a]) ++ n :: q := by simp [hpq]
    have := walk_succ hcut'
    rwa [succ_append] at this
  rw [hcut, List.pairwise_append, List.pairwise_cons] at hord
  obtain ⟨-, ⟨hafter, hrest⟩, hbefore⟩ := hord
  have hbefore' := fun x hx => hbefore x hx n (.head _)
  have hnsucc := hafter (succ p a q) (by rw [hr]; exact .head _)
  have hab' : [a', b].Sublist ((p ++ [a]) ++ (q ++ [.headNode])) := by
    simpa using hab
  rcases pair_sublist_append hab' with h1 | h2 | ⟨h1, h2⟩
  · -- both before the block: it starts behind the window
    have hb : b ∈ t := by
      rw [ht, List.sublist_cons_iff] at h1
      rcases h1 with h1 | ⟨l, he, h1⟩
      · exact h1.subset (by simp)
      · cases he
        exact h1.subset (by simp)
    have hbb := hblock b (by simp [hys, hb])
    have hbn := hbefore' b (h1.subset (by simp))
    have hno := UInt64.lt_of_lt_of_le hbb hbn
    exact iff_of_false (fun hc => UInt64.lt_asymm hno hc.2) fun hc => UInt64.lt_asymm hno hc.2
  · -- both behind it: its successor starts before the window
    have ha' : a' ∈ q := by
      rcases pair_sublist_append h2 with h3 | h3 | ⟨h3, -⟩
      · exact h3.subset (by simp)
      · exact absurd h3.length_le (by simp)
      · exact h3
    have haa := hblock a' (by simp [hys, ha'])
    have hle : (mm.node (succ p a q)).start ≤ (mm.node a').start := by
      cases q with
      | nil => cases ha'
      | cons c q =>
        rcases List.mem_cons.1 ha' with rfl | ha'
        · exact UInt64.le_refl _
        · have hcb := hblock c (by simp [hys])
          rw [List.cons_append, List.pairwise_cons] at hrest
          exact UInt64.le_of_lt (UInt64.lt_of_lt_of_le hcb (hrest.1 a' (by simp [ha'])))
    have hno := UInt64.lt_of_le_of_lt hle haa
    apply iff_of_false (fun hc => UInt64.lt_asymm hno hc.1)
    intro hc
    have h3 := UInt64.lt_of_lt_of_le hnb hnsucc
    exact UInt64.lt_irrefl _ (UInt64.lt_of_le_of_lt hc.1 (UInt64.lt_trans h3 hno))
  · have h3 := hbefore' a' h1
    have h4 := UInt64.lt_of_lt_of_le hnb hnsucc
    have h5 := UInt64.lt_of_lt_of_le hnb (hafter b h2)
    exact iff_of_true ⟨UInt64.lt_of_le_of_lt h3 h4, h5⟩ ⟨h3, h5⟩

/-- There is room where a block has been taken out. -/
theorem taken_lt {mm : Mm} {start size : UInt64} {xs ys p q : List NodeRef} {a n : NodeRef}
    (h : mm.Inv start size xs) (hy : ys.Sublist xs)
    (hpq : NodeRef.headNode :: ys = p ++ a :: n :: q) :
    rawHoleNodeStart mm a < (mm.node (succ p a q)).start := by
  have hord := h.sub_order hy
  have hcut : NodeRef.headNode :: ys = (p ++ [a]) ++ n :: q := by simp [hpq]
  obtain ⟨r, hr⟩ := walk_succ hcut
  rw [succ_append] at hr
  have hn : n ∈ ys := by
    obtain ⟨t, -, hys⟩ := ring_split hpq
    simp [hys]
  rw [hcut, List.append_assoc, List.cons_append, hr, List.pairwise_append,
    List.pairwise_cons] at hord
  obtain ⟨-, ⟨hafter, -⟩, hbefore⟩ := hord
  have h1 := hbefore a (by simp) n (.head _)
  have h2 := (h.block n (hy.subset hn)).start_lt_end
  exact UInt64.lt_of_le_of_lt h1 (UInt64.lt_of_lt_of_le h2 (hafter _ (.head _)))

/-- No block that is still in the ring starts between two neighbours. -/
theorem window_scanned {mm : Mm} {start size : UInt64} {xs ys p q : List NodeRef}
    {a n : NodeRef} (h : mm.Inv start size xs) (hy : ys.Sublist xs)
    (hpq : NodeRef.headNode :: ys = p ++ a :: q) (hn : n ∈ ys)
    (hlow : rawHoleNodeStart mm a ≤ (mm.node n).start) :
    (mm.node (succ p a q)).start ≤ (mm.node n).start := by
  have hord := h.sub_order hy
  have hblock : ∀ x ∈ ys, (mm.node x).start < rawHoleNodeStart mm x := fun x hx =>
    (h.block x (hy.subset hx)).start_lt_end
  have hsplit : NodeRef.headNode :: ys ++ [.headNode] = p ++ a :: (q ++ [.headNode]) := by
    rw [hpq]
    simp
  rw [hsplit, List.pairwise_append, List.pairwise_cons] at hord
  obtain ⟨-, ⟨-, hrest⟩, hbefore⟩ := hord
  have hmem : n ∈ p ++ a :: q := hpq ▸ List.mem_cons_of_mem _ hn
  rcases List.mem_append.1 hmem with hp | hq
  · -- before `a`, which is then no `head_node`
    have ha : a ∈ ys := by
      cases p with
      | nil => cases hp
      | cons c p => rw [(List.cons.inj hpq).2]; simp
    have h1 := UInt64.lt_of_lt_of_le (hblock n hn) (hbefore n hp a (.head _))
    have h2 := UInt64.lt_trans h1 (hblock a ha)
    exact absurd hlow (UInt64.not_le.2 h2)
  · rcases List.mem_cons.1 hq with rfl | hq
    · exact absurd hlow (UInt64.not_le.2 (hblock n hn))
    · cases q with
      | nil => cases hq
      | cons b q =>
        rcases List.mem_cons.1 hq with rfl | hq
        · exact UInt64.le_refl _
        · have hb : b ∈ ys := by
            obtain ⟨t, -, hys⟩ := ring_split hpq
            simp [hys]
          rw [List.cons_append, List.pairwise_cons] at hrest
          exact UInt64.le_of_lt (UInt64.lt_of_lt_of_le (hblock b hb) (hrest.1 n (by simp [hq])))

/-! ## Taking a block out and putting it back -/

/-- The same manager, up to the records of scans that are over. -/
structure Mm.Same (mm mm' : Mm) : Prop where
  list : mm'.nodeList = mm.nodeList
  node : ∀ n, ∃ b, mm'.node n = { mm.node n with scannedPreceedsHole := b } ∧
    ((mm.node n).scannedBlock = true → b = (mm.node n).scannedPreceedsHole)
  holeStack : mm'.holeStack = mm.holeStack
  unusedNodes : mm'.unusedNodes = mm.unusedNodes
  scannedBlocks : mm'.scannedBlocks = mm.scannedBlocks
  colorAdjust : mm'.colorAdjust = mm.colorAdjust

theorem Mm.Same.refl (mm : Mm) : mm.Same mm :=
  ⟨rfl, fun _ => ⟨_, rfl, fun _ => rfl⟩, rfl, rfl, rfl, rfl⟩

/-- `mm'` is `mm` with the block of `n`, the one behind `a`, taken out by a scan. -/
structure Taken (mm mm' : Mm) (a n : NodeRef) : Prop where
  list : ∃ L k, mm.nodeList.unlink n = some L ∧
    mm'.nodeList = (L.setPrev n (some a)).setNext n k
  node : mm'.node n =
    { mm.node n with scannedBlock := true, scannedPreceedsHole := (mm.node a).holeFollows }
  prevNode : mm'.node a = { mm.node a with holeFollows := true }
  other : ∀ m, m ≠ a → m ≠ n → mm'.node m = mm.node m
  holeStack : mm'.holeStack = mm.holeStack
  unusedNodes : mm'.unusedNodes = mm.unusedNodes
  scannedBlocks : mm'.scannedBlocks = mm.scannedBlocks + 1
  colorAdjust : mm'.colorAdjust = mm.colorAdjust

theorem Taken.addr {mm mm' : Mm} {a n : NodeRef} (t : Taken mm mm' a n) (m : NodeRef) :
    (mm'.node m).start = (mm.node m).start ∧ (mm'.node m).size = (mm.node m).size := by
  by_cases hma : m = a
  · subst hma
    rw [t.prevNode]
    exact ⟨rfl, rfl⟩
  · by_cases hmn : m = n
    · subst hmn
      rw [t.node]
      exact ⟨rfl, rfl⟩
    · rw [t.other m hma hmn]
      exact ⟨rfl, rfl⟩

/-- **Undo.** `drm_mm_scan_remove_block` takes `drm_mm_scan_add_block` back. -/
theorem mmScanRemoveBlock_undo {mm mm1 mm2 : Mm} {a n b : NodeRef} (t : Taken mm mm1 a n)
    (han : mm.nodeList.Adj a n) (hnb : mm.nodeList.Adj n b) (hne : a ≠ n) (hbn : b ≠ n)
    (hscan : (mm.node n).scannedBlock = false) (hs : mm1.Same mm2) :
    ∃ ret mm3, mmScanRemoveBlock mm2 n = some (ret, mm3) ∧ mm.Same mm3 ∧
      mm3.scanHitStart = mm2.scanHitStart ∧ mm3.scanHitEnd = mm2.scanHitEnd ∧
      (ret = true ↔ mm2.scanHitStart < (mm.node b).start ∧
        (mm.node n).start < mm2.scanHitEnd) := by
  obtain ⟨L, k, hL, hlist⟩ := t.list
  -- what the block and the node before it look like when the block is put back
  obtain ⟨f, hn, hf⟩ := hs.node n
  obtain ⟨g, ha, hg⟩ := hs.node a
  rw [t.node] at hn hf
  rw [t.prevNode] at ha hg
  have hf' : f = (mm.node a).holeFollows := hf rfl
  subst hf'
  have hprev : mm2.nodeList.prev n = some a := by
    rw [hs.list, hlist]
    simp [Links.setNext, Links.setPrev]
  have hback : mm2.nodeList.insertAfter n a = some mm.nodeList := by
    rw [hs.list, hlist]
    exact insertAfter_unlink han hnb hne hbn hL _ _
  simp only [mmScanRemoveBlock, hn, Bool.not_true, Bool.false_eq_true, if_false, Mm.modifyNode,
    hprev, Option.bind_eq_bind, Option.bind_some, Function.update_self, Function.update_of_ne hne,
    Function.update_of_ne hne.symm, Mm.nodeListAdd, hback, Option.map_some, mmHoleNodeEnd, hnb.1]
  refine ⟨_, _, rfl, ?_, rfl, rfl, ?_⟩
  · refine ⟨rfl, fun m => ?_, ?_, ?_, ?_, ?_⟩
    · by_cases hma : m = a
      · subst hma
        refine ⟨g, ?_, hg⟩
        simp only [Function.update_self, ha]
      · by_cases hmn : m = n
        · subst hmn
          refine ⟨(mm.node a).holeFollows, ?_, fun hc => ?_⟩
          · simp only [Function.update_of_ne hma, Function.update_self]
            rw [← hscan]
          · rw [hscan] at hc
            cases hc
        · obtain ⟨e, he, he'⟩ := hs.node m
          rw [t.other m hma hmn] at he he'
          refine ⟨e, ?_, he'⟩
          simp only [Function.update_of_ne hma, Function.update_of_ne hmn, he]
    · exact hs.holeStack.trans t.holeStack
    · exact hs.unusedNodes.trans t.unusedNodes
    · simp only [hs.scannedBlocks, t.scannedBlocks, UInt32.add_sub_cancel]
    · exact hs.colorAdjust.trans t.colorAdjust
  · have hb : (Function.update (Function.update mm2.node n
        { mm.node n with
          scannedBlock := false
          scannedPreceedsHole := (mm.node a).holeFollows }) a
        { mm2.node a with holeFollows := (mm.node a).holeFollows } b).start =
          (mm.node b).start := by
      by_cases hba : b = a
      · subst hba
        simp only [Function.update_self, ha]
      · obtain ⟨e, he, -⟩ := hs.node b
        rw [t.other b hba hbn] at he
        simp only [Function.update_of_ne hba, Function.update_of_ne hbn, he]
    simp only [hb, Bool.and_eq_true, decide_eq_true_eq]

/-- A scan for `req` in progress on the manager `mm0` with the blocks `xs`: `ys` are still in the
ring. -/
structure Scanning (mm0 mm : Mm) (req : ScanRequest) (xs ys : List NodeRef) : Prop where
  ring : IsRing mm.nodeList (.headNode :: ys)
  sub : ys.Sublist xs
  addr : ∀ n, (mm.node n).start = (mm0.node n).start ∧ (mm.node n).size = (mm0.node n).size
  unscanned : ∀ n ∈ ys, (mm.node n).scannedBlock = false
  colorAdjust : mm.colorAdjust = none
  scanSize : mm.scanSize = req.size
  scanAlignment : mm.scanAlignment = req.alignment
  scanRange : mm.scanRange = req.range

/-- The hole from `a` to `b` passes the check for `req`. -/
def ScanRequest.Fits (req : ScanRequest) (mm : Mm) (a b : NodeRef) : Prop :=
  checkFreeHole (clampStart req.range (rawHoleNodeStart mm a))
    (clampEnd req.range (mm.node b).start) req.size req.alignment = true

/-- The state behind the pointer edits of `drm_mm_scan_add_block`, `L` being the list without the
block. -/
def scanTaken (mm : Mm) (a n : NodeRef) (L : Links NodeRef) : Mm :=
  { mm with
    scannedBlocks := mm.scannedBlocks + 1
    node := Function.update (Function.update mm.node n
      { mm.node n with scannedBlock := true, scannedPreceedsHole := (mm.node a).holeFollows }) a
      { mm.node a with holeFollows := true }
    nodeList := (L.setPrev n (some a)).setNext n mm.prevScannedNode
    prevScannedNode := some n }

theorem scanTaken_taken {mm : Mm} {a n : NodeRef} {L : Links NodeRef} (han : a ≠ n)
    (hL : mm.nodeList.unlink n = some L) : Taken mm (scanTaken mm a n L) a n := by
  refine ⟨⟨L, _, hL, rfl⟩, ?_, ?_, fun m hma hmn => ?_, rfl, rfl, rfl, rfl⟩
  · simp only [scanTaken, Function.update_of_ne han.symm, Function.update_self]
  · simp only [scanTaken, Function.update_self]
  · simp only [scanTaken, Function.update_of_ne hma, Function.update_of_ne hmn]

/-- The ring without the block, whose own pointers are kept for the way back. -/
theorem scanTaken_ring {n : NodeRef} {L : Links NodeRef} {c : List NodeRef} (hring : IsRing L c)
    (hn : n ∉ c) (mm : Mm) (a : NodeRef) : IsRing (scanTaken mm a n L).nodeList c := by
  have hne : ∀ u ∈ c, u ≠ n := fun u hu e => hn (e ▸ hu)
  refine hring.frame (fun u hu => ?_) fun u hu => ?_
  · simp only [scanTaken, Links.setNext, Links.setPrev, Function.update_of_ne (hne u hu)]
  · simp only [scanTaken, Links.setNext, Links.setPrev, Function.update_of_ne (hne u hu)]

/-- `drm_mm_scan_add_block`, with the hole around the block found. -/
theorem mmScanAddBlock_eq {mm : Mm} {a n : NodeRef} {L : Links NodeRef} {holeStart holeEnd : UInt64}
    (hscan : (mm.node n).scannedBlock = false) (hprev : mm.nodeList.prev n = some a) (han : a ≠ n)
    (hL : mm.nodeList.unlink n = some L) (hcolor : mm.colorAdjust = none)
    (hstart : mmHoleNodeStart (scanTaken mm a n L) a = some holeStart)
    (hend : mmHoleNodeEnd (scanTaken mm a n L) a = some holeEnd) :
    mmScanAddBlock mm n = some
      (if checkFreeHole (clampStart mm.scanRange holeStart) (clampEnd mm.scanRange holeEnd)
          mm.scanSize mm.scanAlignment = true then
        (true, { scanTaken mm a n L with scanHitStart := holeStart, scanHitEnd := holeEnd })
      else (false, scanTaken mm a n L)) := by
  have hunlink : ({ mm with scannedBlocks := mm.scannedBlocks + 1 }.modifyNode n
      fun n => { n with scannedBlock := true } : Mm).scanUnlink n a =
        some (scanTaken mm a n L) := by
    simp only [Mm.scanUnlink, Mm.modifyNode, Mm.nodeListDel, hL, Option.map_some,
      Option.bind_eq_bind, Option.bind_some, Function.update_self, Function.update_of_ne han,
      Function.update_idem, scanTaken]
  have hcolor' : (scanTaken mm a n L).colorAdjust = none := hcolor
  simp only [mmScanAddBlock, hscan, Bool.false_eq_true, if_false, modifyNode_nodeList, hprev,
    Option.bind_eq_bind, Option.bind_some]
  rw [hunlink]
  simp only [Option.bind_some, hstart, hend, colorAdjusted, hcolor']
  split
  · rename_i hc
    exact congrArg some (if_pos hc).symm
  · rename_i hc
    exact congrArg some (if_neg hc).symm

/-- **One block added** to the scan, between `a` and its successor. -/
theorem scanAdd_spec {mm0 mm : Mm} {req : ScanRequest} {xs ys p q : List NodeRef} {a n : NodeRef}
    (s : Scanning mm0 mm req xs ys) (hpq : NodeRef.headNode :: ys = p ++ a :: n :: q) :
    ∃ hit mm1 ys', mmScanAddBlock mm n = some (hit, mm1) ∧ NodeRef.headNode :: ys' = p ++ a :: q ∧
      Scanning mm0 mm1 req xs ys' ∧ Taken mm mm1 a n ∧
      (hit = true → req.Fits mm0 a (succ p a q) ∧ mm1.scanHitStart = rawHoleNodeStart mm0 a ∧
        mm1.scanHitEnd = (mm0.node (succ p a q)).start) ∧
      (hit = false → mm1.scanHitStart = mm.scanHitStart ∧ mm1.scanHitEnd = mm.scanHitEnd) := by
  have hring := s.ring
  rw [hpq] at hring
  have hnd := hring.nodup
  obtain ⟨L, hL, hringL⟩ := hring.unlink
  obtain ⟨t, ht, hys⟩ := ring_split hpq
  have hcut : p ++ a :: n :: q = (p ++ [a]) ++ n :: q := by simp
  rw [hcut, List.nodup_middle, List.nodup_cons, List.append_assoc, List.singleton_append] at hnd
  have han : a ≠ n := fun e => hnd.1 (e ▸ by simp)
  have htaken := scanTaken_taken han hL
  have hring1 := scanTaken_ring hringL hnd.1 mm a
  have haddr : ∀ m, ((scanTaken mm a n L).node m).start = (mm0.node m).start ∧
      ((scanTaken mm a n L).node m).size = (mm0.node m).size := fun m =>
    ⟨(htaken.addr m).1.trans (s.addr m).1, (htaken.addr m).2.trans (s.addr m).2⟩
  have hstart : mmHoleNodeStart (scanTaken mm a n L) a = some (rawHoleNodeStart mm0 a) := by
    rw [mmHoleNodeStart, htaken.prevNode, if_pos rfl, rawHoleNodeStart, (haddr a).1, (haddr a).2,
      rawHoleNodeStart]
  have hend : mmHoleNodeEnd (scanTaken mm a n L) a = some (mm0.node (succ p a q)).start := by
    rw [mmHoleNodeEnd, hring1.next, Option.map_some, (haddr _).1]
  have hadd := mmScanAddBlock_eq (s.unscanned n (by simp [hys])) hring.prev han hL s.colorAdjust
    hstart hend
  rw [s.scanRange, s.scanSize, s.scanAlignment] at hadd
  have hys' : NodeRef.headNode :: (t ++ q) = p ++ a :: q := by
    rw [← List.cons_append, ← ht]
    simp
  have hsub' : (t ++ q).Sublist ys := by
    rw [hys]
    exact (List.Sublist.refl t).append (.cons n (.refl q))
  have hsc : Scanning mm0 (scanTaken mm a n L) req xs (t ++ q) := by
    refine ⟨hys' ▸ hring1, hsub'.trans s.sub, haddr, fun m hm => ?_, s.colorAdjust, s.scanSize,
      s.scanAlignment, s.scanRange⟩
    have hmn : m ≠ n := fun e => hnd.1 (hys' ▸ e ▸ .tail _ hm)
    have hu := s.unscanned m (hsub'.subset hm)
    by_cases hma : m = a
    · subst hma
      rw [htaken.prevNode]
      exact hu
    · rw [htaken.other m hma hmn]
      exact hu
  by_cases hfit : req.Fits mm0 a (succ p a q)
  · have hadd := hadd.trans (congrArg some (if_pos hfit))
    refine ⟨true, _, t ++ q, hadd, hys', ?_, ?_, fun _ => ⟨hfit, rfl, rfl⟩, by simp⟩
    · exact ⟨hsc.ring, hsc.sub, hsc.addr, hsc.unscanned, hsc.colorAdjust, hsc.scanSize,
        hsc.scanAlignment, hsc.scanRange⟩
    · exact ⟨htaken.list, htaken.node, htaken.prevNode, htaken.other, rfl, rfl, rfl, rfl⟩
  · have hadd := hadd.trans (congrArg some (if_neg hfit))
    exact ⟨false, _, t ++ q, hadd, hys', hsc, htaken, by simp, fun _ => ⟨rfl, rfl⟩⟩

/-! ## The loops -/

/-- The block starts in the hit window. -/
def InWindow (mm0 mm : Mm) (n : NodeRef) : Prop :=
  mm.scanHitStart ≤ (mm0.node n).start ∧ (mm0.node n).start < mm.scanHitEnd

/-- A scan that has taken out the blocks `u` of `ys` and has left `zs`. -/
structure ScanEnd (mm0 mm : Mm) (req : ScanRequest) (ys zs u : List NodeRef) (found : Bool) :
    Prop where
  sub : zs.Sublist ys
  taken : ∀ m, m ∈ u ↔ m ∈ ys ∧ m ∉ zs
  nodup : u.Nodup
  miss : found = false → mm.scanHitEnd = 0
  hit : found = true → ∃ p a q, NodeRef.headNode :: zs = p ++ a :: q ∧
    req.Fits mm0 a (succ p a q) ∧ mm.scanHitStart = rawHoleNodeStart mm0 a ∧
    mm.scanHitEnd = (mm0.node (succ p a q)).start ∧ mm.scanHitStart < mm.scanHitEnd

theorem evictUnwind_append (mm : Mm) (evict u w : List NodeRef) :
    evictUnwind mm evict (u ++ w) =
      (evictUnwind mm evict u).bind fun r => evictUnwind r.2 r.1 w := by
  induction u generalizing mm evict with
  | nil => rfl
  | cons n u ih =>
    simp only [List.cons_append, evictUnwind]
    cases mmScanRemoveBlock mm n with
    | none => rfl
    | some r => exact ih _ _

/-- The answer for the block `n`, taken out between `a` and its successor before the rest of the
scan. -/
theorem answer_iff {mm0 mm1 : Mm} {start size : UInt64} {req : ScanRequest}
    {xs ys ys' zs u p q : List NodeRef} {a n : NodeRef} {found : Bool} (h : mm0.Inv start size xs)
    (hy : ys.Sublist xs) (hpq : NodeRef.headNode :: ys = p ++ a :: n :: q)
    (hys' : NodeRef.headNode :: ys' = p ++ a :: q) (he : ScanEnd mm0 mm1 req ys' zs u found) :
    (mm1.scanHitStart < (mm0.node (succ p a q)).start ∧ (mm0.node n).start < mm1.scanHitEnd) ↔
      InWindow mm0 mm1 n := by
  unfold InWindow
  cases found with
  | false =>
    rw [he.miss rfl]
    simp
  | true =>
    obtain ⟨p', a', q', hzs, -, h1, h2, -⟩ := he.hit rfl
    rw [h1, h2]
    apply window_iff h hy hpq
    obtain ⟨r, hr⟩ := walk_succ hzs
    have hsub : (NodeRef.headNode :: zs ++ [NodeRef.headNode]).Sublist
        (NodeRef.headNode :: ys' ++ [NodeRef.headNode]) :=
      (he.sub.cons_cons _).append (.refl _)
    rw [hzs, hys', List.append_assoc, List.cons_append, hr] at hsub
    refine List.Sublist.trans ?_ hsub
    exact (List.Sublist.cons_cons _ (.cons_cons _ (List.nil_sublist r))).trans
      (List.sublist_append_right p' _)

/-- A ring with and without the block `n` behind `a`. -/
theorem ring_cut {ys ys' p q : List NodeRef} {a n : NodeRef}
    (hpq : NodeRef.headNode :: ys = p ++ a :: n :: q)
    (hys' : NodeRef.headNode :: ys' = p ++ a :: q) : ∃ t, ys = t ++ n :: q ∧ ys' = t ++ q := by
  obtain ⟨t, ht, hys⟩ := ring_split hpq
  obtain ⟨t', ht', hys''⟩ := ring_split hys'
  have htt : t = t' := (List.cons.inj (ht.symm.trans ht')).2
  exact ⟨t, hys, htt ▸ hys''⟩

/-- The end of a scan, seen from before the block `n` was taken out. -/
theorem ScanEnd.snoc {mm0 mm1 : Mm} {req : ScanRequest} {t q zs u : List NodeRef} {n : NodeRef}
    {found : Bool} (hn : n ∉ t ++ q) (h : ScanEnd mm0 mm1 req (t ++ q) zs u found) :
    ScanEnd mm0 mm1 req (t ++ n :: q) zs (u ++ [n]) found := by
  have hmem : ∀ m, m ∈ t ++ n :: q ↔ m = n ∨ m ∈ t ++ q := by
    intro m
    simp only [List.mem_append, List.mem_cons]
    tauto
  refine ⟨?_, fun m => ?_, ?_, h.miss, h.hit⟩
  · exact h.sub.trans ((List.Sublist.refl t).append (.cons n (.refl q)))
  · have hnz : n ∉ zs := fun hm => hn (h.sub.subset hm)
    rw [List.mem_append, h.taken, hmem, List.mem_singleton]
    constructor
    · intro hm
      rcases hm with hm | rfl
      · exact ⟨.inr hm.1, hm.2⟩
      · exact ⟨.inl rfl, hnz⟩
    · intro hm
      rcases hm.1 with rfl | hm'
      · exact .inr rfl
      · exact .inl ⟨hm', hm.2⟩
  · apply List.Nodup.append h.nodup (by simp)
    intro m hm hm'
    rw [List.mem_singleton.1 hm'] at hm
    exact hn ((h.taken n).1 hm).1

/-- From `mm1` the unwinding of the blocks `u` leads back to `mm`, and answers for each of them
whether it starts in the hit window. -/
def Unwinds (mm0 mm mm1 : Mm) (u : List NodeRef) : Prop :=
  ∀ evict, ∃ e mm2, evictUnwind mm1 evict u = some (e ++ evict, mm2) ∧ mm.Same mm2 ∧
    mm2.scanHitStart = mm1.scanHitStart ∧ mm2.scanHitEnd = mm1.scanHitEnd ∧
    (∀ m, m ∈ e ↔ m ∈ u ∧ InWindow mm0 mm1 m) ∧ e.Nodup

theorem Unwinds.nil (mm0 mm : Mm) : Unwinds mm0 mm mm [] :=
  fun _ => ⟨[], mm, rfl, .refl mm, rfl, rfl, by simp, by simp⟩

/-- One more block is put back: the one that was taken out first. -/
theorem Unwinds.snoc {mm0 mm mm' mm1 : Mm} {u : List NodeRef} {n : NodeRef}
    (h : Unwinds mm0 mm' mm1 u) (hn : n ∉ u)
    (hundo : ∀ mm2, mm'.Same mm2 → mm2.scanHitStart = mm1.scanHitStart →
      mm2.scanHitEnd = mm1.scanHitEnd → ∃ ret mm3, mmScanRemoveBlock mm2 n = some (ret, mm3) ∧
        mm.Same mm3 ∧ mm3.scanHitStart = mm2.scanHitStart ∧ mm3.scanHitEnd = mm2.scanHitEnd ∧
        (ret = true ↔ InWindow mm0 mm1 n)) :
    Unwinds mm0 mm mm1 (u ++ [n]) := by
  intro evict
  obtain ⟨e, mm2, h1, h2, h3, h4, h5, h6⟩ := h evict
  obtain ⟨ret, mm3, g1, g2, g3, g4, g5⟩ := hundo mm2 h2 h3 h4
  have hne : n ∉ e := fun hm => hn ((h5 n).1 hm).1
  refine ⟨(if ret then [n] else []) ++ e, mm3, ?_, g2, g3.trans h3, g4.trans h4, fun m => ?_, ?_⟩
  · rw [evictUnwind_append, h1]
    cases ret <;> simp [evictUnwind, g1]
  · cases ret with
    | true =>
      have hw := g5.1 rfl
      simp only [if_true, List.cons_append, List.nil_append, List.mem_cons, h5, List.mem_append,
        List.not_mem_nil, or_false]
      constructor
      · intro hm
        rcases hm with rfl | hm
        · exact ⟨.inr rfl, hw⟩
        · exact ⟨.inl hm.1, hm.2⟩
      · intro hm
        rcases hm.1 with hm' | rfl
        · exact .inr ⟨hm', hm.2⟩
        · exact .inl rfl
    | false =>
      have hw : ¬ InWindow mm0 mm1 n := fun hc => by cases g5.2 hc
      simp only [Bool.false_eq_true, if_false, List.nil_append, h5, List.mem_append,
        List.mem_singleton]
      constructor
      · exact fun hm => ⟨.inl hm.1, hm.2⟩
      · intro hm
        rcases hm.1 with hm' | rfl
        · exact ⟨hm', hm.2⟩
        · exact absurd hm.2 hw
  · cases ret with
    | true => exact List.nodup_cons.2 ⟨hne, h6⟩
    | false => exact h6

/-- **The scan and its unwinding**, by induction over the blocks: the unwinding answers for each
block whether it starts in the hit window, and puts everything back. -/
theorem evict_loop {mm0 : Mm} {start size : UInt64} {req : ScanRequest} {xs : List NodeRef}
    (h : mm0.Inv start size xs) {ns : List NodeRef} (hnd : ns.Nodup) :
    ∀ {mm : Mm} {ys : List NodeRef}, Scanning mm0 mm req xs ys → (∀ n ∈ ns, n ∈ ys) →
    mm.scanHitEnd = 0 →
    ∃ found u mm1 zs, (∀ acc, evictScan mm acc ns = some (found, u ++ acc, mm1)) ∧
      ScanEnd mm0 mm1 req ys zs u found ∧ Unwinds mm0 mm mm1 u := by
  induction ns with
  | nil =>
    intro mm ys s _ h0
    exact ⟨false, [], mm, ys, fun _ => rfl, ⟨.refl _, by simp, by simp, fun _ => h0, by simp⟩,
      .nil mm0 mm⟩
  | cons n ns ih =>
    intro mm ys s hns h0
    rw [List.nodup_cons] at hnd
    have hn := hns n (.head _)
    obtain ⟨p, a, q, hpq⟩ := ring_prev_exists hn
    obtain ⟨hit, mm', ys', hadd, hys', s', htaken, hhit, hmiss⟩ := scanAdd_spec s hpq
    -- the neighbours of the block before it was taken out
    have hring := s.ring
    rw [hpq] at hring
    have han : mm.nodeList.Adj a n := hring.adj.rel_succ
    have hcut : p ++ a :: n :: q = (p ++ [a]) ++ n :: q := by simp
    have hnb : mm.nodeList.Adj n (succ p a q) := by
      have := hring.adj
      rw [hcut] at this
      have := this.rel_succ
      rwa [succ_append] at this
    have hout := hring.nodup
    rw [hcut, List.nodup_middle, List.nodup_cons, List.append_assoc,
      List.singleton_append] at hout
    have hne : a ≠ n := fun e => hout.1 (e ▸ by simp)
    have hbn : succ p a q ≠ n := fun e => hout.1 (e ▸ succ_mem p a q)
    have hn' : n ∉ ys' := fun hm => hout.1 (hys' ▸ .tail _ hm)
    obtain ⟨t, hyt, hyt'⟩ := ring_cut hpq hys'
    -- the rest of the scan: none of it after a hit
    obtain ⟨found, u, mm1, zs, hscan, hrest, hunwind⟩ : ∃ found u mm1 zs,
        (∀ acc, evictScan mm acc (n :: ns) = some (found, u ++ n :: acc, mm1)) ∧
        ScanEnd mm0 mm1 req ys' zs u found ∧ Unwinds mm0 mm' mm1 u := by
      cases hit with
      | true =>
        obtain ⟨hfit, h1, h2⟩ := hhit rfl
        have hlt := taken_lt h s.sub hpq
        rw [← h1, ← h2] at hlt
        exact ⟨true, [], mm', ys', fun acc => by simp [evictScan, hadd],
          ⟨.refl _, by simp, by simp, by simp, fun _ => ⟨p, a, q, hys', hfit, h1, h2, hlt⟩⟩,
          .nil mm0 mm'⟩
      | false =>
        have hns' : ∀ m ∈ ns, m ∈ ys' := by
          intro m hm
          have hmn : m ≠ n := fun e => hnd.1 (e ▸ hm)
          have hmy := hns m (.tail _ hm)
          rw [hyt, List.mem_append, List.mem_cons] at hmy
          rw [hyt', List.mem_append]
          exact hmy.imp_right (Or.resolve_left · hmn)
        obtain ⟨found, u, mm1, zs, h1, h2, h3⟩ :=
          ih hnd.2 s' hns' ((hmiss rfl).2.trans h0)
        exact ⟨found, u, mm1, zs, fun acc => by simp [evictScan, hadd, h1], h2, h3⟩
    have hanswer := answer_iff h s.sub hpq hys' hrest
    refine ⟨found, u ++ [n], mm1, zs, fun acc => by simp [hscan], ?_, ?_⟩
    · rw [hyt] at hn ⊢
      rw [hyt'] at hn' hrest
      exact hrest.snoc hn'
    · apply hunwind.snoc (fun hm => hn' ((hrest.taken n).1 hm).1)
      intro mm2 hs h1 h2
      have hundo := mmScanRemoveBlock_undo htaken han hnb hne hbn (s.unscanned n hn) hs
      rw [(s.addr _).1, (s.addr _).1, h1, h2] at hundo
      rwa [h1, h2, ← hanswer]

/-! ## Freeing the blocks of the window -/

/-- The invariant does not read the records of scans. -/
theorem Mm.Same.inv {mm mm' : Mm} {start size : UInt64} {xs : List NodeRef} (hs : mm.Same mm')
    (h : mm.Inv start size xs) : mm'.Inv start size xs := by
  have hraw : ∀ n, rawHoleNodeStart mm' n = rawHoleNodeStart mm n := by
    intro n
    obtain ⟨b, hb, -⟩ := hs.node n
    rw [rawHoleNodeStart, hb, rawHoleNodeStart]
  have hstart : ∀ n, (mm'.node n).start = (mm.node n).start := by
    intro n
    obtain ⟨b, hb, -⟩ := hs.node n
    rw [hb]
  have hhole : ∀ n, (mm'.node n).holeFollows = (mm.node n).holeFollows := by
    intro n
    obtain ⟨b, hb, -⟩ := hs.node n
    rw [hb]
  have halloc : ∀ n, (mm'.node n).allocated = (mm.node n).allocated := by
    intro n
    obtain ⟨b, hb, -⟩ := hs.node n
    rw [hb]
  have hunscanned : ∀ n, (mm.node n).Unscanned → (mm'.node n).Unscanned := by
    intro n hu
    obtain ⟨b, hb, -⟩ := hs.node n
    rw [hb]
    exact ⟨hu.block, hu.prevFree, hu.nextFree⟩
  refine
    { ring := hs.list ▸ h.ring
      gap := ?_
      noWrap := h.noWrap
      headStart := by rw [hstart, h.headStart]
      headEnd := by rw [hraw, h.headEnd]
      headUnscanned := hunscanned _ h.headUnscanned
      block := fun n hn => ?_
      allocated := fun n hn hal => h.allocated n hn (by rw [← halloc]; exact hal)
      holeNodup := hs.holeStack ▸ h.holeNodup
      holeMem := fun a => by rw [hs.holeStack, hhole, h.holeMem]
      unused := fun n hn => ?_
      unusedNodup := hs.unusedNodes ▸ h.unusedNodup
      scannedBlocks := hs.scannedBlocks.trans h.scannedBlocks
      colorAdjust := hs.colorAdjust.trans h.colorAdjust }
  · apply h.gap_walk.imp
    intro u v huv
    unfold Mm.Gap at huv ⊢
    rw [hraw, hstart, hhole]
    exact huv
  · have hb := h.block n hn
    have hu := hunscanned n hb.unscanned
    obtain ⟨b, e, -⟩ := hs.node n
    rw [e] at hu ⊢
    exact ⟨hb.allocated, hb.size, hb.noWrap, hu⟩
  · rw [hs.unusedNodes] at hn
    obtain ⟨h1, h2, h3⟩ := h.unused n hn
    exact ⟨h1, by rw [halloc]; exact h2, hunscanned n h3⟩

/-- Blocks removed one after the other, in any order. -/
theorem mmRemoveNodes_inv {mm : Mm} {start size : UInt64} {xs es : List NodeRef}
    (h : mm.Inv start size xs) (hnd : es.Nodup) (hes : ∀ n ∈ es, n ∈ xs) :
    ∃ mm' ys, mmRemoveNodes mm es = some mm' ∧ mm'.Inv start size ys ∧
      (∀ n, n ∈ ys ↔ n ∈ xs ∧ n ∉ es) ∧
      (∀ n, (mm'.node n).start = (mm.node n).start) ∧
      ∀ n, rawHoleNodeStart mm' n = rawHoleNodeStart mm n := by
  induction es generalizing mm xs with
  | nil => exact ⟨mm, xs, rfl, h, by simp, fun _ => rfl, fun _ => rfl⟩
  | cons x es ih =>
    rw [List.nodup_cons] at hnd
    have hx := hes x (.head _)
    obtain ⟨p, a, q, hpq⟩ := ring_prev_exists hx
    obtain ⟨mm1, e1, hr⟩ := mmRemoveNode_removed h hpq hx
    obtain ⟨xs1, h1, hxs1⟩ := hr.inv h hpq
    have hnd1 := h.ring.nodup
    rw [hpq] at hnd1
    have hmem : ∀ n, n ∈ xs1 ↔ n ∈ xs ∧ n ≠ x := by
      obtain ⟨t, ht, hys⟩ := ring_split hpq
      obtain ⟨t', ht', hys'⟩ := ring_split hxs1
      have htt : t = t' := (List.cons.inj (ht.symm.trans ht')).2
      have hx1 : x ∉ t' ++ q := by
        have := (List.nodup_cons.1 h.ring.nodup).2
        rw [hys, List.nodup_middle, List.nodup_cons, htt] at this
        exact this.1
      intro n
      rw [hys, hys', htt]
      constructor
      · intro hm
        refine ⟨?_, fun e => hx1 (e ▸ hm)⟩
        simp only [List.mem_append, List.mem_cons] at hm ⊢
        tauto
      · intro hm
        have := hm.1
        simp only [List.mem_append, List.mem_cons] at this ⊢
        tauto
    obtain ⟨mm', ys, e2, h2, hy, hs, hw⟩ := ih h1 hnd.2 fun n hn =>
      (hmem n).2 ⟨hes n (.tail _ hn), fun e => hnd.1 (e ▸ hn)⟩
    refine ⟨mm', ys, by simp [mmRemoveNodes, e1, e2], h2, fun n => ?_, fun n => ?_, fun n => ?_⟩
    · rw [hy, hmem, List.mem_cons]
      tauto
    · rw [hs, hr.start_eq]
    · rw [hw, hr.raw_eq]

/-- No node of the ring starts behind `head_node`. -/
theorem Mm.Inv.start_le_head {mm : Mm} {start size : UInt64} {xs : List NodeRef}
    (h : mm.Inv start size xs) {n : NodeRef} (hn : n ∈ NodeRef.headNode :: xs) :
    (mm.node n).start ≤ (mm.node .headNode).start := by
  rcases List.mem_cons.1 hn with rfl | hn
  · exact UInt64.le_refl _
  · exact UInt64.le_trans (UInt64.le_of_lt (h.block n hn).start_lt_end) (h.end_le hn)

/-- **The hole.** With every block between the neighbours `a` and `b` of the scan's ring removed,
the hole of `a` ends where `b` starts. -/
theorem removed_hole {mm mm' : Mm} {start size : UInt64} {xs ys zs p q : List NodeRef}
    {a : NodeRef} (h : mm.Inv start size xs) (h' : mm'.Inv start size ys) (hz : zs.Sublist xs)
    (hzs : NodeRef.headNode :: zs = p ++ a :: q) (hzy : ∀ n ∈ zs, n ∈ ys)
    (hlt : rawHoleNodeStart mm a < (mm.node (succ p a q)).start)
    (hclear : ∀ n ∈ ys, rawHoleNodeStart mm a ≤ (mm.node n).start →
      (mm.node (succ p a q)).start ≤ (mm.node n).start)
    (hstart : ∀ n, (mm'.node n).start = (mm.node n).start)
    (hraw : ∀ n, rawHoleNodeStart mm' n = rawHoleNodeStart mm n) :
    a ∈ mm'.holeStack ∧ mmHoleNodeStart mm' a = some (rawHoleNodeStart mm a) ∧
      mmHoleNodeEnd mm' a = some (mm.node (succ p a q)).start := by
  have hmem : ∀ n ∈ NodeRef.headNode :: zs, n ∈ NodeRef.headNode :: ys := by
    intro n hn
    rcases List.mem_cons.1 hn with rfl | hn
    · exact .head _
    · exact .tail _ (hzy n hn)
  have ha : a ∈ NodeRef.headNode :: ys := hmem a (by rw [hzs]; simp)
  have hb : succ p a q ∈ NodeRef.headNode :: zs := hzs ▸ succ_mem p a q
  obtain ⟨p', q', hpq⟩ := List.append_of_mem ha
  have hgap := h'.gap
  have hring := h'.ring
  rw [hpq] at hgap hring
  obtain ⟨hle, hiff⟩ := hgap.rel_succ
  rw [hraw, hstart] at hle
  have hs : succ p' a q' ∈ NodeRef.headNode :: ys := hpq ▸ succ_mem p' a q'
  -- the successor of `a` starts where `b` does
  have hup : (mm.node (succ p a q)).start ≤ (mm.node (succ p' a q')).start := by
    rcases List.mem_cons.1 hs with e | hs
    · rw [e]
      apply h.start_le_head
      rcases List.mem_cons.1 hb with e' | hb
      · exact e' ▸ .head _
      · exact .tail _ (hz.subset hb)
    · exact hclear _ hs hle
  have hdown : (mm.node (succ p' a q')).start ≤ (mm.node (succ p a q)).start := by
    rw [← hstart, ← hstart]
    rcases List.mem_cons.1 hb with e | hb
    · rw [e]
      exact h'.start_le_head hs
    · apply window_scanned h' (.refl _) hpq (hzy _ hb)
      rw [hraw, hstart]
      exact UInt64.le_of_lt hlt
  have heq := UInt64.le_antisymm hdown hup
  have hfollows : (mm'.node a).holeFollows = true := by
    rw [hiff, hraw, hstart, heq]
    exact UInt64.ne_of_lt hlt
  refine ⟨(h'.holeMem a).2 ⟨ha, hfollows⟩, ?_, ?_⟩
  · rw [mmHoleNodeStart, if_pos hfollows, hraw]
  · rw [mmHoleNodeEnd, hring.next, Option.map_some, hstart, heq]

/-- The search loop finds an entry if there is one. -/
theorem searchHoles_found {mm : Mm} {size : UInt64} {alignment : UInt32} {color : UInt64}
    {range : Option (UInt64 × UInt64)} {bestMatch : Bool} {l : List NodeRef}
    (hl : ∀ x ∈ l, ∃ b, holeFits mm size alignment color range x = some b)
    (best : Option NodeRef) (bestSize : UInt64)
    (h : best.isSome ∨ ∃ a ∈ l, holeFits mm size alignment color range a = some true ∧
      (bestMatch = true → (mm.node a).size < bestSize)) :
    ∃ r, searchHoles mm size alignment color range bestMatch l best bestSize = some (some r) := by
  induction l generalizing best bestSize with
  | nil =>
    rcases h with h | ⟨a, ha, -⟩
    · obtain ⟨r, hr⟩ := Option.isSome_iff_exists.1 h
      exact ⟨r, by rw [searchHoles, hr]⟩
    · cases ha
  | cons x l ih =>
    have hl' := fun y hy => hl y (List.mem_cons_of_mem x hy)
    obtain ⟨b, hb⟩ := hl x (.head _)
    simp only [searchHoles, hb, Option.bind_eq_bind, Option.bind_some]
    cases b with
    | false =>
      refine ih hl' best bestSize (h.imp_right ?_)
      rintro ⟨a, ha, hfit, hsize⟩
      rcases List.mem_cons.1 ha with rfl | ha
      · rw [hb] at hfit
        cases hfit
      · exact ⟨a, ha, hfit, hsize⟩
    | true =>
      cases bestMatch with
      | false => exact ⟨x, rfl⟩
      | true =>
        simp only [Bool.not_true, Bool.false_eq_true, if_false, if_true]
        split
        · exact ih hl' _ _ (.inl rfl)
        · rename_i hx
          refine ih hl' best bestSize (h.imp_right ?_)
          rintro ⟨a, ha, hfit, hsize⟩
          rcases List.mem_cons.1 ha with rfl | ha
          · exact absurd (hsize rfl) hx
          · exact ⟨a, ha, hfit, hsize⟩

/-- A node with room behind it is smaller than the best match starts with; so is `head_node`,
unless a single unit is managed. -/
theorem Mm.Inv.size_lt {mm : Mm} {start size : UInt64} {xs : List NodeRef}
    (h : mm.Inv start size xs) {a : NodeRef} (ha : a ∈ NodeRef.headNode :: xs) {e : UInt64}
    (hlt : rawHoleNodeStart mm a < e) (hsize : size ≠ 1) : (mm.node a).size < 0 - 1 := by
  have hmax : ∀ x : UInt64, x ≠ 0 - 1 → x < 0 - 1 := by
    intro x hx
    rw [ne_eq, ← UInt64.toNat_inj] at hx
    rw [UInt64.lt_iff_toNat_lt]
    have := x.toNat_lt
    have h1 : (0 - 1 : UInt64).toNat = 2 ^ 64 - 1 := rfl
    omega
  rcases List.mem_cons.1 ha with rfl | ha
  · refine hmax _ fun hm => hsize ?_
    have he := h.headEnd
    rw [rawHoleNodeStart, h.headStart, hm] at he
    grind
  · rw [UInt64.lt_iff_toNat_lt]
    have hraw : (rawHoleNodeStart mm a).toNat = _ := (h.block a ha).end_toNat
    rw [UInt64.lt_iff_toNat_lt] at hlt
    have h1 : (0 - 1 : UInt64).toNat = 2 ^ 64 - 1 := rfl
    have := e.toNat_lt
    omega

/-! ## The scan as a whole -/

theorem ScanRequest.init_same {mm : Mm} (hs : mm.scannedBlocks = 0) (req : ScanRequest) :
    mm.Same (req.init mm) := by
  unfold ScanRequest.init
  split
  · exact ⟨rfl, fun _ => ⟨_, rfl, fun _ => rfl⟩, rfl, rfl, hs.symm, rfl⟩
  · exact ⟨rfl, fun _ => ⟨_, rfl, fun _ => rfl⟩, rfl, rfl, hs.symm, rfl⟩

theorem ScanRequest.init_scanning {mm : Mm} {start size : UInt64} {xs : List NodeRef}
    (h : mm.Inv start size xs) (req : ScanRequest) :
    Scanning mm (req.init mm) req xs xs ∧ (req.init mm).scanHitEnd = 0 ∧
      (req.init mm).node = mm.node := by
  have hu := fun n hn => (h.block n hn).unscanned.block
  unfold ScanRequest.init
  split
  · rename_i hr
    exact ⟨⟨h.ring, .refl _, fun _ => ⟨rfl, rfl⟩, hu, h.colorAdjust, rfl, rfl, hr.symm⟩, rfl, rfl⟩
  · rename_i hr
    exact ⟨⟨h.ring, .refl _, fun _ => ⟨rfl, rfl⟩, hu, h.colorAdjust, rfl, rfl, hr.symm⟩, rfl, rfl⟩

/-- A fitting hole makes the search succeed. -/
theorem ScanRequest.search_found {mm : Mm} {start size : UInt64} {ys : List NodeRef}
    (h : mm.Inv start size ys) (req : ScanRequest) {a : NodeRef} (ha : a ∈ mm.holeStack)
    {s e : UInt64} (hs : mmHoleNodeStart mm a = some s) (he : mmHoleNodeEnd mm a = some e)
    (hfit : checkFreeHole (clampStart req.range s) (clampEnd req.range e) req.size
      req.alignment = true) {bestMatch : Bool}
    (hbest : bestMatch = true → (mm.node a).size < 0 - 1) :
    ∃ hole, req.search mm bestMatch = some (some hole) := by
  have hsearch : req.search mm bestMatch =
      mmSearch mm req.size req.alignment 0 req.range bestMatch := by
    unfold ScanRequest.search
    split
    · rename_i hr
      rw [hr]
      rfl
    · rename_i hr
      rw [hr]
      rfl
  rw [hsearch, mmSearch, if_neg (not_not.2 h.scannedBlocks)]
  refine searchHoles_found (fun x hx => ?_) none _ (.inr ⟨a, ha, ?_, hbest⟩)
  · obtain ⟨e', hs', he'⟩ := h.hole_exists hx
    exact ⟨_, holeFits_eq h.colorAdjust hs' he'⟩
  · rw [holeFits_eq h.colorAdjust hs he, hfit]

/-- **The eviction scan.** Whatever blocks are added in whatever order, unwinding the scan restores
the manager. If no hole was found, nothing is to be evicted; otherwise, once the blocks to evict
are removed, in any order, the search succeeds. (A search for the best match needs more than a
single managed unit: it passes over a hole of `head_node` then.) -/
theorem evict_scan_makes_room {mm : Mm} {start size : UInt64} {xs : List NodeRef}
    (h : mm.Inv start size xs) (req : ScanRequest) {ns : List NodeRef} (hnd : ns.Nodup)
    (hns : ∀ n ∈ ns, n ≠ .headNode ∧ (mm.node n).allocated = true) :
    ∃ found unwind mm1 evict mm2, evictScan (req.init mm) [] ns = some (found, unwind, mm1) ∧
      evictUnwind mm1 [] unwind = some (evict, mm2) ∧ mm2.nodeList = mm.nodeList ∧
      (∀ n, ∃ b, mm2.node n = { mm.node n with scannedPreceedsHole := b }) ∧
      mm2.holeStack = mm.holeStack ∧ mm2.Inv start size xs ∧
      (found = false → evict = []) ∧
      (found = true → ∀ es, es.Perm evict → ∃ mm3, mmRemoveNodes mm2 es = some mm3 ∧
        ∀ bestMatch, (bestMatch = true → size ≠ 1) →
          ∃ hole, req.search mm3 bestMatch = some (some hole)) := by
  obtain ⟨s, h0, hinit⟩ := req.init_scanning h
  have hsame := req.init_same h.scannedBlocks
  have hxs : ∀ n ∈ ns, n ∈ xs := fun n hn => h.allocated n (hns n hn).1 (hns n hn).2
  obtain ⟨found, u, mm1, zs, hscan, hend, hunwind⟩ := evict_loop h hnd s hxs h0
  obtain ⟨evict, mm2, e2, hsame2, -, -, hevict, hevnd⟩ := hunwind []
  have h2 := hsame2.inv (hsame.inv h)
  have hnode : ∀ n, ∃ b, mm2.node n = { mm.node n with scannedPreceedsHole := b } := by
    intro n
    obtain ⟨b, hb, -⟩ := hsame2.node n
    rw [hinit] at hb
    exact ⟨b, hb⟩
  have haddr : ∀ n, (mm2.node n).start = (mm.node n).start ∧
      rawHoleNodeStart mm2 n = rawHoleNodeStart mm n := by
    intro n
    obtain ⟨b, hb⟩ := hnode n
    rw [rawHoleNodeStart, hb, rawHoleNodeStart]
    exact ⟨rfl, rfl⟩
  refine ⟨found, u, mm1, evict, mm2, by simpa using hscan [], by simpa using e2,
    hsame2.list.trans hsame.list, hnode, hsame2.holeStack.trans hsame.holeStack, h2, ?_, ?_⟩
  · intro hf
    rw [List.eq_nil_iff_forall_not_mem]
    intro m hm
    have := ((hevict m).1 hm).2.2
    rw [hend.miss hf] at this
    exact UInt64.not_lt_zero this
  · intro hf es hperm
    obtain ⟨p, a, q, hzs, hfit, hs, he, hlt⟩ := hend.hit hf
    have hes : ∀ n ∈ es, n ∈ xs := fun n hn =>
      ((hend.taken n).1 ((hevict n).1 (hperm.mem_iff.1 hn)).1).1
    obtain ⟨mm3, ys, e3, h3, hys, hstart, hraw⟩ :=
      mmRemoveNodes_inv h2 (hperm.nodup_iff.2 hevnd) hes
    rw [hs, he] at hlt
    -- the blocks that stay in the ring are not among those to evict
    have hzy : ∀ n ∈ zs, n ∈ ys := by
      intro n hn
      refine (hys n).2 ⟨hend.sub.subset hn, fun hm => ?_⟩
      exact ((hend.taken n).1 ((hevict n).1 (hperm.mem_iff.1 hm)).1).2 hn
    have hclear : ∀ n ∈ ys, rawHoleNodeStart mm a ≤ (mm.node n).start →
        (mm.node (succ p a q)).start ≤ (mm.node n).start := by
      intro n hn hlow
      by_cases hnz : n ∈ zs
      · exact window_scanned h hend.sub hzs hnz hlow
      · rw [← UInt64.not_lt]
        intro hhigh
        obtain ⟨hnx, hne⟩ := (hys n).1 hn
        refine hne (hperm.mem_iff.2 ((hevict n).2 ⟨(hend.taken n).2 ⟨hnx, hnz⟩, ?_⟩))
        rw [InWindow, hs, he]
        exact ⟨hlow, hhigh⟩
    obtain ⟨ha, hst, hen⟩ := removed_hole h h3 hend.sub hzs hzy hlt hclear
      (fun n => (hstart n).trans (haddr n).1) fun n => (hraw n).trans (haddr n).2
    have hlt3 : rawHoleNodeStart mm3 a < (mm.node (succ p a q)).start := by
      rw [hraw, (haddr a).2]
      exact hlt
    refine ⟨mm3, e3, fun bestMatch hbest => req.search_found h3 ha hst hen hfit fun hb => ?_⟩
    exact h3.size_lt ((h3.holeMem a).1 ha).1 hlt3 (hbest hb)

/-- A manager filled by two blocks. -/
theorem two_blocks_inv : ∃ mm xs,
    ((mmStep (mmInit blankMm 0x1000 0x2000) (.createBlock 0x1000 0x1000 (some 0))).bind
      (mmStep · (.createBlock 0x2000 0x1000 (some 1)))) = some mm ∧ mm.Inv 0x1000 0x2000 xs := by
  have h0 : (mmInit blankMm 0x1000 0x2000).Inv 0x1000 0x2000 [] :=
    mmInit_inv (fun _ _ => rfl) (by decide) (by decide)
  have ha0 : (mmInit blankMm 0x1000 0x2000).Admissible (.createBlock 0x1000 0x1000 (some 0)) := by
    refine ⟨by decide, by decide, fun n hn => ?_⟩
    cases hn
    exact ⟨rfl, by decide⟩
  obtain ⟨mm1, xs1, e1, h1⟩ := mmStep_inv h0 ha0 trivial
  have ha1 : mm1.Admissible (.createBlock 0x2000 0x1000 (some 1)) := by
    refine ⟨by decide, by decide, fun n hn => ?_⟩
    cases hn
    rw [← Option.get_of_eq_some (by decide) e1]
    exact ⟨by decide, by decide⟩
  obtain ⟨mm, xs, e, h⟩ := mmStep_inv h1 ha1 trivial
  exact ⟨mm, xs, by rw [e1, Option.bind_some, e], h⟩

/-- Adding both blocks to a scan for the whole range makes room for it. -/
theorem evict_scan_makes_room_two : ∃ mm xs, mm.Inv 0x1000 0x2000 xs ∧
    (∀ n ∈ [NodeRef.node 1, .node 0], n ≠ .headNode ∧ (mm.node n).allocated = true) ∧
    ∃ unwind mm1 evict mm2 mm3 hole,
      evictScan (ScanRequest.init ⟨0x2000, 0, 0, none⟩ mm) [] [.node 1, .node 0] =
        some (true, unwind, mm1) ∧
      evictUnwind mm1 [] unwind = some (evict, mm2) ∧ mmRemoveNodes mm2 evict = some mm3 ∧
      mmSearchFree mm3 0x2000 0 false = some (some hole) := by
  obtain ⟨mm, xs, e, h⟩ := two_blocks_inv
  have hns : ∀ n ∈ [NodeRef.node 1, .node 0], n ≠ .headNode ∧ (mm.node n).allocated = true := by
    rw [← Option.get_of_eq_some (by decide) e]
    decide
  obtain ⟨found, unwind, mma, evict, mmb, e1, e2, -, -, -, -, -, hroom⟩ :=
    evict_scan_makes_room h ⟨0x2000, 0, 0, none⟩ (by decide) hns
  have hfound : found = true := by
    have hrun : (evictScan (ScanRequest.init ⟨0x2000, 0, 0, none⟩ mm) []
        [.node 1, .node 0]).map (·.1) = some true := by
      rw [← Option.get_of_eq_some (by decide) e]
      decide
    rw [e1] at hrun
    exact Option.some.inj hrun
  subst hfound
  obtain ⟨mm3, e3, hsearch⟩ := hroom rfl evict (.refl _)
  obtain ⟨hole, e4⟩ := hsearch false (by decide)
  exact ⟨mm, xs, h, hns, unwind, mma, evict, mmb, mm3, hole, e1, e2, e3, e4⟩

end Drm
