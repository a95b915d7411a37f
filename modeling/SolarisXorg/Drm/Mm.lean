import Mathlib.Algebra.Group.Nat.Defs
import SolarisXorg.Lib.Ring
import SolarisXorg.Lib.Run

/-!
# The range allocator (`drm_mm.c`)

A `drm_mm` manages the addresses of `[start, start + size)`. Its nodes, the allocated blocks, are
linked in a ring in the order of their addresses; `head_node` is part of the ring. A node has
`hole_follows` set where there is free space between its end and the start of its successor, and
is then on `hole_stack`, most recently freed first. `head_node.start` is the end of the managed
range and `head_node.size` wraps, so that the space before the first block is the hole of
`head_node` and the space behind the last block ends where `head_node` starts.

A pointer to a `struct drm_mm_node` is a `NodeRef`. The `node_list` pointers of the nodes are kept
as they are (`Lib.Links`), since the eviction scan unlinks nodes and reuses their pointers;
`hole_stack` and `unused_nodes` are only ever used as lists and are lists here. `unsigned long` is
`UInt64` and `unsigned` is `UInt32`, with C's wrapping arithmetic; flags are `Bool`. The `atomic`
arguments are left out: both allocation flags they choose between are `KM_SLEEP`. A result `none`
is a kernel panic: a `BUG_ON` that fires or a null pointer followed.
-/

namespace Drm

open Lib

/-! ## Data -/

/-- The address of a `struct drm_mm_node`: `head_node` of the manager, or another one. -/
inductive NodeRef
  | headNode
  | node (n : Nat)
  deriving DecidableEq, Repr

/-- `struct drm_mm_node`, without the list heads and the back pointer to the one manager. -/
structure MmNode where
  holeFollows : Bool := false
  scannedBlock : Bool := false
  scannedPrevFree : Bool := false
  scannedNextFree : Bool := false
  scannedPreceedsHole : Bool := false
  allocated : Bool := false
  color : UInt64 := 0
  start : UInt64 := 0
  size : UInt64 := 0
  deriving DecidableEq, Repr

/-- The `color_adjust` callback: nodes, the hole's node, the color and the hole's bounds. -/
abbrev ColorAdjust :=
  (NodeRef → MmNode) → NodeRef → UInt64 → UInt64 → UInt64 → UInt64 × UInt64

/-- `struct drm_mm`, together with the nodes it can reach. -/
structure Mm where
  node : NodeRef → MmNode
  nodeList : Links NodeRef
  holeStack : List NodeRef
  unusedNodes : List NodeRef
  numUnused : Int
  scanCheckRange : Bool
  scanAlignment : UInt32
  scanColor : UInt64
  scanSize : UInt64
  scanHitStart : UInt64
  scanHitEnd : UInt64
  scannedBlocks : UInt32
  scanStart : UInt64
  scanEnd : UInt64
  prevScannedNode : Option NodeRef
  colorAdjust : Option ColorAdjust

/-- A write to fields of one node. -/
def Mm.modifyNode (mm : Mm) (n : NodeRef) (f : MmNode → MmNode) : Mm :=
  { mm with node := Function.update mm.node n (f (mm.node n)) }

/-- `list_add` on `node_list`. -/
def Mm.nodeListAdd (mm : Mm) (ptr head : NodeRef) : Option Mm :=
  (mm.nodeList.insertAfter ptr head).map fun l => { mm with nodeList := l }

/-- `list_del` on `node_list`. -/
def Mm.nodeListDel (mm : Mm) (ptr : NodeRef) : Option Mm :=
  (mm.nodeList.unlink ptr).map fun l => { mm with nodeList := l }

/-- `list_add` on `hole_stack`. -/
def Mm.holeStackAdd (mm : Mm) (ptr : NodeRef) : Mm := { mm with holeStack := ptr :: mm.holeStack }

/-- `list_del` on `hole_stack`: the list heads of a node that is not on it are null, or point to
the node itself after `INIT_LIST_HEAD`, which no call below relies on. -/
def Mm.holeStackDel (mm : Mm) (ptr : NodeRef) : Option Mm :=
  if ptr ∈ mm.holeStack then some { mm with holeStack := mm.holeStack.erase ptr } else none

/-- `MM_UNUSED_TARGET` -/
def mmUnusedTarget : Int := 4

/-! ## Holes -/

/-- `__drm_mm_hole_node_start` -/
def rawHoleNodeStart (mm : Mm) (holeNode : NodeRef) : UInt64 :=
  (mm.node holeNode).start + (mm.node holeNode).size

/-- `drm_mm_hole_node_start` -/
def mmHoleNodeStart (mm : Mm) (holeNode : NodeRef) : Option UInt64 :=
  if (mm.node holeNode).holeFollows then some (rawHoleNodeStart mm holeNode) else none

/-- `__drm_mm_hole_node_end`, and `drm_mm_hole_node_end`, which only calls it. -/
def mmHoleNodeEnd (mm : Mm) (holeNode : NodeRef) : Option UInt64 :=
  (mm.nodeList.next holeNode).map fun n => (mm.node n).start

/-- The rounding up to `alignment` of `insert_helper`, `insert_helper_range` and
`check_free_hole`. -/
def alignStart (start : UInt64) (alignment : UInt32) : UInt64 :=
  if alignment ≠ 0 then
    let tmp := (start % alignment.toUInt64).toUInt32
    if tmp ≠ 0 then start + (alignment - tmp).toUInt64 else start
  else start

/-- `check_free_hole` -/
def checkFreeHole (start stop size : UInt64) (alignment : UInt32) : Bool :=
  if stop - start < size then false
  else decide (alignStart start alignment + size ≤ stop)

/-- The bounds of a hole after `color_adjust`, where there is one. -/
def colorAdjusted (mm : Mm) (holeNode : NodeRef) (color start stop : UInt64) : UInt64 × UInt64 :=
  match mm.colorAdjust with
  | some adjust => adjust mm.node holeNode color start stop
  | none => (start, stop)

/-- The start of a hole, not before that of the range asked for. -/
def clampStart (range : Option (UInt64 × UInt64)) (holeStart : UInt64) : UInt64 :=
  match range with
  | some (start, _) => if holeStart < start then start else holeStart
  | none => holeStart

/-- The end of a hole, not behind that of the range asked for. -/
def clampEnd (range : Option (UInt64 × UInt64)) (holeEnd : UInt64) : UInt64 :=
  match range with
  | some (_, stop) => if stop < holeEnd then stop else holeEnd
  | none => holeEnd

/-- The body of the search loops: whether the hole of `entry` can take the block. -/
def holeFits (mm : Mm) (size : UInt64) (alignment : UInt32) (color : UInt64)
    (range : Option (UInt64 × UInt64)) (entry : NodeRef) : Option Bool := do
  let holeStart ← mmHoleNodeStart mm entry
  let holeEnd ← mmHoleNodeEnd mm entry
  let adj := colorAdjusted mm entry color (clampStart range holeStart) (clampEnd range holeEnd)
  if mm.colorAdjust.isSome ∧ adj.2 ≤ adj.1 then some false
  else some (checkFreeHole adj.1 adj.2 size alignment)

/-- The search loop over `hole_stack`. -/
def searchHoles (mm : Mm) (size : UInt64) (alignment : UInt32) (color : UInt64)
    (range : Option (UInt64 × UInt64)) (bestMatch : Bool) :
    List NodeRef → Option NodeRef → UInt64 → Option (Option NodeRef)
  | [], best, _ => some best
  | entry :: rest, best, bestSize => do
    if ← holeFits mm size alignment color range entry then
      if !bestMatch then some (some entry)
      else if (mm.node entry).size < bestSize then
        searchHoles mm size alignment color range bestMatch rest (some entry) (mm.node entry).size
      else searchHoles mm size alignment color range bestMatch rest best bestSize
    else searchHoles mm size alignment color range bestMatch rest best bestSize

/-- `drm_mm_search_free_generic` and `drm_mm_search_free_in_range_generic`: they differ in that
the second one cuts the holes to a range. -/
def mmSearch (mm : Mm) (size : UInt64) (alignment : UInt32) (color : UInt64)
    (range : Option (UInt64 × UInt64)) (bestMatch : Bool) : Option (Option NodeRef) :=
  if mm.scannedBlocks ≠ 0 then none
  else searchHoles mm size alignment color range bestMatch mm.holeStack none (0 - 1)

/-- `drm_mm_search_free_generic` -/
def mmSearchFreeGeneric (mm : Mm) (size : UInt64) (alignment : UInt32) (color : UInt64)
    (bestMatch : Bool) : Option (Option NodeRef) :=
  mmSearch mm size alignment color none bestMatch

/-- `drm_mm_search_free_in_range_generic` -/
def mmSearchFreeInRangeGeneric (mm : Mm) (size : UInt64) (alignment : UInt32) (color : UInt64)
    (start stop : UInt64) (bestMatch : Bool) : Option (Option NodeRef) :=
  mmSearch mm size alignment color (some (start, stop)) bestMatch

/-- `drm_mm_search_free` -/
def mmSearchFree (mm : Mm) (size : UInt64) (alignment : UInt32) (bestMatch : Bool) :
    Option (Option NodeRef) :=
  mmSearchFreeGeneric mm size alignment 0 bestMatch

/-- `drm_mm_search_free_in_range` -/
def mmSearchFreeInRange (mm : Mm) (size : UInt64) (alignment : UInt32) (start stop : UInt64)
    (bestMatch : Bool) : Option (Option NodeRef) :=
  mmSearchFreeInRangeGeneric mm size alignment 0 start stop bestMatch

/-! ## Insertion -/

/-- `drm_mm_init` -/
def mmInit (mm : Mm) (start size : UInt64) : Mm :=
  let head := mm.node .headNode
  let stop := start + size
  { mm with
    holeStack := [.headNode]
    unusedNodes := []
    numUnused := 0
    scannedBlocks := 0
    nodeList :=
      (mm.nodeList.setNext .headNode (some .headNode)).setPrev .headNode (some .headNode)
    node := Function.update mm.node .headNode
      { head with
        holeFollows := true
        scannedBlock := false
        scannedPrevFree := false
        scannedNextFree := false
        start := stop
        size := start - stop }
    colorAdjust := none }

/-- `drm_mm_kmalloc`; `mem` is the address `kzalloc` returns, `none` for null. -/
def mmKmalloc (mm : Mm) (mem : Option Nat) : Mm × Option NodeRef :=
  match mem with
  | some i => (mm.modifyNode (.node i) fun _ => {}, some (.node i))
  | none =>
    match mm.unusedNodes with
    | [] => (mm, none)
    | child :: rest => ({ mm with unusedNodes := rest, numUnused := mm.numUnused - 1 }, some child)

/-- A block put at the start of the hole of `hole` leaves no hole behind that node. -/
def Mm.closeHole (mm : Mm) (hole : NodeRef) (start holeStart : UInt64) : Option Mm :=
  if start = holeStart then
    (mm.modifyNode hole fun n => { n with holeFollows := false }).holeStackDel hole
  else some mm

/-- The hole, if one is left, behind a new block. -/
def Mm.openHole (mm : Mm) (node : NodeRef) (left : Bool) : Mm :=
  if left then (mm.holeStackAdd node).modifyNode node fun n => { n with holeFollows := true }
  else mm.modifyNode node fun n => { n with holeFollows := false }

/-- What `insert_helper` and `insert_helper_range` share: the block of `node` at `adjStart` in the
hole `[holeStart, holeEnd)` of `holeNode`. `bug` is what the `BUG_ON`s behind `list_add` test of
the block's end. -/
def mmPlace (mm : Mm) (holeNode node : NodeRef) (size color holeStart holeEnd adjStart : UInt64)
    (bug : UInt64 → Bool) : Option Mm := do
  let mm ← mm.closeHole holeNode adjStart holeStart
  let mm := mm.modifyNode node fun n =>
    { n with start := adjStart, size := size, color := color, allocated := true }
  let mm ← mm.nodeListAdd node holeNode
  if bug (adjStart + size) then none
  else some (mm.openHole node (rawHoleNodeStart mm node < holeEnd))

/-- `drm_mm_insert_helper` -/
def mmInsertHelper (mm : Mm) (holeNode node : NodeRef) (size : UInt64) (alignment : UInt32)
    (color : UInt64) : Option Mm := do
  let holeStart ← mmHoleNodeStart mm holeNode
  let holeEnd ← mmHoleNodeEnd mm holeNode
  if (mm.node node).allocated then none
  else
    let adj := colorAdjusted mm holeNode color holeStart holeEnd
    let adjStart := alignStart adj.1 alignment
    mmPlace mm holeNode node size color holeStart holeEnd adjStart fun stop => adj.2 < stop

/-- `drm_mm_insert_helper_range` -/
def mmInsertHelperRange (mm : Mm) (holeNode node : NodeRef) (size : UInt64) (alignment : UInt32)
    (color start stop : UInt64) : Option Mm := do
  let holeStart ← mmHoleNodeStart mm holeNode
  let holeEnd ← mmHoleNodeEnd mm holeNode
  if !(mm.node holeNode).holeFollows || (mm.node node).allocated then none
  else
    let range := some (start, stop)
    let adj := colorAdjusted mm holeNode color (clampStart range holeStart) (clampEnd range holeEnd)
    let adjStart := alignStart adj.1 alignment
    mmPlace mm holeNode node size color holeStart holeEnd adjStart fun e => adj.2 < e || stop < e

def ENOSPC : Int := 28

/-- `drm_mm_insert_node_generic` -/
def mmInsertNodeGeneric (mm : Mm) (node : NodeRef) (size : UInt64) (alignment : UInt32)
    (color : UInt64) : Option (Int × Mm) := do
  match ← mmSearchFreeGeneric mm size alignment color false with
  | none => some (-ENOSPC, mm)
  | some holeNode => return (0, ← mmInsertHelper mm holeNode node size alignment color)

/-- `drm_mm_insert_node` -/
def mmInsertNode (mm : Mm) (node : NodeRef) (size : UInt64) (alignment : UInt32) :
    Option (Int × Mm) :=
  mmInsertNodeGeneric mm node size alignment 0

/-- `drm_mm_insert_node_in_range_generic` -/
def mmInsertNodeInRangeGeneric (mm : Mm) (node : NodeRef) (size : UInt64) (alignment : UInt32)
    (color start stop : UInt64) : Option (Int × Mm) := do
  match ← mmSearchFreeInRangeGeneric mm size alignment color start stop false with
  | none => some (-ENOSPC, mm)
  | some holeNode =>
    return (0, ← mmInsertHelperRange mm holeNode node size alignment color start stop)

/-- `drm_mm_insert_node_in_range` -/
def mmInsertNodeInRange (mm : Mm) (node : NodeRef) (size : UInt64) (alignment : UInt32)
    (start stop : UInt64) : Option (Int × Mm) :=
  mmInsertNodeInRangeGeneric mm node size alignment 0 start stop

/-- `drm_mm_get_block_generic`; the new node, or `none` for null. -/
def mmGetBlockGeneric (mm : Mm) (holeNode : NodeRef) (size : UInt64) (alignment : UInt32)
    (color : UInt64) (mem : Option Nat) : Option (Option NodeRef × Mm) :=
  match mmKmalloc mm mem with
  | (mm, none) => some (none, mm)
  | (mm, some node) => (mmInsertHelper mm holeNode node size alignment color).map (some node, ·)

/-- `drm_mm_get_block_range_generic` -/
def mmGetBlockRangeGeneric (mm : Mm) (holeNode : NodeRef) (size : UInt64) (alignment : UInt32)
    (color start stop : UInt64) (mem : Option Nat) : Option (Option NodeRef × Mm) :=
  match mmKmalloc mm mem with
  | (mm, none) => some (none, mm)
  | (mm, some node) =>
    (mmInsertHelperRange mm holeNode node size alignment color start stop).map (some node, ·)

/-- The body of the loop of `drm_mm_create_block`, once the hole is found. -/
def mmCreateAt (mm : Mm) (hole node : NodeRef) (start size stop holeStart holeEnd : UInt64) :
    Option Mm := do
  let mm := mm.modifyNode node fun n => { n with start := start, size := size, allocated := true }
  let mm ← mm.nodeListAdd node hole
  let mm ← mm.closeHole hole start holeStart
  some (mm.openHole node (stop ≠ holeEnd))

/-- The loop of `drm_mm_create_block` over `hole_stack`. -/
def mmCreateIn (mm : Mm) (start size stop : UInt64) (mem : Option Nat) :
    List NodeRef → Option (Option NodeRef × Mm)
  | [] => some (none, mm)
  | hole :: rest => do
    let holeStart ← mmHoleNodeStart mm hole
    let holeEnd ← mmHoleNodeEnd mm hole
    if start < holeStart ∨ holeEnd < stop then mmCreateIn mm start size stop mem rest
    else
      match mmKmalloc mm mem with
      | (mm, none) => some (none, mm)
      | (mm, some node) =>
        (mmCreateAt mm hole node start size stop holeStart holeEnd).map (some node, ·)

/-- `drm_mm_create_block` -/
def mmCreateBlock (mm : Mm) (start size : UInt64) (mem : Option Nat) :
    Option (Option NodeRef × Mm) :=
  mmCreateIn mm start size (start + size) mem mm.holeStack

/-! ## Removal -/

/-- `drm_mm_remove_node`: the hole behind the node goes, and its flag is checked. -/
def Mm.dropHole (mm : Mm) (node : NodeRef) (holeEnd : UInt64) : Option Mm :=
  if (mm.node node).holeFollows then
    if rawHoleNodeStart mm node = holeEnd then none else mm.holeStackDel node
  else if rawHoleNodeStart mm node ≠ holeEnd then none
  else some mm

/-- `drm_mm_remove_node`: the hole behind the node before it is the most recent one. -/
def Mm.raiseHole (mm : Mm) (prevNode : NodeRef) : Option Mm :=
  if (mm.node prevNode).holeFollows then (mm.holeStackDel prevNode).map (·.holeStackAdd prevNode)
  else some ((mm.modifyNode prevNode fun n => { n with holeFollows := true }).holeStackAdd prevNode)

/-- `drm_mm_remove_node` -/
def mmRemoveNode (mm : Mm) (node : NodeRef) : Option Mm :=
  let n := mm.node node
  if n.scannedBlock || n.scannedPrevFree || n.scannedNextFree then none
  else do
    let prevNode ← mm.nodeList.prev node
    let holeEnd ← mmHoleNodeEnd mm node
    let mm ← mm.dropHole node holeEnd
    let mm ← mm.raiseHole prevNode
    let mm ← mm.nodeListDel node
    some (mm.modifyNode node fun n => { n with allocated := false })

/-- `drm_mm_put_block` -/
def mmPutBlock (mm : Mm) (node : NodeRef) : Option Mm := do
  let mm ← mmRemoveNode mm node
  if mm.numUnused < mmUnusedTarget then
    some { mm with unusedNodes := node :: mm.unusedNodes, numUnused := mm.numUnused + 1 }
  else some mm

/-! ## Runs -/

/-- The calls on an initialised manager. -/
inductive MmOp
  | insertNode (n : Nat) (size : UInt64) (alignment : UInt32)
  | insertNodeGeneric (n : Nat) (size : UInt64) (alignment : UInt32) (color : UInt64)
  | insertNodeInRange (n : Nat) (size : UInt64) (alignment : UInt32) (start stop : UInt64)
  | insertNodeInRangeGeneric (n : Nat) (size : UInt64) (alignment : UInt32)
      (color start stop : UInt64)
  | createBlock (start size : UInt64) (mem : Option Nat)
  | getBlockGeneric (hole : NodeRef) (size : UInt64) (alignment : UInt32) (color : UInt64)
      (mem : Option Nat)
  | getBlockRangeGeneric (hole : NodeRef) (size : UInt64) (alignment : UInt32)
      (color start stop : UInt64) (mem : Option Nat)
  | removeNode (node : NodeRef)
  | putBlock (node : NodeRef)

/-- The manager after a call; `none` where the call panics. -/
def mmStep (mm : Mm) : MmOp → Option Mm
  | .insertNode n size alignment => (mmInsertNode mm (.node n) size alignment).map (·.2)
  | .insertNodeGeneric n size alignment color =>
    (mmInsertNodeGeneric mm (.node n) size alignment color).map (·.2)
  | .insertNodeInRange n size alignment start stop =>
    (mmInsertNodeInRange mm (.node n) size alignment start stop).map (·.2)
  | .insertNodeInRangeGeneric n size alignment color start stop =>
    (mmInsertNodeInRangeGeneric mm (.node n) size alignment color start stop).map (·.2)
  | .createBlock start size mem => (mmCreateBlock mm start size mem).map (·.2)
  | .getBlockGeneric hole size alignment color mem =>
    (mmGetBlockGeneric mm hole size alignment color mem).map (·.2)
  | .getBlockRangeGeneric hole size alignment color start stop mem =>
    (mmGetBlockRangeGeneric mm hole size alignment color start stop mem).map (·.2)
  | .removeNode node => mmRemoveNode mm node
  | .putBlock node => mmPutBlock mm node

/-- A node no scan is looking at. -/
structure MmNode.Unscanned (n : MmNode) : Prop where
  block : n.scannedBlock = false
  prevFree : n.scannedPrevFree = false
  nextFree : n.scannedNextFree = false

/-- A node a caller may insert: its flags are clear, and the manager does not keep it for itself. -/
structure Mm.Cleared (mm : Mm) (n : Nat) : Prop where
  allocated : (mm.node (.node n)).allocated = false
  unscanned : (mm.node (.node n)).Unscanned
  unused : NodeRef.node n ∉ mm.unusedNodes

/-- What the users of a manager of `[start, start + size)` rely on, `xs` being its blocks in ring
order: they are sorted, disjoint and inside the range; `hole_follows` reports the gaps between
neighbours, of which `head_node` is the first and the last; `hole_stack` holds the nodes with a gap
once each. -/
structure Mm.WellFormed (mm : Mm) (start size : UInt64) (xs : List NodeRef) : Prop where
  ring : IsRing mm.nodeList (.headNode :: xs)
  blocks : ∀ n, n ∈ xs ↔ n ≠ .headNode ∧ (mm.node n).allocated = true
  sorted : xs.Pairwise fun a b => (mm.node a).start < (mm.node b).start
  disjoint : xs.Pairwise fun a b =>
    (mm.node a).start.toNat + (mm.node a).size.toNat ≤ (mm.node b).start.toNat
  inside : ∀ n ∈ xs, start.toNat ≤ (mm.node n).start.toNat ∧
    (mm.node n).start.toNat + (mm.node n).size.toNat ≤ start.toNat + size.toNat
  head : rawHoleNodeStart mm .headNode = start ∧ (mm.node .headNode).start = start + size
  holeFollows : ∀ p a q, NodeRef.headNode :: xs = p ++ a :: q →
    ((mm.node a).holeFollows = true ↔ rawHoleNodeStart mm a < (mm.node (succ p a q)).start)
  holeNodup : mm.holeStack.Nodup
  holeMem : ∀ a, a ∈ mm.holeStack ↔ a ∈ NodeRef.headNode :: xs ∧ (mm.node a).holeFollows = true

/-- Memory `kzalloc` may return: no node that is in use. -/
def Mm.FreshMem (mm : Mm) (mem : Option Nat) : Prop :=
  ∀ n, mem = some n →
    (mm.node (.node n)).allocated = false ∧ NodeRef.node n ∉ mm.unusedNodes

/-- What the callers owe: blocks are not empty and do not wrap, a node is cleared before it is
inserted, a hole is one the search returned for the same request, a node given back is allocated. -/
def Mm.Admissible (mm : Mm) : MmOp → Prop
  | .insertNode n size _ => size ≠ 0 ∧ mm.Cleared n
  | .insertNodeGeneric n size _ _ => size ≠ 0 ∧ mm.Cleared n
  | .insertNodeInRange n size _ _ _ => size ≠ 0 ∧ mm.Cleared n
  | .insertNodeInRangeGeneric n size _ _ _ _ => size ≠ 0 ∧ mm.Cleared n
  | .createBlock start size mem =>
    size ≠ 0 ∧ start.toNat + size.toNat < 2 ^ 64 ∧ mm.FreshMem mem
  | .getBlockGeneric hole size alignment color mem =>
    size ≠ 0 ∧ mm.FreshMem mem ∧
      ∃ bestMatch, mmSearchFreeGeneric mm size alignment color bestMatch = some (some hole)
  | .getBlockRangeGeneric hole size alignment color start stop mem =>
    size ≠ 0 ∧ mm.FreshMem mem ∧ ∃ bestMatch,
      mmSearchFreeInRangeGeneric mm size alignment color start stop bestMatch = some (some hole)
  | .removeNode node => node ≠ .headNode ∧ (mm.node node).allocated = true
  | .putBlock node => node ≠ .headNode ∧ (mm.node node).allocated = true

/-- `start` rounded up to a multiple of `alignment`, as numbers. -/
def alignNat (start alignment : Nat) : Nat :=
  if start % alignment = 0 then start else start + (alignment - start % alignment)

/-- The block that is to go into the hole of `hole` ends below `2 ^ 64`: neither the rounding up
of the hole's start nor the addition of the block's size wraps. -/
def Mm.EndsBelow (mm : Mm) (hole : NodeRef) (size : UInt64) (alignment : UInt32)
    (range : Option (UInt64 × UInt64)) : Prop :=
  alignNat (clampStart range (rawHoleNodeStart mm hole)).toNat alignment.toNat + size.toNat < 2 ^ 64

/-- The hole the search picks has room for the block without a wrap. -/
def Mm.SearchNoWrap (mm : Mm) (size : UInt64) (alignment : UInt32) (color : UInt64)
    (range : Option (UInt64 × UInt64)) : Prop :=
  ∀ hole, mmSearch mm size alignment color range false = some (some hole) →
    mm.EndsBelow hole size alignment range

/-- The address arithmetic of the call does not wrap. -/
def Mm.NoWrap (mm : Mm) : MmOp → Prop
  | .insertNode _ size alignment => mm.SearchNoWrap size alignment 0 none
  | .insertNodeGeneric _ size alignment color => mm.SearchNoWrap size alignment color none
  | .insertNodeInRange _ size alignment start stop =>
    mm.SearchNoWrap size alignment 0 (some (start, stop))
  | .insertNodeInRangeGeneric _ size alignment color start stop =>
    mm.SearchNoWrap size alignment color (some (start, stop))
  | .createBlock _ _ _ => True
  | .getBlockGeneric hole size alignment _ _ => mm.EndsBelow hole size alignment none
  | .getBlockRangeGeneric hole size alignment _ start stop _ =>
    mm.EndsBelow hole size alignment (some (start, stop))
  | .removeNode _ => True
  | .putBlock _ => True

/-- A call as its callers may make it. -/
def mmCall (mm : Mm) (op : MmOp) (mm' : Mm) : Prop := mm.Admissible op ∧ mmStep mm op = some mm'

/-! ## Requests -/

/-- The hole of `a` can take a block of `size` bytes at `addr`. -/
structure Mm.FitsAt (mm : Mm) (a : NodeRef) (size : UInt64) (alignment : UInt32)
    (range : Option (UInt64 × UInt64)) (addr : Nat) : Prop where
  low : (rawHoleNodeStart mm a).toNat ≤ addr
  high : ∃ e, mmHoleNodeEnd mm a = some e ∧ addr + size.toNat ≤ e.toNat
  aligned : alignment ≠ 0 → alignment.toNat ∣ addr
  inRange : ∀ lo hi, range = some (lo, hi) → lo.toNat ≤ addr ∧ addr + size.toNat ≤ hi.toNat

/-- The hole of `a` has room for the block at some address. -/
def Mm.CanHold (mm : Mm) (a : NodeRef) (size : UInt64) (alignment : UInt32)
    (range : Option (UInt64 × UInt64)) : Prop :=
  ∃ addr, mm.FitsAt a size alignment range addr

/-- The bytes between `a` and its successor. -/
def Mm.holeSize (mm : Mm) (a : NodeRef) : Nat :=
  match mmHoleNodeEnd mm a with
  | some e => e.toNat - (rawHoleNodeStart mm a).toNat
  | none => 0

/-- What `check_free_hole` says of the hole of `a`, cut to the range. -/
def Mm.passes (mm : Mm) (size : UInt64) (alignment : UInt32) (range : Option (UInt64 × UInt64))
    (a : NodeRef) : Bool :=
  match mmHoleNodeEnd mm a with
  | some e =>
    checkFreeHole (clampStart range (rawHoleNodeStart mm a)) (clampEnd range e) size alignment
  | none => false

end Drm
