import SolarisXorg.Drm.Mm

/-!
# The eviction scan (`drm_mm.c`, `i915_gem_evict.c`)

To make room for a request, blocks are taken out of the ring in LRU order until the hole that
grows around one of them passes `check_free_hole`; the bounds of that hole are the hit window. The
blocks are then put back in the opposite order, and each call says whether the block lies in the
window and is to be evicted. The pointers of a block that is taken out stay in use: `prev` is where
it goes back, `next` leads to the block taken out before it.
-/

namespace Drm

open Lib

/-- `drm_mm_init_scan` -/
def mmInitScan (mm : Mm) (size : UInt64) (alignment : UInt32) (color : UInt64) : Mm :=
  { mm with
    scanColor := color
    scanAlignment := alignment
    scanSize := size
    scannedBlocks := 0
    scanHitStart := 0
    scanHitEnd := 0
    scanCheckRange := false
    prevScannedNode := none }

/-- `drm_mm_init_scan_with_range` -/
def mmInitScanWithRange (mm : Mm) (size : UInt64) (alignment : UInt32)
    (color start stop : UInt64) : Mm :=
  { mm with
    scanColor := color
    scanAlignment := alignment
    scanSize := size
    scannedBlocks := 0
    scanHitStart := 0
    scanHitEnd := 0
    scanStart := start
    scanEnd := stop
    scanCheckRange := true
    prevScannedNode := none }

/-- The range the scan looks at, if it is restricted to one. -/
def Mm.scanRange (mm : Mm) : Option (UInt64 × UInt64) :=
  if mm.scanCheckRange then some (mm.scanStart, mm.scanEnd) else none

/-- `drm_mm_scan_add_block`: the node is taken out of the ring. -/
def Mm.scanUnlink (mm : Mm) (node prevNode : NodeRef) : Option Mm := do
  let preceedsHole := (mm.node prevNode).holeFollows
  let mm := mm.modifyNode node fun n => { n with scannedPreceedsHole := preceedsHole }
  let mm := mm.modifyNode prevNode fun n => { n with holeFollows := true }
  let mm ← mm.nodeListDel node
  some
    { mm with
      nodeList := (mm.nodeList.setPrev node (some prevNode)).setNext node mm.prevScannedNode
      prevScannedNode := some node }

/-- `drm_mm_scan_add_block` -/
def mmScanAddBlock (mm : Mm) (node : NodeRef) : Option (Bool × Mm) :=
  let mm := { mm with scannedBlocks := mm.scannedBlocks + 1 }
  if (mm.node node).scannedBlock then none
  else do
    let mm := mm.modifyNode node fun n => { n with scannedBlock := true }
    let prevNode ← mm.nodeList.prev node
    let mm ← mm.scanUnlink node prevNode
    let holeStart ← mmHoleNodeStart mm prevNode
    let holeEnd ← mmHoleNodeEnd mm prevNode
    let adj := colorAdjusted mm prevNode mm.scanColor (clampStart mm.scanRange holeStart)
      (clampEnd mm.scanRange holeEnd)
    if checkFreeHole adj.1 adj.2 mm.scanSize mm.scanAlignment then
      some (true, { mm with scanHitStart := holeStart, scanHitEnd := holeEnd })
    else some (false, mm)

/-- `drm_mm_scan_remove_block` -/
def mmScanRemoveBlock (mm : Mm) (node : NodeRef) : Option (Bool × Mm) :=
  let mm := { mm with scannedBlocks := mm.scannedBlocks - 1 }
  if !(mm.node node).scannedBlock then none
  else do
    let mm := mm.modifyNode node fun n => { n with scannedBlock := false }
    let prevNode ← mm.nodeList.prev node
    let preceedsHole := (mm.node node).scannedPreceedsHole
    let mm := mm.modifyNode prevNode fun n => { n with holeFollows := preceedsHole }
    let mm ← mm.nodeListAdd node prevNode
    let holeEnd ← mmHoleNodeEnd mm node
    some (mm.scanHitStart < holeEnd && (mm.node node).start < mm.scanHitEnd, mm)

/-- The loops of `i915_gem_evict_something` that add blocks, over the nodes of the objects that
`mark_free` does not skip as pinned. The result says whether one of them completed a hole, and
holds the unwind list. -/
def evictScan (mm : Mm) (unwind : List NodeRef) : List NodeRef → Option (Bool × List NodeRef × Mm)
  | [] => some (false, unwind, mm)
  | node :: lru => do
    let (hit, mm) ← mmScanAddBlock mm node
    if hit then some (true, node :: unwind, mm) else evictScan mm (node :: unwind) lru

/-- The loops of `i915_gem_evict_something` that remove the blocks of the unwind list; those to
evict are collected in the eviction list. -/
def evictUnwind (mm : Mm) (evict : List NodeRef) : List NodeRef → Option (List NodeRef × Mm)
  | [] => some (evict, mm)
  | node :: unwind => do
    let (ret, mm) ← mmScanRemoveBlock mm node
    evictUnwind mm (if ret then node :: evict else evict) unwind

/-- `drm_mm_remove_node` on one node after the other. -/
def mmRemoveNodes (mm : Mm) : List NodeRef → Option Mm
  | [] => some mm
  | node :: rest => do mmRemoveNodes (← mmRemoveNode mm node) rest

/-- A request for a hole, restricted to a range or not. -/
structure ScanRequest where
  size : UInt64
  alignment : UInt32
  color : UInt64
  range : Option (UInt64 × UInt64)

/-- The scan set up for a request. -/
def ScanRequest.init (req : ScanRequest) (mm : Mm) : Mm :=
  match req.range with
  | none => mmInitScan mm req.size req.alignment req.color
  | some (start, stop) => mmInitScanWithRange mm req.size req.alignment req.color start stop

/-- The search for a hole for a request. -/
def ScanRequest.search (req : ScanRequest) (mm : Mm) (bestMatch : Bool) : Option (Option NodeRef) :=
  match req.range with
  | none => mmSearchFree mm req.size req.alignment bestMatch
  | some (start, stop) => mmSearchFreeInRange mm req.size req.alignment start stop bestMatch

end Drm
