import SolarisXorg.Drm.Mm

/-!
# Going through the nodes of a manager (`drm_mm_for_each_node`, `drm_mm_debug_table`)

The lists of this port keep in every list head the address of what it is part of (`contain_ptr`),
and `list_for_each_entry` ends when it comes to a head where that address is null. `MmPtrs` adds the
`contain_ptr`s of the nodes' `node_list` to the manager: `list_add` sets that of the node it links
in, and `drm_mm_init` that of `head_node`. `mmPtrsStep` makes the calls of `mmStep` with them.
-/

namespace Drm

open Lib

/-- A manager with the `contain_ptr` of the `node_list` of every node. -/
structure MmPtrs where
  mm : Mm
  containPtr : NodeRef → Option NodeRef

/-- `list_add` with the node itself as the entry. -/
def setContain (containPtr : NodeRef → Option NodeRef) (node : NodeRef) :
    NodeRef → Option NodeRef :=
  Function.update containPtr node (some node)

/-- `drm_mm_init` -/
def mmPtrsInit (s : MmPtrs) (start size : UInt64) : MmPtrs :=
  ⟨mmInit s.mm start size, setContain s.containPtr .headNode⟩

/-- After an insertion that returns 0 the node is in the list. -/
def MmPtrs.inserted (s : MmPtrs) (node : NodeRef) (r : Option (Int × Mm)) : Option MmPtrs :=
  r.map fun (ret, mm) => ⟨mm, if ret = 0 then setContain s.containPtr node else s.containPtr⟩

/-- After a call that returns a node it has made, that node is in the list. -/
def MmPtrs.made (s : MmPtrs) (r : Option (Option NodeRef × Mm)) : Option MmPtrs :=
  r.map fun (node, mm) => ⟨mm, node.elim s.containPtr (setContain s.containPtr)⟩

/-- The manager after a call, with its pointers. A node that is given back is put on `unused_nodes`,
a list of the same heads. -/
def mmPtrsStep (s : MmPtrs) : MmOp → Option MmPtrs
  | .insertNode n size alignment =>
    s.inserted (.node n) (mmInsertNode s.mm (.node n) size alignment)
  | .insertNodeGeneric n size alignment color =>
    s.inserted (.node n) (mmInsertNodeGeneric s.mm (.node n) size alignment color)
  | .insertNodeInRange n size alignment start stop =>
    s.inserted (.node n) (mmInsertNodeInRange s.mm (.node n) size alignment start stop)
  | .insertNodeInRangeGeneric n size alignment color start stop =>
    s.inserted (.node n)
      (mmInsertNodeInRangeGeneric s.mm (.node n) size alignment color start stop)
  | .createBlock start size mem => s.made (mmCreateBlock s.mm start size mem)
  | .getBlockGeneric hole size alignment color mem =>
    s.made (mmGetBlockGeneric s.mm hole size alignment color mem)
  | .getBlockRangeGeneric hole size alignment color start stop mem =>
    s.made (mmGetBlockRangeGeneric s.mm hole size alignment color start stop mem)
  | .removeNode node => (mmRemoveNode s.mm node).map fun mm => ⟨mm, s.containPtr⟩
  | .putBlock node => (mmPutBlock s.mm node).map fun mm =>
    ⟨mm, if s.mm.numUnused < mmUnusedTarget then setContain s.containPtr node else s.containPtr⟩

/-- A call as its callers may make it. -/
def mmPtrsCall (s : MmPtrs) (op : MmOp) (t : MmPtrs) : Prop :=
  s.mm.Admissible op ∧ mmPtrsStep s op = some t

/-! ## The loops -/

/-- `list_entry` -/
def MmPtrs.listEntry (s : MmPtrs) (ptr : Option NodeRef) : Option NodeRef := ptr.bind s.containPtr

/-- The entry of pass `k` of `drm_mm_for_each_node`; `none` is null. -/
def MmPtrs.entry (s : MmPtrs) : Nat → Option NodeRef
  | 0 => s.listEntry (s.mm.nodeList.next .headNode)
  | k + 1 => (s.entry k).bind fun pos => s.listEntry (s.mm.nodeList.next pos)

/-- The nodes from `pos` on that `drm_mm_for_each_node` visits; no result if it has not ended after
`fuel` passes. -/
def MmPtrs.visitFrom (s : MmPtrs) : Nat → Option NodeRef → Option (List NodeRef)
  | 0, _ => none
  | _ + 1, none => some []
  | fuel + 1, some pos =>
    (s.visitFrom fuel (s.listEntry (s.mm.nodeList.next pos))).map (pos :: ·)

/-- `drm_mm_for_each_node` -/
def mmForEachNode (s : MmPtrs) (fuel : Nat) : Option (List NodeRef) :=
  s.visitFrom fuel (s.listEntry (s.mm.nodeList.next .headNode))

/-- `drm_mm_debug_hole` -/
def mmDebugHole (mm : Mm) (entry : NodeRef) : Option UInt64 :=
  if (mm.node entry).holeFollows then do
    let holeStart ← mmHoleNodeStart mm entry
    let holeEnd ← mmHoleNodeEnd mm entry
    some (holeEnd - holeStart)
  else some 0

/-- The loop of `drm_mm_debug_table`, with `total_used` and `total_free`. -/
def MmPtrs.debugFrom (s : MmPtrs) : Nat → Option NodeRef → UInt64 → UInt64 →
    Option (UInt64 × UInt64)
  | 0, _, _, _ => none
  | _ + 1, none, used, free => some (used, free)
  | fuel + 1, some entry, used, free => do
    let hole ← mmDebugHole s.mm entry
    s.debugFrom fuel (s.listEntry (s.mm.nodeList.next entry)) (used + (s.mm.node entry).size)
      (free + hole)

/-- `drm_mm_debug_table`: the totals, or nothing if it has not ended after `fuel` passes. -/
def mmDebugTable (s : MmPtrs) (fuel : Nat) : Option (UInt64 × UInt64) := do
  let free ← mmDebugHole s.mm .headNode
  s.debugFrom fuel (s.listEntry (s.mm.nodeList.next .headNode)) 0 free

/-- What the loops should come to: each block is visited once, in the order of the
addresses, and the totals add up to the size of the range. -/
def MmPtrs.TableEnds (s : MmPtrs) (size : UInt64) : Prop :=
  (∃ fuel visited, mmForEachNode s fuel = some visited ∧
    (∀ n, n ∈ visited ↔ n ≠ .headNode ∧ (s.mm.node n).allocated = true) ∧
    visited.Pairwise fun a b => (s.mm.node a).start < (s.mm.node b).start) ∧
  ∃ fuel used free, mmDebugTable s fuel = some (used, free) ∧ used + free = size

end Drm
