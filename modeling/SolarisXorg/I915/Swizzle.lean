import Mathlib.Logic.Function.Basic

/-!
# Bit 17 swizzling (`i915_gem_tiling.c`, `i915_gem.c`, `drm_linux.h`, `drm_atomic.h`)

Some chipsets exchange the 64 byte halves of every 128 bytes of a page where bit 17 of its physical
address is set. When the pages of such an object are given back, the bit of each is recorded, and when
they are gathered again, a page with another bit than the recorded one has its halves exchanged.

The pages of an object follow each other at `base.kaddr`, so that `page_list` is known where it is not
null. Where they lie physically is `phys`, which no code here reads: `page_to_phys` is defined to read
the word that the address given to it points to. `kmalloc` answers with memory of any content. The move
to the CPU domain and the flushing of caches, which do not change what the CPU sees, are left out. A
`BUG_ON` that is met has no result.
-/

namespace I915

def EBUSY : Int := 16

/-! ## Pages -/

/-- What a page holds, by offset; offsets are below `PAGE_SIZE`. -/
abbrev Page := Nat → BitVec 8

/-- `PAGE_SIZE` -/
def pageSize : Nat := 4096

/-- `page_to_phys`: the `uint32_t` at the address. -/
def pageToPhys (va : Page) : BitVec 32 := va 3 ++ va 2 ++ va 1 ++ va 0

/-- `memcpy` of `n` bytes from offset `s` of `src` to offset `d` of `dst` -/
def memcpy (dst : Page) (d : Nat) (src : Page) (s n : Nat) : Page := fun j =>
  if d ≤ j ∧ j < d + n then src (s + (j - d)) else dst j

/-- The body of the loop of `i915_gem_swizzle_page`. -/
def swizzleHalves (vaddr : Page) (i : Nat) : Page :=
  let temp := memcpy (fun _ => 0) 0 vaddr i 64
  let vaddr := memcpy vaddr i vaddr (i + 64) 64
  memcpy vaddr (i + 64) temp 0 64

/-- The loop, with `n` passes. -/
def swizzleLoop : Nat → Page → Page
  | 0, vaddr => vaddr
  | n + 1, vaddr => swizzleHalves (swizzleLoop n vaddr) (128 * n)

/-- `i915_gem_swizzle_page` -/
def swizzlePage (va : Page) : Page := swizzleLoop (pageSize / 128) va

/-! ## The record -/

/-- The words of `bit_17`. -/
abbrev BitWords := Nat → BitVec 32

/-- `set_bit` -/
def setBit (b : Nat) (p : BitWords) : BitWords :=
  Function.update p (b / 32) (p (b / 32) ||| 1#32 <<< (b % 32))

/-- `clear_bit` -/
def clearBit (b : Nat) (p : BitWords) : BitWords :=
  Function.update p (b / 32) (p (b / 32) &&& ~~~(1#32 <<< (b % 32)))

/-- `test_bit` -/
def testBit (b : Nat) (p : BitWords) : BitVec 32 := p (b / 32) &&& 1#32 <<< (b % 32)

/-! ## Objects -/

/-- `I915_TILING_NONE` -/
def tilingNone : BitVec 32 := 0

/-- `I915_BIT_6_SWIZZLE_9_10_17` -/
def bit6Swizzle91017 : BitVec 32 := 6

/-- `struct drm_i915_gem_object`, with `mm.bit_6_swizzle_x` of the device, its pages and where they
lie. -/
structure SwizzleObject where
  pageCount : Nat
  bit6SwizzleX : BitVec 32
  tilingMode : BitVec 32
  gttSpace : Bool
  /-- `page_list` is not null -/
  pageList : Bool
  pagesPinCount : Nat
  dirty : Bool
  bit17 : Option BitWords
  page : Nat → Page
  phys : Nat → BitVec 64

/-- `i915_gem_object_needs_bit17_swizzle` -/
def SwizzleObject.needsBit17Swizzle (obj : SwizzleObject) : Bool :=
  obj.bit6SwizzleX = bit6Swizzle91017 ∧ obj.tilingMode ≠ tilingNone

/-- The test of `i915_gem_object_do_bit_17_swizzle`. -/
def bitDiffers (bit17 : BitWords) (i : Nat) (page : Page) : Bool :=
  let newBit17 : BitVec 8 := (pageToPhys page >>> 17).setWidth 8
  (newBit17 &&& 1 ≠ 0) ≠ (testBit i bit17 ≠ 0)

/-- The loop of `i915_gem_object_do_bit_17_swizzle`, with `n` passes. -/
def doLoop (bit17 : BitWords) : Nat → (Nat → Page) → Nat → Page
  | 0, page => page
  | n + 1, page =>
    let page := doLoop bit17 n page
    if bitDiffers bit17 n (page n) then Function.update page n (swizzlePage (page n)) else page

/-- `i915_gem_object_do_bit_17_swizzle` -/
def SwizzleObject.doBit17Swizzle (obj : SwizzleObject) : SwizzleObject :=
  match obj.bit17 with
  | none => obj
  | some bit17 => { obj with page := doLoop bit17 obj.pageCount obj.page }

/-- The loop of `i915_gem_object_save_bit_17_swizzle`, with `n` passes. -/
def saveLoop (page : Nat → Page) : Nat → BitWords → BitWords
  | 0, bit17 => bit17
  | n + 1, bit17 =>
    let bit17 := saveLoop page n bit17
    if pageToPhys (page n) &&& 1#32 <<< 17 ≠ 0 then setBit n bit17 else clearBit n bit17

/-- `i915_gem_object_save_bit_17_swizzle`; `mem` is what `kmalloc` answers. -/
def SwizzleObject.saveBit17Swizzle (obj : SwizzleObject) (mem : Option BitWords) : SwizzleObject :=
  match obj.bit17 <|> mem with
  | none => obj
  | some bit17 => { obj with bit17 := some (saveLoop obj.page obj.pageCount bit17) }

/-- `i915_gem_object_put_pages_gtt` -/
def SwizzleObject.putPagesGtt (obj : SwizzleObject) (mem : Option BitWords) : SwizzleObject :=
  let obj := if obj.needsBit17Swizzle then obj.saveBit17Swizzle mem else obj
  { obj with
    dirty := false
    pageList := false }

/-- `i915_gem_object_put_pages` -/
def SwizzleObject.putPages (obj : SwizzleObject) (mem : Option BitWords) :
    Option (Int × SwizzleObject) :=
  if obj.pageList = false then some (0, obj)
  else if obj.gttSpace then none
  else if obj.pagesPinCount ≠ 0 then some (-EBUSY, obj)
  else some (0, obj.putPagesGtt mem)

/-- `i915_gem_object_get_pages_gtt` for an object whose `page_list` is null. The allocation of the list
may sleep and does not fail. -/
def SwizzleObject.getPagesGtt (obj : SwizzleObject) : SwizzleObject :=
  let obj := { obj with pageList := true }
  if obj.needsBit17Swizzle then obj.doBit17Swizzle else obj

/-- `i915_gem_object_get_pages` -/
def SwizzleObject.getPages (obj : SwizzleObject) : Option (Int × SwizzleObject) :=
  if obj.pageList then some (0, obj)
  else if obj.pagesPinCount ≠ 0 then none
  else some (0, obj.getPagesGtt)

/-- While an object has no `page_list`, the CPU writes to its pages, and they may be moved. -/
def SwizzleObject.whileOut (obj : SwizzleObject) (page : Nat → Page) (phys : Nat → BitVec 64) :
    SwizzleObject :=
  { obj with
    page := page
    phys := phys }

/-! ## What swizzling is for -/

/-- The 64 byte halves of every 128 bytes are exchanged. -/
def Page.exchanged (p : Page) : Page := fun j =>
  if j < pageSize then if j % 128 < 64 then p (j + 64) else p (j - 64) else p j

/-- Each page is as it was left, with its halves exchanged if bit 17 of its address is another one
now. -/
def Follows (n : Nat) (phys phys' : Nat → BitVec 64) (left now : Nat → Page) : Prop :=
  ∀ i < n, now i =
    if (phys i).getLsbD 17 = (phys' i).getLsbD 17 then left i else Page.exchanged (left i)

/-- Bit 17 of the first word of a page. -/
def Page.wordBit (p : Page) : Bool := (pageToPhys p).getLsbD 17

/-- For each page: bit 17 of its first word has changed, and there is a record to see it by, exactly if
bit 17 of its address has changed; or it makes no difference, since the halves of the page are the
same. -/
def WordsTell (recorded : Bool) (n : Nat) (phys phys' : Nat → BitVec 64) (put left : Nat → Page) :
    Prop :=
  ∀ i < n, ((recorded = true ∧ (put i).wordBit ≠ (left i).wordBit) ↔
      (phys i).getLsbD 17 ≠ (phys' i).getLsbD 17) ∨ (left i).exchanged = left i

end I915
