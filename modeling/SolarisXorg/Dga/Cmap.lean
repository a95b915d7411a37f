import Mathlib.Algebra.Group.Int.Defs
import Mathlib.Data.Set.Defs
import SolarisXorg.Lib.Block

/-!
# Grabbed colormaps (`cmap_grab.c`)

A grabbed colormap is in memory that the server shares with its clients: three planes of `short`s
and an array of change flags behind the structure, at `cm_shadowofs`. `dga_cm_put` and
`dga_cm_write` store a range of entries there and widen the range of the entries that are valid;
`dga_cm_get` loads a range. They hold the lock of the colormap, so the calls of all clients come one
after the other.

The shadow is memory that is checked: a call has no result where it loads or stores outside of the
planes or of the flags, or past the end of one of its arrays.
-/

namespace Dga.Cmap

open Lib

/-! ## The shared colormap -/

/-- `Grabbedcmap`, with the planes and flags of the shadow. -/
structure Grabbedcmap where
  cmCount : Int32
  cmInstalled : Bool
  cmReallen : Int32
  cmStart : Int32
  cmLen : Int32
  cmCmapnum : Int32
  cmIoctlbits : Int32
  cmShadowofs : Int64
  planes : List Int16
  flags : List UInt8

/-- `filelen`, which is as much of the file as `dga_cm_grab` maps. -/
def Grabbedcmap.filelen (m : Grabbedcmap) : Int32 :=
  m.cmShadowofs.toInt32 + 3 * m.cmReallen * 2 + 4 * m.cmReallen

/-- The shadow has a plane for each colour and a flag for each entry, all of them in the memory that
is mapped. -/
structure Grabbedcmap.Mapped (m : Grabbedcmap) : Prop where
  reallen : 0 ≤ m.cmReallen.toInt
  shadowofs : 0 ≤ m.cmShadowofs.toInt
  planes : m.planes.length = 3 * m.cmReallen.toInt
  flags : m.flags.length = m.cmReallen.toInt
  filelen : m.cmShadowofs.toInt + 7 * m.cmReallen.toInt ≤ m.filelen.toInt

/-- `struct dga_cmap` -/
structure Client where
  cChngcnt : Int32
  cmUseNewIoctl : Bool

/-- The arguments of a call. -/
structure CmArgs where
  index : Int32
  count : Int32
  red : List UInt8
  green : List UInt8
  blue : List UInt8

/-- The count, without the entries past the end of the colormap. -/
def clip (reallen index count : Int32) : Int32 :=
  if reallen < index + count then reallen - index else count

/-- An 8-bit value in 16 bits: `*ip | (*ip << 8)`, as a `short` -/
def stutter (v : UInt8) : Int16 := .ofNat (v.toNat ||| v.toNat <<< 8)

/-- `*ip++ >> 8`, as a `u_char` -/
def narrow (x : Int16) : UInt8 := (x >>> 8).toInt8.toUInt8

/-- The loop for a plane, whose first entry is at `pos`. -/
def storePlane (planes : List Int16) (pos : Int) (count : Nat) (values : List UInt8) :
    Option (List Int16) :=
  if count ≤ values.length then storeEach planes pos ((values.take count).map stutter) else none

/-- The loops for the planes: `shadow += index`, and `shadow += infop->cm_reallen` twice. -/
def storePlanes (m : Grabbedcmap) (count : Nat) (a : CmArgs) : Option (List Int16) := do
  let shadow := a.index.toInt
  let planes ← storePlane m.planes shadow count a.red
  let shadow := shadow + m.cmReallen.toInt
  let planes ← storePlane planes shadow count a.green
  let shadow := shadow + m.cmReallen.toInt
  storePlane planes shadow count a.blue

/-- The loop for the flags. `fp` is at `3 * infop->cm_reallen * sizeof(short) + index` bytes, and
the flags are behind the planes. -/
def storeFlags (m : Grabbedcmap) (count : Nat) (a : CmArgs) : Option (List UInt8) :=
  let fp := (3 * m.cmReallen).toInt * 2 + a.index.toInt
  storeEach m.flags (fp - 2 * m.planes.length) (List.replicate count 1)

/-- The range of valid entries, widened by `count` entries from `index` on. -/
def widen (m : Grabbedcmap) (index count : Int32) : Grabbedcmap :=
  let m := if index < m.cmStart then { m with cmStart := index } else m
  if m.cmStart + m.cmLen < index + count then { m with cmLen := index + count - m.cmStart } else m

/-- What both writers do to the shadow, with a count that is positive. -/
def writeShadow (m : Grabbedcmap) (count : Int32) (a : CmArgs) : Option Grabbedcmap := do
  let m := widen m a.index count
  let planes ← storePlanes m count.toInt.toNat a
  let m := { m with planes := planes }
  let flags ← storeFlags m count.toInt.toNat a
  some { m with flags := flags }

/-- `++infop->cm_count` -/
def bump (m : Grabbedcmap) : Grabbedcmap := { m with cmCount := m.cmCount + 1 }

/-- How the colours are posted to the hardware. -/
inductive Post where
  /-- `FB_CLUTPOST` -/
  | clutpost (cmapnum index count : Int32)
  /-- `FBIOPUTCMAP` -/
  | putcmap (index count : Int32)
  /-- the client's `putfunc` -/
  | putfunc (index count : Int32)

/-- The `switch` on `cm_load_method`, where all cases are one: `FB_CLUTPOST` is tried until it has
failed once. This is the code that is compiled where neither `SUNWINDOWS` nor `FBIOPUTCMAPI` is
defined; with the latter, `FBIOPUTCMAPI` is tried before `FB_CLUTPOST`. -/
def postCmap (c : Client) (m : Grabbedcmap) (index count : Int32) (clutpostOk : Bool) :
    Client × List Post :=
  let putcmap := Post.putcmap (m.cmIoctlbits ||| index) count
  if c.cmUseNewIoctl then
    let clutpost := Post.clutpost m.cmCmapnum index count
    if clutpostOk then (c, [clutpost])
    else ({ c with cmUseNewIoctl := false }, [clutpost, putcmap])
  else (c, [putcmap])

/-- `dga_cm_put`; `clutpostOk` is whether `FB_CLUTPOST` succeeds. -/
def dgaCmPut (clutpostOk : Bool) (c : Client) (m : Grabbedcmap) (a : CmArgs) :
    Option (Client × Grabbedcmap × List Post) :=
  let count := clip m.cmReallen a.index a.count
  if 0 < count then
    (writeShadow m count a).map fun m =>
      let (c, posts) := if m.cmInstalled then postCmap c m a.index count clutpostOk else (c, [])
      let m := bump m
      ({ c with cChngcnt := m.cmCount }, m, posts)
  else some (c, m, [])

/-- `dga_cm_write` -/
def dgaCmWrite (c : Client) (m : Grabbedcmap) (a : CmArgs) :
    Option (Client × Grabbedcmap × List Post) :=
  let count := clip m.cmReallen a.index a.count
  if 0 < count then
    (writeShadow m count a).map fun m =>
      let posts := if m.cmInstalled then [Post.putfunc a.index count] else []
      let m := bump m
      ({ c with cChngcnt := m.cmCount }, m, posts)
  else some (c, m, [])

/-- `dga_cm_get` and `dga_cm_read`: what is stored in the arrays of the client. -/
def dgaCmGet (m : Grabbedcmap) (index count : Int32) :
    Option (List UInt8 × List UInt8 × List UInt8) := do
  let count := clip m.cmReallen index count
  if 0 < count then
    let n := count.toInt.toNat
    let shadow := index.toInt
    let red ← loadEach m.planes shadow n
    let shadow := shadow + m.cmReallen.toInt
    let green ← loadEach m.planes shadow n
    let shadow := shadow + m.cmReallen.toInt
    let blue ← loadEach m.planes shadow n
    some (red.map narrow, green.map narrow, blue.map narrow)
  else some ([], [], [])

/-! ## Calls -/

/-- `index` is not negative, `index + count` is an `int`, and there are as many values as are to be
written. -/
structure CmArgs.Valid (a : CmArgs) : Prop where
  index : 0 ≤ a.index.toInt
  fits : a.index.toInt + a.count.toInt < 2 ^ 31
  red : a.count.toInt ≤ a.red.length
  green : a.count.toInt ≤ a.green.length
  blue : a.count.toInt ≤ a.blue.length

/-- A call of one of the clients. -/
inductive Call where
  | put (clutpostOk : Bool) (c : Client) (a : CmArgs)
  | write (c : Client) (a : CmArgs)

def Call.args : Call → CmArgs
  | put _ _ a | write _ a => a

/-- What a call makes of the shared colormap. -/
def Call.apply (m : Grabbedcmap) : Call → Option Grabbedcmap
  | put clutpostOk c a => (dgaCmPut clutpostOk c m a).map fun r => r.2.1
  | write c a => (dgaCmWrite c m a).map fun r => r.2.1

/-! ## The range of valid entries -/

/-- The range is one of entries of the colormap. -/
structure Grabbedcmap.Ranged (m : Grabbedcmap) : Prop where
  start : 0 ≤ m.cmStart.toInt
  len : 0 ≤ m.cmLen.toInt
  stop : m.cmStart.toInt + m.cmLen.toInt ≤ m.cmReallen.toInt

/-- The entries from `lo` up to `hi`. -/
def interval (lo hi : Int) : Set Int := {e | lo ≤ e ∧ e < hi}

/-- The entries that are valid. -/
def Grabbedcmap.valid (m : Grabbedcmap) : Set Int :=
  interval m.cmStart.toInt (m.cmStart.toInt + m.cmLen.toInt)

/-- The entries that a call writes. -/
def Grabbedcmap.written (m : Grabbedcmap) (a : CmArgs) : Set Int :=
  interval a.index.toInt (a.index.toInt + (clip m.cmReallen a.index a.count).toInt)

/-- A call, with the colormap before and after it. -/
structure CallMade where
  before : Grabbedcmap
  call : Call
  after : Grabbedcmap

/-- The valid entries are the smallest interval with those that were valid and those written, and
entries of the colormap. -/
structure CallMade.Widens (l : CallMade) : Prop where
  kept : l.before.valid ⊆ l.after.valid
  added : l.before.written l.call.args ⊆ l.after.valid
  least : ∀ lo hi, l.before.valid ⊆ interval lo hi →
    l.before.written l.call.args ⊆ interval lo hi → l.after.valid ⊆ interval lo hi
  inside : l.after.valid ⊆ interval 0 l.before.cmReallen.toInt

/-- Nothing is written; or nothing was valid, and the call does not write behind the start of the
range; or it does not write before the start, or up to the end of the range. -/
def CallMade.StartOrEnd (l : CallMade) : Prop :=
  let m := l.before
  let index := l.call.args.index.toInt
  let count := (clip m.cmReallen l.call.args.index l.call.args.count).toInt
  count ≤ 0 ∨ (m.cmLen = 0 ∧ index ≤ m.cmStart.toInt) ∨
    m.cmLen ≠ 0 ∧
      (m.cmStart.toInt ≤ index ∨ m.cmStart.toInt + m.cmLen.toInt ≤ index + count)

/-- A call on the shared colormap. -/
def CallStep (m : Grabbedcmap) (l : CallMade) (m' : Grabbedcmap) : Prop :=
  l.call.args.Valid ∧ l.before = m ∧ l.after = m' ∧ l.call.apply m = some m'

/-! ## The colours -/

/-- A colour with 8 bits each. -/
structure Rgb where
  red : UInt8
  green : UInt8
  blue : UInt8
  deriving DecidableEq

/-- A call writes an entry. -/
def CmArgs.Covers (reallen : Int32) (a : CmArgs) (e : Nat) : Prop :=
  a.index.toInt ≤ e ∧ e < a.index.toInt + a.count.toInt ∧ e < reallen.toInt

instance (reallen : Int32) (a : CmArgs) (e : Nat) : Decidable (a.Covers reallen e) :=
  inferInstanceAs (Decidable (_ ∧ _ ∧ _))

/-- The colour that a call has for an entry. -/
def CmArgs.color (a : CmArgs) (e : Nat) : Rgb where
  red := a.red.getD (e - a.index.toInt).toNat 0
  green := a.green.getD (e - a.index.toInt).toNat 0
  blue := a.blue.getD (e - a.index.toInt).toNat 0

/-- The colour last written to an entry. -/
def lastWritten (reallen : Int32) (calls : List Call) (e : Nat) : Option Rgb :=
  (calls.reverse.find? fun k => k.args.Covers reallen e).map fun k => k.args.color e

/-- The entries that a call of `dga_cm_get` reads. -/
def entries (reallen index count : Int32) : List Nat :=
  List.range' index.toInt.toNat (clip reallen index count).toInt.toNat

/-- The colour of an entry. -/
def Grabbedcmap.colorAt (m : Grabbedcmap) (e : Nat) : Rgb where
  red := narrow (m.planes.getD e 0)
  green := narrow (m.planes.getD (m.cmReallen.toInt.toNat + e) 0)
  blue := narrow (m.planes.getD (2 * m.cmReallen.toInt.toNat + e) 0)

end Dga.Cmap
