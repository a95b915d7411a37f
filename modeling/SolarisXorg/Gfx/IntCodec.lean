import Mathlib.Algebra.Group.Int.Defs
import SolarisXorg.Gfx.GammaPack

/-!
# Packing any `int` (`gfx_gamma_pack.c`)

`pack_int_core` and `unpack_int_core` are for any tables and for values "as big as your compiler's
int range". In the wrappers for gamma tables the values are small, and `packIntCore` and
`unpackIntCore` compute with unbounded integers. Here the same functions have the `int`s they
compute checked: the result is `none` when one of them overflows. The lengths of the tables are
those of strings of different characters and fit.
-/

namespace Gfx

/-- The values of an `int`. -/
def IsInt (x : Int) : Prop := -2 ^ 31 ≤ x ∧ x < 2 ^ 31

instance : DecidablePred IsInt := fun x => inferInstanceAs (Decidable (-2 ^ 31 ≤ x ∧ x < 2 ^ 31))

/-- None of the values overflows. -/
def AreInts (xs : List Int) : Prop := ∀ x ∈ xs, IsInt x

instance : DecidablePred AreInts := fun xs => inferInstanceAs (Decidable (∀ x ∈ xs, IsInt x))

/-- `pack_int_core` -/
def packInt (tb : IntTables) (data : Int) : Option (List UInt8) :=
  if 0 ≤ data then
    if data < tb.pos.length then some [tb.pos.getD data.toNat 0]
    else
      let da2 := data - tb.pos.length
      let msb := da2.tdiv tb.lsb.length
      let lsb := da2 - msb * tb.lsb.length
      if AreInts [da2, msb, msb * tb.lsb.length, lsb] then
        (packInt tb msb).map (tb.lsb.getD lsb.toNat 0 :: ·)
      else none
  else if -tb.neg.length ≤ data then
    if AreInts [-data, -data - 1] then some [tb.neg.getD (-data - 1).toNat 0] else none
  else
    let da2 := data - (-tb.neg.length - 1)
    let msb := da2.tdiv tb.lsb.length - 1
    let lsb := da2 - msb * tb.lsb.length - 1
    if AreInts [da2, msb + 1, msb, msb * tb.lsb.length, lsb + 1, lsb] then
      (packInt tb msb).map (tb.lsb.getD lsb.toNat 0 :: ·)
    else none
termination_by data.natAbs
decreasing_by
  · exact natAbs_msb_pos tb (by omega)
  · exact natAbs_msb_neg tb (by omega)

/-- `*data` of a low digit `valu` and the more significant part. -/
def combine (tb : IntTables) (valu msb : Int) : Option Int :=
  if 0 ≤ msb then
    let lsb := valu + (tb.pos.length - 1) + 1
    if AreInts [lsb - 1, lsb, msb * tb.lsb.length, msb * tb.lsb.length + lsb] then
      some (msb * tb.lsb.length + lsb)
    else none
  else
    let lsb := valu + -tb.neg.length + tb.lsb.length
    if AreInts [valu + -tb.neg.length, lsb, msb - 1, (msb - 1) * tb.lsb.length,
        (msb - 1) * tb.lsb.length + lsb] then
      some ((msb - 1) * tb.lsb.length + lsb)
    else none

/-- `unpack_int_core`: the number of characters consumed, and the value if one was stored. -/
def unpackInt (tb : IntTables) : List UInt8 → Option (Nat × Option Int)
  | [] => some (0, none)
  | c :: str =>
    match tb.lsb.idxOf? c, tb.neg.idxOf? c, tb.pos.idxOf? c with
    | none, none, some valu => some (1, some valu)
    | none, some valu, none => some (1, some (-valu - 1))
    | some valu, none, none =>
      match unpackInt tb str with
      | none => none
      | some (rc, none) => some (1 + rc, none)
      | some (rc, some msb) => (combine tb valu msb).map fun data => (1 + rc, some data)
    | _, _, _ => some (0, none)

end Gfx
