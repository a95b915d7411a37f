import Mathlib.Tactic.Linarith
import SolarisXorg.Lib.CStr

/-!
# Packed gamma tables (`gfx_gamma_pack.c`)

`gfx_pack_gamma_string_16` turns a table of 16-bit gamma values into a string for the
configuration file: a header, the number of entries, and the second differences of the table.
Differences are packed one at a time (`pack_gam_int`) until four in a row are in `{-1, 0, 1}`; from
there on a character stands for four, two or one of them (`pack_tiny_bytes`) until a character that
ends the group. `gfx_unpack_gamma_string_16` is the way back.

A C string is the list of its characters before the terminating NUL. An `int` is an `Int`: the
values are differences of 16-bit values and offsets into the string, none of them near 2 ^ 31.
-/

namespace Gfx

open Lib

/-! ## Groups of values in `{-1, 0, 1}` -/

/-- `ascii_to_four_ddel` -/
structure AsciiToFourDdel where
  /-- Packed ASCII character. -/
  ascii : UInt8
  /-- Number of values in the sequence. -/
  len : Nat
  /-- Does this terminate a sequence. -/
  term : Bool
  /-- Up to 4 packed values. -/
  val : List Int

/-- `DeltaTableMin` -/
def deltaTableMin : UInt8 := 0x21

/-- `DeltaTableMax` -/
def deltaTableMax : UInt8 := 0x7e

/-- `DeltaTableBase_4X` -/
def deltaTableBase4X : Nat := 0x21

/-- `DeltaTableBase_2X` -/
def deltaTableBase2X : Nat := 0x72

/-- `DeltaTableBase_1X` -/
def deltaTableBase1X : Nat := 0x7b

/-- `DeltaTableBase_0X` -/
def deltaTableBase0X : UInt8 := 0x7e

/-- The conversion table from packed characters to values. -/
def deltaTable : List AsciiToFourDdel := [
    ⟨0x21, 4, false, [-1, -1, -1, -1]⟩, ⟨0x22, 4, false, [-1, -1, -1, 0]⟩,
    ⟨0x23, 4, false, [-1, -1, -1, 1]⟩, ⟨0x24, 4, false, [-1, -1, 0, -1]⟩,
    ⟨0x25, 4, false, [-1, -1, 0, 0]⟩, ⟨0x26, 4, false, [-1, -1, 0, 1]⟩,
    ⟨0x27, 4, false, [-1, -1, 1, -1]⟩, ⟨0x28, 4, false, [-1, -1, 1, 0]⟩,
    ⟨0x29, 4, false, [-1, -1, 1, 1]⟩, ⟨0x2a, 4, false, [-1, 0, -1, -1]⟩,
    ⟨0x2b, 4, false, [-1, 0, -1, 0]⟩, ⟨0x2c, 4, false, [-1, 0, -1, 1]⟩,
    ⟨0x2d, 4, false, [-1, 0, 0, -1]⟩, ⟨0x2e, 4, false, [-1, 0, 0, 0]⟩,
    ⟨0x2f, 4, false, [-1, 0, 0, 1]⟩, ⟨0x30, 4, false, [-1, 0, 1, -1]⟩,
    ⟨0x31, 4, false, [-1, 0, 1, 0]⟩, ⟨0x32, 4, false, [-1, 0, 1, 1]⟩,
    ⟨0x33, 4, false, [-1, 1, -1, -1]⟩, ⟨0x34, 4, false, [-1, 1, -1, 0]⟩,
    ⟨0x35, 4, false, [-1, 1, -1, 1]⟩, ⟨0x36, 4, false, [-1, 1, 0, -1]⟩,
    ⟨0x37, 4, false, [-1, 1, 0, 0]⟩, ⟨0x38, 4, false, [-1, 1, 0, 1]⟩,
    ⟨0x39, 4, false, [-1, 1, 1, -1]⟩, ⟨0x3a, 4, false, [-1, 1, 1, 0]⟩,
    ⟨0x3b, 4, false, [-1, 1, 1, 1]⟩, ⟨0x3c, 4, false, [0, -1, -1, -1]⟩,
    ⟨0x3d, 4, false, [0, -1, -1, 0]⟩, ⟨0x3e, 4, false, [0, -1, -1, 1]⟩,
    ⟨0x3f, 4, false, [0, -1, 0, -1]⟩, ⟨0x40, 4, false, [0, -1, 0, 0]⟩,
    ⟨0x41, 4, false, [0, -1, 0, 1]⟩, ⟨0x42, 4, false, [0, -1, 1, -1]⟩,
    ⟨0x43, 4, false, [0, -1, 1, 0]⟩, ⟨0x44, 4, false, [0, -1, 1, 1]⟩,
    ⟨0x45, 4, false, [0, 0, -1, -1]⟩, ⟨0x46, 4, false, [0, 0, -1, 0]⟩,
    ⟨0x47, 4, false, [0, 0, -1, 1]⟩, ⟨0x48, 4, false, [0, 0, 0, -1]⟩,
    ⟨0x49, 4, false, [0, 0, 0, 0]⟩, ⟨0x4a, 4, false, [0, 0, 0, 1]⟩,
    ⟨0x4b, 4, false, [0, 0, 1, -1]⟩, ⟨0x4c, 4, false, [0, 0, 1, 0]⟩,
    ⟨0x4d, 4, false, [0, 0, 1, 1]⟩, ⟨0x4e, 4, false, [0, 1, -1, -1]⟩,
    ⟨0x4f, 4, false, [0, 1, -1, 0]⟩, ⟨0x50, 4, false, [0, 1, -1, 1]⟩,
    ⟨0x51, 4, false, [0, 1, 0, -1]⟩, ⟨0x52, 4, false, [0, 1, 0, 0]⟩,
    ⟨0x53, 4, false, [0, 1, 0, 1]⟩, ⟨0x54, 4, false, [0, 1, 1, -1]⟩,
    ⟨0x55, 4, false, [0, 1, 1, 0]⟩, ⟨0x56, 4, false, [0, 1, 1, 1]⟩,
    ⟨0x57, 4, false, [1, -1, -1, -1]⟩, ⟨0x58, 4, false, [1, -1, -1, 0]⟩,
    ⟨0x59, 4, false, [1, -1, -1, 1]⟩, ⟨0x5a, 4, false, [1, -1, 0, -1]⟩,
    ⟨0x5b, 4, false, [1, -1, 0, 0]⟩, ⟨0x5c, 4, false, [1, -1, 0, 1]⟩,
    ⟨0x5d, 4, false, [1, -1, 1, -1]⟩, ⟨0x5e, 4, false, [1, -1, 1, 0]⟩,
    ⟨0x5f, 4, false, [1, -1, 1, 1]⟩, ⟨0x60, 4, false, [1, 0, -1, -1]⟩,
    ⟨0x61, 4, false, [1, 0, -1, 0]⟩, ⟨0x62, 4, false, [1, 0, -1, 1]⟩,
    ⟨0x63, 4, false, [1, 0, 0, -1]⟩, ⟨0x64, 4, false, [1, 0, 0, 0]⟩,
    ⟨0x65, 4, false, [1, 0, 0, 1]⟩, ⟨0x66, 4, false, [1, 0, 1, -1]⟩,
    ⟨0x67, 4, false, [1, 0, 1, 0]⟩, ⟨0x68, 4, false, [1, 0, 1, 1]⟩,
    ⟨0x69, 4, false, [1, 1, -1, -1]⟩, ⟨0x6a, 4, false, [1, 1, -1, 0]⟩,
    ⟨0x6b, 4, false, [1, 1, -1, 1]⟩, ⟨0x6c, 4, false, [1, 1, 0, -1]⟩,
    ⟨0x6d, 4, false, [1, 1, 0, 0]⟩, ⟨0x6e, 4, false, [1, 1, 0, 1]⟩,
    ⟨0x6f, 4, false, [1, 1, 1, -1]⟩, ⟨0x70, 4, false, [1, 1, 1, 0]⟩,
    ⟨0x71, 4, false, [1, 1, 1, 1]⟩, ⟨0x72, 2, false, [-1, -1, 99, 99]⟩,
    ⟨0x73, 2, false, [-1, 0, 99, 99]⟩, ⟨0x74, 2, false, [-1, 1, 99, 99]⟩,
    ⟨0x75, 2, false, [0, -1, 99, 99]⟩, ⟨0x76, 2, false, [0, 0, 99, 99]⟩,
    ⟨0x77, 2, false, [0, 1, 99, 99]⟩, ⟨0x78, 2, false, [1, -1, 99, 99]⟩,
    ⟨0x79, 2, false, [1, 0, 99, 99]⟩, ⟨0x7a, 2, false, [1, 1, 99, 99]⟩,
    ⟨0x7b, 1, true, [-1, 99, 99, 99]⟩, ⟨0x7c, 1, true, [0, 99, 99, 99]⟩,
    ⟨0x7d, 1, true, [1, 99, 99, 99]⟩, ⟨0x7e, 0, true, [99, 99, 99, 99]⟩]

/-- The values a group can hold. -/
def isTiny (d : Int) : Bool := -1 ≤ d && d ≤ 1

/-- How many of the next four elements are in range. -/
def goodLen (data : List Int) (maxLen : Nat) : Nat :=
  ((data.take (min maxLen 4)).takeWhile isTiny).length

/-- How many values are packed of those in range: 3 end up as 2 and 1. -/
def packLen : Nat → Nat
  | 0 => 0
  | 1 => 1
  | 2 => 2
  | 3 => 2
  | _ => 4

/-- The first character of the codes for `packLen` values. -/
def baseByte : Nat → Nat
  | 1 => deltaTableBase1X
  | 2 => deltaTableBase2X
  | _ => deltaTableBase4X

/-- `pack_tiny_bytes`: the number of values packed, and the character stored. -/
def packTinyBytes (data : List Int) (maxLen : Int) : Int × Option UInt8 :=
  if maxLen < 0 then (-1, none)
  else
    match packLen (goodLen data maxLen.toNat) with
    | 0 => (0, some deltaTableBase0X)
    | n =>
      -- The elements in base 3, each biased from [-1, 1] to [0, 2].
      let packByte := (data.take n).foldl (fun b d => b * 3 + (d + 1).toNat) 0
      (n, some (.ofNat (packByte + baseByte n)))

/-- `unpack_tiny_bytes`: the values stored, whose number is returned. -/
def unpackTinyBytes (byte : UInt8) (maxLen : Nat) : List Int :=
  if byte < deltaTableMin then []
  else if deltaTableMax < byte then []
  else
    match deltaTable[(byte - deltaTableMin).toNat]? with
    | none => []
    | some entry => entry.val.take (min entry.len maxLen)

/-! ## One integer -/

/-- The characters integers are packed into: small positive and small negative values, and the low
digits of large ones. No character is in two of the strings, or twice in one. -/
structure IntTables where
  pos : List UInt8
  neg : List UInt8
  lsb : List UInt8
  pos_ne_nil : pos ≠ []
  neg_ne_nil : neg ≠ []
  lsb_ne_nil : lsb ≠ []
  nodup : (pos ++ neg ++ lsb).Nodup

/-- `gamma_tbl_int_pos`, `gamma_tbl_int_neg` and `gamma_tbl_int_lsb` -/
def gammaTblInt : IntTables where
  pos := chars "0123456789ABCDEFGHIJKLMNOPQRSTUVWXYZ:;?!@#$%^&,."
  neg := chars "abcdefghijklmnopqrstuvwxyz"
  lsb := chars "[]\x7b\x7d()<>'`+-/*=_"
  pos_ne_nil := by decide
  neg_ne_nil := by decide
  lsb_ne_nil := by decide
  nodup := by decide +kernel

/-- The more significant part of a positive value past the small ones. -/
theorem natAbs_msb_pos (tb : IntTables) {data : Int} (h : tb.pos.length ≤ data) :
    ((data - tb.pos.length).tdiv tb.lsb.length).natAbs < data.natAbs := by
  have hpos : 0 < tb.pos.length := List.length_pos_of_ne_nil tb.pos_ne_nil
  have hle := Int.natAbs_tdiv_le_natAbs (data - tb.pos.length) tb.lsb.length
  omega

/-- The more significant part of a negative value past the small ones. -/
theorem natAbs_msb_neg (tb : IntTables) {data : Int} (h : data < -tb.neg.length) :
    ((data - (-tb.neg.length - 1)).tdiv tb.lsb.length - 1).natAbs < data.natAbs := by
  have hneg : 0 < tb.neg.length := List.length_pos_of_ne_nil tb.neg_ne_nil
  have hle := Int.natAbs_tdiv_le_natAbs (data - (-tb.neg.length - 1)) tb.lsb.length
  omega

/-- `pack_int_core` -/
def packIntCore (tb : IntTables) (data : Int) : List UInt8 :=
  if 0 ≤ data then
    if data < tb.pos.length then [tb.pos.getD data.toNat 0]
    else
      let da2 := data - tb.pos.length
      let msb := da2.tdiv tb.lsb.length
      let lsb := da2 - msb * tb.lsb.length
      tb.lsb.getD lsb.toNat 0 :: packIntCore tb msb
  else if -tb.neg.length ≤ data then [tb.neg.getD (-data - 1).toNat 0]
  else
    let da2 := data - (-tb.neg.length - 1)
    let msb := da2.tdiv tb.lsb.length - 1
    let lsb := da2 - msb * tb.lsb.length - 1
    tb.lsb.getD lsb.toNat 0 :: packIntCore tb msb
termination_by data.natAbs
decreasing_by
  · exact natAbs_msb_pos tb (by omega)
  · exact natAbs_msb_neg tb (by omega)

/-- `unpack_int_core`: the number of characters consumed, and the value if one was stored. -/
def unpackIntCore (tb : IntTables) : List UInt8 → Nat × Option Int
  | [] => (0, none)
  | c :: str =>
    match tb.lsb.idxOf? c, tb.neg.idxOf? c, tb.pos.idxOf? c with
    | none, none, some valu => (1, some valu)
    | none, some valu, none => (1, some (-valu - 1))
    | some valu, none, none =>
      let (rc, msb) := unpackIntCore tb str
      (1 + rc, msb.map fun msb =>
        if 0 ≤ msb then msb * tb.lsb.length + (valu + tb.pos.length)
        else (msb - 1) * tb.lsb.length + (valu - tb.neg.length + tb.lsb.length))
    | _, _, _ => (0, none)

/-- `pack_gam_int` -/
def packGamInt (data : Int) : List UInt8 := packIntCore gammaTblInt data

/-- `unpack_gam_int` -/
def unpackGamInt (str : List UInt8) : Nat × Option Int := unpackIntCore gammaTblInt str

/-! ## Integer tables -/

/-- `PackTableStateType` -/
inductive PackTableState where
  | packSingle
  | packTinyGroup
  deriving DecidableEq, Repr

/-- `GammaIntStartPacked` -/
def gammaIntStartPacked : UInt8 := 0x7c

/-- Steps of the packing loop that leave the table where it is. -/
def packWeight (state : PackTableState) (tbl : List Int) : Nat :=
  match state with
  | .packSingle => if goodLen tbl tbl.length = 4 then 1 else 0
  | .packTinyGroup => if goodLen tbl tbl.length = 0 then 1 else 0

theorem goodLen_le (data : List Int) (maxLen : Nat) :
    goodLen data maxLen ≤ min maxLen 4 ∧ goodLen data maxLen ≤ data.length := by
  have h := (List.takeWhile_sublist isTiny (l := data.take (min maxLen 4))).length_le
  rw [List.length_take] at h
  unfold goodLen
  omega

theorem packLen_le (n : Nat) : packLen n ≤ n ∧ (packLen n = 0 ↔ n = 0) ∧
    (packLen n < 4 ↔ n < 4) := by
  match n with
  | 0 => decide
  | 1 => decide
  | 2 => decide
  | 3 => decide
  | n + 4 =>
    show 4 ≤ n + 4 ∧ (4 = 0 ↔ n + 4 = 0) ∧ (4 < 4 ↔ n + 4 < 4)
    omega

/-- The number of values packed. -/
theorem packTinyBytes_fst (data : List Int) (maxLen : Nat) :
    (packTinyBytes data maxLen).1 = packLen (goodLen data maxLen) := by
  unfold packTinyBytes
  rw [if_neg (by omega), Int.toNat_natCast]
  split
  · next h => rw [h]; rfl
  · rfl

/-- The state after a group character that stands for `pw` values. -/
def afterGroup (pw : Int) : PackTableState := if pw ≤ 1 then .packSingle else .packTinyGroup

theorem packWeight_le (state : PackTableState) (tbl : List Int) : packWeight state tbl ≤ 1 := by
  unfold packWeight
  split <;> split <;> omega

/-- A group character moves along the table, or ends the group before a value out of range. -/
theorem packMeasure_group {tbl : List Int} (h0 : tbl ≠ []) :
    let pw := (packTinyBytes tbl tbl.length).1
    2 * (tbl.drop pw.toNat).length + packWeight (afterGroup pw) (tbl.drop pw.toNat) <
      2 * tbl.length + packWeight .packTinyGroup tbl := by
  intro pw
  have hlen : 0 < tbl.length := List.length_pos_of_ne_nil h0
  have hgood := goodLen_le tbl tbl.length
  have hpack := packLen_le (goodLen tbl tbl.length)
  have hfst : pw = packLen (goodLen tbl tbl.length) := packTinyBytes_fst tbl tbl.length
  by_cases hzero : goodLen tbl tbl.length = 0
  · have hpw : pw = 0 := by
      rw [hfst, hzero]
      rfl
    simp [hpw, afterGroup, packWeight, hzero]
  · have hweight := packWeight_le (afterGroup pw) (tbl.drop pw.toNat)
    rw [List.length_drop]
    omega

/-- The loop of `pack_tbl_to_string` from `tbl + g`, with the characters stored so far and the
count of the last group tried: `none` where the function returns 0. -/
def packLoop (strLen : Int) (tbl : List Int) (state : PackTableState) (out : List UInt8)
    (pw : Int) : Option (List UInt8 × Int) :=
  if tbl = [] then some (out, pw)
  else if strLen ≤ out.length + 4 then none
  else
    let tiny := packTinyBytes tbl tbl.length
    match state with
    | .packSingle =>
      if tiny.1 < 4 then
        if strLen ≤ out.length + 8 then none
        else packLoop strLen tbl.tail .packSingle (out ++ packGamInt (tbl.headD 0)) tiny.1
      else if strLen ≤ out.length + 1 then none
      -- The table stays where it is: the group starts with the next round.
      else packLoop strLen tbl .packTinyGroup (out ++ [gammaIntStartPacked]) tiny.1
    | .packTinyGroup =>
      if 0 ≤ tiny.1 then
        packLoop strLen (tbl.drop tiny.1.toNat) (afterGroup tiny.1) (out ++ tiny.2.toList) tiny.1
      else none
termination_by 2 * tbl.length + packWeight state tbl
decreasing_by
  · have hlen : 0 < tbl.length := List.length_pos_of_ne_nil ‹¬tbl = []›
    have hweight := packWeight_le .packSingle tbl.tail
    rw [List.length_tail]
    omega
  · have hgood : goodLen tbl tbl.length = 4 := by
      have hlen := goodLen_le tbl tbl.length
      have hpack := packLen_le (goodLen tbl tbl.length)
      have hfst : tiny.1 = packLen (goodLen tbl tbl.length) := packTinyBytes_fst tbl tbl.length
      omega
    simp [packWeight, hgood]
  · exact packMeasure_group ‹¬tbl = []›

/-- `pack_tbl_to_string`: the characters stored, `none` where it returns 0 for want of room. -/
def packTblToString (strLen : Int) (tbl : List Int) : Option (List UInt8) :=
  match packLoop strLen tbl .packSingle [] 0 with
  | none => none
  | some (out, pw) =>
    -- A final terminator if the section ended at a boundary that's not one.
    if 2 ≤ pw then
      if strLen ≤ out.length + 1 then none
      else
        let out := out ++ (packTinyBytes [] 0).2.toList
        if strLen ≤ out.length + 1 then none else some out
    else if strLen ≤ out.length + 1 then none
    else some out

/-- `tbl[i], tbl[i + 1], ... = vals` -/
def storeAt (tbl : List Int) (i : Nat) (vals : List Int) : List Int :=
  tbl.take i ++ vals ++ tbl.drop (i + vals.length)

/-- The loop of `unpack_string_to_tbl` from `sp`: the value returned, and the table. -/
def unpackLoop (tblLen : Nat) (sp : List UInt8) (state : PackTableState) (tbl : List Int)
    (tcount : Nat) : Nat × List Int :=
  match sp with
  | [] => (tcount, tbl)
  | c :: str =>
    -- A zero length terminator at the end is ignored.
    if tblLen ≤ tcount ∧ c ≠ deltaTableBase0X then (0, tbl)
    else
      match state with
      | .packSingle =>
        if c = gammaIntStartPacked then unpackLoop tblLen str .packTinyGroup tbl tcount
        else
          let (ll, value) := unpackGamInt (c :: str)
          if ll = 0 then (0, tbl)
          else
            unpackLoop tblLen (str.drop (ll - 1)) .packSingle (storeAt tbl tcount value.toList)
              (tcount + 1)
      | .packTinyGroup =>
        let vals := unpackTinyBytes c (tblLen - tcount)
        unpackLoop tblLen str (if vals.length ≤ 1 then .packSingle else .packTinyGroup)
          (storeAt tbl tcount vals) (tcount + vals.length)
termination_by sp.length
decreasing_by
  · simp
  · simp only [List.length_drop, List.length_cons]
    omega
  · simp

/-- `unpack_string_to_tbl` -/
def unpackStringToTbl (packedString : List UInt8) (tbl : List Int) : Nat × List Int :=
  unpackLoop tbl.length packedString .packSingle tbl 0

/-! ## Gamma tables -/

/-- The string's header: packing type, major and minor revision. -/
def gammaHeader : List UInt8 := chars "G00"

/-- `pack_gamma_string`: the value returned, and the string if one was made. -/
def packGammaString (tbl : List Int) : Int × Option (List UInt8) :=
  let strAlloc : Int := tbl.length * 8 + 20
  let strData := gammaHeader ++ packGamInt tbl.length
  match packTblToString (strAlloc - strData.length) tbl with
  | none => (0, none)
  | some packed =>
    if packed.length = 0 then (0, none)
    -- `strdup` copies up to the first NUL.
    else (strData.length + packed.length, some ((strData ++ packed).takeWhile (· ≠ 0)))

/-- The second differences `gfx_pack_gamma_string_16` takes of the table. -/
def secondDiffs (lastVal lastDel : Int) : List UInt16 → List Int
  | [] => []
  | v :: gtData =>
    let currVal : Int := v.toNat
    let currDel := currVal - lastVal
    (currDel - lastDel) :: secondDiffs currVal currDel gtData

/-- `gfx_pack_gamma_string_16` -/
def gfxPackGammaString16 (gtData : List UInt16) : Int × Option (List UInt8) :=
  packGammaString (secondDiffs 0 0 gtData)

/-- The table `gfx_unpack_gamma_string_16` adds up from second differences. -/
def addUp (lastVal lastDel : Int) : List Int → List UInt16
  | [] => []
  | d :: ddel =>
    let currDel := d + lastDel
    let currVal := currDel + lastVal
    UInt16.ofInt currVal :: addUp currVal currDel ddel

/-- `gfx_unpack_gamma_string_16`: the value returned, and what was stored from `gt_data[0]` on.
`none` where the function reads what was never written: the number of entries after an unfinished
one, or a difference past the table. -/
def gfxUnpackGammaString16 (str : List UInt8) (maxEntries : Nat) : Option (Int × List UInt16) :=
  if str.take gammaHeader.length ≠ gammaHeader then some (-1, [])
  else
    match unpackGamInt (str.drop gammaHeader.length) with
    | (0, _) => some (0, [])
    | (_, none) => none
    | (rc, some strEntries) =>
      let ddel := List.replicate strEntries.toNat 0
      let (count, ddel) := unpackStringToTbl (str.drop (gammaHeader.length + rc)) ddel
      if ddel.length < maxEntries then none
      else some (count, addUp 0 0 (ddel.take maxEntries))

end Gfx
