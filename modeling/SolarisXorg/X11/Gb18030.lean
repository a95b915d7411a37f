import SolarisXorg.Lib.Loop

/-!
# GB18030 characters and charsets (`lcGB18030.c`)

The locale module converts between multibyte text, the text of one charset and compound text. Here
are the character ranges, the packing of four-byte characters into two bytes, and the converters
`gb18030_mbstocs` and `gb18030_cstombs` between multibyte and charset text.

A pointer is the memory from it on, so that a read past the end of the text finds whatever is there.
What a converter stores is a list, and cursors are offsets from where they were at the call.
-/

namespace X11

open Lib

/-- Memory from a pointer on. -/
abbrev Ptr := Nat → UInt8

/-- `p + i` -/
def Ptr.plus (p : Ptr) (i : Nat) : Ptr := fun k => p (i + k)

/-- A buffer that starts with the bytes `l`. -/
def Ptr.store (p : Ptr) (l : List UInt8) : Ptr := fun k => l.getD k (p k)

/-! ## Characters -/

/-- `ISASCII` -/
def isAscii (ch : UInt8) : Bool := ch ≤ 0x7f

/-- In GB2312 range or not. -/
def isgb (s : Ptr) : Bool := 0xa1 ≤ s 0 && s 0 ≤ 0xfe && 0xa1 ≤ s 1 && s 1 ≤ 0xfe

/-- In GB18030 2 bytes range or not. -/
def isgb18030_2 (s : Ptr) : Bool :=
  0x81 ≤ s 0 && s 0 ≤ 0xfe && ((0x40 ≤ s 1 && s 1 ≤ 0x7e) || (0x80 ≤ s 1 && s 1 ≤ 0xfe))

/-- In GB18030 4 bytes range or not. -/
def isgb18030_4 (s : Ptr) : Bool :=
  0x81 ≤ s 0 && s 0 ≤ 0xfe && 0x30 ≤ s 1 && s 1 ≤ 0x39 &&
    0x81 ≤ s 2 && s 2 ≤ 0xfe && 0x30 ≤ s 3 && s 3 ≤ 0x39

/-- `fourbyte_to_twobyte` -/
def fourbyteToTwobyte (s : Ptr) : List UInt8 :=
  let tmp : Int := 12600 * ((s 0).toNat - 0x81) + 1260 * ((s 1).toNat - 0x30) +
    10 * ((s 2).toNat - 0x81) + ((s 3).toNat - 0x30)
  [.ofNat (tmp / 256 % 256).toNat, .ofNat (tmp % 256).toNat]

/-- `twobyte_to_fourbyte` -/
def twobyteToFourbyte (s : Ptr) : List UInt8 :=
  let tmp := (s 0).toNat * 256 + (s 1).toNat
  [.ofNat (0x81 + tmp / 10 / 126 / 10), .ofNat (0x30 + tmp / 10 / 126 % 10),
    .ofNat (0x81 + tmp / 10 % 126), .ofNat (0x30 + tmp % 10)]

/-! ## Charsets -/

/-- A charset record; `addr` tells records apart. -/
structure XlcCharSet where
  addr : Nat
  charSize : Nat
  deriving DecidableEq, Repr

/-- A codeset, with the charsets of its `charset_list`. -/
structure CodeSet where
  charset : XlcCharSet
  others : List XlcCharSet
  wcEncoding : Nat
  deriving DecidableEq, Repr

/-- `charset_list` -/
def CodeSet.charsetList (c : CodeSet) : List XlcCharSet := c.charset :: c.others

/-- `codeset_list` and `codeset_num` of a locale. -/
structure XLCd where
  codesetNum : Nat
  codesets : Nat → CodeSet

namespace XLCd

/-- Codeset 0 - 7-bit ASCII -/
def cs0 (lcd : XLCd) : CodeSet := lcd.codesets 2

/-- Codeset 1 - gb18030.2000-0 -/
def cs1 (lcd : XLCd) : CodeSet := lcd.codesets 0

/-- Codeset 2 - gb18030.2000-1 -/
def cs2 (lcd : XLCd) : CodeSet := lcd.codesets 1

/-- The codesets as `XLC_XLOCALE` of the locale has them. -/
structure Gb18030Layout (lcd : XLCd) : Prop where
  codesetNum : lcd.codesetNum = 3
  charSize0 : lcd.cs0.charset.charSize = 1
  charSize1 : lcd.cs1.charset.charSize = 2
  charSize2 : lcd.cs2.charset.charSize = 2
  wcEncoding0 : lcd.cs0.wcEncoding ≠ 0x5e84
  wcEncoding1 : lcd.cs1.wcEncoding ≠ 0x5e84
  wcEncoding2 : lcd.cs2.wcEncoding = 0x5e84
  /-- no codeset lists the charset of another one before it -/
  apart1 : lcd.cs2.charset ∉ lcd.cs1.charsetList
  apart2 : lcd.cs0.charset ∉ lcd.cs1.charsetList ∧ lcd.cs0.charset ∉ lcd.cs2.charsetList

end XLCd

/-- `get_code_set_from_charset` -/
def getCodeSetFromCharset (lcd : XLCd) (charset : XlcCharSet) : Option CodeSet :=
  ((List.range lcd.codesetNum).map lcd.codesets).find? fun c => charset ∈ c.charsetList

/-! ## Converters -/

/-- What a converter leaves behind: its value, the bytes stored at the old `*to`, how far `*from`
and `*to` have moved, the counts left, and what was stored through `args[0]`. -/
structure Converted where
  ret : Int
  written : List UInt8
  fromMoved : Nat
  toMoved : Nat
  fromLeft : Int
  toLeft : Int
  args0 : Option (Option XlcCharSet)
  deriving DecidableEq, Repr

/-- The variables of the loops in `gb18030_mbstocs` and `gb18030_cstombs`. -/
structure CsState where
  src : Nat
  dst : List UInt8
  fromLeft : Int
  toLeft : Int
  unconvNum : Nat
  flag : Nat
  charset : Option XlcCharSet
  deriving DecidableEq, Repr

namespace CsState

/-- The variables before the first pass. -/
def start (fromLeft toLeft : Int) (charset : Option XlcCharSet) : CsState where
  src := 0
  dst := []
  fromLeft := fromLeft
  toLeft := toLeft
  unconvNum := 0
  flag := 0
  charset := charset

/-- `return -1`: the counts have been lowered, the pointers have not been moved. -/
def fail (s : CsState) : Converted where
  ret := -1
  written := s.dst
  fromMoved := 0
  toMoved := 0
  fromLeft := s.fromLeft
  toLeft := s.toLeft
  args0 := none

/-- What stands after the loop. -/
def finish (numArgs : Nat) (s : CsState) : Converted where
  ret := s.unconvNum
  written := s.dst
  fromMoved := s.src
  toMoved := s.dst.length
  fromLeft := s.fromLeft
  toLeft := s.toLeft
  args0 := if 0 < numArgs then some s.charset else none

/-- The end of a pass: `if (*from_left <= 0) break;` -/
def endPass (numArgs : Nat) (s : CsState) : Pass CsState Converted :=
  if s.fromLeft ≤ 0 then .leave (s.finish numArgs) else .next s

/-- Read `n` bytes, store `l`. -/
def move (s : CsState) (n : Nat) (l : List UInt8) (fromSize toSize : Int) : CsState :=
  { s with
    src := s.src + n
    dst := s.dst ++ l
    fromLeft := s.fromLeft - fromSize
    toLeft := s.toLeft - toSize }

end CsState

/-- A pass of `gb18030_mbstocs`. -/
def mbstocsPass (lcd : XLCd) (numArgs : Nat) (p : Ptr) (s : CsState) : Pass CsState Converted :=
  let src := p.plus s.src
  if isgb18030_2 src then
    let s := { s with flag := if s.flag = 0 then 1 else s.flag }
    if s.flag = 3 ∨ s.flag = 2 then .leave (s.finish numArgs)
    else if lcd.codesetNum ≤ 1 then .leave s.fail
    else
      let s := { s with charset := some lcd.cs1.charset }
      let charSize : Int := lcd.cs1.charset.charSize
      if charSize ≤ s.fromLeft ∧ charSize ≤ s.toLeft then
        (s.move 2 [src 0, src 1] charSize charSize).endPass numArgs
      else .leave s.fail
  else if isgb18030_4 src then
    let s := { s with flag := if s.flag = 0 then 2 else s.flag }
    if s.flag = 3 ∨ s.flag = 1 then .leave (s.finish numArgs)
    else if lcd.codesetNum ≤ 2 then .leave s.fail
    else
      let s := { s with charset := some lcd.cs2.charset }
      let charSize : Int := lcd.cs2.charset.charSize
      if 4 ≤ s.fromLeft ∧ charSize ≤ s.toLeft then
        (s.move 4 (fourbyteToTwobyte src) 4 charSize).endPass numArgs
      else .leave s.fail
  else if isAscii (src 0) then
    let s := { s with flag := if s.flag = 0 then 3 else s.flag }
    if s.flag = 1 ∨ s.flag = 2 then .leave (s.finish numArgs)
    else if lcd.codesetNum ≤ 0 then .leave s.fail
    else
      let s := { s with charset := some lcd.cs0.charset }
      let charSize : Int := lcd.cs0.charset.charSize
      if charSize ≤ s.fromLeft ∧ charSize ≤ s.toLeft then
        (s.move 1 [src 0] charSize charSize).endPass numArgs
      -- unlike the other two, this branch breaks
      else .leave (s.finish numArgs)
  else
    ({ s with unconvNum := s.unconvNum + 1 }.move 1 [] 1 0).endPass numArgs

/-- `gb18030_mbstocs`. Every pass lowers `*from_left`, unless a charset's `char_size` is 0. -/
def gb18030Mbstocs (lcd : XLCd) (numArgs : Nat) (p : Ptr) (fromLeft toLeft : Int) :
    Option Converted :=
  loop (mbstocsPass lcd numArgs p) (fromLeft.toNat + 1) (.start fromLeft toLeft none)

/-- A pass of `gb18030_cstombs`. -/
def cstombsPass (codeset : CodeSet) (numArgs : Nat) (p : Ptr) (s : CsState) :
    Pass CsState Converted :=
  let src := p.plus s.src
  if codeset.wcEncoding = 0x5e84 then
    if 2 ≤ s.fromLeft ∧ 4 ≤ s.toLeft then
      -- the branch stores a character and leaves `src` where it is
      (s.move 0 (twobyteToFourbyte src) 2 4).endPass numArgs
    else .leave s.fail
  else if isgb18030_2 src then
    if 2 ≤ s.fromLeft ∧ 2 ≤ s.toLeft then
      (s.move 2 [src 0, src 1] 2 2).endPass numArgs
    else .leave s.fail
  else if isAscii (src 0) then
    if 1 ≤ s.fromLeft ∧ 1 ≤ s.toLeft then
      (s.move 1 [src 0] 1 1).endPass numArgs
    else .leave s.fail
  else
    ({ s with unconvNum := s.unconvNum + 1 }.move 1 [] 1 0).endPass numArgs

/-- `gb18030_cstombs` -/
def gb18030Cstombs (lcd : XLCd) (numArgs : Nat) (charset : XlcCharSet) (p : Ptr)
    (fromLeft toLeft : Int) : Option Converted :=
  let s := CsState.start fromLeft toLeft (some charset)
  match getCodeSetFromCharset lcd charset with
  | none => some s.fail
  | some codeset => loop (cstombsPass codeset numArgs p) (fromLeft.toNat + 1) s

end X11
