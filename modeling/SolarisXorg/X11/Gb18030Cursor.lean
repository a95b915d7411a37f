import SolarisXorg.X11.Gb18030Text

/-!
# The cursors of the charset converters (`lcGB18030.c`)

The other two converters to charset text: `gb18030_mbtocs` for one character, and `gb18030_wcstocs`
for wide characters. A converter keeps its cursors if the pointers move by what the counts are
lowered by; what the four of them read is a `Reading`, and a reading is stuck where a character
after the first pass is missing bytes or room.
-/

namespace X11

open Lib

/-! ## Converters -/

/-- `gb18030_mbtocs` -/
def gb18030Mbtocs (lcd : XLCd) (numArgs : Nat) (p : Ptr) (fromLeft toLeft : Int) : Converted :=
  let s := CsState.start fromLeft toLeft none
  if isgb18030_2 p then
    if lcd.codesetNum ≤ 1 then s.fail
    else
      let s := { s with charset := some lcd.cs1.charset }
      let charSize : Int := lcd.cs1.charset.charSize
      if 2 ≤ s.fromLeft ∧ charSize ≤ s.toLeft then
        (s.move 2 [p 0, p 1] charSize charSize).finish numArgs
      else s.fail
  else if isgb18030_4 p then
    if lcd.codesetNum ≤ 2 then s.fail
    else
      let s := { s with charset := some lcd.cs2.charset }
      let charSize : Int := lcd.cs2.charset.charSize
      if 4 ≤ s.fromLeft ∧ charSize ≤ s.toLeft then
        (s.move 4 (fourbyteToTwobyte p) 4 charSize).finish numArgs
      else s.fail
  else if isAscii (p 0) then
    if lcd.codesetNum ≤ 0 then s.fail
    else
      let s := { s with charset := some lcd.cs0.charset }
      let charSize : Int := lcd.cs0.charset.charSize
      if charSize ≤ s.fromLeft ∧ charSize ≤ s.toLeft then
        (s.move 1 [p 0] charSize charSize).finish numArgs
      else s.fail
  else ({ s with unconvNum := s.unconvNum + 1 }.move 1 [] 1 0).finish numArgs

section Wide

variable {W : Type*} (lcd : XLCd) (numArgs : Nat) (wctomb : W → Option (List UInt8)) (pwc : Nat → W)
  (tmp : Nat → Ptr)

/-- The array `tmp` of the `k`-th pass, which is new in every pass, after `wctomb`. -/
def wcBuffer (k : Nat) : Ptr :=
  match wctomb (pwc k) with
  | none => tmp k
  | some l => (tmp k).store l

/-- A pass of `gb18030_wcstocs`. -/
def wcstocsPass (s : CsState) : Pass CsState Converted :=
  let c := wcBuffer wctomb pwc tmp s.src
  if isgb18030_2 c then
    let s := { s with flag := if s.flag = 0 then 1 else s.flag }
    if s.flag = 2 ∨ s.flag = 3 then .leave (s.finish numArgs)
    else if lcd.codesetNum ≤ 1 then .leave s.fail
    else
      let s := { s with charset := some lcd.cs1.charset }
      let charSize : Int := lcd.cs1.charset.charSize
      if 0 < s.fromLeft ∧ charSize ≤ s.toLeft then
        (s.move 1 [c 0, c 1] 1 charSize).endPass numArgs
      else .leave s.fail
  else if isgb18030_4 c then
    let s := { s with flag := if s.flag = 0 then 2 else s.flag }
    if s.flag = 1 ∨ s.flag = 3 then .leave (s.finish numArgs)
    else if lcd.codesetNum ≤ 2 then .leave s.fail
    else
      let s := { s with charset := some lcd.cs2.charset }
      let charSize : Int := lcd.cs2.charset.charSize
      if 0 < s.fromLeft ∧ charSize ≤ s.toLeft then
        (s.move 1 (fourbyteToTwobyte c) 1 charSize).endPass numArgs
      else .leave s.fail
  else if isAscii (c 0) then
    let s := { s with flag := if s.flag = 0 then 3 else s.flag }
    if s.flag = 1 ∨ s.flag = 2 then .leave (s.finish numArgs)
    else if lcd.codesetNum ≤ 0 then .leave s.fail
    else
      let s := { s with charset := some lcd.cs0.charset }
      let charSize : Int := lcd.cs0.charset.charSize
      if 0 < s.fromLeft ∧ charSize ≤ s.toLeft then
        (s.move 1 [c 0] 1 charSize).endPass numArgs
      else .leave s.fail
  else ({ s with unconvNum := s.unconvNum + 1 }.move 1 [] 1 0).endPass numArgs

/-- `gb18030_wcstocs`; `charset` is what `args[0]` is at the call. -/
def gb18030Wcstocs (charset : Option XlcCharSet) (fromLeft toLeft : Int) : Option Converted :=
  loop (wcstocsPass lcd numArgs wctomb pwc tmp) (fromLeft.toNat + 1)
    (.start fromLeft toLeft charset)

end Wide

/-! ## What they read -/

/-- The pointers have moved by what the counts were lowered by. -/
structure Converted.Consistent (fromLeft toLeft : Int) (r : Converted) : Prop where
  source : (r.fromMoved : Int) = fromLeft - r.fromLeft
  target : (r.toMoved : Int) = toLeft - r.toLeft

/-- What a converter reads, pass by pass: a character of some length, or a byte of none; how much of
the source and of the target it takes; which characters make the converter fail when they find no
room; and whether characters of different lengths may follow each other. -/
structure Reading where
  kind : Nat → Option GbKind
  fromSize : Nat → Nat
  toSize : Nat → Nat
  fails : GbKind → Bool
  mixed : Bool

namespace Reading

/-- The sizes of the first `k` passes. -/
def sum (size : Nat → Nat) : Nat → Nat
  | 0 => 0
  | k + 1 => sum size k + size k

variable (R : Reading) (fromLeft toLeft : Int)

/-- Up to the `k`-th one, all characters are of one length. -/
def OneKind (k : Nat) : Prop :=
  ∀ i ≤ k, ∀ j ≤ k, ∀ a b, R.kind i = some a → R.kind j = some b → a = b

/-- There is source and target for the character of the `k`-th pass. -/
def Fits (k : Nat) : Prop :=
  (sum R.fromSize (k + 1) : Int) ≤ fromLeft ∧ (sum R.toSize (k + 1) : Int) ≤ toLeft

/-- The `k`-th pass is not the first one, the characters before it found their room, and its own
character does not. -/
structure StuckAt (k : Nat) : Prop where
  later : 0 < k
  reached : (sum R.fromSize k : Int) < fromLeft
  room : ∀ i < k, R.kind i ≠ none → (sum R.toSize (i + 1) : Int) ≤ toLeft
  kinds : R.mixed = true ∨ R.OneKind k
  short : ∃ a, R.kind k = some a ∧ R.fails a = true ∧ ¬ R.Fits fromLeft toLeft k

end Reading

/-- The length of what multibyte text begins with, by the tests of `gb18030_mbstocs`. -/
def mbKind (c : Ptr) : Option GbKind :=
  if isgb18030_2 c then some .two
  else if isgb18030_4 c then some .four
  else if isAscii (c 0) then some .ascii
  else none

/-- The same for charset text, by the tests of `gb18030_cstombs`. -/
def csKind (c : Ptr) : Option GbKind :=
  if isgb18030_2 c then some .two
  else if isAscii (c 0) then some .ascii
  else none

/-- Its size in multibyte text. -/
def mbSize : Option GbKind → Nat
  | none => 1
  | some .ascii => 1
  | some .two => 2
  | some .four => 4

/-- Its size in charset text, where a byte that cannot be converted has no place. -/
def csSize : Option GbKind → Nat
  | none => 0
  | some .ascii => 1
  | some .two => 2
  | some .four => 2

/-- Where the `k`-th character stands. -/
def unitOffset (kind : Ptr → Option GbKind) (p : Ptr) : Nat → Nat
  | 0 => 0
  | k + 1 => unitOffset kind p k + mbSize (kind (p.plus (unitOffset kind p k)))

/-- What `gb18030_mbstocs` reads. -/
def mbstocsReading (p : Ptr) : Reading where
  kind k := mbKind (p.plus (unitOffset mbKind p k))
  fromSize k := mbSize (mbKind (p.plus (unitOffset mbKind p k)))
  toSize k := csSize (mbKind (p.plus (unitOffset mbKind p k)))
  fails a := a ≠ .ascii
  mixed := false

/-- What `gb18030_wcstocs` reads. -/
def wcstocsReading {W : Type*} (wctomb : W → Option (List UInt8)) (pwc : Nat → W)
    (tmp : Nat → Ptr) : Reading where
  kind k := mbKind (wcBuffer wctomb pwc tmp k)
  fromSize _ := 1
  toSize k := csSize (mbKind (wcBuffer wctomb pwc tmp k))
  fails _ := true
  mixed := false

/-- What `gb18030_cstombs` reads, unless the codeset is that of four-byte characters. -/
def cstombsReading (p : Ptr) : Reading where
  kind k := csKind (p.plus (unitOffset csKind p k))
  fromSize k := mbSize (csKind (p.plus (unitOffset csKind p k)))
  toSize k := csSize (csKind (p.plus (unitOffset csKind p k)))
  fails _ := true
  mixed := true

/-- `gb18030_cstombs` does not get stuck; with the codeset of four-byte characters it must not
convert any. -/
def CstombsKeeps (lcd : XLCd) (charset : XlcCharSet) (p : Ptr) (fromLeft toLeft : Int) : Prop :=
  ∀ codeset, getCodeSetFromCharset lcd charset = some codeset →
    if codeset.wcEncoding = 0x5e84 then ¬ (2 ≤ fromLeft ∧ 4 ≤ toLeft)
    else ∀ k, ¬ (cstombsReading p).StuckAt fromLeft toLeft k

end X11
