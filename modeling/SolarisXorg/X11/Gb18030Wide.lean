import SolarisXorg.X11.Gb18030Units
import SolarisXorg.X11.Proof.Gb18030Char

/-!
# The converters to wide characters (`lcGB18030.c`)

`gb18030_cstowcs` and `gb18030_ctstowcs` convert to multibyte text in a block of their own, and let
`mbstowcs` make wide characters of it. The room they were given, counted in wide characters, is the
room for the multibyte text as well, counted in bytes. `csChars` are the characters of a charset's
text, whatever the converter makes of it.
-/

namespace X11

/-- `p[i] = b` -/
def Ptr.put (p : Ptr) (i : Nat) (b : UInt8) : Ptr := fun k => if k = i then b else p k

/-- What a converter to wide characters leaves behind: as for `Converted`, with the wide characters
at the old `*to`. -/
structure WideConverted (W : Type*) where
  ret : Int
  wide : List W
  fromMoved : Nat
  toMoved : Int
  fromLeft : Int
  toLeft : Int
  args0 : Option (Option XlcCharSet)

section

variable {W : Type*} (mbstowcs : Ptr → Nat → Int × List W) (outbuf : Ptr)

/-- What stands after the conversion to multibyte text. The pointer into the block has moved as
`*to` does, and is where the NUL goes. -/
def widen (toLeftSave : Int) (r : Converted) : WideConverted W :=
  let outbuf := (outbuf.store r.written).put r.toMoved 0
  let (rtn1, wide) := mbstowcs outbuf (toLeftSave - r.toLeft).toNat
  { ret := r.ret
    wide := wide
    fromMoved := r.fromMoved
    toMoved := rtn1
    fromLeft := r.fromLeft
    toLeft := toLeftSave - rtn1
    args0 := r.args0 }

/-- `gb18030_cstowcs`; `outbuf` is the block as `Xmalloc` gives it. -/
def gb18030Cstowcs (lcd : XLCd) (numArgs : Nat) (charset : XlcCharSet) (p : Ptr)
    (fromLeft toLeft : Int) : Option (WideConverted W) :=
  (gb18030Cstombs lcd numArgs charset p fromLeft toLeft).map (widen mbstowcs outbuf toLeft)

/-- `gb18030_ctstowcs` -/
def gb18030Ctstowcs (p : Ptr) (fromLeft toLeft : Int) : Option (WideConverted W) :=
  (gb18030Ctstombs fromLeft true p toLeft).map (widen mbstowcs outbuf toLeft)

end

/-- `mbstowcs` in the locale: it makes up to `m` wide characters of the characters before the NUL,
and returns how many. -/
def IsMbstowcs {W : Type*} (toWc : GbChar → W) (mbstowcs : Ptr → Nat → Int × List W) : Prop :=
  ∀ (cs : List GbChar) (q : Ptr) (m : Nat), Lib.Holds q 0 (text cs ++ [0]) → 0 ∉ text cs →
    mbstowcs q m = (((min m cs.length : Nat) : Int), (cs.take m).map toWc)

/-- All of the characters `cs` have come out, and `ret` is returned. -/
structure WideConverted.IsAll {W : Type*} (toWc : GbChar → W) (cs : List GbChar) (ret toLeft : Int)
    (r : WideConverted W) : Prop where
  ret : r.ret = ret
  wide : r.wide = cs.map toWc
  toLeft : r.toLeft = toLeft - cs.length

/-! ## The characters of charset text -/

/-- The GB18030-1 character of the two bytes in front of `c`. -/
def GbChar.ofTwobyte (c : Ptr) : GbChar := .four _ _ _ _ (isgb18030_4_twobyteToFourbyte c)

/-- The characters of the text of `left` bytes from `i` on, one after the other: in GB18030-1 each
pair of bytes is one; in the others a byte that begins no character is passed over. There are none
where half a character is left at the end. -/
def csChars (codeset : CodeSet) (p : Ptr) : Nat → Nat → Option (List GbChar)
  | 0, _ => some []
  | 1, i =>
    let c := p.plus i
    if codeset.wcEncoding = 0x5e84 then none
    else if isgb18030_2 c then none
    else if h : isAscii (c 0) = true then some [.ascii (c 0) h]
    else some []
  | left + 2, i =>
    let c := p.plus i
    if codeset.wcEncoding = 0x5e84 then
      (csChars codeset p left (i + 2)).map (GbChar.ofTwobyte c :: ·)
    else if h : isgb18030_2 (.ofList [c 0, c 1]) = true then
      (csChars codeset p left (i + 2)).map (GbChar.two (c 0) (c 1) h :: ·)
    else if h : isAscii (c 0) = true then
      (csChars codeset p (left + 1) (i + 1)).map (GbChar.ascii (c 0) h :: ·)
    else csChars codeset p (left + 1) (i + 1)

/-- The characters `cs` of charset text come out in the room for `toLeft` wide characters: their
multibyte text has no more bytes, no NUL is among them, and in GB18030-1, where the converter never
gets past the first one, they are all alike. -/
structure CsWideFits {W : Type*} (toWc : GbChar → W) (codeset : CodeSet) (cs : List GbChar)
    (toLeft : Int) : Prop where
  room : (text cs).length ≤ toLeft
  noNul : 0 ∉ text cs
  alike : codeset.wcEncoding = 0x5e84 → ∀ c ∈ cs, ∀ d ∈ cs, toWc c = toWc d

end X11
