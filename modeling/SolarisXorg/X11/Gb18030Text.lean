import SolarisXorg.X11.Gb18030Ct

/-!
# Text as a list of characters

What the converters are for: multibyte text is the concatenation of characters (`text`), the text of
one charset that of the characters' charset bytes, and compound text that of the characters' bytes
with an escape sequence wherever the charset changes (`ctText`).
-/

namespace X11

/-- A pointer to the bytes `l`. -/
def Ptr.ofList (l : List UInt8) : Ptr := fun k => l.getD k 0

/-- The length of a character. -/
inductive GbKind
  | ascii
  | two
  | four
  deriving DecidableEq, Repr

/-- A GB18030 character, with the reason why it is one. -/
inductive GbChar
  | ascii (b : UInt8) (h : isAscii b = true)
  | two (b0 b1 : UInt8) (h : isgb18030_2 (.ofList [b0, b1]) = true)
  | four (b0 b1 b2 b3 : UInt8) (h : isgb18030_4 (.ofList [b0, b1, b2, b3]) = true)
  deriving DecidableEq

namespace GbChar

def kind : GbChar → GbKind
  | .ascii .. => .ascii
  | .two .. => .two
  | .four .. => .four

/-- The character in multibyte text. -/
def bytes : GbChar → List UInt8
  | .ascii b _ => [b]
  | .two b0 b1 _ => [b0, b1]
  | .four b0 b1 b2 b3 _ => [b0, b1, b2, b3]

/-- The place of a four-byte character among all of them. -/
def index : GbChar → Nat
  | .four b0 b1 b2 b3 _ => 12600 * (b0.toNat - 0x81) + 1260 * (b1.toNat - 0x30) +
      10 * (b2.toNat - 0x81) + (b3.toNat - 0x30)
  | _ => 0

/-- The character in the text of its charset. -/
def csBytes : GbChar → List UInt8
  | .four b0 b1 b2 b3 _ => fourbyteToTwobyte (.ofList [b0, b1, b2, b3])
  | c => c.bytes

/-- The charset of the character in compound text. -/
def charSetType : GbChar → CharSetType
  | .ascii .. => .ascii
  | .two b0 b1 _ => if isgb (.ofList [b0, b1]) then .gb2312 else .gb18030_0
  | .four .. => .gb18030_1

/-- The character in compound text: GB2312 is a 7-bit set there. -/
def ctBytes (c : GbChar) : List UInt8 :=
  if c.charSetType = .gb2312 then c.bytes.map (· &&& 0x7f) else c.bytes

end GbChar

/-- Multibyte text. -/
def text (cs : List GbChar) : List UInt8 := cs.flatMap GbChar.bytes

/-- The escape sequence between a character of charset `prev` and one of charset `t`. -/
def ctSwitch (prev : Option CharSetType) (t : CharSetType) : List UInt8 :=
  if prev = some t then [] else t.encodeString

/-- Compound text after a character of charset `prev`, with the bytes `f` gives for a character. -/
def ctText (f : GbChar → List UInt8) : Option CharSetType → List GbChar → List UInt8
  | _, [] => []
  | prev, c :: cs => ctSwitch prev c.charSetType ++ f c ++ ctText f (some c.charSetType) cs

end X11
