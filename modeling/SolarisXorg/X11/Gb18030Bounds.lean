import SolarisXorg.X11.Gb18030Units

/-!
# The bounds of the compound text converters

What `gb18030_mbstocts` and `gb18030_ctstombs` come by in a buffer, as if it had no end: the first
goes from unit to unit (`mbOffset`), the second from token to token (`ctsPlace`), an escape sequence
being one. A converter overreads where a unit or a token begins before the end of the input and ends
behind it.
-/

namespace X11

open Lib

/-- What a converter owes to its caller: it stays in the input, `*from_left` does not become
negative, and it stays in the output. -/
structure Converted.InBounds (n : Nat) (toLeft : Int) (r : Converted) : Prop where
  consumed : r.fromMoved ≤ n
  fromLeft : 0 ≤ r.fromLeft
  room : r.written.length ≤ toLeft.toNat

/-- The buffers have the same `n` bytes, with NUL behind. -/
structure SameText (n : Nat) (p q : Ptr) : Prop where
  same : ∀ i < n, p i = q i
  left : p n = 0
  right : q n = 0

/-! ## `gb18030_mbstocts` -/

/-- What its tests take the bytes for, and what it writes for them. -/
def mbUnit (c : Ptr) : Option CtUnit :=
  if isgb c then some ⟨.gb2312, [c 0 &&& 0x7f, c 1 &&& 0x7f]⟩
  else if isgb18030_2 c then some ⟨.gb18030_0, [c 0 &&& 0xff, c 1 &&& 0xff]⟩
  else if isgb18030_4 c then some ⟨.gb18030_1, [c 0, c 1, c 2, c 3]⟩
  else if isAscii (c 0) then some ⟨.ascii, [c 0]⟩
  else none

/-- How many bytes it reads for them. -/
def unitSize : Option CtUnit → Nat
  | none => 1
  | some u => u.bytes.length

section Units

variable (p : Ptr)

/-- Where the `k`-th unit begins. -/
def mbOffset : Nat → Nat
  | 0 => 0
  | k + 1 => mbOffset k + unitSize (mbUnit (p.plus (mbOffset k)))

/-- The first `k` units. -/
def mbUnits : Nat → List (Option CtUnit)
  | 0 => []
  | k + 1 => mbUnits k ++ [mbUnit (p.plus (mbOffset p k))]

/-- The `k`-th unit lies across the end of the input, and the compound text up to it leaves a byte
of the output. -/
structure MbstoctsOverreads (n : Nat) (toLeft : Int) (k : Nat) : Prop where
  starts : mbOffset p k < n
  ends : n < mbOffset p (k + 1)
  room : (unitsText none (mbUnits p (k + 1))).length < toLeft

end Units

/-! ## `gb18030_ctstombs` -/

/-- What the decoder takes from compound text in one go: `size` bytes, for which it puts `text` or
counts `unconv` bytes that cannot be converted, and the charset whose loop it is in afterwards. -/
structure CtsToken where
  size : Nat
  text : List UInt8
  unconv : Nat
  seg : Option CharSetType
  deriving DecidableEq, Repr

/-- In a charset's loop: the bytes of the character, if there is one. -/
def segmentText (c : Ptr) : CharSetType → Option (List UInt8)
  | .ascii => if isText (c 0) then some [c 0] else none
  | .gb2312 =>
    let iconvBuf := [(c 0 &&& 0x7f) ||| 0x80, (c 1 &&& 0x7f) ||| 0x80]
    if isgb (c.store iconvBuf) then some iconvBuf else none
  | .gb18030_0 => if isgb18030_2 c then some [c 0, c 1] else none
  | .gb18030_1 => if isgb18030_4 c then some [c 0, c 1, c 2, c 3] else none

/-- The token that begins at `c`. -/
def ctsToken (c : Ptr) : Option CharSetType → CtsToken
  | none =>
    if c 0 = 0x1b then
      match getCharsetWithEncodeString c with
      | some t => ⟨t.encodeString.length, [], 0, some t⟩
      | none => ⟨1, [], 1, none⟩
    else if isText (c 0) then ⟨1, [c 0], 0, none⟩
    else ⟨1, [], 1, none⟩
  | some t =>
    match segmentText c t with
    | some l => ⟨l.length, l, 0, some t⟩
    | none => ⟨0, [], 0, none⟩

/-- Between two tokens: the bytes read, the bytes put, and the charset whose loop it is in. -/
structure CtsPlace where
  i : Nat
  out : Nat
  seg : Option CharSetType
  deriving DecidableEq, Repr

section Tokens

variable (p : Ptr)

/-- Where the `k`-th token begins. -/
def ctsPlace : Nat → CtsPlace
  | 0 => ⟨0, 0, none⟩
  | k + 1 =>
    let a := ctsPlace k
    let token := ctsToken (p.plus a.i) a.seg
    ⟨a.i + token.size, a.out + token.text.length, token.seg⟩

/-- The `k`-th token lies across the end of the input, and what is put up to it has room. -/
structure CtstombsOverreads (n : Nat) (toLeft : Int) (k : Nat) : Prop where
  starts : (ctsPlace p k).i < n
  ends : n < (ctsPlace p (k + 1)).i
  room : (ctsPlace p (k + 1)).out ≤ toLeft.toNat

end Tokens

end X11
