import SolarisXorg.X11.Gb18030

/-!
# Compound text (`lcGB18030.c`)

The encoders `gb18030_mbstocts` and `gb18030_wcstocts` write an escape sequence whenever the charset
changes, and number the charsets in `flag`, each in its own way. Their branches share `ctEscape`
and `ctChar`. The decoder `gb18030_ctstombs` is a loop over the text with a loop for each charset
inside; `seg` says which of the loops it is in, and one pass is a pass of the innermost one.
-/

namespace X11

open Lib

/-- A C string, without the final NUL. -/
def cstr (s : String) : List UInt8 := s.toList.map fun c => c.toNat.toUInt8

/-- `CharSet_Type`, less `t_NONE` -/
inductive CharSetType
  | ascii
  | gb2312
  | gb18030_0
  | gb18030_1
  deriving DecidableEq, Repr

/-- Column `charset` of `default_ct_data`. -/
def CharSetType.charset : CharSetType → List UInt8
  | .ascii => cstr "ASCII"
  | .gb2312 => cstr "GB2312"
  | .gb18030_0 => cstr "GB18030-0"
  | .gb18030_1 => cstr "GB18030-1"

/-- Column `encode_string` of `default_ct_data`. -/
def CharSetType.encodeString : CharSetType → List UInt8
  | .ascii => cstr "\x1b(B"
  | .gb2312 => cstr "\x1b$(A"
  | .gb18030_0 => cstr "\x1b%/2??SUN-GB18030-0"
  | .gb18030_1 => cstr "\x1b%/2??SUN-GB18030-1"

/-- The rows of `default_ct_data`. -/
def defaultCtData : List CharSetType := [.ascii, .gb2312, .gb18030_0, .gb18030_1]

/-- `get_CT_encode_string` -/
def getCtEncodeString (charset : List UInt8) : Option (List UInt8) :=
  (defaultCtData.find? fun t => charset.isPrefixOf t.charset).map CharSetType.encodeString

/-- `get_charset_with_encode_string`; `none` is `t_NONE`. -/
def getCharsetWithEncodeString (s : Ptr) : Option CharSetType :=
  defaultCtData.find? fun t => reads s 0 t.encodeString

/-! ## Encoders -/

/-- The variables of an encoder's loop; `j` is the length of `out`. -/
structure CtState where
  i : Nat
  out : List UInt8
  flag : Nat
  unconvNum : Nat
  deriving DecidableEq, Repr

/-- Nothing read, nothing written. -/
def CtState.start : CtState where
  i := 0
  out := []
  flag := 0
  unconvNum := 0

section Encoders

variable (fromLeft toLeft : Int)

/-- `return -1` -/
def CtState.fail (s : CtState) : Converted where
  ret := -1
  written := s.out
  fromMoved := 0
  toMoved := 0
  fromLeft := fromLeft
  toLeft := toLeft
  args0 := none

/-- What stands after the loop. -/
def CtState.finish (s : CtState) : Converted where
  ret := s.unconvNum
  written := s.out
  fromMoved := s.i
  toMoved := s.out.length
  fromLeft := fromLeft - s.i
  toLeft := toLeft - s.out.length
  args0 := none

/-- The first half of a branch: the escape sequence, if the last character was of another charset,
with room for `n` bytes after it. -/
def ctEscape (charset : String) (number n : Nat) (s : CtState) : Pass CtState Converted :=
  if s.flag = 0 ∨ s.flag ≠ number then
    match getCtEncodeString (cstr charset) with
    | none => .leave (s.fail fromLeft toLeft)
    | some encodeString =>
      if toLeft ≤ s.out.length + encodeString.length + n then .leave (s.finish fromLeft toLeft)
      else .next { s with out := s.out ++ encodeString, flag := number }
  else .next s

/-- A branch: the escape sequence, then the bytes `l`, for `n` units of input. -/
def ctChar (charset : String) (number : Nat) (l : List UInt8) (n : Nat) (s : CtState) :
    Pass CtState Converted :=
  (ctEscape fromLeft toLeft charset number l.length s).andThen fun s =>
    if toLeft ≤ s.out.length + l.length then .leave (s.finish fromLeft toLeft)
    else .next { s with i := s.i + n, out := s.out ++ l }

/-- A pass of `gb18030_mbstocts`. -/
def mbstoctsPass (p : Ptr) (s : CtState) : Pass CtState Converted :=
  if s.i < fromLeft ∧ s.out.length < toLeft then
    let c := p.plus s.i
    if isgb c then ctChar fromLeft toLeft "GB2312" 2 [c 0 &&& 0x7f, c 1 &&& 0x7f] 2 s
    else if isgb18030_2 c then
      ctChar fromLeft toLeft "GB18030-0" 4 [c 0 &&& 0xff, c 1 &&& 0xff] 2 s
    else if isgb18030_4 c then
      ctChar fromLeft toLeft "GB18030-1" 5 [c 0, c 1, c 2, c 3] 4 s
    else if isAscii (c 0) then ctChar fromLeft toLeft "ASCII" 3 [c 0] 1 s
    else .next { s with i := s.i + 1, unconvNum := s.unconvNum + 1 }
  else .leave (s.finish fromLeft toLeft)

/-- `gb18030_mbstocts` -/
def gb18030Mbstocts (p : Ptr) : Option Converted :=
  loop (mbstoctsPass fromLeft toLeft p) (fromLeft.toNat + 1) .start

variable {W : Type*} (wctomb : W → Option (List UInt8))

/-- A pass of `gb18030_wcstocts`, with the buffer `inbufptr`. The counter `k` of wide characters has
the place of `i`, and has moved before a branch is entered. -/
def wcstoctsPass (pwc : Nat → W) (s : CtState × Ptr) : Pass (CtState × Ptr) Converted :=
  let (s, inbufptr) := s
  if s.i < fromLeft then
    match wctomb (pwc s.i) with
    | none => .leave (s.fail fromLeft toLeft)
    | some l =>
      let s := { s with i := s.i + 1 }
      let c := inbufptr.store l
      let pass :=
        if isgb c then ctChar fromLeft toLeft "GB2312" 1 [c 0, c 1] 0 s
        else if isgb18030_2 c then ctChar fromLeft toLeft "GB18030-0" 2 [c 0, c 1] 0 s
        else if isgb18030_4 c then
          ctChar fromLeft toLeft "GB18030-1" 6 [c 0, c 1, c 2, c 3] 0 s
        else if isAscii (c 0) then
          -- no second look at the room left
          (ctEscape fromLeft toLeft "ASCII" 3 1 s).andThen fun s =>
            .next { s with out := s.out ++ [c 0] }
        else .next { s with unconvNum := s.unconvNum + 1 }
      pass.map fun s => (s, c)
  else .leave (s.finish fromLeft toLeft)

/-- `gb18030_wcstocts`; `inbufptr` is the buffer as the stack left it. -/
def gb18030Wcstocts (inbufptr : Ptr) (pwc : Nat → W) : Option Converted :=
  loop (wcstoctsPass fromLeft toLeft wctomb pwc) (fromLeft.toNat + 1) (.start, inbufptr)

end Encoders

/-! ## Decoder -/

/-- The variables of `gb18030_ctstombs`; `seg` is the charset whose loop it is in. -/
structure CtsState where
  i : Nat
  out : List UInt8
  toLeft : Int
  unconvNum : Nat
  seg : Option CharSetType
  deriving DecidableEq, Repr

namespace CtsState

/-- Nothing read, nothing written. -/
def start (toLeft : Int) : CtsState where
  i := 0
  out := []
  toLeft := toLeft
  unconvNum := 0
  seg := none

/-- What stands at `FINISHED`. -/
def finish (fromLeft : Int) (s : CtsState) : Converted where
  ret := s.unconvNum
  written := s.out
  fromMoved := s.i
  toMoved := s.out.length
  fromLeft := if fromLeft ≤ s.i then 0 else fromLeft - s.i
  toLeft := s.toLeft
  args0 := none

/-- A character whose bytes are `l` in the text. -/
def put (saveOutbuf : Bool) (l : List UInt8) (s : CtsState) : CtsState :=
  { s with
    i := s.i + l.length
    out := if saveOutbuf then s.out ++ l else s.out
    toLeft := s.toLeft - l.length }

/-- A byte that cannot be converted. -/
def skip (s : CtsState) : CtsState := { s with i := s.i + 1, unconvNum := s.unconvNum + 1 }

end CtsState

/-- The bytes the decoder takes for ASCII text. -/
def isText (ch : UInt8) : Bool := (ch = 0x0a || ch = 0x09 || 0x20 ≤ ch) && isAscii ch

section Decoder

variable (fromLeft : Int) (saveOutbuf : Bool)

/-- In a charset's loop: the character `l`, if it `ok` is one of the charset. -/
def segmentChar (ok : Bool) (l : List UInt8) (s : CtsState) : Pass CtsState Converted :=
  if ok then
    if s.toLeft < l.length ∨ fromLeft < l.length then .leave (s.finish fromLeft)
    else .next (s.put saveOutbuf l)
  else .next { s with seg := none }

/-- A pass of `gb18030_ctstombs`. -/
def ctstombsPass (p : Ptr) (s : CtsState) : Pass CtsState Converted :=
  let c := p.plus s.i
  match s.seg with
  | none =>
    if s.i < fromLeft then
      if c 0 = 0x1b then
        match getCharsetWithEncodeString c with
        | some t => .next { s with i := s.i + t.encodeString.length, seg := some t }
        | none => .next s.skip
      else if isText (c 0) then
        if s.toLeft < 1 then .leave (s.finish fromLeft) else .next (s.put saveOutbuf [c 0])
      else .next s.skip
    else .leave (s.finish fromLeft)
  | some t =>
    if fromLeft ≤ s.i then .leave (s.finish fromLeft)
    else
      match t with
      | .ascii => segmentChar fromLeft saveOutbuf (isText (c 0)) [c 0] s
      | .gb2312 =>
        let iconvBuf := [(c 0 &&& 0x7f) ||| 0x80, (c 1 &&& 0x7f) ||| 0x80]
        segmentChar fromLeft saveOutbuf (isgb (c.store iconvBuf)) iconvBuf s
      | .gb18030_0 => segmentChar fromLeft saveOutbuf (isgb18030_2 c) [c 0, c 1] s
      | .gb18030_1 => segmentChar fromLeft saveOutbuf (isgb18030_4 c) [c 0, c 1, c 2, c 3] s

/-- `gb18030_ctstombs`; `saveOutbuf` is whether `*to` is not NULL. Leaving a charset's loop is a
pass that reads nothing, hence the factor 2. -/
def gb18030Ctstombs (p : Ptr) (toLeft : Int) : Option Converted :=
  loop (ctstombsPass fromLeft saveOutbuf p) (2 * fromLeft.toNat + 1) (.start toLeft)

end Decoder

end X11
