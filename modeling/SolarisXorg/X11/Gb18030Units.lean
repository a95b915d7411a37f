import SolarisXorg.X11.Gb18030Text

/-!
# What the encoders read

The tests of the encoders to compound text take what is in front of them for a character of one of
the charsets, or for none (`ctUnit`). `gb18030_wcstocts` puts one wide character after the other
into its buffer, so that what it reads is `wcUnits`; the compound text of that is `unitsText`.
-/

namespace X11

/-- A character as the encoders to compound text take it: its charset and the bytes of it. -/
structure CtUnit where
  charset : CharSetType
  bytes : List UInt8
  deriving DecidableEq, Repr

/-- What the tests of `gb18030_wcstocts` take the bytes for. -/
def ctUnit (c : Ptr) : Option CtUnit :=
  if isgb c then some ⟨.gb2312, [c 0, c 1]⟩
  else if isgb18030_2 c then some ⟨.gb18030_0, [c 0, c 1]⟩
  else if isgb18030_4 c then some ⟨.gb18030_1, [c 0, c 1, c 2, c 3]⟩
  else if isAscii (c 0) then some ⟨.ascii, [c 0]⟩
  else none

section Wide

variable {W : Type*} (wctomb : W → Option (List UInt8)) (pwc : Nat → W)

/-- The `n` wide characters from the `k`-th one on, up to the first that `wctomb` refuses; the
buffer has in it what the ones before have left there. -/
def wcUnits : Nat → Nat → Ptr → List (Option CtUnit)
  | 0, _, _ => []
  | n + 1, k, inbufptr =>
    match wctomb (pwc k) with
    | none => []
    | some l => ctUnit (inbufptr.store l) :: wcUnits n (k + 1) (inbufptr.store l)

end Wide

/-- Their compound text after a character of charset `prev`. -/
def unitsText : Option CharSetType → List (Option CtUnit) → List UInt8
  | _, [] => []
  | prev, none :: us => unitsText prev us
  | prev, some u :: us => ctSwitch prev u.charset ++ u.bytes ++ unitsText (some u.charset) us

/-- The charsets of the characters. -/
def unitsCharsets (us : List (Option CtUnit)) : List CharSetType :=
  us.filterMap fun u => u.map CtUnit.charset

/-- The text of `us` is all in ASCII at its end: after a character of charset `prev` it is empty, or
ends with two characters of that charset. -/
def EndsInAscii (prev : Option CharSetType) (us : List (Option CtUnit)) : Prop :=
  unitsCharsets us = [] ∨ [.ascii, .ascii] <:+ prev.toList ++ unitsCharsets us

/-- What `gb18030_wcstocts` owes to its caller: it stays in the output, and unless it fails, what is
in the output is the text of the wide characters that the counts say are done. -/
structure WcstoctsOk (fromLeft toLeft : Int) (us : List (Option CtUnit)) (r : Converted) : Prop where
  room : r.written.length ≤ toLeft.toNat
  whole : r.ret ≠ -1 → r.written = unitsText none (us.take (fromLeft - r.fromLeft).toNat)

/-- The text of `us` leaves a byte of the output, or fills it with ASCII at the end. -/
def WcstoctsFits (toLeft : Int) (us : List (Option CtUnit)) : Prop :=
  (unitsText none us).length < toLeft.toNat ∨
    ((unitsText none us).length = toLeft.toNat ∧ EndsInAscii none us)

end X11
