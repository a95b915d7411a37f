import SolarisXorg.Fbconf.LineEr
import SolarisXorg.Lib.CStr

/-!
# Reading the configuration file (`scan.c`)

`xf86getToken` reads the file line by line with `xf86getNextLine`, which grows the line buffer until
it holds the end of a line, and has the place of each line saved. Files are lists of bytes without
NULs; `fgets` and `ftell` are those of the C library, and allocations succeed.

Two places go wrong once the line buffer has grown: `xf86getNextLine` frees its own argument in
place of the buffer, and `xf86getToken` frees the token buffer it goes on using. The model stops
there with `none`, and also where the scanner would read on behind the end of a line. Of the tokens,
only where they end is modelled: the parser reads all of them.
-/

namespace Fbc

open Lib

/-- `CONFIG_BUF_LEN` -/
def configBufLen : Nat := 1024

/-- `fgets` with a size: what is read of the rest of a file. Nothing is NULL. -/
def fgets (size : Nat) (rest : List UInt8) : List UInt8 :=
  let block := rest.take (size - 1)
  match block.idxOf? 0x0a with
  | none => block
  | some i => block.take (i + 1)

theorem fgets_isPrefix (size : Nat) (rest : List UInt8) : fgets size rest <+: rest := by
  rw [fgets]
  split
  · exact List.take_prefix ..
  · exact (List.take_prefix ..).trans (List.take_prefix ..)

/-- The end of a line. -/
def isEol (c : UInt8) : Bool := c = 0x0a || c = 0x0d

/-- The loop of `xf86getNextLine`, with the buffer's length and text: the line, if the file did not
end, the buffer's length and the position in the file. -/
def readLine (file : List UInt8) (len : Nat) (text : List UInt8) (pos : Nat) :
    Option (List UInt8) × Nat × Nat :=
  let block := fgets (len - text.length - 1) (file.drop pos)
  if _h : block = [] then (none, len, pos)
  else if block.any isEol then (some (text ++ block), len, pos + block.length)
  else readLine file (len + configBufLen) (text ++ block) (pos + block.length)
termination_by file.length - pos
decreasing_by
  have hle := (fgets_isPrefix (len - text.length - 1) (file.drop pos)).length_le
  have hpos := List.length_pos_iff.2 _h
  rw [List.length_drop] at hle
  simp only [block] at hpos ⊢
  omega

/-- `xf86getNextLine`. A buffer that has grown is not freed: its address is. -/
def getNextLine (len : Nat) (file : List UInt8) (pos : Nat) :
    Option (Option (List UInt8) × Nat × Nat) :=
  if len ≠ configBufLen then none else some (readLine file len [] pos)

/-! ## Tokens -/

/-- `isalpha` in the C locale. -/
def isalpha (c : UInt8) : Bool := (0x41 ≤ c && c ≤ 0x5a) || (0x61 ≤ c && c ≤ 0x7a)

/-- `isdigit` -/
def isdigit (c : UInt8) : Bool := 0x30 ≤ c && c ≤ 0x39

/-- What follows the first character with a property, unless the line ends before it: then the
scanner is behind the line's end. -/
def skipPast (p : UInt8 → Bool) (line : List UInt8) : Option (List UInt8) :=
  match line.dropWhile fun c => !p c with
  | [] => none
  | _ :: rest => some rest

/-- The next character of the line is a letter. -/
def startsAlpha (line : List UInt8) : Bool := line.head?.any isalpha

/-- A character of a number after the first: hexadecimal digits follow `0x`. -/
def isNumberChar (hex : Bool) (c : UInt8) : Bool :=
  isdigit c || c = 0x2e || c = 0x78 || c = 0x58 ||
    (hex && ((0x61 ≤ c && c ≤ 0x66) || (0x41 ≤ c && c ≤ 0x46)))

/-- The rest of the line after a token that starts with `c`. -/
def skipToken (c : UInt8) (line : List UInt8) : Option (List UInt8) :=
  if c = 0x23 then skipPast isEol line
  else if c = 0x2c && !startsAlpha line then some line
  else if c = 0x2d && !startsAlpha line then some line
  else if isdigit c then
    let hex := c = 0x30 && (line.head? = some 0x78 || line.head? = some 0x58)
    some (line.dropWhile (isNumberChar hex))
  else if c = 0x22 then skipPast (fun c => c = 0x22 || isEol c) line
  else some (line.dropWhile fun c => !(c = 0x20 || c = 0x09 || isEol c || c = 0x23))

theorem skipPast_length {p : UInt8 → Bool} {line rest : List UInt8}
    (h : skipPast p line = some rest) : rest.length ≤ line.length := by
  rw [skipPast] at h
  split at h
  · exact nomatch h
  · rename_i c rest' hdrop
    obtain rfl := Option.some.inj h
    have hle := (List.dropWhile_sublist (fun c => !p c) (l := line)).length_le
    rw [hdrop, List.length_cons] at hle
    omega

theorem skipToken_length {c : UInt8} {line rest : List UInt8}
    (h : skipToken c line = some rest) : rest.length ≤ line.length := by
  rw [skipToken] at h
  split at h
  · exact skipPast_length h
  split at h
  · exact (congrArg List.length (Option.some.inj h)).ge
  split at h
  · exact (congrArg List.length (Option.some.inj h)).ge
  split at h
  · rw [← Option.some.inj h]
    exact (List.dropWhile_sublist _).length_le
  split at h
  · exact skipPast_length h
  · rw [← Option.some.inj h]
    exact (List.dropWhile_sublist _).length_le

/-- The tokens of a line: whether all of them end within it. -/
def scanLine (line : List UInt8) : Bool :=
  match _hw : line.dropWhile fun c => c = 0x20 || c = 0x09 || isEol c with
  | [] => true
  | c :: rest =>
    match _hs : skipToken c rest with
    | none => false
    | some rest => scanLine rest
termination_by line.length
decreasing_by
  have hle := (List.dropWhile_sublist (fun c => c = 0x20 || c = 0x09 || isEol c)
    (l := line)).length_le
  have hrest := skipToken_length _hs
  rw [_hw, List.length_cons] at hle
  omega

/-! ## The lines of a file -/

theorem readLine_pos {file : List UInt8} {len : Nat} {text : List UInt8} {pos : Nat}
    {line : List UInt8} {len' pos' : Nat}
    (h : readLine file len text pos = (some line, len', pos')) :
    pos < pos' ∧ pos' ≤ file.length := by
  fun_induction readLine file len text pos with
  | case1 => exact nomatch h
  | case2 len text pos block hne heol =>
    obtain ⟨-, -, rfl⟩ : _ ∧ _ ∧ _ := by simpa using h
    have hle := (fgets_isPrefix (len - text.length - 1) (file.drop pos)).length_le
    have hpos := List.length_pos_iff.2 hne
    rw [List.length_drop] at hle
    simp only [block] at hpos ⊢
    omega
  | case3 len text pos block hne heol ih =>
    obtain ⟨hlt, hle⟩ := ih h
    omega

/-- The scanner reading a stream, from a position on: the lines saved, and the length of the line
buffer at the end. `addr` gives the address of each new element. -/
def readConfig (addr : Nat → Nat) (stream : Nat) (file : List UInt8) (pos : Nat)
    (lines : List Line) : Option (List Line × Nat) :=
  match _h : readLine file configBufLen [] pos with
  | (none, len, _) => some (lines, len)
  | (some text, len, pos') =>
    -- The token buffer is to get the length of the line buffer.
    if len ≠ configBufLen then none
    else if scanLine text then
      readConfig addr stream file pos' (saveLineLocation lines (addr pos) stream pos)
    else none
termination_by file.length - pos
decreasing_by
  have h := readLine_pos _h
  omega

/-! ## Names -/

/-- Characters that names are compared without. -/
def isIgnored (c : UInt8) : Bool := c = 0x5f || c = 0x20 || c = 0x09

/-- `tolower` in the C locale. -/
def tolower (c : UInt8) : UInt8 := if 0x41 ≤ c ∧ c ≤ 0x5a then c + 0x20 else c

/-- What of a name is compared. -/
def nameKey (name : List UInt8) : List UInt8 := (name.filter fun c => !isIgnored c).map tolower

/-- A `char`, which is signed. -/
def schar (c : UInt8) : Int := if c < 0x80 then c.toNat else c.toNat - 256

/-- `xf86nameCompare` of two strings. A string ends in a NUL, and `tolower` leaves what is past the
ASCII characters. -/
def xf86nameCompare (s1 s2 : List UInt8) : Int :=
  match s2.dropWhile isIgnored, _h : s1.dropWhile isIgnored with
  | [], [] => 0
  | [], c1 :: _ => schar c1
  | c2 :: _, [] => 0 - schar (tolower c2)
  | c2 :: t2, c1 :: t1 =>
    if schar (tolower c1) = schar (tolower c2) then xf86nameCompare t1 t2
    else schar (tolower c1) - schar (tolower c2)
termination_by s1.length
decreasing_by
  have hle := (List.dropWhile_sublist isIgnored (l := s1)).length_le
  rw [_h, List.length_cons] at hle
  omega

/-- `xf86nameCompare` of two names finds them equal. -/
def nameEq (s1 s2 : List UInt8) : Bool := nameKey s1 = nameKey s2

end Fbc
