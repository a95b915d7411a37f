import Mathlib.Algebra.Group.Int.Defs
import Mathlib.Algebra.Group.Nat.Defs
import Mathlib.Data.List.Basic
import Mathlib.Data.List.TakeWhile

/-!
# C strings in memory

A block of memory is the list of its bytes and a pointer into it an offset. `strAt` is the string a
pointer points to. The lemmas are for memory written `a ++ t ++ 0 :: r`: the text `t`, without a
NUL, between what comes before it and its terminator. `strtol_toString`: `strtol` reads a number back;
`strtoul_length`: `strtoul` leaves the rest of the string.
-/

namespace Lib

/-- A string literal's characters. -/
def chars (s : String) : List UInt8 := s.toList.map fun c => UInt8.ofNat c.toNat

/-- The string at an offset. -/
def strAt (m : List UInt8) (p : Nat) : List UInt8 := (m.drop p).takeWhile (· ≠ 0)

/-- The offset of the first `c` in the string at `p`. -/
def strchr (m : List UInt8) (p : Nat) (c : UInt8) : Option Nat :=
  ((strAt m p).idxOf? c).map (p + ·)

/-- `strcpy` of a string to the start of the block. -/
def strcpy (m s : List UInt8) : List UInt8 := s ++ 0 :: m.drop (s.length + 1)

/-- `isspace` in the C locale. -/
def isspace (c : UInt8) : Bool := c = 0x20 || (0x09 ≤ c && c ≤ 0x0d)

/-- `LONG_MAX` -/
def longMax : Int := 2 ^ 63 - 1

/-- `LONG_MIN` -/
def longMin : Int := -2 ^ 63

/-- `strtol(s, NULL, 10)`, and whether it sets `errno` to `ERANGE`. -/
def strtol (s : List UInt8) : Int × Bool :=
  let s := s.dropWhile isspace
  let digits (s : List UInt8) : Int :=
    (s.takeWhile fun c => 0x30 ≤ c && c ≤ 0x39).foldl (fun n c => n * 10 + (c.toNat - 0x30)) 0
  let n : Int :=
    match s with
    | 0x2d :: s => -digits s
    | 0x2b :: s => digits s
    | s => digits s
  if longMax < n then (longMax, true)
  else if n < longMin then (longMin, true)
  else (n, false)

/-- The value of a digit, or something past every base. -/
def digitVal (c : UInt8) : Nat :=
  if 0x30 ≤ c ∧ c ≤ 0x39 then c.toNat - 0x30
  else if 0x61 ≤ c ∧ c ≤ 0x7a then c.toNat - 0x61 + 10
  else if 0x41 ≤ c ∧ c ≤ 0x5a then c.toNat - 0x41 + 10
  else 36

/-- The base a number's beginning stands for, and the number without the beginning. -/
def numberBase : List UInt8 → Nat × List UInt8
  | 0x30 :: x :: d :: t =>
    if (x = 0x78 ∨ x = 0x58) ∧ digitVal d < 16 then (16, d :: t) else (8, 0x30 :: x :: d :: t)
  | 0x30 :: t => (8, 0x30 :: t)
  | t => (10, t)

/-- `strtoul(s, &end, 0)`, and what is left of the string at `end`. -/
def strtoul (s : List UInt8) : Nat × List UInt8 :=
  let (neg, t) : Bool × List UInt8 :=
    match s.dropWhile isspace with
    | 0x2d :: t => (true, t)
    | 0x2b :: t => (false, t)
    | t => (false, t)
  let (base, t) := numberBase t
  let digits := t.takeWhile fun c => digitVal c < base
  if digits = [] then (0, s)
  else
    let n := digits.foldl (fun n c => n * base + digitVal c) 0
    let value := if 2 ^ 64 ≤ n then 2 ^ 64 - 1 else if neg then (2 ^ 64 - n) % 2 ^ 64 else n
    (value, t.drop digits.length)

/-! ## What is left of a number -/

theorem numberBase_length (t : List UInt8) : (numberBase t).2.length ≤ t.length := by
  unfold numberBase
  split
  · split
    · simp only [List.length_cons]
      omega
    · exact Nat.le_refl _
  · exact Nat.le_refl _
  · exact Nat.le_refl _

/-- What `strtoul` leaves is the rest of the string, which is shorter where there was a number. -/
theorem strtoul_length (s : List UInt8) :
    (strtoul s).2.length ≤ s.length ∧ ((strtoul s).1 ≠ 0 → (strtoul s).2.length < s.length) := by
  have hspace : (s.dropWhile isspace).length ≤ s.length := List.length_dropWhile_le _ _
  unfold strtoul
  split
  rename_i neg t hsign
  have hsigned : t.length ≤ s.length := by
    split at hsign
    · obtain ⟨-, rfl⟩ := Prod.mk.inj hsign
      rename_i h
      rw [h, List.length_cons] at hspace
      omega
    · obtain ⟨-, rfl⟩ := Prod.mk.inj hsign
      rename_i h
      rw [h, List.length_cons] at hspace
      omega
    · obtain ⟨-, rfl⟩ := Prod.mk.inj hsign
      exact hspace
  split
  rename_i base u hbase
  have hlen : u.length ≤ t.length := by
    have h := numberBase_length t
    rwa [hbase] at h
  dsimp only
  by_cases hdigits : u.takeWhile (fun c => decide (digitVal c < base)) = []
  case pos =>
    rw [if_pos hdigits]
    exact ⟨Nat.le_refl _, fun h => absurd rfl h⟩
  rw [if_neg hdigits]
  have hpos := List.length_pos_iff.2 hdigits
  have hle := (List.takeWhile_prefix (l := u) fun c => decide (digitVal c < base)).length_le
  dsimp only
  rw [List.length_drop]
  exact ⟨by omega, fun _ => by omega⟩
/-! ## Text between NULs -/

/-- A text that can be in a string. -/
def NulFree (t : List UInt8) : Prop := 0 ∉ t

/-- A string. -/
structure CString where
  bytes : List UInt8
  nulFree : NulFree bytes

theorem NulFree.append {s t : List UInt8} (hs : NulFree s) (ht : NulFree t) : NulFree (s ++ t) := by
  intro h
  rcases List.mem_append.1 h with h | h
  · exact hs h
  · exact ht h

theorem NulFree.of_append {s t : List UInt8} (h : NulFree (s ++ t)) : NulFree s ∧ NulFree t :=
  ⟨fun hs => h (List.mem_append_left t hs), fun ht => h (List.mem_append_right s ht)⟩

theorem takeWhile_nulFree {t : List UInt8} (ht : NulFree t) (r : List UInt8) :
    (t ++ 0 :: r).takeWhile (· ≠ 0) = t := by
  induction t with
  | nil => simp
  | cons c t ih =>
    have hc : c ≠ 0 := fun h => ht (by rw [h]; exact .head _)
    rw [List.cons_append, List.takeWhile_cons_of_pos (by simpa using hc),
      ih fun h => ht (.tail _ h)]

theorem strAt_append (a : List UInt8) {t : List UInt8} (ht : NulFree t) (r : List UInt8) :
    strAt (a ++ (t ++ 0 :: r)) a.length = t := by
  rw [strAt, List.drop_left, takeWhile_nulFree ht]

theorem strAt_nulFree (m : List UInt8) (p : Nat) : NulFree (strAt m p) := by
  intro h
  have hne := List.mem_takeWhile_imp h
  simp at hne

/-- A block that holds a string's terminator. -/
theorem eq_strAt_append {m : List UInt8} (h : (strAt m 0).length < m.length) :
    ∃ r, m = strAt m 0 ++ 0 :: r := by
  by_cases hmem : 0 ∈ m
  · obtain ⟨t, r, rfl, ht⟩ := List.eq_append_cons_of_mem hmem
    have hstr : strAt (t ++ 0 :: r) 0 = t := strAt_append [] ht r
    exact ⟨r, by rw [hstr]⟩
  · have hall : ∀ c ∈ m, (decide (c ≠ 0)) = true := by
      intro c hc
      simp only [ne_eq, decide_eq_true_eq]
      rintro rfl
      exact hmem hc
    rw [strAt, List.drop_zero, List.takeWhile_eq_self_iff.2 hall] at h
    omega

theorem idxOf?_append {x : List UInt8} {c : UInt8} (hx : c ∉ x) (y : List UInt8) :
    (x ++ c :: y).idxOf? c = some x.length := by
  rw [List.idxOf?_eq_some_iff]
  refine ⟨by simp, by simp, fun j hj => ?_⟩
  have hlt : j < x.length := hj
  rw [List.getElem_append_left hlt]
  intro h
  exact hx (h ▸ x.getElem_mem hlt)

/-- The first `c` of the text at `a.length`. -/
theorem strchr_append (a : List UInt8) {x y : List UInt8} {c : UInt8} (hx : c ∉ x)
    (ht : NulFree (x ++ c :: y)) (r : List UInt8) :
    strchr (a ++ (x ++ c :: y ++ 0 :: r)) a.length c = some (a.length + x.length) := by
  rw [strchr, strAt_append a ht, idxOf?_append hx]
  rfl

theorem strchr_eq_none (a : List UInt8) {t : List UInt8} {c : UInt8} (hc : c ∉ t) (ht : NulFree t)
    (r : List UInt8) : strchr (a ++ (t ++ 0 :: r)) a.length c = none := by
  rw [strchr, strAt_append a ht, List.idxOf?_eq_none_iff.2 hc]
  rfl

/-- What `strchr` finds is in the block, at or after where it starts. -/
theorem strchr_bounds {m : List UInt8} {p q : Nat} {c : UInt8} (h : strchr m p c = some q) :
    p ≤ q ∧ q < m.length := by
  obtain ⟨i, hi, rfl⟩ := Option.map_eq_some_iff.1 h
  obtain ⟨hlt, -, -⟩ := List.idxOf?_eq_some_iff.1 hi
  have hle : (strAt m p).length ≤ (m.drop p).length :=
    (List.takeWhile_sublist (· ≠ (0 : UInt8)) (l := m.drop p)).length_le
  rw [List.length_drop] at hle
  omega

theorem set_append (a b : List UInt8) (c d : UInt8) :
    (a ++ c :: b).set a.length d = a ++ d :: b := by
  rw [List.set_append_right a.length d (Nat.le_refl _), Nat.sub_self, List.set_cons_zero]

/-- Characters with a property, and what goes on without it. -/
theorem span_append {p : UInt8 → Bool} {w t : List UInt8} (hw : ∀ c ∈ w, p c = true)
    (ht : ∀ c ∈ t.head?, p c = false) :
    (w ++ t).takeWhile p = w ∧ (w ++ t).dropWhile p = t := by
  rw [List.takeWhile_append_of_pos hw, List.dropWhile_append_of_pos hw]
  cases t with
  | nil => exact ⟨List.append_nil w, rfl⟩
  | cons c t =>
    have hc : ¬p c = true := by
      rw [ht c rfl]
      exact Bool.false_ne_true
    rw [List.takeWhile_cons_of_neg hc, List.dropWhile_cons_of_neg hc]
    exact ⟨List.append_nil w, rfl⟩

/-- What goes on after the characters with a property. -/
theorem head?_dropWhile {p : UInt8 → Bool} {t : List UInt8} :
    ∀ c ∈ (t.dropWhile p).head?, p c = false := by
  intro c hc
  have h := List.head?_dropWhile_not p t
  rw [Option.mem_def.1 hc] at h
  exact h

/-! ## Numbers -/

theorem toNat_of_mem_toDigits {n : Nat} {c : Char} (hc : c ∈ Nat.toDigits 10 n) :
    48 ≤ c.toNat ∧ c.toNat < 58 := by
  have hdig := Nat.isDigit_of_mem_toDigits (by decide) (by decide) hc
  simp only [Char.isDigit, Bool.and_eq_true, decide_eq_true_eq] at hdig
  exact ⟨hdig.1, Nat.lt_succ_of_le hdig.2⟩

theorem chars_toString (n : Nat) :
    chars (toString n) = (Nat.toDigits 10 n).map fun c => UInt8.ofNat c.toNat := by
  rw [chars, Nat.toString_eq_repr, Nat.toList_repr]

/-- The characters of a number. -/
theorem digit_of_mem_toString {n : Nat} {b : UInt8} (hb : b ∈ chars (toString n)) :
    0x30 ≤ b ∧ b ≤ 0x39 := by
  rw [chars_toString, List.mem_map] at hb
  obtain ⟨c, hc, rfl⟩ := hb
  obtain ⟨h1, h2⟩ := toNat_of_mem_toDigits hc
  rw [UInt8.le_iff_toNat_le, UInt8.le_iff_toNat_le, UInt8.toNat_ofNat', Nat.mod_eq_of_lt (by omega)]
  exact ⟨h1, Nat.le_of_lt_succ h2⟩

theorem foldl_digits {l : List Char} (hl : ∀ c ∈ l, 48 ≤ c.toNat ∧ c.toNat < 58) (k : Nat) :
    (l.map fun c => UInt8.ofNat c.toNat).foldl
      (fun (n : Int) c => n * 10 + (c.toNat - 0x30)) k = Nat.ofDigitChars 10 l k := by
  induction l generalizing k with
  | nil => rw [Nat.ofDigitChars_nil, List.map_nil, List.foldl_nil]
  | cons c l ih =>
    obtain ⟨h1, h2⟩ := hl c (.head _)
    have hstep : (k : Int) * 10 + ((UInt8.ofNat c.toNat).toNat - 0x30) =
        ((10 * k + (c.toNat - '0'.toNat) : Nat) : Int) := by
      rw [UInt8.toNat_ofNat', Nat.mod_eq_of_lt (by omega)]
      have hzero : '0'.toNat = 48 := rfl
      omega
    rw [Nat.ofDigitChars_cons, List.map_cons, List.foldl_cons, hstep,
      ih fun d hd => hl d (.tail _ hd)]

/-- `strtol` reads a number back. -/
theorem strtol_toString {n : Nat} (hn : n ≤ longMax) : 
    strtol (chars (toString n)) = ((n : Int), false) := by
  have hdigit (b : UInt8) (hb : b ∈ chars (toString n)) := digit_of_mem_toString hb
  obtain ⟨b, t, ht⟩ : ∃ b t, chars (toString n) = b :: t := by
    refine List.exists_cons_of_ne_nil fun hnil => Nat.toDigits_ne_nil (n := n) (b := 10) ?_
    rwa [chars_toString, List.map_eq_nil_iff] at hnil
  have hvalue : (b :: t).foldl (fun (n : Int) c => n * 10 + (c.toNat - 0x30)) 0 = n := by
    rw [← ht, chars_toString]
    refine (foldl_digits (fun c hc => toNat_of_mem_toDigits hc) 0).trans ?_
    rw [Nat.ofDigitChars_ten_toDigits]
  rw [ht] at hdigit ⊢
  obtain ⟨hlow, hhigh⟩ := hdigit b (.head _)
  have hspace : ((b :: t).dropWhile isspace) = b :: t := by
    have hb : isspace b = false := by
      rw [UInt8.le_iff_toNat_le] at hlow hhigh
      simp only [isspace, Bool.or_eq_false_iff, decide_eq_false_iff_not, Bool.and_eq_false_iff,
        UInt8.le_iff_toNat_le, ← UInt8.toNat_inj]
      have h1 : (0x30 : UInt8).toNat = 48 := rfl
      have h2 : (0x20 : UInt8).toNat = 32 := rfl
      have h3 : (0x0d : UInt8).toNat = 13 := rfl
      omega
    exact List.dropWhile_cons_of_neg (by simp [hb])
  have hdigits : ((b :: t).takeWhile fun c => 0x30 ≤ c && c ≤ 0x39) = b :: t := by
    refine List.takeWhile_eq_self_iff.2 fun c hc => ?_
    obtain ⟨h1, h2⟩ := hdigit c hc
    simp [h1, h2]
  have hminus : b ≠ 0x2d := by
    rintro rfl
    exact absurd hlow (by decide)
  have hplus : b ≠ 0x2b := by
    rintro rfl
    exact absurd hlow (by decide)
  rw [strtol]
  simp only [hspace]
  split
  · exact absurd (List.cons.inj ‹_›).1 hminus
  · exact absurd (List.cons.inj ‹_›).1 hplus
  · rw [hdigits, hvalue, if_neg (by omega), if_neg (by simp only [longMin]; omega)]

end Lib
