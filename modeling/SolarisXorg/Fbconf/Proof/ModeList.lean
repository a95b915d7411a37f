import Mathlib.Data.List.Forall2
import SolarisXorg.Fbconf.ModeList

/-!
# The list of video modes is sorted and without duplicates

`nameCompare_compares`: `xf86nameCompare` is the lexicographic order of the names' characters, with
the NUL at the end. So the loop compares two modes by their `sortKey`s, which are in a linear order
(`compareModes_compares`), and the list is what `sortNew` makes of the modes that have pixels
(`foldl_fbcInsertModeInList`). `before_iff` and `sameKeys_iff` say the same of the documented order;
`fbcInsertModeInList_sorted` puts the results together.
-/

namespace Fbc

open Lib

/-! ## Names -/

/-- What names are in lexicographic order of. -/
def nameChars (name : CString) : List Int := (nameKey name.bytes).map schar ++ [0]

theorem nameKey_dropWhile (s : List UInt8) : nameKey (s.dropWhile isIgnored) = nameKey s := by
  induction s with
  | nil => rfl
  | cons c s ih =>
    by_cases hc : isIgnored c = true
    · rw [List.dropWhile_cons_of_pos hc, ih, nameKey, nameKey, List.filter_cons_of_neg (by simpa)]
    · rw [List.dropWhile_cons_of_neg hc]

theorem nameKey_of_dropWhile {s t : List UInt8} {c : UInt8} (h : s.dropWhile isIgnored = c :: t) :
    nameKey s = tolower c :: nameKey t := by
  have hc : isIgnored c = false := head?_dropWhile c (by rw [h]; rfl)
  rw [← nameKey_dropWhile, h, nameKey, List.filter_cons_of_pos (by simpa), List.map_cons]
  rfl

theorem nulFree_of_dropWhile {s t : List UInt8} {c : UInt8} (hs : NulFree s)
    (h : s.dropWhile isIgnored = c :: t) : c ≠ 0 ∧ NulFree t := by
  have hsub : c :: t ⊆ s := h ▸ (List.dropWhile_sublist isIgnored).subset
  constructor
  · rintro rfl
    exact hs (hsub (.head _))
  · exact fun ht => hs (hsub (.tail _ ht))

theorem schar_inj {c d : UInt8} (h : schar c = schar d) : c = d := by
  have hc := c.toNat_lt
  have hd := d.toNat_lt
  have h80 : (0x80 : UInt8).toNat = 128 := rfl
  simp only [schar, UInt8.lt_iff_toNat_lt] at h
  rw [← UInt8.toNat_inj]
  split at h <;> split at h <;> omega

/-- What `tolower` keeps of a character: its sign, and that it is not the NUL. -/
theorem schar_tolower {c : UInt8} (hc : c ≠ 0) :
    schar (tolower c) ≠ 0 ∧ (0 < schar (tolower c) ↔ 0 < schar c) := by
  have hne : c.toNat ≠ 0 := fun h => hc (UInt8.toNat_inj.1 h)
  have hlt := c.toNat_lt
  have h80 : (0x80 : UInt8).toNat = 128 := rfl
  simp only [schar, tolower, UInt8.lt_iff_toNat_lt]
  split
  case isFalse =>
    refine ⟨?_, Iff.rfl⟩
    split <;> omega
  case isTrue h =>
    obtain ⟨h1, h2⟩ := h
    rw [UInt8.le_iff_toNat_le] at h1 h2
    have hA : (0x41 : UInt8).toNat = 65 := rfl
    have hZ : (0x5a : UInt8).toNat = 90 := rfl
    have h20 : (0x20 : UInt8).toNat = 32 := rfl
    rw [UInt8.toNat_add, h20, Nat.mod_eq_of_lt (by omega), if_pos (by omega), if_pos (by omega)]
    omega

/-- Names that differ in the first character. -/
theorem ascending_compares_cons {a b : Int} (h : a ≠ b) (s t : List Int) :
    (ascending (a - b)).Compares (a :: s) (b :: t) := by
  rw [ascending]
  split
  · exact List.cons_lt_cons_iff.2 (.inl (by omega))
  split
  · exact List.cons_lt_cons_iff.2 (.inl (by omega))
  · omega

/-- `xf86nameCompare` is the lexicographic order. -/
theorem nameCompare_compares {s1 s2 : List UInt8} (h1 : NulFree s1) (h2 : NulFree s2) :
    (ascending (xf86nameCompare s1 s2)).Compares ((nameKey s1).map schar ++ [0])
      ((nameKey s2).map schar ++ [0]) := by
  fun_induction xf86nameCompare s1 s2 with
  | case1 s1 s2 hd1 hd2 =>
    rw [← nameKey_dropWhile s1, hd1, ← nameKey_dropWhile s2, hd2]
    exact rfl
  | case2 s1 s2 c1 t1 hd1 hd2 =>
    obtain ⟨hc, -⟩ := nulFree_of_dropWhile h1 hd1
    obtain ⟨hne, hsign⟩ := schar_tolower hc
    rw [nameKey_of_dropWhile hd1, ← nameKey_dropWhile s2, hd2]
    have hraw : schar c1 ≠ 0 := fun h => hc (schar_inj (d := 0) h)
    have hasc : ascending (schar c1) = ascending (schar (tolower c1) - 0) := by
      rw [Int.sub_zero, ascending, ascending]
      by_cases hpos : 0 < schar c1
      case neg => rw [if_pos (by omega), if_pos (by omega)]
      have hpos' := hsign.2 hpos
      rw [if_neg (by omega), if_pos hpos, if_neg (by omega), if_pos hpos']
    rw [hasc]
    exact ascending_compares_cons hne ..
  | case3 s1 s2 c2 t2 hd1 hd2 =>
    obtain ⟨hc, -⟩ := nulFree_of_dropWhile h2 hd2
    obtain ⟨hne, -⟩ := schar_tolower hc
    rw [nameKey_of_dropWhile hd2, ← nameKey_dropWhile s1, hd1]
    exact ascending_compares_cons hne.symm ..
  | case4 s1 s2 c2 t2 c1 t1 hd1 hd2 heq ih =>
    obtain ⟨-, ht1⟩ := nulFree_of_dropWhile h1 hd1
    obtain ⟨-, ht2⟩ := nulFree_of_dropWhile h2 hd2
    rw [nameKey_of_dropWhile hd1, nameKey_of_dropWhile hd2]
    exact Compares.cons (o := .eq) heq (ih ht1 ht2)
  | case5 s1 s2 c2 t2 c1 t1 hd1 hd2 hne =>
    rw [nameKey_of_dropWhile hd1, nameKey_of_dropWhile hd2]
    exact ascending_compares_cons hne ..

theorem ascending_lt {n : Int} : ascending n = .lt ↔ n < 0 := by
  rw [ascending]
  split
  · exact iff_of_true rfl ‹_›
  split
  · exact iff_of_false (fun h => nomatch h) ‹_›
  · exact iff_of_false (fun h => nomatch h) ‹_›

theorem ascending_eq {n : Int} : ascending n = .eq ↔ n = 0 := by
  rw [ascending]
  split
  · exact iff_of_false (fun h => nomatch h) (by omega)
  split
  · exact iff_of_false (fun h => nomatch h) (by omega)
  · exact iff_of_true rfl (by omega)

/-- A name is equal to itself. -/
theorem xf86nameCompare_self (name : CString) : xf86nameCompare name.bytes name.bytes = 0 := by
  have hname := nameCompare_compares name.nulFree name.nulFree
  exact ascending_eq.1 (hname.eq_eq.2 rfl)

/-! ## Modes -/

/-- All keys of a mode. -/
def ModeLine.sortKey (m : ModeLine) : List Int ×ₗ List Int ×ₗ List Int :=
  toLex (m.displayKey, toLex (nameChars m.mlIdentifier, m.restKey))

variable {m n : ModeLine}

theorem before_iff : Before m n ↔ m.sortKey < n.sortKey := by
  have hname := nameCompare_compares m.mlIdentifier.nulFree n.mlIdentifier.nulFree
  rw [Before, ModeLine.sortKey, ModeLine.sortKey, Prod.Lex.toLex_lt_toLex,
    Prod.Lex.toLex_lt_toLex, ← ascending_lt, hname.eq_lt, ← ascending_eq, hname.eq_eq]
  rfl

theorem sameKeys_iff : SameKeys m n ↔ m.sortKey = n.sortKey := by
  have hname := nameCompare_compares m.mlIdentifier.nulFree n.mlIdentifier.nulFree
  rw [SameKeys, ModeLine.sortKey, ModeLine.sortKey, toLex_inj, Prod.mk.injEq, toLex_inj,
    Prod.mk.injEq, ← ascending_eq, hname.eq_eq]
  rfl

theorem descending_compares (a b : Int32) : (descending a b).Compares (-a.toInt) (-b.toInt) := by
  simp only [descending, gt_iff_lt, Int32.lt_iff_toInt_lt]
  split
  · exact (by omega : -a.toInt < -b.toInt)
  split
  · exact (by omega : -b.toInt < -a.toInt)
  · exact (by omega : -a.toInt = -b.toInt)

/-- The loop compares two modes by their keys. -/
theorem compareModes_compares (m n : ModeLine) :
    (compareModes m n).Compares m.sortKey n.sortKey := by
  have hnil : Ordering.eq.Compares ([] : List Int) [] := rfl
  have hdisplay := Compares.cons (descending_compares m.mlHdisplay n.mlHdisplay) <|
    Compares.cons (descending_compares m.mlVdisplay n.mlVdisplay) <|
    Compares.cons (descending_compares m.frequency n.frequency) hnil
  have hname := nameCompare_compares m.mlIdentifier.nulFree n.mlIdentifier.nulFree
  have hrest := Compares.cons (descending_compares m.mlHtotal n.mlHtotal) <|
    Compares.cons (descending_compares m.mlVtotal n.mlVtotal) <|
    Compares.cons (descending_compares m.mlClock n.mlClock) <|
    Compares.cons (descending_compares m.mlHsyncstart n.mlHsyncstart) <|
    Compares.cons (descending_compares m.mlHsyncend n.mlHsyncend) <|
    Compares.cons (descending_compares m.mlVsyncstart n.mlVsyncstart) <|
    Compares.cons (descending_compares m.mlVsyncend n.mlVsyncend) <|
    Compares.cons (descending_compares m.mlVscan n.mlVscan) <|
    Compares.cons (descending_compares m.mlHskew n.mlHskew) <|
    Compares.cons (descending_compares m.mlFlags n.mlFlags) hnil
  have hall := Compares.pair hdisplay (Compares.pair hname hrest)
  rw [Ordering.then_eq, Ordering.then_eq, Ordering.then_assoc, Ordering.then_assoc] at hall
  exact hall

/-! ## The list -/

section Lists

variable {Ptr : Type} {entry : Ptr → ModeLine}

/-- What `fbc_insert_mode_in_list` makes of a sequence of modes. -/
theorem foldl_fbcInsertModeInList (modes : List Ptr) :
    modes.foldl (fbcInsertModeInList entry) [] =
      sortNew (fun new mode => compareModes (entry new) (entry mode))
        (modes.filter fun x => 0 < (entry x).total) := by
  rw [sortNew, List.foldl_filter]
  congr 1
  funext modeList new
  by_cases h : (entry new).total ≤ 0
  case neg => rw [fbcInsertModeInList, if_neg h, if_pos (by simpa using h)]
  rw [fbcInsertModeInList, if_pos h, if_neg (by simpa using h)]

/-- `fbc_get_mode_list` inserts all entries, one after the other. -/
theorem fbcGetModeList_eq (monModelineLst : List Ptr) (modesSections : List (List Ptr)) :
    fbcGetModeList entry monModelineLst modesSections =
      (monModelineLst ++ modesSections.flatten).foldl (fbcInsertModeInList entry) [] := by
  rw [fbcGetModeList, List.foldl_append, List.foldl_flatten]
  rfl

/-- **The list of modes**: it is strictly in the documented order, an entry is in it if and only if
it is the first with its keys among those with pixels, all keys of such entries are there, and a
permutation of the entries makes for the same keys in the same order. -/
theorem fbcInsertModeInList_sorted (entry : Ptr → ModeLine) (modes : List Ptr) :
    (modes.foldl (fbcInsertModeInList entry) []).Pairwise
        (fun x y => Before (entry x) (entry y)) ∧
      (∀ y, y ∈ modes.foldl (fbcInsertModeInList entry) [] ↔
        ∃ before after, modes = before ++ y :: after ∧ 0 < (entry y).total ∧
          ∀ x ∈ before, 0 < (entry x).total → ¬SameKeys (entry x) (entry y)) ∧
      (∀ x ∈ modes, 0 < (entry x).total →
        ∃ y ∈ modes.foldl (fbcInsertModeInList entry) [], SameKeys (entry x) (entry y)) ∧
      ∀ modes', modes.Perm modes' →
        List.Forall₂ (fun x y => SameKeys (entry x) (entry y))
          (modes.foldl (fbcInsertModeInList entry) [])
          (modes'.foldl (fbcInsertModeInList entry) []) := by
  have horder (x y : Ptr) := compareModes_compares (entry x) (entry y)
  refine ⟨?_, fun y => ?_, fun x hx hpos => ?_, fun modes' hperm => ?_⟩
  · rw [foldl_fbcInsertModeInList]
    exact (sortNew_sorted horder _).imp before_iff.2
  · rw [foldl_fbcInsertModeInList, mem_sortNew horder, List.find?_filter,
      List.find?_eq_some_iff_append]
    simp only [sameKeys_iff, decide_eq_true_eq, and_true, Bool.not_eq_true',
      decide_eq_false_iff_not, not_and]
    constructor
    · rintro ⟨hpos, before, after, happ, hfirst⟩
      exact ⟨before, after, happ, hpos, hfirst⟩
    · rintro ⟨before, after, happ, hpos, hfirst⟩
      exact ⟨hpos, before, after, happ, hfirst⟩
  · have hkey : (entry x).sortKey ∈
        ((modes.filter fun x => 0 < (entry x).total).map fun x => (entry x).sortKey) :=
      List.mem_map_of_mem (List.mem_filter.2 ⟨hx, decide_eq_true hpos⟩)
    rw [← mem_map_key_sortNew horder, ← foldl_fbcInsertModeInList, List.mem_map] at hkey
    obtain ⟨y, hy, hxy⟩ := hkey
    exact ⟨y, hy, sameKeys_iff.2 hxy.symm⟩
  · rw [foldl_fbcInsertModeInList, foldl_fbcInsertModeInList]
    have hkeys := map_key_sortNew_of_perm horder (hperm.filter fun x => 0 < (entry x).total)
    rw [← List.forall₂_eq_eq_eq, List.forall₂_map_left_iff, List.forall₂_map_right_iff] at hkeys
    exact hkeys.imp fun x y h => sameKeys_iff.2 h

end Lists

end Fbc
