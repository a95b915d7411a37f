import Mathlib.Data.List.Induction
import Mathlib.Data.List.Lex
import Mathlib.Data.List.Sort
import Mathlib.Data.Prod.Lex

/-!
# Lists sorted by insertion, without duplicates

`insertNew` puts an element before the first one that it is less than, unless one that it is equal
to comes first: then the list stays as it is. The order compares keys in a linear order, which
several comparisons one after the other may do (`Compares.cons`, `Compares.pair`).

`sortNew_sorted`: the list that results is strictly sorted. `mem_sortNew`: it holds the first
element of each key. `map_key_sortNew_of_perm`: its keys do not depend on the order of insertion.
-/

namespace Lib

section Keys

variable {κ τ : Type} [LinearOrder κ] [LinearOrder τ] {o o' : Ordering}

/-- Lists are compared by their heads first. -/
theorem Compares.cons {a b : κ} {s t : List κ} (h : o.Compares a b) (h' : o'.Compares s t) :
    (o.then o').Compares (a :: s) (b :: t) := by
  cases o with
  | lt => exact List.cons_lt_cons_iff.2 (.inl h)
  | gt => exact List.cons_lt_cons_iff.2 (.inl h)
  | eq =>
    obtain rfl : a = b := h
    cases o' with
    | lt => exact List.cons_lt_cons_iff.2 (.inr ⟨rfl, h'⟩)
    | gt => exact List.cons_lt_cons_iff.2 (.inr ⟨rfl, h'⟩)
    | eq => exact congrArg (a :: ·) h'

/-- Pairs are compared by their first components first. -/
theorem Compares.pair {a b : κ} {s t : τ} (h : o.Compares a b) (h' : o'.Compares s t) :
    (o.then o').Compares (toLex (a, s)) (toLex (b, t)) := by
  cases o with
  | lt => exact Prod.Lex.toLex_lt_toLex.2 (.inl h)
  | gt => exact Prod.Lex.toLex_lt_toLex.2 (.inl h)
  | eq =>
    obtain rfl : a = b := h
    cases o' with
    | lt => exact Prod.Lex.toLex_lt_toLex.2 (.inr ⟨rfl, h'⟩)
    | gt => exact Prod.Lex.toLex_lt_toLex.2 (.inr ⟨rfl, h'⟩)
    | eq => exact congrArg (fun s => toLex (a, s)) h'

end Keys

section Insert

variable {α κ : Type} [LinearOrder κ]

/-- Insertion before the first element that `x` is less than, unless `x` is equal to one of those
passed. -/
def insertNew (order : α → α → Ordering) (x : α) : List α → List α
  | [] => [x]
  | y :: l =>
    match order x y with
    | .lt => x :: y :: l
    | .gt => y :: insertNew order x l
    | .eq => y :: l

/-- All elements, inserted one after the other. -/
def sortNew (order : α → α → Ordering) (l : List α) : List α :=
  l.foldl (fun sorted x => insertNew order x sorted) []

/-- Strictly sorted by a key. -/
def Sorted (key : α → κ) (l : List α) : Prop := l.Pairwise fun x y => key x < key y

variable {order : α → α → Ordering} {key : α → κ} {x y : α} {l l' : List α}

/-- What is in a sorted list after an insertion: `x` is new if no element has its key. -/
theorem mem_insertNew (horder : ∀ x y, (order x y).Compares (key x) (key y)) (h : Sorted key l) :
    y ∈ insertNew order x l ↔ y ∈ l ∨ y = x ∧ ∀ z ∈ l, key z ≠ key x := by
  fun_induction insertNew order x l with
  | case1 => simp
  | case2 z l hlt =>
    obtain ⟨hz, -⟩ := List.pairwise_cons.1 h
    have hlt' : Ordering.lt.Compares (key x) (key z) := hlt ▸ horder x z
    rw [Ordering.Compares] at hlt'
    have hnew : ∀ w ∈ z :: l, key w ≠ key x := by
      intro w hw
      rcases List.mem_cons.1 hw with rfl | hw
      · exact hlt'.ne'
      · exact (hlt'.trans (hz w hw)).ne'
    rw [List.mem_cons, or_comm, and_iff_left hnew]
  | case3 z l hgt ih =>
    obtain ⟨-, hl⟩ := List.pairwise_cons.1 h
    have hgt' : Ordering.gt.Compares (key x) (key z) := hgt ▸ horder x z
    rw [Ordering.Compares] at hgt'
    rw [List.mem_cons, ih hl, List.mem_cons, List.forall_mem_cons, or_assoc,
      and_iff_right hgt'.ne]
  | case4 z l heq =>
    have heq' : Ordering.eq.Compares (key x) (key z) := heq ▸ horder x z
    rw [Ordering.Compares] at heq'
    have hold : ¬∀ w ∈ z :: l, key w ≠ key x := fun hall => hall z (.head _) heq'.symm
    rw [iff_self_or]
    exact fun hall => absurd hall.2 hold

/-- Insertion keeps a list sorted. -/
theorem Sorted.insertNew (horder : ∀ x y, (order x y).Compares (key x) (key y)) (h : Sorted key l) :
    Sorted key (insertNew order x l) := by
  fun_induction Lib.insertNew order x l with
  | case1 => exact List.pairwise_singleton ..
  | case2 z l hlt =>
    have hlt' : Ordering.lt.Compares (key x) (key z) := hlt ▸ horder x z
    rw [Ordering.Compares] at hlt'
    refine List.pairwise_cons.2 ⟨fun w hw => ?_, h⟩
    rcases List.mem_cons.1 hw with rfl | hw
    · exact hlt'
    · exact hlt'.trans ((List.pairwise_cons.1 h).1 w hw)
  | case3 z l hgt ih =>
    obtain ⟨hz, hl⟩ := List.pairwise_cons.1 h
    refine List.pairwise_cons.2 ⟨fun w hw => ?_, ih hl⟩
    rcases (mem_insertNew horder hl).1 hw with hw | ⟨rfl, -⟩
    · exact hz w hw
    · exact (hgt ▸ horder w z : Ordering.gt.Compares (key w) (key z))
  | case4 z l _ => exact h

theorem sortNew_concat (l : List α) (x : α) :
    sortNew order (l ++ [x]) = insertNew order x (sortNew order l) := by
  rw [sortNew, List.foldl_append]
  rfl

/-- **The list that results is strictly sorted.** -/
theorem sortNew_sorted (horder : ∀ x y, (order x y).Compares (key x) (key y)) (l : List α) :
    Sorted key (sortNew order l) := by
  induction l using List.reverseRecOn with
  | nil => exact List.Pairwise.nil
  | append_singleton l x ih =>
    rw [sortNew_concat]
    exact ih.insertNew horder

/-- **It holds the first element of each key**, and nothing else. -/
theorem mem_sortNew (horder : ∀ x y, (order x y).Compares (key x) (key y)) (l : List α) (y : α) :
    y ∈ sortNew order l ↔ l.find? (fun x => key x = key y) = some y := by
  induction l using List.reverseRecOn generalizing y with
  | nil => exact ⟨fun h => absurd h List.not_mem_nil, fun h => nomatch h⟩
  | append_singleton l x ih =>
    have hnew : (∀ z ∈ sortNew order l, key z ≠ key x) ↔
        l.find? (fun z => key z = key x) = none := by
      constructor
      · intro hall
        rw [← Option.not_isSome_iff_eq_none]
        intro hsome
        obtain ⟨w, hw⟩ := Option.isSome_iff_exists.1 hsome
        have hkey : key w = key x :=
          of_decide_eq_true (List.find?_some (p := fun z => key z = key x) hw)
        refine hall w ((ih w).2 ?_) hkey
        rw [hkey]
        exact hw
      · intro hnone z hz hkey
        have hsome := (ih z).1 hz
        rw [hkey, hnone] at hsome
        exact nomatch hsome
    rw [sortNew_concat, mem_insertNew horder (sortNew_sorted horder l), ih, hnew,
      List.find?_append, Option.or_eq_some_iff, List.find?_singleton]
    constructor
    · rintro (h | ⟨rfl, h⟩)
      · exact .inl h
      · exact .inr ⟨h, by simp⟩
    · rintro (h | ⟨h, hx⟩)
      · exact .inl h
      · have hkey : x = y := by
          split at hx
          · exact Option.some.inj hx
          · exact nomatch hx
        subst hkey
        exact .inr ⟨rfl, h⟩

theorem mem_map_key_sortNew (horder : ∀ x y, (order x y).Compares (key x) (key y)) (k : κ) :
    k ∈ (sortNew order l).map key ↔ k ∈ l.map key := by
  constructor
  · intro hk
    obtain ⟨y, hy, rfl⟩ := List.mem_map.1 hk
    exact List.mem_map_of_mem (List.mem_of_find?_eq_some ((mem_sortNew horder l y).1 hy))
  · intro hk
    obtain ⟨x, hx, rfl⟩ := List.mem_map.1 hk
    obtain ⟨y, hy⟩ := Option.isSome_iff_exists.1
      (List.find?_isSome.2 ⟨x, hx, decide_eq_true rfl⟩ :
        (l.find? fun z => key z = key x).isSome = true)
    have hkey : key y = key x :=
      of_decide_eq_true (List.find?_some (p := fun z => key z = key x) hy)
    rw [← hkey] at hy ⊢
    exact List.mem_map_of_mem ((mem_sortNew horder l y).2 hy)

/-- **The keys do not depend on the order of insertion.** -/
theorem map_key_sortNew_of_perm (horder : ∀ x y, (order x y).Compares (key x) (key y))
    (h : l.Perm l') : (sortNew order l).map key = (sortNew order l').map key := by
  apply List.SortedLT.eq_of_mem_iff
  · exact (List.pairwise_map.2 (sortNew_sorted horder l)).sortedLT
  · exact (List.pairwise_map.2 (sortNew_sorted horder l')).sortedLT
  · intro k
    rw [mem_map_key_sortNew horder, mem_map_key_sortNew horder, (h.map key).mem_iff]

end Insert

end Lib
