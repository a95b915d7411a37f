import Mathlib.Data.List.Basic
import Mathlib.Order.Basic

/-!
# Blocks of memory

A block is a list and a pointer into it a position, which may be outside of it: then there is
nothing to load, and a store has no result. `storeEach` stores one element after the other.
`storeEach_isSome_iff` says when that stays in the block, and `getElem?_storeEach` what is in it
afterwards; `loadEach_eq` is about loading one after the other.
-/

namespace Lib

variable {α : Type}

/-- `m[p]` -/
def load (m : List α) (p : Int) : Option α := if 0 ≤ p then m[p.toNat]? else none

/-- `m[p] = x` -/
def store (m : List α) (p : Int) (x : α) : Option (List α) :=
  if 0 ≤ p ∧ p < m.length then some (m.set p.toNat x) else none

/-- Loads, one after the other. -/
def loadEach (m : List α) (p : Int) : Nat → Option (List α)
  | 0 => some []
  | n + 1 => (load m p).bind fun x => (loadEach m (p + 1) n).map (x :: ·)

/-- Stores, one after the other. -/
def storeEach (m : List α) (p : Int) : List α → Option (List α)
  | [] => some m
  | x :: xs => (store m p x).bind fun m => storeEach m (p + 1) xs

section

variable {m m' : List α} {p : Int} {x : α} {xs : List α} {n : Nat}

/-! ## Stores -/

theorem store_eq_some_iff :
    store m p x = some m' ↔ (0 ≤ p ∧ p < m.length) ∧ m.set p.toNat x = m' := by
  rw [store]
  split
  · simp only [Option.some.injEq, *, and_self, true_and]
  · simp only [reduceCtorEq, *, false_and]

theorem store_length (h : store m p x = some m') : m'.length = m.length := by
  obtain ⟨-, rfl⟩ := store_eq_some_iff.1 h
  exact List.length_set

/-- The stores succeed iff they stay in the block. -/
theorem storeEach_isSome_iff :
    (storeEach m p xs).isSome = true ↔ xs = [] ∨ 0 ≤ p ∧ p + xs.length ≤ m.length := by
  induction xs generalizing m p with
  | nil => exact iff_of_true rfl (.inl rfl)
  | cons x xs ih =>
    rw [storeEach]
    cases hstore : store m p x with
    | none =>
      have hout : ¬(0 ≤ p ∧ p < m.length) := fun h => by
        rw [store, if_pos h] at hstore
        cases hstore
      refine iff_of_false (by simp) ?_
      simp only [reduceCtorEq, List.length_cons, false_or]
      omega
    | some m' =>
      obtain ⟨⟨hp, hlt⟩, -⟩ := store_eq_some_iff.1 hstore
      rw [Option.bind_some, ih, store_length hstore]
      simp only [reduceCtorEq, List.length_cons, false_or]
      cases xs with
      | nil =>
        refine iff_of_true (.inl rfl) ?_
        rw [List.length_nil]
        omega
      | cons y ys =>
        simp only [reduceCtorEq, List.length_cons, false_or]
        omega

theorem storeEach_length (h : storeEach m p xs = some m') : m'.length = m.length := by
  induction xs generalizing m p with
  | nil =>
    cases h
    rfl
  | cons x xs ih =>
    obtain ⟨m₁, hstore, h⟩ := Option.bind_eq_some_iff.1 h
    rw [ih h, store_length hstore]

theorem exists_storeEach (xs : List α) (hp : 0 ≤ p) (hlen : p + xs.length ≤ m.length) :
    ∃ m', storeEach m p xs = some m' ∧ m'.length = m.length := by
  obtain ⟨m', hm'⟩ := Option.isSome_iff_exists.1 (storeEach_isSome_iff.2 (.inr ⟨hp, hlen⟩))
  exact ⟨m', hm', storeEach_length hm'⟩

/-- What is in the block after the stores. -/
theorem getElem?_storeEach (h : storeEach m p xs = some m') (i : Nat) :
    m'[i]? = if p ≤ i ∧ i < p + xs.length then xs[(i - p).toNat]? else m[i]? := by
  induction xs generalizing m p with
  | nil =>
    cases h
    rw [if_neg (by rw [List.length_nil]; omega)]
  | cons x xs ih =>
    obtain ⟨m₁, hstore, h⟩ := Option.bind_eq_some_iff.1 h
    obtain ⟨⟨hp, hlt⟩, rfl⟩ := store_eq_some_iff.1 hstore
    rw [ih h, List.length_cons, List.getElem?_set]
    by_cases hself : p = i
    case pos =>
      subst hself
      rw [if_neg (by omega), if_pos (by omega), if_pos (by omega), if_pos (by omega), Int.sub_self]
      rfl
    rw [if_neg (by omega : ¬p.toNat = i)]
    by_cases hin : p + 1 ≤ i ∧ i < p + 1 + xs.length
    case neg => rw [if_neg hin, if_neg (by omega)]
    rw [if_pos hin, if_pos (by omega), show (i - p).toNat = (i - (p + 1)).toNat + 1 by omega]
    rfl

/-! ## Loads -/

/-- Loads that stay in the block. -/
theorem loadEach_eq (hp : 0 ≤ p) (hn : p + n ≤ m.length) :
    loadEach m p n = some ((m.drop p.toNat).take n) := by
  induction n generalizing p with
  | zero => rfl
  | succ n ih =>
    have hlt : p.toNat < m.length := by omega
    rw [loadEach, load, if_pos hp, List.getElem?_eq_getElem hlt, Option.bind_some,
      ih (by omega) (by omega), List.drop_eq_getElem_cons hlt, List.take_succ_cons,
      show (p + 1).toNat = p.toNat + 1 by omega]
    rfl

end

end Lib
