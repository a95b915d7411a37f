import Mathlib.Algebra.GroupWithZero.Nat
import Mathlib.Data.List.Basic

/-!
# The longest beginning of a list that fits

`Fits w n p l`: `p` is the longest beginning of `l` whose weights sum to at most `n`; there is only
one (`Fits.unique`). `takeRoom w room t l` takes elements off the front one by one, each if it goes
into `room t` together with the `t` taken before it. With the same room all the time this finds the
longest beginning that fits (`fits_takeRoom`). With less room it finds the same beginning exactly when
every element of it passes (`takeRoom_eq_iff`); when the room is counted down by what was taken, the
last one decides (`passes_sub_iff`).
-/

namespace Lib

variable {α : Type*} (w : α → Nat)

/-- The sum of the weights. -/
def weight (l : List α) : Nat := (l.map w).sum

@[simp] theorem weight_nil : weight w [] = 0 := rfl

@[simp] theorem weight_cons (x : α) (l : List α) : weight w (x :: l) = w x + weight w l := by
  simp [weight]

/-- The longest beginning of `l` of weight at most `n`. -/
structure Fits (n : Nat) (p l : List α) : Prop where
  begins : p <+: l
  le : weight w p ≤ n
  longest : ∀ q, q <+: l → weight w q ≤ n → q.length ≤ p.length

/-- Elements from the front as long as they go into the room; `t` is taken already. -/
def takeRoom (room : Nat → Nat) : Nat → List α → List α
  | _, [] => []
  | t, x :: l => if w x + t ≤ room t then x :: takeRoom room (w x + t) l else []

/-- Every element of the list goes into the room when its turn comes. -/
def Passes (room : Nat → Nat) : Nat → List α → Prop
  | _, [] => True
  | t, x :: l => w x + t ≤ room t ∧ Passes room (w x + t) l

variable {w} {n t : Nat} {room : Nat → Nat} {p q l : List α}

theorem Fits.unique (hp : Fits w n p l) (hq : Fits w n q l) : p = q := by
  have hlen : p.length = q.length :=
    Nat.le_antisymm (hq.longest p hp.begins hp.le) (hp.longest q hq.begins hq.le)
  rw [List.prefix_iff_eq_take.1 hp.begins, List.prefix_iff_eq_take.1 hq.begins, hlen]

theorem takeRoom_prefix : takeRoom w room t l <+: l := by
  induction l generalizing t with
  | nil => exact List.nil_prefix
  | cons x l ih =>
    rw [takeRoom]
    split
    · exact (List.prefix_cons_inj x).2 ih
    · exact List.nil_prefix

theorem weight_takeRoom_le (ht : t ≤ n) : weight w (takeRoom w (fun _ => n) t l) + t ≤ n := by
  induction l generalizing t with
  | nil => simpa [takeRoom] using ht
  | cons x l ih =>
    rw [takeRoom]
    split
    · have := ih (t := w x + t) ‹_›
      rw [weight_cons]
      omega
    · simpa using ht

theorem length_le_takeRoom (hq : q <+: l) (hn : weight w q + t ≤ n) :
    q.length ≤ (takeRoom w (fun _ => n) t l).length := by
  induction l generalizing t q with
  | nil => simp [List.prefix_nil.1 hq]
  | cons x l ih =>
    rcases List.prefix_cons_iff.1 hq with rfl | ⟨q', rfl, hq'⟩
    · exact Nat.zero_le _
    · rw [weight_cons] at hn
      have hx : w x + t ≤ n := by omega
      have hlen := ih (t := w x + t) hq' (by omega)
      rw [takeRoom, if_pos hx, List.length_cons, List.length_cons]
      omega

/-- **One element after the other is as much as goes in.** -/
theorem fits_takeRoom : Fits w n (takeRoom w (fun _ => n) 0 l) l where
  begins := takeRoom_prefix
  le := weight_takeRoom_le (Nat.zero_le n)
  longest _ hq hn := length_le_takeRoom hq hn

/-- **Less room** finds the same beginning exactly when all of it passes. -/
theorem takeRoom_eq_iff (hroom : ∀ t, room t ≤ n) :
    takeRoom w room t l = takeRoom w (fun _ => n) t l ↔
      Passes w room t (takeRoom w (fun _ => n) t l) := by
  induction l generalizing t with
  | nil => simp [takeRoom, Passes]
  | cons x l ih =>
    simp only [takeRoom]
    by_cases hx : w x + t ≤ room t
    · rw [if_pos hx, if_pos (Nat.le_trans hx (hroom t)), List.cons_inj_right, ih, Passes]
      exact (and_iff_right hx).symm
    · rw [if_neg hx]
      split
      · exact iff_of_false (List.cons_ne_nil _ _).symm fun h => hx h.1
      · exact iff_of_true rfl trivial

/-- When what was taken is counted against the room a second time, the last element passes last. -/
theorem passes_sub_iff :
    Passes w (n - ·) t p ↔ p = [] ∨ (weight w p.dropLast + t) + (weight w p + t) ≤ n := by
  induction p generalizing t with
  | nil => simp [Passes]
  | cons x p ih =>
    rw [Passes, ih]
    cases p with
    | nil =>
      simp only [List.cons_ne_nil, weight_cons, weight_nil, List.dropLast_singleton, true_or,
        and_true, false_or]
      omega
    | cons y p =>
      simp only [List.cons_ne_nil, weight_cons, List.dropLast_cons_cons, false_or]
      omega

end Lib
