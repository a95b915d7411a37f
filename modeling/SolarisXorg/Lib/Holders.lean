import Mathlib.Data.List.Nodup
import Mathlib.Data.List.Perm.Subperm
import Mathlib.Logic.Function.Basic

/-!
# Counting who points to an object

Owners `l` have a pointer each, `f`. `holders f l m` is the number of owners that point to `m`,
which is what a reference count of `m` has to be. Writing the pointer of one owner moves one unit
from the object it pointed to to the one it points to now (`holders_of_eq_off`). `tally` adds what
each owner has of an object when that can be more than one reference (`tally_of_eq_off`).
-/

namespace Lib

variable {ι κ : Type*} [DecidableEq κ] {f g : ι → Option κ} {l : List ι} {p : ι} {m : κ}

/-- The number of owners in `l` that point to `m`. -/
def holders (f : ι → Option κ) (l : List ι) (m : κ) : Nat := l.countP fun p => f p = some m

theorem holders_cons (f : ι → Option κ) (p : ι) (l : List ι) (m : κ) :
    holders f (p :: l) m = holders f l m + if f p = some m then 1 else 0 := by
  simp [holders, List.countP_cons]

theorem holders_congr (h : ∀ p ∈ l, f p = g p) (m : κ) : holders f l m = holders g l m :=
  List.countP_congr fun p hp => by rw [h p hp]

theorem holders_pos_iff : 0 < holders f l m ↔ ∃ p ∈ l, f p = some m := by
  simp [holders, List.countP_pos_iff]

/-- An owner that points elsewhere: what it held, and what it holds now. -/
theorem holders_of_eq_off (hnd : l.Nodup) (hp : p ∈ l) (h : ∀ q ∈ l, q ≠ p → g q = f q) (m : κ) :
    (holders g l m + if f p = some m then 1 else 0) =
      holders f l m + if g p = some m then 1 else 0 := by
  induction l with
  | nil => cases hp
  | cons q l ih =>
    obtain ⟨hq, hnd⟩ := List.nodup_cons.1 hnd
    rw [holders_cons, holders_cons]
    rcases List.mem_cons.1 hp with rfl | hp
    · have hl : holders g l m = holders f l m :=
        holders_congr (fun r hr => h r (by simp [hr]) fun he => hq (he ▸ hr)) m
      omega
    · have hqp : q ≠ p := fun he => hq (he ▸ hp)
      have hih := ih hnd hp fun r hr => h r (by simp [hr])
      rw [h q (by simp) hqp]
      omega

/-- An owner that points to nothing may leave. -/
theorem holders_filter_ne [DecidableEq ι] (hp : f p = none) (m : κ) :
    holders f (l.filter (· ≠ p)) m = holders f l m := by
  rw [holders, List.countP_filter]
  refine List.countP_congr fun q _ => ?_
  by_cases hq : q = p
  · simp [hq, hp]
  · simp [hq]

/-- With two holders there is another one. -/
theorem exists_holder_ne (hnd : l.Nodup) (h : 2 ≤ holders f l m) :
    ∃ q ∈ l, q ≠ p ∧ f q = some m := by
  by_contra hno
  push Not at hno
  have heq : holders f l m = (l.filter fun q => f q = some m).length :=
    List.countP_eq_length_filter
  have hsub : (l.filter fun q => f q = some m) ⊆ [p] := by
    intro q hq
    obtain ⟨hql, hqm⟩ := List.mem_filter.1 hq
    by_contra hne
    exact hno q hql (by simpa using hne) (by simpa using hqm)
  have hlen := ((hnd.filter _).subperm hsub).length_le
  simp only [List.length_singleton] at hlen
  omega

/-! ## Owners of several references -/

section
variable {a b : ι → Nat}

/-- What the owners in `l` have together. -/
def tally : List ι → (ι → Nat) → Nat
  | [], _ => 0
  | p :: l, a => a p + tally l a

theorem tally_cons (p : ι) (l : List ι) (a : ι → Nat) : tally (p :: l) a = a p + tally l a := rfl

theorem tally_congr (h : ∀ p ∈ l, a p = b p) : tally l a = tally l b := by
  induction l with
  | nil => rfl
  | cons p l ih => rw [tally_cons, tally_cons, h p (by simp), ih fun q hq => h q (by simp [hq])]

theorem tally_eq_zero (h : ∀ p ∈ l, a p = 0) : tally l a = 0 := by
  induction l with
  | nil => rfl
  | cons p l ih => rw [tally_cons, h p (by simp), ih fun q hq => h q (by simp [hq])]

theorem le_tally (hp : p ∈ l) : a p ≤ tally l a := by
  induction l with
  | nil => cases hp
  | cons q l ih =>
    rw [tally_cons]
    rcases List.mem_cons.1 hp with rfl | hp
    · omega
    · have hih := ih hp
      omega

/-- An owner that has something else now. -/
theorem tally_of_eq_off (hnd : l.Nodup) (hp : p ∈ l) (h : ∀ q ∈ l, q ≠ p → b q = a q) :
    tally l b + a p = tally l a + b p := by
  induction l with
  | nil => cases hp
  | cons q l ih =>
    obtain ⟨hq, hnd⟩ := List.nodup_cons.1 hnd
    rw [tally_cons, tally_cons]
    rcases List.mem_cons.1 hp with rfl | hp
    · have hl : tally l b = tally l a :=
        tally_congr fun r hr => h r (by simp [hr]) fun he => hq (he ▸ hr)
      omega
    · have hqp : q ≠ p := fun he => hq (he ▸ hp)
      have hih := ih hnd hp fun r hr => h r (by simp [hr])
      rw [h q (by simp) hqp]
      omega

end

end Lib
