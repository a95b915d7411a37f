import Mathlib.Data.List.Basic

/-!
# A search that tries every choice

A choice is made for one level after the other; what is on offer may depend on the choices before
(`more`), next to the choice `first` that always is. `search` takes `first`, then each of the
others, goes on to the next level after each, and keeps the first result that no later one beats.
`Admits` says which lists of choices the search can make. It makes one of them
(`search_admits`), returns what that one gains (`total_search`) and no other gains more
(`total_le_search`).
-/

namespace Lib

variable {α : Type*} (first : α) (more : List α → List α) (gain : List α → α → Nat)

/-- A later result is kept only if it gains more. -/
def better (best r : Nat × List α) : Nat × List α :=
  if best.1 < r.1 then r else best

/-- The result of a choice before the results of the levels after it. -/
def cont (pre : List α) (a : α) (r : Nat × List α) : Nat × List α :=
  (gain pre a + r.1, a :: r.2)

/-- The search over `k` levels after the choices `pre`. -/
def search : Nat → List α → Nat × List α
  | 0, _ => (0, [])
  | k + 1, pre =>
    (more pre).foldl
      (fun best a => better best (cont gain pre a (search k (pre ++ [a]))))
      (cont gain pre first (search k (pre ++ [first])))

/-- What the choices gain. -/
def total : List α → List α → Nat
  | _, [] => 0
  | pre, a :: l => gain pre a + total (pre ++ [a]) l

/-- Every choice is on offer after the ones before it. -/
def Admits : List α → List α → Prop
  | _, [] => True
  | pre, a :: l => (a = first ∨ a ∈ more pre) ∧ Admits (pre ++ [a]) l

variable {first more gain}

/-! ## The best of the results so far -/

theorem foldl_better_cases (f : α → Nat × List α) (l : List α) (r : Nat × List α) :
    l.foldl (fun best a => better best (f a)) r = r ∨
      ∃ a ∈ l, l.foldl (fun best a => better best (f a)) r = f a := by
  induction l generalizing r with
  | nil => exact .inl rfl
  | cons a l ih =>
    rw [List.foldl_cons]
    rcases ih (better r (f a)) with h | ⟨b, hb, h⟩
    · rw [h, better]
      split
      · exact .inr ⟨a, List.mem_cons_self, rfl⟩
      · exact .inl rfl
    · exact .inr ⟨b, List.mem_cons_of_mem _ hb, h⟩

theorem le_better (best r : Nat × List α) :
    best.1 ≤ (better best r).1 ∧ r.1 ≤ (better best r).1 := by
  rw [better]
  split <;> omega

theorem le_foldl_better (f : α → Nat × List α) (l : List α) (r : Nat × List α) :
    r.1 ≤ (l.foldl (fun best a => better best (f a)) r).1 ∧
      ∀ a ∈ l, (f a).1 ≤ (l.foldl (fun best a => better best (f a)) r).1 := by
  induction l generalizing r with
  | nil => exact ⟨Nat.le_refl _, by simp⟩
  | cons a l ih =>
    rw [List.foldl_cons]
    obtain ⟨hr, hl⟩ := ih (better r (f a))
    obtain ⟨hbest, ha⟩ := le_better r (f a)
    refine ⟨Nat.le_trans hbest hr, fun b hb => ?_⟩
    rcases List.mem_cons.1 hb with rfl | hb
    · exact Nat.le_trans ha hr
    · exact hl b hb

/-! ## The search -/

variable (first more gain) in
/-- The result comes from one choice that is on offer. -/
theorem search_succ_cases (k : Nat) (pre : List α) :
    ∃ a, (a = first ∨ a ∈ more pre) ∧
      search first more gain (k + 1) pre =
        cont gain pre a (search first more gain k (pre ++ [a])) := by
  rw [search]
  rcases foldl_better_cases
      (fun a => cont gain pre a (search first more gain k (pre ++ [a]))) (more pre)
      (cont gain pre first (search first more gain k (pre ++ [first]))) with h | ⟨a, ha, h⟩
  · exact ⟨first, .inl rfl, h⟩
  · exact ⟨a, .inr ha, h⟩

theorem search_admits (k : Nat) (pre : List α) :
    Admits first more pre (search first more gain k pre).2 := by
  induction k generalizing pre with
  | zero => exact trivial
  | succ k ih =>
    obtain ⟨a, ha, h⟩ := search_succ_cases first more gain k pre
    rw [h]
    exact ⟨ha, ih _⟩

theorem total_search (k : Nat) (pre : List α) :
    total gain pre (search first more gain k pre).2 = (search first more gain k pre).1 := by
  induction k generalizing pre with
  | zero => rfl
  | succ k ih =>
    obtain ⟨a, -, h⟩ := search_succ_cases first more gain k pre
    rw [h, cont, total, ih]

/-- **No list of choices gains more than the one that is found.** -/
theorem total_le_search (l pre : List α) (h : Admits first more pre l) :
    total gain pre l ≤ (search first more gain l.length pre).1 := by
  induction l generalizing pre with
  | nil => exact Nat.zero_le _
  | cons a l ih =>
    obtain ⟨ha, hl⟩ := h
    have hcont : total gain pre (a :: l) ≤
        (cont gain pre a (search first more gain l.length (pre ++ [a]))).1 :=
      Nat.add_le_add_left (ih _ hl) _
    obtain ⟨hfirst, hmore⟩ := le_foldl_better
      (fun a => cont gain pre a (search first more gain l.length (pre ++ [a]))) (more pre)
      (cont gain pre first (search first more gain l.length (pre ++ [first])))
    rw [List.length_cons, search]
    rcases ha with rfl | ha
    · exact Nat.le_trans hcont hfirst
    · exact Nat.le_trans hcont (hmore a ha)

end Lib
