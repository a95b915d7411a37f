import Mathlib.Data.List.Basic

/-!
# Calls that return an error code

Kernel code returns 0 or an error, and a caller passes an error on at once (`if (ret) goto err`).
`Act σ` is such a call as a function of the state: the code and the state after, or nothing if it
never returns. `andThen` and `each` are the two ways to go on after a 0. `Keeps R a` says that the
call, whatever it returns, ends in a state that is `R`-related to the one it began in; `each_forall`
is the rule for a loop that has returned 0.
-/

namespace Lib

variable {σ α : Type*}

/-- A call: the error code and the state after it, or nothing if it never returns. -/
def Act (σ : Type*) := σ → Option (Int × σ)

namespace Act

/-- A call that returns. -/
def call (f : σ → Int × σ) : Act σ := fun s => some (f s)

/-- A change of the state that cannot fail. -/
def modify (f : σ → σ) : Act σ := fun s => some (0, f s)

/-- The second call if the first returns 0, else the first one's error. -/
def andThen (a b : Act σ) : Act σ := fun s =>
  match a s with
  | none => none
  | some (ret, t) => if ret = 0 then b t else some (ret, t)

/-- One call for each element until one fails. -/
def each (f : α → Act σ) : List α → Act σ
  | [] => modify id
  | x :: xs => (f x).andThen (each f xs)

/-- Where the loop stops with an error: the element, and the state in which its call began. -/
def failsAt (f : α → Act σ) : List α → σ → Option (α × σ)
  | [], _ => none
  | x :: xs, s =>
    match f x s with
    | none => none
    | some (ret, t) => if ret = 0 then failsAt f xs t else some (x, s)

/-- A loop over one list after another. -/
theorem each_append (f : α → Act σ) (l l' : List α) :
    each f (l ++ l') = (each f l).andThen (each f l') := by
  induction l with
  | nil => rfl
  | cons x xs ih =>
    funext s
    show (f x).andThen (each f (xs ++ l')) s = ((f x).andThen (each f xs)).andThen (each f l') s
    rw [ih]
    unfold andThen
    cases f x s with
    | none => rfl
    | some r =>
      dsimp only
      by_cases hr : r.1 = 0
      · simp only [hr, if_true]
      · simp only [hr, if_false]

/-! ## What a call ends in -/

/-- Whatever the call returns, it ends in a state related to the one it began in. -/
def Keeps (R : σ → σ → Prop) (a : Act σ) : Prop := ∀ ⦃s ret t⦄, a s = some (ret, t) → R s t

theorem andThen_eq_some {a b : Act σ} {s : σ} {r : Int × σ} (h : a.andThen b s = some r) :
    (∃ t, a s = some (0, t) ∧ b t = some r) ∨ (r.1 ≠ 0 ∧ a s = some r) := by
  unfold andThen at h
  split at h
  · cases h
  · rename_i ret t ha
    split at h
    · rename_i hret
      subst hret
      exact .inl ⟨t, ha, h⟩
    · rename_i hret
      cases h
      exact .inr ⟨hret, ha⟩

theorem andThen_eq_zero {a b : Act σ} {s t : σ} (h : a.andThen b s = some (0, t)) :
    ∃ u, a s = some (0, u) ∧ b u = some (0, t) := by
  rcases andThen_eq_some h with hs | ⟨hne, -⟩
  · exact hs
  · exact absurd rfl hne

section Rules

variable {R : σ → σ → Prop} {a b : Act σ}

theorem Keeps.call {f : σ → Int × σ} (h : ∀ s, R s (f s).2) : Keeps R (Act.call f) := by
  intro s ret t ht
  have hf : f s = (ret, t) := Option.some.inj ht
  have hs := h s
  rwa [hf] at hs

theorem Keeps.modify {f : σ → σ} (h : ∀ s, R s (f s)) : Keeps R (Act.modify f) := by
  intro s ret t ht
  cases Option.some.inj ht
  exact h s

theorem Keeps.ite {c : σ → Prop} [DecidablePred c] (ha : Keeps R a) (hb : Keeps R b) :
    Keeps R fun s => if c s then a s else b s := by
  intro s ret t h
  dsimp only at h
  split at h
  · exact ha h
  · exact hb h

theorem Keeps.andThen (htrans : ∀ ⦃s t u⦄, R s t → R t u → R s u) (ha : Keeps R a)
    (hb : Keeps R b) : Keeps R (a.andThen b) := by
  intro s ret t h
  rcases andThen_eq_some h with ⟨u, hu, hbu⟩ | ⟨-, hs⟩
  · exact htrans (ha hu) (hb hbu)
  · exact ha hs

theorem Keeps.each (hrefl : ∀ s, R s s) (htrans : ∀ ⦃s t u⦄, R s t → R t u → R s u)
    {f : α → Act σ} {l : List α} (hf : ∀ x ∈ l, Keeps R (f x)) : Keeps R (each f l) := by
  induction l with
  | nil => exact .modify hrefl
  | cons x xs ih =>
    apply Keeps.andThen htrans (hf x List.mem_cons_self)
    exact ih fun y hy => hf y (List.mem_cons_of_mem x hy)

/-- A loop ends after its last pass, or in the first pass that fails. -/
theorem each_cases (hrefl : ∀ s, R s s) (htrans : ∀ ⦃s t u⦄, R s t → R t u → R s u)
    {f : α → Act σ} {l : List α} (hf : ∀ x ∈ l, ∀ ⦃s t⦄, f x s = some (0, t) → R s t)
    {s t : σ} {ret : Int} (h : Act.each f l s = some (ret, t)) :
    (ret = 0 ∧ failsAt f l s = none ∧ R s t) ∨
      (ret ≠ 0 ∧ ∃ x ∈ l, ∃ u, failsAt f l s = some (x, u) ∧ R s u ∧ f x u = some (ret, t)) := by
  induction l generalizing s with
  | nil =>
    cases Option.some.inj h
    exact .inl ⟨rfl, rfl, hrefl _⟩
  | cons x xs ih =>
    rcases andThen_eq_some h with ⟨u, hu, hxs⟩ | ⟨hne, hx⟩
    · have hsu := hf x List.mem_cons_self hu
      have hfail : failsAt f (x :: xs) s = failsAt f xs u := by simp [failsAt, hu]
      rw [hfail]
      rcases ih (fun y hy => hf y (List.mem_cons_of_mem x hy)) hxs with
        ⟨hret, hnone, hut⟩ | ⟨hret, y, hy, v, hv, huv, hfy⟩
      · exact .inl ⟨hret, hnone, htrans hsu hut⟩
      · exact .inr ⟨hret, y, List.mem_cons_of_mem x hy, v, hv, htrans hsu huv, hfy⟩
    · have hret : ret ≠ 0 := hne
      refine .inr ⟨hret, x, List.mem_cons_self, s, ?_, hrefl s, hx⟩
      simp [failsAt, hx, hret]

/-- A loop over calls that keep `R` unless they end badly: then they fail and leave `L`. So does the
loop, and it ends badly exactly if the pass that it stops in does. -/
theorem each_bad {L : σ → σ → Prop} {Bad : α → σ → Prop} (hrefl : ∀ s, R s s)
    (htrans : ∀ ⦃s t u⦄, R s t → R t u → R s u) (hleft : ∀ ⦃s t u⦄, R s t → L t u → L s u)
    {f : α → Act σ} {l : List α} (hf : ∀ x ∈ l, ∀ ⦃s ret t⦄, f x s = some (ret, t) →
      (¬ Bad x s ∧ R s t) ∨ (Bad x s ∧ ret ≠ 0 ∧ L s t))
    {s t : σ} {ret : Int} (h : Act.each f l s = some (ret, t)) :
    (¬ (∃ x u, failsAt f l s = some (x, u) ∧ Bad x u) ∧ R s t) ∨
      ((∃ x u, failsAt f l s = some (x, u) ∧ Bad x u) ∧ ret ≠ 0 ∧ L s t) := by
  have hok : ∀ x ∈ l, ∀ ⦃s t⦄, f x s = some (0, t) → R s t := by
    intro x hx s t hst
    rcases hf x hx hst with ⟨-, hR⟩ | ⟨-, hne, -⟩
    · exact hR
    · exact absurd rfl hne
  rcases each_cases hrefl htrans hok h with ⟨-, hnone, hR⟩ | ⟨hret, x, hx, u, hu, hsu, hfx⟩
  · refine .inl ⟨fun hbad => ?_, hR⟩
    obtain ⟨x, u, hu, -⟩ := hbad
    rw [hnone] at hu
    cases hu
  · rcases hf x hx hfx with ⟨hgood, hut⟩ | ⟨hbad, -, hL⟩
    · refine .inl ⟨fun hbad => ?_, htrans hsu hut⟩
      obtain ⟨y, v, hv, hyv⟩ := hbad
      rw [hu] at hv
      cases hv
      exact hgood hyv
    · exact .inr ⟨⟨x, u, hu, hbad⟩, hret, hleft hsu hL⟩

/-- A loop whose pass makes `Q` true of its element, and in which no pass makes it false of any. -/
theorem each_forall {Q : α → σ → Prop} {f : α → Act σ} {l : List α}
    (hkeep : ∀ x ∈ l, ∀ y ∈ l, Keeps (fun s t => Q y s → Q y t) (f x))
    (hf : ∀ x ∈ l, ∀ ⦃s t⦄, f x s = some (0, t) → Q x t) {s t : σ}
    (h : Act.each f l s = some (0, t)) : ∀ x ∈ l, Q x t := by
  induction l generalizing s with
  | nil => nofun
  | cons x xs ih =>
    obtain ⟨u, hu, hxs⟩ := andThen_eq_zero h
    have hrest : Keeps (fun s t => Q x s → Q x t) (Act.each f xs) := by
      apply Keeps.each (R := fun s t => Q x s → Q x t) (fun _ h => h) fun _ _ _ h₁ h₂ h => h₂ (h₁ h)
      intro y hy
      exact hkeep y (List.mem_cons_of_mem x hy) x List.mem_cons_self
    intro y hy
    rcases List.mem_cons.1 hy with rfl | hy
    · exact hrest hxs (hf y List.mem_cons_self hu)
    · refine ih ?_ ?_ hxs y hy
      · intro z hz w hw
        exact hkeep z (List.mem_cons_of_mem x hz) w (List.mem_cons_of_mem x hw)
      · intro z hz
        exact hf z (List.mem_cons_of_mem x hz)

end Rules

end Act

end Lib
