import Mathlib.Data.List.Induction
import Mathlib.Logic.Basic

/-!
# Runs of a labelled transition relation

`Run step s ls t`: the labels `ls`, taken one after the other, lead from `s` to `t`. Components
are state machines whose labels are calls; an invariant of a component is proved of one step and
carried to every run by `Run.inv`, and a property of the state together with the calls made so far
by `Run.history`.
-/

namespace Lib

variable {S L : Type*} {step : S → L → S → Prop}

/-- The finite runs of `step`, grown at the end. -/
inductive Run (step : S → L → S → Prop) (s : S) : List L → S → Prop
  | nil : Run step s [] s
  | snoc {ls : List L} {t u : S} {l : L} :
      Run step s ls t → step t l u → Run step s (ls ++ [l]) u

namespace Run

/-- A property of history and state that every step extends holds after every run. -/
theorem history {P : List L → S → Prop} {s : S} (h0 : P [] s)
    (hs : ∀ ls t l u, P ls t → step t l u → P (ls ++ [l]) u) {ls : List L} {t : S}
    (h : Run step s ls t) : P ls t := by
  induction h with
  | nil => exact h0
  | snoc _ hst ih => exact hs _ _ _ _ ih hst

/-- An invariant kept by every step holds after every run. -/
theorem inv {I : S → Prop} {s : S} (h0 : I s) (hs : ∀ t l u, I t → step t l u → I u)
    {ls : List L} {t : S} (h : Run step s ls t) : I t :=
  h.history (P := fun _ => I) h0 fun _ => hs

/-- One run after another. -/
theorem append {s t u : S} {ls ls' : List L} (h : Run step s ls t) (h' : Run step t ls' u) :
    Run step s (ls ++ ls') u := by
  induction h' with
  | nil => rwa [List.append_nil]
  | snoc _ hst ih =>
    rw [← List.append_assoc]
    exact .snoc ih hst

/-- The run of a step function over given labels. -/
theorem of_foldlM {f : S → L → Option S} (hf : ∀ s l t, f s l = some t → step s l t) {s t : S}
    {ls : List L} (h : ls.foldlM f s = some t) : Run step s ls t := by
  induction ls using List.reverseRecOn generalizing t with
  | nil =>
    cases h
    exact .nil
  | append_singleton ls l ih =>
    rw [List.foldlM_append] at h
    obtain ⟨u, hu, hl⟩ := Option.bind_eq_some_iff.1 h
    rw [List.foldlM_cons] at hl
    obtain ⟨v, hv, hnil⟩ := Option.bind_eq_some_iff.1 hl
    cases hnil
    exact .snoc (ih hu) (hf _ _ _ hv)

/-- A run of a smaller relation is a run of the larger one. -/
theorem mono {step' : S → L → S → Prop} (hs : ∀ s l t, step s l t → step' s l t) {s : S}
    {ls : List L} {t : S} (h : Run step s ls t) : Run step' s ls t := by
  induction h with
  | nil => exact .nil
  | snoc _ hst ih => exact .snoc ih (hs _ _ _ hst)

end Run

end Lib
