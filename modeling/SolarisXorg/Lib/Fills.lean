import Mathlib.Data.List.Basic

/-!
# Programs that fill a store of limited size

`Fills R size room k f g`: from states related by `R` the program `f`, which may fail, does what the
function `g` does on an unlimited store, and takes up `k` more places at most, as long as that many
are left. The rules are those of a cost: it adds up over a sequence (`Fills.andThen`), and a loop
whose body takes one place takes one for each pass (`Fills.foldlM`).
-/

namespace Lib

variable {σ τ α : Type*} {R : σ → τ → Prop} {size : τ → Nat} {room k l : Nat}
  {f f' : σ → Option σ} {g g' : τ → τ}

/-- `f` follows `g` and takes up `k` places at most. -/
def Fills (R : σ → τ → Prop) (size : τ → Nat) (room k : Nat) (f : σ → Option σ) (g : τ → τ) :
    Prop :=
  ∀ s t, R s t → size t + k ≤ room → ∃ s', f s = some s' ∧ R s' (g t) ∧ size (g t) ≤ size t + k

namespace Fills

theorem mono (h : Fills R size room k f g) (hkl : k ≤ l) : Fills R size room l f g := by
  intro s t hR hroom
  obtain ⟨s', hs', hR', hsize⟩ := h s t hR (by omega)
  exact ⟨s', hs', hR', by omega⟩

/-- Nothing done. -/
theorem skip : Fills R size room k some id := fun s _ hR _ => ⟨s, rfl, hR, Nat.le_add_right _ _⟩

theorem andThen (h : Fills R size room k f g) (h' : Fills R size room l f' g') :
    Fills R size room (k + l) (fun s => f s >>= f') fun t => g' (g t) := by
  intro s t hR hroom
  obtain ⟨s₁, hs₁, hR₁, hsize₁⟩ := h s t hR (by omega)
  obtain ⟨s₂, hs₂, hR₂, hsize₂⟩ := h' s₁ (g t) hR₁ (by omega)
  refine ⟨s₂, ?_, hR₂, ?_⟩
  · show (f s).bind f' = some s₂
    rw [hs₁]
    exact hs₂
  · show size (g' (g t)) ≤ size t + (k + l)
    omega

/-- A branch both programs take. -/
theorem ite {c : Prop} [Decidable c] (h : Fills R size room k f g)
    (h' : Fills R size room k f' g') :
    Fills R size room k (fun s => if c then f s else f' s) fun t => if c then g t else g' t := by
  by_cases hc : c
  · simpa only [if_pos hc] using h
  · simpa only [if_neg hc] using h'

/-- A loop whose body takes up `k` places at most. -/
theorem foldlM {body : σ → α → Option σ} {body' : τ → α → τ} (xs : List α)
    (h : ∀ x, Fills R size room k (fun s => body s x) fun t => body' t x) :
    Fills R size room (xs.length * k) (fun s => xs.foldlM body s) fun t => xs.foldl body' t := by
  induction xs with
  | nil => exact skip
  | cons x xs ih =>
    rw [List.length_cons, Nat.succ_mul, Nat.add_comm]
    exact (h x).andThen ih

end Fills

end Lib
