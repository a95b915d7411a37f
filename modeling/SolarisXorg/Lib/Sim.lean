import Mathlib.Logic.Basic

/-!
# One failing program follows another

Two programs over different states, both of which may fail. `Sim P Q E m w`: from states related by
`P` the programs `m` and `w` both succeed, with the same value and in states related by `Q`, or both
fail, and then `E` relates the state in which `m` fails to the error of `w`. `Sim.bind` and
`Sim.ite` are the rules for sequences and branches.
-/

namespace Lib

variable {ε δ S T α β : Type}

/-- How two runs end. -/
inductive SimRes (Q : S → T → Prop) (E : S → δ → Prop) :
    EStateM.Result ε S α → EStateM.Result δ T α → Prop
  | ok {a : α} {s : S} {t : T} : Q s t → SimRes Q E (.ok a s) (.ok a t)
  | error {e : ε} {d : δ} {s : S} {t : T} : E s d → SimRes Q E (.error e s) (.error d t)

/-- `m` follows `w` (module doc). -/
def Sim (P Q : S → T → Prop) (E : S → δ → Prop) (m : EStateM ε S α) (w : EStateM δ T α) : Prop :=
  ∀ s t, P s t → SimRes Q E (m.run s) (w.run t)

namespace Sim

variable {P Q R : S → T → Prop} {E : S → δ → Prop} {m : EStateM ε S α} {w : EStateM δ T α}

theorem pure (a : α) : Sim P P E (Pure.pure a : EStateM ε S α) (Pure.pure a : EStateM δ T α) :=
  fun _ _ h => .ok h

theorem bind {f : α → EStateM ε S β} {g : α → EStateM δ T β} (h : Sim P Q E m w)
    (hf : ∀ a, Sim Q R E (f a) (g a)) : Sim P R E (m >>= f) (w >>= g) := by
  intro s t hst
  have hres := h s t hst
  rw [EStateM.run_bind, EStateM.run_bind]
  cases hm : m.run s with
  | ok a s' =>
    cases hw : w.run t with
    | ok a' t' =>
      rw [hm, hw] at hres
      cases hres with
      | ok hq => exact hf a s' t' hq
    | error d t' =>
      rw [hm, hw] at hres
      cases hres
  | error e s' =>
    cases hw : w.run t with
    | ok a' t' =>
      rw [hm, hw] at hres
      cases hres
    | error d t' =>
      rw [hm, hw] at hres
      cases hres with
      | error he => exact .error he

theorem ite {m' : EStateM ε S α} {w' : EStateM δ T α} {c : Prop} [Decidable c]
    (h : Sim P Q E m w) (h' : Sim P Q E m' w') :
    Sim P Q E (if c then m else m') (if c then w else w') := by
  split
  · exact h
  · exact h'

end Sim

end Lib
