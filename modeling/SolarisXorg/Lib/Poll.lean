import Mathlib.Data.List.Chain

/-!
# A value kept by watching a version

A component looks at a sequence of states, each with a version that grows when the state changes. It
takes over a new value only at a state whose version it sees to have moved since the one before
(`seen`), and where that state has a value at all; otherwise it keeps the value it has (`poll`).

`poll_eq_iff` says when that value is right at the last state: a value found on the way has not gone
away again, and the version has moved if there is a value.
-/

namespace Lib

variable {A V : Type*}

/-- The value after the states of the list, `last` being the version before them. -/
def poll (seen : Nat → Nat → Bool) (ver : A → Nat) (val : A → Option V) :
    Nat → V → List A → V
  | _, v, [] => v
  | last, v, a :: l =>
    poll seen ver val (ver a) (if seen last (ver a) then (val a).getD v else v) l

variable {seen : Nat → Nat → Bool} {ver : A → Nat} {val : A → Option V} {last : Nat} {v : V}
  {a b : A} {l : List A}

/-- Of the version before only what is seen of it matters. -/
theorem poll_congr_last {last' : Nat} (h : ∀ n, seen last n = seen last' n) :
    poll seen ver val last v l = poll seen ver val last' v l := by
  cases l with
  | nil => rfl
  | cons a l => rw [poll, poll, h]

/-- Versions that tell the states apart: they do not go down along the list, the same version is the
same state as far as the value goes, and from one state to the next a moved version is seen. -/
structure Versioned (seen : Nat → Nat → Bool) (ver : A → Nat) (val : A → Option V) (l : List A) :
    Prop where
  mono : l.Pairwise fun a b => ver a ≤ ver b
  same : l.Pairwise fun a b => ver a = ver b → val a = val b
  seen : l.IsChain fun a b => seen (ver a) (ver b) = true ↔ ver a ≠ ver b

theorem Versioned.tail (h : Versioned seen ver val (a :: l)) : Versioned seen ver val l :=
  ⟨(List.pairwise_cons.1 h.mono).2, (List.pairwise_cons.1 h.same).2, h.seen.tail⟩

/-- The version of `a` is not the one before the states. -/
def Moved (seen : Nat → Nat → Bool) (ver : A → Nat) (last : Nat) (first a : A) : Prop :=
  seen last (ver first) = true ∨ ver a ≠ ver first

/-- A state that is not the first, seen from the second one. -/
theorem Versioned.moved_tail (h : Versioned seen ver val (a :: b :: l)) {d : A}
    (hd : ver d ≠ ver a) : Moved seen ver (ver a) b d := by
  by_cases hb : ver b = ver a
  · exact .inr fun e => hd (e.trans hb)
  · have hchain := (List.isChain_cons_cons.1 h.seen).1
    exact .inl (hchain.2 fun e => hb e.symm)

/-- If the version stays, so does the value. -/
theorem poll_of_not_moved (h : Versioned seen ver val (a :: l)) (hl : ∀ d ∈ l, ver d = ver a) :
    poll seen ver val (ver a) v l = v := by
  induction l generalizing a with
  | nil => rfl
  | cons b l ih =>
    have hb := hl b (.head _)
    have hnot : seen (ver a) (ver b) = false := by
      rw [Bool.eq_false_iff]
      exact fun hs => (List.isChain_cons_cons.1 h.seen).1.1 hs hb.symm
    rw [poll, hnot, if_neg (by simp)]
    exact ih h.tail fun d hd => (hl d (.tail _ hd)).trans hb.symm

/-- The same version is the same value. -/
theorem Versioned.val_eq (h : Versioned seen ver val (a :: l)) {d : A} (hd : d ∈ a :: l)
    (hv : ver d = ver a) : val a = val d := by
  rcases List.mem_cons.1 hd with rfl | hd
  · rfl
  · exact (List.pairwise_cons.1 h.same).1 d hd hv.symm

/-- If the value of the last version is there and the version has moved, it is taken over. -/
theorem poll_eq_val (h : Versioned seen ver val (a :: l)) {d : A} (hd : d ∈ a :: l)
    (hmax : ∀ e ∈ a :: l, ver e ≤ ver d) {w : V} (hw : val d = some w)
    (hm : Moved seen ver last a d) : poll seen ver val last v (a :: l) = w := by
  induction l generalizing a last v with
  | nil =>
    obtain rfl := List.mem_singleton.1 hd
    rcases hm with hs | hne
    · simp [poll, hs, hw]
    · exact absurd rfl hne
  | cons b l ih =>
    rw [poll]
    by_cases hver : ver d = ver a
    · -- the last version is the first one: no state in between is another one
      have hs : seen last (ver a) = true := hm.resolve_right fun hne => hne hver
      rw [if_pos hs, h.val_eq hd hver, hw, Option.getD_some]
      refine poll_of_not_moved h fun e he => ?_
      have hge := (List.pairwise_cons.1 h.mono).1 e he
      have hle := hmax e (.tail _ he)
      omega
    · have hd' : d ∈ b :: l := (List.mem_cons.1 hd).resolve_left fun e => hver (by rw [e])
      exact ih h.tail hd' (fun e he => hmax e (.tail _ he)) (h.moved_tail hver)

/-- A value that no state has is not taken over. -/
theorem poll_ne {v0 : V} (hv : v ≠ v0) (hl : ∀ d ∈ l, val d ≠ some v0) :
    poll seen ver val last v l ≠ v0 := by
  induction l generalizing last v with
  | nil => exact hv
  | cons a l ih =>
    rw [poll]
    refine ih ?_ fun d hd => hl d (.tail _ hd)
    split
    · cases hva : val a with
      | none => exact hv
      | some w =>
        rw [Option.getD_some]
        rintro rfl
        exact hl a (.head _) hva
    · exact hv

/-- A value found on the way stays. -/
theorem poll_ne_of_moved {v0 : V} (h : Versioned seen ver val (a :: l))
    (hl : ∀ d ∈ a :: l, val d ≠ some v0) {d : A} (hd : d ∈ a :: l) (hs : (val d).isSome = true)
    (hm : Moved seen ver last a d) : poll seen ver val last v (a :: l) ≠ v0 := by
  obtain ⟨w, hw⟩ := Option.isSome_iff_exists.1 hs
  induction l generalizing a last v with
  | nil =>
    obtain rfl := List.mem_singleton.1 hd
    rcases hm with hseen | hne
    · rw [poll, if_pos hseen, hw]
      rintro rfl
      exact hl d hd hw
    · exact absurd rfl hne
  | cons b l ih =>
    rw [poll]
    by_cases hver : ver d = ver a
    · have hseen : seen last (ver a) = true := hm.resolve_right fun hne => hne hver
      rw [if_pos hseen, h.val_eq hd hver, hw, Option.getD_some]
      refine poll_ne ?_ fun e he => hl e (.tail _ he)
      rintro rfl
      exact hl d hd hw
    · have hd' : d ∈ b :: l := (List.mem_cons.1 hd).resolve_left fun e => hver (by rw [e])
      exact ih h.tail (fun e he => hl e (.tail _ he)) hd' (h.moved_tail hver)

/-- A state that has moved for the second one has moved for the first one. -/
theorem Versioned.moved_of_tail (h : Versioned seen ver val (a :: b :: l)) {d : A}
    (hd : d ∈ b :: l) (hm : Moved seen ver (ver a) b d) : Moved seen ver last a d := by
  right
  intro hver
  have hab := (List.pairwise_cons.1 h.mono).1 b (.head _)
  have hbd : ver b ≤ ver d := by
    rcases List.mem_cons.1 hd with rfl | hd
    · exact le_rfl
    · exact (List.pairwise_cons.1 h.tail.mono).1 d hd
  have hb : ver a = ver b := by omega
  rcases hm with hseen | hne
  · exact (List.isChain_cons_cons.1 h.seen).1.1 hseen hb
  · exact hne (hver.trans hb)

/-- With no value to find, the value stays. -/
theorem poll_eq_of_none (h : Versioned seen ver val (a :: l))
    (hl : ∀ d ∈ a :: l, Moved seen ver last a d → val d = none) :
    poll seen ver val last v (a :: l) = v := by
  induction l generalizing a last v with
  | nil =>
    rw [poll, poll]
    split
    case isTrue hs => rw [hl a (.head _) (.inl hs), Option.getD_none]
    case isFalse => rfl
  | cons b l ih =>
    have hv : (if seen last (ver a) = true then (val a).getD v else v) = v := by
      split
      case isTrue hs => rw [hl a (.head _) (.inl hs), Option.getD_none]
      case isFalse => rfl
    rw [poll, hv]
    exact ih h.tail fun d hd hm => hl d (.tail _ hd) (h.moved_of_tail hd hm)

/-- **The value is right at the last version** iff a value found on the way is still there and, if
there is one, the version has moved. -/
theorem poll_eq_iff {v0 : V} (h : Versioned seen ver val (a :: l))
    (hl : ∀ d ∈ a :: l, val d ≠ some v0) {d : A} (hd : d ∈ a :: l)
    (hmax : ∀ e ∈ a :: l, ver e ≤ ver d) :
    poll seen ver val last v0 (a :: l) = (val d).getD v0 ↔
      (∀ e ∈ a :: l, Moved seen ver last a e → (val e).isSome = true → (val d).isSome = true) ∧
      ((val d).isSome = true → Moved seen ver last a d) := by
  cases hw : val d with
  | none =>
    rw [Option.getD_none]
    constructor
    · intro heq
      refine ⟨fun e he hm hs => ?_, fun hs => by cases hs⟩
      exact absurd heq (poll_ne_of_moved h hl he hs hm)
    · rintro ⟨hgone, -⟩
      refine poll_eq_of_none h fun e he hm => ?_
      by_contra hs
      have := hgone e he hm (Option.isSome_iff_ne_none.2 hs)
      cases this
  | some w =>
    rw [Option.getD_some]
    constructor
    · intro heq
      refine ⟨fun _ _ _ _ => rfl, fun _ => ?_⟩
      -- without a moved version nothing is taken over
      by_contra hm
      have hall : ∀ e ∈ a :: l, Moved seen ver last a e → val e = none := by
        intro e he hme
        exfalso
        rcases hme with hs | hne
        · exact hm (.inl hs)
        · apply hm
          right
          intro hda
          have hle := hmax e he
          rcases List.mem_cons.1 he with rfl | he
          · exact hne rfl
          · have hge := (List.pairwise_cons.1 h.mono).1 e he
            omega
      rw [poll_eq_of_none h hall] at heq
      exact hl d hd (heq ▸ hw)
    · rintro ⟨-, hm⟩
      exact poll_eq_val h hd hmax hw (hm rfl)

end Lib
