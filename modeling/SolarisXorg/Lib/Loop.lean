import Mathlib.Data.List.Basic

/-!
# Loops and the memory they walk over

A loop body is a function from the state before a pass to the state after it, or to the result the
loop is left with (`Pass`). `loop body n` makes up to `n` passes; `Leaves body s r` is the loop
without a bound. If the passes lower a measure, the bound it gives is enough (`loop_of_leaves`). A
loop that goes from place to place stops at the first where it does not go on (`loop_walk`), and
`walk_le_iff` says whether that is behind a limit. For a loop that counts passes the invariant is
indexed by the count (`foldl_range`, `foldlM_range`).

Memory from a pointer on is a function of the offset, and `Holds m i l` says that the values `l`
stand in it from offset `i` on. `storeLoop` is the loop that stores into an array one value after the
other.
-/

namespace Lib

variable {σ ρ α : Type*}

/-! ## Passes -/

/-- What a pass through a loop body ends with. -/
inductive Pass (σ ρ : Type*)
  /-- go round again -/
  | next (s : σ)
  /-- leave the loop -/
  | leave (r : ρ)
  deriving DecidableEq, Repr

namespace Pass

/-- One part of a body after the other. -/
def andThen (p : Pass σ ρ) (f : σ → Pass σ ρ) : Pass σ ρ :=
  match p with
  | .next s => f s
  | .leave r => .leave r

/-- The same pass on a larger state. -/
def map {τ : Type*} (f : σ → τ) : Pass σ ρ → Pass τ ρ
  | .next s => .next (f s)
  | .leave r => .leave r

theorem andThen_eq_next {p : Pass σ ρ} {f : σ → Pass σ ρ} {s : σ} (h : p.andThen f = .next s) :
    ∃ t, p = .next t ∧ f t = .next s := by
  cases p with
  | next t => exact ⟨t, rfl, h⟩
  | leave r => cases h

theorem map_eq_next {τ : Type*} {f : σ → τ} {p : Pass σ ρ} {t : τ} (h : p.map f = .next t) :
    ∃ s, p = .next s ∧ f s = t := by
  cases p with
  | next s => exact ⟨s, rfl, Pass.next.inj h⟩
  | leave r => cases h

end Pass

/-- At most `n` passes; `none` when the loop has not been left by then. -/
def loop (body : σ → Pass σ ρ) : Nat → σ → Option ρ
  | 0, _ => none
  | n + 1, s =>
    match body s with
    | .next s' => loop body n s'
    | .leave r => some r

/-- The loop, entered with `s`, is left with `r`. -/
inductive Leaves (body : σ → Pass σ ρ) : σ → ρ → Prop
  | leave {s : σ} {r : ρ} : body s = .leave r → Leaves body s r
  | next {s s' : σ} {r : ρ} : body s = .next s' → Leaves body s' r → Leaves body s r

variable {body : σ → Pass σ ρ}

/-- With passes that lower a measure, one pass more than the measure is enough. -/
theorem loop_of_leaves {μ : σ → Nat} (hμ : ∀ s s', body s = .next s' → μ s' < μ s) {s : σ} {r : ρ}
    (h : Leaves body s r) : ∀ n, μ s < n → loop body n s = some r := by
  induction h with
  | leave hb =>
    intro n hn
    obtain ⟨k, rfl⟩ : ∃ k, n = k + 1 := ⟨n - 1, by omega⟩
    simp only [loop, hb]
  | next hb _ ih =>
    intro n hn
    obtain ⟨k, rfl⟩ : ∃ k, n = k + 1 := ⟨n - 1, by omega⟩
    have hlt := hμ _ _ hb
    simp only [loop, hb]
    exact ih k (by omega)

/-- With passes that lower a measure, the loop is left. -/
theorem loop_total {μ : σ → Nat} (hμ : ∀ s s', body s = .next s' → μ s' < μ s) {n : Nat} {s : σ}
    (hn : μ s < n) : ∃ r, loop body n s = some r := by
  induction n generalizing s with
  | zero => exact absurd hn (Nat.not_lt_zero _)
  | succ n ih =>
    simp only [loop]
    cases hb : body s with
    | next s' =>
      have hlt := hμ s s' hb
      exact ih (by omega)
    | leave r => exact ⟨r, rfl⟩

/-- Bodies that agree where an invariant holds make the same loop. -/
theorem loop_congr {body' : σ → Pass σ ρ} {I : σ → Prop}
    (h : ∀ s, I s → body s = body' s ∧ ∀ s', body s = .next s' → I s') {s : σ} (hs : I s) (n : Nat) :
    loop body n s = loop body' n s := by
  induction n generalizing s with
  | zero => rfl
  | succ n ih =>
    obtain ⟨heq, hnext⟩ := h s hs
    simp only [loop, ← heq]
    cases hb : body s with
    | next s' => exact ih (hnext s' hb)
    | leave r => rfl

/-- A loop that goes from place to place stops at the first one where it does not go on. -/
theorem loop_walk {At : Nat → σ → Prop} {goes : Nat → Prop} {fin : σ → ρ} {μ : σ → Nat}
    (hnext : ∀ k s, At k s → goes k → ∃ s', body s = .next s' ∧ At (k + 1) s')
    (hleave : ∀ k s, At k s → ¬ goes k → body s = .leave (fin s))
    (hμ : ∀ s s', body s = .next s' → μ s' < μ s) {s : σ} (hs : At 0 s) {n : Nat} (hn : μ s < n) :
    ∃ k t, loop body n s = some (fin t) ∧ At k t ∧ ¬ goes k ∧ ∀ i < k, goes i := by
  suffices ∀ n k s, At k s → (∀ i < k, goes i) → μ s < n →
      ∃ k t, loop body n s = some (fin t) ∧ At k t ∧ ¬ goes k ∧ ∀ i < k, goes i from
    this n 0 s hs (fun i hi => absurd hi (Nat.not_lt_zero i)) hn
  intro n
  induction n with
  | zero =>
    intro k s _ _ hn
    exact absurd hn (Nat.not_lt_zero _)
  | succ n ih =>
    intro k s hs hbefore hn
    by_cases hgoes : goes k
    · obtain ⟨s', hb, hs'⟩ := hnext k s hs hgoes
      have hlt := hμ s s' hb
      simp only [loop, hb]
      refine ih (k + 1) s' hs' (fun i hi => ?_) (by omega)
      rcases Nat.lt_succ_iff_lt_or_eq.mp hi with hi | rfl
      · exact hbefore i hi
      · exact hgoes
    · refine ⟨k, s, ?_, hs, hgoes, hbefore⟩
      simp only [loop, hleave k s hs hgoes]

/-- Such a loop, going on before `n` and with room for the next place, stays up to `n` exactly if no
step that has room goes over it. -/
theorem walk_le_iff {pos : Nat → Nat} {room : Nat → Prop} {n k : Nat} (hzero : pos 0 = 0)
    (hpos : ∀ k, pos k ≤ pos (k + 1)) (hroom : ∀ k, room (k + 1) → room k)
    (hstop : ¬ (pos k < n ∧ room (k + 1))) (hgoes : ∀ i < k, pos i < n ∧ room (i + 1)) :
    pos k ≤ n ↔ ∀ m, ¬ (pos m < n ∧ n < pos (m + 1) ∧ room (m + 1)) := by
  have hposLe : ∀ {i j}, i ≤ j → pos i ≤ pos j := fun h => by
    induction h with
    | refl => exact Nat.le_refl _
    | step _ ih => exact Nat.le_trans ih (hpos _)
  have hroomLe : ∀ {i j}, i ≤ j → room j → room i := fun h => by
    induction h with
    | refl => exact id
    | step _ ih => exact fun hr => ih (hroom _ hr)
  constructor
  · rintro hle m ⟨hm, hover, hr⟩
    rcases Nat.lt_or_ge m k with hmk | hmk
    · have := hposLe (Nat.succ_le_of_lt hmk)
      simp only [Nat.succ_eq_add_one] at this
      omega
    · have := hposLe hmk
      exact hstop ⟨by omega, hroomLe (Nat.succ_le_succ hmk) hr⟩
  · intro h
    cases k with
    | zero => omega
    | succ k =>
      obtain ⟨hk, hr⟩ := hgoes k (Nat.lt_succ_self k)
      have := h k
      by_contra hover
      exact this ⟨hk, by omega, hr⟩

/-! ## Counting loops -/

/-- What holds before a counting loop and is kept from each pass to the next holds after it. -/
theorem foldl_range {P : Nat → σ → Prop} {f : σ → Nat → σ} {n : Nat} {s : σ} (h0 : P 0 s)
    (hs : ∀ i < n, ∀ s, P i s → P (i + 1) (f s i)) : P n ((List.range n).foldl f s) := by
  induction n with
  | zero => exact h0
  | succ n ih =>
    rw [List.range_succ, List.foldl_append]
    exact hs n (Nat.lt_succ_self n) _ (ih fun i hi => hs i (by omega))

/-- The same for passes that can fail: the loop goes through all of them, or ends with an error for
which `Q` holds from then on. -/
theorem foldlM_range {ε : Type*} {P : Nat → σ → Prop} {Q : Nat → ε → Prop}
    {f : σ → Nat → Except ε σ} {n : Nat} {s : σ} (h0 : P 0 s)
    (hs : ∀ i < n, ∀ s, P i s →
      (∃ s', f s i = .ok s' ∧ P (i + 1) s') ∨ ∃ e, f s i = .error e ∧ Q (i + 1) e)
    (hQ : ∀ i < n, ∀ e, Q i e → Q (i + 1) e) :
    (∃ s', (List.range n).foldlM f s = .ok s' ∧ P n s') ∨
      ∃ e, (List.range n).foldlM f s = .error e ∧ Q n e := by
  induction n with
  | zero => exact .inl ⟨s, rfl, h0⟩
  | succ n ih =>
    rw [List.range_succ, List.foldlM_append]
    rcases ih (fun i hi => hs i (by omega)) fun i hi => hQ i (by omega) with
      ⟨t, ht, hP⟩ | ⟨e, he, hq⟩
    · have hlast : List.foldlM f t [n] = f t n := by
        rw [List.foldlM_cons]
        exact bind_pure (f t n)
      rw [ht]
      rcases hs n (Nat.lt_succ_self n) t hP with ⟨u, hu, hP'⟩ | ⟨e, he, hq⟩
      · exact .inl ⟨u, hlast.trans hu, hP'⟩
      · exact .inr ⟨e, hlast.trans he, hq⟩
    · rw [he]
      exact .inr ⟨e, rfl, hQ n (Nat.lt_succ_self n) e hq⟩

/-! ## Values in memory -/

/-- The values `l` stand at offset `i`. -/
def Holds (m : Nat → α) (i : Nat) : List α → Prop
  | [] => True
  | b :: l => m i = b ∧ Holds m (i + 1) l

@[simp] theorem holds_nil (m : Nat → α) (i : Nat) : Holds m i [] := trivial

@[simp] theorem holds_cons {m : Nat → α} {i : Nat} {b : α} {l : List α} :
    Holds m i (b :: l) ↔ m i = b ∧ Holds m (i + 1) l := Iff.rfl

theorem holds_append {m : Nat → α} {i : Nat} {k l : List α} :
    Holds m i (k ++ l) ↔ Holds m i k ∧ Holds m (i + k.length) l := by
  induction k generalizing i with
  | nil => simp
  | cons b k ih =>
    have hlen : i + 1 + k.length = i + (k.length + 1) := by omega
    simp only [List.cons_append, holds_cons, ih, List.length_cons, hlen, and_assoc]

/-- Of two lists at the same place, one is the beginning of the other. -/
theorem holds_comparable {m : Nat → α} {i : Nat} {k l : List α} (hk : Holds m i k)
    (hl : Holds m i l) : k <+: l ∨ l <+: k := by
  induction k generalizing i l with
  | nil => exact .inl List.nil_prefix
  | cons b k ih =>
    cases l with
    | nil => exact .inr List.nil_prefix
    | cons b' l =>
      have hb : b = b' := hk.1.symm.trans hl.1
      simp only [hb, List.prefix_cons_inj]
      exact ih hk.2 hl.2

theorem length_flatMap_eq {β : Type*} {f : α → List β} {n : Nat} {l : List α}
    (h : ∀ a ∈ l, (f a).length = n) : (l.flatMap f).length = n * l.length := by
  rw [List.length_flatMap, List.map_congr_left h, List.map_const', List.sum_replicate_nat,
    Nat.mul_comm]

/-- Two concatenations over one list, of chunks of the same lengths, agree only chunk by chunk. -/
theorem flatMap_eq_iff {β : Type*} {f g : α → List β} {l : List α}
    (hlen : ∀ a ∈ l, (f a).length = (g a).length) :
    l.flatMap f = l.flatMap g ↔ ∀ a ∈ l, f a = g a := by
  induction l with
  | nil => simp
  | cons a l ih =>
    have ih := ih fun b hb => hlen b (List.mem_cons_of_mem a hb)
    simp only [List.flatMap_cons, List.forall_mem_cons, ← ih]
    constructor
    · intro h
      exact List.append_inj h (hlen a List.mem_cons_self)
    · intro ⟨ha, hl⟩
      rw [ha, hl]

/-- Whether the values stand there, read one after the other up to the first that does not. -/
def reads [BEq α] (m : Nat → α) (i : Nat) : List α → Bool
  | [] => true
  | b :: l => m i == b && reads m (i + 1) l

theorem reads_iff [BEq α] [LawfulBEq α] {m : Nat → α} {i : Nat} {l : List α} :
    reads m i l = true ↔ Holds m i l := by
  induction l generalizing i with
  | nil => simp [reads]
  | cons b l ih => simp [reads, ih]

/-! ## Loops that store -/

section Store

variable (f : Nat → α) (k : Nat) (l : List α)

/-- `for (j = 0; j < n; j++) l[j + k] = f(j)` -/
def storeLoop (n : Nat) : List α := (List.range n).foldl (fun l j => l.set (j + k) (f j)) l

theorem storeLoop_succ (n : Nat) :
    storeLoop f k l (n + 1) = (storeLoop f k l n).set (n + k) (f n) := by
  simp only [storeLoop, List.range_succ, List.foldl_append, List.foldl_cons, List.foldl_nil]

theorem storeLoop_length (n : Nat) : (storeLoop f k l n).length = l.length := by
  induction n with
  | zero => rfl
  | succ n ih => rw [storeLoop_succ, List.length_set, ih]

/-- What stands where after the loop. -/
theorem storeLoop_getElem? {n : Nat} (hl : k + n ≤ l.length) (i : Nat) :
    (storeLoop f k l n)[i]? = if k ≤ i ∧ i < k + n then some (f (i - k)) else l[i]? := by
  induction n with
  | zero =>
    rw [if_neg (by omega)]
    rfl
  | succ n ih =>
    rw [storeLoop_succ, List.getElem?_set, ih (by omega), storeLoop_length]
    by_cases hi : n + k = i
    · rw [if_pos hi, if_pos (by omega), if_pos (by omega)]
      congr 2
      omega
    · rw [if_neg hi]
      exact if_congr (by omega) rfl rfl

end Store

end Lib
