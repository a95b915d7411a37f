import SolarisXorg.Drm.I2c

/-!
# The retries of `i2c_transfer`

`i2c_transfer` leaves its loop when an attempt returns 0 or the positive `ETIMEDOUT`, while a
`master_xfer` returns the number of messages or a negative error: neither a success nor an error ends
the loop. `Settled num rets` says what the values of the attempts should look like, and
`settled_cons` and `settled_cons_fail` how they look after one more attempt in front; the induction
over the attempts is `i2cTransferLoop_settled_iff`.
-/

namespace Drm

variable {S : Type*} {masterXfer : S → Int × S} {late : Nat → Bool} {num ret retries : Int} {s : S}
  {rets : List Int}

/-- The first success is the last attempt, so that there is at most one, and the value returned is
that of a success if and only if there is one. -/
def Settled (num : Int) (rets : List Int) : Prop :=
  (∀ k, rets[k]? = some num → k + 1 = rets.length) ∧ rets.count num ≤ 1 ∧
    (rets.getLastD 0 = num ↔ num ∈ rets)

theorem settled_nil (hnum : 0 < num) : Settled num [] := by
  refine ⟨by simp, by simp, ?_⟩
  simp only [List.getLastD_nil, List.not_mem_nil, iff_false]
  omega

theorem settled_singleton (ret : Int) : Settled num [ret] := by
  refine ⟨fun k hk => ?_, List.count_le_length, by simp [eq_comm]⟩
  obtain ⟨hlt, -⟩ := List.getElem?_eq_some_iff.1 hk
  simp only [List.length_singleton] at hlt ⊢
  omega

/-- Nothing may follow a success. -/
theorem settled_cons : Settled num (num :: rets) ↔ rets = [] := by
  constructor
  · intro h
    have hlen := h.1 0 rfl
    simpa [eq_comm] using hlen
  · rintro rfl
    exact settled_singleton num

/-- A failure in front changes nothing. -/
theorem settled_cons_fail (hnum : 0 < num) (hret : ret ≠ num) :
    Settled num (ret :: rets) ↔ Settled num rets := by
  have hlast : (ret :: rets).getLastD 0 = num ↔ rets.getLastD 0 = num := by
    cases rets with
    | nil =>
      simp only [List.getLastD_cons, List.getLastD_nil]
      constructor <;> intro h <;> omega
    | cons r rs => simp only [List.getLastD_cons]
  have hmem : num ∈ ret :: rets ↔ num ∈ rets := by
    simp only [List.mem_cons, Ne.symm hret, false_or]
  have hstop : (∀ k, (ret :: rets)[k]? = some num → k + 1 = (ret :: rets).length) ↔
      ∀ k, rets[k]? = some num → k + 1 = rets.length := by
    constructor
    · intro h k hk
      have := h (k + 1) (by simpa using hk)
      simpa using this
    · intro h k hk
      cases k with
      | zero => exact absurd (by simpa using hk) hret
      | succ k =>
        have := h k (by simpa using hk)
        simpa using this
  unfold Settled
  rw [hlast, hmem, hstop, List.count_cons_of_ne hret]

theorem attemptRet_succ (s : S) (k : Nat) :
    attemptRet masterXfer s (k + 1) = attemptRet masterXfer (masterXfer s).2 k := by
  simp only [attemptRet, Function.iterate_succ, Function.comp_apply]

theorem i2cTransferLoop_eq_nil (i n : Nat) (s : S) :
    (i2cTransferLoop masterXfer late i n s).1 = [] ↔ n = 0 := by
  cases n with
  | zero => simp [i2cTransferLoop]
  | succ n =>
    simp only [i2cTransferLoop, Nat.add_one_ne_zero, iff_false]
    split
    · exact List.cons_ne_nil _ _
    · split <;> exact List.cons_ne_nil _ _

/-- The loop from attempt `i` on. -/
theorem i2cTransferLoop_settled_iff (hnum : 0 < num)
    (hxfer : ∀ s, (masterXfer s).1 = num ∨ (masterXfer s).1 < 0) (i n : Nat) (s : S) :
    Settled num (i2cTransferLoop masterXfer late i n s).1 ↔
      ∀ k, k + 1 < n → (∀ j ≤ k, late (i + j) = false) →
        (∀ j < k, attemptRet masterXfer s j ≠ num) → attemptRet masterXfer s k = num →
          num = ETIMEDOUT := by
  induction n generalizing i s with
  | zero =>
    apply iff_of_true (settled_nil hnum)
    intro k hk
    omega
  | succ n ih =>
    have hzero : attemptRet masterXfer s 0 = (masterXfer s).1 := rfl
    simp only [i2cTransferLoop]
    split
    case isTrue hstop =>
      apply iff_of_true (settled_singleton _)
      intro k _ _ hfail hk
      -- a value that ends the loop is no failure, so it is the first success
      have hfirst : (masterXfer s).1 = num := by
        rcases hxfer s with h | h
        · exact h
        · simp only [ETIMEDOUT] at hstop
          omega
      simp only [ETIMEDOUT] at hstop ⊢
      omega
    case isFalse hstop =>
      split
      case isTrue hlate =>
        apply iff_of_true (settled_singleton _)
        intro k _ hl
        have hnow : late i = false := hl 0 (Nat.zero_le k)
        rw [hnow] at hlate
        cases hlate
      case isFalse hlate =>
        rcases hxfer s with hok | hneg
        · -- the success is followed by another attempt unless it was the last one
          rw [hok, settled_cons, i2cTransferLoop_eq_nil]
          constructor
          · intro hn k hk
            omega
          · intro h
            refine Nat.eq_zero_of_not_pos fun hn => hstop (.inr ?_)
            rw [hok]
            refine h 0 (by omega) (fun j hj => ?_) (fun j hj => by omega) (hzero.trans hok)
            obtain rfl : j = 0 := by omega
            simpa using hlate
        · have hfail : (masterXfer s).1 ≠ num := by omega
          rw [settled_cons_fail hnum hfail, ih]
          constructor
          · intro h k hk hl hf hs
            cases k with
            | zero => exact absurd hs hfail
            | succ k =>
              refine h k (by omega) (fun j hj => ?_) (fun j hj => ?_) (by rwa [← attemptRet_succ])
              · have := hl (j + 1) (by omega)
                rwa [← Nat.add_assoc, Nat.add_right_comm] at this
              · rw [← attemptRet_succ]
                exact hf (j + 1) (by omega)
          · intro h k hk hl hf hs
            refine h (k + 1) (by omega) (fun j hj => ?_) (fun j hj => ?_) (by rwa [attemptRet_succ])
            · cases j with
              | zero => simpa using hlate
              | succ j =>
                rw [← Nat.add_assoc, Nat.add_right_comm]
                exact hl j (by omega)
            · cases j with
              | zero => exact hfail
              | succ j =>
                rw [attemptRet_succ]
                exact hf j (by omega)

/-- **What `i2c_transfer` makes of its attempts.** For a `master_xfer` that returns `num` or a
negative error, `i2c_transfer` stops at the first success, completes the messages at most once and
returns `num` if and only if an attempt succeeded, exactly when `num` is the number `ETIMEDOUT`, or the
first success is the last attempt that `retries` allows, or the timeout has passed by then, or no
attempt before that succeeds. -/
theorem i2cTransfer_settled_iff (hnum : 0 < num)
    (hxfer : ∀ s, (masterXfer s).1 = num ∨ (masterXfer s).1 < 0) (s : S) :
    ((∀ k, (i2cTransfer masterXfer late retries s).1[k]? = some num →
        k + 1 = (i2cTransfer masterXfer late retries s).1.length) ∧
      (i2cTransfer masterXfer late retries s).1.count num ≤ 1 ∧
      (i2cTransferRet masterXfer late retries s = num ↔
        num ∈ (i2cTransfer masterXfer late retries s).1)) ↔
    ∀ k : Nat, (k : Int) < retries → (∀ j ≤ k, late j = false) →
      (∀ j < k, attemptRet masterXfer s j ≠ num) → attemptRet masterXfer s k = num →
        num = ETIMEDOUT := by
  apply (i2cTransferLoop_settled_iff hnum hxfer 0 (retries + 1).toNat s).trans
  simp only [Nat.zero_add]
  constructor
  · intro h k hk
    exact h k (by omega)
  · intro h k hk
    exact h k (by omega)

/-! ## The bit-banged adapter -/

/-- `i2c_do_transfer` returns the number of messages or a negative error. -/
theorem i2cBitXfer_ret (msgs : List I2cMsg) (b : I2cBus) :
    (i2cBitXfer msgs b).1 = msgs.length ∨ (i2cBitXfer msgs b).1 < 0 := by
  unfold i2cBitXfer
  split
  case h_1 n c hok =>
    refine .inl ?_
    simp only [i2cDoTransfer, bind, EStateM.bind] at hok
    split at hok
    · split at hok
      · cases hok
        rfl
      · cases hok
    · cases hok
  case h_2 e c _ =>
    have hneg : -e.code < 0 := by cases e <;> decide
    exact .inr hneg

/-- A device that does not answer, on an adapter whose timeout has passed after one attempt. -/
theorem i2cTransfer_settled_nobody :
    i2cTransferRet (i2cBitXfer [⟨0x38, 0, 0, 0⟩]) (fun _ => true) 3
        ⟨true, true, 1, [], [], fun _ => 0⟩ = -6 ∧
      (i2cTransfer (i2cBitXfer [⟨0x38, 0, 0, 0⟩]) (fun _ => true) 3
        ⟨true, true, 1, [], [], fun _ => 0⟩).1.count 1 ≤ 1 := by
  refine ⟨by decide, ?_⟩
  refine ((i2cTransfer_settled_iff (by decide) (i2cBitXfer_ret [⟨0x38, 0, 0, 0⟩]) _).2 ?_).2.1
  intro k _ hlate
  cases hlate 0 (Nat.zero_le k)

/-- A device that acknowledges its address in two transfers on end. -/
def twiceHeard : List Period := released :: listen ++ released :: listen ++ [released]

/-- An empty write to that device with one retry: it is completed twice. -/
theorem i2cTransfer_repeats_success :
    ¬ ∀ (msgs : List I2cMsg) (retries : Int) (late : Nat → Bool) (b : I2cBus), msgs ≠ [] →
      (i2cTransfer (i2cBitXfer msgs) late retries b).1.count (msgs.length : Int) ≤ 1 ∧
        (i2cTransferRet (i2cBitXfer msgs) late retries b = msgs.length ↔
          (msgs.length : Int) ∈ (i2cTransfer (i2cBitXfer msgs) late retries b).1) := by
  intro h
  have htwice : (i2cTransfer (i2cBitXfer [⟨0x38, 0, 0, 0⟩]) (fun _ => false) 1
      ⟨true, true, 1, twiceHeard, [], fun _ => 0⟩).1 = [1, 1] := by decide
  have hcount := (h [⟨0x38, 0, 0, 0⟩] 1 (fun _ => false) ⟨true, true, 1, twiceHeard, [], fun _ => 0⟩
    (by simp)).1
  rw [htwice] at hcount
  exact absurd hcount (by decide)

end Drm
