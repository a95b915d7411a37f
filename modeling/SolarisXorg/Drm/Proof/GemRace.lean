import SolarisXorg.Drm.GemRace

/-!
# Flink and close

`RaceInv`: who holds which reference at which program counter. `drm_gem_flink_ioctl` publishes the
name before it takes the name's reference, so that `drm_gem_object_handle_free` can drop a reference
that is not there yet; the count is then one too low until flink catches up. Every step keeps the
invariant, except for the two that `Race.InOrder` excludes (`raceStep_inv`). Of these two, the close
breaks the property at once (`close_out_of_order`), and the flink leaves a name that no step removes
any more (`flink_out_of_order`, `race_name_without_handle`).
-/

namespace Drm

open Lib

/-- References of the closing thread: that of its handle until it is dropped. -/
def ClosePc.handleRef : ClosePc → Nat
  | .read | .decrement | .unname | .putName | .unreference => 1
  | .remove | .done => 0

/-- References of `drm_gem_flink_ioctl`. -/
def FlinkPc.lookupRef : FlinkPc → Nat
  | .naming | .reference | .unreference => 1
  | .lookup | .done => 0

/-- Who holds a reference, and what the counters say. -/
structure RaceInv (c : RaceSetup) (s : Race) : Prop where
  handleCount : s.handleCount = s.handles c +
    (if s.close = .read ∨ s.close = .decrement then 1 else 0)
  refcount : s.refcount + (if s.flink = .reference then 1 else 0) =
    s.handles c + s.close.handleRef + (if s.named then 1 else 0) +
      (if s.close = .putName then 1 else 0) + s.flink.lookupRef + c.otherRefs
  freed : s.freed = true ↔ s.refcount = 0
  entry : s.entry = true ↔ s.close = .remove
  last : s.close = .unname ∨ s.close = .putName → s.handleCount = 0
  named : s.named = true → 0 < s.handleCount ∨ s.close = .unname
  held : s.FlinkHolds → s.freed = false
  bug : s.bug = false

theorem raceInit_inv (c : RaceSetup) : RaceInv c (raceInit c) := by
  refine ⟨rfl, rfl, ?_, by simp [raceInit], by simp [raceInit], fun _ => .inl ?_,
    by simp [raceInit], rfl⟩
  · simp only [raceInit, Bool.false_eq_true, false_iff]
    omega
  · simp only [raceInit]
    omega

/-- **A step of flink.** -/
theorem flinkStep_inv {c : RaceSetup} {s s' : Race} {name : NewName} (h : RaceInv c s)
    (ho : s.InOrder (.flink name)) (hs : flinkStep c s name = some s') : RaceInv c s' := by
  obtain ⟨h1, h2, h3, h4, h5, h6, h7, h8⟩ := h
  unfold flinkStep at hs
  cases hf : s.flink with
  | lookup =>
    simp only [hf, FlinkPc.lookupRef, reduceCtorEq, if_false] at hs h2
    split at hs
    · -- there is a handle, hence the object has not been freed
      rename_i hentry
      cases hs
      have hpos : 0 < s.handles c := by
        unfold Race.handles RaceSetup.keptHandles
        rcases Bool.or_eq_true_iff.1 hentry with he | he
        · rw [if_pos he]
          omega
        · rw [Bool.not_eq_true'] at he
          rw [he]
          simp only [Bool.false_eq_true, if_false]
          omega
      have hlive : s.freed = false := by
        rw [← Bool.not_eq_true, h3]
        omega
      refine ⟨h1, ?_, ?_, h4, h5, h6, fun _ => hlive, h8⟩
      · simp only [Race.handles, FlinkPc.lookupRef, reduceCtorEq, if_false] at h2 ⊢
        omega
      · simp only [hlive, Bool.false_eq_true, false_iff]
        omega
    · cases hs
      refine ⟨h1, ?_, h3, h4, h5, h6, by simp [Race.FlinkHolds], h8⟩
      simpa [Race.handles, FlinkPc.lookupRef] using h2
  | naming =>
    simp only [hf, Option.some.injEq, FlinkPc.lookupRef, reduceCtorEq, if_false] at hs h2
    subst hs
    have hlive := h7 (.inl hf)
    unfold Race.giveName
    split
    · refine ⟨h1, ?_, h3, h4, h5, h6, fun _ => hlive, h8⟩
      simpa [Race.handles, FlinkPc.lookupRef] using h2
    · rename_i hn
      rw [Bool.not_eq_true] at hn
      cases name with
      | got =>
        refine ⟨h1, ?_, h3, h4, h5, fun _ => ?_, fun _ => hlive, h8⟩
        · simp only [Race.handles, FlinkPc.lookupRef, hn, Bool.false_eq_true, if_false, if_true]
            at h2 ⊢
          omega
        · -- no handle is left only if the closing thread is done with the name
          have hdrop : ¬ s.NameDropped := fun hd => ho ⟨hf, hn, rfl, hd⟩
          cases hcl : s.close with
          | remove =>
            have he := h4.2 hcl
            simp only [Race.handles, he, if_true] at h1
            exact .inl (by simp only; omega)
          | read =>
            simp only [hcl, true_or, if_true] at h1
            exact .inl (by simp only; omega)
          | decrement =>
            simp only [hcl, or_true, if_true] at h1
            exact .inl (by simp only; omega)
          | unname => exact .inr rfl
          | putName => exact absurd ⟨h5 (.inr hcl), .inl hcl⟩ hdrop
          | unreference =>
            refine .inl (Nat.pos_of_ne_zero fun hz => hdrop ⟨hz, .inr (.inl hcl)⟩)
          | done => exact .inl (Nat.pos_of_ne_zero fun hz => hdrop ⟨hz, .inr (.inr hcl)⟩)
      | failed =>
        refine ⟨h1, ?_, h3, h4, h5, h6, fun _ => hlive, h8⟩
        simpa [Race.handles, FlinkPc.lookupRef] using h2
      | again => exact ⟨h1, by simpa [hf, FlinkPc.lookupRef] using h2, h3, h4, h5, h6, h7, h8⟩
  | reference =>
    simp only [hf, Option.some.injEq, FlinkPc.lookupRef, if_true] at hs h2
    subst hs
    have hlive := h7 (.inr (.inl hf))
    refine ⟨h1, ?_, ?_, h4, h5, h6, fun _ => hlive, h8⟩
    · simp only [Race.handles, FlinkPc.lookupRef, reduceCtorEq, if_false] at h2 ⊢
      omega
    · simp only [hlive, Bool.false_eq_true, false_iff]
      omega
  | unreference =>
    simp only [hf, Option.some.injEq, FlinkPc.lookupRef, reduceCtorEq, if_false] at hs h2
    subst hs
    have hlive := h7 (.inr (.inr hf))
    show RaceInv c { s with
      refcount := s.refcount - 1, freed := s.freed || s.refcount - 1 == 0, flink := .done }
    refine ⟨h1, ?_, ?_, h4, h5, h6, by simp [Race.FlinkHolds], h8⟩
    · simp only [Race.handles, FlinkPc.lookupRef, reduceCtorEq, if_false] at h2 ⊢
      omega
    · simp [hlive]
  | done => simp [hf] at hs

/-- **A step of close.** -/
theorem closeStep_inv {c : RaceSetup} {s s' : Race} (h : RaceInv c s) (ho : s.InOrder .close)
    (hs : closeStep s = some s') : RaceInv c s' := by
  obtain ⟨h1, h2, h3, h4, h5, h6, h7, h8⟩ := h
  have hlook : (if s.flink = .reference then 1 else 0) ≤ s.flink.lookupRef := by
    cases s.flink <;> simp [FlinkPc.lookupRef]
  unfold closeStep at hs
  cases hc : s.close with
  | remove =>
    simp only [hc, h4.2 hc, if_true, Option.some.injEq] at hs
    subst hs
    simp only [Race.handles, hc, h4.2 hc, ClosePc.handleRef, if_true, reduceCtorEq, or_self, if_false]
      at h1 h2
    refine ⟨?_, ?_, h3, by simp, by simp, fun _ => .inl ?_, h7, h8⟩
    · simp only [Race.handles, Bool.false_eq_true, if_false, true_or, if_true]
      omega
    · simp only [Race.handles, ClosePc.handleRef, Bool.false_eq_true, if_false, reduceCtorEq]
      omega
    · simp only
      omega
  | read =>
    simp only [hc, true_or, if_true] at h1
    have hne : s.handleCount ≠ 0 := by omega
    simp only [hc, hne, if_false, Option.some.injEq] at hs
    subst hs
    refine ⟨?_, ?_, h3, by simp [h4, hc], by simp, fun _ => .inl (by simp only; omega), h7, h8⟩
    · simpa [Race.handles] using h1
    · simpa [Race.handles, hc, ClosePc.handleRef] using h2
  | decrement =>
    simp only [hc, Option.some.injEq] at hs
    subst hs
    simp only [hc, or_true, if_true, ClosePc.handleRef, reduceCtorEq, if_false] at h1 h2
    by_cases hz : s.handleCount - 1 = 0
    · simp only [hz, if_true]
      refine ⟨?_, ?_, h3, by simp [h4, hc], by simp, fun _ => .inr rfl, h7, h8⟩
      · simp only [Race.handles, reduceCtorEq, or_self, if_false] at h1 ⊢
        omega
      · simpa [Race.handles, ClosePc.handleRef] using h2
    · simp only [hz, if_false]
      refine ⟨?_, ?_, h3, by simp [h4, hc], by simp, fun _ => .inl (by simp only; omega), h7, h8⟩
      · simp only [Race.handles, reduceCtorEq, or_self, if_false] at h1 ⊢
        omega
      · simpa [Race.handles, ClosePc.handleRef] using h2
  | unname =>
    have hz := h5 (.inl hc)
    simp only [hc] at hs
    simp only [hc, ClosePc.handleRef, reduceCtorEq, or_self, if_false] at h1 h2
    split at hs
    · rename_i hn
      cases hs
      refine ⟨?_, ?_, h3, by simp [h4, hc], fun _ => hz, by simp, h7, h8⟩
      · simpa [Race.handles] using h1
      · simp only [Race.handles, hn, ClosePc.handleRef, if_true, Bool.false_eq_true, if_false]
          at h2 ⊢
        omega
    · rename_i hn
      cases hs
      refine ⟨?_, ?_, h3, by simp [h4, hc], by simp, fun hn' => absurd hn' hn, h7, h8⟩
      · simpa [Race.handles] using h1
      · simpa [Race.handles, ClosePc.handleRef] using h2
  | putName =>
    -- the handle still has its reference
    have hz := h5 (.inr hc)
    simp only [hc, Option.some.injEq] at hs
    subst hs
    simp only [hc, ClosePc.handleRef, reduceCtorEq, or_self, if_false, if_true] at h1 h2
    have hone : s.refcount - 1 ≠ 0 := by omega
    refine ⟨?_, ?_, ?_, by simp [h4, hc], by simp, fun hn => ?_, h7, by simp [h8, hone]⟩
    · simpa [Race.handles] using h1
    · simp only [Race.handles, ClosePc.handleRef, reduceCtorEq, if_false] at h2 ⊢
      omega
    · rw [h3]
      simp only
      omega
    · rcases h6 hn with h | h
      · omega
      · rw [hc] at h
        cases h
  | unreference =>
    simp only [hc, Option.some.injEq] at hs
    subst hs
    simp only [hc, ClosePc.handleRef, reduceCtorEq, or_self, if_false] at h1 h2
    have hpos : s.refcount ≠ 0 := by omega
    have hlive : s.freed = false := by
      rw [← Bool.not_eq_true, h3]
      exact hpos
    show RaceInv c { s with
      refcount := s.refcount - 1, freed := s.freed || s.refcount - 1 == 0, close := .done }
    refine ⟨?_, ?_, ?_, by simp [h4, hc], by simp, fun hn => ?_, fun hh => ?_, h8⟩
    · simpa [Race.handles] using h1
    · simp only [Race.handles, ClosePc.handleRef, reduceCtorEq, if_false] at h2 ⊢
      omega
    · simp [hlive]
    · rcases h6 hn with h | h
      · exact .inl h
      · rw [hc] at h
        cases h
    · -- flink's own reference is left, unless it was given for a name that is not counted yet
      have hne : s.refcount - 1 ≠ 0 := by
        rcases hh with hf | hf | hf
        · have hf : s.flink = .naming := hf
          simp only [hf, FlinkPc.lookupRef, reduceCtorEq, if_false] at h2
          omega
        · have hf : s.flink = .reference := hf
          have hone : s.refcount ≠ 1 := fun e => ho ⟨hc, hf, e⟩
          omega
        · have hf : s.flink = .unreference := hf
          simp only [hf, FlinkPc.lookupRef, reduceCtorEq, if_false] at h2
          omega
      simp [hlive, hne]
  | done => simp [hc] at hs

/-- Every step that is in order keeps the invariant. -/
theorem raceStep_inv {c : RaceSetup} {s s' : Race} {m : RaceMove} (h : RaceInv c s)
    (ho : s.InOrder m) (hs : raceStep c s m = some s') : RaceInv c s' := by
  cases m with
  | flink name => exact flinkStep_inv h ho hs
  | close => exact closeStep_inv h ho hs

theorem RaceInv.safe {c : RaceSetup} {s : Race} (h : RaceInv c s) : s.Safe c := by
  refine ⟨h.held, fun _ hc hn => ?_⟩
  have hcount := h.handleCount
  simp only [hc, reduceCtorEq, or_self, if_false, Nat.add_zero] at hcount
  rcases h.named hn with h' | h'
  · omega
  · rw [hc] at h'
    cases h'

/-- **Every interleaving in order** keeps the object alive for flink, and leaves no name without a
handle. -/
theorem race_safe_in_order {c : RaceSetup} {ms : List RaceMove} {s : Race}
    (h : Run (fun s m s' => raceStep c s m = some s' ∧ s.InOrder m) (raceInit c) ms s) :
    s.Safe c :=
  RaceInv.safe (h.inv (raceInit_inv c) fun _ _ _ h1 hs => raceStep_inv h1 hs.2 hs.1)

/-- Both use the only handle: close takes it away and drops its references while flink, which has
looked the object up and named it, has not put its reference back. -/
theorem race_safe_in_order_interleaved : ∃ s, Run
    (fun s m s' => raceStep ⟨true, 0, 0, false⟩ s m = some s' ∧ s.InOrder m)
    (raceInit ⟨true, 0, 0, false⟩)
    [.flink .got, .close, .flink .got, .close, .close, .flink .got, .close, .close, .close] s ∧
      s.FlinkHolds ∧ s.close = .done ∧ s.freed = false := by
  have run : Run (fun s m s' => raceStep ⟨true, 0, 0, false⟩ s m = some s' ∧ s.InOrder m)
      (raceInit ⟨true, 0, 0, false⟩)
      [.flink .got, .close, .flink .got, .close, .close, .flink .got, .close, .close, .close]
      ⟨1, 0, false, false, false, false, .unreference, .done⟩ := by
    refine .snoc (.snoc (.snoc (.snoc (.snoc (.snoc (.snoc (.snoc (.snoc .nil
      ⟨rfl, ?_⟩) ⟨rfl, ?_⟩) ⟨rfl, ?_⟩) ⟨rfl, ?_⟩) ⟨rfl, ?_⟩) ⟨rfl, ?_⟩) ⟨rfl, ?_⟩) ⟨rfl, ?_⟩)
      ⟨rfl, ?_⟩ <;> simp [Race.InOrder, Race.NameDropped, Race.giveName, raceInit]
  have hholds : Race.FlinkHolds ⟨1, 0, false, false, false, false, .unreference, .done⟩ :=
    .inr (.inr rfl)
  exact ⟨_, run, hholds, rfl, (race_safe_in_order run).1 hholds⟩

/-! ## The two steps out of order -/

/-- The close that is out of order frees the object under flink. -/
theorem close_out_of_order {c : RaceSetup} {s s' : Race} (ho : ¬ s.InOrder .close)
    (hs : raceStep c s .close = some s') : ¬ s'.Safe c := by
  obtain ⟨hc, hf, hone⟩ := not_not.mp ho
  intro hsafe
  simp only [raceStep, closeStep, hc, Option.some.injEq] at hs
  subst hs
  have hlive := hsafe.1 (.inr (.inl hf))
  simp [Race.put, hone] at hlive

/-- There is a name and no handle, and close will not take the name away any more. -/
def Race.Stale (c : RaceSetup) (s : Race) : Prop :=
  s.named = true ∧ s.handles c = 0 ∧ (s.close = .putName ∨ s.close = .unreference ∨ s.close = .done)

/-- The flink that is out of order leaves a stale name. -/
theorem flink_out_of_order {c : RaceSetup} {s s' : Race} {name : NewName} (h : RaceInv c s)
    (ho : ¬ s.InOrder (.flink name)) (hs : raceStep c s (.flink name) = some s') :
    s'.Stale c := by
  obtain ⟨hf, hn, rfl, hzero, hc⟩ := not_not.mp ho
  simp only [raceStep, flinkStep, hf, Race.giveName, hn, Bool.false_eq_true, if_false,
    Option.some.injEq] at hs
  subst hs
  refine ⟨rfl, ?_, hc⟩
  have hcount := h.handleCount
  show s.handles c = 0
  omega

/-- A stale name stays. -/
theorem raceStep_stale {c : RaceSetup} {s s' : Race} {m : RaceMove} (h : s.Stale c)
    (hs : raceStep c s m = some s') : s'.Stale c := by
  obtain ⟨hn, hh, hc⟩ := h
  cases m with
  | flink name =>
    simp only [raceStep, flinkStep] at hs
    split at hs
    · split at hs <;> cases hs <;> exact ⟨hn, hh, hc⟩
    · simp only [Race.giveName, hn, if_true] at hs
      cases hs
      exact ⟨rfl, hh, hc⟩
    · cases hs
      exact ⟨hn, hh, hc⟩
    · cases hs
      exact ⟨hn, hh, hc⟩
    · cases hs
  | close =>
    rcases hc with hc | hc | hc <;> simp only [raceStep, closeStep, hc] at hs <;> cases hs
    · exact ⟨hn, hh, .inr (.inl rfl)⟩
    · exact ⟨hn, hh, .inr (.inr rfl)⟩

/-- However the threads go on from a stale name, they end with it. -/
theorem race_name_without_handle {c : RaceSetup} {ms : List RaceMove} {s s' : Race}
    (h : s.Stale c) (hrun : Run (fun s m s' => raceStep c s m = some s') s ms s')
    (hf : s'.flink = .done) (hc : s'.close = .done) : ¬ s'.Safe c := by
  have hstale : s'.Stale c := hrun.inv h fun _ _ _ h1 hs => raceStep_stale h1 hs
  intro hsafe
  have hpos := hsafe.2 hf hc hstale.1
  have hzero := hstale.2.1
  omega

/-- Flink gives the name; close, of the last handle, takes it away and drops a reference that flink
has not taken yet, and with its own frees the object. -/
theorem race_free_before_reference : ¬ ∀ (c : RaceSetup) (ms : List RaceMove) (s : Race),
    Run (fun s m s' => raceStep c s m = some s') (raceInit c) ms s → s.Safe c := by
  intro h
  let c : RaceSetup := ⟨true, 0, 0, false⟩
  have run : Run (fun s m s' => raceStep c s m = some s') (raceInit c)
      [.flink .got, .flink .got, .close, .close, .close, .close, .close, .close]
      ⟨0, 0, false, false, true, false, .reference, .done⟩ :=
    .snoc (.snoc (.snoc (.snoc (.snoc (.snoc (.snoc (.snoc .nil rfl) rfl) rfl) rfl) rfl) rfl) rfl) rfl
  have := (h c _ _ run).1 (.inr (.inl rfl))
  cases this

end Drm
