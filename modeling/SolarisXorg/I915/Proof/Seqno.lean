import SolarisXorg.I915.Proof.SeqnoRing

/-!
# Seqno epochs

`SeqInv` ties the counter to the seqnos that are out: the next one is `v + 1` plus the number handed
out in this epoch, or it has come to 0 and the epoch is over. Every call keeps it when the seqnos it
compares are less than half the range apart (`SeqStep.inv`), because a reset then begins with empty
rings (`initSeqno_spec`), and `epochs_kept` is read off it.

Without that condition it is lost (`epochs_lost`): a ring that has been quiet for half the range takes
its next request for completed, drops it from its list and does not wait for it when the seqnos are
reset.
-/

namespace I915

variable {n : Nat} {b v c e : Nat} {r : SeqRing n} {s : SeqDev n}

/-! ## The device -/

/-- The invariant of the device: `b` seqnos had been handed out when the epoch began, from `v + 1`
on. -/
structure SeqInv (b v : Nat) (s : SeqDev n) : Prop where
  start : b ≤ s.handed.length
  next : v + s.handed.length + 1 = s.nextSeqno.toNat + b ∨
    s.nextSeqno = 0 ∧ v + s.handed.length + 1 = 2 ^ 32 + b
  nonzero : ∀ x ∈ s.handed, x.val ≠ 0
  ring : ∀ i, RingInv b v s.handed.length s.epoch (s.ring i)

theorem SeqInv.setRing (h : SeqInv b v s) (i : Fin n)
    (hr : RingInv b v s.handed.length s.epoch r) : SeqInv b v (s.setRing i r) := by
  refine ⟨h.start, h.next, h.nonzero, ?_⟩
  intro k
  show RingInv b v s.handed.length s.epoch (Function.update s.ring i r k)
  by_cases hk : k = i
  · subst hk
    rw [Function.update_self]
    exact hr
  · rw [Function.update_of_ne hk]
    exact h.ring k

@[simp] theorem setRing_ring_self (i : Fin n) : (s.setRing i r).ring i = r := Function.update_self _ _ _

theorem setRing_ring_of_ne {i k : Fin n} (h : k ≠ i) : (s.setRing i r).ring k = s.ring k :=
  Function.update_of_ne h _ _

/-- What the waits of a reset do: they keep the invariant, and if none fails every ring has been
waited for. -/
theorem idleAll_spec (env : Fin n → Idle) (is : List (Fin n)) : ∀ {s : SeqDev n}, is.Nodup →
    SeqInv b v s →
    SeqInv b v (s.idleAll env is).2 ∧ (s.idleAll env is).2.handed = s.handed ∧
      (s.idleAll env is).2.epoch = s.epoch ∧ (s.idleAll env is).2.nextSeqno = s.nextSeqno ∧
      (∀ k, k ∉ is → (s.idleAll env is).2.ring k = s.ring k) ∧
      ((s.idleAll env is).1 = true → ∀ k ∈ is, ((s.ring k).idle (env k)).1 = true ∧
        (s.idleAll env is).2.ring k = ((s.ring k).idle (env k)).2) := by
  induction is with
  | nil => exact fun {s} _ h => ⟨h, rfl, rfl, rfl, fun _ _ => rfl, by simp⟩
  | cons i is ih =>
    intro s hnd h
    obtain ⟨hi, hnd⟩ := List.nodup_cons.mp hnd
    have h1 := h.setRing i ((h.ring i).idle (env i))
    have hother : ∀ k, k ≠ i →
        (s.setRing i ((s.ring i).idle (env i)).2).ring k = s.ring k := fun k hk =>
      setRing_ring_of_ne hk
    unfold SeqDev.idleAll
    split
    · next hok =>
      obtain ⟨h2, h3, h4, h5, h6, h7⟩ := ih hnd h1
      refine ⟨h2, h3, h4, h5, ?_, ?_⟩
      · intro k hk
        rw [List.mem_cons, not_or] at hk
        rw [h6 k hk.2, hother k hk.1]
      · intro hall k hk
        rcases List.mem_cons.mp hk with rfl | hk
        · exact ⟨hok, by rw [h6 k hi, setRing_ring_self]⟩
        · have hki : k ≠ i := fun hc => hi (hc ▸ hk)
          have h8 := h7 hall k hk
          rwa [hother k hki] at h8
    · refine ⟨h1, rfl, rfl, rfl, ?_, nofun⟩
      intro k hk
      rw [List.mem_cons, not_or] at hk
      exact hother k hk.1

/-- A reset fails and keeps the invariant, or begins an epoch with empty rings. -/
theorem initSeqno_spec (h : SeqInv b v s) (ht : ∀ k, (s.ring k).Tight) (w : BitVec 32)
    (env : Fin n → Idle) :
    ((s.i915GemInitSeqno w env).1 = false → SeqInv b v (s.i915GemInitSeqno w env).2) ∧
      ((s.i915GemInitSeqno w env).1 = true →
        (s.i915GemInitSeqno w env).2.handed = s.handed ∧
        ∀ k, RingInv s.handed.length w.toNat s.handed.length (s.i915GemInitSeqno w env).2.epoch
          ((s.i915GemInitSeqno w env).2.ring k) ∧
          ((s.i915GemInitSeqno w env).2.ring k).olr.val = 0) := by
  obtain ⟨h1, h2, h3, -, -, h6⟩ := idleAll_spec env (List.finRange n) (List.nodup_finRange n) h
  unfold SeqDev.i915GemInitSeqno
  split
  · next hok =>
    refine ⟨nofun, fun _ => ⟨h2, fun k => ?_⟩⟩
    obtain ⟨hk, hring⟩ := h6 hok k (List.mem_finRange k)
    have he : Empty ((s.idleAll env (List.finRange n)).2.ring k).retireRequests := by
      rw [hring]
      exact idle_retire (h.ring k) (ht k) hk
    refine ⟨?_, he.olr⟩
    have hr := he.reset w s.handed.length (s.epoch + 1)
    rw [← h2, ← h3] at hr
    rw [← h2]
    exact hr
  · exact ⟨fun _ => h1, nofun⟩

/-- The counter goes on from the value that the rings have been reset to. -/
theorem SeqInv.of_reset {t : SeqDev n} {w : BitVec 32} (h : SeqInv b v s)
    (hh : t.handed = s.handed)
    (hr : ∀ k, RingInv s.handed.length w.toNat s.handed.length t.epoch (t.ring k))
    (hn : t.nextSeqno.toNat = w.toNat + 1) : SeqInv s.handed.length w.toNat t := by
  refine ⟨by rw [hh], .inl ?_, by rw [hh]; exact h.nonzero, by rw [hh]; exact hr⟩
  rw [hh, hn]
  omega

theorem SeqInv.setSeqno (h : SeqInv b v s) (ht : ∀ k, (s.ring k).Tight) (w : BitVec 32)
    (env : Fin n → Idle) : ∃ b v, SeqInv b v (s.i915GemSetSeqno w env).2 := by
  obtain ⟨h1, h2⟩ := initSeqno_spec h ht (w - 1) env
  unfold SeqDev.i915GemSetSeqno
  split
  · exact ⟨b, v, h⟩
  · next hw =>
    split
    · next hok =>
      obtain ⟨hh, hr⟩ := h2 hok
      refine ⟨_, _, h.of_reset (w := w - 1) hh (fun k => (hr k).1) ?_⟩
      show w.toNat = (w - 1).toNat + 1
      bv_omega
    · next hno => exact ⟨b, v, h1 (Bool.not_eq_true _ ▸ hno)⟩

/-! ## Handing out -/

/-- Before a seqno is handed out the counter is not 0, and the ring it is for still has no lazy
request. -/
theorem beforeHand_spec (h : SeqInv b v s) (i : Fin n) (hl : (s.ring i).olr.val = 0)
    (ht : s.nextSeqno = 0 → ∀ k, (s.ring k).Tight) (env : Fin n → Idle) :
    ∃ b v, SeqInv b v (s.beforeHand env).2 ∧ ((s.beforeHand env).1 = true →
      (s.beforeHand env).2.nextSeqno ≠ 0 ∧ ((s.beforeHand env).2.ring i).olr.val = 0) := by
  unfold SeqDev.beforeHand
  split
  · next h0 =>
    obtain ⟨h1, h2⟩ := initSeqno_spec h (ht h0) 0 env
    by_cases hok : (s.i915GemInitSeqno 0 env).1 = true
    · obtain ⟨hh, hr⟩ := h2 hok
      simp only [if_pos hok]
      exact ⟨_, _, h.of_reset (w := 0) hh (fun k => (hr k).1) rfl, fun _ => ⟨by decide, (hr i).2⟩⟩
    · simp only [if_neg hok]
      exact ⟨b, v, h1 (Bool.not_eq_true _ ▸ hok), fun hc => absurd hc hok⟩
  · next h0 => exact ⟨b, v, h, fun _ => ⟨h0, hl⟩⟩

/-- A seqno goes to a ring without a lazy request. -/
theorem SeqInv.hand (h : SeqInv b v s) (i : Fin n) (hl : (s.ring i).olr.val = 0)
    (h0 : s.nextSeqno ≠ 0) :
    SeqInv b v (s.hand.setRing i { s.ring i with olr := s.nextStamp }) := by
  have hlen : s.hand.handed.length = s.handed.length + 1 := by
    simp only [SeqDev.hand, List.length_append, List.length_singleton]
  have hnext : v + s.handed.length + 1 = s.nextSeqno.toNat + b := by
    rcases h.next with hn | hn
    · exact hn
    · exact absurd hn.1 h0
  have hs : SeqInv b v s.hand := by
    refine ⟨by rw [hlen]; exact Nat.le_succ_of_le h.start, ?_, ?_, ?_⟩
    · rw [hlen]
      by_cases hmax : s.nextSeqno.toNat + 1 = 2 ^ 32
      · refine .inr ⟨?_, by omega⟩
        show s.nextSeqno + 1 = 0
        bv_omega
      · refine .inl ?_
        have : (s.nextSeqno + 1).toNat = s.nextSeqno.toNat + 1 := by bv_omega
        show v + (s.handed.length + 1) + 1 = (s.nextSeqno + 1).toNat + b
        omega
    · intro x hx
      rcases List.mem_append.mp hx with hx | hx
      · exact h.nonzero x hx
      · rw [List.mem_singleton.mp hx]
        exact h0
    · intro k
      rw [hlen]
      exact (h.ring k).mono (Nat.le_succ _)
  apply hs.setRing i
  rw [hlen]
  have hr := h.ring i
  have hfresh : Fresh b v (s.handed.length + 1) s.epoch s.nextStamp :=
    ⟨Nat.lt_succ_of_le h.start, le_rfl, hnext.symm, rfl⟩
  have hlive : SeqRing.live { s.ring i with olr := s.nextStamp } = (s.ring i).live ++ [s.nextStamp] := by
    rw [live_of_idle hl]
    exact live_of_lazy (r := { s.ring i with olr := s.nextStamp }) h0
  have hr1 := hr.mono (Nat.le_succ s.handed.length)
  refine ⟨hr1.hws_ge, hr1.hws_le, hr1.hws_val, ?_, ?_, fun _ => Nat.lt_succ_of_le hr.hws_le, hr1.split,
    ?_, hr1.activeSorted, hr1.sync⟩
  · intro x hx
    rw [hlive, List.mem_append, List.mem_singleton] at hx
    rcases hx with hx | rfl
    · exact hr1.fresh x hx
    · exact hfresh
  · rw [hlive, List.pairwise_append]
    refine ⟨hr.sorted, List.pairwise_singleton _ _, ?_⟩
    intro x hx y hy
    rw [List.mem_singleton.mp hy]
    exact Nat.lt_succ_of_le (hr.fresh x hx).le
  · intro a ha
    rw [hlive]
    exact List.mem_append_left _ (hr.active a ha)

/-- A seqno is allocated for a ring, if it needs one. -/
theorem SeqInv.alloc (h : SeqInv b v s) (i : Fin n) (env : Fin n → Idle)
    (ht : (s.ring i).olr.val = 0 → s.nextSeqno = 0 → ∀ k, (s.ring k).Tight) :
    ∃ b v, SeqInv b v (s.intelRingAllocSeqno i env).2 ∧
      ((s.intelRingAllocSeqno i env).1 = true →
        ((s.intelRingAllocSeqno i env).2.ring i).olr.val ≠ 0) := by
  unfold SeqDev.intelRingAllocSeqno
  by_cases hl : (s.ring i).olr.val = 0
  · rw [if_neg (not_not.mpr hl)]
    obtain ⟨b', v', h1, h2⟩ := beforeHand_spec h i hl (ht hl) env
    unfold SeqDev.i915GemGetSeqno
    simp only
    split
    · next hok =>
      obtain ⟨h3, h4⟩ := h2 hok
      refine ⟨b', v', h1.hand i h4 h3, fun _ => ?_⟩
      rw [setRing_ring_self]
      exact h3
    · exact ⟨b', v', h1, nofun⟩
  · rw [if_pos hl]
    exact ⟨b, v, h, fun _ => hl⟩

theorem SeqInv.addRequest (h : SeqInv b v s) (i : Fin n) (env : Fin n → Idle) (fail : Bool)
    (ht : (s.ring i).olr.val = 0 → s.nextSeqno = 0 → ∀ k, (s.ring k).Tight) :
    ∃ b v, SeqInv b v (s.i915AddRequest i env fail).2 := by
  obtain ⟨b', v', h1, h2⟩ := h.alloc i env ht
  unfold SeqDev.i915AddRequest
  simp only
  split
  · next hok =>
    rw [Bool.and_eq_true] at hok
    exact ⟨b', v', h1.setRing i ((h1.ring i).pushRequest (h2 hok.1))⟩
  · exact ⟨b', v', h1⟩

/-! ## Objects -/

theorem SeqInv.moveToActive (h : SeqInv b v s) (i : Fin n) (o : Nat) (hl : (s.ring i).olr.val ≠ 0) :
    SeqInv b v (s.moveToActive i o) := by
  refine ⟨h.start, h.next, h.nonzero, fun k => ?_⟩
  have hr := h.ring k
  refine ⟨hr.hws_ge, hr.hws_le, hr.hws_val, hr.fresh, hr.sorted, hr.lazy, hr.split, ?_, ?_, hr.sync⟩
  · intro a ha
    rcases List.mem_append.mp ha with ha | ha
    · exact hr.active a (List.mem_filter.mp ha).1
    · split at ha
      · next hk =>
        subst hk
        rw [List.mem_singleton.mp ha]
        show (s.ring k).olr ∈ (s.ring k).live
        rw [live_of_lazy hl]
        exact List.mem_append_right _ (List.mem_singleton.mpr rfl)
      · cases ha
  · refine List.pairwise_append.mpr ⟨hr.activeSorted.filter _, ?_, ?_⟩
    · split
      · exact List.pairwise_singleton _ _
      · exact List.Pairwise.nil
    · intro a ha c hc
      split at hc
      · next hk =>
        subst hk
        rw [List.mem_singleton.mp hc]
        have hm := hr.active a (List.mem_filter.mp ha).1
        have hs := hr.sorted
        rw [live_of_lazy hl] at hm hs
        rcases List.mem_append.mp hm with hm | hm
        · exact ((List.pairwise_append.mp hs).2.2 _ hm _ (List.mem_singleton.mpr rfl)).le
        · rw [List.mem_singleton.mp hm]
      · cases hc

theorem mem_live_of_lastRead (h : RingInv b v c e r) {o : Nat} {q : Stamp}
    (hq : r.lastRead o = some q) : q ∈ r.live := by
  obtain ⟨a, ha, rfl⟩ := Option.map_eq_some_iff.mp hq
  exact h.active a (List.mem_of_find?_eq_some ha)

theorem SeqInv.syncTo (h : SeqInv b v s) (i j : Fin n) (o : Nat) (env : Fin n → Idle) (fail : Bool)
    (ht : (s.ring j).olr.val = 0 → s.nextSeqno = 0 → ∀ k, (s.ring k).Tight) :
    ∃ b v, SeqInv b v (s.syncTo i j o env fail) := by
  obtain ⟨b', v', h1, -⟩ := h.alloc j env ht
  unfold SeqDev.syncTo
  simp only
  split
  · refine ⟨b', v', h1.setRing i ?_⟩
    have hr := h1.ring i
    refine ⟨hr.hws_ge, hr.hws_le, hr.hws_val, hr.fresh, hr.sorted, hr.lazy, hr.split, hr.active,
      hr.activeSorted, ?_⟩
    intro k
    by_cases hk : k = j
    · subst hk
      simp only [Function.update_self]
      cases hq : SeqRing.lastRead _ o with
      | none => exact .inl rfl
      | some q => exact .inr (hr.fresh q (mem_live_of_lastRead hr hq))
    · simp only [Function.update_of_ne hk]
      exact hr.sync k
  · exact ⟨b', v', h1⟩

/-- The lazy request that an object was last read by is sent off before the object is waited for. -/
theorem checkOlr_spec (i : Fin n) (env : Fin n → Idle) {q : Stamp} (fail : Bool)
    (hq : q.val ≠ 0) :
    (s.checkOlr i env q fail).2 = s ∨ (s.ring i).olr.val ≠ 0 ∧
      (s.checkOlr i env q fail).2 = s.setRing i (s.ring i).pushRequest := by
  unfold SeqDev.checkOlr
  split
  · next he =>
    have hl : (s.ring i).olr.val ≠ 0 := by
      rw [← he]
      exact hq
    have ha : s.intelRingAllocSeqno i env = (true, s) := by
      rw [SeqDev.intelRingAllocSeqno, if_pos hl]
    unfold SeqDev.i915AddRequest
    simp only [ha, Bool.true_and]
    split
    · exact .inr ⟨hl, rfl⟩
    · exact .inl rfl
  · exact .inl rfl

theorem SeqInv.sync (h : SeqInv b v s) (i j : Fin n) (o : Nat) (env : Fin n → Idle)
    (fail1 fail2 : Bool)
    (ht : (s.ring j).olr.val = 0 → s.nextSeqno = 0 → ∀ k, (s.ring k).Tight) :
    ∃ b v, SeqInv b v (s.i915GemObjectSync i j o env fail1 fail2) := by
  unfold SeqDev.i915GemObjectSync
  split
  · exact ⟨b, v, h⟩
  · next q hq =>
    split
    · exact ⟨b, v, h⟩
    · next hcmp =>
      have hji : j ≠ i := fun hc => hcmp (.inl hc)
      have hfresh := (h.ring i).fresh q (mem_live_of_lastRead (h.ring i) hq)
      rcases checkOlr_spec (s := s) i env fail1 hfresh.val_ne_zero with he | ⟨hl, he⟩
      · rw [he]
        split
        · exact h.syncTo i j o env fail2 ht
        · exact ⟨b, v, h⟩
      · rw [he]
        have h1 := h.setRing i ((h.ring i).pushRequest hl)
        split
        · apply h1.syncTo i j o env fail2
          rw [setRing_ring_of_ne hji]
          intro h2 h3 k
          by_cases hk : k = i
          · subst hk
            rw [setRing_ring_self, SeqRing.Tight, pushRequest_live hl]
            exact ht h2 h3 k
          · rw [setRing_ring_of_ne hk]
            exact ht h2 h3 k
        · exact ⟨b, v, h1⟩

/-! ## Runs -/

theorem SeqInv.init (n : Nat) : SeqInv 0 0xffffeffe (SeqDev.init n) := by
  refine ⟨le_rfl, .inl rfl, nofun, fun i => ?_⟩
  refine ⟨le_rfl, le_rfl, rfl, nofun, List.Pairwise.nil, fun hc => absurd rfl hc,
    ⟨[], rfl, nofun, nofun⟩, nofun, List.Pairwise.nil, fun _ => .inl rfl⟩

theorem SeqStep.inv {t : SeqDev n} {call : SeqCall n} (h : ∃ b v, SeqInv b v s)
    (hs : SeqStep s call t) (hr : HalfRange s call) : ∃ b v, SeqInv b v t := by
  obtain ⟨b, v, h⟩ := h
  cases call with
  | alloc i env =>
    obtain rfl := hs
    obtain ⟨b', v', h1, -⟩ := h.alloc i env hr
    exact ⟨b', v', h1⟩
  | addRequest i env fail =>
    obtain rfl := hs
    exact h.addRequest i env fail hr
  | retire i =>
    obtain rfl := hs
    exact ⟨b, v, h.setRing i ((h.ring i).retireRequests hr).1⟩
  | setSeqno w env =>
    obtain rfl := hs
    exact h.setSeqno hr w env
  | complete i =>
    obtain rfl := hs
    exact ⟨b, v, h.setRing i (h.ring i).complete⟩
  | moveToActive i o =>
    obtain ⟨hl, rfl⟩ := hs
    exact ⟨b, v, h.moveToActive i o hl⟩
  | sync i j o env fail1 fail2 =>
    obtain rfl := hs
    exact h.sync i j o env fail1 fail2 hr

/-! ## What follows -/

theorem Fresh.val_lt_iff {x y : Stamp} (hx : Fresh b v c e x) (hy : Fresh b v c e y) :
    x.val < y.val ↔ x.issue < y.issue := by
  have h1 := hx.val
  have h2 := hy.val
  rw [BitVec.lt_def]
  omega

theorem RingInv.hws_lt_iff (h : RingInv b v c e r) {x : Stamp} (hx : x ∈ r.live) :
    r.hws.val < x.val ↔ r.hws.issue < x.issue := by
  have h1 := h.hws_val
  have h2 := (h.fresh x hx).val
  rw [BitVec.lt_def]
  omega

/-- The plain comparison with the status page finds the requests that the GPU has not completed. -/
theorem RingInv.notCompleted (h : RingInv b v c e r) : r.notCompleted = r.pending := by
  obtain ⟨done, h1, h2, h3⟩ := h.split
  have hd : ∀ x ∈ done, x ∈ r.live := fun x hx =>
    mem_live_of_mem (by rw [h1]; exact List.mem_append_left _ hx)
  have hp : ∀ x ∈ r.pending, x ∈ r.live := fun x hx =>
    mem_live_of_mem (by rw [h1]; exact List.mem_append_right _ hx)
  rw [SeqRing.notCompleted, h1, List.filter_append]
  have e1 : done.filter (fun x => decide (r.hws.val < x.val)) = [] := by
    apply List.filter_eq_nil_iff.mpr
    intro x hx
    rw [decide_eq_true_eq, h.hws_lt_iff (hd x hx)]
    exact not_lt.mpr (h2 x hx)
  have e2 : r.pending.filter (fun x => decide (r.hws.val < x.val)) = r.pending := by
    apply List.filter_eq_self.mpr
    intro x hx
    rw [decide_eq_true_eq, h.hws_lt_iff (hp x hx)]
    exact h3 x hx
  rw [e1, e2, List.nil_append]

theorem SeqInv.epochsKept (h : SeqInv b v s) : EpochsKept s := by
  have hpend : ∀ i, ∀ x ∈ (s.ring i).pending, x ∈ (s.ring i).requestList := by
    intro i x hx
    obtain ⟨done, h1, -, -⟩ := (h.ring i).split
    rw [h1]
    exact List.mem_append_right _ hx
  have hlist : ∀ i, ∀ x ∈ (s.ring i).requestList, Fresh b v s.handed.length s.epoch x :=
    fun i x hx => (h.ring i).fresh x (mem_live_of_mem hx)
  refine ⟨h.nonzero, ?_, fun i x hx => (hlist i x hx).epoch,
    fun i x hx => (hlist i x (hpend i x hx)).epoch, ?_,
    fun i x hx => (h.ring i).hws_lt_iff (mem_live_of_mem hx), fun i => (h.ring i).notCompleted, ?_⟩
  · intro i hl
    refine ((h.ring i).fresh _ ?_).epoch
    rw [live_of_lazy hl]
    exact List.mem_append_right _ (List.mem_singleton.mpr rfl)
  · intro i
    have hs := (List.pairwise_append.mp (h.ring i).sorted).1
    exact hs.imp_of_mem fun hx hy hxy =>
      ((hlist i _ hx).val_lt_iff (hlist i _ hy)).mpr hxy
  · intro i j a ha
    have hf := (h.ring i).fresh _ ((h.ring i).active a ha)
    have h1 := hf.val
    have h2 := hf.gt
    rw [BitVec.le_def]
    rcases (h.ring i).sync j with hz | hz
    · rw [hz]
      simp only [Stamp.zero, BitVec.ofNat_eq_ofNat, BitVec.toNat_ofNat, Nat.zero_mod]
      omega
    · have h3 := hz.val
      omega

/-- **Seqnos keep to their epoch**: in every run whose calls compare seqnos less than half the range
apart, 0 is never handed out, nothing of an earlier epoch is out, the request lists go up, and plain
comparisons agree with the order of issue. -/
theorem epochs_kept {calls : List (SeqCall n)} {t : SeqDev n}
    (h : Lib.Run HalfStep (SeqDev.init n) calls t) :
    EpochsKept t := by
  obtain ⟨b, v, hi⟩ := h.inv (I := fun s => ∃ b v, SeqInv b v s) ⟨0, _, SeqInv.init n⟩
    fun _ _ _ h hs => SeqStep.inv h hs.1 hs.2
  exact hi.epochsKept

/-! ## One request -/

theorem alloc_eq {i : Fin n} (hl : (s.ring i).olr.val = 0) (h0 : s.nextSeqno ≠ 0)
    (env : Fin n → Idle) :
    (s.intelRingAllocSeqno i env).2 = s.hand.setRing i { s.ring i with olr := s.nextStamp } := by
  have hb : s.beforeHand env = (true, s) := by rw [SeqDev.beforeHand, if_neg h0]
  rw [SeqDev.intelRingAllocSeqno, if_neg (not_not.mpr hl), SeqDev.i915GemGetSeqno]
  simp only [hb, if_true]

theorem addRequest_eq {i : Fin n} (hl : (s.ring i).olr.val ≠ 0) (env : Fin n → Idle) :
    (s.i915AddRequest i env false).2 = s.setRing i (s.ring i).pushRequest := by
  have ha : s.intelRingAllocSeqno i env = (true, s) := by
    rw [SeqDev.intelRingAllocSeqno, if_pos hl]
  simp only [SeqDev.i915AddRequest, ha, Bool.not_false, Bool.and_self, if_true]

theorem seqnoPassed_self (x : BitVec 32) : seqnoPassed x x = true := by
  rw [seqnoPassed_iff (by omega) (by omega)]

/-- The ring's side of a request: it is added, completed and retired. -/
theorem Empty.request (h : Empty r) (x : Stamp) :
    Empty ({ r with olr := x } : SeqRing n).pushRequest.complete.retireRequests := by
  have h1 : ({ r with olr := x } : SeqRing n).pushRequest.complete =
      { r with olr := .zero, requestList := [x], hws := x, pending := [] } := by
    simp only [SeqRing.pushRequest, SeqRing.complete, h.requests, h.pending, List.nil_append]
  rw [h1, SeqRing.retireRequests, if_neg (List.cons_ne_nil x [])]
  refine ⟨rfl, ?_, rfl, ?_⟩
  · show List.dropWhile (fun y : Stamp => seqnoPassed x.val y.val) [x] = []
    rw [List.dropWhile_cons, if_pos (seqnoPassed_self x.val), List.dropWhile_nil]
  · show List.dropWhile (fun a : Active => seqnoPassed x.val a.seq.val) r.activeList = []
    rw [h.active, List.dropWhile_nil]

theorem setRing_setRing (i : Fin n) (r r' : SeqRing n) :
    (s.setRing i r).setRing i r' = s.setRing i r' := by
  simp only [SeqDev.setRing, Function.update_idem]

/-- A run goes on with one request on ring `i`, from its seqno to its retirement. -/
theorem run_request {s0 : SeqDev n} {calls : List (SeqCall n)} {i : Fin n}
    (h : Lib.Run HalfStep s0 calls s) (he : Empty (s.ring i)) (h0 : s.nextSeqno ≠ 0) :
    ∃ calls', ∃ r : SeqRing n, Empty r ∧ Lib.Run HalfStep s0 calls' (s.hand.setRing i r) := by
  set r1 : SeqRing n := { s.ring i with olr := s.nextStamp } with hr1
  have hlazy : ((s.hand.setRing i r1).ring i).olr.val ≠ 0 := by
    rw [setRing_ring_self]
    exact h0
  have e1 : HalfStep s (.alloc i fun _ => .done) (s.hand.setRing i r1) :=
    ⟨(alloc_eq he.olr h0 _).symm, fun _ hc => absurd hc h0⟩
  have e2 : HalfStep (s.hand.setRing i r1) (.addRequest i (fun _ => .done) false) _ :=
    ⟨(addRequest_eq hlazy _).symm, fun hc => absurd hc hlazy⟩
  have e3 (u : SeqDev n) : HalfStep u (.complete i) (u.setRing i (u.ring i).complete) :=
    ⟨rfl, trivial⟩
  have h3 := ((h.snoc e1).snoc e2).snoc (e3 _)
  simp only [setRing_setRing, setRing_ring_self] at h3
  have hnear : r1.pushRequest.complete.Near := by
    have hc : r1.pushRequest.complete =
        { s.ring i with
          olr := .zero
          requestList := [s.nextStamp]
          hws := s.nextStamp
          pending := [] } := by
      simp only [hr1, SeqRing.pushRequest, SeqRing.complete, he.requests, he.pending,
        List.nil_append]
    rw [hc]
    intro x hx
    obtain rfl := List.mem_singleton.mp hx
    exact ⟨by simp only; omega, by simp only; omega⟩
  have e4 : HalfStep (s.hand.setRing i r1.pushRequest.complete) (.retire i)
      (s.hand.setRing i r1.pushRequest.complete.retireRequests) := by
    refine ⟨?_, ?_⟩
    · show _ = SeqDev.setRing i _ _
      rw [setRing_setRing, setRing_ring_self]
    · show SeqRing.Near _
      rw [setRing_ring_self]
      exact hnear
  exact ⟨_, _, he.request s.nextStamp, h3.snoc e4⟩

theorem epochs_kept_request :
    ∃ t : SeqDev 1, t.handed.length = 1 ∧ (t.ring 0).requestList = [] ∧ EpochsKept t := by
  obtain ⟨calls, r, hr, h⟩ := run_request (s := SeqDev.init 1) (i := 0) .nil ⟨rfl, rfl, rfl, rfl⟩
    (by decide)
  exact ⟨_, rfl, hr.requests, epochs_kept h⟩

/-! ## Half the range apart -/

theorem idle_nothing (hl : r.olr.val = 0) (hr : r.requestList = []) (o : Idle) :
    r.idle o = (true, r) := by
  have hf : r.flushLazy = r := by rw [SeqRing.flushLazy, if_pos hl]
  unfold SeqRing.idle
  rw [if_neg (fun hc => hc.1 hl), hf, hr]
  rfl

theorem idleAll_nothing (h : ∀ k, (s.ring k).olr.val = 0 ∧ (s.ring k).requestList = [])
    (env : Fin n → Idle) (is : List (Fin n)) : s.idleAll env is = (true, s) := by
  induction is with
  | nil => rfl
  | cons i is ih =>
    have hs : s.setRing i (s.ring i) = s := by
      rw [SeqDev.setRing, Function.update_eq_self]
    rw [SeqDev.idleAll, idle_nothing (h i).1 (h i).2, if_pos rfl, hs, ih]

/-- A reset with nothing on the request lists waits for nothing. -/
theorem setSeqno_nothing (h : ∀ k, (s.ring k).olr.val = 0 ∧ (s.ring k).requestList = [])
    (env : Fin n → Idle) :
    (s.i915GemSetSeqno 1 env).2 =
      { s.resetAll 0 with nextSeqno := 1, lastSeqno := 0xffffffff } := by
  have hr : s.retireAll = s := by
    have : (fun i => (s.ring i).retireRequests) = s.ring := by
      funext i
      rw [SeqRing.retireRequests, if_pos (h i).2]
    rw [SeqDev.retireAll, this]
  have hi : s.i915GemInitSeqno (1 - 1) env = (true, s.resetAll 0) := by
    rw [SeqDev.i915GemInitSeqno, idleAll_nothing h, if_pos rfl, hr]
    rfl
  rw [SeqDev.i915GemSetSeqno, if_neg (by decide), hi, if_pos rfl]
  rfl

/-- Ring 0 has seen `k` requests since a reset, and ring 1 none. -/
structure Spun (k : Nat) (s : SeqDev 2) : Prop where
  next : s.nextSeqno.toNat = k + 1
  epoch : s.epoch = 1
  worker : Empty (s.ring 0)
  quiet : Empty (s.ring 1)
  hws : (s.ring 1).hws.val = 0

theorem exists_spun (k : Nat) (hk : k + 1 < 2 ^ 32) :
    ∃ calls s, Lib.Run HalfStep (SeqDev.init 2) calls s ∧ Spun k s := by
  induction k with
  | zero =>
    have hnone : ∀ k, ((SeqDev.init 2).ring k).olr.val = 0 ∧
        ((SeqDev.init 2).ring k).requestList = [] := fun _ => ⟨rfl, rfl⟩
    have e : HalfStep (SeqDev.init 2) (.setSeqno 1 fun _ => .done) _ :=
      ⟨(setSeqno_nothing hnone _).symm, fun _ x hx => absurd hx List.not_mem_nil⟩
    exact ⟨_, _, .snoc .nil e, rfl, rfl, ⟨rfl, rfl, rfl, rfl⟩, ⟨rfl, rfl, rfl, rfl⟩, rfl⟩
  | succ k ih =>
    obtain ⟨calls, s, hrun, hs⟩ := ih (by omega)
    have h0 : s.nextSeqno ≠ 0 := by
      have := hs.next
      bv_omega
    obtain ⟨calls', r, hr, hrun'⟩ := run_request hrun hs.worker h0
    refine ⟨calls', _, hrun', ?_, hs.epoch, ?_, ?_, ?_⟩
    · show (s.nextSeqno + 1).toNat = k + 1 + 1
      have := hs.next
      bv_omega
    · rw [setRing_ring_self]
      exact hr
    · rw [setRing_ring_of_ne (by decide)]
      exact hs.quiet
    · rw [setRing_ring_of_ne (by decide)]
      exact hs.hws

/-- Ring 1 is quiet for half the range and is then given a request, which is retired before the GPU
has begun with it; the reset does not wait for it. -/
theorem epochs_lost :
    ¬ ∀ (calls : List (SeqCall 2)) (t : SeqDev 2),
      Lib.Run SeqStep (SeqDev.init 2) calls t → EpochsKept t := by
  intro hall
  obtain ⟨calls, s, hrun, hs⟩ := exists_spun (2 ^ 31 + 1) (by decide)
  have hrun := hrun.mono fun _ _ _ h => h.1
  have hval : s.nextSeqno = 0x80000002 := by
    have := hs.next
    bv_omega
  have h0 : s.nextSeqno ≠ 0 := by
    rw [hval]
    decide
  set r1 : SeqRing 2 := { s.ring 1 with olr := s.nextStamp } with hr1
  have hlazy : ((s.hand.setRing 1 r1).ring 1).olr.val ≠ 0 := by
    rw [setRing_ring_self]
    exact h0
  have e1 : SeqStep s (.alloc 1 fun _ => .done) (s.hand.setRing 1 r1) :=
    (alloc_eq hs.quiet.olr h0 _).symm
  have e2 : SeqStep (s.hand.setRing 1 r1) (.addRequest 1 (fun _ => .done) false) _ :=
    (addRequest_eq hlazy _).symm
  have e3 (u : SeqDev 2) : SeqStep u (.retire 1) (u.setRing 1 (u.ring 1).retireRequests) := rfl
  have h3 := ((hrun.snoc e1).snoc e2).snoc (e3 _)
  simp only [setRing_setRing, setRing_ring_self] at h3
  -- half the range behind, the status page seems to be past the request
  have hret : r1.pushRequest.retireRequests =
      { s.ring 1 with
        olr := .zero
        requestList := []
        activeList := []
        pending := [s.nextStamp] } := by
    have hp : seqnoPassed (s.ring 1).hws.val s.nextStamp.val = true := by
      show seqnoPassed (s.ring 1).hws.val s.nextSeqno = true
      rw [hs.hws, hval]
      decide
    simp only [SeqRing.retireRequests, SeqRing.pushRequest, hr1, hs.quiet.requests,
      hs.quiet.pending, hs.quiet.active, List.nil_append, List.cons_ne_nil, if_false,
      List.dropWhile_cons, List.dropWhile_nil, hp, if_true]
  rw [hret] at h3
  set u : SeqDev 2 := s.hand.setRing 1
    { s.ring 1 with
      olr := .zero
      requestList := []
      activeList := []
      pending := [s.nextStamp] } with hu
  have hnone : ∀ k, (u.ring k).olr.val = 0 ∧ (u.ring k).requestList = [] := by
    intro k
    by_cases hk : k = 1
    · subst hk
      rw [hu, setRing_ring_self]
      exact ⟨rfl, rfl⟩
    · have hk0 : k = 0 := by omega
      subst hk0
      rw [hu, setRing_ring_of_ne (by decide)]
      exact ⟨hs.worker.olr, hs.worker.requests⟩
  have e4 : SeqStep u (.setSeqno 1 fun _ => .done) _ := (setSeqno_nothing hnone _).symm
  have hpend : s.nextStamp ∈ (u.ring 1).pending := by
    rw [hu, setRing_ring_self]
    exact List.mem_singleton.mpr rfl
  have hkept : s.epoch = u.epoch + 1 := (hall _ _ (h3.snoc e4)).pending 1 s.nextStamp hpend
  have hsame : u.epoch = s.epoch := rfl
  omega

end I915
