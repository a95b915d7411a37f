import SolarisXorg.Drm.Lock

/-!
# Who has the idle lock

`LockInv b n d`: `kernel_waiters` counts the `n` takes of the idle lock that are not given back, and
the kernel holds the lock whenever `idle_has_lock` says so. A take by a user context sets the
contention flag at most when the lock is held, so that the kernel's hold survives it
(`drmLockTake_held`); a free by anybody hands the lock to the kernel while it waits
(`drmLockFree_inv`). `lockStep_inv` puts the calls together and `idle_lock_held_by_kernel` is the
statement about runs. `kernel_waiters` has 32 bits: `idlelock_takes_wrap` takes the idle lock
`2 ^ 32` times.
-/

namespace Drm

open Lib

variable {b : LockBits} {d : LockData} {s t : LockSys} {context : BitVec 32}

/-! ## The lock word -/

theorem lockingContext_or_cont (w : BitVec 32) :
    b.lockingContext (w ||| b.cont) = b.lockingContext w := by
  have hc : b.cont &&& ~~~(b.held ||| b.cont) = 0#32 := by
    rw [BitVec.not_or, ← BitVec.and_assoc, BitVec.and_comm b.cont, BitVec.and_assoc,
      BitVec.and_not_self]
    exact BitVec.and_zero
  rw [LockBits.lockingContext, BitVec.and_or_distrib_right, hc, BitVec.or_zero,
    LockBits.lockingContext]

theorem lockingContext_held : b.lockingContext b.held = 0 := by
  rw [LockBits.lockingContext, BitVec.not_or, ← BitVec.and_assoc, BitVec.and_not_self]
  exact BitVec.zero_and

theorem isHeld_or {v w : BitVec 32} (h : b.isHeld v = true) : b.isHeld (v ||| w) = true := by
  simp only [LockBits.isHeld, bne_iff_ne, ne_eq] at h ⊢
  intro h0
  rw [BitVec.and_or_distrib_right] at h0
  exact h (BitVec.or_eq_zero_iff.1 h0).1

theorem isHeld_held : b.isHeld b.held = true := by
  simpa [LockBits.isHeld] using b.held_ne

/-! ## The calls -/

@[simp] theorem drmLockTake_kernelWaiters :
    (drmLockTake b d context).1.kernelWaiters = d.kernelWaiters := rfl

@[simp] theorem drmLockTake_idleHasLock :
    (drmLockTake b d context).1.idleHasLock = d.idleHasLock := rfl

/-- A take of a held lock leaves it with its holder. -/
theorem drmLockTake_held (context : BitVec 32) (h : b.isHeld d.lock = true) :
    b.isHeld (drmLockTake b d context).1.lock = true ∧
      b.lockingContext (drmLockTake b d context).1.lock = b.lockingContext d.lock := by
  have hw : (drmLockTake b d context).1.lock = d.lock ||| b.cont := if_pos h
  rw [hw]
  exact ⟨isHeld_or h, lockingContext_or_cont _⟩

/-- A take of a held lock fails, whoever holds it. -/
theorem drmLockTake_held_fails (h : b.isHeld d.lock = true) :
    (drmLockTake b d context).2 = false := by
  by_cases hc : b.lockingContext d.lock = context
  · simp [drmLockTake, hc, h]
  · have hw : lockWord b d context = d.lock ||| b.cont := if_pos h
    simp [drmLockTake, hc, hw, lockingContext_or_cont]

/-- A take that succeeds holds the lock for its context. -/
theorem drmLockTake_got (h : (drmLockTake b d context).2 = true) :
    b.isHeld (drmLockTake b d context).1.lock = true ∧
      b.lockingContext (drmLockTake b d context).1.lock = context := by
  simp only [drmLockTake] at h ⊢
  split at h
  · cases h
  · simp only [Bool.and_eq_true, beq_iff_eq] at h
    exact ⟨h.2, h.1⟩

/-! ## The invariant -/

/-- `n` takes of the idle lock are out (module doc). -/
structure LockInv (b : LockBits) (n : Nat) (d : LockData) : Prop where
  waiters : d.kernelWaiters.toNat = n
  kernel : d.idleHasLock = true → d.KernelHolds b

theorem LockInv.take {n : Nat} (h : LockInv b n d) : LockInv b n (drmLockTake b d context).1 where
  waiters := h.waiters
  kernel hi := by
    obtain ⟨hk, hh, hc⟩ := h.kernel hi
    obtain ⟨hh', hc'⟩ := drmLockTake_held context hh
    exact ⟨hk, hh', hc'.trans hc⟩

/-- Neither the file nor the number of user waiters matters. -/
theorem LockInv.user {n : Nat} (h : LockInv b n d) (f : Option Nat) (u : BitVec 32) :
    LockInv b n { d with filePriv := f, userWaiters := u } :=
  ⟨h.waiters, h.kernel⟩

theorem LockInv.tried {n : Nat} {file : Nat} (h : LockInv b n s.data) :
    LockInv b n (drmLockTry b s file context).data := by
  simp only [drmLockTry]
  split
  · exact h.take.user _ _
  · exact h.take

theorem drmLockFree_inv {n : Nat} (h : LockInv b n d) :
    LockInv b n (drmLockFree b d context).1 := by
  unfold drmLockFree
  split
  case isTrue hk =>
    have hw : (0 : BitVec 32) ||| b.held = b.held := BitVec.zero_or
    refine ⟨h.waiters, fun _ => ⟨(BitVec.pos_iff_ne_zero _).2 hk, ?_, ?_⟩⟩
    · simp only [drmLockTransfer, hw, isHeld_held]
    · simp only [drmLockTransfer, hw, lockingContext_held, kernelContext]
  case isFalse hk =>
    -- nobody waits, so the kernel does not hold the lock
    refine ⟨h.waiters, fun hi => ?_⟩
    exact absurd (h.kernel hi).1 (by simpa using hk)

theorem drmIdlelockTake_inv {n : Nat} (h : LockInv b n d) (hn : n + 1 < 2 ^ 32) :
    LockInv b (n + 1) (drmIdlelockTake b d) := by
  have hw : (d.kernelWaiters + 1).toNat = n + 1 := by
    rw [BitVec.toNat_add, h.waiters]
    exact Nat.mod_eq_of_lt hn
  have hpos : 0 < d.kernelWaiters + 1 := by
    rw [BitVec.lt_def, hw]
    exact Nat.succ_pos n
  unfold drmIdlelockTake
  simp only
  split
  case isTrue hi => exact ⟨hw, fun _ => ⟨hpos, (h.kernel hi).2⟩⟩
  case isFalse hi =>
    split
    case isTrue hg => exact ⟨hw, fun _ => ⟨hpos, drmLockTake_got hg⟩⟩
    case isFalse => exact ⟨hw, fun hi' => absurd hi' hi⟩

theorem drmIdlelockRelease_inv {n : Nat} (h : LockInv b (n + 1) d) :
    LockInv b n (drmIdlelockRelease d) := by
  have hw : (d.kernelWaiters - 1).toNat = n := by
    have := h.waiters
    bv_omega
  unfold drmIdlelockRelease
  simp only
  split
  case isTrue => exact ⟨hw, fun hi => by cases hi⟩
  case isFalse hz =>
    refine ⟨hw, fun hi => ⟨?_, (h.kernel hi).2⟩⟩
    exact (BitVec.pos_iff_ne_zero _).2 fun h0 => hz ⟨h0, hi⟩

/-- Every call keeps the invariant; `m` is the number of takes that are out after it. -/
theorem lockStep_inv {dmaQueue : Bool} {c : LockCall} {n m : Nat}
    (hs : lockStep b dmaQueue s c = some t) (h : LockInv b n s.data)
    (hm : m + [c].count .idlelockRelease = n + [c].count .idlelockTake) (hlt : m < 2 ^ 32) :
    LockInv b m t.data := by
  cases c with
  | lock file context =>
    obtain rfl : m = n := by simpa using hm
    obtain rfl : drmLock b dmaQueue s file context = t := Option.some.inj hs
    unfold drmLock
    split
    · exact h
    · exact (h.user s.data.filePriv _).tried (s := ⟨_, _⟩)
  | retry i =>
    obtain rfl : m = n := by simpa using hm
    simp only [lockStep, Option.map_eq_some_iff] at hs
    obtain ⟨p, -, rfl⟩ := hs
    exact LockInv.tried (s := ⟨_, _⟩) h
  | interrupt i =>
    obtain rfl : m = n := by simpa using hm
    simp only [lockStep] at hs
    split at hs
    · cases hs
      exact h.user s.data.filePriv _
    · cases hs
  | unlock context =>
    obtain rfl : m = n := by simpa using hm
    cases hs
    show LockInv b m (drmUnlock b s.data context)
    unfold drmUnlock
    split
    · exact h
    · exact drmLockFree_inv h
  | free context =>
    obtain rfl : m = n := by simpa using hm
    cases hs
    exact drmLockFree_inv h
  | idlelockTake =>
    obtain rfl : m = n + 1 := by simpa using hm
    cases hs
    exact drmIdlelockTake_inv h hlt
  | idlelockRelease =>
    obtain rfl : n = m + 1 := by simpa using hm.symm
    cases hs
    exact drmIdlelockRelease_inv h

/-! ## Runs -/

theorem lockRun_inv {dmaQueue : Bool} {w : BitVec 32} {calls : List LockCall}
    (hr : LockRun b dmaQueue (lockInit w) calls s) (hm : ReleasesMatched calls)
    (hf : TakesFit calls) :
    LockInv b (calls.count .idlelockTake - calls.count .idlelockRelease) s.data := by
  refine hr.history (P := fun ls u => ReleasesMatched ls → TakesFit ls →
    LockInv b (ls.count .idlelockTake - ls.count .idlelockRelease) u.data) ?_ ?_ hm hf
  · intro _ _
    exact ⟨rfl, fun hi => by cases hi⟩
  · intro ls t c u ih hs hm hf
    have hsub : ∀ {p}, p <+: ls → p <+: ls ++ [c] := fun hp => hp.trans (List.prefix_append _ _)
    have h := ih (fun p hp => hm p (hsub hp)) (fun p hp => hf p (hsub hp))
    have hm0 := hm ls (List.prefix_append _ _)
    have hm1 := hm _ List.prefix_rfl
    have hf1 := hf _ List.prefix_rfl
    refine lockStep_inv hs h ?_ ?_
    · simp only [List.count_append] at hm1 ⊢
      omega
    · omega

/-- **The idle lock belongs to the kernel**: in every run in which takes and releases of the idle
lock match and the takes that are out fit their counter, `idle_has_lock` means that the kernel waits
for the lock and has it, and no take by a user context succeeds meanwhile. -/
theorem idle_lock_held_by_kernel {dmaQueue : Bool} {w : BitVec 32} {calls : List LockCall}
    (hr : LockRun b dmaQueue (lockInit w) calls s) (hm : ReleasesMatched calls)
    (hf : TakesFit calls) (hi : s.data.idleHasLock = true) :
    s.data.KernelHolds b ∧
      ∀ (context u : BitVec 32),
        (drmLockTake b { s.data with userWaiters := u } context).2 = false := by
  have h := (lockRun_inv hr hm hf).kernel hi
  exact ⟨h, fun context u => drmLockTake_held_fails h.2.1⟩

/-- A user holds the lock, the kernel asks for it and gets it when the user lets go. -/
theorem idle_lock_held_by_kernel_after_unlock :
    ∃ s, LockRun drmLockBits false (lockInit 0) [.lock 0 1, .idlelockTake, .unlock 1] s ∧
      s.data.idleHasLock = true ∧ s.data.KernelHolds drmLockBits := by
  have hr : LockRun drmLockBits false (lockInit 0) [.lock 0 1, .idlelockTake, .unlock 1]
      ⟨⟨0x80000000, none, 1, 0, true⟩, []⟩ :=
    .snoc (.snoc (.snoc .nil rfl) rfl) rfl
  have hm : ReleasesMatched [.lock 0 1, .idlelockTake, .unlock 1] := by
    intro p hp
    exact Nat.le_trans (hp.sublist.count_le .idlelockRelease) (Nat.zero_le _)
  have hf : TakesFit [.lock 0 1, .idlelockTake, .unlock 1] := by
    intro p hp
    have : p.count .idlelockTake ≤ 1 := hp.sublist.count_le .idlelockTake
    omega
  exact ⟨_, hr, rfl, (idle_lock_held_by_kernel hr hm hf rfl).1⟩

/-! ## Wrapping the counter -/

/-- `n` takes of a free lock. -/
theorem idlelockTakes_run (n : Nat) :
    ∃ s, LockRun drmLockBits false (lockInit 0) (List.replicate n .idlelockTake) s ∧
      s.data.kernelWaiters = BitVec.ofNat 32 n ∧
      (if n = 0 then s = lockInit 0 else s.data.idleHasLock = true) := by
  induction n with
  | zero => exact ⟨_, .nil, rfl, rfl⟩
  | succ n ih =>
    obtain ⟨s, hr, hw, hi⟩ := ih
    rw [List.replicate_succ']
    refine ⟨_, .snoc hr rfl, ?_, ?_⟩
    · show (drmIdlelockTake drmLockBits s.data).kernelWaiters = _
      have : (drmIdlelockTake drmLockBits s.data).kernelWaiters = s.data.kernelWaiters + 1 := by
        unfold drmIdlelockTake
        simp only
        split
        · rfl
        · split <;> rfl
      rw [this, hw, BitVec.ofNat_add]
      rfl
    · show (drmIdlelockTake drmLockBits s.data).idleHasLock = true
      split at hi
      · subst hi
        rfl
      · simp [drmIdlelockTake, hi]

/-- After `2 ^ 32` takes `kernel_waiters` is 0 although the kernel has the lock. -/
theorem idlelock_takes_wrap :
    ∃ s, LockRun drmLockBits false (lockInit 0) (List.replicate (2 ^ 32) .idlelockTake) s ∧
      ReleasesMatched (List.replicate (2 ^ 32) .idlelockTake) ∧
      s.data.idleHasLock = true ∧ s.data.kernelWaiters = 0 := by
  obtain ⟨s, hr, hw, hi⟩ := idlelockTakes_run (2 ^ 32)
  refine ⟨s, hr, ?_, by simpa using hi, ?_⟩
  · intro p hp
    have := hp.sublist.count_le .idlelockRelease
    rw [List.count_replicate] at this
    exact Nat.le_trans this (Nat.zero_le _)
  · rw [hw]
    decide

end Drm
