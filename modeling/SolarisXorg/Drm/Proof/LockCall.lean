import SolarisXorg.Drm.Proof.Lock

/-!
# What `drm_lock` returns and who may unlock

`drm_lock` keeps the value of `cv_wait_sig` in the variable it returns, and that value is positive
when the thread was woken (`drmLockLoop_eq`): a call that has slept and then got the lock does not
return 0. `drmLock_result_iff` says which calls return what they should.

`drm_lock_free` clears the lock word first and looks at the holder afterwards, so that an unlock of
any context but the kernel's takes the lock from its holder (`drmUnlock_heldBy_iff`). No other call
does (`lockStep_heldBy`); `unlock_keeps_lock_iff` has both, for every state that a run reaches.
-/

namespace Drm

open Lib

variable {b : LockBits} {dmaQueue hwLock : Bool} {d : LockData} {s t : LockSys} {file : Nat}
  {c context : BitVec 32} {wakes : List Wake} {ret r : Int}

/-! ## The value of `drm_lock` -/

/-- A take that succeeds makes the file the holder. -/
theorem drmLockTake_holder (h : (drmLockTake b d context).2 = true) :
    { (drmLockTake b d context).1 with filePriv := some file }.Holder b file context :=
  ⟨rfl, drmLockTake_got h⟩

/-- The loop ends with a signal, in the state of that moment, or with the lock and the value of the
last sleep. -/
theorem drmLockLoop_eq (h : drmLockLoop b dmaQueue file context s ret wakes = some (r, t)) :
    ((∃ w, wakes.getLast? = some w ∧ w.value = 0) ∧ r = -EINTR ∧
        sleepsEnd b dmaQueue context s wakes = some t) ∨
      t.data.Holder b file context ∧ (wakes = [] ∧ r = ret ∨
        ∃ w, wakes.getLast? = some w ∧ w.value ≠ 0 ∧ r = w.value) := by
  induction wakes generalizing s ret with
  | nil =>
    simp only [drmLockLoop] at h
    split at h
    · cases h
      exact .inr ⟨drmLockTake_holder ‹_›, .inl ⟨rfl, rfl⟩⟩
    · cases h
  | cons w wakes ih =>
    simp only [drmLockLoop] at h
    split at h
    · cases h
    · simp only [Option.bind_eq_bind, Option.bind_eq_some_iff] at h
      obtain ⟨s', hothers, h⟩ := h
      have hend : sleepsEnd b dmaQueue context s (w :: wakes) =
          sleepsEnd b dmaQueue context s' wakes := by
        rw [sleepsEnd, hothers]
        rfl
      split at h
      case isTrue hw =>
        split at h
        case isTrue hnil =>
          cases h
          obtain rfl := List.isEmpty_iff.1 hnil
          exact .inl ⟨⟨w, rfl, hw⟩, rfl, hend⟩
        case isFalse => cases h
      case isFalse hw =>
        have hlast : ∀ v, wakes.getLast? = some v → (w :: wakes).getLast? = some v := by
          intro v hv
          rw [List.getLast?_cons, hv, Option.getD_some]
        obtain ⟨⟨v, hv, hv0⟩, hr, ht⟩ | ⟨hh, ⟨rfl, hr⟩ | ⟨v, hv, hv0, hr⟩⟩ := ih h
        · exact .inl ⟨⟨v, hlast v hv, hv0⟩, hr, hend.trans ht⟩
        · exact .inr ⟨hh, .inr ⟨w, rfl, hw, hr⟩⟩
        · exact .inr ⟨hh, .inr ⟨v, hlast v hv, hv0, hr⟩⟩

/-- A call is refused, or its loop has ended. A signal leaves the holder as it finds it. -/
theorem drmLockCall_eq (h : drmLockCall b dmaQueue hwLock s file context wakes = some (ret, t)) :
    (drmLockRefuses dmaQueue hwLock context = true ∧ wakes = [] ∧ ret = -22 ∧ t = s) ∨
      drmLockRefuses dmaQueue hwLock context = false ∧
        (((∃ w, wakes.getLast? = some w ∧ w.value = 0) ∧ ret = -EINTR ∧
            ∃ u, lastSleepEnd b dmaQueue s context wakes = some u ∧
              (t.data.Holder b file context ↔ u.data.Holder b file context)) ∨
          t.data.Holder b file context ∧ (wakes = [] ∧ ret = 0 ∨
            ∃ w, wakes.getLast? = some w ∧ w.value ≠ 0 ∧ ret = w.value)) := by
  rw [drmLockCall] at h
  split at h
  case isTrue href =>
    split at h
    case isTrue hnil =>
      cases h
      exact .inl ⟨href, List.isEmpty_iff.1 hnil, rfl, rfl⟩
    case isFalse => cases h
  case isFalse href =>
    simp only [Option.bind_eq_bind, Option.bind_eq_some_iff, Option.some.injEq,
      Prod.mk.injEq] at h
    obtain ⟨⟨r, u⟩, hloop, rfl, rfl⟩ := h
    refine .inr ⟨by simpa using href, ?_⟩
    rcases drmLockLoop_eq hloop with ⟨hlast, hr, hu⟩ | hgot
    · exact .inl ⟨hlast, hr, u, hu, Iff.rfl⟩
    · exact .inr hgot

/-- **What `drm_lock` returns.** A call returns 0 if and only if its file is the holder of the lock
in the end, and an error otherwise, exactly when it does not sleep and its file is not the holder
already if it is refused, or when its last sleep is ended by a signal while its file is not the
holder. -/
theorem drmLock_result_iff
    (h : drmLockCall b dmaQueue hwLock s file context wakes = some (ret, t)) :
    ((ret = 0 ↔ t.data.Holder b file context) ∧ (¬ t.data.Holder b file context → ret < 0)) ↔
      (wakes = [] ∧ (drmLockRefuses dmaQueue hwLock context = true →
          ¬ s.data.Holder b file context) ∨
        (∃ w, wakes.getLast? = some w ∧ w.value = 0) ∧
          ∃ u, lastSleepEnd b dmaQueue s context wakes = some u ∧
            ¬ u.data.Holder b file context) := by
  rcases drmLockCall_eq h with ⟨href, rfl, rfl, rfl⟩ |
    ⟨href, ⟨⟨w, hw, hw0⟩, rfl, u, hu, hholder⟩ | ⟨hh, ⟨rfl, rfl⟩ | ⟨w, hw, hw0, rfl⟩⟩⟩
  · simp [href]
  · have hne : wakes ≠ [] := by
      intro hnil
      rw [hnil] at hw
      cases hw
    simp [EINTR, hw, hw0, hne, hu, hholder]
  · simp [hh, href]
  · have hne : wakes ≠ [] := by
      intro hnil
      rw [hnil] at hw
      cases hw
    simp [hh, hw, hw0, hne]

/-- A client waits for the lock of another one until a signal comes. -/
theorem drmLock_result_interrupted :
    ∃ ret t, drmLockCall drmLockBits false true ⟨⟨0x80000001, some 1, 0, 0, false⟩, []⟩ 2 2
        [⟨[], 0⟩] = some (ret, t) ∧ ret < 0 ∧ ¬ t.data.Holder drmLockBits 2 2 := by
  have hcall : drmLockCall drmLockBits false true ⟨⟨0x80000001, some 1, 0, 0, false⟩, []⟩ 2 2
      [⟨[], 0⟩] = some (-4, ⟨⟨0xC0000001, some 1, 0, 0, false⟩, []⟩) := rfl
  have hother : ¬ LockData.Holder drmLockBits ⟨0xC0000001, some 1, 0, 0, false⟩ 2 2 :=
    fun h => absurd h.1 (by decide)
  have hend : lastSleepEnd drmLockBits false ⟨⟨0x80000001, some 1, 0, 0, false⟩, []⟩ 2 [⟨[], 0⟩] =
      some ⟨⟨0xC0000001, some 1, 0, 1, false⟩, []⟩ := rfl
  have hres := (@drmLock_result_iff _ _ _ _ _ 2 _ _ _ hcall).2
    (.inr ⟨⟨⟨[], 0⟩, rfl, rfl⟩, _, hend, fun h => absurd h.1 (by decide)⟩)
  exact ⟨_, _, hcall, hres.2 hother, hother⟩

/-- A client that waits until another one unlocks is woken with the value 1, gets the lock and
returns 1. -/
theorem drmLock_result_fails_after_sleep :
    ¬ ∀ (s t : LockSys) (file : Nat) (context : BitVec 32) (wakes : List Wake) (ret : Int),
      drmLockCall drmLockBits false true s file context wakes = some (ret, t) →
        (ret = 0 ↔ t.data.Holder drmLockBits file context) ∧
          (¬ t.data.Holder drmLockBits file context → ret < 0) := by
  intro h
  have hcall : drmLockCall drmLockBits false true ⟨⟨0x80000001, some 1, 0, 0, false⟩, []⟩ 2 2
      [⟨[.unlock 1], 1⟩] = some (1, ⟨⟨0x80000002, some 2, 0, 0, false⟩, []⟩) := rfl
  have hholder : (⟨0x80000002, some 2, 0, 0, false⟩ : LockData).Holder drmLockBits 2 2 :=
    ⟨rfl, by decide, by decide⟩
  exact absurd ((h _ _ _ _ _ _ hcall).1.2 hholder) (by decide)

/-! ## Who may unlock -/

theorem isHeld_lockingContext (w : BitVec 32) : b.isHeld (b.lockingContext w) = false := by
  have hz : w &&& ~~~(b.held ||| b.cont) &&& b.held = 0 := by
    rw [BitVec.not_or, BitVec.and_assoc, BitVec.and_assoc, BitVec.and_comm _ b.held,
      ← BitVec.and_assoc (~~~b.held), BitVec.and_comm _ b.held, BitVec.and_not_self]
    simp
  simp only [LockBits.isHeld, LockBits.lockingContext, hz]
  rfl

/-- A take by anybody leaves a held lock with its holder. -/
theorem LockData.HeldBy.take (h : d.HeldBy b c) (context : BitVec 32) :
    (drmLockTake b d context).1.HeldBy b c := by
  obtain ⟨hheld, hctx⟩ := drmLockTake_held context h.1
  exact ⟨hheld, hctx.trans h.2⟩

theorem LockData.HeldBy.tried (h : s.data.HeldBy b c) :
    (drmLockTry b s file context).data.HeldBy b c := by
  simp only [drmLockTry]
  split
  · exact h.take context
  · exact h.take context

theorem LockData.HeldBy.idlelockTake (h : d.HeldBy b c) : (drmIdlelockTake b d).HeldBy b c := by
  unfold drmIdlelockTake
  simp only
  split
  · exact h
  · split
    · exact h.take (d := { d with kernelWaiters := d.kernelWaiters + 1 }) kernelContext
    · exact h.take (d := { d with kernelWaiters := d.kernelWaiters + 1 }) kernelContext

/-- With no waiter in the kernel a release of the idle lock does not find the last one. -/
theorem LockData.HeldBy.idlelockRelease (h : d.HeldBy b c) (hk : d.kernelWaiters = 0) :
    (drmIdlelockRelease d).HeldBy b c := by
  unfold drmIdlelockRelease
  have hlast : d.kernelWaiters - 1 ≠ 0 := by
    rw [hk]
    decide
  rw [if_neg fun hz => hlast hz.1]
  exact h

/-- An unlock is refused for the kernel's context and takes the lock away for every other one,
whoever has it. -/
theorem drmUnlock_heldBy_iff (h : d.HeldBy b c) (hk : d.kernelWaiters = 0) :
    (drmUnlock b d context).HeldBy b c ↔ context = kernelContext := by
  constructor
  · intro hheld
    apply Decidable.byContradiction
    intro hctx
    have hlock : (drmUnlock b d context).lock = b.lockingContext d.lock := by
      simp only [drmUnlock, if_neg hctx, drmLockFree, hk, ne_eq, not_true_eq_false, if_false]
    have := hheld.1
    rw [hlock, isHeld_lockingContext] at this
    cases this
  · rintro rfl
    rw [drmUnlock, if_pos rfl]
    exact h

/-- One call with no waiter in the kernel: only an unlock, or the end of the holding file, can take
the lock from its holder. -/
theorem lockStep_heldBy {call : LockCall} (hs : lockStep b dmaQueue s call = some t)
    (h : s.data.HeldBy b c) (hk : s.data.kernelWaiters = 0) (hfree : ∀ x, call ≠ .free x)
    (hun : ∀ x, call = .unlock x → x = kernelContext) : t.data.HeldBy b c := by
  cases call with
  | lock file context =>
    obtain rfl : drmLock b dmaQueue s file context = t := Option.some.inj hs
    unfold drmLock
    split
    · exact h
    · exact LockData.HeldBy.tried (s := ⟨_, _⟩) h
  | retry i =>
    simp only [lockStep, Option.map_eq_some_iff] at hs
    obtain ⟨p, -, rfl⟩ := hs
    exact LockData.HeldBy.tried (s := ⟨_, _⟩) h
  | interrupt i =>
    simp only [lockStep] at hs
    split at hs
    · cases hs
      exact h
    · cases hs
  | unlock x =>
    cases hs
    exact (drmUnlock_heldBy_iff h hk).2 (hun x rfl)
  | free x => exact absurd rfl (hfree x)
  | idlelockTake =>
    cases hs
    exact h.idlelockTake
  | idlelockRelease =>
    cases hs
    exact h.idlelockRelease hk

/-- Without a take or a release of the idle lock the number of waiters in the kernel stays. -/
theorem lockStep_kernelWaiters {call : LockCall} (hs : lockStep b dmaQueue s call = some t)
    (htake : call ≠ .idlelockTake) (hrel : call ≠ .idlelockRelease) :
    t.data.kernelWaiters = s.data.kernelWaiters := by
  have htry : ∀ (u : LockSys) (f : Nat) (x : BitVec 32),
      (drmLockTry b u f x).data.kernelWaiters = u.data.kernelWaiters := by
    intro u f x
    simp only [drmLockTry]
    split <;> rfl
  have hfree : ∀ x : BitVec 32, (drmLockFree b s.data x).1.kernelWaiters = s.data.kernelWaiters := by
    intro x
    unfold drmLockFree
    split <;> rfl
  cases call with
  | lock file context =>
    obtain rfl : drmLock b dmaQueue s file context = t := Option.some.inj hs
    unfold drmLock
    split
    · rfl
    · exact htry _ _ _
  | retry i =>
    simp only [lockStep, Option.map_eq_some_iff] at hs
    obtain ⟨p, -, rfl⟩ := hs
    exact htry _ _ _
  | interrupt i =>
    simp only [lockStep] at hs
    split at hs
    · cases hs
      rfl
    · cases hs
  | unlock x =>
    cases hs
    show (drmUnlock b s.data x).kernelWaiters = _
    unfold drmUnlock
    split
    · rfl
    · exact hfree x
  | free x =>
    cases hs
    exact hfree x
  | idlelockTake => exact absurd rfl htake
  | idlelockRelease => exact absurd rfl hrel

/-- The calls that leave the lock with its holder: neither the end of a file nor the idle lock, and
no unlock that is carried out. -/
def LockCall.Harmless (call : LockCall) : Prop :=
  (∀ x, call ≠ .free x) ∧ call ≠ .idlelockTake ∧ call ≠ .idlelockRelease ∧
    ∀ x, call = .unlock x → x = kernelContext

/-- **Who can take the lock from its holder.** In every state in which a context `c` has the lock
and nobody in the kernel waits for it, a call other than the end of a file leaves the lock with `c` if
and only if it is not an unlock, or one of the kernel's context; and in every run of harmless calls
from there the lock stays with `c`. -/
theorem unlock_keeps_lock_iff (h : s.data.HeldBy b c) (hk : s.data.kernelWaiters = 0) :
    (∀ call t, lockStep b dmaQueue s call = some t → (∀ x, call ≠ .free x) →
        (t.data.HeldBy b c ↔ ∀ x, call = .unlock x → x = kernelContext)) ∧
      ∀ calls t, LockRun b dmaQueue s calls t → (∀ call ∈ calls, call.Harmless) →
        t.data.HeldBy b c ∧ t.data.kernelWaiters = 0 := by
  constructor
  · intro call t hs hfree
    refine ⟨fun hheld x hx => ?_, lockStep_heldBy hs h hk hfree⟩
    subst hx
    cases hs
    exact (drmUnlock_heldBy_iff h hk).1 hheld
  · intro calls t hr
    refine hr.history (P := fun ls u => (∀ call ∈ ls, call.Harmless) →
      u.data.HeldBy b c ∧ u.data.kernelWaiters = 0) (fun _ => ⟨h, hk⟩) ?_
    intro ls u call v ih hs hall
    obtain ⟨hu, hku⟩ := ih fun x hx => hall x (List.mem_append_left _ hx)
    obtain ⟨hfree, htake, hrel, hun⟩ := hall call (by simp)
    exact ⟨lockStep_heldBy hs hu hku hfree hun, (lockStep_kernelWaiters hs htake hrel).trans hku⟩

/-- A client has the lock; another one asks for it and a third one unlocks the kernel's context. -/
theorem unlock_keeps_lock_contended :
    ∃ t, LockRun drmLockBits false ⟨⟨0x80000001, some 1, 0, 0, false⟩, []⟩
        [.lock 2 2, .unlock kernelContext] t ∧ t.data.HeldBy drmLockBits 1 := by
  have hr : LockRun drmLockBits false ⟨⟨0x80000001, some 1, 0, 0, false⟩, []⟩
      [.lock 2 2, .unlock kernelContext] ⟨⟨0xC0000001, some 1, 0, 1, false⟩, [(2, 2)]⟩ :=
    .snoc (.snoc .nil rfl) rfl
  refine ⟨_, hr, ((unlock_keeps_lock_iff (s := ⟨⟨0x80000001, some 1, 0, 0, false⟩, []⟩)
    ⟨by decide, by decide⟩ rfl).2 _ _ hr ?_).1⟩
  simp [LockCall.Harmless]

/-- A client has the lock, and another one that has never had it unlocks its own context. -/
theorem unlock_takes_lock_of_other :
    ¬ ∀ (w : BitVec 32) (calls : List LockCall) (s : LockSys) (c context : BitVec 32),
      LockRun drmLockBits false (lockInit w) calls s → s.data.HeldBy drmLockBits c →
        s.data.kernelWaiters = 0 → context ≠ c →
          (drmUnlock drmLockBits s.data context).HeldBy drmLockBits c := by
  intro h
  have hr : LockRun drmLockBits false (lockInit 0) [.lock 1 1]
      ⟨⟨0x80000001, some 1, 0, 0, false⟩, []⟩ := .snoc .nil rfl
  have := h 0 _ _ 1 2 hr ⟨by decide, by decide⟩ rfl (by decide)
  exact absurd this.1 (by decide)

end Drm
