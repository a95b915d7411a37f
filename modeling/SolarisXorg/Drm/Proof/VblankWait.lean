import SolarisXorg.Drm.VblankWait

/-!
# What a wait for a vblank returns

`DRM_WAIT_ON` leaves 0, `EBUSY` or `EINTR` in `ret`, whichever end the script comes to first
(`drmWaitOn_eq`). None of the three is negative, so the test for `-EINTR` after it never fails and
the reply is written over the request in every case (`drmWaitVblankCall_eq`): the call keeps its
promise when the wait ends with its condition, and not otherwise (`drmWaitVblankCall_kept_iff`).
-/

namespace Drm

variable {α : Type} {condition : α → Bool} {e : VblEnv} {v w : VblWait} {ret : Int}

/-! ## `DRM_WAIT_ON` -/

/-- **`DRM_WAIT_ON` gives the value of the first end of its script.** -/
theorem drmWaitOn_eq (condition : α → Bool) (script : List (α × Int)) :
    drmWaitOn condition 0 script = (waitEnd condition script).map WaitEnd.ret := by
  induction script with
  | nil => rfl
  | cons x script ih =>
    obtain ⟨x, value⟩ := x
    rw [waitEnd, List.findSome?_cons, drmWaitOn, endsWith]
    by_cases hc : condition x = true
    case pos => simp [hc, WaitEnd.ret]
    case neg =>
      by_cases ht : value = -1
      case pos => simp [hc, ht, WaitEnd.ret]
      case neg =>
        by_cases hs : value = 0
        case pos => simp [hc, hs, WaitEnd.ret]
        case neg => simpa [hc, ht, hs, waitEnd] using ih

/-- The signs of `DRM_WAIT_ON` are not those of its caller. -/
theorem WaitEnd.ret_nonneg (x : WaitEnd α) : 0 ≤ x.ret := by
  cases x <;> simp [WaitEnd.ret, EBUSY, EINTR]

theorem WaitEnd.ret_ne (x : WaitEnd α) : x.ret ≠ -EINTR := by
  have h := x.ret_nonneg
  simp only [EINTR]
  omega

/-! ## The request -/

variable {r : VblRequest} {seq : BitVec 32}

theorem absolute_sequence : (r.absolute seq).sequence =
    if r.type = .relative then r.sequence + seq else r.sequence := by
  unfold VblRequest.absolute
  split <;> rfl

@[simp] theorem absolute_nextonmiss : (r.absolute seq).nextonmiss = r.nextonmiss := by
  unfold VblRequest.absolute
  split <;> rfl

theorem awaited_sequence : (r.awaited seq).sequence =
    if r.nextonmiss && passed seq (r.absolute seq).sequence then seq + 1
    else (r.absolute seq).sequence := by
  simp only [VblRequest.awaited, absolute_nextonmiss]
  split <;> rfl

/-- A call waits for the vblank that the thread of `VblThread.dispatch` waits for. -/
theorem dispatch_awaited {t : VblThread} (ht : t.request.type ≠ .other)
    (he : t.request.event = false) :
    (t.dispatch seq).stage = .waiting ∧
      (t.dispatch seq).request.sequence = (t.request.awaited seq).sequence := by
  rw [awaited_sequence, absolute_sequence, VblThread.dispatch, if_neg ht, he]
  exact ⟨rfl, rfl⟩

/-! ## The call -/

theorem drmWaitVblankCall_refused (h : e.Accepts v.request) (hg : e.got = false) :
    drmWaitVblankCall e v = some (-EINVAL, v) := by
  simp [drmWaitVblankCall, h.checks, hg]

/-- The reply is written over the request, however the wait has ended. -/
theorem drmWaitVblankCall_eq (h : e.Accepts v.request) (hg : e.got = true) :
    drmWaitVblankCall e v = (e.waitEnd v.request).map fun x =>
      (x.ret, VblWait.replied { v with request := v.request.awaited e.seq } e) := by
  simp only [drmWaitVblankCall, h.checks, hg, h.type, h.event, drmWaitOn_eq, Option.map_map]
  refine congrArg (Option.map · _) (funext fun x => ?_)
  simp [x.ret_ne]

/-! ## The promise -/

theorem kept_refused (hg : e.got = false) : e.Kept v (-EINVAL) v where
  refused _ := by decide
  met _ ht := absurd ht (by simp [hg])
  timeout ht := absurd ht (by simp [hg])
  signal ht := absurd ht (by simp [hg])

/-- Of the three ends of a wait, the values of two are not what is promised. -/
theorem kept_replied_iff {x : WaitEnd VblLook} (hg : e.got = true)
    (hx : e.waitEnd v.request = some x) :
    e.Kept v x.ret (VblWait.replied { v with request := v.request.awaited e.seq } e) ↔
      ∃ y, x = .met y ∧
        (passed e.reply (v.request.awaited e.seq).sequence = true ∨ y.irqEnabled = false) := by
  constructor
  · intro hk
    cases x with
    | met y => exact ⟨y, rfl, (hk.met y hg hx).2⟩
    | timeout => exact absurd (hk.timeout hg hx) (by decide)
    | signal => exact absurd (hk.signal hg hx).1 (by decide)
  · intro hy
    obtain ⟨y, rfl, hy⟩ := hy
    refine ⟨fun hf => ?_, fun z _ hz => ?_, fun _ ht => ?_, fun _ hs => ?_⟩
    · rw [hg] at hf
      cases hf
    · rw [hx] at hz
      cases hz
      exact ⟨rfl, hy⟩
    · rw [hx] at ht
      cases ht
    · rw [hx] at hs
      cases hs

/-- **A call that waits returns exactly when its wait ends, and returns what it should exactly when
the wait ends with its condition and the reply comes in time.** -/
theorem drmWaitVblankCall_kept_iff (h : e.Accepts v.request) :
    ((drmWaitVblankCall e v).isSome ↔ (e.got = true → (e.waitEnd v.request).isSome)) ∧
      ((∀ ret w, drmWaitVblankCall e v = some (ret, w) → e.Kept v ret w) ↔
        e.Reached v.request) := by
  by_cases hg : e.got = true
  case neg =>
    have hf : e.got = false := by simpa using hg
    rw [drmWaitVblankCall_refused h hf]
    refine ⟨by simp [hf], fun _ ht => absurd ht hg, fun _ ret w hc => ?_⟩
    cases hc
    exact kept_refused hf
  case pos =>
    rw [drmWaitVblankCall_eq h hg]
    refine ⟨by simp [hg], fun hk _ x hx => ?_, fun hr ret w hc => ?_⟩
    · refine (kept_replied_iff hg hx).1 (hk _ _ ?_)
      rw [hx, Option.map_some]
    · obtain ⟨x, hx, hc⟩ := Option.map_eq_some_iff.1 hc
      cases hc
      exact (kept_replied_iff hg hx).2 (hr hg x hx)

/-- A wait for the next vblank on a device with one crtc; `script` is how it goes. -/
def nextVblank (script : List (VblLook × Int)) (reply : BitVec 32) : VblEnv where
  irq := true
  irqEnabled := true
  numCrtcs := 1
  got := true
  seq := 41
  script := script
  reply := reply
  sec := 7
  usec := 500
  queue v := (0, v)

/-- `_DRM_VBLANK_RELATIVE`, one vblank ahead. -/
def nextRequest : VblWait where
  request :=
    { signal := false
      unsupported := false
      type := .relative
      event := false
      nextonmiss := false
      secondary := false
      highCrtc := 0
      sequence := 1 }
  signal := 0
  usec := 0

theorem drmWaitVblankCall_kept_next :
    (drmWaitVblankCall (nextVblank [(⟨41, true⟩, 1), (⟨42, true⟩, 1)] 42) nextRequest).isSome ∧
      (nextVblank [(⟨41, true⟩, 1), (⟨42, true⟩, 1)] 42).Kept nextRequest 0
        ⟨{ nextRequest.request with type := .absolute, sequence := 42 }, 7, 500⟩ := by
  obtain ⟨hsome, hkept⟩ := drmWaitVblankCall_kept_iff
    (e := nextVblank [(⟨41, true⟩, 1), (⟨42, true⟩, 1)] 42) (v := nextRequest)
    ⟨rfl, by decide, rfl⟩
  refine ⟨hsome.2 fun _ => rfl, hkept.2 (fun _ x hx => ?_) 0 _ (by decide)⟩
  exact ⟨⟨42, true⟩, (Option.some.inj hx).symm, .inl rfl⟩

/-- The request is accepted, the sleep ends with a signal, and the call returns `EINTR` with the
reply in the place of the request. -/
theorem drmWaitVblankCall_interrupted :
    (nextVblank [(⟨41, true⟩, 0)] 41).Accepts nextRequest.request ∧
      drmWaitVblankCall (nextVblank [(⟨41, true⟩, 0)] 41) nextRequest =
        some (4, ⟨{ nextRequest.request with type := .absolute, sequence := 41 }, 7, 500⟩) ∧
      ¬(nextVblank [(⟨41, true⟩, 0)] 41).Kept nextRequest 4
        ⟨{ nextRequest.request with type := .absolute, sequence := 41 }, 7, 500⟩ := by
  refine ⟨⟨rfl, by decide, rfl⟩, by decide, fun hk => ?_⟩
  exact absurd (hk.signal rfl (by decide)).1 (by decide)

end Drm
