import SolarisXorg.Dga.Proof.PhaseFrame

/-!
# What a client structure knows of the multibuffer state

The counters tell the multibuffer states of a window apart (`MbState.changes_eq_self`,
`MbState.changes_composition`). `Tracks c0 c m`: the client structure `c`, in an update that began
with `c0`, knows the composition its count says it knows: its multibuffer set is that of the
multibuffer state `m` if the counts agree. The server's changes keep it (`Tracks.changes`), and
`dgai_mbsmemb_syncMbufset` makes the counts agree (`syncMbufset_tracks`).
-/

namespace Dga.Phase

variable {c0 c c' : Client} {m : MbState} {chs : List Change}

/-! ## Changes of the multibuffer state -/

theorem MbState.legal_append {k l : List Change} :
    m.Legal (k ++ l) ↔ m.Legal k ∧ (m.changes k).Legal l := by
  induction k generalizing m with
  | nil => simp [MbState.Legal, MbState.changes]
  | cons ch k ih => cases ch <;> simp [MbState.Legal, MbState.changes, ih, and_assoc]

theorem MbState.mbufseq_changes (m : MbState) (chs : List Change) :
    m.mbufseq ≤ (m.changes chs).mbufseq ∧ (m.changes chs).mbufseq ≤ m.mbufseq + chs.length := by
  induction chs generalizing m with
  | nil => exact ⟨le_rfl, le_rfl⟩
  | cons ch chs ih =>
    rw [List.length_cons]
    cases ch with
    | mbuf composition new =>
      obtain ⟨h1, h2⟩ := ih (m.change composition new)
      have hone : (m.change composition new).mbufseq = m.mbufseq + 1 := rfl
      rw [MbState.changes]
      omega
    | _ =>
      obtain ⟨h1, h2⟩ := ih m
      exact ⟨h1, Nat.le_succ_of_le h2⟩

/-- A composition change is a multibuffer change. -/
theorem MbState.compositionseq_changes (m : MbState) (chs : List Change) :
    m.compositionseq ≤ (m.changes chs).compositionseq ∧
      (m.changes chs).compositionseq + m.mbufseq ≤
        (m.changes chs).mbufseq + m.compositionseq := by
  induction chs generalizing m with
  | nil => exact ⟨le_rfl, by rw [MbState.changes]; omega⟩
  | cons ch chs ih =>
    cases ch with
    | mbuf composition new =>
      obtain ⟨h1, h2⟩ := ih (m.change composition new)
      have hseq : (m.change composition new).mbufseq = m.mbufseq + 1 := rfl
      have hcomp : m.compositionseq ≤ (m.change composition new).compositionseq ∧
          (m.change composition new).compositionseq ≤ m.compositionseq + 1 := by
        cases composition <;> simp [MbState.change]
      rw [MbState.changes]
      omega
    | _ => exact ih m

/-- While the count of multibuffer changes stays, so does the multibuffer state. -/
theorem MbState.changes_eq_self (h : (m.changes chs).mbufseq = m.mbufseq) : m.changes chs = m := by
  induction chs generalizing m with
  | nil => rfl
  | cons ch chs ih =>
    cases ch with
    | mbuf composition new =>
      have hle := (MbState.mbufseq_changes (m.change composition new) chs).1
      have hone : (m.change composition new).mbufseq = m.mbufseq + 1 := rfl
      rw [MbState.changes] at h
      omega
    | _ => exact ih h

/-- While the count of composition changes stays, so does the composition. -/
theorem MbState.changes_composition (hl : m.Legal chs)
    (h : (m.changes chs).compositionseq = m.compositionseq) :
    (m.changes chs).enabled = m.enabled ∧
      (m.changes chs).numberBuffers = m.numberBuffers := by
  induction chs generalizing m with
  | nil => exact ⟨rfl, rfl⟩
  | cons ch chs ih =>
    cases ch with
    | mbuf composition new =>
      obtain ⟨-, hsame, hl⟩ := hl
      have hle := (MbState.compositionseq_changes (m.change composition new) chs).1
      rw [MbState.changes] at h ⊢
      cases composition with
      | true =>
        have hone : (m.change true new).compositionseq = m.compositionseq + 1 := rfl
        omega
      | false =>
        obtain ⟨h1, h2⟩ := ih hl h
        obtain ⟨h3, h4⟩ := hsame rfl
        exact ⟨h1.trans h3, h2.trans h4⟩
    | _ => exact ih hl h

theorem MbState.Ok.changes (h : m.Ok) (hl : m.Legal chs) : (m.changes chs).Ok := by
  induction chs generalizing m with
  | nil => exact h
  | cons ch chs ih =>
    cases ch with
    | mbuf composition new =>
      obtain ⟨hdisplay, -, hl⟩ := hl
      refine ih ⟨hdisplay, ?_⟩ hl
      have hcounts := h.counts
      cases composition <;> simp only [MbState.change] <;> simp <;> omega
    | _ => exact ih h hl

/-! ## Tracking -/

/-- What the client structure `c` knows of `m` in an update that began with `c0`. -/
structure Tracks (c0 c : Client) (m : MbState) : Prop where
  start : c0.cMbcomposseq ≤ c.cMbcomposseq
  composition : c.cMbcomposseq ≤ m.compositionseq
  mbuf : c.cMbufseq ≤ m.mbufseq
  synced : c.cMbufseq = m.mbufseq → c.cMbcomposseq = m.compositionseq
  set : c.cMbcomposseq = m.compositionseq → ∀ s, c.pMbs = some s →
    m.enabled = true ∧ s.numBufs = m.numberBuffers
  present : c.cMbcomposseq = m.compositionseq → c.changeMask.zombie = false →
    c.pMbs.isSome = c0.hasSet m
  ok : m.Ok

/-- The server's changes. -/
theorem Tracks.changes (h : Tracks c0 c m) (hl : m.Legal chs) : Tracks c0 c (m.changes chs) := by
  have hseq := (m.mbufseq_changes chs).1
  have hcomp := (m.compositionseq_changes chs).1
  -- the composition known is the one before the changes if it is the one after them
  have hback : c.cMbcomposseq = (m.changes chs).compositionseq →
      c.cMbcomposseq = m.compositionseq ∧
        (m.changes chs).compositionseq = m.compositionseq := by
    intro e
    have := h.composition
    omega
  refine ⟨h.start, h.composition.trans hcomp, h.mbuf.trans hseq, fun e => ?_, fun e s hs => ?_,
    fun e hz => ?_, h.ok.changes hl⟩
  · have hle := h.mbuf
    have hsame : m.changes chs = m := MbState.changes_eq_self (by omega)
    rw [hsame] at e ⊢
    exact h.synced e
  · obtain ⟨h1, h2⟩ := hback e
    obtain ⟨h3, h4⟩ := MbState.changes_composition hl h2
    rw [h3, h4]
    exact h.set h1 s hs
  · obtain ⟨h1, h2⟩ := hback e
    obtain ⟨h3, -⟩ := MbState.changes_composition hl h2
    rw [h.present h1 hz, Client.hasSet, Client.hasSet, h2, h3]

/-- What does not touch the multibuffer part. -/
theorem Tracks.keeps (h : Tracks c0 c m) (hk : Keeps c c') : Tracks c0 c' m := by
  have hcounts := hk.counts
  rw [Prod.mk.injEq] at hcounts
  refine ⟨hcounts.2 ▸ h.start, hcounts.2 ▸ h.composition, hcounts.1 ▸ h.mbuf, ?_, ?_, ?_, h.ok⟩
  · rw [hcounts.1, hcounts.2]
    exact h.synced
  · rw [hcounts.2]
    intro e s hs
    have hset := hk.set
    rw [hs, Option.map_some, eq_comm, Option.map_eq_some_iff] at hset
    obtain ⟨s', hs', hshape⟩ := hset
    obtain ⟨h1, h2⟩ := h.set e s' hs'
    have hnum : s'.numBufs = s.numBufs := congrArg (·.2.1) hshape
    exact ⟨h1, hnum ▸ h2⟩
  · rw [hcounts.2, hk.isSome]
    exact fun e hz => h.present e (hk.zombie_false hz)

/-! ## The multibuffer set -/

theorem eq_of_differs_eq_false {k n : Nat} (h : differs k n = false) (hle : k ≤ n)
    (hlt : n < k + 2 ^ 32) : k = n := by
  rw [differs_eq_false] at h
  omega

/-- `dgai_mbsmemb_syncMbufset` makes the composition known. -/
theorem syncMbufset_tracks (h : Tracks c0 c m) (hnear : m.compositionseq < c.cMbcomposseq + 2 ^ 32)
    (a : Alloc) :
    Tracks c0 (syncMbufset c m a) m ∧ (syncMbufset c m a).cMbcomposseq = m.compositionseq := by
  unfold syncMbufset
  split
  case isTrue hd =>
    have hd' : differs c.cMbcomposseq m.compositionseq = false := by simpa using hd
    exact ⟨h, eq_of_differs_eq_false hd' h.composition hnear⟩
  case isFalse hd =>
    have hne : c.cMbcomposseq ≠ m.compositionseq := by
      intro e
      rw [e, differs_self] at hd
      exact hd rfl
    have hlt := Nat.lt_of_le_of_ne h.composition hne
    have hnew : m.compositionseq ≠ c0.cMbcomposseq := by
      have := h.start
      omega
    have hhas : c0.hasSet m = m.enabled := if_neg hnew
    have hstart : c0.cMbcomposseq ≤ m.compositionseq := h.start.trans h.composition
    dsimp only
    split
    case isTrue he =>
      refine ⟨⟨hstart, le_rfl, h.mbuf, fun _ => rfl, fun _ s hs => (by cases hs), fun _ _ => ?_,
        h.ok⟩, rfl⟩
      rw [hhas]
      simpa using he
    case isFalse he =>
      have hen : m.enabled = true := by simpa using he
      split
      case h_1 =>
        exact ⟨⟨hstart, le_rfl, h.mbuf, fun _ => rfl, fun _ s hs => (by cases hs),
          fun _ hz => (by cases hz), h.ok⟩, rfl⟩
      case h_2 s hs =>
        refine ⟨⟨hstart, le_rfl, h.mbuf, fun _ => rfl, fun _ s' hs' => ?_, fun _ _ => ?_, h.ok⟩,
          rfl⟩
        · cases hs'
          unfold mbufsetCreate at hs
          split at hs
          · cases hs
            exact ⟨hen, rfl⟩
          · cases hs
        · rw [hhas, hen]
          rfl

/-- What `dgai_mbsmemb_syncMbufset` leaves alone. -/
theorem syncMbufset_frame (c : Client) (m : MbState) (a : Alloc) :
    ((syncMbufset c m a).rLockSubj, (syncMbufset c m a).eLockSubj,
      (syncMbufset c m a).shadowChngcnt) = (c.rLockSubj, c.eLockSubj, c.shadowChngcnt) ∧
    (c.changeMask.zombie = true → (syncMbufset c m a).changeMask.zombie = true) := by
  unfold syncMbufset
  split
  · exact ⟨rfl, id⟩
  · dsimp only
    split
    · exact ⟨rfl, id⟩
    · split
      · exact ⟨rfl, fun _ => rfl⟩
      · exact ⟨rfl, id⟩

end Dga.Phase
