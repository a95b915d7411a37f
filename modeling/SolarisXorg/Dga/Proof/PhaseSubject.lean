import SolarisXorg.Dga.Proof.PhaseTracks

/-!
# The lock subject in a synchronization loop

A pass of a synchronization loop looks at the multibuffer state only if its count has moved, and
then changes the lock subject only to that of an alias: `winMbSync_spec` and `mbufMbSync_spec` (both
`MbSynced`). So the lock subject that a loop ends with is the value of `Lib.poll` over the
multibuffer states at the starts of its passes: `syncLoop_looped`, from one pass to the next by
`Start.next`, and from the last pass back to the first by `LoopDone.last_pass` and `LoopDone.cons`.
-/

namespace Dga.Phase

open Lib

variable {c0 c c' : Client} {S S' : Shared} {x y : Sync} {b : Int}

/-! ## The multibuffer part of a pass -/

/-- From `x` to `y` the multibuffer part of a pass of an update of `b`, which began with `c0`. -/
structure MbSynced (c0 : Client) (b : Int) (x y : Sync) : Prop where
  tracks : Tracks c0 y.c y.sh.mb
  known : y.c.cMbcomposseq = y.sh.mb.compositionseq
  mb : y.sh.mb = x.sh.mb
  chngcnt : y.sh.chngcnt = x.sh.chngcnt
  last : differs y.last.mbufseq x.sh.mb.mbufseq = false
  same : (y.c.rLockSubj, y.c.shadowChngcnt) = (x.c.rLockSubj, x.c.shadowChngcnt)
  zombie : x.c.changeMask.zombie = true → y.c.changeMask.zombie = true
  subject : y.c.changeMask.zombie = false → y.c.eLockSubj =
    if differs x.last.mbufseq x.sh.mb.mbufseq then (c0.aliasOf b x.sh.mb).getD x.c.eLockSubj
    else x.c.eLockSubj
  inside : y.c.changeMask.zombie = false → differs x.last.mbufseq x.sh.mb.mbufseq = true →
    b ≠ -1 → b < x.sh.mb.numberBuffers

/-- The rest of a client structure does not matter. -/
theorem Tracks.congr {m : MbState} (h : Tracks c0 c m)
    (hc : (c'.cMbufseq, c'.cMbcomposseq, c'.pMbs) = (c.cMbufseq, c.cMbcomposseq, c.pMbs))
    (hz : c.changeMask.zombie = true → c'.changeMask.zombie = true) : Tracks c0 c' m := by
  simp only [Prod.mk.injEq] at hc
  obtain ⟨h1, h2, h3⟩ := hc
  refine ⟨h2 ▸ h.start, h2 ▸ h.composition, h1 ▸ h.mbuf, ?_, ?_, ?_, h.ok⟩
  · rw [h1, h2]
    exact h.synced
  · rw [h2, h3]
    exact h.set
  · rw [h2, h3]
    exact fun e hz' => h.present e (eq_false_of_imp hz hz')

/-- A client structure with another lock subject, change mask and notifications. -/
def Client.setSubject (c : Client) (eLockSubj : Int) (mask : Mask) (notes : List Note) : Client :=
  { c with eLockSubj, changeMask := mask, notes }

theorem aliasTo_eq (c : Client) (lockSubj : Int) :
    ∃ mask, aliasTo c lockSubj = c.setSubject lockSubj mask c.notes ∧
      mask.zombie = c.changeMask.zombie := by
  unfold aliasTo
  dsimp only
  split
  · exact ⟨_, rfl, rfl⟩
  · exact ⟨_, rfl, rfl⟩

theorem syncRendBuf_eq (c : Client) (S : Shared) :
    ∃ notes w, syncRendBuf c S =
      (c.setSubject c.eLockSubj c.changeMask notes, { S with writeBuffer := w }) := by
  unfold syncRendBuf
  split
  · exact ⟨_, _, rfl⟩
  · exact ⟨c.notes, S.writeBuffer, rfl⟩

/-- The lock subject and the render buffer of a window with buffers. -/
theorem mbwinSyncLockSubj_eq (c : Client) (S : Shared) :
    ∃ mask notes w, syncRendBuf (mbwinSyncLockSubj c S.mb) S =
      (c.setSubject (if S.mb.flipMode = .video then S.mb.displayBuffer else c.eLockSubj) mask notes,
        { S with writeBuffer := w }) ∧ mask.zombie = c.changeMask.zombie := by
  obtain ⟨notes, w, hr⟩ := syncRendBuf_eq (mbwinSyncLockSubj c S.mb) S
  rw [hr]
  unfold mbwinSyncLockSubj
  split
  · obtain ⟨mask, ha, hz⟩ := aliasTo_eq c S.mb.displayBuffer
    rw [ha]
    exact ⟨mask, notes, w, rfl, hz⟩
  · exact ⟨c.changeMask, notes, w, rfl, rfl⟩

/-- The lock subject and the render buffer of a buffer. -/
theorem mbufSyncLockSubj_eq (c : Client) (S : Shared) :
    ∃ mask notes w, syncRendBuf (mbufSyncLockSubj c S.mb) S =
      (c.setSubject (if S.mb.flipMode = .copy ∧ S.mb.displayBuffer = c.rLockSubj then -1
        else c.eLockSubj) mask notes, { S with writeBuffer := w }) ∧
      mask.zombie = c.changeMask.zombie := by
  obtain ⟨notes, w, hr⟩ := syncRendBuf_eq (mbufSyncLockSubj c S.mb) S
  rw [hr]
  unfold mbufSyncLockSubj
  split
  · obtain ⟨mask, ha, hz⟩ := aliasTo_eq c (-1)
    rw [ha]
    exact ⟨mask, notes, w, rfl, hz⟩
  · exact ⟨c.changeMask, notes, w, rfl, rfl⟩

/-- What `dgai_win_mb_update` does behind `dgai_mbsmemb_syncMbufset`. -/
theorem winMbUpdate_eq {a : Alloc} (e : winMbUpdate c S a = some (c', S')) :
    ∃ mask notes w, S' = { S with writeBuffer := w } ∧
      mask.zombie = (syncMbufset c S.mb a).changeMask.zombie ∧
      c' = (syncMbufset c S.mb a).setSubject
        (if (syncMbufset c S.mb a).pMbs.isSome = true ∧ S.mb.flipMode = .video then
          S.mb.displayBuffer else c.eLockSubj) mask notes := by
  simp only [winMbUpdate, Option.bind_eq_bind, Option.bind_eq_some_iff] at e
  obtain ⟨k, -, e⟩ := e
  have hsubj : (syncMbufset c S.mb a).eLockSubj = c.eLockSubj :=
    congrArg (·.2.1) (syncMbufset_frame c S.mb a).1
  generalize syncMbufset c S.mb a = c1 at e hsubj ⊢
  have hmid : ∃ mask notes w, (if c1.pMbs.isSome = true then
      syncRendBuf (mbwinSyncLockSubj c1 S.mb) S else (c1, S)) =
      (c1.setSubject (if c1.pMbs.isSome = true ∧ S.mb.flipMode = .video then S.mb.displayBuffer
        else c.eLockSubj) mask notes, { S with writeBuffer := w }) ∧
      mask.zombie = c1.changeMask.zombie := by
    by_cases hm : c1.pMbs.isSome = true
    · simp only [hm, if_true, true_and, ← hsubj]
      exact mbwinSyncLockSubj_eq c1 S
    · rw [if_neg hm, if_neg fun h => hm h.1, ← hsubj]
      exact ⟨c1.changeMask, c1.notes, S.writeBuffer, rfl, rfl⟩
  obtain ⟨mask, notes, w, hmid, hz⟩ := hmid
  rw [hmid] at e
  split at e
  · cases e
    exact ⟨{ mask.attrs with mbufset := true }, notes, w, rfl, hz, rfl⟩
  · cases e
    exact ⟨{ mask.attrs with mbufset := true }, notes, w, rfl, hz, rfl⟩
  · cases e

/-- What `dgai_mbuf_mb_update` does behind `dgai_mbsmemb_syncMbufset`, unless it finds a zombie. -/
theorem mbufMbUpdate_eq {a : Alloc} (e : mbufMbUpdate c S a = some (c', S')) :
    ∃ mask notes w, S' = { S with writeBuffer := w } ∧
      ((syncMbufset c S.mb a).changeMask.zombie = true → mask.zombie = true) ∧
      ∃ e', c' = (syncMbufset c S.mb a).setSubject e' mask notes ∧ (mask.zombie = false →
        mask.zombie = (syncMbufset c S.mb a).changeMask.zombie ∧
        (c.rLockSubj ≠ -1 → c.rLockSubj < S.mb.numberBuffers) ∧
        e' = if S.mb.flipMode = .copy ∧ S.mb.displayBuffer = c.rLockSubj then -1
          else c.eLockSubj) := by
  have hframe := (syncMbufset_frame c S.mb a).1
  simp only [Prod.mk.injEq] at hframe
  unfold mbufMbUpdate at e
  dsimp only at e
  generalize syncMbufset c S.mb a = c1 at e hframe ⊢
  split at e
  · cases e
    exact ⟨_, c1.notes, S.writeBuffer, rfl, fun _ => rfl, c1.eLockSubj, rfl, fun h => (by cases h)⟩
  case isFalse hin =>
    obtain ⟨mask, notes, w, hr, hz⟩ := mbufSyncLockSubj_eq c1 S
    simp only [Option.bind_eq_bind, Option.bind_eq_some_iff, hr] at e
    obtain ⟨k, -, e⟩ := e
    rw [hframe.1, hframe.2.1] at e
    have hlt : c.rLockSubj ≠ -1 → c.rLockSubj < S.mb.numberBuffers := by
      intro hne
      simp only [Bool.or_eq_true, Bool.and_eq_true, bne_iff_ne, decide_eq_true_eq, not_or, not_and,
        hframe.1] at hin
      exact Int.not_le.1 (hin.2 hne)
    split at e
    · cases e
      exact ⟨{ mask.attrs with mbufset := true }, notes, w, rfl, hz.trans, _, rfl,
        fun _ => ⟨hz, hlt, rfl⟩⟩
    · cases e
      exact ⟨{ mask.attrs with mbufset := true }, notes, w, rfl, hz.trans, _, rfl,
        fun _ => ⟨hz, hlt, rfl⟩⟩
    · cases e
      exact ⟨{ mask.attrs with cache := true, mbufset := true }, notes, w, rfl, hz.trans, _, rfl,
        fun _ => ⟨hz, hlt, rfl⟩⟩

/-- A pass that does not look. -/
theorem MbSynced.refl (h : Tracks c0 x.c x.sh.mb)
    (hk : x.c.cMbcomposseq = x.sh.mb.compositionseq)
    (hd : differs x.last.mbufseq x.sh.mb.mbufseq = false) : MbSynced c0 b x x :=
  ⟨h, hk, rfl, rfl, hd, rfl, id, fun _ => by rw [hd, if_neg (by simp)],
    fun _ hd' => by rw [hd] at hd'; cases hd'⟩

/-- The multibuffer part of a pass of a window's loop. -/
theorem winMbSync_spec (h : Tracks c0 x.c x.sh.mb)
    (hnear : x.sh.mb.compositionseq < x.c.cMbcomposseq + 2 ^ 32)
    (hk : differs x.last.mbufseq x.sh.mb.mbufseq = false →
      x.c.cMbcomposseq = x.sh.mb.compositionseq)
    {a : Alloc} (e : winMbSync x a = some y) : MbSynced c0 (-1) x y := by
  unfold winMbSync at e
  split at e
  case isFalse hd =>
    cases e
    have hd' := Bool.eq_false_iff.2 hd
    exact .refl h (hk hd') hd'
  case isTrue hd =>
    simp only [Option.bind_eq_bind, Option.bind_eq_some_iff] at e
    obtain ⟨⟨c', S'⟩, hu, e⟩ := e
    cases e
    obtain ⟨mask, notes, w, rfl, hz, rfl⟩ := winMbUpdate_eq hu
    obtain ⟨ht, hknown⟩ := syncMbufset_tracks h hnear a
    obtain ⟨hframe, hzombie⟩ := syncMbufset_frame x.c x.sh.mb a
    simp only [Prod.mk.injEq] at hframe
    refine ⟨?_, hknown, rfl, rfl, differs_self _, ?_, fun hx => hz.trans (hzombie hx), fun hy => ?_,
      fun _ _ hne => absurd rfl hne⟩
    · exact
        { start := ht.start
          composition := ht.composition
          mbuf := le_rfl
          synced := fun _ => hknown
          set := ht.set
          present := fun e hy => ht.present e (hz.symm.trans hy)
          ok := ht.ok }
    · rw [Prod.mk.injEq]
      exact ⟨hframe.1, hframe.2.2⟩
    · rw [if_pos hd, Client.aliasOf, if_pos rfl, ← ht.present hknown (hz.symm.trans hy)]
      split <;> rfl

theorem recordMbufseq_keeps (c : Client) (addr : Nat) (bufIndex : Int) (n : Nat) :
    Keeps c (c.recordMbufseq addr bufIndex n) := by
  refine ⟨rfl, rfl, ?_, rfl, id⟩
  rw [Client.recordMbufseq, Option.map_map]
  congr 1
  funext s
  rw [Function.comp_apply]
  split <;> rfl

/-- The multibuffer part of a pass of a buffer's loop. -/
theorem mbufMbSync_spec (h : Tracks c0 x.c x.sh.mb) (hb : b ≠ -1) (hr : x.c.rLockSubj = b)
    (hnear : x.sh.mb.compositionseq < x.c.cMbcomposseq + 2 ^ 32)
    (hk : differs x.last.mbufseq x.sh.mb.mbufseq = false →
      x.c.cMbcomposseq = x.sh.mb.compositionseq)
    {addr : Nat} {a : Alloc} (e : mbufMbSync x addr b a = some y) : MbSynced c0 b x y := by
  unfold mbufMbSync at e
  split at e
  case isFalse hd =>
    cases e
    have hd' := Bool.eq_false_iff.2 hd
    exact .refl h (hk hd') hd'
  case isTrue hd =>
    simp only [Option.bind_eq_bind, Option.bind_eq_some_iff] at e
    obtain ⟨⟨c', S'⟩, hu, e⟩ := e
    cases e
    obtain ⟨mask, notes, w, rfl, hz, e', rfl, hlive⟩ := mbufMbUpdate_eq hu
    obtain ⟨ht, hknown⟩ := syncMbufset_tracks h hnear a
    obtain ⟨hframe, hzombie⟩ := syncMbufset_frame x.c x.sh.mb a
    simp only [Prod.mk.injEq] at hframe
    refine ⟨?_, hknown, rfl, rfl, differs_self _, ?_, fun hx => hz (hzombie hx), fun hy => ?_,
      fun hy _ hne => ?_⟩
    · have ht' : Tracks c0 ((syncMbufset x.c x.sh.mb a).setSubject e' mask notes) x.sh.mb :=
        ht.congr rfl hz
      exact ht'.keeps (recordMbufseq_keeps _ _ _ _)
    · rw [Prod.mk.injEq]
      exact ⟨hframe.1, hframe.2.2⟩
    · rw [if_pos hd, Client.aliasOf, if_neg hb]
      apply (hlive hy).2.2.trans
      rw [hr]
      split <;> rfl
    · have hlt := (hlive hy).2.1
      rw [hr] at hlt
      exact hlt hne

/-! ## The loop -/

/-- What a loop comes to that ends without a zombie. It starts with the count `last`, the lock
subject `subj` and the multibuffer state `m`, and ends with `c` and `m'`. -/
structure LoopDone (c0 : Client) (b : Int) (last : Nat) (subj : Int) (m : MbState) (ps : List Pass)
    (c : Client) (m' : MbState) : Prop where
  known : c.cMbcomposseq = m'.compositionseq
  final : m' = m.changes (ps.flatMap Pass.changes)
  mem : m' ∈ starts m ps
  subject : c.eLockSubj =
    poll differs MbState.mbufseq (c0.aliasOf b) last subj (starts m ps)
  inside : Moved differs MbState.mbufseq last m m' → b ≠ -1 → b < m'.numberBuffers
  set : 0 ≤ c.eLockSubj → c.pMbs.isSome = true

/-- What a loop comes to. -/
structure Looped (c0 : Client) (b : Int) (x y : Sync) (ps : List Pass) : Prop where
  tracks : Tracks c0 y.c y.sh.mb
  same : (y.c.rLockSubj, y.c.shadowChngcnt) = (x.c.rLockSubj, x.c.shadowChngcnt)
  chngcnt : x.sh.chngcnt ≤ y.sh.chngcnt
  zombie : x.c.changeMask.zombie = true → y.c.changeMask.zombie = true
  done : y.c.changeMask.zombie = false →
    LoopDone c0 b x.last.mbufseq x.c.eLockSubj x.sh.mb ps y.c y.sh.mb

/-- What a loop starts a pass with: the client structure has kept up with the composition, and knows
it if the count of multibuffer changes has not moved. -/
structure Start (c0 : Client) (b : Int) (x : Sync) : Prop where
  tracks : Tracks c0 x.c x.sh.mb
  rLockSubj : x.c.rLockSubj = b
  near : x.sh.mb.compositionseq < x.c.cMbcomposseq + 2 ^ 32
  known : differs x.last.mbufseq x.sh.mb.mbufseq = false →
    x.c.cMbcomposseq = x.sh.mb.compositionseq

theorem differs_congr {k n : Nat} (h : differs k n = false) (j : Nat) :
    differs k j = differs n j := by
  rw [differs_eq_false] at h
  rw [differs, differs, h]

/-- Within a pass a moved count is seen. -/
theorem differs_changes {m : MbState} {chs : List Change} (hlen : chs.length < 2 ^ 32) :
    differs m.mbufseq (m.changes chs).mbufseq = true ↔ m.mbufseq ≠ (m.changes chs).mbufseq := by
  obtain ⟨h1, h2⟩ := m.mbufseq_changes chs
  constructor
  · intro hd e
    rw [← e, differs_self] at hd
    cases hd
  · intro hne
    by_contra hd
    exact hne (eq_of_differs_eq_false (Bool.eq_false_iff.2 hd) h1 (by omega))

variable {x1 x2 : Sync} {p : Pass}

/-- If the count is that of the state a pass looked at, nothing has changed since. -/
theorem mb_eq_of_differs (h1 : MbSynced c0 b x x1) (h2 : Synced x1 x2 p.changes)
    (hlen : p.changes.length < 2 ^ 32) (hd : differs x2.last.mbufseq x2.sh.mb.mbufseq = false) :
    x2.sh.mb = x.sh.mb := by
  have hmb : x2.sh.mb = x.sh.mb.changes p.changes := by rw [h2.mb, h1.mb]
  have hd' : differs x.sh.mb.mbufseq (x.sh.mb.changes p.changes).mbufseq = false := by
    rw [← differs_congr h1.last, ← h2.last, ← hmb, hd]
  rw [hmb]
  apply MbState.changes_eq_self
  by_contra hne
  rw [(differs_changes hlen).2 fun e => hne e.symm] at hd'
  cases hd'

/-- The next pass starts as the one before did. -/
theorem Start.next (h1 : MbSynced c0 b x x1) (h2 : Synced x1 x2 p.changes)
    (hr : x.c.rLockSubj = b) (hl : x.sh.mb.Legal p.changes) (hlen : p.changes.length < 2 ^ 32) :
    Start c0 b x2 := by
  have hmb : x2.sh.mb = x.sh.mb.changes p.changes := by rw [h2.mb, h1.mb]
  have hcounts := h2.client.counts
  rw [Prod.mk.injEq] at hcounts
  have hknown : x2.c.cMbcomposseq = x.sh.mb.compositionseq := by rw [hcounts.2, h1.known, h1.mb]
  obtain ⟨h3, h4⟩ := x.sh.mb.mbufseq_changes p.changes
  obtain ⟨h5, h6⟩ := x.sh.mb.compositionseq_changes p.changes
  refine ⟨?_, ?_, ?_, fun hd => ?_⟩
  · rw [hmb, ← h1.mb]
    exact (h1.tracks.changes (h1.mb ▸ hl)).keeps h2.client
  · have hsubject := h2.client.subject
    have hsame := h1.same
    simp only [Prod.mk.injEq] at hsubject hsame
    rw [hsubject.1, hsame.1, hr]
  · rw [hknown, hmb]
    omega
  · rw [hknown, mb_eq_of_differs h1 h2 hlen hd]

/-- The last pass of a loop. -/
theorem LoopDone.last_pass (h1 : MbSynced c0 b x x1) (h2 : Synced x1 x2 p.changes)
    (hlen : p.changes.length < 2 ^ 32) (hd : differs x2.last.mbufseq x2.sh.mb.mbufseq = false)
    (hset : 0 ≤ x2.c.eLockSubj → x2.c.pMbs.isSome = true)
    (hz : x2.c.changeMask.zombie = false) :
    LoopDone c0 b x.last.mbufseq x.c.eLockSubj x.sh.mb [p] x2.c x2.sh.mb := by
  have hsame := mb_eq_of_differs h1 h2 hlen hd
  have hz1 := h2.client.zombie_false hz
  have hcounts := h2.client.counts
  rw [Prod.mk.injEq] at hcounts
  refine ⟨?_, ?_, ?_, ?_, fun hm hb => ?_, hset⟩
  · rw [hcounts.2, h1.known, h1.mb, hsame]
  · rw [List.flatMap_cons, List.flatMap_nil, List.append_nil, h2.mb, h1.mb]
  · rw [hsame]
    exact .head _
  · rw [h2.client.eLockSubj, h1.subject hz1]
    rfl
  · rw [hsame]
    rw [hsame] at hm
    exact h1.inside hz1 (hm.resolve_right fun hne => hne rfl) hb

/-- One more pass in front of a loop. -/
theorem LoopDone.cons {ps : List Pass} (h1 : MbSynced c0 b x x1) (h2 : Synced x1 x2 p.changes)
    (hlen : p.changes.length < 2 ^ 32) (hz : x2.c.changeMask.zombie = false)
    (hd : LoopDone c0 b x2.last.mbufseq x2.c.eLockSubj x2.sh.mb ps y.c y.sh.mb) :
    LoopDone c0 b x.last.mbufseq x.c.eLockSubj x.sh.mb (p :: ps) y.c y.sh.mb := by
  have hmb : x2.sh.mb = x.sh.mb.changes p.changes := by rw [h2.mb, h1.mb]
  have hz1 := h2.client.zombie_false hz
  have hfinal : y.sh.mb = x.sh.mb.changes ((p :: ps).flatMap Pass.changes) := by
    rw [hd.final, hmb, List.flatMap_cons, MbState.changes_append]
  refine ⟨hd.known, hfinal, ?_, ?_, fun hm hb => ?_, hd.set⟩
  · rw [starts, ← hmb]
    exact .tail _ hd.mem
  · rw [hd.subject, starts, ← hmb, poll, h2.client.eLockSubj, h1.subject hz1]
    apply poll_congr_last
    intro n
    rw [h2.last, differs_congr h1.last]
  · by_cases hver : y.sh.mb.mbufseq = x.sh.mb.mbufseq
    · -- the count is that of the state this pass looked at
      have hseen := hm.resolve_right fun hne => hne hver
      have hself : y.sh.mb = x.sh.mb := by
        rw [hfinal] at hver ⊢
        exact MbState.changes_eq_self hver
      rw [hself]
      exact h1.inside hz1 hseen hb
    · refine hd.inside ?_ hb
      by_cases hnext : x2.sh.mb.mbufseq = x.sh.mb.mbufseq
      · exact .inr fun e => hver (e.trans hnext)
      · left
        rw [h2.last, differs_congr h1.last, hmb, differs_changes hlen, ← hmb]
        exact fun e => hnext e.symm

theorem syncLoop_looped {mbSync : Sync → Alloc → Option Sync} {attrs : Sync → Pass → Option Sync}
    {syncAgain : Sync → Option Bool} {ps : List Pass}
    (hmb : ∀ x y a, Start c0 b x → mbSync x a = some y → MbSynced c0 b x y)
    (hattrs : ∀ x y p, attrs x p = some y → Synced x y p.changes)
    (hagain : ∀ x, syncAgain x = some false → differs x.last.mbufseq x.sh.mb.mbufseq = false ∧
      (0 ≤ x.c.eLockSubj → x.c.pMbs.isSome = true))
    (h : Start c0 b x) (hl : x.sh.mb.Legal (ps.flatMap Pass.changes))
    (hlen : ∀ p ∈ ps, p.changes.length < 2 ^ 32)
    (e : syncLoop mbSync attrs syncAgain x ps = some y) : Looped c0 b x y ps := by
  induction ps generalizing x with
  | nil => cases e
  | cons p ps ih =>
    rw [List.flatMap_cons, MbState.legal_append] at hl
    have hlen1 := hlen p (.head _)
    simp only [syncLoop] at e
    split at e
    · cases e
      exact ⟨h.tracks.congr rfl fun _ => rfl, rfl, le_rfl, fun _ => rfl, fun hz => (by cases hz)⟩
    simp only [Option.bind_eq_bind, Option.bind_eq_some_iff] at e
    obtain ⟨x1, e1, x2, e2, again, e3, e⟩ := e
    have h1 := hmb x x1 _ h e1
    have h2 := hattrs x1 x2 p e2
    have hnext := Start.next h1 h2 h.rLockSubj hl.1 hlen1
    have hmb2 : x2.sh.mb = x.sh.mb.changes p.changes := by rw [h2.mb, h1.mb]
    have hsame : (x2.c.rLockSubj, x2.c.shadowChngcnt) = (x.c.rLockSubj, x.c.shadowChngcnt) := by
      have hsubject := h2.client.subject
      rw [Prod.mk.injEq] at hsubject
      rw [← h1.same, hsubject.1, h2.client.shadow]
    have hcnt : x.sh.chngcnt ≤ x2.sh.chngcnt := by rw [h2.chngcnt, h1.chngcnt]; omega
    have hz : x.c.changeMask.zombie = true → x2.c.changeMask.zombie = true :=
      fun hx => h2.client.zombie (h1.zombie hx)
    split at e
    · have hrest := ih hnext (hmb2 ▸ hl.2) (fun q hq => hlen q (.tail _ hq)) e
      refine ⟨hrest.tracks, hrest.same.trans hsame, hcnt.trans hrest.chngcnt,
        fun hx => hrest.zombie (hz hx), fun hy => ?_⟩
      exact .cons h1 h2 hlen1 (eq_false_of_imp hrest.zombie hy) (hrest.done hy)
    case isFalse ha =>
      split at e
      case isTrue hps =>
        cases e
        rw [List.isEmpty_iff.1 hps]
        rw [Bool.not_eq_true] at ha
        obtain ⟨hend, hset⟩ := hagain _ (ha ▸ e3)
        exact ⟨hnext.tracks, hsame, hcnt, hz, fun hy => .last_pass h1 h2 hlen1 hend hset hy⟩
      case isFalse => cases e

end Dga.Phase
