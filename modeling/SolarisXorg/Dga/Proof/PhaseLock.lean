import SolarisXorg.Dga.Proof.PhaseSubject
import SolarisXorg.Dga.Proof.PhaseReport

/-!
# The effective lock subject

An update starts its loop with a client structure that has kept up with the composition
(`Tracks.restart`, `mbufPresync_spec`); `mbsmembSync_updated` is what the two loops come to, and
`Lib.poll_eq_iff` then says when the lock subject is the one the final multibuffer state asks for
(`subject_iff`). Runs keep `SysInv` (`sysInv_step`): the client structure keeps up, and, while
nothing has changed since the last update, its lock subject is still right. `eLockSubj_run` is the
result for runs; in `eLockSubj_forgets_alias` the second lock does not look at the multibuffer
state.
-/

namespace Dga.Phase

open Lib

variable {c0 c c' : Client} {S S' : Shared} {m : MbState} {b : Int}

/-! ## The start of an update -/

/-- An update starts with another lock subject and an empty change mask. -/
theorem Tracks.restart (h : Tracks c c m)
    (hc : (c'.cMbufseq, c'.cMbcomposseq, c'.pMbs) = (c.cMbufseq, c.cMbcomposseq, c.pMbs)) :
    Tracks c c' m := by
  simp only [Prod.mk.injEq] at hc
  obtain ⟨h1, h2, h3⟩ := hc
  refine ⟨h2.symm.le, h2 ▸ h.composition, h1 ▸ h.mbuf, ?_, ?_, ?_, h.ok⟩
  · rw [h1, h2]
    exact h.synced
  · rw [h2, h3]
    exact h.set
  · rw [h2, h3]
    exact fun e _ => (if_pos e.symm).symm

/-- `dgai_mbuf_update` knows the composition before its loop. -/
theorem mbufPresync_spec (h : Tracks c0 c m)
    (hsame : (c.cMbcomposseq, c.pMbs) = (c0.cMbcomposseq, c0.pMbs))
    (hcomp : m.compositionseq < c.cMbcomposseq + 2 ^ 32) (hmbuf : m.mbufseq < c.cMbufseq + 2 ^ 32)
    (a : Alloc) :
    Tracks c0 (mbufPresync c m a) m ∧ (mbufPresync c m a).cMbcomposseq = m.compositionseq ∧
      ((mbufPresync c m a).pMbs.isSome = true → c0.hasSet m = true) := by
  have hspec : Tracks c0 (mbufPresync c m a) m ∧
      (mbufPresync c m a).cMbcomposseq = m.compositionseq := by
    unfold mbufPresync
    split
    · exact syncMbufset_tracks h hcomp a
    case isFalse hd =>
      exact ⟨h, h.synced (eq_of_differs_eq_false (Bool.eq_false_iff.2 hd) h.mbuf hmbuf)⟩
  refine ⟨hspec.1, hspec.2, fun hs => ?_⟩
  rw [Prod.mk.injEq] at hsame
  unfold Client.hasSet
  split
  case isTrue he =>
    -- the composition is the one known, so the set is the same
    have hid : mbufPresync c m a = c := by
      have hd : differs c.cMbcomposseq m.compositionseq = false := by
        rw [hsame.1, he, differs_self]
      unfold mbufPresync syncMbufset
      rw [hd]
      split <;> rfl
    rw [← hsame.2, ← hid]
    exact hs
  case isFalse he =>
    obtain ⟨s, hs⟩ := Option.isSome_iff_exists.1 hs
    exact (hspec.1.set hspec.2 s hs).1

theorem mbufPresync_frame (c : Client) (m : MbState) (a : Alloc) :
    ((mbufPresync c m a).rLockSubj, (mbufPresync c m a).eLockSubj,
      (mbufPresync c m a).shadowChngcnt) = (c.rLockSubj, c.eLockSubj, c.shadowChngcnt) := by
  unfold mbufPresync
  split
  · exact (syncMbufset_frame c m a).1
  · rfl

/-- The set does not depend on the lock subject. -/
theorem mbufPresync_pMbs (hc : (c'.cMbufseq, c'.cMbcomposseq, c'.pMbs) =
    (c.cMbufseq, c.cMbcomposseq, c.pMbs)) (m : MbState) (a : Alloc) :
    (mbufPresync c' m a).pMbs = (mbufPresync c m a).pMbs := by
  simp only [Prod.mk.injEq] at hc
  obtain ⟨h1, h2, h3⟩ := hc
  unfold mbufPresync syncMbufset
  rw [h1, h2]
  split
  · split
    · exact h3
    · dsimp only
      split
      · rfl
      · cases mbufsetCreate m a <;> rfl
  · exact h3

theorem mbufsetCreate_seqs {a : Alloc} {s : MbufSet} (h : mbufsetCreate m a = some s) (i : Int) :
    s.seqs i = if i % maxGrabbableBufs < m.numberBuffers then 0 else a.words i := by
  unfold mbufsetCreate at h
  split at h
  · cases h
    rfl
  · cases h

/-- The count on record for a buffer is the one its loop starts with. -/
theorem record_of_presync {u : Script} {s : MbufSet} (h0 : 0 ≤ b) (h16 : b < maxGrabbableBufs)
    (hs : (mbufPresync c m u.alloc).pMbs = some s) : s.seqs b = c.record m b u := by
  have hne : b ≠ -1 := by omega
  have hmod : b % maxGrabbableBufs = b := Int.emod_eq_of_lt h0 h16
  rw [Client.record, if_neg hne]
  unfold mbufPresync syncMbufset at hs
  split at hs
  case isFalse hd =>
    rw [if_neg (by simp [hd]), hs]
    rfl
  case isTrue hd =>
    split at hs
    case isTrue hc =>
      rw [if_neg (by simpa using fun _ => hc), hs]
      rfl
    case isFalse hc =>
      rw [if_pos (by simp_all)]
      dsimp only at hs
      split at hs
      · cases hs
      split at hs
      · cases hs
      case h_2 hnew =>
        cases hs
        rw [mbufsetCreate_seqs hnew, hmod]

/-! ## A whole update -/

/-- What an update of `b` comes to that began with `c0` and `S`. -/
structure Updated (c0 : Client) (S : Shared) (b : Int) (u : Script) (c : Client) (S' : Shared) :
    Prop where
  tracks : Tracks c0 c S'.mb
  rLockSubj : c.rLockSubj = b
  shadow : c.shadowChngcnt = c0.shadowChngcnt
  chngcnt : S.chngcnt ≤ S'.chngcnt
  wm : c.cWmChngcnt (b + 1) = S'.chngcnt
  done : c.changeMask.zombie = false →
    LoopDone c0 b (c0.record S.mb b u) b S.mb u.passes c S'.mb

variable {x y : Sync} {u : Script} {dgaMTOn : Bool}

/-- What follows the loop does not touch the lock subject. -/
theorem Looped.updated (h : Looped c0 b x y u.passes) (hk : Keeps y.c c)
    (hS : (S'.mb, S'.chngcnt) = (y.sh.mb, y.sh.chngcnt))
    (hlast : x.last.mbufseq = c0.record x.sh.mb b u)
    (hx : (x.c.rLockSubj, x.c.eLockSubj, x.c.shadowChngcnt) = (b, b, c0.shadowChngcnt)) :
    Updated c0 x.sh b u (c.synced y.sh b) S' := by
  rw [Prod.mk.injEq] at hS
  have hsubject := hk.subject
  have hcounts := hk.counts
  have hsame := h.same
  simp only [Prod.mk.injEq] at hx hsubject hcounts hsame
  have ht : Tracks c0 (c.synced y.sh b) S'.mb := by
    rw [hS.1]
    exact (h.tracks.keeps hk).congr rfl id
  refine ⟨ht, ?_, ?_, ?_, by simp [Client.synced, hS.2], fun hz => ?_⟩
  · exact hsubject.1.trans (hsame.1.trans hx.1)
  · exact hk.shadow.trans (hsame.2.trans hx.2.2)
  · rw [hS.2]
    exact h.chngcnt
  · have hd := h.done (hk.zombie_false hz)
    rw [hlast, hx.2.1] at hd
    rw [hS.1]
    refine ⟨hcounts.2.trans hd.known, hd.final, hd.mem, hsubject.2.1.trans hd.subject, hd.inside,
      fun h0 => ?_⟩
    exact hk.isSome.trans (hd.set (hsubject.2.1 ▸ h0))

/-- A buffer has a kind only in a multibuffer set. -/
theorem isSome_of_kind {k : Kind} (h : c.kind b = some k) (h0 : 0 ≤ b) :
    c.pMbs.isSome = true := by
  have h1 : b ≠ -1 := by omega
  have h2 : b ≠ lockSubjInvalid := by rw [lockSubjInvalid]; omega
  rw [Client.kind, if_neg h1, if_neg h2, Option.map_eq_some_iff] at h
  obtain ⟨s, hs, -⟩ := h
  rw [hs]
  rfl

theorem winSyncAgain_end (h : winSyncAgain x = some false) :
    differs x.last.mbufseq x.sh.mb.mbufseq = false ∧
      (0 ≤ x.c.eLockSubj → x.c.pMbs.isSome = true) := by
  unfold winSyncAgain at h
  split at h
  · cases h
  case isFalse hd =>
    simp only [Option.bind_eq_bind, Option.bind_eq_some_iff] at h
    obtain ⟨k, hk, -⟩ := h
    exact ⟨Bool.eq_false_iff.2 hd, isSome_of_kind hk⟩

theorem mbufSyncAgain_end (h : mbufSyncAgain x = some false) :
    differs x.last.mbufseq x.sh.mb.mbufseq = false ∧
      (0 ≤ x.c.eLockSubj → x.c.pMbs.isSome = true) := by
  unfold mbufSyncAgain at h
  split at h
  · cases h
  case isFalse hd =>
    simp only [Option.bind_eq_bind, Option.bind_eq_some_iff] at h
    obtain ⟨k, hk, -⟩ := h
    exact ⟨Bool.eq_false_iff.2 hd, isSome_of_kind hk⟩

/-- `dgai_win_update` -/
theorem winUpdate_updated (e : winUpdate c S (-1) u.passes = some (c', S'))
    (h : Tracks c0 c0 S.mb)
    (hc : (c.cMbufseq, c.cMbcomposseq, c.pMbs) = (c0.cMbufseq, c0.cMbcomposseq, c0.pMbs))
    (hx : (c.rLockSubj, c.eLockSubj, c.shadowChngcnt) = (-1, -1, c0.shadowChngcnt))
    (hcomp : S.mb.compositionseq < c0.cMbcomposseq + 2 ^ 32)
    (hmbuf : S.mb.mbufseq < c0.cMbufseq + 2 ^ 32)
    (hlen : ∀ p ∈ u.passes, p.changes.length < 2 ^ 32)
    (hl : S.mb.Legal (u.passes.flatMap Pass.changes)) : Updated c0 S (-1) u c' S' := by
  simp only [winUpdate, Option.bind_eq_bind, Option.bind_eq_some_iff] at e
  obtain ⟨y, hloop, c1, h1, c2, h2, e⟩ := e
  have hcounts := hc
  have hsubject := hx
  simp only [Prod.mk.injEq] at hcounts hsubject
  have hstart : Start c0 (-1) ⟨{ c with changeMask := {} }, S, winGetLastSeqs c⟩ := by
    refine ⟨h.restart hc, hsubject.1, ?_, fun hd => ?_⟩
    · exact hcounts.2.1.symm ▸ hcomp
    · have hd' : differs c0.cMbufseq S.mb.mbufseq = false := hcounts.1 ▸ hd
      exact hcounts.2.1.trans (h.synced (eq_of_differs_eq_false hd' h.mbuf hmbuf))
  have hlooped := syncLoop_looped (fun x y a hs e => winMbSync_spec hs.tracks hs.near hs.known e)
    (fun x y p e => winAttrs_synced e) (fun x e => winSyncAgain_end e) hstart hl hlen hloop
  have hkeeps : Keeps y.c (notify c2) :=
    (devinfoUpdate_keeps h1).trans ((figureDerivChgs_keeps h2).trans (notify_keeps c2))
  split at e
  · cases e
    exact hlooped.updated hkeeps rfl hcounts.1 hx
  · cases e
    exact hlooped.updated hkeeps rfl hcounts.1 hx

/-- `dgai_mbuf_update` -/
theorem mbufUpdate_updated (e : mbufUpdate c S b u.alloc u.passes = some (c', S'))
    (h : Tracks c0 c0 S.mb) (h0 : 0 ≤ b) (h16 : b < maxGrabbableBufs)
    (hc : (c.cMbufseq, c.cMbcomposseq, c.pMbs) = (c0.cMbufseq, c0.cMbcomposseq, c0.pMbs))
    (hx : (c.rLockSubj, c.eLockSubj, c.shadowChngcnt) = (b, b, c0.shadowChngcnt))
    (hcomp : S.mb.compositionseq < c0.cMbcomposseq + 2 ^ 32)
    (hmbuf : S.mb.mbufseq < c0.cMbufseq + 2 ^ 32)
    (hlen : ∀ p ∈ u.passes, p.changes.length < 2 ^ 32)
    (hl : S.mb.Legal (u.passes.flatMap Pass.changes)) : Updated c0 S b u c' S' := by
  simp only [mbufUpdate, Option.bind_eq_bind, Option.bind_eq_some_iff] at e
  obtain ⟨s, hs, y, hloop, c1, h1, c2, h2, e⟩ := e
  cases e
  have hne : b ≠ -1 := by omega
  have hcounts := hc
  simp only [Prod.mk.injEq] at hcounts
  obtain ⟨ht, hknown, hset⟩ := mbufPresync_spec (h.restart hc)
    (by rw [hcounts.2.1, hcounts.2.2]) (hcounts.2.1.symm ▸ hcomp) (hcounts.1.symm ▸ hmbuf) u.alloc
  have hframe := (mbufPresync_frame c S.mb u.alloc).trans hx
  have hrecord : s.seqs b = c0.record S.mb b u := by
    rw [mbufPresync_pMbs hc] at hs
    exact record_of_presync h0 h16 hs
  generalize mbufPresync c S.mb u.alloc = c3 at *
  have hstart : Start c0 b ⟨{ c3 with changeMask := {} }, S, mbufGetLastSeqs c3 s b⟩ := by
    refine ⟨?_, congrArg (·.1) hframe, ?_, fun _ => hknown⟩
    · -- there is a set, so the mask had no zombie to lose
      have hsome : c3.pMbs.isSome = true := by rw [hs]; rfl
      exact ⟨ht.start, ht.composition, ht.mbuf, ht.synced, ht.set,
        fun _ _ => hsome.trans (hset hsome).symm, ht.ok⟩
    · show S.mb.compositionseq < c3.cMbcomposseq + 2 ^ 32
      omega
  have hlooped := syncLoop_looped
    (fun x y a hs e => mbufMbSync_spec hs.tracks hne hs.rLockSubj hs.near hs.known e)
    (fun x y p e => mbufAttrs_synced e) (fun x e => mbufSyncAgain_end e) hstart hl hlen hloop
  have hkeeps : Keeps y.c (notify c2) :=
    (devinfoUpdate_keeps h1).trans ((mbufFigureDerivChgs_keeps h2).trans (notify_keeps c2))
  exact hlooped.updated hkeeps rfl hrecord hframe

/-- An update that is not cut short. -/
theorem mbsmembSync_updated {σ : Sys} (h : Tracks σ.c σ.c σ.sh.mb) (h1 : -1 ≤ b)
    (h16 : b < maxGrabbableBufs) (hw : σ.NoWrap dgaMTOn b u)
    (hl : σ.sh.mb.Legal (u.passes.flatMap Pass.changes))
    (e : mbsmembSync σ.c σ.sh b u = some (c', S')) : Updated σ.c σ.sh b u c' S' := by
  unfold mbsmembSync at e
  dsimp only at e
  split at e
  case isTrue hb =>
    subst hb
    exact winUpdate_updated e h rfl rfl hw.composition hw.mbuf hw.passes hl
  case isFalse hb =>
    exact mbufUpdate_updated e h (by omega) h16 rfl rfl hw.composition hw.mbuf hw.passes hl

/-! ## When the lock subject is right -/

variable {ps : List Pass}

/-- The states that the passes of an update look at come about by its changes. -/
theorem mem_starts {a : MbState} (ha : a ∈ starts m ps) :
    ∃ k l, ps.flatMap Pass.changes = k ++ l ∧ a = m.changes k := by
  induction ps generalizing m with
  | nil => cases ha
  | cons p ps ih =>
    rw [List.flatMap_cons]
    rcases List.mem_cons.1 ha with rfl | ha
    · exact ⟨[], _, rfl, rfl⟩
    · obtain ⟨k, l, hkl, rfl⟩ := ih ha
      exact ⟨p.changes ++ k, l, by rw [hkl, List.append_assoc], by rw [MbState.changes_append]⟩

/-- The count of multibuffer changes tells the states that the passes look at apart. -/
theorem starts_versioned (c0 : Client) (b : Int) (m : MbState)
    (hlen : ∀ p ∈ ps, p.changes.length < 2 ^ 32) :
    Versioned differs MbState.mbufseq (c0.aliasOf b) (starts m ps) := by
  induction ps generalizing m with
  | nil => exact ⟨.nil, .nil, .nil⟩
  | cons p ps ih =>
    have hrest := ih (m.changes p.changes) fun q hq => hlen q (.tail _ hq)
    have hmem : ∀ a ∈ starts (m.changes p.changes) ps, ∃ chs, a = m.changes chs := by
      intro a ha
      obtain ⟨k, -, -, rfl⟩ := mem_starts ha
      exact ⟨p.changes ++ k, by rw [MbState.changes_append]⟩
    refine ⟨List.pairwise_cons.2 ⟨fun a ha => ?_, hrest.mono⟩,
      List.pairwise_cons.2 ⟨fun a ha hver => ?_, hrest.same⟩, ?_⟩
    · obtain ⟨chs, rfl⟩ := hmem a ha
      exact (m.mbufseq_changes chs).1
    · obtain ⟨chs, rfl⟩ := hmem a ha
      rw [MbState.changes_eq_self hver.symm]
    · cases ps with
      | nil => exact .singleton _
      | cons q ps =>
        exact List.isChain_cons_cons.2 ⟨differs_changes (hlen p (.head _)), hrest.seen⟩

/-- A member is never an alias of itself. -/
theorem aliasOf_ne_self (h : Tracks c c m) : c.aliasOf b m ≠ some b := by
  intro he
  unfold Client.aliasOf at he
  split at he
  case isTrue hb =>
    split at he
    case isTrue hv =>
      have hen : m.enabled = true := by
        have hset := hv.1
        unfold Client.hasSet at hset
        split at hset
        case isTrue hk =>
          obtain ⟨s, hs⟩ := Option.isSome_iff_exists.1 hset
          exact (h.set hk.symm s hs).1
        case isFalse => exact hset
      have hdisplay := (h.ok.display hen).1
      cases he
      omega
    case isFalse => cases he
  case isFalse hb =>
    split at he
    · cases he
      exact hb rfl
    · cases he

/-- The lock subject that `SubjectOk` asks for, as an alias. -/
theorem subjectOk_iff (hp : c.pMbs.isSome = c0.hasSet m) :
    SubjectOk c m b ↔ c.eLockSubj = (c0.aliasOf b m).getD b ∧
      (0 ≤ c.eLockSubj → ∃ s, c.pMbs = some s ∧ c.eLockSubj < s.numBufs) := by
  have hwin : b = -1 → (c0.aliasOf b m).getD b =
      if c.pMbs.isSome ∧ m.flipMode = .video then m.displayBuffer else -1 := by
    rintro rfl
    rw [Client.aliasOf, if_pos rfl, hp]
    split <;> rfl
  have hbuf : b ≠ -1 → (c0.aliasOf b m).getD b =
      if m.flipMode = .copy ∧ m.displayBuffer = b then -1 else b := by
    intro hb
    rw [Client.aliasOf, if_neg hb]
    split <;> rfl
  constructor
  · rintro ⟨h1, h2, h3⟩
    refine ⟨?_, h3⟩
    by_cases hb : b = -1
    · rw [h1 hb, hwin hb]
    · rw [h2 hb, hbuf hb]
  · rintro ⟨h1, h2⟩
    exact ⟨fun hb => h1.trans (hwin hb), fun hb => h1.trans (hbuf hb), h2⟩

/-- The value that the loop polls is right iff an alias it finds stays and one that is there at the
end is noticed. -/
theorem LoopDone.subject_iff (h : Tracks c0 c0 m) (hl : m.Legal (ps.flatMap Pass.changes))
    (hlen : ∀ p ∈ ps, p.changes.length < 2 ^ 32) {last : Nat} {m' : MbState}
    (hd : LoopDone c0 b last b m ps c m') :
    c.eLockSubj = (c0.aliasOf b m').getD b ↔
      (∀ a ∈ starts m ps, Moved differs MbState.mbufseq last m a →
        (c0.aliasOf b a).isSome = true → (c0.aliasOf b m').isSome = true) ∧
      ((c0.aliasOf b m').isSome = true → Moved differs MbState.mbufseq last m m') := by
  have hver := starts_versioned c0 b m hlen
  have hself : ∀ a ∈ starts m ps, c0.aliasOf b a ≠ some b := by
    intro a ha
    obtain ⟨k, l, hkl, rfl⟩ := mem_starts ha
    rw [hkl, MbState.legal_append] at hl
    exact aliasOf_ne_self (h.changes hl.1)
  have hmax : ∀ a ∈ starts m ps, a.mbufseq ≤ m'.mbufseq := by
    intro a ha
    obtain ⟨k, l, hkl, rfl⟩ := mem_starts ha
    rw [hd.final, hkl, MbState.changes_append]
    exact ((m.changes k).mbufseq_changes l).1
  rw [hd.subject]
  have hmem := hd.mem
  cases ps with
  | nil => cases hmem
  | cons p ps => exact poll_eq_iff hver hself hmem hmax

/-- **An update finds the right lock subject** iff an alias that it comes upon is still there at its
end and one that is there at its end came with a multibuffer change. -/
theorem subject_iff {σ : Sys} (h : Tracks σ.c σ.c σ.sh.mb) (h1 : -1 ≤ b) (hw : σ.NoWrap dgaMTOn b u)
    (hl : σ.sh.mb.Legal (u.passes.flatMap Pass.changes)) (hu : Updated σ.c σ.sh b u c' S')
    (hz : c'.changeMask.zombie = false) : SubjectOk c' S'.mb b ↔ σ.AliasSeen b u := by
  have hd := hu.done hz
  have hfinal : S'.mb = u.final σ.sh.mb := hd.final
  have hiff := hd.subject_iff h hl hw.passes
  rw [subjectOk_iff (hu.tracks.present hd.known hz)]
  constructor
  · rintro ⟨he, hin⟩
    obtain ⟨hstays, hnoticed⟩ := hiff.1 he
    refine ⟨hfinal ▸ hstays, hfinal ▸ hnoticed, fun hb hm => ?_⟩
    -- no change, so no alias: the lock subject is the buffer itself
    rw [← hfinal] at hm ⊢
    have hnone : σ.c.aliasOf b S'.mb = none := by
      by_contra hs
      exact hm (hnoticed (Option.isSome_iff_ne_none.2 hs))
    rw [hnone, Option.getD_none] at he
    obtain ⟨s, hs, hlt⟩ := hin (by omega)
    rw [← (hu.tracks.set hd.known s hs).2, ← he]
    exact hlt
  · rintro ⟨hstays, hnoticed, hinside⟩
    rw [← hfinal] at hstays hnoticed hinside
    have he := hiff.2 ⟨hstays, hnoticed⟩
    refine ⟨he, fun h0 => ?_⟩
    obtain ⟨s, hs⟩ := Option.isSome_iff_exists.1 (hd.set h0)
    obtain ⟨hen, hnum⟩ := hu.tracks.set hd.known s hs
    refine ⟨s, hs, ?_⟩
    rw [hnum]
    unfold Client.aliasOf at he
    split at he
    case isTrue hb =>
      split at he
      · rw [he]
        exact (hu.tracks.ok.display hen).2
      · rw [he, hb] at h0
        cases h0
    case isFalse hb =>
      split at he
      · rw [he] at h0
        cases h0
      · rw [he]
        by_cases hm : σ.Moved b u S'.mb
        · exact hd.inside hm hb
        · exact hinside hb hm

/-! ## Runs -/

/-- What runs keep: the client structure knows the composition its count says it knows, and if
nothing has changed since its last update, its lock subject is still right. -/
structure SysInv (σ : Sys) : Prop where
  tracks : Tracks σ.c σ.c σ.sh.mb
  shadow : ∀ i, σ.c.shadowChngcnt i ≤ σ.sh.chngcnt
  right : σ.c.changeMask.zombie = false → -1 ≤ σ.c.rLockSubj →
    σ.c.shadowChngcnt (σ.c.rLockSubj + 1) = σ.sh.chngcnt →
    SubjectOk σ.c σ.sh.mb σ.c.rLockSubj

/-- The end of an update is the start of the next one. -/
theorem Tracks.self (h : Tracks c0 c m) : Tracks c c m :=
  ⟨le_rfl, h.composition, h.mbuf, h.synced, h.set, fun e _ => (if_pos e.symm).symm, h.ok⟩

/-- A grabbed window. -/
theorem sysInv_grab {cursPage isOverlay : Bool} {cOvlstate : Int} {rtnseqWord : Nat} {a : Alloc}
    (hok : S.mb.Ok)
    (hgrab : winInitMbufset (grabClient S cursPage isOverlay cOvlstate rtnseqWord) S.mb a =
      some c) : SysInv ⟨c, S⟩ := by
  unfold winInitMbufset at hgrab
  split at hgrab
  · cases hgrab
    refine ⟨⟨le_rfl, Nat.zero_le _, Nat.zero_le _, fun e => ?_, fun _ s hs => (by cases hs),
      fun e _ => (if_pos e.symm).symm, hok⟩, fun _ => Nat.zero_le _, fun _ h => (by cases h)⟩
    -- without a multibuffer change there was none of the composition
    have hcounts := hok.counts
    have hzero : 0 = S.mb.mbufseq := e
    show 0 = S.mb.compositionseq
    omega
  case isFalse hen =>
    rw [Option.map_eq_some_iff] at hgrab
    obtain ⟨s, hs, rfl⟩ := hgrab
    refine ⟨⟨le_rfl, le_rfl, Nat.zero_le _, fun _ => rfl, fun _ s' hs' => ?_,
      fun e _ => (if_pos e.symm).symm, hok⟩, fun _ => Nat.zero_le _, fun _ h => (by cases h)⟩
    cases hs'
    unfold mbufsetCreate at hs
    split at hs
    · cases hs
      exact ⟨by simpa using hen, rfl⟩
    · cases hs

/-- An update returns at once, or it synchronizes. -/
theorem mbsmembUpdate_cases {σ τ : Sys} {dgaMTOn : Bool} {mask : Mask}
    (e : mbsmembUpdate dgaMTOn σ.c σ.sh b u = some (mask, τ.c, τ.sh)) :
    (σ.Early dgaMTOn b ∧ τ = σ) ∨
      ¬ σ.Early dgaMTOn b ∧ ∃ c, mbsmembSync σ.c σ.sh b u = some (c, τ.sh) ∧
        mask = c.changeMask ∧ τ.c = if dgaMTOn = true then c.shadowed τ.sh b else c := by
  unfold mbsmembUpdate at e
  split at e
  case isTrue he =>
    rw [Bool.and_eq_true, Bool.not_eq_true'] at he
    cases τ
    cases e
    exact .inl ⟨he, rfl⟩
  case isFalse he =>
    rw [Bool.and_eq_true, Bool.not_eq_true'] at he
    rw [Option.map_eq_some_iff] at e
    obtain ⟨⟨c, S⟩, hsync, e⟩ := e
    simp only [Prod.mk.injEq] at e
    obtain ⟨rfl, hc, rfl⟩ := e
    exact .inr ⟨he, c, hsync, rfl, hc.symm⟩

/-- An update keeps the invariant, and its lock subject is right. -/
theorem SysInv.update {σ τ : Sys} {dgaMTOn : Bool} (h : SysInv σ)
    (hstep : σ.Step (.update dgaMTOn b u) τ) (hgood : σ.Good (.update dgaMTOn b u)) {mask : Mask}
    (e : mbsmembUpdate dgaMTOn σ.c σ.sh b u = some (mask, τ.c, τ.sh)) :
    SysInv τ ∧ (mask.zombie = false → SubjectOk τ.c τ.sh.mb b) := by
  obtain ⟨h1, h16, -, hl, -⟩ := hstep
  obtain ⟨hw, hearly, hseen⟩ := hgood
  rcases mbsmembUpdate_cases e with ⟨he, rfl⟩ | ⟨he, c, hsync, rfl, hc⟩
  · obtain ⟨rfl, hz⟩ := hearly he
    have hcnt := eq_of_differs_eq_false he.2 (h.shadow _) (hw.shadow he.1)
    exact ⟨h, fun _ => h.right hz h1 hcnt⟩
  · have hu := mbsmembSync_updated h.tracks h1 h16 hw hl hsync
    have hok : c.changeMask.zombie = false → SubjectOk c τ.sh.mb b :=
      fun hz => (subject_iff h.tracks h1 hw hl hu hz).2 (hseen he)
    have hle : ∀ i, c.shadowChngcnt i ≤ τ.sh.chngcnt :=
      fun i => hu.shadow ▸ (h.shadow i).trans hu.chngcnt
    cases dgaMTOn with
    | false =>
      obtain rfl : τ.c = c := hc
      exact ⟨⟨hu.tracks.self, hle, fun hz _ _ => hu.rLockSubj.symm ▸ hok hz⟩, hok⟩
    | true =>
      have hc : τ.c = c.shadowed τ.sh b := hc
      have hok' : c.changeMask.zombie = false → SubjectOk (c.shadowed τ.sh b) τ.sh.mb b :=
        fun hz => ⟨(hok hz).window, (hok hz).buffer, (hok hz).inside⟩
      refine ⟨⟨?_, fun i => ?_, ?_⟩, hc.symm ▸ hok'⟩
      · rw [hc]
        have ht : Tracks σ.c (c.shadowed τ.sh b) τ.sh.mb := hu.tracks.congr rfl id
        exact ht.self
      · rw [hc, Client.shadowed, hu.wm]
        dsimp only
        by_cases hi : i = b + 1
        · rw [hi, Function.update_self]
        · rw [Function.update_of_ne hi]
          exact hle i
      · have hr : τ.c.rLockSubj = b := by
          rw [hc]
          exact hu.rLockSubj
        rw [hr, hc]
        exact fun hz _ _ => hok' hz

/-- Steps that meet their condition keep the invariant. -/
theorem sysInv_step {σ τ : Sys} {o : Op} (h : SysInv σ) (hstep : σ.Step o τ) (hgood : σ.Good o) :
    SysInv τ := by
  cases o with
  | change ch =>
    obtain ⟨hl, rfl⟩ := hstep
    refine ⟨?_, fun i => (h.shadow i).trans (Nat.le_succ _), fun _ _ he => ?_⟩
    · have ht := h.tracks.changes hl
      rwa [← Shared.changes_mb] at ht
    · have hle := h.shadow (σ.c.rLockSubj + 1)
      have hcnt : σ.c.shadowChngcnt (σ.c.rLockSubj + 1) = σ.sh.chngcnt + 1 := he
      omega
  | other c =>
    obtain ⟨hsame, rfl⟩ := hstep
    have hsubject := hsame.subject
    have hcounts := hsame.counts
    simp only [Prod.mk.injEq] at hsubject hcounts
    obtain ⟨hr, hE, -⟩ := hsubject
    refine ⟨?_, ?_, ?_⟩
    · refine (h.tracks.congr ?_ hsame.zombie.trans).self
      rw [hcounts.1, hcounts.2.1, hsame.pMbs]
    · dsimp only
      rw [hcounts.2.2.2]
      exact h.shadow
    · dsimp only
      rw [hsame.zombie, hr, hcounts.2.2.2]
      intro hz h1 hcnt
      obtain ⟨hwin, hbuf, hin⟩ := h.right hz h1 hcnt
      exact ⟨by rw [hE, hsame.pMbs]; exact hwin, by rw [hE]; exact hbuf,
        by rw [hE, hsame.pMbs]; exact hin⟩
  | update dgaMTOn b u =>
    obtain ⟨-, -, -, -, mask, e⟩ := id hstep
    exact (h.update hstep hgood e).1

/-- **The effective lock subject.** In a run of a grabbed window whose updates all meet their
condition, an update that returns without a zombie leaves the lock subject that the multibuffer
state asks for. -/
theorem eLockSubj_run {cursPage isOverlay : Bool} {cOvlstate : Int} {rtnseqWord : Nat} {a : Alloc}
    (hok : S.mb.Ok)
    (hgrab : winInitMbufset (grabClient S cursPage isOverlay cOvlstate rtnseqWord) S.mb a = some c)
    {os : List Op} {σ τ : Sys}
    (hrun : Run (fun σ o τ => Sys.Step σ o τ ∧ Sys.Good σ o) ⟨c, S⟩ os σ)
    {dgaMTOn : Bool} (hstep : σ.Step (.update dgaMTOn b u) τ)
    (hgood : σ.Good (.update dgaMTOn b u)) {mask : Mask}
    (e : mbsmembUpdate dgaMTOn σ.c σ.sh b u = some (mask, τ.c, τ.sh))
    (hz : mask.zombie = false) : SubjectOk τ.c τ.sh.mb b := by
  have hinv : SysInv σ :=
    hrun.inv (sysInv_grab hok hgrab) fun _ _ _ h hs => sysInv_step h hs.1 hs.2
  exact (hinv.update hstep hgood e).2 hz

/-- A window with two buffers in video flip mode. -/
def videoWindow : Shared :=
  { plainWindow with
    mb :=
      { mbufseq := 1
        compositionseq := 1
        enabled := true
        flipMode := .video
        singleAddr := false
        bufViewable := fun _ => true
        displayBuffer := 0
        numberBuffers := 2 } }

/-- The window after its grab. -/
def videoGrab : Sys :=
  ⟨(winInitMbufset (grabClient videoWindow false false 0 0) videoWindow.mb fresh).get rfl,
    videoWindow⟩

/-- What a lock of the window leaves. -/
def Sys.locked (σ : Sys) : Sys :=
  match mbsmembUpdate false σ.c σ.sh (-1) onePass with
  | some (_, c, S) => ⟨c, S⟩
  | none => σ

/-- What a change leaves. -/
def Sys.changed (σ : Sys) (ch : Change) : Sys := ⟨σ.c, σ.sh.change ch⟩

/-- The other buffer is displayed. -/
def displayOther : Change := .mbuf false { videoWindow.mb with displayBuffer := 1 }

theorem Sys.locked_step {σ : Sys} (hd : drawLockUpdates σ.c σ.sh (-1) = true) {mask : Mask}
    (e : mbsmembUpdate false σ.c σ.sh (-1) onePass = some (mask, σ.locked.c, σ.locked.sh)) :
    σ.Step (.update false (-1) onePass) σ.locked :=
  ⟨by decide, by decide, hd, trivial, mask, e⟩

theorem videoWindow_ok : videoWindow.mb.Ok := ⟨fun _ => by decide, by decide⟩

theorem Sys.good_onePass {σ : Sys} (hw : σ.NoWrap false (-1) onePass)
    (hm : differs σ.c.cMbufseq σ.sh.mb.mbufseq = true) :
    σ.Good (.update false (-1) onePass) := by
  refine ⟨hw, fun he => absurd he.1 (by decide), fun _ => ⟨fun m hmem _ hs => ?_, fun _ => .inl hm,
    fun hb => absurd rfl hb⟩⟩
  obtain rfl := List.mem_singleton.1 hmem
  exact hs

/-- The displayed buffer of the window is another one, and the next lock follows it. -/
theorem eLockSubj_run_flip :
    SubjectOk ((videoGrab.locked.changed displayOther).locked).c
      ((videoGrab.locked.changed displayOther).locked).sh.mb (-1) := by
  have hpasses : ∀ p ∈ onePass.passes, p.changes.length < 2 ^ 32 := by decide
  have h1 : videoGrab.Step (.update false (-1) onePass) videoGrab.locked :=
    Sys.locked_step rfl rfl
  have g1 : videoGrab.Good (.update false (-1) onePass) :=
    Sys.good_onePass ⟨by decide, by decide, hpasses, nofun⟩ rfl
  have h2 : videoGrab.locked.Step (.change displayOther) (videoGrab.locked.changed displayOther) :=
    ⟨⟨fun _ => by decide, fun _ => ⟨rfl, rfl⟩, trivial⟩, rfl⟩
  have h3 := Sys.locked_step (σ := videoGrab.locked.changed displayOther) rfl rfl
  have g3 : (videoGrab.locked.changed displayOther).Good (.update false (-1) onePass) :=
    Sys.good_onePass ⟨by decide, by decide, hpasses, nofun⟩ rfl
  exact eLockSubj_run (S := videoWindow) (c := videoGrab.c) (a := fresh) videoWindow_ok rfl
    (.snoc (.snoc .nil ⟨h1, g1⟩) ⟨h2, trivial⟩) h3 g3 rfl rfl

/-- A lock of the window finds its displayed buffer, and the next one, after a change of the cursor,
the window itself. -/
theorem eLockSubj_forgets_alias : ¬ ∀ (S : Shared) (cursPage isOverlay : Bool) (cOvlstate : Int)
    (rtnseqWord : Nat) (a : Alloc) (c : Client) (os : List Op) (σ τ : Sys) (dgaMTOn : Bool)
    (b : Int) (u : Script) (mask : Mask), S.mb.Ok →
    winInitMbufset (grabClient S cursPage isOverlay cOvlstate rtnseqWord) S.mb a = some c →
    Run Sys.Step ⟨c, S⟩ os σ → σ.Step (.update dgaMTOn b u) τ →
    mbsmembUpdate dgaMTOn σ.c σ.sh b u = some (mask, τ.c, τ.sh) → mask.zombie = false →
    SubjectOk τ.c τ.sh.mb b := by
  intro h
  have h1 : videoGrab.Step (.update false (-1) onePass) videoGrab.locked :=
    Sys.locked_step rfl rfl
  have h2 : videoGrab.locked.Step (.change .cursor) (videoGrab.locked.changed .cursor) :=
    ⟨trivial, rfl⟩
  have h3 := Sys.locked_step (σ := videoGrab.locked.changed .cursor) rfl rfl
  have hbad := h videoWindow false false 0 0 fresh videoGrab.c _ _ _ false (-1) onePass _
    videoWindow_ok rfl (.snoc (.snoc .nil h1) h2) h3 rfl rfl
  exact absurd (hbad.window rfl) (by decide)

end Dga.Phase
