import SolarisXorg.Dga.Proof.PhaseFrame

/-!
# Every change of the lock subject is reported

A count is taken over from the server (`LastSeqs`) only where the change is put in the mask, and the
loop of `dgai_win_update` ends when all counts of the lock subject agree with the server's. `Noted`
is that invariant; `Grows` says what the parts of an update leave alone that have nothing to do with
the attributes. `winLoop_noted` carries the invariant through the loop, `Noted.reported` reads the
report off at its end, and `winUpdate_reports` adds what follows the loop: the client still holds
the lock under which the counts were compared when it takes over the change count.
-/

namespace Dga.Phase

variable {c c' c'' : Client} {S S' : Shared} {x y : Sync}

/-! ## What has nothing to do with the attributes -/

/-- The counts, the pointers to them and the overlay state are the same, and no attribute is taken
out of the mask. -/
structure Grows (c c' : Client) : Prop where
  counts : (c'.cCurseq, c'.curseqOwn, c'.cRtnseq, c'.sRtnseqP, c'.rtnseqWord) =
    (c.cCurseq, c.curseqOwn, c.cRtnseq, c.sRtnseqP, c.rtnseqWord)
  overlay : (c'.isOverlay, c'.cOvlstate) = (c.isOverlay, c.cOvlstate)
  clip : c.changeMask.clip = true → c'.changeMask.clip = true
  cursor : c.changeMask.cursor = true → c'.changeMask.cursor = true
  bstore : c.changeMask.bstore = true → c'.changeMask.bstore = true
  ovlstate : c.changeMask.ovlstate = true → c'.changeMask.ovlstate = true
  notes : c.notes <:+ c'.notes

theorem Grows.refl (c : Client) : Grows c c := ⟨rfl, rfl, id, id, id, id, List.suffix_rfl⟩

theorem Grows.trans (h : Grows c c') (h' : Grows c' c'') : Grows c c'' :=
  ⟨h'.counts.trans h.counts, h'.overlay.trans h.overlay, h'.clip ∘ h.clip, h'.cursor ∘ h.cursor,
    h'.bstore ∘ h.bstore, h'.ovlstate ∘ h.ovlstate, h.notes.trans h'.notes⟩

/-- Marking other changes, or these. -/
theorem Grows.mark {f : Mask → Mask} (hc : ∀ k, k.clip = true → (f k).clip = true)
    (hu : ∀ k, k.cursor = true → (f k).cursor = true)
    (hb : ∀ k, k.bstore = true → (f k).bstore = true)
    (ho : ∀ k, k.ovlstate = true → (f k).ovlstate = true) : Grows c (c.mark f) :=
  ⟨rfl, rfl, hc _, hu _, hb _, ho _, List.suffix_rfl⟩

theorem syncMbufset_grows (c : Client) (m : MbState) (a : Alloc) :
    Grows c (syncMbufset c m a) := by
  unfold syncMbufset
  split
  · exact .refl c
  · dsimp only
    split
    · exact ⟨rfl, rfl, id, id, id, id, List.suffix_rfl⟩
    · split
      · exact ⟨rfl, rfl, id, id, id, id, List.suffix_rfl⟩
      · exact ⟨rfl, rfl, id, id, id, id, List.suffix_rfl⟩

theorem syncRendBuf_grows (c : Client) (S : Shared) : Grows c (syncRendBuf c S).1 := by
  unfold syncRendBuf
  split
  · exact ⟨rfl, rfl, id, id, id, id, List.suffix_cons _ _⟩
  · exact .refl c

theorem aliasTo_grows (c : Client) (lockSubj : Int) : Grows c (aliasTo c lockSubj) := by
  unfold aliasTo
  dsimp only
  split
  · exact ⟨rfl, rfl, fun _ => rfl, fun _ => rfl, fun _ => rfl, id, List.suffix_rfl⟩
  · exact ⟨rfl, rfl, id, id, id, id, List.suffix_rfl⟩

theorem mbwinSyncLockSubj_grows (c : Client) (m : MbState) : Grows c (mbwinSyncLockSubj c m) := by
  unfold mbwinSyncLockSubj
  split
  · exact aliasTo_grows c _
  · exact .refl c

theorem winMbUpdate_grows {a : Alloc} (e : winMbUpdate c S a = some (c', S')) : Grows c c' := by
  simp only [winMbUpdate, Option.bind_eq_bind, Option.bind_eq_some_iff] at e
  obtain ⟨k, -, e⟩ := e
  have hsync := syncMbufset_grows c S.mb a
  have hmid : Grows c (if (syncMbufset c S.mb a).pMbs.isSome = true then
      syncRendBuf (mbwinSyncLockSubj (syncMbufset c S.mb a) S.mb) S
      else (syncMbufset c S.mb a, S)).1 := by
    split
    · exact hsync.trans ((mbwinSyncLockSubj_grows _ _).trans (syncRendBuf_grows _ _))
    · exact hsync
  split at e
  · cases e
    exact hmid.trans (.mark (fun _ _ => rfl) (fun _ _ => rfl) (fun _ _ => rfl) fun _ => id)
  · cases e
    exact hmid.trans (.mark (fun _ _ => rfl) (fun _ _ => rfl) (fun _ _ => rfl) fun _ => id)
  · cases e

/-! ## The attributes -/

/-- In an update that started from `c`, an attribute that is not in the mask is still that of
`c`. -/
structure Noted (c : Client) (x : Sync) : Prop where
  clip : x.c.changeMask.clip = false → x.last.clipseq = c.cClipseq
  cursor : x.c.changeMask.cursor = false → x.last.curseq = c.cCurseq
  bstore : x.c.changeMask.bstore = false →
    x.last.rtnseq = c.cRtnseq ∧ x.c.cRtnseq = c.cRtnseq ∧ x.c.sRtnseqP = c.sRtnseqP
  ovlstate : x.c.changeMask.ovlstate = false → x.c.cOvlstate = c.cOvlstate
  same : (x.c.cCurseq, x.c.curseqOwn, x.c.rtnseqWord, x.c.isOverlay) =
    (c.cCurseq, c.curseqOwn, c.rtnseqWord, c.isOverlay)
  notes : c.notes <:+ x.c.notes

/-- What does not touch the attributes keeps the invariant. -/
theorem Noted.grows (h : Noted c x) (hg : Grows x.c y.c)
    (hl : (y.last.clipseq, y.last.curseq, y.last.rtnseq) =
      (x.last.clipseq, x.last.curseq, x.last.rtnseq)) : Noted c y := by
  have hcounts := hg.counts
  have hoverlay := hg.overlay
  have hsame := h.same
  simp only [Prod.mk.injEq] at hcounts hoverlay hsame hl
  refine ⟨fun e => ?_, fun e => ?_, fun e => ?_, fun e => ?_, ?_, h.notes.trans hg.notes⟩
  · rw [hl.1, h.clip (eq_false_of_imp hg.clip e)]
  · rw [hl.2.1, h.cursor (eq_false_of_imp hg.cursor e)]
  · obtain ⟨h1, h2, h3⟩ := h.bstore (eq_false_of_imp hg.bstore e)
    exact ⟨hl.2.2.trans h1, hcounts.2.2.1.trans h2, hcounts.2.2.2.1.trans h3⟩
  · rw [hoverlay.2, h.ovlstate (eq_false_of_imp hg.ovlstate e)]
  · simp only [hcounts, hoverlay, hsame]

theorem clipSync_noted (h : Noted c x) {rs : List ClipRelock} (e : clipSync x rs = some y) :
    Noted c y := by
  unfold clipSync at e
  split at e
  · split at e
    next c' sh hu =>
      cases e
      obtain ⟨⟨b, n, rfl⟩, -⟩ := clipUpdate_frame hu
      exact ⟨fun e => (by cases e), h.cursor, h.bstore, h.ovlstate, h.same, h.notes⟩
    next => cases e
  · split at e
    · cases e
      exact h
    · cases e

theorem cursSync_noted (h : Noted c x) : Noted c (cursSync x) := by
  unfold cursSync
  split
  · exact ⟨h.clip, fun e => (by cases e), h.bstore, h.ovlstate, h.same, h.notes⟩
  · exact h

theorem rtnSync_noted (h : Noted c x) {rs : List RtnRelock} (e : rtnSync x rs = some y) :
    Noted c y := by
  unfold rtnSync at e
  split at e
  · simp only [Option.bind_eq_bind, Option.bind_eq_some_iff] at e
    obtain ⟨⟨c', sh⟩, hu, e⟩ := e
    cases e
    obtain ⟨⟨seq, ptr, mapped, mapchg, rfl⟩, -⟩ := rtnUpdate_frame hu
    exact ⟨h.clip, h.cursor, fun e => (by cases e), h.ovlstate, h.same, h.notes⟩
  · split at e
    · cases e
      exact h
    · cases e

theorem ovlSync_noted (h : Noted c x) : Noted c (ovlSync x) := by
  unfold ovlSync
  split
  · exact ⟨h.clip, h.cursor, h.bstore, fun e => (by cases e), h.same, h.notes⟩
  · exact h

theorem winSyncChanges_noted (h : Noted c x) {p : Pass} (e : winSyncChanges x p = some y) :
    Noted c y := by
  simp only [winSyncChanges, Option.bind_eq_bind, Option.bind_eq_some_iff] at e
  obtain ⟨x1, h1, x2, h2, e⟩ := e
  cases e
  exact ovlSync_noted (rtnSync_noted (cursSync_noted (clipSync_noted h h1)) h2)

/-- A write to the counters of a multibuffer set. -/
theorem Noted.setSeq (h : Noted c x) {changed : Bool} {array bufIndex : Int} {n : Nat}
    (e : x.c.setSeq changed array bufIndex n = some c') : Noted c { x with c := c' } := by
  unfold Client.setSeq at e
  split at e
  · simp only [Option.map_eq_some_iff] at e
    obtain ⟨m, -, rfl⟩ := e
    exact ⟨h.clip, h.cursor, h.bstore, h.ovlstate, h.same, h.notes⟩
  · cases e
    exact h

theorem vmbufSyncChanges_noted (h : Noted c x) {bufIndex : Int} {p : Pass}
    (e : vmbufSyncChanges x bufIndex p = some y) : Noted c y := by
  simp only [vmbufSyncChanges, Option.bind_eq_bind, Option.bind_eq_some_iff] at e
  obtain ⟨x1, h1, c1, hc1, c2, hc2, e⟩ := e
  have hx2 := (clipSync_noted h h1).setSeq hc1
  have hx3 := (cursSync_noted hx2).setSeq hc2
  split at e
  · cases e
    exact hx3
  · cases e

/-! ## The loop -/

theorem winMbSync_noted (h : Noted c x) {a : Alloc} (e : winMbSync x a = some y) : Noted c y := by
  unfold winMbSync at e
  split at e
  · simp only [Option.bind_eq_bind, Option.bind_eq_some_iff] at e
    obtain ⟨⟨c', sh⟩, hu, e⟩ := e
    cases e
    have hg := winMbUpdate_grows hu
    exact h.grows ⟨hg.counts, hg.overlay, hg.clip, hg.cursor, hg.bstore, hg.ovlstate, hg.notes⟩ rfl
  · cases e
    exact h

theorem winAttrs_noted (h : Noted c x) {bufIndex : Int} {p : Pass}
    (e : winAttrs x bufIndex p = some y) : Noted c y := by
  simp only [winAttrs, Option.bind_eq_bind, Option.bind_eq_some_iff] at e
  obtain ⟨k, -, e⟩ := e
  split at e
  · exact winSyncChanges_noted h e
  · exact vmbufSyncChanges_noted h e
  · cases e

/-- The loop keeps the invariant, and ends with a zombie or with the counts compared. -/
theorem winLoop_noted (h : Noted c x) {bufIndex : Int} {ps : List Pass}
    (e : winLoop x bufIndex ps = some y) :
    Noted c y ∧ (y.c.changeMask.zombie = true ∨ winSyncAgain y = some false) := by
  induction ps generalizing x with
  | nil => cases e
  | cons p ps ih =>
    simp only [winLoop, syncLoop] at e
    split at e
    · cases e
      exact ⟨⟨h.clip, h.cursor, h.bstore, h.ovlstate, h.same, h.notes⟩, .inl rfl⟩
    · simp only [Option.bind_eq_bind, Option.bind_eq_some_iff] at e
      obtain ⟨x1, h1, x2, h2, again, h3, e⟩ := e
      have hx2 := winAttrs_noted (winMbSync_noted h h1) h2
      split at e
      · exact ih hx2 e
      case isFalse ha =>
        split at e
        · cases e
          rw [Bool.not_eq_true] at ha
          exact ⟨hx2, .inr (ha ▸ h3)⟩
        · cases e

/-! ## What follows the loop -/

theorem nmbufDevinfoUpdate_grows (e : nmbufDevinfoUpdate c S = some c') : Grows c c' := by
  simp only [nmbufDevinfoUpdate, Option.map_eq_some_iff] at e
  obtain ⟨m, -, rfl⟩ := e
  split
  · exact ⟨rfl, rfl, id, id, id, id, List.suffix_rfl⟩
  · exact .refl c

theorem devinfoUpdate_grows (e : devinfoUpdate c S = some c') : Grows c c' := by
  unfold devinfoUpdate at e
  split at e
  · cases e
    exact .refl c
  · simp only [Option.bind_eq_bind, Option.bind_eq_some_iff] at e
    obtain ⟨k, -, e⟩ := e
    split at e
    · split at e
      · cases e
        exact ⟨rfl, rfl, id, id, id, id, List.suffix_rfl⟩
      · cases e
        exact .refl c
    · cases e
      exact .refl c
    · exact nmbufDevinfoUpdate_grows e

theorem derivSite_grows (c : Client) : Grows c c.derivSite := by
  have hsite : ∀ reason, Grows c (c.siteChg reason) := fun _ =>
    ⟨rfl, rfl, id, id, id, id, List.suffix_rfl⟩
  unfold Client.derivSite
  split
  · exact hsite _
  split
  · exact hsite _
  split
  · exact hsite _
  · exact .refl c

theorem figureDerivChgs_grows (e : figureDerivChgs c = some c') : Grows c c' := by
  have hreason : Grows c { c with siteChgReason := .unknown } :=
    ⟨rfl, rfl, id, id, id, id, List.suffix_rfl⟩
  unfold figureDerivChgs at e
  dsimp only at e
  split at e
  · cases e
    exact ⟨rfl, rfl, fun _ => rfl, id, id, id, List.suffix_rfl⟩
  split at e
  · cases e
    exact ⟨rfl, rfl, id, id, id, id, List.suffix_rfl⟩
  simp only [Option.map_eq_some_iff] at e
  obtain ⟨locked, -, rfl⟩ := e
  split
  · exact hreason.trans (derivSite_grows _)
  · exact ⟨rfl, rfl, id, id, id, id, List.suffix_rfl⟩

theorem notifyMbChg_grows (c : Client) : Grows c (notifyMbChg c) := by
  unfold notifyMbChg
  dsimp only
  split
  · exact ⟨rfl, rfl, id, id, id, id, List.suffix_rfl⟩
  split
  · exact ⟨rfl, rfl, id, id, id, id, List.suffix_cons _ _⟩
  · exact ⟨rfl, rfl, id, id, id, id, List.suffix_rfl⟩

theorem notifySiteChg_grows (c : Client) : Grows c (notifySiteChg c) := by
  unfold notifySiteChg
  split
  · exact ⟨rfl, rfl, id, id, id, id, List.suffix_cons _ _⟩
  · exact .refl c

/-- The attributes stay in the mask, but for the overlay state when the client is told of it. -/
structure Told (c c' : Client) : Prop where
  counts : (c'.cCurseq, c'.curseqOwn, c'.cRtnseq, c'.sRtnseqP, c'.rtnseqWord) =
    (c.cCurseq, c.curseqOwn, c.cRtnseq, c.sRtnseqP, c.rtnseqWord)
  clip : c.changeMask.clip = true → c'.changeMask.clip = true
  cursor : c.changeMask.cursor = true → c'.changeMask.cursor = true
  bstore : c.changeMask.bstore = true → c'.changeMask.bstore = true
  ovlstate : ∃ new, c'.notes = new ++ c.notes ∧ (c.changeMask.ovlstate = true →
    c'.changeMask.ovlstate = true ∨ Note.ovlState c.cOvlstate ∈ new)

/-- The client is told of the overlay state last. -/
theorem Grows.notifyOvlState (hg : Grows c c') :
    Told c (if c'.changeMask.ovlstate = true then notifyOvlState c' else c') := by
  obtain ⟨new, hnew⟩ := hg.notes
  have hover := hg.overlay
  rw [Prod.mk.injEq] at hover
  have hkept : Told c c' := ⟨hg.counts, hg.clip, hg.cursor, hg.bstore, new, hnew.symm,
    fun h => .inl (hg.ovlstate h)⟩
  split
  · unfold Phase.notifyOvlState
    split
    · refine ⟨hg.counts, hg.clip, hg.cursor, hg.bstore, .ovlState c.cOvlstate :: new, ?_, ?_⟩
      · rw [List.cons_append, hnew, ← hover.2]
        rfl
      · exact fun _ => .inr (.head _)
    · exact hkept
  · exact hkept

theorem notify_told (hg : Grows c c') : Told c (notify c') := by
  have hif : ∀ (b : Bool) (c : Client) (f : Client → Client), Grows c (f c) →
      Grows c (if b = true then f c else c) := by
    intro b c f hf
    split
    · exact hf
    · exact .refl c
  unfold notify
  exact (hg.trans ((hif _ _ _ (notifyMbChg_grows c')).trans
    (hif _ _ _ (notifySiteChg_grows _)))).notifyOvlState

/-! ## The report -/

/-- What an update from `c` to `c'` tells the client, `S` being the shared information at its end:
the counts of the lock subject that are not the client's. A window has all attributes, a viewable
buffer the clip list and the cursor of its window. -/
structure Reported (c c' : Client) (S : Shared) : Prop where
  clip : differs c.cClipseq S.clipseq = true → c'.changeMask.clip = true
  cursor : differs c.cCurseq (sCurseq c S) = true → c'.changeMask.cursor = true
  bstore : c'.eLockSubj = -1 →
    (differs c.cRtnseq (sRtnseq c' S) = true ∨ differs c'.cRtnseq (sRtnseq c' S) = true) →
    c'.changeMask.bstore = true
  ovlstate : c'.eLockSubj = -1 → c.isOverlay = true → c.cOvlstate ≠ S.ovlstate →
    ∃ new, c'.notes = new ++ c.notes ∧
      (c'.changeMask.ovlstate = true ∨ Note.ovlState S.ovlstate ∈ new)

/-- The lock subject of an update that has ended is the window or a viewable buffer, and its counts
are the server's. -/
theorem winSyncAgain_false (h : winSyncAgain x = some false) :
    differs x.last.mbufseq x.sh.mb.mbufseq = false ∧
    differs x.last.clipseq x.sh.clipseq = false ∧
    differs x.last.curseq (sCurseq x.c x.sh) = false ∧
    (x.c.eLockSubj = -1 → differs x.last.rtnseq (sRtnseq x.c x.sh) = false ∧
      (x.c.isOverlay = true → x.c.cOvlstate = x.sh.ovlstate)) := by
  unfold winSyncAgain at h
  split at h
  · cases h
  case isFalse hm =>
    simp only [Option.bind_eq_bind, Option.bind_eq_some_iff] at h
    obtain ⟨k, hk, h⟩ := h
    split at h
    · simp only [Option.some.injEq, Bool.or_eq_false_iff, Bool.and_eq_false_iff,
        bne_eq_false_iff_eq] at h
      obtain ⟨⟨⟨h1, h2⟩, h3⟩, h4⟩ := h
      refine ⟨Bool.eq_false_iff.2 hm, h1, h2, fun _ => ⟨h3, fun ho => ?_⟩⟩
      rcases h4 with h4 | h4
      · rw [ho] at h4
        cases h4
      · exact h4
    · simp only [Option.some.injEq, Bool.or_eq_false_iff] at h
      refine ⟨Bool.eq_false_iff.2 hm, h.1, h.2, fun he => ?_⟩
      rw [Client.kind, if_pos he] at hk
      cases hk
    · cases h

/-- At the end of the loop every count that is not the client's is in the mask. -/
theorem Noted.reported (h : Noted c x) (he : winSyncAgain x = some false) (ht : Told x.c c')
    (hsubj : c'.eLockSubj = x.c.eLockSubj) : Reported c c' x.sh := by
  obtain ⟨-, hclip, hcur, hrest⟩ := winSyncAgain_false he
  have hcounts := ht.counts
  have hsame := h.same
  simp only [Prod.mk.injEq] at hcounts hsame
  have hmarked : ∀ {a b : Bool}, (a = true → b = true) → a ≠ false → b = true := by
    intro a b hab hne
    exact hab (by simpa using hne)
  refine ⟨fun hd => hmarked ht.clip fun hm => ?_, fun hd => hmarked ht.cursor fun hm => ?_,
    fun hw hd => hmarked ht.bstore fun hm => ?_, fun hw ho hd => ?_⟩
  · rw [h.clip hm, hd] at hclip
    cases hclip
  · have hs : sCurseq x.c x.sh = sCurseq c x.sh := by simp only [sCurseq, hsame]
    rw [h.cursor hm, hs, hd] at hcur
    cases hcur
  · obtain ⟨h1, h2, h3⟩ := h.bstore hm
    have hs : sRtnseq c' x.sh = sRtnseq x.c x.sh := by simp only [sRtnseq, hcounts]
    have hr := (hrest (hsubj ▸ hw)).1
    rw [h1, ← hs] at hr
    rw [hcounts.2.2.1, h2, or_self, hr] at hd
    cases hd
  · obtain ⟨new, hnew, hmask⟩ := ht.ovlstate
    obtain ⟨old, hold⟩ := h.notes
    have hst := (hrest (hsubj ▸ hw)).2 (hsame.2.2.2 ▸ ho)
    refine ⟨new ++ old, by rw [hnew, ← hold, List.append_assoc], ?_⟩
    have hm : x.c.changeMask.ovlstate = true := by
      by_contra hne
      rw [Bool.not_eq_true] at hne
      exact hd (by rw [← h.ovlstate hne, hst])
    rw [hst] at hmask
    exact (hmask hm).imp_right (List.mem_append_left _)

/-- The client's count of multibuffer changes is the one of the loop. -/
theorem winLoop_cMbufseq (h : x.c.cMbufseq = x.last.mbufseq) {bufIndex : Int} {ps : List Pass}
    (e : winLoop x bufIndex ps = some y) : y.c.cMbufseq = y.last.mbufseq := by
  induction ps generalizing x with
  | nil => cases e
  | cons p ps ih =>
    simp only [winLoop, syncLoop] at e
    split at e
    · cases e
      exact h
    · simp only [Option.bind_eq_bind, Option.bind_eq_some_iff] at e
      obtain ⟨x1, h1, x2, h2, again, -, e⟩ := e
      have hx1 : x1.c.cMbufseq = x1.last.mbufseq := by
        unfold winMbSync at h1
        split at h1
        · simp only [Option.bind_eq_bind, Option.bind_eq_some_iff] at h1
          obtain ⟨⟨c', sh⟩, -, h1⟩ := h1
          cases h1
          rfl
        · cases h1
          exact h
      have hs := winAttrs_synced h2
      have hx2 : x2.c.cMbufseq = x2.last.mbufseq := by
        rw [hs.last, ← hx1]
        exact congrArg (·.1) hs.client.counts
      split at e
      · exact ih hx2 e
      · split at e
        · cases e
          exact hx2
        · cases e

/-- **No change is lost.** When `dgai_win_update` returns and the window is no zombie, the counts of
the lock subject that are not the client's are reported, the change count is that of the shared
information they were compared with, and the next lock does without an update only if the number of
changes since then is a multiple of `2 ^ 32`. -/
theorem winUpdate_reports {ps : List Pass} (e : winUpdate c S (-1) ps = some (c', S'))
    (hz : c'.changeMask.zombie = false) :
    Reported c c' S' ∧ c'.cWmChngcnt 0 = S'.chngcnt ∧
      differs c'.cMbufseq S'.mb.mbufseq = false ∧
      ∀ chs, drawLockUpdates c' (S'.changes chs) (-1) = false → 2 ^ 32 ∣ chs.length := by
  simp only [winUpdate, Option.bind_eq_bind, Option.bind_eq_some_iff] at e
  obtain ⟨x, hloop, c1, h1, c2, h2, e⟩ := e
  have hstart : Noted c ⟨{ c with changeMask := {} }, S, winGetLastSeqs c⟩ :=
    ⟨fun _ => rfl, fun _ => rfl, fun _ => ⟨rfl, rfl, rfl⟩, fun _ => rfl, rfl, List.suffix_rfl⟩
  obtain ⟨hnoted, hend⟩ := winLoop_noted hstart hloop
  have hseq := winLoop_cMbufseq rfl hloop
  have hkeeps : Keeps x.c (notify c2) :=
    (devinfoUpdate_keeps h1).trans ((figureDerivChgs_keeps h2).trans (notify_keeps c2))
  have htold : Told x.c ((notify c2).synced x.sh (-1)) := by
    have ht := notify_told ((devinfoUpdate_grows h1).trans (figureDerivChgs_grows h2))
    exact ⟨ht.counts, ht.clip, ht.cursor, ht.bstore, ht.ovlstate⟩
  have hc' : c' = (notify c2).synced x.sh (-1) ∧
      ∃ valid, S' = { x.sh with ovlshapevalid := valid } := by
    split at e
    · cases e
      exact ⟨rfl, _, rfl⟩
    · cases e
      exact ⟨rfl, x.sh.ovlshapevalid, rfl⟩
  obtain ⟨rfl, valid, rfl⟩ := hc'
  have hend' := hend.resolve_left (Bool.eq_false_iff.1 (hkeeps.zombie_false hz))
  have hr := hnoted.reported hend' htold hkeeps.eLockSubj
  have hcnt : ((notify c2).synced x.sh (-1)).cWmChngcnt 0 = x.sh.chngcnt := by
    simp [Client.synced]
  refine ⟨⟨hr.clip, hr.cursor, hr.bstore, hr.ovlstate⟩, hcnt, ?_, fun chs hskip => ?_⟩
  · have hm := (winSyncAgain_false hend').1
    rw [← hseq] at hm
    exact (congrArg (differs · _) (congrArg (·.1) hkeeps.counts)).trans hm
  · have hzero : (-1 : Int) + 1 = 0 := rfl
    rw [drawLockUpdates, hzero, hcnt, Shared.chngcnt_changes, differs_eq_false] at hskip
    simp only at hskip
    omega

/-- A window without buffers whose clip list has changed once. -/
def plainWindow : Shared where
  wObsolete := false
  mb :=
    { mbufseq := 0
      compositionseq := 0
      enabled := false
      flipMode := .other
      singleAddr := false
      bufViewable := fun _ => true
      displayBuffer := 0
      numberBuffers := 0 }
  writeBuffer := 0
  clipseq := 1
  wextend := false
  scliplen := 0
  curseq := 0
  retained := ⟨false, 0⟩
  srtndlink := false
  ovlstate := 0
  ovlshapevalid := false
  devinfoseq := 0
  nb := fun _ => ⟨false, 0, 0⟩
  chngcnt := 1

/-- Memory for a multibuffer set. -/
def fresh : Alloc where
  ok := true
  addr := 1
  viewable := fun _ => false
  words := fun _ => 0
  cacheSeqs := fun _ => 0
  devInfoSeqs := fun _ => 0
  prevLocked := fun _ => false

/-- An update of one pass in which the lock is not given up. -/
def onePass : Script := ⟨fresh, [⟨fresh, [], []⟩]⟩

/-- The window at its first lock. -/
def plainClient : Client :=
  { grabClient plainWindow false false 0 0 with rLockSubj := -1, eLockSubj := -1 }

/-- The window with a clip list on more than one page. -/
def extendedWindow : Shared := { plainWindow with wextend := true, scliplen := 8192 }

/-- A pass in which the lock is given up twice for the mapping of the clip list. The first time the
list grows once more and the cursor moves. -/
def relockPass : Pass := ⟨fresh, [⟨true, true, [.clip true 12288, .cursor]⟩, ⟨true, true, []⟩], []⟩

/-- The client that follows the cursor of its device. -/
def cursorClient : Client := { plainClient with curseqOwn := false }

/-- The first lock of the window reports its clip list, in its last length, and the cursor, which
moved while the lock was given up. -/
theorem winUpdate_reports_relocked : ∃ c' S',
    winUpdate cursorClient extendedWindow (-1) [relockPass] = some (c', S') ∧
      Reported cursorClient c' S' ∧ c'.changeMask.clip = true ∧ c'.changeMask.cursor = true ∧
      c'.wCliplen = S'.scliplen := by
  have e : winUpdate cursorClient extendedWindow (-1) [relockPass] = some (_, _) := rfl
  obtain ⟨hr, -, -⟩ := winUpdate_reports e rfl
  exact ⟨_, _, e, hr, hr.clip rfl, hr.cursor rfl, rfl⟩

/-- When the change count comes round, the next lock does not see that anything has changed. -/
theorem winUpdate_skips_round : ¬ ∀ c S ps c' S', winUpdate c S (-1) ps = some (c', S') →
    c'.changeMask.zombie = false →
    Reported c c' S' ∧ c'.cWmChngcnt 0 = S'.chngcnt ∧
      ∀ chs, drawLockUpdates c' (S'.changes chs) (-1) = false → chs = [] := by
  intro h
  obtain ⟨-, hcnt, hskip⟩ := h plainClient plainWindow onePass.passes _ _ rfl rfl
  have hround := hskip (List.replicate (2 ^ 32) .cursor) (by
    rw [drawLockUpdates, differs_eq_false, Shared.chngcnt_changes, List.length_replicate,
      Nat.add_mod_right]
    exact congrArg (· % 2 ^ 32) hcnt)
  rw [List.replicate_eq_nil_iff] at hround
  omega

end Dga.Phase
