import SolarisXorg.Dga.Phase

/-!
# What the synchronization functions leave alone

`clipUpdate_frame` and `rtnUpdate_frame`: the synchronizations that give up the lock change the
client's mapping of the clip list, and of the retained information, and the shared information
changes as the server says. `Shared.changes_mb` and `Shared.chngcnt_changes` follow the multibuffer
state and the change count through the changes. `Keeps` is what no synchronization of attributes, no
derived change and no notification changes: the lock subjects and what is known of the multibuffer
state. `Synced` adds what the server does meanwhile; `winAttrs_synced` and `mbufAttrs_synced` say it
of a pass.
-/

namespace Dga.Phase

variable {c c' : Client} {S S' : Shared}

/-! ## Changes -/

theorem differs_self (n : Nat) : differs n n = false := by
  simp [differs]

theorem differs_eq_false {m n : Nat} : differs m n = false ↔ m % 2 ^ 32 = n % 2 ^ 32 := by
  simp [differs]

theorem Shared.changes_append (S : Shared) (k l : List Change) :
    S.changes (k ++ l) = (S.changes k).changes l :=
  List.foldl_append

theorem MbState.changes_append (m : MbState) (k l : List Change) :
    m.changes (k ++ l) = (m.changes k).changes l := by
  induction k generalizing m with
  | nil => rfl
  | cons ch k ih => cases ch <;> exact ih _

theorem Shared.changes_mb (S : Shared) (chs : List Change) :
    (S.changes chs).mb = S.mb.changes chs := by
  induction chs generalizing S with
  | nil => rfl
  | cons ch chs ih => cases ch <;> exact ih _

/-- Every change counts. -/
theorem Shared.chngcnt_changes (S : Shared) (chs : List Change) :
    (S.changes chs).chngcnt = S.chngcnt + chs.length := by
  induction chs generalizing S with
  | nil => rfl
  | cons ch chs ih =>
    have hone : (S.change ch).chngcnt = S.chngcnt + 1 := rfl
    have hrest := ih (S.change ch)
    rw [hone] at hrest
    rw [List.length_cons]
    exact hrest.trans (by omega)

/-! ## Mappings -/

/-- The client's mapping of the clip list. -/
def Client.setClip (c : Client) (extended : Bool) (len : Nat) : Client :=
  { c with clipExtended := extended, wCliplen := len }

/-- The client's mapping of the retained information. -/
def Client.setRtn (c : Client) (seq : Nat) (ptr : RtnPtr) (mapped mapchg : Bool) : Client :=
  { c with cRtnseq := seq, sRtnseqP := ptr, rtnMapped := mapped, rtnMapchg := mapchg }

theorem clipMapped_eq (c : Client) (S : Shared) :
    ∃ extended len, clipMapped c S = c.setClip extended len := by
  unfold clipMapped
  split
  · exact ⟨true, S.scliplen, rfl⟩
  · exact ⟨false, c.wCliplen, rfl⟩

/-- `dgai_win_clip_update` changes the mapping of the clip list only. -/
theorem clipUpdate_frame {rs : List ClipRelock} (e : clipUpdate c S rs = some (true, c', S')) :
    (∃ extended len, c' = c.setClip extended len) ∧
      S' = S.changes (rs.flatMap (·.changes)) := by
  induction rs generalizing c S with
  | nil =>
    simp only [clipUpdate] at e
    split at e
    · cases e
    · cases e
      exact ⟨⟨c'.clipExtended, c'.wCliplen, rfl⟩, rfl⟩
  | cons r rs ih =>
    simp only [clipUpdate] at e
    split at e
    · cases e
    split at e
    · obtain ⟨b, n, hm⟩ := clipMapped_eq c S
      rw [hm] at e
      obtain ⟨⟨b', n', rfl⟩, rfl⟩ := ih e
      exact ⟨⟨b', n', rfl⟩, by rw [List.flatMap_cons, Shared.changes_append]⟩
    · split at e <;> cases e

theorem rtnUnmap_eq (c : Client) :
    ∃ seq ptr mapped mapchg, rtnUnmap c = c.setRtn seq ptr mapped mapchg := by
  unfold rtnUnmap
  split
  · exact ⟨0, .self, false, true, rfl⟩
  · exact ⟨c.cRtnseq, c.sRtnseqP, c.rtnMapped, c.rtnMapchg, rfl⟩

theorem rtnMap_eq (c : Client) (S : Shared) (map : Option Retained) :
    (∃ seq ptr mapped mapchg, (rtnMap c S map).1 = c.setRtn seq ptr mapped mapchg) ∧
      ∃ retained, (rtnMap c S map).2 = { S with retained } := by
  have hid : ∃ seq ptr mapped mapchg, c = c.setRtn seq ptr mapped mapchg :=
    ⟨c.cRtnseq, c.sRtnseqP, c.rtnMapped, c.rtnMapchg, rfl⟩
  unfold rtnMap
  split
  · exact ⟨hid, S.retained, rfl⟩
  · split
    · exact ⟨hid, S.retained, rfl⟩
    · exact ⟨⟨0, .info, true, c.rtnMapchg, rfl⟩, _, rfl⟩

/-- `dgai_win_rtn_update` changes the mapping of the retained information only. -/
theorem rtnUpdate_frame {rs : List RtnRelock} (e : rtnUpdate c S rs = some (c', S')) :
    (∃ seq ptr mapped mapchg, c' = c.setRtn seq ptr mapped mapchg) ∧
      S'.mb = S.mb.changes (rs.flatMap (·.changes)) ∧
      S'.chngcnt = S.chngcnt + (rs.flatMap (·.changes)).length := by
  induction rs generalizing c S with
  | nil =>
    simp only [rtnUpdate] at e
    split at e
    · cases e
    · cases e
      exact ⟨⟨c'.cRtnseq, c'.sRtnseqP, c'.rtnMapped, c'.rtnMapchg, rfl⟩, rfl, rfl⟩
  | cons r rs ih =>
    simp only [rtnUpdate] at e
    split at e
    · cases e
    obtain ⟨s1, p1, m1, k1, h1⟩ := rtnUnmap_eq c
    obtain ⟨⟨s2, p2, m2, k2, h2⟩, retained, h3⟩ :=
      rtnMap_eq (rtnUnmap c) (S.changes r.changes) r.map
    rw [h2, h3, h1] at e
    obtain ⟨⟨s3, p3, m3, k3, rfl⟩, hmb, hcnt⟩ := ih e
    refine ⟨⟨s3, p3, m3, k3, rfl⟩, ?_, ?_⟩
    · rw [hmb, List.flatMap_cons, MbState.changes_append, Shared.changes_mb]
    · rw [hcnt, List.flatMap_cons, List.length_append, Shared.chngcnt_changes]
      omega

/-! ## Lock subjects -/

/-- A flag that would have stayed set was not set. -/
theorem eq_false_of_imp {k l : Bool} (h : k = true → l = true) (hl : l = false) : k = false := by
  cases k with
  | false => rfl
  | true => exact (h rfl).symm.trans hl

/-- What a client structure knows of its multibuffer set. -/
def MbufSet.shape (m : MbufSet) : Nat × Int × (Int → Bool) := (m.addr, m.numBufs, m.viewable)

/-- The lock subjects, the multibuffer set and its counts are the same, and a zombie stays one. -/
structure Keeps (c c' : Client) : Prop where
  subject : (c'.rLockSubj, c'.eLockSubj, c'.eLockSubjPrev) =
    (c.rLockSubj, c.eLockSubj, c.eLockSubjPrev)
  counts : (c'.cMbufseq, c'.cMbcomposseq) = (c.cMbufseq, c.cMbcomposseq)
  set : c'.pMbs.map MbufSet.shape = c.pMbs.map MbufSet.shape
  shadow : c'.shadowChngcnt = c.shadowChngcnt
  zombie : c.changeMask.zombie = true → c'.changeMask.zombie = true

theorem Keeps.refl (c : Client) : Keeps c c := ⟨rfl, rfl, rfl, rfl, id⟩

theorem Keeps.trans {c'' : Client} (h : Keeps c c') (h' : Keeps c' c'') : Keeps c c'' :=
  ⟨h'.subject.trans h.subject, h'.counts.trans h.counts, h'.set.trans h.set,
    h'.shadow.trans h.shadow, h'.zombie ∘ h.zombie⟩

theorem Keeps.eLockSubj (h : Keeps c c') : c'.eLockSubj = c.eLockSubj :=
  congrArg (·.2.1) h.subject

theorem Keeps.zombie_false (h : Keeps c c') (hz : c'.changeMask.zombie = false) :
    c.changeMask.zombie = false :=
  eq_false_of_imp h.zombie hz

theorem Keeps.isSome (h : Keeps c c') : c'.pMbs.isSome = c.pMbs.isSome := by
  have := congrArg Option.isSome h.set
  rwa [Option.isSome_map, Option.isSome_map] at this

theorem nmbufDevinfoUpdate_keeps (e : nmbufDevinfoUpdate c S = some c') : Keeps c c' := by
  simp only [nmbufDevinfoUpdate, Option.map_eq_some_iff] at e
  obtain ⟨m, hm, rfl⟩ := e
  split
  · exact ⟨rfl, rfl, by rw [hm]; rfl, rfl, id⟩
  · exact .refl c

theorem nmbufCacheUpdate_keeps (e : nmbufCacheUpdate c S = some c') : Keeps c c' := by
  simp only [nmbufCacheUpdate, Option.map_eq_some_iff] at e
  obtain ⟨m, hm, rfl⟩ := e
  split
  · exact ⟨rfl, rfl, by rw [hm]; rfl, rfl, id⟩
  · exact .refl c

theorem devinfoUpdate_keeps (e : devinfoUpdate c S = some c') : Keeps c c' := by
  unfold devinfoUpdate at e
  split at e
  · cases e
    exact .refl c
  · simp only [Option.bind_eq_bind, Option.bind_eq_some_iff] at e
    obtain ⟨k, -, e⟩ := e
    split at e
    · split at e
      · cases e
        exact ⟨rfl, rfl, rfl, rfl, id⟩
      · cases e
        exact .refl c
    · cases e
      exact .refl c
    · exact nmbufDevinfoUpdate_keeps e

theorem siteChg_keeps (c : Client) (reason : SiteReason) : Keeps c (c.siteChg reason) :=
  ⟨rfl, rfl, rfl, rfl, id⟩

theorem setPrevLocked_keeps (c : Client) : Keeps c c.setPrevLocked := by
  refine ⟨rfl, rfl, ?_, rfl, id⟩
  rw [Client.setPrevLocked, Option.map_map]
  rfl

theorem derivSite_keeps (c : Client) : Keeps c c.derivSite := by
  unfold Client.derivSite
  split
  · exact siteChg_keeps c _
  split
  · exact siteChg_keeps c _
  split
  · exact siteChg_keeps c _
  · exact .refl c

theorem figureDerivChgs_keeps (e : figureDerivChgs c = some c') : Keeps c c' := by
  have hreason : Keeps c { c with siteChgReason := .unknown } := ⟨rfl, rfl, rfl, rfl, id⟩
  unfold figureDerivChgs at e
  dsimp only at e
  split at e
  · cases e
    exact ⟨rfl, rfl, rfl, rfl, id⟩
  split at e
  · cases e
    exact ⟨rfl, rfl, rfl, rfl, id⟩
  simp only [Option.map_eq_some_iff] at e
  obtain ⟨locked, -, rfl⟩ := e
  split
  · exact hreason.trans (derivSite_keeps _)
  · exact hreason.trans ((siteChg_keeps _ _).trans (setPrevLocked_keeps _))

theorem mbufFigureDerivChgs_keeps (e : mbufFigureDerivChgs c = some c') : Keeps c c' := by
  simp only [mbufFigureDerivChgs, Option.bind_eq_bind, Option.bind_eq_some_iff] at e
  obtain ⟨c1, h1, cur, -, prev, -, e⟩ := e
  have hk := figureDerivChgs_keeps h1
  split at e
  · cases e
    exact ⟨hk.subject, hk.counts, hk.set, hk.shadow, hk.zombie⟩
  · cases e
    exact hk

theorem notifyMbChg_keeps (c : Client) : Keeps c (notifyMbChg c) := by
  unfold notifyMbChg
  dsimp only
  split
  · exact ⟨rfl, rfl, rfl, rfl, id⟩
  split
  · exact ⟨rfl, rfl, rfl, rfl, id⟩
  · exact ⟨rfl, rfl, rfl, rfl, id⟩

theorem notifySiteChg_keeps (c : Client) : Keeps c (notifySiteChg c) := by
  unfold notifySiteChg
  split
  · exact ⟨rfl, rfl, rfl, rfl, id⟩
  · exact .refl c

theorem notifyOvlState_keeps (c : Client) : Keeps c (notifyOvlState c) := by
  unfold notifyOvlState
  split
  · exact ⟨rfl, rfl, rfl, rfl, id⟩
  · exact .refl c

theorem notify_keeps (c : Client) : Keeps c (notify c) := by
  have hif : ∀ (b : Bool) (c : Client) (f : Client → Client), Keeps c (f c) →
      Keeps c (if b = true then f c else c) := by
    intro b c f hf
    split
    · exact hf
    · exact .refl c
  unfold notify
  exact (hif _ _ _ (notifyMbChg_keeps c)).trans
    ((hif _ _ _ (notifySiteChg_keeps _)).trans (hif _ _ _ (notifyOvlState_keeps _)))

/-! ## Passes -/

/-- From `x` to `y` the attributes were synchronized and the server made the changes `chs`. -/
structure Synced (x y : Sync) (chs : List Change) : Prop where
  client : Keeps x.c y.c
  last : y.last.mbufseq = x.last.mbufseq
  mb : y.sh.mb = x.sh.mb.changes chs
  chngcnt : y.sh.chngcnt = x.sh.chngcnt + chs.length

variable {x y z : Sync}

theorem Synced.refl (x : Sync) : Synced x x [] := ⟨.refl x.c, rfl, rfl, rfl⟩

theorem Synced.trans {k l : List Change} (h : Synced x y k) (h' : Synced y z l) :
    Synced x z (k ++ l) := by
  refine ⟨h.client.trans h'.client, h'.last.trans h.last, ?_, ?_⟩
  · rw [MbState.changes_append, ← h.mb, h'.mb]
  · rw [h'.chngcnt, h.chngcnt, List.length_append, Nat.add_assoc]

theorem clipSync_synced {rs : List ClipRelock} (e : clipSync x rs = some y) :
    Synced x y (rs.flatMap (·.changes)) := by
  unfold clipSync at e
  split at e
  · split at e
    next c' sh hu =>
      cases e
      obtain ⟨⟨b, n, rfl⟩, rfl⟩ := clipUpdate_frame hu
      exact ⟨⟨rfl, rfl, rfl, rfl, id⟩, rfl, Shared.changes_mb _ _, Shared.chngcnt_changes _ _⟩
    next => cases e
  · split at e
    next hrs =>
      cases e
      rw [List.isEmpty_iff.1 hrs]
      exact .refl x
    next => cases e

theorem cursSync_synced (x : Sync) : Synced x (cursSync x) [] := by
  unfold cursSync
  split
  · exact ⟨⟨rfl, rfl, rfl, rfl, id⟩, rfl, rfl, rfl⟩
  · exact .refl x

theorem rtnSync_synced {rs : List RtnRelock} (e : rtnSync x rs = some y) :
    Synced x y (rs.flatMap (·.changes)) := by
  unfold rtnSync at e
  split at e
  · simp only [Option.bind_eq_bind, Option.bind_eq_some_iff] at e
    obtain ⟨⟨c', sh⟩, hu, e⟩ := e
    cases e
    obtain ⟨⟨seq, ptr, mapped, mapchg, rfl⟩, hmb, hcnt⟩ := rtnUpdate_frame hu
    exact ⟨⟨rfl, rfl, rfl, rfl, id⟩, rfl, hmb, hcnt⟩
  · split at e
    next hrs =>
      cases e
      rw [List.isEmpty_iff.1 hrs]
      exact .refl x
    next => cases e

theorem ovlSync_synced (x : Sync) : Synced x (ovlSync x) [] := by
  unfold ovlSync
  split
  · exact ⟨⟨rfl, rfl, rfl, rfl, id⟩, rfl, rfl, rfl⟩
  · exact .refl x

theorem winSyncChanges_synced {p : Pass} (e : winSyncChanges x p = some y) :
    Synced x y p.changes := by
  simp only [winSyncChanges, Option.bind_eq_bind, Option.bind_eq_some_iff] at e
  obtain ⟨x1, h1, x2, h2, e⟩ := e
  cases e
  have h := ((clipSync_synced h1).trans (cursSync_synced x1)).trans
    ((rtnSync_synced h2).trans (ovlSync_synced x2))
  simpa only [Pass.changes, List.append_nil] using h

theorem setSeq_keeps {changed : Bool} {array bufIndex : Int} {n : Nat}
    (e : c.setSeq changed array bufIndex n = some c') : Keeps c c' := by
  unfold Client.setSeq at e
  split at e
  · simp only [Option.map_eq_some_iff] at e
    obtain ⟨m, hm, rfl⟩ := e
    exact ⟨rfl, rfl, by rw [hm]; rfl, rfl, id⟩
  · cases e
    exact .refl c

/-- A change of the client structure only. -/
theorem Synced.client_only (hk : Keeps x.c c') : Synced x { x with c := c' } [] :=
  ⟨hk, rfl, rfl, rfl⟩

theorem vmbufSyncChanges_synced {bufIndex : Int} {p : Pass}
    (e : vmbufSyncChanges x bufIndex p = some y) : Synced x y p.changes := by
  simp only [vmbufSyncChanges, Option.bind_eq_bind, Option.bind_eq_some_iff] at e
  obtain ⟨x1, h1, c1, hc1, c2, hc2, e⟩ := e
  split at e
  next hrtn =>
    cases e
    have h := (clipSync_synced h1).trans ((Synced.client_only (setSeq_keeps hc1)).trans
      ((cursSync_synced _).trans (.client_only (setSeq_keeps hc2))))
    rw [Pass.changes, List.isEmpty_iff.1 hrtn]
    simpa only [List.flatMap_nil, List.append_nil] using h
  next => cases e

theorem nmbufSyncChanges_synced {p : Pass} (e : nmbufSyncChanges x p = some y) :
    Synced x y p.changes := by
  unfold nmbufSyncChanges at e
  split at e
  next hp =>
    rw [Bool.and_eq_true, List.isEmpty_iff, List.isEmpty_iff] at hp
    have hnone : p.changes = [] := by rw [Pass.changes, hp.1, hp.2]; rfl
    rw [hnone]
    split at e
    · cases e
      exact .refl x
    split at e
    · cases e
      exact .client_only ⟨rfl, rfl, rfl, rfl, fun _ => rfl⟩
    · simp only [Option.bind_eq_bind, Option.bind_eq_some_iff] at e
      obtain ⟨c1, h1, c2, h2, e⟩ := e
      cases e
      exact .client_only ((nmbufCacheUpdate_keeps h1).trans (nmbufDevinfoUpdate_keeps h2))
  next => cases e

/-- The attributes of a window's lock subject. -/
theorem winAttrs_synced {bufIndex : Int} {p : Pass} (e : winAttrs x bufIndex p = some y) :
    Synced x y p.changes := by
  simp only [winAttrs, Option.bind_eq_bind, Option.bind_eq_some_iff] at e
  obtain ⟨k, -, e⟩ := e
  split at e
  · exact winSyncChanges_synced e
  · exact vmbufSyncChanges_synced e
  · cases e

/-- The attributes of a buffer's lock subject. -/
theorem mbufAttrs_synced {bufIndex : Int} {p : Pass} (e : mbufAttrs x bufIndex p = some y) :
    Synced x y p.changes := by
  simp only [mbufAttrs, Option.bind_eq_bind, Option.bind_eq_some_iff] at e
  obtain ⟨k, -, e⟩ := e
  split at e
  · exact winSyncChanges_synced e
  · exact vmbufSyncChanges_synced e
  · exact nmbufSyncChanges_synced e
  · cases e

end Dga.Phase
