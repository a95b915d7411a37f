import SolarisXorg.Dga.MbReason
import SolarisXorg.Dga.Proof.PhaseLock

/-!
# The reason for a multibuffer change, in every run

`Client.flags` is what the reason is made from. A look at a multibuffer state takes a step with the
flags, `Flags.look` (`syncMbufset_flags`), and `flagRight_iff` says what the steps come to.
Everything else in an update leaves the flags alone (`Steady`), so `winLoop_seen` and
`mbufLoop_seen` follow a loop by the states that it looks at, and `mbsmembNotified_spec` a whole
update. Its reason is then right iff `prevWasMbuffered` says at the end what there was at the start
(`right_iff_flag`, `right_iff`). `mbReason_run` is the result for runs; in
`mbReason_activates_twice` a change of the displayed buffer is told as an activation.
-/

namespace Dga.Phase

open Lib

variable {c c' : Client} {S S' : Shared} {m : MbState} {b : Int}

/-! ## The flags -/

/-- The count of composition changes on record, `prevWasMbuffered`, and whether there is a set. -/
structure Flags where
  composseq : Nat
  prev : Bool
  present : Bool

def Client.flags (c : Client) : Flags := ⟨c.cMbcomposseq, c.prevWasMbuffered, c.pMbs.isSome⟩

/-- A look at a multibuffer state. -/
def Flags.look (f : Flags) (l : MbState × Alloc) : Flags :=
  if differs f.composseq l.1.compositionseq then
    ⟨l.1.compositionseq, f.present, l.1.enabled && l.2.ok⟩
  else f

theorem syncMbufset_flags (c : Client) (m : MbState) (a : Alloc) :
    (syncMbufset c m a).flags = c.flags.look (m, a) := by
  unfold syncMbufset Flags.look Client.flags
  dsimp only
  cases differs c.cMbcomposseq m.compositionseq with
  | false => rfl
  | true =>
    cases m.enabled with
    | false => rfl
    | true =>
      unfold mbufsetCreate
      cases a.ok <;> rfl

/-- `prevWasMbuffered` after the looks is whether there was a set before the last change that is
noticed. -/
theorem foldl_look_prev (ls : List (MbState × Alloc)) (f : Flags) :
    (ls.foldl Flags.look f).prev =
      if noticed f.composseq ls = [] then f.prev
      else ((f.present :: noticed f.composseq ls).dropLast.getLast?).getD false := by
  induction ls generalizing f with
  | nil => rfl
  | cons l ls ih =>
    rw [List.foldl_cons, ih, noticed, Flags.look]
    split
    case isTrue hd =>
      dsimp only
      rw [if_neg (List.cons_ne_nil _ _)]
      cases noticed l.1.compositionseq ls with
      | nil => rfl
      | cons n ns => rfl
    case isFalse hd => rfl

/-- The flag is right iff, after the looks, it says what there was before them. -/
theorem flagRight_iff (ls : List (MbState × Alloc)) :
    c.FlagRight (noticed c.cMbcomposseq ls) ↔
      (ls.foldl Flags.look c.flags).prev = c.pMbs.isSome := by
  rw [foldl_look_prev]
  show _ ↔ (if noticed c.cMbcomposseq ls = [] then c.prevWasMbuffered
    else (c.pMbs.isSome :: noticed c.cMbcomposseq ls).dropLast.getLast?.getD false) = _
  unfold Client.FlagRight
  cases noticed c.cMbcomposseq ls with
  | nil => rfl
  | cons n ns =>
    rw [if_neg (List.cons_ne_nil _ _), if_neg (List.cons_ne_nil _ _), List.dropLast_cons_cons,
      List.getLast?_cons]
    exact Option.some_inj

/-- The reason compares the start with the end iff the flag says what there was at the start. -/
theorem right_iff_flag (before after prev : Bool) :
    (MbTold.mk before after (some (mbReason prev after))).Right ↔ prev = before := by
  constructor
  · rintro ⟨h1, h2, h3, h4⟩
    cases before <;> cases after <;> cases prev <;> simp_all [mbReason]
  · rintro rfl
    refine ⟨?_, ?_, ?_, ?_⟩ <;> cases prev <;> cases after <;> simp [mbReason]

/-- Without a reason the set must not be gone. -/
theorem right_of_none {before after : Bool} (h : before = true → after = true) :
    (MbTold.mk before after none).Right := by
  refine ⟨nofun, fun _ _ => .inl rfl, ⟨nofun, ?_⟩, nofun⟩
  rintro ⟨rfl, rfl⟩
  cases h rfl

/-! ## What leaves the flags alone -/

/-- The flag that a reason is made from, and whether one is to be given. -/
def Client.flag (c : Client) : Bool × Bool := (c.prevWasMbuffered, c.changeMask.mbufset)

theorem nmbufDevinfoUpdate_flag (e : nmbufDevinfoUpdate c S = some c') : c'.flag = c.flag := by
  simp only [nmbufDevinfoUpdate, Option.map_eq_some_iff] at e
  obtain ⟨s, -, rfl⟩ := e
  split <;> rfl

theorem nmbufCacheUpdate_flag (e : nmbufCacheUpdate c S = some c') : c'.flag = c.flag := by
  simp only [nmbufCacheUpdate, Option.map_eq_some_iff] at e
  obtain ⟨s, -, rfl⟩ := e
  split <;> rfl

theorem devinfoUpdate_flag (e : devinfoUpdate c S = some c') : c'.flag = c.flag := by
  unfold devinfoUpdate at e
  split at e
  · cases e
    rfl
  · simp only [Option.bind_eq_bind, Option.bind_eq_some_iff] at e
    obtain ⟨k, -, e⟩ := e
    split at e
    · split at e <;> cases e <;> rfl
    · cases e
      rfl
    · exact nmbufDevinfoUpdate_flag e

theorem derivSite_flag (c : Client) : c.derivSite.flag = c.flag := by
  unfold Client.derivSite
  split
  · rfl
  split
  · rfl
  split
  · rfl
  · rfl

theorem figureDerivChgs_flag (e : figureDerivChgs c = some c') : c'.flag = c.flag := by
  unfold figureDerivChgs at e
  dsimp only at e
  split at e
  · cases e
    rfl
  split at e
  · cases e
    rfl
  simp only [Option.map_eq_some_iff] at e
  obtain ⟨locked, -, rfl⟩ := e
  split
  · exact derivSite_flag _
  · rfl

theorem mbufFigureDerivChgs_flag (e : mbufFigureDerivChgs c = some c') : c'.flag = c.flag := by
  simp only [mbufFigureDerivChgs, Option.bind_eq_bind, Option.bind_eq_some_iff] at e
  obtain ⟨c1, h1, cur, -, prev, -, e⟩ := e
  have hflag := figureDerivChgs_flag h1
  split at e
  · cases e
    exact hflag
  · cases e
    exact hflag

theorem setSeq_flag {changed : Bool} {array bufIndex : Int} {n : Nat}
    (e : c.setSeq changed array bufIndex n = some c') : c'.flag = c.flag := by
  unfold Client.setSeq at e
  split at e
  · simp only [Option.map_eq_some_iff] at e
    obtain ⟨s, -, rfl⟩ := e
    rfl
  · cases e
    rfl

/-- A window that has become obsolete stays so, whatever else changes. -/
theorem Shared.changes_wObsolete (h : S'.wObsolete = S.wObsolete) (chs : List Change) :
    (S'.changes chs).wObsolete = (S.changes chs).wObsolete := by
  induction chs generalizing S S' with
  | nil => exact h
  | cons ch chs ih =>
    have hch : (S'.change ch).wObsolete = (S.change ch).wObsolete := by
      cases ch <;> first | exact h | rfl
    exact ih hch

theorem rtnUpdate_wObsolete {rs : List RtnRelock} (e : rtnUpdate c S rs = some (c', S')) :
    S'.wObsolete = (S.changes (rs.flatMap (·.changes))).wObsolete := by
  induction rs generalizing c S with
  | nil =>
    simp only [rtnUpdate] at e
    split at e
    · cases e
    · cases e
      rfl
  | cons r rs ih =>
    simp only [rtnUpdate] at e
    split at e
    · cases e
    obtain ⟨-, retained, hS⟩ := rtnMap_eq (rtnUnmap c) (S.changes r.changes) r.map
    rw [hS] at e
    rw [ih e, List.flatMap_cons, Shared.changes_append]
    refine Shared.changes_wObsolete ?_ _
    rfl

/-- From `x` to `y` the server made the changes `chs`, and nothing was done with the flags. -/
structure Steady (x y : Sync) (chs : List Change) : Prop where
  flag : y.c.flag = x.c.flag
  obsolete : y.sh.wObsolete = (x.sh.changes chs).wObsolete

variable {x y z : Sync}

theorem Steady.trans {k l : List Change} (h : Steady x y k) (h' : Steady y z l) :
    Steady x z (k ++ l) := by
  refine ⟨h'.flag.trans h.flag, ?_⟩
  rw [h'.obsolete, Shared.changes_append]
  exact Shared.changes_wObsolete h.obsolete l

/-- A change of the client structure only. -/
theorem Steady.client_only (h : c'.flag = x.c.flag) : Steady x { x with c := c' } [] := ⟨h, rfl⟩

theorem clipSync_steady {rs : List ClipRelock} (e : clipSync x rs = some y) :
    Steady x y (rs.flatMap (·.changes)) := by
  unfold clipSync at e
  split at e
  · split at e
    next c' sh hu =>
      cases e
      obtain ⟨⟨extended, len, rfl⟩, rfl⟩ := clipUpdate_frame hu
      exact ⟨rfl, rfl⟩
    next => cases e
  · split at e
    next hrs =>
      cases e
      rw [List.isEmpty_iff.1 hrs]
      exact ⟨rfl, rfl⟩
    next => cases e

theorem cursSync_steady (x : Sync) : Steady x (cursSync x) [] := by
  unfold cursSync
  split
  · exact ⟨rfl, rfl⟩
  · exact ⟨rfl, rfl⟩

theorem rtnSync_steady {rs : List RtnRelock} (e : rtnSync x rs = some y) :
    Steady x y (rs.flatMap (·.changes)) := by
  unfold rtnSync at e
  split at e
  · simp only [Option.bind_eq_bind, Option.bind_eq_some_iff] at e
    obtain ⟨⟨c', sh⟩, hu, e⟩ := e
    cases e
    obtain ⟨⟨seq, ptr, mapped, mapchg, rfl⟩, -⟩ := rtnUpdate_frame hu
    exact ⟨rfl, rtnUpdate_wObsolete hu⟩
  · split at e
    next hrs =>
      cases e
      rw [List.isEmpty_iff.1 hrs]
      exact ⟨rfl, rfl⟩
    next => cases e

theorem ovlSync_steady (x : Sync) : Steady x (ovlSync x) [] := by
  unfold ovlSync
  split
  · exact ⟨rfl, rfl⟩
  · exact ⟨rfl, rfl⟩

theorem winSyncChanges_steady {p : Pass} (e : winSyncChanges x p = some y) :
    Steady x y p.changes := by
  simp only [winSyncChanges, Option.bind_eq_bind, Option.bind_eq_some_iff] at e
  obtain ⟨x1, h1, x2, h2, e⟩ := e
  cases e
  have h := ((clipSync_steady h1).trans (cursSync_steady x1)).trans
    ((rtnSync_steady h2).trans (ovlSync_steady x2))
  simpa only [Pass.changes, List.append_nil] using h

theorem vmbufSyncChanges_steady {p : Pass} (e : vmbufSyncChanges x b p = some y) :
    Steady x y p.changes := by
  simp only [vmbufSyncChanges, Option.bind_eq_bind, Option.bind_eq_some_iff] at e
  obtain ⟨x1, h1, c1, hc1, c2, hc2, e⟩ := e
  split at e
  next hrtn =>
    cases e
    have h := (clipSync_steady h1).trans ((Steady.client_only (setSeq_flag hc1)).trans
      ((cursSync_steady _).trans (.client_only (setSeq_flag hc2))))
    rw [Pass.changes, List.isEmpty_iff.1 hrtn]
    simpa only [List.flatMap_nil, List.append_nil] using h
  next => cases e

theorem nmbufSyncChanges_steady {p : Pass} (e : nmbufSyncChanges x p = some y) :
    Steady x y p.changes := by
  unfold nmbufSyncChanges at e
  split at e
  next hp =>
    rw [Bool.and_eq_true, List.isEmpty_iff, List.isEmpty_iff] at hp
    have hnone : p.changes = [] := by rw [Pass.changes, hp.1, hp.2]; rfl
    rw [hnone]
    split at e
    · cases e
      exact ⟨rfl, rfl⟩
    split at e
    · cases e
      exact .client_only rfl
    · simp only [Option.bind_eq_bind, Option.bind_eq_some_iff] at e
      obtain ⟨c1, h1, c2, h2, e⟩ := e
      cases e
      exact .client_only ((nmbufDevinfoUpdate_flag h2).trans (nmbufCacheUpdate_flag h1))
  next => cases e

theorem winAttrs_steady {p : Pass} (e : winAttrs x b p = some y) : Steady x y p.changes := by
  simp only [winAttrs, Option.bind_eq_bind, Option.bind_eq_some_iff] at e
  obtain ⟨k, -, e⟩ := e
  split at e
  · exact winSyncChanges_steady e
  · exact vmbufSyncChanges_steady e
  · cases e

theorem mbufAttrs_steady {p : Pass} (e : mbufAttrs x b p = some y) : Steady x y p.changes := by
  simp only [mbufAttrs, Option.bind_eq_bind, Option.bind_eq_some_iff] at e
  obtain ⟨k, -, e⟩ := e
  split at e
  · exact winSyncChanges_steady e
  · exact vmbufSyncChanges_steady e
  · exact nmbufSyncChanges_steady e
  · cases e

/-! ## Looks -/

/-- From `c` to `c'` the multibuffer states `ls` were looked at for the drawable `b`. -/
structure Seen (b : Int) (c : Client) (ls : List (MbState × Alloc)) (c' : Client) : Prop where
  flags : c'.flags = ls.foldl Flags.look c.flags
  mbufset : c'.changeMask.mbufset = true ↔
    c.changeMask.mbufset = true ∨ ∃ l ∈ ls, b = -1 ∨ b < l.1.numberBuffers

theorem Seen.nil (hf : c'.flags = c.flags) (hm : c'.changeMask.mbufset = c.changeMask.mbufset) :
    Seen b c [] c' := by
  refine ⟨hf, ?_⟩
  rw [hm]
  simp

theorem Seen.trans {c'' : Client} {k l : List (MbState × Alloc)} (h : Seen b c k c')
    (h' : Seen b c' l c'') : Seen b c (k ++ l) c'' := by
  refine ⟨?_, ?_⟩
  · rw [List.foldl_append, ← h.flags, h'.flags]
  · rw [h'.mbufset, h.mbufset, or_assoc]
    simp only [List.mem_append, or_and_right, exists_or]

/-- What follows leaves the flags alone. -/
theorem Seen.keeps {c'' : Client} {l : List (MbState × Alloc)} (h : Seen b c l c')
    (hk : Keeps c' c'') (hf : c''.flag = c'.flag) : Seen b c l c'' := by
  have hcounts := hk.counts
  simp only [Client.flag, Prod.mk.injEq] at hcounts hf
  have hflags : c''.flags = c'.flags := by
    rw [Client.flags, hcounts.2, hf.1, hk.isSome]
    rfl
  have := h.trans (Seen.nil hflags hf.2)
  rwa [List.append_nil] at this

/-- What a pass looks at. -/
def Sync.look (x : Sync) (a : Alloc) : List (MbState × Alloc) :=
  if differs x.last.mbufseq x.sh.mb.mbufseq then [(x.sh.mb, a)] else []

/-- The multibuffer part of a pass. -/
structure MbSeen (b : Int) (x y : Sync) (a : Alloc) : Prop where
  seen : Seen b x.c (x.look a) y.c
  shared : (y.sh.mb, y.sh.wObsolete) = (x.sh.mb, x.sh.wObsolete)
  last : ∀ n, differs y.last.mbufseq n = differs x.sh.mb.mbufseq n

/-- A pass. -/
structure Passed (b : Int) (x y : Sync) (p : Pass) : Prop where
  seen : Seen b x.c (x.look p.alloc) y.c
  mb : y.sh.mb = x.sh.mb.changes p.changes
  obsolete : y.sh.wObsolete = (x.sh.changes p.changes).wObsolete
  last : ∀ n, differs y.last.mbufseq n = differs x.sh.mb.mbufseq n

/-- The attributes do not touch the flags. -/
theorem MbSeen.passed {p : Pass} (h : MbSeen b x y p.alloc) (hs : Synced y z p.changes)
    (ht : Steady y z p.changes) : Passed b x z p := by
  have hshared := h.shared
  rw [Prod.mk.injEq] at hshared
  refine ⟨h.seen.keeps hs.client ht.flag, ?_, ?_, ?_⟩
  · rw [hs.mb, hshared.1]
  · rw [ht.obsolete]
    exact Shared.changes_wObsolete hshared.2 _
  · rw [hs.last]
    exact h.last

/-- What a loop looks at goes by the multibuffer state, the window and the low bits of the count. -/
theorem looks_congr {last last' : Nat} (hlast : ∀ n, differs last n = differs last' n)
    (hmb : S.mb = S'.mb) (ho : S.wObsolete = S'.wObsolete) (ps : List Pass) :
    looks last S ps = looks last' S' ps := by
  induction ps generalizing last last' S S' with
  | nil => rfl
  | cons p ps ih =>
    have hrest : looks S'.mb.mbufseq (S.changes p.changes) ps =
        looks S'.mb.mbufseq (S'.changes p.changes) ps :=
      ih (fun _ => rfl) (by rw [Shared.changes_mb, Shared.changes_mb, hmb])
        (Shared.changes_wObsolete ho _)
    rw [looks, looks, ho, hlast, hmb, hrest]

/-- The loop looks at a state in every pass in which the count is another one. -/
theorem syncLoop_seen {mbSync : Sync → Alloc → Option Sync} {attrs : Sync → Pass → Option Sync}
    {syncAgain : Sync → Option Bool} {I : Sync → Prop}
    (hpass : ∀ x y z p, I x → mbSync x p.alloc = some y → attrs y p = some z →
      I z ∧ Passed b x z p)
    (hobs : ∀ x, I x → I { x with c := x.c.mark fun k => { k with zombie := true } })
    {ps : List Pass} (hx : I x) (e : syncLoop mbSync attrs syncAgain x ps = some y) :
    I y ∧ Seen b x.c (looks x.last.mbufseq x.sh ps) y.c := by
  induction ps generalizing x with
  | nil => cases e
  | cons p ps ih =>
    unfold syncLoop at e
    rw [looks]
    split at e
    case isTrue ho =>
      cases e
      rw [if_pos ho]
      exact ⟨hobs x hx, .nil rfl rfl⟩
    case isFalse ho =>
      rw [if_neg ho]
      simp only [Option.bind_eq_bind, Option.bind_eq_some_iff] at e
      obtain ⟨x1, h1, x2, h2, again, -, e⟩ := e
      obtain ⟨hx2, hp⟩ := hpass x x1 x2 p hx h1 h2
      have hrest : looks x2.last.mbufseq x2.sh ps =
          looks x.sh.mb.mbufseq (x.sh.changes p.changes) ps :=
        looks_congr hp.last (hp.mb.trans (Shared.changes_mb _ _).symm) hp.obsolete ps
      split at e
      · obtain ⟨hy, hs⟩ := ih hx2 e
        rw [hrest] at hs
        exact ⟨hy, hp.seen.trans hs⟩
      · split at e
        case isTrue hps =>
          cases e
          rw [List.isEmpty_iff.1 hps]
          refine ⟨hx2, ?_⟩
          rw [looks, List.append_nil]
          exact hp.seen
        case isFalse => cases e

/-! ## Windows -/

/-- The multibuffer part of a window's pass. -/
theorem winMbUpdate_seen {a : Alloc} (e : winMbUpdate c S a = some (c', S')) :
    c'.flags = c.flags.look (S.mb, a) ∧ c'.changeMask.mbufset = true ∧
      (S'.mb, S'.wObsolete) = (S.mb, S.wObsolete) := by
  have hflags : c'.flags = c.flags.look (S.mb, a) ∧
      (S'.mb, S'.wObsolete) = (S.mb, S.wObsolete) := by
    obtain ⟨mask, notes, w, rfl, -, rfl⟩ := winMbUpdate_eq e
    exact ⟨syncMbufset_flags c S.mb a, rfl⟩
  refine ⟨hflags.1, ?_, hflags.2⟩
  simp only [winMbUpdate, Option.bind_eq_bind, Option.bind_eq_some_iff] at e
  obtain ⟨k, -, e⟩ := e
  split at e
  · cases e
    rfl
  · cases e
    rfl
  · cases e

theorem winMbSync_seen {a : Alloc} (e : winMbSync x a = some y) : MbSeen (-1) x y a := by
  unfold winMbSync at e
  split at e
  case isTrue hd =>
    simp only [Option.bind_eq_bind, Option.bind_eq_some_iff] at e
    obtain ⟨⟨c', sh⟩, hu, e⟩ := e
    cases e
    obtain ⟨hflags, hset, hshared⟩ := winMbUpdate_seen hu
    rw [Prod.mk.injEq] at hshared
    refine ⟨⟨?_, ?_⟩, ?_, fun n => ?_⟩
    · rw [Sync.look, if_pos hd]
      exact hflags
    · rw [Sync.look, if_pos hd]
      exact ⟨fun _ => .inr ⟨_, .head _, .inl rfl⟩, fun _ => hset⟩
    · rw [hshared.1, hshared.2]
    · rw [hshared.1]
  case isFalse hd =>
    cases e
    refine ⟨?_, rfl, fun n => ?_⟩
    · rw [Sync.look, if_neg hd]
      exact .nil rfl rfl
    · rw [Bool.not_eq_true, differs_eq_false] at hd
      rw [differs, differs, hd]

/-- A window's loop. -/
theorem winLoop_seen {ps : List Pass} (e : winLoop x (-1) ps = some y) :
    Seen (-1) x.c (looks x.last.mbufseq x.sh ps) y.c :=
  (syncLoop_seen (I := fun _ => True)
    (fun _ _ _ _ _ h1 h2 =>
      ⟨trivial, (winMbSync_seen h1).passed (winAttrs_synced h2) (winAttrs_steady h2)⟩)
    (fun _ _ => trivial) trivial e).2

/-! ## Buffers -/

theorem syncMbufset_mbufset (c : Client) (m : MbState) (a : Alloc) :
    (syncMbufset c m a).changeMask.mbufset = c.changeMask.mbufset := by
  unfold syncMbufset
  split
  · rfl
  · dsimp only
    split
    · rfl
    · cases mbufsetCreate m a <;> rfl

/-- The multibuffer part of a buffer's pass: the buffer is one of the set, or a zombie. -/
theorem mbufMbUpdate_seen {a : Alloc} (hr : c.rLockSubj = b) (hne : b ≠ -1)
    (e : mbufMbUpdate c S a = some (c', S')) :
    c'.flags = c.flags.look (S.mb, a) ∧ c'.rLockSubj = b ∧
      (S'.mb, S'.wObsolete) = (S.mb, S.wObsolete) ∧
      (c'.changeMask.mbufset = true ∧ c'.pMbs.isSome = true ∧ b < S.mb.numberBuffers ∨
        c'.changeMask.mbufset = c.changeMask.mbufset ∧ c'.eLockSubj = c.eLockSubj ∧
          (c'.pMbs.isSome = true → ¬ b < S.mb.numberBuffers)) := by
  have hframe := (syncMbufset_frame c S.mb a).1
  rw [Prod.mk.injEq, Prod.mk.injEq] at hframe
  have hflags : c'.flags = c.flags.look (S.mb, a) ∧ c'.rLockSubj = b ∧
      (S'.mb, S'.wObsolete) = (S.mb, S.wObsolete) := by
    obtain ⟨mask, notes, w, rfl, -, e', rfl, -⟩ := mbufMbUpdate_eq e
    exact ⟨syncMbufset_flags c S.mb a, hframe.1.trans hr, rfl⟩
  refine ⟨hflags.1, hflags.2.1, hflags.2.2, ?_⟩
  have hmask := syncMbufset_mbufset c S.mb a
  unfold mbufMbUpdate at e
  generalize syncMbufset c S.mb a = c1 at *
  dsimp only at e
  rw [hframe.1, hr] at e
  split at e
  case isTrue hz =>
    cases e
    refine .inr ⟨hmask, hframe.2.1, fun hs hlt => ?_⟩
    have hnone : c1.pMbs.isNone = false := by
      rw [← Option.not_isSome]
      exact congrArg not hs
    rw [hnone, Bool.false_or, Bool.and_eq_true, decide_eq_true_eq] at hz
    omega
  case isFalse hz =>
    simp only [Bool.or_eq_true, Bool.and_eq_true, bne_iff_ne, decide_eq_true_eq, not_or,
      not_and, Option.isNone_iff_eq_none] at hz
    obtain ⟨mask, notes, w, heq, -⟩ := mbufSyncLockSubj_eq c1 S
    simp only [Option.bind_eq_bind, Option.bind_eq_some_iff, heq] at e
    obtain ⟨k, -, e⟩ := e
    have hset : c'.changeMask.mbufset = true ∧ c'.pMbs = c1.pMbs := by
      split at e <;> cases e <;> exact ⟨rfl, rfl⟩
    refine .inl ⟨hset.1, ?_, Int.not_le.1 (hz.2 hne)⟩
    rw [hset.2]
    exact Option.isSome_iff_ne_none.2 hz.1

/-- In a buffer's loop: the lock subject is the buffer itself, and there is a set, until the set is
reported. -/
structure Unreported (b : Int) (x : Sync) : Prop where
  rLockSubj : x.c.rLockSubj = b
  subject : x.c.eLockSubj = b ∨ x.c.changeMask.mbufset = true
  set : x.c.pMbs.isSome = true ∨ x.c.changeMask.mbufset = true

theorem recordMbufseq_flags (c : Client) (addr : Nat) (b : Int) (n : Nat) :
    (c.recordMbufseq addr b n).flags = c.flags := by
  unfold Client.flags Client.recordMbufseq
  rw [Option.isSome_map]

theorem mbufMbSync_seen {addr : Nat} {a : Alloc} (hx : Unreported b x) (hne : b ≠ -1)
    (e : mbufMbSync x addr b a = some y) :
    y.c.rLockSubj = b ∧ (y.c.eLockSubj = b ∨ y.c.changeMask.mbufset = true) ∧
      (y.c.pMbs.isSome = true ∨ y.c.changeMask.mbufset = true → MbSeen b x y a) := by
  unfold mbufMbSync at e
  split at e
  case isTrue hd =>
    simp only [Option.bind_eq_bind, Option.bind_eq_some_iff] at e
    obtain ⟨⟨c', sh⟩, hu, e⟩ := e
    cases e
    obtain ⟨hflags, hr, hshared, hset⟩ := mbufMbUpdate_seen hx.rLockSubj hne hu
    rw [Prod.mk.injEq] at hshared
    have hrecord := recordMbufseq_flags c' addr b sh.mb.mbufseq
    refine ⟨hr, ?_, fun hs => ⟨⟨?_, ?_⟩, ?_, fun n => ?_⟩⟩
    · rcases hset with ⟨hm, -⟩ | ⟨hm, he, -⟩
      · exact .inr hm
      · rcases hx.subject with hb | hm'
        · exact .inl (he.trans hb)
        · exact .inr (hm.trans hm')
    · rw [Sync.look, if_pos hd, hrecord]
      exact hflags
    · rw [Sync.look, if_pos hd]
      simp only [List.mem_singleton, exists_eq_left, hne, false_or]
      rw [show (c'.recordMbufseq addr b sh.mb.mbufseq).pMbs.isSome = c'.pMbs.isSome from
        congrArg Flags.present hrecord] at hs
      rcases hset with ⟨hm, -, hlt⟩ | ⟨hm, -, hout⟩
      · exact ⟨fun _ => .inr hlt, fun _ => hm⟩
      · refine ⟨fun h => .inl (hm.symm.trans h), fun h => ?_⟩
        rcases h with h | hlt
        · exact hm.trans h
        · exact hs.resolve_left fun hp => hout hp hlt
    · rw [hshared.1, hshared.2]
    · rw [hshared.1]
  case isFalse hd =>
    cases e
    refine ⟨hx.rLockSubj, hx.subject, fun _ => ⟨?_, rfl, fun n => ?_⟩⟩
    · rw [Sync.look, if_neg hd]
      exact .nil rfl rfl
    · rw [Bool.not_eq_true, differs_eq_false] at hd
      rw [differs, differs, hd]

/-- A buffer that has no set any more is an alias of the window, or it has no attributes. -/
theorem mbufAttrs_set {p : Pass} (h0 : 0 ≤ b) (e : mbufAttrs x b p = some y)
    (hx : x.c.eLockSubj = b ∨ x.c.changeMask.mbufset = true) :
    x.c.pMbs.isSome = true ∨ x.c.changeMask.mbufset = true := by
  simp only [mbufAttrs, Option.bind_eq_bind, Option.bind_eq_some_iff] at e
  obtain ⟨k, hk, -⟩ := e
  exact hx.imp_left fun he => isSome_of_kind (he ▸ hk) h0

/-- A buffer's loop. -/
theorem mbufLoop_seen {addr : Nat} {ps : List Pass} (h0 : 0 ≤ b) (hx : Unreported b x)
    (e : mbufLoop x addr b ps = some y) :
    Unreported b y ∧ Seen b x.c (looks x.last.mbufseq x.sh ps) y.c := by
  have hne : b ≠ -1 := by omega
  refine syncLoop_seen (I := Unreported b) (fun x y z p hx h1 h2 => ?_)
    (fun x hx => ⟨hx.rLockSubj, hx.subject, hx.set⟩) hx e
  obtain ⟨hr, hsubj, hseen⟩ := mbufMbSync_seen hx hne h1
  have hset := mbufAttrs_set h0 h2 hsubj
  have hs := mbufAttrs_synced h2
  have ht := mbufAttrs_steady h2
  have hm : z.c.changeMask.mbufset = y.c.changeMask.mbufset := congrArg Prod.snd ht.flag
  refine ⟨⟨?_, ?_, ?_⟩, (hseen hset).passed hs ht⟩
  · exact (congrArg (·.1) hs.client.subject).trans hr
  · rw [hs.client.eLockSubj, hm]
    exact hsubj
  · rw [hs.client.isSome, hm]
    exact hset

/-! ## A whole update -/

/-- An update of the drawable `b` that looked at the states `before` before its loop and at `inLoop`
in it comes to `dgai_mbsmemb_notify`. -/
structure Notified (b : Int) (c : Client) (before inLoop : List (MbState × Alloc)) (c' : Client) :
    Prop where
  flags : c'.flags = (before ++ inLoop).foldl Flags.look c.flags
  mbufset : c'.changeMask.mbufset = true ↔ ∃ l ∈ inLoop, b = -1 ∨ b < l.1.numberBuffers
  set : c'.changeMask.mbufset = false → c.pMbs.isSome = true → c'.pMbs.isSome = true

theorem winNotified_spec {ps : List Pass} (e : winNotified c S (-1) ps = some (c', S')) :
    Notified (-1) c [] (looks c.cMbufseq S ps) c' := by
  simp only [winNotified, Option.bind_eq_bind, Option.bind_eq_some_iff] at e
  obtain ⟨x, hloop, c1, h1, c2, h2, e⟩ := e
  cases e
  have hseen := (winLoop_seen hloop).keeps
    ((devinfoUpdate_keeps h1).trans (figureDerivChgs_keeps h2))
    ((figureDerivChgs_flag h2).trans (devinfoUpdate_flag h1))
  have hmask : c'.changeMask.mbufset = true ↔
      ∃ l ∈ looks c.cMbufseq S ps, (-1 : Int) = -1 ∨ -1 < l.1.numberBuffers :=
    hseen.mbufset.trans (or_iff_right (by simp))
  refine ⟨hseen.flags, hmask, fun hm hs => ?_⟩
  have hnone : looks c.cMbufseq S ps = [] := by
    rw [List.eq_nil_iff_forall_not_mem]
    intro l hl
    rw [hmask.2 ⟨l, hl, .inl rfl⟩] at hm
    cases hm
  have hflags := hseen.flags
  dsimp only [winGetLastSeqs] at hflags
  rw [hnone] at hflags
  exact (congrArg Flags.present hflags).trans hs

/-- The composition changes that are noticed before the loop. -/
theorem mbufPresync_flags (hne : b ≠ -1) (c : Client) (m : MbState) (a : Alloc) :
    (mbufPresync c m a).flags = (presyncLooks c m b a).foldl Flags.look c.flags := by
  unfold mbufPresync presyncLooks
  rw [decide_eq_true hne, Bool.true_and]
  split
  · exact syncMbufset_flags c m a
  · rfl

theorem mbufNotified_spec {u : Script} (h0 : 0 ≤ b) (h16 : b < maxGrabbableBufs)
    (hr : c.rLockSubj = b) (he : c.eLockSubj = b)
    (e : mbufNotified c S b u.alloc u.passes = some (c', S')) :
    Notified b c (presyncLooks c S.mb b u.alloc) (looks (c.record S.mb b u) S u.passes) c' := by
  have hne : b ≠ -1 := by omega
  simp only [mbufNotified, Option.bind_eq_bind, Option.bind_eq_some_iff] at e
  obtain ⟨s, hs, x, hloop, c1, h1, c2, h2, e⟩ := e
  cases e
  have hframe := mbufPresync_frame c S.mb u.alloc
  rw [Prod.mk.injEq, Prod.mk.injEq] at hframe
  have hpre := mbufPresync_flags hne c S.mb u.alloc
  have hrecord : s.seqs b = c.record S.mb b u := record_of_presync h0 h16 hs
  generalize mbufPresync c S.mb u.alloc = c3 at *
  obtain ⟨hx, hseen⟩ := mbufLoop_seen h0
    ⟨hframe.1.trans hr, .inl (hframe.2.1.trans he), .inl (by rw [hs]; rfl)⟩ hloop
  have hkeeps := (devinfoUpdate_keeps h1).trans (mbufFigureDerivChgs_keeps h2)
  have hflag := (mbufFigureDerivChgs_flag h2).trans (devinfoUpdate_flag h1)
  have hseen := hseen.keeps hkeeps hflag
  dsimp only [mbufGetLastSeqs] at hseen
  rw [hrecord] at hseen
  refine ⟨?_, hseen.mbufset.trans (or_iff_right (by simp)), fun hm _ => ?_⟩
  · rw [List.foldl_append, ← hpre]
    exact hseen.flags
  · rw [hkeeps.isSome]
    refine hx.set.resolve_right fun hset => ?_
    have hset' : c'.changeMask.mbufset = true := (congrArg Prod.snd hflag).trans hset
    rw [hset'] at hm
    cases hm

/-- An update that synchronizes, up to its notifications. -/
theorem mbsmembNotified_spec {u : Script} (h1 : -1 ≤ b) (h16 : b < maxGrabbableBufs)
    (e : mbsmembNotified c S b u = some (c', S')) :
    Notified b c (presyncLooks c S.mb b u.alloc) (looks (c.record S.mb b u) S u.passes) c' := by
  unfold mbsmembNotified at e
  dsimp only at e
  split at e
  case isTrue hb =>
    subst hb
    have h := winNotified_spec e
    exact ⟨h.flags, h.mbufset, h.set⟩
  case isFalse hb =>
    have h := mbufNotified_spec (by omega) h16 rfl rfl e
    exact ⟨h.flags, h.mbufset, h.set⟩

theorem winUpdate_notified {ps : List Pass} (e : winUpdate c S b ps = some (c', S')) :
    ∃ c2 S2, winNotified c S b ps = some (c2, S2) ∧ c'.pMbs.isSome = c2.pMbs.isSome := by
  simp only [winUpdate, Option.bind_eq_bind, Option.bind_eq_some_iff] at e
  obtain ⟨x, hloop, c1, h1, c2, h2, e⟩ := e
  refine ⟨c2, x.sh, ?_, ?_⟩
  · simp only [winNotified, Option.bind_eq_bind, Option.bind_eq_some_iff]
    exact ⟨x, hloop, c1, h1, c2, h2, rfl⟩
  · split at e
    · cases e
      exact (notify_keeps c2).isSome
    · cases e
      exact (notify_keeps c2).isSome

theorem mbufUpdate_notified {a : Alloc} {ps : List Pass}
    (e : mbufUpdate c S b a ps = some (c', S')) :
    ∃ c2 S2, mbufNotified c S b a ps = some (c2, S2) ∧ c'.pMbs.isSome = c2.pMbs.isSome := by
  simp only [mbufUpdate, Option.bind_eq_bind, Option.bind_eq_some_iff] at e
  obtain ⟨s, hs, x, hloop, c1, h1, c2, h2, e⟩ := e
  cases e
  refine ⟨c2, x.sh, ?_, (notify_keeps c2).isSome⟩
  simp only [mbufNotified, Option.bind_eq_bind, Option.bind_eq_some_iff]
  exact ⟨s, hs, x, hloop, c1, h1, c2, h2, rfl⟩

/-- The notifications leave the set as it is. -/
theorem mbsmembSync_notified {u : Script} (e : mbsmembSync c S b u = some (c', S')) :
    ∃ c2 S2, mbsmembNotified c S b u = some (c2, S2) ∧ c'.pMbs.isSome = c2.pMbs.isSome := by
  unfold mbsmembSync at e
  unfold mbsmembNotified
  dsimp only at e ⊢
  split at e
  case isTrue hb =>
    rw [if_pos hb]
    exact winUpdate_notified e
  case isFalse hb =>
    rw [if_neg hb]
    exact mbufUpdate_notified e

/-! ## The reason -/

theorem Client.Finds.notifySiteChg {r : MbReason} (h : c.Finds r) :
    (notifySiteChg c).Finds r := by
  unfold Phase.notifySiteChg
  split
  · exact ⟨fun hn => .tail _ (h.told hn), h.found⟩
  · exact h

theorem Client.Finds.notifyOvlState {r : MbReason} (h : c.Finds r) :
    (notifyOvlState c).Finds r := by
  unfold Phase.notifyOvlState
  split
  · exact ⟨fun hn => .tail _ (h.told hn), h.found⟩
  · exact h

/-- A reason that is not unknown reaches the client. -/
theorem notify_finds {r : MbReason} (h : c.given = some r) (hr : r ≠ .unknown) :
    (notify c).Finds r := by
  unfold Client.given at h
  split at h
  case isFalse => cases h
  case isTrue hm =>
    cases h
    have hmb : (notifyMbChg c).Finds (mbReason c.prevWasMbuffered c.pMbs.isSome) := by
      unfold notifyMbChg
      dsimp only
      rw [if_neg hr]
      split
      case isTrue hn => exact ⟨fun _ => .head _, fun hn' => absurd hn (Bool.eq_false_iff.1 hn')⟩
      case isFalse hn => exact ⟨fun hn' => absurd hn' hn, fun _ => ⟨rfl, hm⟩⟩
    unfold notify
    rw [if_pos hm]
    dsimp only
    split
    · split
      · exact hmb.notifySiteChg.notifyOvlState
      · exact hmb.notifySiteChg
    · split
      · exact hmb.notifyOvlState
      · exact hmb

/-- An update that does not return at once tells the right reason iff it has the flag right. -/
theorem right_iff {σ τ : Sys} {l : Op × MbTold} (h : σ.TellStep l τ) :
    l.2.Right ↔ σ.Tells l.1 := by
  obtain ⟨o, t⟩ := l
  obtain ⟨hstep, ht⟩ := h
  dsimp only at hstep ht
  subst ht
  cases o with
  | change ch =>
    obtain ⟨-, rfl⟩ := hstep
    exact iff_of_true (right_of_none id) trivial
  | other c =>
    obtain ⟨hsame, rfl⟩ := hstep
    refine iff_of_true (right_of_none ?_) trivial
    rw [hsame.pMbs]
    exact id
  | update dgaMTOn b u =>
    obtain ⟨h1, h16, -, -, mask, e⟩ := hstep
    rcases mbsmembUpdate_cases e with ⟨he, hsame⟩ | ⟨he, c, hsync, -, hc⟩
    · have hgiven : σ.given (.update dgaMTOn b u) = none := by
        rw [Sys.given, he.1, he.2]
        rfl
      rw [hgiven, hsame]
      exact iff_of_true (right_of_none id) fun hn => absurd he hn
    · obtain ⟨c2, S2, hn, hsome⟩ := mbsmembSync_notified hsync
      have hspec := mbsmembNotified_spec h1 h16 hn
      have hafter : τ.c.pMbs.isSome = c2.pMbs.isSome := by
        rw [hc, ← hsome]
        split <;> rfl
      have hgiven : σ.given (.update dgaMTOn b u) = c2.given := by
        have hearly : ¬ (dgaMTOn && !differs (σ.c.shadowChngcnt (b + 1)) σ.sh.chngcnt) = true := by
          rwa [Bool.and_eq_true, Bool.not_eq_true']
        rw [Sys.given, if_neg hearly, hn]
        rfl
      rw [hgiven, hafter, Client.given]
      by_cases hm : c2.changeMask.mbufset = true
      case neg =>
        rw [if_neg hm]
        rw [Bool.not_eq_true] at hm
        refine iff_of_true (right_of_none (hspec.set hm)) fun _ hl => ?_
        rw [hspec.mbufset.2 hl] at hm
        cases hm
      case pos =>
        have hprev : c2.prevWasMbuffered = _ := congrArg Flags.prev hspec.flags
        rw [if_pos hm, right_iff_flag, hprev, ← flagRight_iff]
        exact ⟨fun hf _ _ => hf, fun hf => hf he (hspec.mbufset.1 hm)⟩

/-! ## Runs -/

/-- What is known after a run: the reasons were right, an activation does not follow another, and
the client has a set if it was told of an activation last. -/
structure History (ls : List (Op × MbTold)) (σ : Sys) : Prop where
  right : ∀ l ∈ ls, l.2.Right
  chain : (switches ls).IsChain fun r r' => ¬ (r = .activation ∧ r' = .activation)
  last : (switches ls).getLast? = some .activation → σ.c.pMbs.isSome = true

theorem switches_snoc (ls : List (Op × MbTold)) (l : Op × MbTold) :
    switches (ls ++ [l]) = switches ls ++ switches [l] := by
  rw [switches, List.filterMap_append, List.filter_append]
  rfl

/-- A step adds at most its own reason. -/
theorem switches_one (l : Op × MbTold) :
    switches [l] = [] ∧ l.2.reason ≠ some .deactivation ∨
      ∃ r, switches [l] = [r] ∧ l.2.reason = some r := by
  obtain ⟨o, before, after, reason⟩ := l
  cases reason with
  | none => exact .inl ⟨rfl, nofun⟩
  | some r =>
    cases r with
    | unknown => exact .inl ⟨rfl, nofun⟩
    | replacement => exact .inl ⟨rfl, nofun⟩
    | activation => exact .inr ⟨_, rfl, rfl⟩
    | deactivation => exact .inr ⟨_, rfl, rfl⟩

/-- A step whose reason is right extends the history. -/
theorem History.snoc {σ τ : Sys} {ls : List (Op × MbTold)} {l : Op × MbTold} (h : History ls σ)
    (hstep : σ.TellStep l τ) (hr : l.2.Right) : History (ls ++ [l]) τ := by
  have hbefore : l.2.before = σ.c.pMbs.isSome := by rw [hstep.2]
  have hafter : l.2.after = τ.c.pMbs.isSome := by rw [hstep.2]
  have hone := switches_one l
  refine ⟨?_, ?_, ?_⟩
  · intro l' hl'
    rcases List.mem_append.1 hl' with hl' | hl'
    · exact h.right l' hl'
    · rw [List.mem_singleton.1 hl']
      exact hr
  · rw [switches_snoc]
    rcases hone with ⟨hnone, -⟩ | ⟨r, hsw, hreason⟩
    · rw [hnone, List.append_nil]
      exact h.chain
    · rw [hsw, List.isChain_append]
      refine ⟨h.chain, .singleton _, ?_⟩
      rintro r1 h1 r2 h2 ⟨rfl, rfl⟩
      cases h2
      have hfalse := (hr.activation hreason).1
      rw [hbefore, h.last h1] at hfalse
      cases hfalse
  · rw [switches_snoc]
    rcases hone with ⟨hnone, hne⟩ | ⟨r, hsw, hreason⟩
    · rw [hnone, List.append_nil]
      intro hlast
      by_contra hgone
      rw [Bool.not_eq_true, ← hafter] at hgone
      exact hne (hr.deactivation.2 ⟨hbefore.trans (h.last hlast), hgone⟩)
    · rw [hsw, List.getLast?_append]
      intro hlast
      cases hlast
      rw [← hafter]
      exact (hr.activation hreason).2

/-- **The reason for a multibuffer change.** In a run whose updates have the flag right, every
reason compares the start of its update with the end, no deactivation goes untold, and between two
activations that the client is told of it is told of a deactivation. -/
theorem mbReason_run {σ τ : Sys} {ls : List (Op × MbTold)}
    (h : Run (fun σ l τ => Sys.TellStep σ l τ ∧ Sys.Tells σ l.1) σ ls τ) :
    (∀ l ∈ ls, l.2.Right) ∧
      (switches ls).IsChain fun r r' => ¬ (r = .activation ∧ r' = .activation) := by
  have hinv : History ls τ := by
    refine h.history (P := History) ⟨fun _ hl => (by cases hl), .nil, fun hl => (by cases hl)⟩ ?_
    intro ls' ρ l υ hi hs
    exact hi.snoc hs.1 ((right_iff hs.1).2 hs.2)
  exact ⟨hinv.right, hinv.chain⟩

/-- The window without buffers after its grab. -/
def plainGrab : Sys :=
  ⟨(winInitMbufset (grabClient plainWindow false false 0 0) plainWindow.mb fresh).get rfl,
    plainWindow⟩

/-- The window gets two buffers. -/
def activate : Change := .mbuf true videoWindow.mb

/-- The change and the next lock, which tells of the activation. -/
def activation : List (Op × MbTold) :=
  [(.change activate, ⟨false, false, none⟩),
    (.update false (-1) onePass, ⟨false, true, some .activation⟩)]

theorem activate_step : plainGrab.TellStep (.change activate, ⟨false, false, none⟩)
    (plainGrab.changed activate) :=
  ⟨⟨⟨fun _ => by decide, nofun, trivial⟩, rfl⟩, rfl⟩

theorem activate_locked : (plainGrab.changed activate).TellStep
    (.update false (-1) onePass, ⟨false, true, some .activation⟩)
    (plainGrab.changed activate).locked :=
  ⟨Sys.locked_step rfl rfl, rfl⟩

/-- The reasons given for an activation are right. -/
theorem mbReason_run_activate : (∀ l ∈ activation, l.2.Right) ∧
    (switches activation).IsChain fun r r' => ¬ (r = .activation ∧ r' = .activation) := by
  have hflag : (plainGrab.changed activate).Tells (.update false (-1) onePass) := fun _ _ => rfl
  exact mbReason_run (.snoc (.snoc .nil ⟨activate_step, trivial⟩) ⟨activate_locked, hflag⟩)

/-- Then the displayed buffer changes, and the client is told of an activation again. -/
theorem mbReason_activates_twice : ¬ ∀ (S : Shared) (cursPage isOverlay : Bool) (cOvlstate : Int)
    (rtnseqWord : Nat) (a : Alloc) (c : Client) (ls : List (Op × MbTold)) (σ : Sys), S.mb.Ok →
    winInitMbufset (grabClient S cursPage isOverlay cOvlstate rtnseqWord) S.mb a = some c →
    Run Sys.TellStep ⟨c, S⟩ ls σ → ∀ l ∈ ls, l.2.Right := by
  intro h
  have h3 : (plainGrab.changed activate).locked.TellStep
      (.change displayOther, ⟨true, true, none⟩)
      ((plainGrab.changed activate).locked.changed displayOther) :=
    ⟨⟨⟨fun _ => by decide, fun _ => ⟨rfl, rfl⟩, trivial⟩, rfl⟩, rfl⟩
  have h4 : ((plainGrab.changed activate).locked.changed displayOther).TellStep
      (.update false (-1) onePass, ⟨true, true, some .activation⟩)
      ((plainGrab.changed activate).locked.changed displayOther).locked :=
    ⟨Sys.locked_step rfl rfl, rfl⟩
  have hrun := Run.snoc (.snoc (.snoc (.snoc .nil activate_step) activate_locked) h3) h4
  have hbad := h plainWindow false false 0 0 fresh plainGrab.c _ _ ⟨nofun, by decide⟩ rfl hrun _
    (.tail _ (.tail _ (.tail _ (.head _))))
  cases (hbad.activation rfl).1

end Dga.Phase
