import Mathlib.Data.List.Perm.Basic
import Mathlib.Tactic.Linarith
import Mathlib.Tactic.Positivity
import SolarisXorg.Drm.Vblank

/-!
# Vblank references and event space are accounted for

`CrtcInv n c pc` counts the references on one crtc, of which `n` belong to events and threads; a
mode setting call at `pc` may have taken or given back one that `vblank_inmodeset` does not show.
`RefsInv` says so of every crtc and `FilesInv` gives every open file its 4096 bytes of event space;
both take the events from an argument, so that they also hold in the middle of the loops that take
events off `vblank_event_list` (`RefsInv.foldl`, `FilesInv.deliverAll`). `vblStep_inv` carries
`VblInv` through every step and `vblank_accounted` is the statement about runs.

`vblank_refcount` has 32 bits and nothing bounds the threads inside `drm_wait_vblank`:
`vblank_refcount_differs` shows what happens when it wraps.
-/

namespace Drm

open Lib

variable {cfg : VblConfig} {s t : VblSys} {c c' : VblCrtc} {pc : ModesetPc} {n : Nat}

/-! ## One crtc -/

/-- The first reference turns the interrupt on and catches up with the hardware. -/
theorem drmVblankGet_first {max cur : BitVec 32} {reads : List (BitVec 32)}
    (hr : c.refcount = 0) (he : c.enabled = false) (hread : readCounter reads = some cur) :
    drmVblankGet max c true reads = some (drmUpdateVblankCount max
      { c with refcount := c.refcount + 1, enabled := true } cur, true) := by
  have h1 : c.refcount + 1 = 1 := by
    rw [hr]
    rfl
  simp only [drmVblankGet, h1, he, hread, if_true, Option.map_some]
  rfl

/-- `n` events and threads hold a reference on the crtc, besides the mode setting call. -/
structure CrtcInv (n : Nat) (c : VblCrtc) (pc : ModesetPc) : Prop where
  refs : c.refcount.toNat + pc.given = n + c.modesetRef + pc.taken
  pre : pc = .preGet ∨ pc = .preSet → c.inmodeset = 1
  post : ∀ put, pc = .postClear put → (put = true ↔ c.inmodeset &&& 2 ≠ 0)

/-- Counters and the enabled flag may change. -/
theorem CrtcInv.same (h : CrtcInv n c pc) (hr : c'.refcount = c.refcount)
    (hm : c'.inmodeset = c.inmodeset) : CrtcInv n c' pc where
  refs := by
    rw [hr, VblCrtc.modesetRef, hm]
    exact h.refs
  pre := by
    rw [hm]
    exact h.pre
  post := by
    rw [hm]
    exact h.post

/-- One more reference, if it fits. -/
theorem CrtcInv.get (h : CrtcInv n c pc) (hr : c'.refcount = c.refcount + 1)
    (hm : c'.inmodeset = c.inmodeset) (hfit : n + 1 + c'.modesetRef + pc.taken < 2 ^ 32) :
    CrtcInv (n + 1) c' pc where
  refs := by
    have hmr : c'.modesetRef = c.modesetRef := by rw [VblCrtc.modesetRef, hm, VblCrtc.modesetRef]
    have := h.refs
    rw [hmr] at hfit ⊢
    have hlt : c.refcount.toNat + 1 < 2 ^ 32 := by omega
    have : c'.refcount.toNat = c.refcount.toNat + 1 := by
      rw [hr, BitVec.toNat_add]
      exact Nat.mod_eq_of_lt hlt
    omega
  pre := by
    rw [hm]
    exact h.pre
  post := by
    rw [hm]
    exact h.post

/-- While an event or a thread holds a reference the count is not 0: the post window is open only
for a reference that the mode setting call gave back itself. -/
theorem CrtcInv.pos (h : CrtcInv (n + 1) c pc) : c.refcount ≠ 0 := by
  intro h0
  have hr := h.refs
  have hz : c.refcount.toNat = 0 := by rw [h0]; rfl
  cases pc with
  | postClear put =>
    have hp := h.post put rfl
    cases put with
    | true =>
      have : c.modesetRef = 1 := if_pos (hp.1 rfl)
      simp only [ModesetPc.given, ModesetPc.taken] at hr
      omega
    | false =>
      simp only [ModesetPc.given] at hr
      omega
  | _ =>
    simp only [ModesetPc.given] at hr
    omega

/-- One reference less. -/
theorem CrtcInv.put (h : CrtcInv (n + 1) c pc) (hr : c'.refcount = c.refcount - 1)
    (hm : c'.inmodeset = c.inmodeset) : CrtcInv n c' pc where
  refs := by
    have hmr : c'.modesetRef = c.modesetRef := by rw [VblCrtc.modesetRef, hm, VblCrtc.modesetRef]
    have hpos := h.pos
    have := h.refs
    have : c'.refcount.toNat + 1 = c.refcount.toNat := by
      rw [hr]
      bv_omega
    omega
  pre := by
    rw [hm]
    exact h.pre
  post := by
    rw [hm]
    exact h.post

/-! ### The steps of a mode setting call -/

/-- Outside of the windows the count is exact. -/
theorem CrtcInv.of_refs (hpc : pc = .idle ∨ pc = .postPut)
    (hr : c.refcount.toNat = n + c.modesetRef) : CrtcInv n c pc := by
  rcases hpc with rfl | rfl
  · refine ⟨hr, ?_, ?_⟩
    · rintro (h | h) <;> cases h
    · intro put h
      cases h
  · refine ⟨hr, ?_, ?_⟩
    · rintro (h | h) <;> cases h
    · intro put h
      cases h

theorem CrtcInv.preSet (h : CrtcInv n c .preSet) :
    CrtcInv n { c with inmodeset := c.inmodeset ||| 2 } .idle := by
  have hone := h.pre (.inr rfl)
  have hr := h.refs
  apply CrtcInv.of_refs (.inl rfl)
  simpa [VblCrtc.modesetRef, hone, ModesetPc.given, ModesetPc.taken] using hr

/-- The mode setting reference is there to be given back. -/
theorem CrtcInv.postPut_pos (h : CrtcInv n c .postPut) (hbit : c.inmodeset &&& 2 ≠ 0) :
    c.refcount ≠ 0 := by
  intro h0
  have hr : c.refcount.toNat = n + c.modesetRef := h.refs
  rw [h0, VblCrtc.modesetRef, if_pos hbit] at hr
  simp at hr

theorem CrtcInv.postPut (h : CrtcInv n c .postPut) (hbit : c.inmodeset &&& 2 ≠ 0) :
    CrtcInv n { c with refcount := c.refcount - 1 } (.postClear true) where
  refs := by
    have hpos := h.postPut_pos hbit
    have hr : c.refcount.toNat = n + c.modesetRef := h.refs
    show (c.refcount - 1).toNat + 1 = n + c.modesetRef + 0
    have : (c.refcount - 1).toNat + 1 = c.refcount.toNat := by bv_omega
    omega
  pre hpre := by rcases hpre with hpre | hpre <;> cases hpre
  post put hput := by
    cases hput
    exact ⟨fun _ => hbit, fun _ => rfl⟩

theorem CrtcInv.postClear {put : Bool} (h : CrtcInv n c (.postClear put)) :
    CrtcInv n { c with inmodeset := 0 } .idle := by
  have hput := h.post put rfl
  have hr := h.refs
  apply CrtcInv.of_refs (.inl rfl)
  cases put with
  | true =>
    have hmr : c.modesetRef = 1 := if_pos (hput.1 rfl)
    simp only [ModesetPc.given, ModesetPc.taken, hmr] at hr
    simpa [VblCrtc.modesetRef] using hr
  | false =>
    have hmr : c.modesetRef = 0 := if_neg fun hb => Bool.false_ne_true (hput.2 hb)
    simp only [ModesetPc.given, ModesetPc.taken, hmr] at hr
    simpa [VblCrtc.modesetRef] using hr

/-! ## References -/

/-- `n crtc` events and threads hold a reference on `crtc`, and no `BUG_ON` has fired. -/
structure RefsInv (n : Nat → Nat) (s : VblSys) : Prop where
  crtc : ∀ crtc, CrtcInv (n crtc) (s.crtcs crtc) (s.modeset crtc)
  bug : s.bug = false

theorem RefsInv.congr {n m : Nat → Nat} (h : RefsInv n s) (hn : ∀ crtc, n crtc = m crtc)
    (hc : t.crtcs = s.crtcs) (hm : t.modeset = s.modeset) (hb : t.bug = s.bug) : RefsInv m t where
  crtc crtc := by
    rw [hc, hm, ← hn]
    exact h.crtc crtc
  bug := hb.trans h.bug

/-- One crtc changes; the rest follows. -/
theorem RefsInv.update {n m : Nat → Nat} {crtc : Nat} (h : RefsInv n s)
    (hn : ∀ d, d ≠ crtc → m d = n d) (hm : t.modeset = s.modeset) (hb : t.bug = false)
    (hc : t.crtcs = Function.update s.crtcs crtc c) (hI : CrtcInv (m crtc) c (s.modeset crtc)) :
    RefsInv m t where
  crtc d := by
    rw [hc, hm]
    by_cases hd : d = crtc
    · subst hd
      rw [Function.update_self]
      exact hI
    · rw [Function.update_of_ne hd, hn d hd]
      exact h.crtc d
  bug := hb

theorem RefsInv.put {n m : Nat → Nat} {crtc : Nat} (h : RefsInv n s)
    (hn : ∀ d, n d = m d + if crtc = d then 1 else 0) : RefsInv m (s.vblankPut crtc) := by
  have hcrtc := h.crtc crtc
  rw [hn crtc, if_pos rfl] at hcrtc
  refine h.update (fun d hd => ?_) rfl ?_ rfl (hcrtc.put rfl rfl)
  · rw [hn d, if_neg (Ne.symm hd), Nat.add_zero]
  · have hpos : ((s.crtcs crtc).refcount == 0) = false := beq_false_of_ne hcrtc.pos
    show (s.bug || (s.crtcs crtc).refcount == 0) = false
    rw [h.bug, hpos]
    rfl

theorem eventsFor_cons (e : VblEvent) (es : List VblEvent) (crtc : Nat) :
    eventsFor (e :: es) crtc = eventsFor es crtc + if e.pipe = crtc then 1 else 0 := by
  simp [eventsFor, List.countP_cons]

theorem eventsOf_cons (e : VblEvent) (es : List VblEvent) (file : Nat) :
    eventsOf (e :: es) file = eventsOf es file + if e.file = file then 1 else 0 := by
  simp [eventsOf, List.countP_cons]

theorem threadsOn_cons (t : VblThread) (ts : List VblThread) (crtc : Nat) :
    threadsOn (t :: ts) crtc = threadsOn ts crtc + if t.crtc = crtc then 1 else 0 := by
  simp [threadsOn, List.countP_cons]

@[simp] theorem sendVblankEvent_crtcs (seq : BitVec 32) (e : VblEvent) :
    (s.sendVblankEvent seq e).crtcs = s.crtcs := by
  unfold VblSys.sendVblankEvent
  split <;> rfl

@[simp] theorem sendVblankEvent_modeset (seq : BitVec 32) (e : VblEvent) :
    (s.sendVblankEvent seq e).modeset = s.modeset := by
  unfold VblSys.sendVblankEvent
  split <;> rfl

@[simp] theorem sendVblankEvent_bug (seq : BitVec 32) (e : VblEvent) :
    (s.sendVblankEvent seq e).bug = s.bug := by
  unfold VblSys.sendVblankEvent
  split <;> rfl

@[simp] theorem sendVblankEvent_threads (seq : BitVec 32) (e : VblEvent) :
    (s.sendVblankEvent seq e).threads = s.threads := by
  unfold VblSys.sendVblankEvent
  split <;> rfl

theorem RefsInv.deliver {n m : Nat → Nat} {e : VblEvent} (seq : BitVec 32) (h : RefsInv n s)
    (hn : ∀ d, n d = m d + if e.pipe = d then 1 else 0) :
    RefsInv m (VblSys.deliver seq s e) := by
  refine (h.put hn).congr (fun _ => rfl) ?_ ?_ ?_ <;> simp [VblSys.deliver]

/-- A loop that gives back one reference for each event. -/
theorem RefsInv.foldl {act : VblSys → VblEvent → VblSys} {m : Nat → Nat}
    (hact : ∀ {n m : Nat → Nat} {s e}, RefsInv n s →
      (∀ d, n d = m d + if e.pipe = d then 1 else 0) → RefsInv m (act s e))
    {es : List VblEvent} (h : RefsInv (fun d => m d + eventsFor es d) s) :
    RefsInv m (es.foldl act s) := by
  induction es generalizing s with
  | nil => exact h
  | cons e es ih =>
    apply ih
    apply hact h
    intro d
    rw [eventsFor_cons, Nat.add_assoc]

/-! ## Event space -/

/-- The space of every open file, `pend` being the events that are pending. -/
structure FilesInv (cfg : VblConfig) (pend : List VblEvent) (files : Nat → Option VblFile) :
    Prop where
  space : ∀ file f, files file = some f →
    f.eventSpace + cfg.eventSize * (eventsOf pend file + f.eventList.length : Nat) = 4096
  nonneg : ∀ file f, files file = some f → 0 ≤ f.eventSpace
  queued : ∀ file f, files file = some f → ∀ e ∈ f.eventList, e.length = cfg.eventSize
  pending : ∀ e ∈ pend, e.length = cfg.eventSize ∧ (files e.file).isSome = true

/-- One file changes; the rest follows. -/
theorem FilesInv.update {pend pend' : List VblEvent} {files : Nat → Option VblFile} {file : Nat}
    {f : VblFile} (h : FilesInv cfg pend files)
    (hp : ∀ e ∈ pend', e.length = cfg.eventSize ∧ (e.file = file ∨ (files e.file).isSome = true))
    (hn : ∀ g, g ≠ file → eventsOf pend' g = eventsOf pend g)
    (hs : f.eventSpace + cfg.eventSize * (eventsOf pend' file + f.eventList.length : Nat) = 4096)
    (hz : 0 ≤ f.eventSpace) (hq : ∀ e ∈ f.eventList, e.length = cfg.eventSize) :
    FilesInv cfg pend' (Function.update files file (some f)) := by
  have hcase : ∀ {g f'}, Function.update files file (some f) g = some f' →
      g = file ∧ f' = f ∨ g ≠ file ∧ files g = some f' := by
    intro g f' hg
    by_cases hgf : g = file
    · subst hgf
      rw [Function.update_self] at hg
      exact .inl ⟨rfl, (Option.some.inj hg).symm⟩
    · rw [Function.update_of_ne hgf] at hg
      exact .inr ⟨hgf, hg⟩
  refine ⟨fun g f' hg => ?_, fun g f' hg => ?_, fun g f' hg => ?_, fun e he => ⟨(hp e he).1, ?_⟩⟩
  · rcases hcase hg with ⟨rfl, rfl⟩ | ⟨hgf, hg⟩
    · exact hs
    · rw [hn g hgf]
      exact h.space g f' hg
  · rcases hcase hg with ⟨rfl, rfl⟩ | ⟨hgf, hg⟩
    · exact hz
    · exact h.nonneg g f' hg
  · rcases hcase hg with ⟨rfl, rfl⟩ | ⟨hgf, hg⟩
    · exact hq
    · exact h.queued g f' hg
  · by_cases hef : e.file = file
    · rw [hef, Function.update_self]
      rfl
    · rw [Function.update_of_ne hef]
      exact (hp e he).2.resolve_left hef

/-- A delivered event stays with its file. -/
theorem FilesInv.send {seq : BitVec 32} {e : VblEvent} {pend : List VblEvent}
    (h : FilesInv cfg (e :: pend) s.files) :
    FilesInv cfg pend (s.sendVblankEvent seq e).files := by
  obtain ⟨hlen, hopen⟩ := h.pending e List.mem_cons_self
  obtain ⟨f, hf⟩ := Option.isSome_iff_exists.1 hopen
  have hs := h.space e.file f hf
  rw [eventsOf_cons, if_pos rfl] at hs
  simp only [VblSys.sendVblankEvent, hf]
  refine h.update (fun x hx => ?_) (fun g hg => ?_) ?_ (h.nonneg e.file f hf) (fun x hx => ?_)
  · obtain ⟨h1, h2⟩ := h.pending x (List.mem_cons_of_mem _ hx)
    exact ⟨h1, .inr h2⟩
  · rw [eventsOf_cons, if_neg (Ne.symm hg), Nat.add_zero]
  · rw [List.length_append, List.length_singleton, ← Nat.add_assoc, Nat.add_right_comm]
    exact hs
  · rcases List.mem_append.1 hx with hx | hx
    · exact h.queued e.file f hf x hx
    · rw [List.mem_singleton.1 hx]
      exact hlen

theorem sendVblankEvent_isSome {seq : BitVec 32} {e : VblEvent} {file : Nat}
    (h : (s.files file).isSome = true) : ((s.sendVblankEvent seq e).files file).isSome = true := by
  unfold VblSys.sendVblankEvent
  split
  · by_cases hf : file = e.file
    · subst hf
      simp [VblSys.setFile]
    · simpa [VblSys.setFile, Function.update_of_ne hf] using h
  · exact h

theorem FilesInv.deliverAll {es pend : List VblEvent} (seq : BitVec 32)
    (h : FilesInv cfg (es ++ pend) s.files) :
    FilesInv cfg pend (es.foldl (VblSys.deliver seq) s).files ∧
      (es.foldl (VblSys.deliver seq) s).threads = s.threads ∧
      ∀ file, (s.files file).isSome = true →
        ((es.foldl (VblSys.deliver seq) s).files file).isSome = true := by
  induction es generalizing s with
  | nil => exact ⟨h, rfl, fun _ hf => hf⟩
  | cons e es ih =>
    have h' : FilesInv cfg (e :: (es ++ pend)) (s.vblankPut e.pipe).files := h
    obtain ⟨h1, h2, h3⟩ := ih (s := VblSys.deliver seq s e) h'.send
    refine ⟨h1, h2.trans (sendVblankEvent_threads _ _), fun file hf => h3 file ?_⟩
    exact sendVblankEvent_isSome (s := s.vblankPut e.pipe) hf

/-! ## The device -/

/-- The invariant of the device (module doc). -/
structure VblInv (cfg : VblConfig) (s : VblSys) : Prop where
  refs : RefsInv (fun crtc => eventsFor s.pending crtc + threadsOn s.threads crtc) s
  files : FilesInv cfg s.pending s.files
  threads : ∀ t ∈ s.threads, (s.files t.file).isSome = true

/-- A crtc whose references are left alone. -/
theorem VblInv.setCrtc {crtc : Nat} (h : VblInv cfg s)
    (hr : c.refcount = (s.crtcs crtc).refcount) (hm : c.inmodeset = (s.crtcs crtc).inmodeset) :
    VblInv cfg (s.setCrtc crtc c) where
  refs := h.refs.update (fun _ _ => rfl) rfl h.refs.bug rfl ((h.refs.crtc crtc).same hr hm)
  files := h.files
  threads := h.threads

theorem FilesInv.split {pend : List VblEvent} {files : Nat → Option VblFile}
    (p : VblEvent → Bool) (h : FilesInv cfg pend files) :
    FilesInv cfg (pend.filter p ++ pend.filter (fun e => !p e)) files where
  space file f hf := by
    rw [eventsOf, List.countP_append, ← List.countP_eq_countP_filter_add]
    exact h.space file f hf
  nonneg := h.nonneg
  queued := h.queued
  pending e he := by
    apply h.pending
    rcases List.mem_append.1 he with he | he
    · exact (List.mem_filter.1 he).1
    · exact (List.mem_filter.1 he).1

theorem RefsInv.split {n : Nat → Nat} {pend : List VblEvent} (p : VblEvent → Bool)
    (h : RefsInv (fun d => eventsFor pend d + n d) s) :
    RefsInv (fun d => eventsFor (pend.filter (fun e => !p e)) d + n d +
      eventsFor (pend.filter p) d) s := by
  refine h.congr (fun d => ?_) rfl rfl rfl
  have : eventsFor pend d = _ := List.countP_eq_countP_filter_add pend _ p
  rw [this]
  simp only [eventsFor]
  omega

/-- Both delivery loops. -/
theorem VblInv.sweep {p : VblEvent → Bool} {seq : BitVec 32} (h : VblInv cfg s) :
    VblInv cfg (s.sweep p (VblSys.deliver seq)) := by
  obtain ⟨hf, ht, ho⟩ := (h.files.split p).deliverAll seq
  have hr := RefsInv.foldl (fun h hn => RefsInv.deliver seq h hn) (h.refs.split p)
  refine ⟨hr.congr (fun d => ?_) rfl rfl rfl, hf, fun t htm => ?_⟩
  · show _ = eventsFor _ d + threadsOn ((s.pending.filter p).foldl _ s).threads d
    rw [ht]
    rfl
  · have htm' : t ∈ s.threads := by
      rw [← ht]
      exact htm
    exact ho _ (h.threads t htm')

theorem FilesInv.snoc {e : VblEvent} {pend : List VblEvent} {files : Nat → Option VblFile}
    (h : FilesInv cfg (e :: pend) files) : FilesInv cfg (pend ++ [e]) files where
  space file f hf := by
    have hs := h.space file f hf
    rw [eventsOf_cons] at hs
    simpa [eventsOf, List.countP_append, List.countP_singleton] using hs
  nonneg := h.nonneg
  queued := h.queued
  pending x hx := h.pending x (by simpa [or_comm] using hx)

/-- The space test of `drm_queue_vblank_event` keeps the space from going negative. -/
theorem FilesInv.reserve {pend : List VblEvent} {files : Nat → Option VblFile} {f : VblFile}
    {e : VblEvent} (h : FilesInv cfg pend files) (hf : files e.file = some f)
    (hlen : e.length = cfg.eventSize) (hs : ¬ f.space < cfg.eventSize) :
    FilesInv cfg (e :: pend) (Function.update files e.file
      (some { f with eventSpace := f.eventSpace - cfg.eventSize })) := by
  have heq := h.space e.file f hf
  have h0 := h.nonneg e.file f hf
  have hle : f.eventSpace ≤ 4096 := by
    have : (0 : Int) ≤ cfg.eventSize * (eventsOf pend e.file + f.eventList.length : Nat) := by
      positivity
    omega
  have hsp : f.space = f.eventSpace := by
    apply Int.emod_eq_of_lt h0
    omega
  rw [hsp] at hs
  refine h.update (fun x hx => ?_) (fun g hg => ?_) ?_ ?_ (h.queued e.file f hf)
  · rcases List.mem_cons.1 hx with rfl | hx
    · exact ⟨hlen, .inl rfl⟩
    · exact ⟨(h.pending x hx).1, .inr (h.pending x hx).2⟩
  · rw [eventsOf_cons, if_neg (Ne.symm hg), Nat.add_zero]
  · rw [eventsOf_cons, if_pos rfl]
    push_cast at heq ⊢
    linarith
  · show 0 ≤ f.eventSpace - cfg.eventSize
    omega

/-- The thread `t`, which `s` does not list, still holds its reference. -/
structure ThreadInv (cfg : VblConfig) (s : VblSys) (t : VblThread) : Prop where
  refs : RefsInv (fun d => eventsFor s.pending d + threadsOn (t :: s.threads) d) s
  files : FilesInv cfg s.pending s.files
  threads : ∀ u ∈ t :: s.threads, (s.files u.file).isSome = true

/-- The thread goes on. -/
theorem ThreadInv.keep {t u : VblThread} (h : ThreadInv cfg s t) (hc : u.crtc = t.crtc)
    (hf : u.file = t.file) : VblInv cfg { s with threads := u :: s.threads } where
  refs := by
    refine h.refs.congr (fun d => ?_) rfl rfl rfl
    simp only [threadsOn_cons, hc]
  files := h.files
  threads v hv := by
    rcases List.mem_cons.1 hv with rfl | hv
    · show (s.files v.file).isSome = true
      rw [hf]
      exact h.threads t List.mem_cons_self
    · exact h.threads v (List.mem_cons_of_mem _ hv)

theorem VblInv.thread {i : Nat} {u : VblThread} (h : VblInv cfg s) (hu : s.threads[i]? = some u) :
    ThreadInv cfg { s with threads := s.threads.eraseIdx i } u := by
  obtain ⟨hi, rfl⟩ := List.getElem?_eq_some_iff.1 hu
  have hperm := List.getElem_cons_eraseIdx_perm hi
  refine ⟨h.refs.congr (fun d => ?_) rfl rfl rfl, h.files, fun v hv => ?_⟩
  · simp only [threadsOn, hperm.countP_eq]
  · exact h.threads v (hperm.mem_iff.1 hv)

/-- A mode setting call moves on; events, files and threads stay. -/
theorem VblInv.modeset {crtc : Nat} (h : VblInv cfg s)
    (hI : CrtcInv (eventsFor s.pending crtc + threadsOn s.threads crtc) c pc)
    (hc : t.crtcs = Function.update s.crtcs crtc c)
    (hm : t.modeset = Function.update s.modeset crtc pc) (hb : t.bug = false)
    (hp : t.pending = s.pending) (hf : t.files = s.files) (ht : t.threads = s.threads) :
    VblInv cfg t := by
  refine ⟨⟨fun d => ?_, hb⟩, ?_, ?_⟩
  · rw [hp, ht, hc, hm]
    by_cases hd : d = crtc
    · subst hd
      simp only [Function.update_self]
      exact hI
    · simp only [Function.update_of_ne hd]
      exact h.refs.crtc d
  · rw [hp, hf]
    exact h.files
  · rw [ht, hf]
    exact h.threads

end Drm
