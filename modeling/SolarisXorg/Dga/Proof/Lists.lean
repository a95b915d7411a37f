import Mathlib.Data.List.Forall2
import Mathlib.Data.List.Nodup
import Mathlib.Data.List.Perm.Subperm
import SolarisXorg.Dga.Update

/-!
# What the nodes of grabbed windows stand for

`Lists s ws`: following the pointers, `dga_wlist` has the entries `ws`. `Bookkeeping σ ws` says that
their structures are those the clients hold, each once and under its token, and `Inv` adds what calls
rely on. The search for a window's node splits the entries at it (`Split`), and a node is written
without touching the others (`Split.replace`). What is done to multibuffer sets, and so a whole
update, does not touch the lists (`SameLists`).
-/

namespace Dga

open Lib List

variable {s t : State} {σ : Sys} {p : Nat} {token : Nat} {d : Bool}

/-! ## What multibuffer sets and updates leave alone -/

/-- The same lists of client structures. -/
structure SameLists (s t : State) : Prop where
  wlist : t.dgaWlist = s.dgaWlist
  structs : t.structs = s.structs
  next : ∀ p, t.next p = s.next p
  token : ∀ p, (t.mem p).wToken = (s.mem p).wToken

namespace SameLists

theorem refl (s : State) : SameLists s s := ⟨rfl, rfl, fun _ => rfl, fun _ => rfl⟩

theorem trans {u : State} (h : SameLists s t) (h' : SameLists t u) : SameLists s u :=
  ⟨h'.wlist.trans h.wlist, h'.structs.trans h.structs, fun p => (h'.next p).trans (h.next p),
    fun p => (h'.token p).trans (h.token p)⟩

theorem modify {f : Window → Window} (s : State) (p : Nat)
    (hf : ∀ w, (f w).wNext = w.wNext ∧ (f w).wToken = w.wToken) : SameLists s (s.modify p f) := by
  refine ⟨rfl, rfl, fun q => ?_, fun q => ?_⟩
  · by_cases hq : q = p
    · subst hq
      simp [State.modify, State.write, State.next, hf]
    · simp [State.modify, State.write, State.next, hq]
  · by_cases hq : q = p
    · subst hq
      simp [State.modify, State.write, hf]
    · simp [State.modify, State.write, hq]

theorem mbufsetCreate (s : State) (info : Shinfo) : SameLists s (mbufsetCreate s info).2 := by
  rw [Dga.mbufsetCreate]
  split
  · exact ⟨rfl, rfl, fun _ => rfl, fun _ => rfl⟩
  · exact refl s

theorem mbufsetIncref (s : State) (m : Nat) : SameLists s (mbufsetIncref s m) := by
  rw [Dga.mbufsetIncref]
  split <;> exact ⟨rfl, rfl, fun _ => rfl, fun _ => rfl⟩

theorem mbufsetDecref (s : State) (m : Nat) : SameLists s (mbufsetDecref s m) := by
  rw [Dga.mbufsetDecref]
  split
  · exact ⟨rfl, rfl, fun _ => rfl, fun _ => rfl⟩
  · dsimp only
    split <;> exact ⟨rfl, rfl, fun _ => rfl, fun _ => rfl⟩

theorem releaseMbs (s : State) (p : Nat) : SameLists s (releaseMbs s p) := by
  rw [Dga.releaseMbs]
  split
  · exact refl s
  · exact (mbufsetDecref s _).trans (modify _ _ (by simp))

theorem shareMbs (s : State) (p : Nat) : SameLists s (shareMbs s p) := by
  rw [Dga.shareMbs]
  split
  · exact refl s
  · exact mbufsetIncref s _

theorem winInitMbufset (s : State) (p : Nat) (info : Shinfo) :
    SameLists s (winInitMbufset s p info).2 := by
  rw [Dga.winInitMbufset]
  have hc := mbufsetCreate s info
  split
  · dsimp only
    exact modify _ _ (by simp)
  · split
    all_goals
      rename_i heq
      rw [heq] at hc
      dsimp only at hc ⊢
      exact hc.trans (modify _ _ (by simp))

theorem syncMbufset (s : State) (p : Nat) (info : Shinfo) : SameLists s (syncMbufset s p info) := by
  rw [Dga.syncMbufset]
  split
  · exact refl s
  · have hr : SameLists s ((Dga.releaseMbs s p).modify p
        fun w => { w with cMbcomposseq := info.compositionseq }) :=
      (releaseMbs s p).trans (modify _ _ (by simp))
    dsimp only
    split
    · exact hr
    · exact (hr.trans (mbufsetCreate _ info)).trans (modify _ _ (by simp))

theorem winMbUpdate (s : State) (p : Nat) (info : Shinfo) : SameLists s (winMbUpdate s p info) := by
  rw [Dga.winMbUpdate]
  split
  · exact (syncMbufset s p info).trans (modify _ _ (by simp))
  · exact syncMbufset s p info

theorem mbufMbUpdate (s : State) (p : Nat) (i : Int) (info : Shinfo) :
    SameLists s (mbufMbUpdate s p i info) := by
  rw [Dga.mbufMbUpdate]
  split
  · exact (syncMbufset s p info).trans (modify _ _ (by simp))
  · exact syncMbufset s p info

theorem fault (s : State) (f : Fault) : SameLists s (s.fault f) :=
  ⟨rfl, rfl, fun _ => rfl, fun _ => rfl⟩

theorem touchMbs (s : State) (m : Nat) : SameLists s (touchMbs s m) := by
  rw [Dga.touchMbs]
  split
  · exact refl s
  · exact fault s _

theorem writeMbufseq (s : State) (m : Nat) (i : Int) (n : Nat) :
    SameLists s (writeMbufseq s m i n) := by
  rw [Dga.writeMbufseq]
  split <;> exact ⟨rfl, rfl, fun _ => rfl, fun _ => rfl⟩

theorem syncChanges {i : Int} (h : syncChanges s p i = some t) : SameLists s t := by
  rw [Dga.syncChanges] at h
  split at h
  · obtain ⟨m, -, rfl⟩ := Option.map_eq_some_iff.1 h
    exact touchMbs s m
  · obtain rfl := Option.some.inj h
    exact refl s

theorem winLoop (s : State) (p last : Nat) (passes : List Shinfo) :
    SameLists s (winLoop s p last passes) := by
  induction passes generalizing s last with
  | nil => exact refl s
  | cons info passes ih =>
    rw [Dga.winLoop]
    split
    · exact refl s
    · dsimp only
      have hb : SameLists s (if last ≠ info.mbufseq then
          (Dga.winMbUpdate s p info).modify p fun w => { w with cMbufseq := info.mbufseq }
          else s) := by
        split
        · exact (winMbUpdate s p info).trans (modify _ _ (by simp))
        · exact refl s
      split
      · exact hb.trans (fault _ _)
      · rename_i _ hsync
        exact (hb.trans (syncChanges hsync)).trans (ih _ _)

theorem mbufFigureDerivChgs (s : State) (p : Nat) (i : Int) :
    SameLists s (mbufFigureDerivChgs s p i) := by
  rw [Dga.mbufFigureDerivChgs]
  split
  · exact fault s _
  · rename_i heq
    obtain ⟨t, h1, h2⟩ := Option.bind_eq_some_iff.1 heq
    exact (syncChanges h1).trans (syncChanges h2)

theorem mbufLoop (s : State) (p : Nat) (i j : Int) (m last : Nat) (passes : List Shinfo) :
    SameLists s (mbufLoop s p i j m last passes) := by
  induction passes generalizing s last with
  | nil => exact mbufFigureDerivChgs s p j
  | cons info passes ih =>
    rw [Dga.mbufLoop]
    split
    · exact mbufFigureDerivChgs s p j
    · dsimp only
      have hb : SameLists s (if last ≠ info.mbufseq then
          Dga.writeMbufseq (Dga.mbufMbUpdate s p i info) m i info.mbufseq else s) := by
        split
        · exact (mbufMbUpdate s p i info).trans (writeMbufseq _ _ _ _)
        · exact refl s
      split
      · exact hb.trans (fault _ _)
      · rename_i _ hsync
        exact (hb.trans (syncChanges hsync)).trans (ih _ _)

theorem mbsmembUpdate (s : State) (p : Nat) (i : Int) (info : Shinfo) (relocks : List Shinfo) :
    SameLists s (mbsmembUpdate s p i info relocks) := by
  rw [Dga.mbsmembUpdate]
  have h0 : SameLists s (s.modify p fun w => { w with eLockSubj := i }) :=
    modify _ _ (by simp)
  split
  · exact h0.trans (winLoop _ _ _ _)
  · rw [mbufUpdate]
    have hsync : ∀ u : State, SameLists u
        (if (u.mem p).cMbufseq ≠ info.mbufseq then Dga.syncMbufset u p info else u) := by
      intro u
      split
      · exact syncMbufset u p info
      · exact refl u
    split
    · exact (h0.trans (hsync _)).trans (fault _ _)
    · exact ((h0.trans (hsync _)).trans (touchMbs _ _)).trans (mbufLoop _ _ _ _ _ _ _)

end SameLists

/-! ## Entries -/

/-- What a node of `dga_wlist` stands for: a token and the structures of its two lists. -/
structure Entry where
  token : Nat
  draw : List Nat
  old : List Nat
  deriving DecidableEq

namespace Entry

/-- The structures of an interface. -/
def list (e : Entry) (d : Bool) : List Nat := if d then e.draw else e.old

def setList (e : Entry) (d : Bool) (l : List Nat) : Entry :=
  if d then { e with draw := l } else { e with old := l }

def clients (e : Entry) : List Nat := e.draw ++ e.old

/-- Without a structure. -/
def erase (e : Entry) (p : Nat) : Entry :=
  { e with
    draw := e.draw.erase p
    old := e.old.erase p }

variable {e : Entry} {l : List Nat} {next next' : Nat → Option Nat} {w : Winlist} {h : Option Nat}

/-- The node `w` has the lists of `e`. -/
def Rep (next : Nat → Option Nat) (w : Winlist) (e : Entry) : Prop :=
  w.wToken = e.token ∧ ∀ d, Chain next (w.head d) (e.list d)

theorem mem_clients : p ∈ e.clients ↔ ∃ d, p ∈ e.list d := by
  simp [clients, list, or_comm]

@[simp] theorem token_setList : (e.setList d l).token = e.token := by
  cases d <;> rfl

@[simp] theorem list_setList_self : (e.setList d l).list d = l := by
  cases d <;> rfl

theorem list_setList_of_ne {d' : Bool} (h : d' ≠ d) : (e.setList d l).list d' = e.list d' := by
  cases d <;> cases d' <;> first | rfl | exact absurd rfl h

theorem list_nodup (hnd : e.clients.Nodup) : (e.list d).Nodup := by
  cases d
  · exact (nodup_append.1 hnd).2.1
  · exact (nodup_append.1 hnd).1

theorem notMem_of_ne {d' : Bool} (hnd : e.clients.Nodup) (hp : p ∈ e.list d) (h : d' ≠ d) :
    p ∉ e.list d' := by
  obtain ⟨-, -, hdisj⟩ := nodup_append.1 hnd
  intro hp'
  cases d <;> cases d' <;>
    first | exact h rfl | exact hdisj p hp' p hp rfl | exact hdisj p hp p hp' rfl

theorem clients_cons (e : Entry) (d : Bool) (a : Nat) :
    (e.setList d (a :: e.list d)).clients ~ a :: e.clients := by
  cases d with
  | true => exact .refl _
  | false => exact perm_middle

theorem setList_erase (hnd : e.clients.Nodup) (hp : p ∈ e.list d) :
    e.setList d ((e.list d).erase p) = e.erase p := by
  cases d with
  | true =>
    have hold : p ∉ e.list false := notMem_of_ne hnd hp (by simp)
    have hold' : p ∉ e.old := hold
    simp [setList, list, erase, erase_of_not_mem hold']
  | false =>
    have hdraw : p ∉ e.list true := notMem_of_ne hnd hp (by simp)
    have hdraw' : p ∉ e.draw := hdraw
    simp [setList, list, erase, erase_of_not_mem hdraw']

theorem clients_erase (hnd : e.clients.Nodup) : (e.erase p).clients = e.clients.erase p := by
  obtain ⟨-, -, hdisj⟩ := nodup_append.1 hnd
  by_cases hd : p ∈ e.draw
  · have hold : p ∉ e.old := fun ho => hdisj p hd p ho rfl
    simp [clients, erase, erase_append_left _ hd, erase_of_not_mem hold]
  · simp [clients, erase, erase_append_right _ hd, erase_of_not_mem hd]

theorem erase_of_notMem (hp : p ∉ e.clients) : e.erase p = e := by
  simp only [clients, mem_append, not_or] at hp
  rw [erase, erase_of_not_mem hp.1, erase_of_not_mem hp.2]

theorem Rep.congr (hr : Rep next w e) (hn : ∀ p ∈ e.clients, next' p = next p) : Rep next' w e :=
  ⟨hr.1, fun d => (hr.2 d).congr fun p hp => hn p (mem_clients.2 ⟨d, hp⟩)⟩

theorem Rep.setHead (hr : Rep next w e) (hc : Chain next h l) :
    Rep next (w.setHead d h) (e.setList d l) := by
  refine ⟨?_, fun d' => ?_⟩
  · cases d <;> exact hr.1
  · have hr' := hr.2 d'
    cases d <;> cases d' <;> first | exact hc | exact hr'

/-- Both heads are null exactly when there is no structure. -/
theorem Rep.heads_none (hr : Rep next w e) :
    (w.dgaClientplist = none ∧ w.dgaClientplistDraw = none) ↔ e.clients = [] := by
  have hold := (hr.2 false).isSome_iff
  have hdraw := (hr.2 true).isSome_iff
  simp only [Winlist.head, list, Bool.false_eq_true, if_false, if_true] at hold hdraw
  rw [clients, append_eq_nil_iff, ← Option.not_isSome_iff_eq_none, ← Option.not_isSome_iff_eq_none,
    hold, hdraw, not_not, not_not, and_comm]

end Entry

/-- The pointers lead to the entries `ws`. -/
def Lists (s : State) (ws : List Entry) : Prop := Forall₂ (Entry.Rep s.next) s.dgaWlist ws

/-- The structures of the entries, each with its token. -/
def pairs (ws : List Entry) : List (Nat × Nat) := ws.flatMap fun e => e.clients.map (·, e.token)

/-- **The lists of client structures hold what the clients hold**: every structure in hand is once in
one of its token's two lists, nothing else is in any list, and there is one node for each token with
a structure and none without. -/
structure Bookkeeping (σ : Sys) (ws : List Entry) : Prop where
  lists : Lists σ.lib ws
  tokens : (ws.map Entry.token).Nodup
  nonempty : ∀ e ∈ ws, e.clients ≠ []
  perm : pairs ws ~ σ.held
  nodup : (σ.held.map Prod.fst).Nodup

/-- With what the calls rely on: structures in hand are allocated and have their token. -/
structure Inv (σ : Sys) (ws : List Entry) : Prop extends Bookkeeping σ ws where
  alloc : ∀ x ∈ σ.held, x.1 ∈ σ.lib.structs
  token : ∀ x ∈ σ.held, (σ.lib.mem x.1).wToken = x.2

/-! ## Finding a window's node -/

section Split

variable {next next' : Nat → Option Nat} {wl wl₁ wl₂ : List Winlist} {ws ws₁ ws₂ : List Entry}
  {w : Winlist} {e e' : Entry}

theorem reps_congr (h : Forall₂ (Entry.Rep next) wl ws)
    (hn : ∀ e ∈ ws, ∀ p ∈ e.clients, next' p = next p) : Forall₂ (Entry.Rep next') wl ws := by
  induction h with
  | nil => exact .nil
  | cons hr _ ih =>
    exact .cons (hr.congr (hn _ (by simp))) (ih fun e he => hn e (by simp [he]))

theorem reps_mem (h : Forall₂ (Entry.Rep next) wl ws) (he : e ∈ ws) :
    ∃ w ∈ wl, Entry.Rep next w e := by
  induction h with
  | nil => cases he
  | cons hr _ ih =>
    rcases mem_cons.1 he with rfl | he
    · exact ⟨_, mem_cons_self, hr⟩
    · obtain ⟨w, hw, hr⟩ := ih he
      exact ⟨w, mem_cons_of_mem _ hw, hr⟩

/-- The entries split at the first node with a token. -/
structure Split (next : Nat → Option Nat) (token : Nat) (wl₁ : List Winlist) (w : Winlist)
    (wl₂ : List Winlist) (ws₁ : List Entry) (e : Entry) (ws₂ : List Entry) : Prop where
  before : ∀ x ∈ wl₁, x.wToken ≠ token
  here : w.wToken = token
  reps₁ : Forall₂ (Entry.Rep next) wl₁ ws₁
  rep : Entry.Rep next w e
  reps₂ : Forall₂ (Entry.Rep next) wl₂ ws₂

theorem exists_split (h : Forall₂ (Entry.Rep next) wl ws)
    (hf : wl.find? (·.wToken = token) = some w) :
    ∃ wl₁ wl₂ ws₁ e ws₂, wl = wl₁ ++ w :: wl₂ ∧ ws = ws₁ ++ e :: ws₂ ∧
      Split next token wl₁ w wl₂ ws₁ e ws₂ := by
  obtain ⟨hw, wl₁, wl₂, rfl, hb⟩ := find?_eq_some_iff_append.1 hf
  have h₁ := (forall₂_take_append _ _ _ h.flip).flip
  have h₂ := (forall₂_drop_append _ _ _ h.flip).flip
  obtain ⟨e, ws₂, hr, hr₂, hd⟩ := forall₂_cons_left_iff.1 h₂
  refine ⟨wl₁, wl₂, ws.take wl₁.length, e, ws₂, rfl, ?_, ?_, by simpa using hw, h₁, hr, hr₂⟩
  · rw [← hd, take_append_drop]
  · intro x hx
    simpa using hb x hx

theorem updateWin_split {f : Winlist → Winlist} (hb : ∀ x ∈ wl₁, x.wToken ≠ token)
    (hw : w.wToken = token) : updateWin token f (wl₁ ++ w :: wl₂) = wl₁ ++ f w :: wl₂ := by
  induction wl₁ with
  | nil => simp [updateWin, hw]
  | cons x wl₁ ih =>
    rw [cons_append, updateWin, if_neg (hb x (by simp)), ih fun y hy => hb y (by simp [hy])]
    rfl

/-- Another entry at the node, with fields written of structures that the other entries do not
have. -/
theorem Split.replace {w' : Winlist} (h : Split next token wl₁ w wl₂ ws₁ e ws₂)
    (hr : Entry.Rep next' w' e') (hn : ∀ e ∈ ws₁ ++ ws₂, ∀ p ∈ e.clients, next' p = next p) :
    Forall₂ (Entry.Rep next') (wl₁ ++ w' :: wl₂) (ws₁ ++ e' :: ws₂) := by
  refine rel_append (reps_congr h.reps₁ fun e he => hn e ?_)
    (.cons hr (reps_congr h.reps₂ fun e he => hn e ?_))
  · exact mem_append_left _ he
  · exact mem_append_right _ he

theorem pairs_split (ws₁ : List Entry) (e : Entry) (ws₂ : List Entry) :
    pairs (ws₁ ++ e :: ws₂) = pairs ws₁ ++ (e.clients.map (·, e.token) ++ pairs ws₂) := by
  simp [pairs]

end Split

theorem mem_pairs {ws : List Entry} {x : Nat × Nat} :
    x ∈ pairs ws ↔ ∃ e ∈ ws, x.1 ∈ e.clients ∧ e.token = x.2 := by
  obtain ⟨p, token⟩ := x
  simp [pairs]

theorem map_fst_pairs (ws : List Entry) : (pairs ws).map Prod.fst = ws.flatMap Entry.clients := by
  simp [pairs, map_flatMap, Function.comp_def]

namespace Inv

variable {ws : List Entry} {e : Entry}

theorem mem_held (h : Inv σ ws) (he : e ∈ ws) (hp : p ∈ e.clients) : (p, e.token) ∈ σ.held :=
  h.perm.mem_iff.1 (mem_pairs.2 ⟨e, he, hp, rfl⟩)

theorem mem_structs (h : Inv σ ws) (he : e ∈ ws) (hp : p ∈ e.clients) : p ∈ σ.lib.structs :=
  h.alloc _ (h.mem_held he hp)

theorem wToken_eq (h : Inv σ ws) (he : e ∈ ws) (hp : p ∈ e.clients) :
    (σ.lib.mem p).wToken = e.token :=
  h.token _ (h.mem_held he hp)

theorem clients_nodup (h : Inv σ ws) : (ws.flatMap Entry.clients).Nodup := by
  rw [← map_fst_pairs]
  exact (h.perm.map Prod.fst).nodup_iff.2 h.nodup

end Inv

end Dga
