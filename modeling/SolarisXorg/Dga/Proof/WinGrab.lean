import SolarisXorg.Lib.Run
import SolarisXorg.Dga.Proof.Lists

/-!
# Grabs and ungrabs keep the lists of grabbed windows

A grab puts its structure in front of the list of its interface (`inv_grab`), also when the
multibuffer set cannot be made: `dga_win_ungrab` then looks in the other list and changes nothing
(`winUngrabCommon_of_notMem`).

An ungrab takes its structure out (`inv_ungrab`) unless it comes through the wrong interface
(`UngrabOk`): the head of the old style list is not found in the drawable one, and the search in the
old style list then writes the head of the drawable list; and `dga_win_ungrab` does not look in the
drawable list at all.
-/

namespace Dga

open Lib List

variable {s t : State} {σ τ : Sys} {p q a token : Nat} {d dpy : Bool} {info : Shinfo}

/-! ## Grab -/

@[simp] theorem State.mem_write_self (s : State) (p : Nat) (w : Window) : (s.write p w).mem p = w :=
  Function.update_self ..

theorem State.mem_write_of_ne (s : State) {p q : Nat} (h : q ≠ p) (w : Window) :
    (s.write p w).mem q = s.mem q :=
  Function.update_of_ne h ..

/-- `dga_win_ungrab` of a structure that is not in the old style list does nothing. -/
theorem winUngrabCommon_of_notMem {w : Winlist} {l : List Nat}
    (hf : s.dgaWlist.find? (·.wToken = (s.mem p).wToken) = some w)
    (hc : Chain s.next w.dgaClientplist l) (hp : p ∉ l) : winUngrabCommon s p false = s := by
  have hfind : findClient s p w.dgaClientplist = none := findPrev_of_notMem hc hp
  simp [winUngrabCommon, hf, Winlist.head, hfind]

/-- So a grab that cannot make its multibuffer set keeps the structure. -/
theorem grabMbufset_eq {w : Winlist} {l : List Nat} (dpy : Bool) (info : Shinfo)
    (hf : s.dgaWlist.find? (·.wToken = (s.mem a).wToken) = some w)
    (hc : Chain s.next w.dgaClientplist l) (ha : a ∉ l) :
    grabMbufset s dpy a info = if dpy then (winInitMbufset s a info).2 else s := by
  rw [grabMbufset]
  have hi := SameLists.winInitMbufset s a info
  split
  · split
    · rename_i heq
      rw [heq]
    · rename_i u heq
      rw [heq] at hi ⊢
      have hsame : SameLists s u := hi
      rw [winUngrabCommon_of_notMem (w := w) (l := l)]
      · rw [hsame.wlist, hsame.token]
        exact hf
      · exact hc.congr fun p _ => hsame.next p
      · exact ha
  · rfl

theorem SameLists.grabMbufset {w : Winlist} {l : List Nat}
    (hf : s.dgaWlist.find? (·.wToken = (s.mem a).wToken) = some w)
    (hc : Chain s.next w.dgaClientplist l) (ha : a ∉ l) : SameLists s (grabMbufset s dpy a info) := by
  rw [grabMbufset_eq dpy info hf hc ha]
  split
  · exact winInitMbufset s a info
  · exact refl s

/-- `t` is `s` with a structure `a` of the token in front of `h`. -/
structure Added (s t : State) (token a : Nat) (h : Option Nat) : Prop where
  structs : t.structs = a :: s.structs
  next_self : t.next a = h
  token_self : (t.mem a).wToken = token
  next : ∀ p ≠ a, t.next p = s.next p
  token : ∀ p ≠ a, (t.mem p).wToken = (s.mem p).wToken

namespace Added

variable {h h' : Option Nat} {u : State} {w : Window}

theorem sameLists (ha : Added s t token a h) (hs : SameLists t u) : Added s u token a h := by
  refine ⟨hs.structs.trans ha.structs, (hs.next a).trans ha.next_self,
    (hs.token a).trans ha.token_self, fun p hp => (hs.next p).trans (ha.next p hp),
    fun p hp => (hs.token p).trans (ha.token p hp)⟩

/-- The lists' nodes do not matter. -/
theorem setWlist (ha : Added s t token a h) (wl : List Winlist) :
    Added s (t.setWlist wl) token a h :=
  ⟨ha.structs, ha.next_self, ha.token_self, ha.next, ha.token⟩

theorem write (s : State) (a : Nat) (w : Window) :
    Added s (State.write (s.alloc a) a w) w.wToken a w.wNext := by
  refine ⟨rfl, ?_, ?_, fun p hp => ?_, fun p hp => ?_⟩
  · rw [State.next, State.mem_write_self]
  · rw [State.mem_write_self]
  · rw [State.next, State.mem_write_of_ne _ hp]
    rfl
  · rw [State.mem_write_of_ne _ hp]
    rfl

theorem setNext (ha : Added s t token a h) :
    Added s (t.modify a fun w => { w with wNext := h' }) token a h' := by
  refine ⟨ha.structs, ?_, ?_, fun p hp => ?_, fun p hp => ?_⟩
  · rw [State.next, State.modify, State.mem_write_self]
  · rw [State.modify, State.mem_write_self]
    exact ha.token_self
  · rw [State.next, State.modify, State.mem_write_of_ne _ hp]
    exact ha.next p hp
  · rw [State.modify, State.mem_write_of_ne _ hp]
    exact ha.token p hp

end Added

variable {w : Winlist} {e : Entry} {orig : Nat}

/-- The structure of a further grab through the drawable interface. -/
theorem copyDraw_added (dpy : Bool) (info : Shinfo)
    (hf : s.dgaWlist.find? (·.wToken = token) = some w) (ho : origClient w true = some orig)
    (ht : (s.mem orig).wToken = token) {l : List Nat} (hc : Chain s.next w.dgaClientplist l)
    (ha : a ∉ l) :
    Added s (copyDraw (s.alloc a) dpy w orig a info) token a (w.head true) ∧
      (copyDraw (s.alloc a) dpy w orig a info).dgaWlist = s.dgaWlist := by
  subst ht
  rw [copyDraw]
  split
  · rename_i hdraw
    obtain ⟨q, hq⟩ := Option.isSome_iff_exists.1 hdraw
    obtain rfl : q = orig := by simpa [origClient, Winlist.head, hq] using ho
    refine ⟨?_, rfl⟩
    have hw : w.head true = some q := hq
    rw [hw]
    exact Added.write s a _
  · rename_i hdraw
    have hw : w.head true = none := by simpa [Winlist.head] using hdraw
    have hcopy := Added.write s a (drawClient (s.mem orig))
    have hsame : SameLists _ (grabMbufset _ dpy a info) :=
      SameLists.grabMbufset (w := w) (l := l)
        (by rw [hcopy.token_self]; exact hf)
        (hc.congr fun p hp => hcopy.next p fun he => ha (he ▸ hp)) ha
    rw [hw]
    exact ⟨(hcopy.sameLists hsame).setNext, hsame.wlist⟩

theorem grabAgainDraw_added (hf : s.dgaWlist.find? (·.wToken = token) = some w)
    (ho : origClient w true = some orig) (ht : (s.mem orig).wToken = token) {l : List Nat}
    (hc : Chain s.next w.dgaClientplist l) (ha : a ∉ l) :
    Added s (grabAgainDraw (s.alloc a) dpy w orig a info) token a (w.head true) ∧
      (grabAgainDraw (s.alloc a) dpy w orig a info).dgaWlist =
        updateWin w.wToken (·.setHead true (some a)) s.dgaWlist := by
  obtain ⟨hadd, hwl⟩ := copyDraw_added dpy info hf ho ht hc ha
  rw [grabAgainDraw]
  refine ⟨(hadd.setWlist _).sameLists (.shareMbs _ _), ?_⟩
  rw [(SameLists.shareMbs _ _).wlist, State.setWlist, hwl]

theorem grabAgainOld_added (ho : origClient w false = some orig) (ht : (s.mem orig).wToken = token) :
    Added s (grabAgainOld (s.alloc a) w orig a) token a (w.head false) := by
  subst ht
  have hnext : (if w.dgaClientplist.isSome then some orig else none) = w.head false := by
    cases hold : w.dgaClientplist with
    | none => simp [Winlist.head, hold]
    | some q =>
      obtain rfl : q = orig := by simpa [origClient, Winlist.head, hold] using ho
      simp [Winlist.head, hold]
  rw [← hnext]
  exact (Added.write s a _).setWlist _

/-- The structure of the first grab of a window. -/
theorem grabNew_added (s : State) (dpy d : Bool) (token a : Nat) (info : Shinfo) :
    Added s (grabNew (s.alloc a) dpy d token a info) token a none ∧
      (grabNew (s.alloc a) dpy d token a info).dgaWlist =
        (Winlist.mk token none none).setHead d (some a) :: s.dgaWlist := by
  have hnew := (Added.write s a (newClient token d)).setWlist
    ((Winlist.mk token none none).setHead d (some a) :: s.dgaWlist)
  rw [grabNew]
  split
  · rename_i hd
    subst hd
    have hsame : SameLists _ (grabMbufset _ dpy a info) :=
      SameLists.grabMbufset (w := ⟨token, none, some a⟩) (l := [])
        (by rw [hnew.token_self]; simp [State.setWlist, Winlist.setHead, newClient]) rfl (by simp)
    exact ⟨hnew.sameLists hsame, hsame.wlist⟩
  · exact ⟨hnew, rfl⟩

section Grab

variable {ws ws' : List Entry} {h : Option Nat}

theorem Inv.added (hi : Inv σ ws) (ha : a ∉ σ.lib.structs) (hadd : Added σ.lib t token a h)
    (hl : Lists t ws') (htok : (ws'.map Entry.token).Nodup) (hne : ∀ e ∈ ws', e.clients ≠ [])
    (hperm : pairs ws' ~ (a, token) :: pairs ws) : Inv ⟨t, (a, token) :: σ.held⟩ ws' where
  lists := hl
  tokens := htok
  nonempty := hne
  perm := hperm.trans (hi.perm.cons _)
  nodup := by
    refine nodup_cons.2 ⟨fun hm => ?_, hi.nodup⟩
    obtain ⟨x, hx, rfl⟩ := mem_map.1 hm
    exact ha (hi.alloc x hx)
  alloc := by
    intro x hx
    rw [hadd.structs]
    rcases mem_cons.1 hx with rfl | hx
    · exact mem_cons_self
    · exact mem_cons_of_mem _ (hi.alloc x hx)
  token := by
    intro x hx
    rcases mem_cons.1 hx with rfl | hx
    · exact hadd.token_self
    · rw [hadd.token x.1 fun he => ha (he ▸ hi.alloc x hx)]
      exact hi.token x hx

/-- The first grab of a window makes a node for it. -/
theorem Inv.new (hi : Inv σ ws) (ha : a ∉ σ.lib.structs)
    (hf : σ.lib.dgaWlist.find? (·.wToken = token) = none) (hadd : Added σ.lib t token a none)
    (hwl : t.dgaWlist = (Winlist.mk token none none).setHead d (some a) :: σ.lib.dgaWlist) :
    Inv ⟨t, (a, token) :: σ.held⟩ ((Entry.mk token [] []).setList d [a] :: ws) := by
  have hnil : Entry.Rep t.next (Winlist.mk token none none) (Entry.mk token [] []) :=
    ⟨rfl, fun d => by cases d <;> rfl⟩
  have hkeep : ∀ e ∈ ws, ∀ p ∈ e.clients, t.next p = σ.lib.next p := fun e he p hp =>
    hadd.next p fun hpa => ha (hpa ▸ hi.mem_structs he hp)
  have hlists : Lists t ((Entry.mk token [] []).setList d [a] :: ws) := by
    rw [Lists, hwl]
    exact .cons (hnil.setHead ⟨rfl, hadd.next_self⟩) (reps_congr hi.lists hkeep)
  refine hi.added ha hadd hlists ?_ ?_ ?_
  · rw [map_cons, nodup_cons, Entry.token_setList]
    refine ⟨fun hm => ?_, hi.tokens⟩
    obtain ⟨e, he, het⟩ := mem_map.1 hm
    obtain ⟨w, hw, hr⟩ := reps_mem hi.lists he
    exact find?_eq_none.1 hf w hw (by simpa using hr.1.trans het)
  · intro e he
    rcases mem_cons.1 he with rfl | he
    · cases d <;> simp [Entry.setList, Entry.clients]
    · exact hi.nonempty e he
  · cases d <;> exact .refl _

/-- A further grab puts its structure in front of the window's list. -/
theorem Inv.again (hi : Inv σ ws) (ha : a ∉ σ.lib.structs)
    (hf : σ.lib.dgaWlist.find? (·.wToken = token) = some w)
    (hadd : Added σ.lib t token a (w.head d))
    (hwl : t.dgaWlist = updateWin w.wToken (·.setHead d (some a)) σ.lib.dgaWlist) :
    ∃ ws', Inv ⟨t, (a, token) :: σ.held⟩ ws' := by
  obtain ⟨wl₁, wl₂, ws₁, e, ws₂, hwl₀, rfl, hsp⟩ := exists_split hi.lists hf
  have hkeep : ∀ e' ∈ ws₁ ++ e :: ws₂, ∀ p ∈ e'.clients, t.next p = σ.lib.next p :=
    fun e' he p hp => hadd.next p fun hpa => ha (hpa ▸ hi.mem_structs he hp)
  have hrep : Entry.Rep t.next w e := hsp.rep.congr (hkeep e (by simp))
  have hlists : Lists t (ws₁ ++ e.setList d (a :: e.list d) :: ws₂) := by
    rw [Lists, hwl, hwl₀, hsp.here, updateWin_split hsp.before hsp.here]
    refine hsp.replace (hrep.setHead ⟨rfl, ?_⟩) fun e' he => hkeep e' ?_
    · rw [hadd.next_self]
      exact hrep.2 d
    · simp only [mem_append, mem_cons] at he ⊢
      tauto
  have htok : e.token = token := hsp.rep.1 ▸ hsp.here
  refine ⟨_, hi.added ha hadd hlists ?_ ?_ ?_⟩
  · simpa using hi.tokens
  · intro e' he
    rcases mem_append.1 he with he | he
    · exact hi.nonempty e' (by simp [he])
    rcases mem_cons.1 he with rfl | he
    · exact fun hnil => by simpa [hnil] using (e.clients_cons d a).length_eq
    · exact hi.nonempty e' (by simp [he])
  · rw [pairs_split, pairs_split, Entry.token_setList]
    have hc := ((e.clients_cons d a).map fun p => (p, e.token)).append_right (pairs ws₂)
    rw [map_cons, htok, cons_append] at hc
    rw [htok]
    exact (hc.append_left _).trans perm_middle

theorem origClient_mem {next : Nat → Option Nat} (hr : Entry.Rep next w e) (hne : e.clients ≠ []) :
    ∃ orig ∈ e.clients, origClient w d = some orig := by
  have hhead : ∀ d q, w.head d = some q → q ∈ e.clients := by
    intro d q hq
    have hc := hr.2 d
    rw [hq] at hc
    obtain ⟨b, hb, -⟩ := hc.exists_cons_of_some
    exact Entry.mem_clients.2 ⟨d, by simp [hb]⟩
  cases h1 : w.head d with
  | some q => exact ⟨q, hhead d q h1, by simp [origClient, h1]⟩
  | none =>
    cases h2 : w.head !d with
    | some q => exact ⟨q, hhead _ q h2, by simp [origClient, h1, h2]⟩
    | none =>
      refine absurd (hr.heads_none.1 ?_) hne
      cases d
      · exact ⟨h1, h2⟩
      · exact ⟨h2, h1⟩

/-- **A grab keeps the books**, and its structure is in front of the list of its interface. -/
theorem inv_grab (hi : Inv σ ws) (ha : a ∉ σ.lib.structs) :
    ∃ ws', Inv (σ.exec (.grab dpy d token a info)) ws' := by
  rw [Sys.exec, winGrabCommon]
  have halloc : (σ.lib.alloc a).dgaWlist = σ.lib.dgaWlist := rfl
  cases hf : σ.lib.dgaWlist.find? (·.wToken = token) with
  | none =>
    obtain ⟨hadd, hwl⟩ := grabNew_added σ.lib dpy d token a info
    simp only [halloc, hf]
    exact ⟨_, hi.new ha hf hadd hwl⟩
  | some w =>
    obtain ⟨wl₁, wl₂, ws₁, e, ws₂, hwl₀, rfl, hsp⟩ := exists_split hi.lists hf
    have he : e ∈ ws₁ ++ e :: ws₂ := by simp
    obtain ⟨orig, horig, ho⟩ := origClient_mem (d := d) hsp.rep (hi.nonempty e he)
    have ht : (σ.lib.mem orig).wToken = token :=
      (hi.wToken_eq he horig).trans (hsp.rep.1 ▸ hsp.here)
    simp only [halloc, hf, ho]
    cases d with
    | true =>
      have hold : a ∉ e.list false := fun hm =>
        ha (hi.mem_structs he (Entry.mem_clients.2 ⟨false, hm⟩))
      obtain ⟨hadd, hwl⟩ := grabAgainDraw_added hf ho ht (hsp.rep.2 false) hold
      exact hi.again ha hf hadd hwl
    | false => exact hi.again ha hf (grabAgainOld_added ho ht) rfl

end Grab

/-! ## Ungrab -/

/-- When an ungrab finds its structure where it writes: through the drawable interface, it is not the
first of the old style clients; through the old interface, it is not a drawable one. -/
def UngrabOk (s : State) (p : Nat) (drawableGrabber : Bool) : Prop :=
  ∀ w, s.dgaWlist.find? (·.wToken = (s.mem p).wToken) = some w →
    if drawableGrabber then w.dgaClientplist ≠ some p
    else findClient s p w.dgaClientplistDraw = none

/-- The entries without a structure, and without entries that have no other. -/
def eraseClient (ws : List Entry) (p : Nat) : List Entry :=
  (ws.map (·.erase p)).filter (·.clients ≠ [])

section Ungrab

variable {ws ws₁ ws₂ : List Entry} {wl₁ wl₂ : List Winlist} {d' : Bool} {l₁ l₂ : List Nat}

theorem eraseClient_of_notMem (hp : ∀ e ∈ ws, p ∉ e.clients) (hne : ∀ e ∈ ws, e.clients ≠ []) :
    eraseClient ws p = ws := by
  have hmap : ws.map (·.erase p) = ws := by
    conv_rhs => rw [← map_id ws]
    exact map_congr_left fun e he => Entry.erase_of_notMem (hp e he)
  rw [eraseClient, hmap, filter_eq_self]
  simpa using hne

theorem pairs_eraseClient (hnd : ∀ e ∈ ws, e.clients.Nodup) :
    pairs (eraseClient ws p) = (pairs ws).filter (·.1 ≠ p) := by
  induction ws with
  | nil => rfl
  | cons e ws ih =>
    have hnde := hnd e (by simp)
    have hhead : (e.erase p).clients.map (·, e.token) =
        (e.clients.map (·, e.token)).filter (·.1 ≠ p) := by
      rw [Entry.clients_erase hnde, hnde.erase_eq_filter, filter_map]
      congr 1
      exact filter_congr fun q _ => by by_cases h : q = p <;> simp [h]
    have hih := ih fun e he => hnd e (by simp [he])
    have hcons : pairs (e :: ws) = e.clients.map (·, e.token) ++ pairs ws := rfl
    rw [hcons, filter_append, ← hih, ← hhead, eraseClient, map_cons, filter_cons]
    split
    · rfl
    · rename_i hnil
      have hnil' : (e.erase p).clients = [] := by simpa using hnil
      rw [hnil']
      rfl

theorem Inv.erase (hi : Inv σ ws) (hl : Lists t (eraseClient ws p))
    (hs : ∀ q ∈ σ.lib.structs, q ≠ p → q ∈ t.structs)
    (ht : ∀ q, (t.mem q).wToken = (σ.lib.mem q).wToken) :
    Inv ⟨t, σ.held.filter (·.1 ≠ p)⟩ (eraseClient ws p) where
  lists := hl
  tokens := by
    have hmap : (ws.map (·.erase p)).map Entry.token = ws.map Entry.token := by
      rw [map_map]
      rfl
    exact (hmap ▸ (filter_sublist.map Entry.token)).nodup hi.tokens
  nonempty := by
    intro e he
    simpa using (mem_filter.1 he).2
  perm := by
    have hnd : ∀ e ∈ ws, e.clients.Nodup := fun e he => (nodup_flatMap.1 hi.clients_nodup).1 e he
    rw [pairs_eraseClient hnd]
    exact hi.perm.filter _
  nodup := (filter_sublist.map _).nodup hi.nodup
  alloc := by
    intro x hx
    obtain ⟨hx, hne⟩ := mem_filter.1 hx
    exact hs _ (hi.alloc x hx) (by simpa using hne)
  token := by
    intro x hx
    rw [ht]
    exact hi.token x (mem_filter.1 hx).1

/-- The node and entry of a structure that is in a list. -/
theorem Inv.exists_split (hi : Inv σ ws) (he : e ∈ ws) (hp : p ∈ e.clients) :
    ∃ w wl₁ wl₂ ws₁ ws₂, σ.lib.dgaWlist.find? (·.wToken = (σ.lib.mem p).wToken) = some w ∧
      σ.lib.dgaWlist = wl₁ ++ w :: wl₂ ∧ ws = ws₁ ++ e :: ws₂ ∧
      Split σ.lib.next e.token wl₁ w wl₂ ws₁ e ws₂ := by
  rw [hi.wToken_eq he hp]
  obtain ⟨w', hw', hr'⟩ := reps_mem hi.lists he
  have hsome : (σ.lib.dgaWlist.find? (·.wToken = e.token)).isSome :=
    find?_isSome.2 ⟨w', hw', by simpa using hr'.1⟩
  obtain ⟨w, hf⟩ := Option.isSome_iff_exists.1 hsome
  obtain ⟨wl₁, wl₂, ws₁, e', ws₂, hwl, rfl, hsp⟩ := Dga.exists_split hi.lists hf
  have htok : e'.token = e.token := hsp.rep.1 ▸ hsp.here
  obtain rfl : e' = e := inj_on_of_nodup_map hi.tokens (by simp) he htok
  exact ⟨w, wl₁, wl₂, ws₁, ws₂, hf, hwl, rfl, hsp⟩

/-- Taking out a structure of the entry at the node, if the head that is written is that of its
list. -/
theorem unlinkClient_lists (hwl : s.dgaWlist = wl₁ ++ w :: wl₂)
    (hsp : Split s.next (s.mem p).wToken wl₁ w wl₂ ws₁ e ws₂) (hl : e.list d' = l₁ ++ p :: l₂)
    (hnd : ((ws₁ ++ e :: ws₂).flatMap Entry.clients).Nodup) (hd : d' = d ∨ l₁ ≠ []) :
    ∃ w', (unlinkClient s p d l₁.getLast?).dgaWlist = wl₁ ++ w' :: wl₂ ∧
      Split (unlinkClient s p d l₁.getLast?).next (s.mem p).wToken wl₁ w' wl₂ ws₁
        (e.setList d' (l₁ ++ l₂)) ws₂ := by
  have hchain := hsp.rep.2 d'
  rw [hl] at hchain
  cases hq : l₁.getLast? with
  | none =>
    obtain rfl : l₁ = [] := getLast?_eq_none_iff.1 hq
    obtain rfl : d' = d := hd.resolve_right (by simp)
    refine ⟨w.setHead d' (s.next p), ?_, hsp.before, ?_, hsp.reps₁,
      hsp.rep.setHead hchain.of_append, hsp.reps₂⟩
    · rw [unlinkClient, State.setWlist, hwl, updateWin_split hsp.before hsp.here]
    · cases d' <;> exact hsp.here
  | some q =>
    have hnext : (unlinkClient s p d (some q)).next = Function.update s.next q (s.next p) := by
      funext r
      by_cases hr : r = q
      · subst hr
        rw [unlinkClient, State.next, State.modify, State.mem_write_self, Function.update_self]
      · rw [unlinkClient, State.next, State.modify, State.mem_write_of_ne _ hr,
          Function.update_of_ne hr]
        rfl
    have hql : q ∈ e.list d' := by
      rw [hl]
      exact mem_append_left _ (mem_of_getLast? hq)
    rw [flatMap_append, flatMap_cons, nodup_append, nodup_append] at hnd
    obtain ⟨-, ⟨hnde, -, hdisj₂⟩, hdisj₁⟩ := hnd
    have hqe : q ∈ e.clients := Entry.mem_clients.2 ⟨d', hql⟩
    have hother : ∀ e' ∈ ws₁ ++ ws₂, ∀ r ∈ e'.clients,
        Function.update s.next q (s.next p) r = s.next r := by
      intro e' he' r hr
      refine Function.update_of_ne ?_ _ _
      rintro rfl
      rcases mem_append.1 he' with he' | he'
      · exact hdisj₁ r (mem_flatMap.2 ⟨e', he', hr⟩) r (mem_append_left _ hqe) rfl
      · exact hdisj₂ r hqe r (mem_flatMap.2 ⟨e', he', hr⟩) rfl
    have hrep : Entry.Rep (Function.update s.next q (s.next p)) w (e.setList d' (l₁ ++ l₂)) := by
      refine ⟨by rw [Entry.token_setList]; exact hsp.rep.1, fun d₀ => ?_⟩
      by_cases hd₀ : d₀ = d'
      · subst hd₀
        rw [Entry.list_setList_self]
        refine hchain.unlink ?_ hq
        rw [← hl]
        exact Entry.list_nodup hnde
      · rw [Entry.list_setList_of_ne hd₀]
        refine (hsp.rep.2 d₀).congr fun r hr => Function.update_of_ne ?_ _ _
        rintro rfl
        exact Entry.notMem_of_ne hnde hql hd₀ hr
    rw [hnext]
    refine ⟨w, hwl, hsp.before, hsp.here, reps_congr hsp.reps₁ fun e' he' => hother e' ?_, hrep,
      reps_congr hsp.reps₂ fun e' he' => hother e' ?_⟩
    · exact mem_append_left _ he'
    · exact mem_append_right _ he'

theorem unlinkClient_structs {prev : Option Nat} :
    (unlinkClient s p d prev).structs = s.structs := by
  cases prev <;> rfl

theorem unlinkClient_token (s : State) (p q : Nat) (d : Bool) (prev : Option Nat) :
    ((unlinkClient s p d prev).mem q).wToken = (s.mem q).wToken := by
  cases prev with
  | none => rfl
  | some r =>
    by_cases hq : q = r
    · subst hq
      rw [unlinkClient, State.modify, State.mem_write_self]
    · rw [unlinkClient, State.modify, State.mem_write_of_ne _ hq]

/-- The end of an ungrab drops a node that is left without structures. -/
theorem releaseClient_lists (hwl : s.dgaWlist = wl₁ ++ w :: wl₂)
    (hsp : Split s.next (s.mem p).wToken wl₁ w wl₂ ws₁ e ws₂) :
    Lists (releaseClient s p) (ws₁ ++ ([e].filter (·.clients ≠ []) ++ ws₂)) ∧
      (∀ q ∈ s.structs, q ≠ p → q ∈ (releaseClient s p).structs) ∧
      ∀ q, ((releaseClient s p).mem q).wToken = (s.mem q).wToken := by
  have hsame := SameLists.releaseMbs s p
  have hnext : (releaseMbs s p).next = s.next := funext hsame.next
  have hf : (releaseMbs s p).dgaWlist.find? (·.wToken = ((releaseMbs s p).mem p).wToken) =
      some w := by
    rw [hsame.wlist, hsame.token, hwl, find?_append, find?_eq_none.2, find?_cons_of_pos]
    · rfl
    · simpa using hsp.here
    · simpa using hsp.before
  obtain ⟨token, old, draw⟩ := w
  rw [releaseClient]
  simp only [hf]
  split
  · rename_i heq
    obtain ⟨rfl, rfl, rfl⟩ : token = _ ∧ old = none ∧ draw = none := by simpa using heq
    have hnil : e.clients = [] := hsp.rep.heads_none.1 ⟨rfl, rfl⟩
    refine ⟨?_, ?_, hsame.token⟩
    · have hfil : [e].filter (·.clients ≠ []) = [] := by simp [hnil]
      have hwl' : (releaseMbs s p).dgaWlist.eraseP (·.wToken = token) = wl₁ ++ wl₂ := by
        rw [hsame.wlist, hwl, eraseP_append_right, eraseP_cons_of_pos]
        · simp
        · have hbefore := hsp.before
          have hhere : token = (s.mem p).wToken := hsp.here
          simpa [hhere] using hbefore
      have hreps : Forall₂ (Entry.Rep (releaseMbs s p).next) (wl₁ ++ wl₂) (ws₁ ++ ws₂) := by
        rw [hnext]
        exact rel_append hsp.reps₁ hsp.reps₂
      rw [hfil, nil_append, ← hwl'] at *
      exact hreps
    · intro q hq hqp
      rw [hsame.structs]
      exact (mem_erase_of_ne hqp).2 hq
  · rename_i hnn
    have hne : e.clients ≠ [] := by
      intro hnil
      obtain ⟨ho, hd⟩ := hsp.rep.heads_none.2 hnil
      simp only at ho hd
      subst ho hd
      exact hnn token rfl
    refine ⟨?_, fun q hq _ => hsame.structs ▸ hq, hsame.token⟩
    have hfil : [e].filter (·.clients ≠ []) = [e] := by simp [hne]
    rw [Lists, hsame.wlist, hwl, hfil, hnext]
    exact rel_append hsp.reps₁ (.cons hsp.rep hsp.reps₂)

theorem findClient_of_mem (hi : Inv σ ws) (he : e ∈ ws) {h : Option Nat}
    (hc : Chain σ.lib.next h (l₁ ++ p :: l₂)) (hl : e.list d' = l₁ ++ p :: l₂) :
    findClient σ.lib p h = some l₁.getLast? := by
  have hnd : (e.list d').Nodup :=
    Entry.list_nodup ((nodup_flatMap.1 hi.clients_nodup).1 e he)
  have hsub : e.list d' ⊆ σ.lib.structs := fun q hq =>
    hi.mem_structs he (Entry.mem_clients.2 ⟨d', hq⟩)
  have hlen := (hnd.subperm hsub).length_le
  rw [hl] at hnd hlen
  have hp : p ∉ l₁ := fun hm => (nodup_append.1 hnd).2.2 p hm p (by simp) rfl
  rw [length_append, length_cons] at hlen
  rw [findClient, findPrev_of_mem hc hp (by omega), Option.or_none]

/-- An ungrab through the right interface takes the structure out of the list it is in. -/
theorem winUngrabCommon_eq (hi : Inv σ ws) (he : e ∈ ws)
    (hf : σ.lib.dgaWlist.find? (·.wToken = (σ.lib.mem p).wToken) = some w)
    (hr : Entry.Rep σ.lib.next w e) (hp : p ∈ e.clients) (hok : UngrabOk σ.lib p d) :
    ∃ d' l₁ l₂, e.list d' = l₁ ++ p :: l₂ ∧ (d' = d ∨ l₁ ≠ []) ∧
      winUngrabCommon σ.lib p d = releaseClient (unlinkClient σ.lib p d l₁.getLast?) p := by
  have hnde := (nodup_flatMap.1 hi.clients_nodup).1 e he
  obtain ⟨d', hp'⟩ := Entry.mem_clients.1 hp
  obtain ⟨l₁, l₂, hl⟩ := append_of_mem hp'
  have hc := hr.2 d'
  rw [hl] at hc
  have hfind := findClient_of_mem hi he hc hl
  have hokw := hok w hf
  refine ⟨d', l₁, l₂, hl, ?_⟩
  by_cases hd : d' = d
  · subst hd
    refine ⟨.inl rfl, ?_⟩
    rw [winUngrabCommon, hf]
    simp only [hfind]
  · -- the only other way the structure is found: the drawable interface and an old style client
    cases d with
    | false =>
      obtain rfl : d' = true := by simpa using hd
      rw [if_neg (by simp)] at hokw
      rw [show w.head true = w.dgaClientplistDraw from rfl, hokw] at hfind
      cases hfind
    | true =>
      obtain rfl : d' = false := by simpa using hd
      rw [if_pos rfl] at hokw
      have hnone : findClient σ.lib p (w.head true) = none :=
        findPrev_of_notMem (hr.2 true) (Entry.notMem_of_ne hnde hp' (by simp))
      refine ⟨.inr ?_, ?_⟩
      · rintro rfl
        exact hokw hc.1
      · rw [winUngrabCommon, hf]
        simp only [hnone]
        rw [show w.dgaClientplist = w.head false from rfl, hfind]

/-- An ungrab of a structure that is not in hand does nothing. -/
theorem winUngrabCommon_of_notHeld (hi : Inv σ ws) (hp : ∀ e ∈ ws, p ∉ e.clients) :
    winUngrabCommon σ.lib p d = σ.lib := by
  rw [winUngrabCommon]
  cases hf : σ.lib.dgaWlist.find? (·.wToken = (σ.lib.mem p).wToken) with
  | none => rfl
  | some w =>
    obtain ⟨wl₁, wl₂, ws₁, e, ws₂, -, rfl, hsp⟩ := Dga.exists_split hi.lists hf
    have hnot : ∀ d, findClient σ.lib p (w.head d) = none := fun d =>
      findPrev_of_notMem (hsp.rep.2 d) fun hm => hp e (by simp) (Entry.mem_clients.2 ⟨d, hm⟩)
    have hnot' : findClient σ.lib p w.dgaClientplist = none := hnot false
    simp only [hnot, hnot']

/-- **An ungrab through the right interface removes exactly its argument**, in the order the others
had. -/
theorem inv_ungrab (hi : Inv σ ws) (hok : UngrabOk σ.lib p d) :
    Inv (σ.exec (.ungrab d p)) (eraseClient ws p) := by
  rw [Sys.exec]
  by_cases hp : ∃ e ∈ ws, p ∈ e.clients
  · obtain ⟨e, he, hp⟩ := hp
    obtain ⟨w, wl₁, wl₂, ws₁, ws₂, hf, hwl, rfl, hsp⟩ := hi.exists_split he hp
    obtain ⟨d', l₁, l₂, hl, hd, heq⟩ := winUngrabCommon_eq hi he hf hsp.rep hp hok
    have hnd := hi.clients_nodup
    rw [← hi.wToken_eq he hp] at hsp
    obtain ⟨w', hwl', hsp'⟩ := unlinkClient_lists hwl hsp hl hnd hd
    rw [← unlinkClient_token _ _ _ d l₁.getLast?] at hsp'
    obtain ⟨hlists, hstructs, htoken⟩ := releaseClient_lists hwl' hsp'
    -- the entry that is left
    have hnde := (nodup_flatMap.1 hnd).1 e he
    have hpl : p ∈ e.list d' := by simp [hl]
    have hpl₁ : p ∉ l₁ := by
      have hndl : (e.list d').Nodup := Entry.list_nodup hnde
      rw [hl] at hndl
      exact fun hm => (nodup_append.1 hndl).2.2 p hm p (by simp) rfl
    have herase : e.setList d' (l₁ ++ l₂) = e.erase p := by
      rw [← Entry.setList_erase hnde hpl, hl, erase_append_right _ hpl₁, erase_cons_head]
    rw [flatMap_append, flatMap_cons, nodup_append, nodup_append] at hnd
    obtain ⟨-, ⟨-, -, hdisj₂⟩, hdisj₁⟩ := hnd
    have hws₁ : eraseClient ws₁ p = ws₁ := by
      refine eraseClient_of_notMem (fun e' he' hm => ?_) fun e' he' => hi.nonempty e' (by simp [he'])
      exact hdisj₁ p (mem_flatMap.2 ⟨e', he', hm⟩) p (mem_append_left _ hp) rfl
    have hws₂ : eraseClient ws₂ p = ws₂ := by
      refine eraseClient_of_notMem (fun e' he' hm => ?_) fun e' he' => hi.nonempty e' (by simp [he'])
      exact hdisj₂ p hp p (mem_flatMap.2 ⟨e', he', hm⟩) rfl
    have hws : eraseClient (ws₁ ++ e :: ws₂) p =
        ws₁ ++ ([e.erase p].filter (·.clients ≠ []) ++ ws₂) := by
      conv_rhs => rw [← hws₁, ← hws₂]
      simp only [eraseClient, map_append, map_cons, ← filter_append]
      rfl
    rw [heq]
    refine hi.erase ?_ (fun q hq hqp => hstructs q ?_ hqp) fun q => ?_
    · rw [hws, ← herase]
      exact hlists
    · rw [unlinkClient_structs]
      exact hq
    · rw [htoken, unlinkClient_token]
  · have hnone : ∀ e ∈ ws, p ∉ e.clients := fun e he hm => hp ⟨e, he, hm⟩
    rw [winUngrabCommon_of_notHeld hi hnone]
    refine hi.erase ?_ (fun q hq _ => hq) fun _ => rfl
    rw [eraseClient_of_notMem hnone hi.nonempty]
    exact hi.lists

end Ungrab

/-! ## Runs -/

/-- Calls whose ungrabs come through the right interface. -/
def Sys.GrabStep (σ : Sys) (op : Op) (τ : Sys) : Prop :=
  σ.Step op τ ∧ ∀ d p, op = .ungrab d p → UngrabOk σ.lib p d

variable {ws : List Entry} {op : Op} {ops : List Op}

theorem inv_init : Inv .init [] where
  lists := .nil
  tokens := nodup_nil
  nonempty := nofun
  perm := .nil
  nodup := nodup_nil
  alloc := nofun
  token := nofun

theorem inv_update {i : Int} {relocks : List Shinfo} (hi : Inv σ ws) :
    Inv (σ.exec (.update p i info relocks)) ws := by
  have hsame := SameLists.mbsmembUpdate σ.lib p i info relocks
  have hlists : Lists (mbsmembUpdate σ.lib p i info relocks) ws := by
    rw [Lists, hsame.wlist]
    exact reps_congr hi.lists fun _ _ q _ => hsame.next q
  refine ⟨⟨hlists, hi.tokens, hi.nonempty, hi.perm, hi.nodup⟩, fun x hx => ?_, fun x hx => ?_⟩
  · exact hsame.structs ▸ hi.alloc x hx
  · exact (hsame.token x.1).trans (hi.token x hx)

theorem inv_step (hi : Inv σ ws) (hs : σ.GrabStep op τ) : ∃ ws', Inv τ ws' := by
  obtain ⟨⟨-, hen, rfl⟩, hok⟩ := hs
  cases op with
  | grab dpy d token a info => exact inv_grab hi hen
  | ungrab d p => exact ⟨_, inv_ungrab hi (hok d p rfl)⟩
  | update p i info relocks => exact ⟨ws, inv_update hi⟩

theorem inv_run (h : Run Sys.GrabStep .init ops σ) : ∃ ws, Inv σ ws :=
  h.inv (I := fun σ => ∃ ws, Inv σ ws) ⟨[], inv_init⟩ fun _ _ _ ⟨_, hi⟩ hs => inv_step hi hs

/-- **Window grab bookkeeping.** After every sequence of grabs, ungrabs and updates in which each
ungrab comes through the right interface, the two lists of each node hold the structures in hand,
each once; and such an ungrab removes exactly its argument, the others staying in their order. -/
theorem grab_bookkeeping (h : Run Sys.GrabStep .init ops σ) :
    ∃ ws, Bookkeeping σ ws ∧
      ∀ d p τ, σ.GrabStep (.ungrab d p) τ → Bookkeeping τ (eraseClient ws p) := by
  obtain ⟨ws, hi⟩ := inv_run h
  refine ⟨ws, hi.toBookkeeping, ?_⟩
  rintro d p τ ⟨⟨-, -, rfl⟩, hok⟩
  exact (inv_ungrab hi (hok d p rfl)).toBookkeeping

/-- The shared information of a window without multibuffers. -/
def plainInfo : Shinfo := ⟨false, false, 0, 0, .other, 0, 0, true, fun _ => 0⟩

/-- A window with multibuffers whose set cannot be made. -/
def badInfo : Shinfo := { plainInfo with enabled := true, createOk := false }

/-- A window grabbed through both interfaces, the second time without its multibuffer set. -/
theorem grab_bookkeeping_both :
    ∃ ws, Bookkeeping ((Sys.init.exec (.grab false false 7 1 plainInfo)).exec
        (.grab true true 7 2 badInfo)) ws ∧
      ∀ d p τ, ((Sys.init.exec (.grab false false 7 1 plainInfo)).exec
        (.grab true true 7 2 badInfo)).GrabStep (.ungrab d p) τ →
        Bookkeeping τ (eraseClient ws p) := by
  have hrun : Run Sys.GrabStep .init [.grab false false 7 1 plainInfo, .grab true true 7 2 badInfo]
      ((Sys.init.exec (.grab false false 7 1 plainInfo)).exec (.grab true true 7 2 badInfo)) := by
    refine Run.snoc (Run.snoc Run.nil ⟨⟨by decide, ?_, rfl⟩, nofun⟩) ⟨⟨by decide, ?_, rfl⟩, nofun⟩
    · show 2 ∉ [1]
      decide
    · exact not_mem_nil
  exact grab_bookkeeping hrun

/-- A window grabbed through the drawable interface and then through the old one: the second
structure, a copy of the first with its display, is ungrabbed through the drawable interface and
stays in its list. -/
theorem ungrab_wrong_head :
    ∃ ops σ, Run Sys.Step .init ops σ ∧ ¬ ∃ ws, Bookkeeping σ ws := by
  refine ⟨[.grab true true 7 1 plainInfo, .grab false false 7 2 plainInfo, .ungrab true 2],
    ((Sys.init.exec (.grab true true 7 1 plainInfo)).exec (.grab false false 7 2 plainInfo)).exec
      (.ungrab true 2), ?_, ?_⟩
  · refine Run.snoc (Run.snoc (Run.snoc Run.nil ⟨by decide, not_mem_nil, rfl⟩)
      ⟨by decide, ?_, rfl⟩) ⟨by decide, ?_, rfl⟩
    · show 2 ∈ [2, 1]
      decide
    · show 2 ∉ [1]
      decide
  · intro hbook
    obtain ⟨ws, hb⟩ := hbook
    obtain ⟨e, ws', hr, -, rfl⟩ := forall₂_cons_left_iff.1 hb.lists
    -- the old list still starts with structure 2
    obtain ⟨l, hl, -⟩ := (hr.2 false).exists_cons_of_some (p := 2)
    have hpair : (2, e.token) ∈ pairs (e :: ws') := by
      refine mem_flatMap.2 ⟨e, mem_cons_self, mem_map.2 ⟨2, Entry.mem_clients.2 ⟨false, ?_⟩, rfl⟩⟩
      rw [hl]
      exact mem_cons_self
    have hheld : (2, e.token) ∈ [(1, 7)] := hb.perm.subset hpair
    simp at hheld

end Dga
