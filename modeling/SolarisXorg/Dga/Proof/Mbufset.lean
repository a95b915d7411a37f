import SolarisXorg.Dga.Proof.MbsInv

/-!
# Reference counts of multibuffer sets

`MbsCounted σ`: every set counts the structures in hand that point to it, it is destroyed once and
when there is none, and it is not accessed after that. It holds in every run whose calls are `Op.Ok`
(`mbufset_counts`). A grab through the old interface copies the pointer and does not count it, and
the first drawable grab of a window overwrites the copy and counts the original; so these must copy a
structure without a set (`GrabOk`).
-/

namespace Dga

open Lib List

variable {s : State} {σ τ : Sys} {p q a token : Nat} {d dpy : Bool} {info : Shinfo} {ps : List Nat}

/-! ## Grabs and ungrabs -/

/-- When a grab counts the set of the structure it copies: there is none, or the drawable interface
shares it, as it does with another drawable structure or without a display. Past `2 ^ 31` references
the count is negative. -/
def GrabOk (s : State) (dpy drawableGrabber : Bool) (token : Nat) : Prop :=
  ∀ w orig m b, s.dgaWlist.find? (·.wToken = token) = some w →
    origClient w drawableGrabber = some orig → s.mbs orig = some m → s.sets m = some b →
    drawableGrabber = true ∧ (dpy = false ∨ w.dgaClientplistDraw.isSome) ∧ b.refcnt < 2 ^ 31

theorem mbs_winInitMbufset_of_ne (hq : q ≠ p) :
    (winInitMbufset s p info).2.mbs q = s.mbs q := by
  rw [winInitMbufset]
  have hc := mbs_create s info q
  split
  · dsimp only
    exact s.mbs_modify_of_ne hq _
  · split
    all_goals
      rename_i heq
      rw [heq] at hc
      rw [State.mbs_modify_of_ne _ hq]
      exact hc

namespace MbsInv

theorem winInitMbufset (h : MbsInv s ps) (hnd : ps.Nodup) (hp : p ∈ ps) (hnone : s.mbs p = none)
    (info : Shinfo) : MbsInv (winInitMbufset s p info).2 ps := by
  rw [Dga.winInitMbufset]
  split
  · dsimp only
    apply h.congr (.modify s p _)
    intro q _
    by_cases hq : q = p
    · subst hq
      rw [State.mbs_modify_self, hnone]
    · exact s.mbs_modify_of_ne hq _
  · have hcreate : ∀ f : Window → Window, (∀ w, (f w).pMbs = (mbufsetCreate s info).1) →
        MbsInv ((mbufsetCreate s info).2.modify p f) ps := fun f hf => h.create hnd hp hnone hf
    split
    all_goals
      rename_i heq
      rw [heq] at hcreate
      dsimp only at hcreate ⊢
      exact hcreate _ (by simp)

/-- The set of a structure made for the drawable interface. -/
theorem grabMbufset (h : MbsInv s ps) (hnd : ps.Nodup) (dpy : Bool) (info : Shinfo) (hp : a ∈ ps)
    (hnone : s.mbs a = none) {w : Winlist} {l : List Nat}
    (hf : s.dgaWlist.find? (·.wToken = (s.mem a).wToken) = some w)
    (hc : Chain s.next w.dgaClientplist l) (ha : a ∉ l) :
    MbsInv (grabMbufset s dpy a info) ps := by
  rw [grabMbufset_eq dpy info hf hc ha]
  split
  · exact h.winInitMbufset hnd hp hnone info
  · exact h

theorem grabNew (h : MbsInv s ps) (hnd : (a :: ps).Nodup) :
    MbsInv (grabNew (s.alloc a) dpy d token a info) (a :: ps) := by
  have hnew : MbsInv (((s.alloc a).write a (newClient token d)).setWlist
      ((Winlist.mk token none none).setHead d (some a) :: s.dgaWlist)) (a :: ps) := by
    refine h.add ⟨rfl, rfl, rfl, fun _ hm => hm⟩ (fun p hp => ?_) ?_
    · have hpa : p ≠ a := fun he => (nodup_cons.1 hnd).1 (he ▸ hp)
      exact State.mbs_write_of_ne (s.alloc a) hpa _
    · show ((s.alloc a).write a (newClient token d)).mbs a = none
      rw [State.mbs, State.mem_write_self]
      rfl
  rw [Dga.grabNew]
  split
  · rename_i hd
    subst hd
    refine hnew.grabMbufset (w := ⟨token, none, some a⟩) (l := []) hnd dpy info mem_cons_self ?_ ?_
      rfl (by simp)
    · show ((s.alloc a).write a (newClient token true)).mbs a = none
      rw [State.mbs, State.mem_write_self]
      rfl
    · simp [State.setWlist, Winlist.setHead, State.write, newClient]
  · exact hnew

variable {w : Winlist} {orig : Nat}

theorem grabAgainOld (h : MbsInv s ps) (ha : a ∉ ps) (hnone : s.mbs orig = none) :
    MbsInv (grabAgainOld (s.alloc a) w orig a) (a :: ps) := by
  refine h.add ⟨rfl, rfl, rfl, fun _ hm => hm⟩ (fun p hp => ?_) ?_
  · have hpa : p ≠ a := fun he => ha (he ▸ hp)
    exact State.mbs_write_of_ne (s.alloc a) hpa _
  · refine Eq.trans ?_ hnone
    show ((s.alloc a).write a _).mbs a = _
    rw [State.mbs, State.mem_write_self]
    rfl

theorem grabAgainDraw (h : MbsInv s ps) (hnd : (a :: ps).Nodup) (ho : orig ∈ ps)
    (hf : s.dgaWlist.find? (·.wToken = token) = some w) (ht : (s.mem orig).wToken = token)
    {l : List Nat} (hc : Chain s.next w.dgaClientplist l) (ha : a ∉ l)
    (hok : ∀ m b, s.mbs orig = some m → s.sets m = some b →
      (dpy = false ∨ w.dgaClientplistDraw.isSome) ∧ b.refcnt < 2 ^ 31) :
    MbsInv (grabAgainDraw (s.alloc a) dpy w orig a info) (a :: ps) := by
  have hne : ∀ p ∈ ps, p ≠ a := fun p hp he => (nodup_cons.1 hnd).1 (he ▸ hp)
  rw [Dga.grabAgainDraw, copyDraw]
  by_cases hdraw : w.dgaClientplistDraw.isSome
  · rw [if_pos hdraw]
    refine h.share rfl rfl rfl rfl (fun p hp => ?_) ho ?_ fun m b hm hb => (hok m b hm hb).2
    · exact State.mbs_write_of_ne (s.alloc a) (hne p hp) _
    · show ((s.alloc a).write a _).mbs a = _
      rw [State.mbs, State.mem_write_self]
      rfl
  rw [if_neg hdraw]
  -- the structure is set up for the drawable interface
  dsimp only
  rw [show (s.alloc a).mem orig = s.mem orig from rfl]
  generalize hcopy : drawClient (s.mem orig) = c
  have hcm : c.pMbs = s.mbs orig := by
    rw [← hcopy]
    rfl
  have hct : c.wToken = token := by
    rw [← hcopy]
    exact ht
  have hself : ((s.alloc a).write a c).mbs a = s.mbs orig := by
    rw [State.mbs, State.mem_write_self, hcm]
  have hother : ∀ p ∈ ps, ((s.alloc a).write a c).mbs p = s.mbs p := fun p hp =>
    State.mbs_write_of_ne (s.alloc a) (hne p hp) _
  cases hdpy : dpy with
  | false =>
    refine h.share rfl rfl rfl rfl (fun p hp => ?_) ho ?_ fun m b hm hb => (hok m b hm hb).2
    · exact (State.mbs_modify_of_ne ((s.alloc a).write a c) (hne p hp)
        fun w => { w with wNext := none }).trans (hother p hp)
    · exact (State.mbs_modify_self ((s.alloc a).write a c) a
        fun w => { w with wNext := none }).trans hself
  | true =>
    have hnone : s.mbs orig = none := by
      by_contra hsome
      obtain ⟨m, hm⟩ := Option.ne_none_iff_exists'.1 hsome
      obtain ⟨b, hb⟩ := Option.isSome_iff_exists.1 (h.live orig ho m hm)
      rcases (hok m b hm hb).1 with hd | hd
      · rw [hdpy] at hd
        cases hd
      · exact hdraw hd
    have hadd : MbsInv ((s.alloc a).write a c) (a :: ps) :=
      h.add ⟨rfl, rfl, rfl, fun _ hm => hm⟩ hother (hself.trans hnone)
    have hf' : ((s.alloc a).write a c).dgaWlist.find?
        (·.wToken = (((s.alloc a).write a c).mem a).wToken) = some w := by
      rw [State.mem_write_self, hct]
      exact hf
    have hc' : Chain ((s.alloc a).write a c).next w.dgaClientplist l := by
      apply hc.congr
      intro p hp
      have hpa : p ≠ a := fun he => ha (he ▸ hp)
      rw [State.next, State.mem_write_of_ne _ hpa]
      rfl
    have hg := (hadd.grabMbufset hnd true info mem_cons_self (hself.trans hnone)
      hf' hc' ha).modify (f := fun w => { w with wNext := none }) (by simp) a
    have horig : (((Dga.grabMbufset ((s.alloc a).write a c) true a info).modify a
        fun w => { w with wNext := none }).mem orig).pMbs = none := by
      have hoa := hne orig ho
      rw [grabMbufset_eq true info hf' hc' ha, if_pos rfl]
      exact (State.mbs_modify_of_ne _ hoa _).trans
        ((mbs_winInitMbufset_of_ne hoa).trans ((hother orig ho).trans hnone))
    rw [shareMbs]
    simp only [State.setWlist, horig]
    exact hg.congr ⟨rfl, rfl, rfl, fun _ hm => hm⟩ fun _ _ => rfl

end MbsInv

theorem SameSets.unlinkClient {prev : Option Nat} : SameSets s (unlinkClient s p d prev) := by
  cases prev <;> exact ⟨rfl, rfl, rfl, fun _ h => h⟩

theorem mbs_unlinkClient {prev : Option Nat} : (unlinkClient s p d prev).mbs q = s.mbs q := by
  cases prev with
  | none => rfl
  | some r =>
    by_cases hq : q = r
    · subst hq
      rw [unlinkClient, State.mbs_modify_self, State.mbs]
    · rw [unlinkClient, State.mbs_modify_of_ne s hq]

/-- The end of an ungrab: the structure lets go of its set and leaves. -/
theorem MbsInv.releaseClient (h : MbsInv s ps) (hnd : ps.Nodup) (hp : p ∈ ps) :
    MbsInv (releaseClient s p) (ps.filter (· ≠ p)) := by
  have hr := (h.release hnd hp).remove (mbs_releaseMbs_self s p)
  rw [Dga.releaseClient]
  split
  · exact hr.congr ⟨rfl, rfl, rfl, fun _ hm => hm⟩ fun _ _ => rfl
  · exact hr

/-! ## Runs -/

namespace Sys

/-- The structures in hand. -/
def structs (σ : Sys) : List Nat := σ.held.map Prod.fst

/-- The number of structures in hand that point to a set. -/
def holders (σ : Sys) (m : Nat) : Nat := Lib.holders σ.lib.mbs σ.structs m

end Sys

variable {ws : List Entry} {op : Op} {ops : List Op}

theorem mbsInv_grab (hi : Inv σ ws) (h : MbsInv σ.lib σ.structs) (ha : a ∉ σ.lib.structs)
    (hok : GrabOk σ.lib dpy d token) :
    MbsInv (winGrabCommon σ.lib dpy d token a info) (a :: σ.structs) := by
  have hap : a ∉ σ.structs := by
    intro hm
    obtain ⟨x, hx, rfl⟩ := mem_map.1 hm
    exact ha (hi.alloc x hx)
  have hnd : (a :: σ.structs).Nodup := nodup_cons.2 ⟨hap, hi.nodup⟩
  have halloc : (σ.lib.alloc a).dgaWlist = σ.lib.dgaWlist := rfl
  rw [winGrabCommon]
  cases hf : σ.lib.dgaWlist.find? (·.wToken = token) with
  | none =>
    simp only [halloc, hf]
    exact h.grabNew hnd
  | some w =>
    obtain ⟨wl₁, wl₂, ws₁, e, ws₂, -, rfl, hsp⟩ := exists_split hi.lists hf
    have he : e ∈ ws₁ ++ e :: ws₂ := by simp
    obtain ⟨orig, horig, ho⟩ := origClient_mem (d := d) hsp.rep (hi.nonempty e he)
    have ht : (σ.lib.mem orig).wToken = token :=
      (hi.wToken_eq he horig).trans (hsp.rep.1 ▸ hsp.here)
    have hop : orig ∈ σ.structs := mem_map.2 ⟨_, hi.mem_held he horig, rfl⟩
    simp only [halloc, hf, ho]
    cases d with
    | true =>
      have hold : a ∉ e.list false := fun hm =>
        ha (hi.mem_structs he (Entry.mem_clients.2 ⟨false, hm⟩))
      exact h.grabAgainDraw hnd hop hf ht (hsp.rep.2 false) hold fun m b hm hb =>
        (hok w orig m b hf ho hm hb).2
    | false =>
      apply h.grabAgainOld hap
      by_contra hsome
      obtain ⟨m, hm⟩ := Option.ne_none_iff_exists'.1 hsome
      obtain ⟨b, hb⟩ := Option.isSome_iff_exists.1 (h.live orig hop m hm)
      exact absurd (hok w orig m b hf ho hm hb).1 (by simp)

theorem mbsInv_ungrab (hi : Inv σ ws) (h : MbsInv σ.lib σ.structs) (hok : UngrabOk σ.lib p d) :
    MbsInv (winUngrabCommon σ.lib p d) (σ.structs.filter (· ≠ p)) := by
  by_cases hp : ∃ e ∈ ws, p ∈ e.clients
  · obtain ⟨e, he, hp⟩ := hp
    obtain ⟨w, wl₁, wl₂, ws₁, ws₂, hf, -, rfl, hsp⟩ := hi.exists_split he hp
    obtain ⟨d', l₁, l₂, -, -, heq⟩ := winUngrabCommon_eq hi he hf hsp.rep hp hok
    have hpm : p ∈ σ.structs := mem_map.2 ⟨_, hi.mem_held he hp, rfl⟩
    rw [heq]
    exact (h.congr .unlinkClient fun _ _ => mbs_unlinkClient).releaseClient hi.nodup hpm
  · have hnot : p ∉ σ.structs := by
      intro hm
      obtain ⟨x, hx, rfl⟩ := mem_map.1 hm
      obtain ⟨e, he, hxe, -⟩ := mem_pairs.1 (hi.perm.mem_iff.2 hx)
      exact hp ⟨e, he, hxe⟩
    rw [winUngrabCommon_of_notHeld hi fun e he hm => hp ⟨e, he, hm⟩, filter_eq_self.2]
    · exact h
    · intro q hq
      have hqp : q ≠ p := fun hqp => hnot (hqp ▸ hq)
      simpa using hqp

/-- What a call must be like for the counts to stay right. -/
def Op.Ok (s : State) : Op → Prop
  | .grab dpy drawableGrabber token _ _ => GrabOk s dpy drawableGrabber token
  | .ungrab drawableGrabber p => UngrabOk s p drawableGrabber
  | .update p bufIndex info relocks => UpdateOk s p bufIndex info relocks

/-- Such calls. -/
def Sys.MbsStep (σ : Sys) (op : Op) (τ : Sys) : Prop := σ.Step op τ ∧ op.Ok σ.lib

theorem mbsInv_step (hi : Inv σ ws) (h : MbsInv σ.lib σ.structs) (hs : σ.MbsStep op τ) :
    ∃ ws', Inv τ ws' ∧ MbsInv τ.lib τ.structs := by
  have hgrab : σ.GrabStep op τ := by
    refine ⟨hs.1, fun d p hop => ?_⟩
    subst hop
    exact hs.2
  obtain ⟨ws', hi'⟩ := inv_step hi hgrab
  obtain ⟨⟨-, hen, rfl⟩, hok⟩ := hs
  refine ⟨ws', hi', ?_⟩
  cases op with
  | grab dpy d token a info => exact mbsInv_grab hi h hen hok
  | ungrab d p =>
    have hm := mbsInv_ungrab hi h hok
    rw [Sys.structs, filter_map] at hm
    exact hm
  | update p i info relocks => exact h.mbsmembUpdate hi.nodup hen.1 hok

theorem mbsInv_init : MbsInv .init [] where
  refcnt := nofun
  live := nofun
  fresh := fun _ _ => ⟨rfl, not_mem_nil⟩
  gone := nofun
  once := nodup_nil
  clean := fun _ => not_mem_nil

/-- **Multibuffer sets are counted right**: the count of a set that is there is the number of
structures that point to it, a set was destroyed once if none points to it and not at all otherwise,
and no set was accessed after that. -/
structure MbsCounted (σ : Sys) : Prop where
  refcnt : ∀ m b, σ.lib.sets m = some b → b.refcnt = σ.holders m
  live : ∀ p ∈ σ.structs, ∀ m, σ.lib.mbs p = some m → (σ.lib.sets m).isSome
  destroyed : ∀ m < σ.lib.nextSet, σ.lib.destroyed.count m = if σ.holders m = 0 then 1 else 0
  clean : ∀ m, Fault.destroyed m ∉ σ.lib.faults

theorem MbsInv.counted (h : MbsInv σ.lib σ.structs) : MbsCounted σ where
  refcnt := fun m b hb => (h.refcnt m b hb).1
  live := h.live
  destroyed := by
    intro m hm
    cases hs : σ.lib.sets m with
    | none =>
      have hzero : σ.holders m = 0 := by
        by_contra hne
        obtain ⟨q, hq, hqm⟩ := holders_pos_iff.1 (Nat.pos_of_ne_zero hne)
        have hlive := h.live q hq m hqm
        rw [hs] at hlive
        cases hlive
      rw [if_pos hzero]
      exact count_eq_one_of_mem h.once ((h.gone m hm).1 hs)
    | some b =>
      obtain ⟨hcount, hpos, -⟩ := h.refcnt m b hs
      have hne : σ.holders m ≠ 0 := by
        have heq : b.refcnt = σ.holders m := hcount
        omega
      rw [if_neg hne]
      exact count_eq_zero_of_not_mem (h.notMem_destroyed hs)
  clean := h.clean

/-- **Reference counts of multibuffer sets.** In every run of grabs, ungrabs and lock-time updates
whose calls are all `Op.Ok`, the sets are counted right. -/
theorem mbufset_counts (h : Run Sys.MbsStep .init ops σ) : MbsCounted σ := by
  have hrun : ∃ ws, Inv σ ws ∧ MbsInv σ.lib σ.structs :=
    h.inv (I := fun σ => ∃ ws, Inv σ ws ∧ MbsInv σ.lib σ.structs) ⟨[], inv_init, mbsInv_init⟩
      fun _ _ _ ⟨_, hi, hm⟩ hs => mbsInv_step hi hm hs
  obtain ⟨ws, -, hm⟩ := hrun
  exact hm.counted

/-- A window with multibuffers whose composition changed `n` times. -/
def bufInfo (n : Nat) : Shinfo := ⟨false, true, n, n, .other, 0, 2, true, fun _ => 0⟩

/-- Two drawable structures share a set, and the composition changes while one of them is
updated. -/
theorem mbufset_counts_shared :
    MbsCounted (((Sys.init.exec (.grab true true 7 1 (bufInfo 1))).exec
      (.grab true true 7 2 (bufInfo 1))).exec (.update 1 0 (bufInfo 1) [bufInfo 2])) := by
  have hrun : Run Sys.MbsStep .init [.grab true true 7 1 (bufInfo 1),
      .grab true true 7 2 (bufInfo 1), .update 1 0 (bufInfo 1) [bufInfo 2]]
      (((Sys.init.exec (.grab true true 7 1 (bufInfo 1))).exec
        (.grab true true 7 2 (bufInfo 1))).exec (.update 1 0 (bufInfo 1) [bufInfo 2])) := by
    refine Run.snoc (Run.snoc (Run.snoc Run.nil ⟨⟨by decide, not_mem_nil, rfl⟩, nofun⟩)
      ⟨⟨by decide, ?_, rfl⟩, ?_⟩) ⟨⟨by decide, ?_, rfl⟩, ?_⟩
    · exact ⟨by decide, rfl⟩
    · intro _ b hb
      obtain rfl : { newMbufset (bufInfo 1) with refcnt := 2 } = b := Option.some.inj hb
      exact .inl (by decide)
    · show 2 ∉ [1]
      decide
    · intro w orig m b hf ho hm hb
      obtain rfl : Winlist.mk 7 none (some 1) = w := Option.some.inj hf
      obtain rfl : 1 = orig := Option.some.inj ho
      obtain rfl : 0 = m := Option.some.inj hm
      obtain rfl : newMbufset (bufInfo 1) = b := Option.some.inj hb
      exact ⟨rfl, .inr rfl, by decide⟩
  exact mbufset_counts hrun

/-- A structure of the old interface that copies a drawable one is not counted. -/
theorem copied_set_not_counted :
    ∃ ops σ, Run Sys.Step .init ops σ ∧ ¬ MbsCounted σ := by
  refine ⟨[.grab true true 7 1 (bufInfo 1), .grab false false 7 2 (bufInfo 1)],
    (Sys.init.exec (.grab true true 7 1 (bufInfo 1))).exec (.grab false false 7 2 (bufInfo 1)),
    ?_, ?_⟩
  · refine Run.snoc (Run.snoc Run.nil ⟨by decide, not_mem_nil, rfl⟩) ⟨by decide, ?_, rfl⟩
    show 2 ∉ [1]
    decide
  · intro hc
    have hone : 1 = Sys.holders _ 0 := hc.refcnt 0 (newMbufset (bufInfo 1)) rfl
    exact absurd hone (by decide)

end Dga
