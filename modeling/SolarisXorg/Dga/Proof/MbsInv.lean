import SolarisXorg.Lib.Holders
import SolarisXorg.Dga.Proof.WinGrab

/-!
# Multibuffer sets that structures share

`MbsInv s ps`: for the structures `ps`, every set that is there counts the structures that point to
it, no structure points to a set that was destroyed, and every set that is gone was destroyed once.
A structure lets go of its set (`MbsInv.release`), gets a new one (`MbsInv.create`) or shares one
(`MbsInv.share`) without breaking it. So it is kept by updates of the window and, as long as the set
their loop was entered with is there, by updates of a buffer (`MbsInv.mbufLoop`): the loop writes
through the pointer it started with, also after the structure got another set. `UpdateOk` says when
that set is still there.
-/

namespace Dga

open Lib List

variable {s t : State} {σ τ : Sys} {p q a m token : Nat} {d dpy : Bool} {info : Shinfo}
  {ps : List Nat}

/-- The structures' multibuffer sets. -/
def State.mbs (s : State) (p : Nat) : Option Nat := (s.mem p).pMbs

@[simp] theorem State.mbs_modify_self (s : State) (p : Nat) (f : Window → Window) :
    (s.modify p f).mbs p = (f (s.mem p)).pMbs := by
  rw [State.mbs, State.modify, State.mem_write_self]

theorem State.mbs_write_of_ne (s : State) (h : q ≠ p) (w : Window) :
    (s.write p w).mbs q = s.mbs q := by
  rw [State.mbs, State.mem_write_of_ne _ h, State.mbs]

theorem State.mbs_modify_of_ne (s : State) (h : q ≠ p) (f : Window → Window) :
    (s.modify p f).mbs q = s.mbs q :=
  State.mbs_write_of_ne s h _

/-- The sets are counted right for the structures `ps`. -/
structure MbsInv (s : State) (ps : List Nat) : Prop where
  refcnt : ∀ m b, s.sets m = some b →
    b.refcnt = holders s.mbs ps m ∧ 0 < b.refcnt ∧ b.refcnt ≤ 2 ^ 31
  live : ∀ p ∈ ps, ∀ m, s.mbs p = some m → (s.sets m).isSome
  fresh : ∀ m, s.nextSet ≤ m → s.sets m = none ∧ m ∉ s.destroyed
  gone : ∀ m < s.nextSet, s.sets m = none ↔ m ∈ s.destroyed
  once : s.destroyed.Nodup
  clean : ∀ m, Fault.destroyed m ∉ s.faults

/-- The same sets, with no further access of a destroyed one. -/
structure SameSets (s t : State) : Prop where
  sets : t.sets = s.sets
  nextSet : t.nextSet = s.nextSet
  destroyed : t.destroyed = s.destroyed
  faults : ∀ m, Fault.destroyed m ∈ t.faults → Fault.destroyed m ∈ s.faults

theorem SameSets.modify (s : State) (p : Nat) (f : Window → Window) : SameSets s (s.modify p f) :=
  ⟨rfl, rfl, rfl, fun _ h => h⟩

namespace MbsInv

theorem congr (h : MbsInv s ps) (hs : SameSets s t) (hm : ∀ p ∈ ps, t.mbs p = s.mbs p) :
    MbsInv t ps where
  refcnt := by
    intro m b hb
    rw [hs.sets] at hb
    rw [holders_congr hm]
    exact h.refcnt m b hb
  live := by
    intro p hp m hpm
    rw [hs.sets]
    exact h.live p hp m (hm p hp ▸ hpm)
  fresh := by
    rw [hs.sets, hs.nextSet, hs.destroyed]
    exact h.fresh
  gone := by
    rw [hs.sets, hs.nextSet, hs.destroyed]
    exact h.gone
  once := hs.destroyed ▸ h.once
  clean := fun m hm => h.clean m (hs.faults m hm)

theorem null (h : MbsInv s ps) : MbsInv (s.fault .null) ps :=
  h.congr ⟨rfl, rfl, rfl, fun m hm => by simpa [State.fault] using hm⟩ fun _ _ => rfl

/-- Fields other than `pMbs` do not matter. -/
theorem modify (h : MbsInv s ps) {f : Window → Window} (hf : ∀ w, (f w).pMbs = w.pMbs) (p : Nat) :
    MbsInv (s.modify p f) ps := by
  apply h.congr (.modify s p f)
  intro q _
  by_cases hq : q = p
  · subst hq
    rw [State.mbs_modify_self, hf, State.mbs]
  · exact s.mbs_modify_of_ne hq f

theorem lt_nextSet (h : MbsInv s ps) {b : MbufSet} (hb : s.sets m = some b) : m < s.nextSet := by
  by_contra hge
  rw [(h.fresh m (by omega)).1] at hb
  cases hb

theorem notMem_destroyed (h : MbsInv s ps) {b : MbufSet} (hb : s.sets m = some b) :
    m ∉ s.destroyed := by
  intro hm
  rw [(h.gone m (h.lt_nextSet hb)).2 hm] at hb
  cases hb

/-! ## What structures do with sets -/

/-- A structure with no set. -/
theorem add (h : MbsInv s ps) (hs : SameSets s t) (hm : ∀ p ∈ ps, t.mbs p = s.mbs p)
    (ha : t.mbs a = none) : MbsInv t (a :: ps) := by
  have ht := h.congr hs hm
  refine ⟨fun m b hb => ?_, fun p hp m hpm => ?_, ht.fresh, ht.gone, ht.once, ht.clean⟩
  · rw [holders_cons, ha, if_neg (by simp)]
    exact ht.refcnt m b hb
  · rcases mem_cons.1 hp with rfl | hp
    · rw [ha] at hpm
      cases hpm
    · exact ht.live p hp m hpm

/-- A structure with no set leaves. -/
theorem remove (h : MbsInv s ps) (hp : s.mbs p = none) : MbsInv s (ps.filter (· ≠ p)) := by
  refine ⟨fun m b hb => ?_, fun q hq => h.live q (mem_filter.1 hq).1, h.fresh, h.gone, h.once,
    h.clean⟩
  rw [holders_filter_ne hp]
  exact h.refcnt m b hb

/-- Writing a set that is there or a new one, with the count that its holders then are. -/
theorem put (h : MbsInv s ps) {b : MbufSet} {ps' : List Nat} (hle : m ≤ s.nextSet)
    (hmd : m ∉ s.destroyed) (hsets : t.sets = Function.update s.sets m (some b))
    (hn : t.nextSet = max s.nextSet (m + 1)) (hd : t.destroyed = s.destroyed)
    (hf : t.faults = s.faults)
    (hc : b.refcnt = holders t.mbs ps' m ∧ 0 < b.refcnt ∧ b.refcnt ≤ 2 ^ 31)
    (ho : ∀ n, n ≠ m → holders t.mbs ps' n = holders s.mbs ps n) : MbsInv t ps' := by
  have hother : ∀ n, n ≠ m → t.sets n = s.sets n := fun n hnm => by
    rw [hsets, Function.update_of_ne hnm]
  have hself : t.sets m = some b := by rw [hsets, Function.update_self]
  refine ⟨fun n c hnc => ?_, fun p hp n hpn => ?_, fun n hge => ?_, fun n hlt => ?_, ?_, ?_⟩
  · by_cases hnm : n = m
    · subst hnm
      obtain rfl := Option.some.inj (hself.symm.trans hnc)
      exact hc
    · rw [ho n hnm]
      exact h.refcnt n c (hother n hnm ▸ hnc)
  · by_cases hnm : n = m
    · rw [hnm, hself]
      rfl
    · have hpos := holders_pos_iff.2 ⟨p, hp, hpn⟩
      rw [ho n hnm] at hpos
      obtain ⟨q, hq, hqn⟩ := holders_pos_iff.1 hpos
      rw [hother n hnm]
      exact h.live q hq n hqn
  · rw [hn] at hge
    rw [hother n (by omega), hd]
    exact h.fresh n (by omega)
  · rw [hn] at hlt
    rw [hd]
    by_cases hnm : n = m
    · subst hnm
      simp [hself, hmd]
    · rw [hother n hnm]
      exact h.gone n (by omega)
  · exact hd ▸ h.once
  · exact hf ▸ h.clean

theorem max_nextSet (h : MbsInv s ps) {b : MbufSet} (hb : s.sets m = some b) :
    s.nextSet = max s.nextSet (m + 1) := by
  have hlt := h.lt_nextSet hb
  omega

/-- The sets other than `m` keep their holders when only one structure's pointer to `m` changes. -/
theorem holders_of_ne (hnd : ps.Nodup) (hp : p ∈ ps) (hm : s.mbs p = some m)
    (ht : ∀ q ∈ ps, q ≠ p → t.mbs q = s.mbs q) (htp : t.mbs p = none) {n : Nat} :
    holders t.mbs ps n + (if n = m then 1 else 0) = holders s.mbs ps n := by
  have heq := holders_of_eq_off hnd hp ht n
  rw [hm, htp] at heq
  simp only [Option.some.injEq, reduceCtorEq, if_false, Nat.add_zero] at heq
  rw [← heq]
  simp only [eq_comm]

/-- The last structure that holds a set lets go of it. -/
theorem destroy (h : MbsInv s ps) {b : MbufSet} (hb : s.sets m = some b) (hone : b.refcnt = 1)
    (hc : ∀ n, holders ((mbufsetDestroy s m).modify p fun w => { w with pMbs := none }).mbs ps n +
      (if n = m then 1 else 0) = holders s.mbs ps n) :
    MbsInv ((mbufsetDestroy s m).modify p fun w => { w with pMbs := none }) ps := by
  obtain ⟨hcount, -, -⟩ := h.refcnt m b hb
  refine ⟨fun n b' hb' => ?_, fun q hq n hqn => ?_, fun n hn => ?_, fun n hn => ?_, ?_, h.clean⟩
  · have hnm : n ≠ m := by
      rintro rfl
      simp [State.modify, State.write, mbufsetDestroy] at hb'
    have hcn := hc n
    rw [if_neg hnm, Nat.add_zero] at hcn
    rw [hcn]
    apply h.refcnt n b'
    simpa [State.modify, State.write, mbufsetDestroy, hnm] using hb'
  · have hnm : n ≠ m := by
      rintro rfl
      have hpos' := holders_pos_iff.2 ⟨q, hq, hqn⟩
      have hcn := hc n
      rw [if_pos rfl] at hcn
      omega
    have hqp : q ≠ p := by
      rintro rfl
      simp at hqn
    rw [State.mbs_modify_of_ne _ hqp] at hqn
    have hlive := h.live q hq n hqn
    simpa [State.modify, State.write, mbufsetDestroy, hnm] using hlive
  · have hlt := h.lt_nextSet hb
    have hle : s.nextSet ≤ n := hn
    have hnm : n ≠ m := by omega
    have hfr := h.fresh n hle
    simpa [State.modify, State.write, mbufsetDestroy, hnm] using hfr
  · by_cases hnm : n = m
    · subst hnm
      simp [State.modify, State.write, mbufsetDestroy]
    · have hgone := h.gone n hn
      simpa [State.modify, State.write, mbufsetDestroy, hnm] using hgone
  · exact nodup_cons.2 ⟨h.notMem_destroyed hb, h.once⟩

/-- A structure lets go of its set: the last one destroys it. -/
theorem decref (h : MbsInv s ps) (hnd : ps.Nodup) (hp : p ∈ ps) (hm : s.mbs p = some m) :
    MbsInv ((mbufsetDecref s m).modify p fun w => { w with pMbs := none }) ps := by
  obtain ⟨b, hb⟩ := Option.isSome_iff_exists.1 (h.live p hp m hm)
  obtain ⟨hcount, hpos, hmax⟩ := h.refcnt m b hb
  have hdec : (b.refcnt + (2 ^ 32 - 1)) % 2 ^ 32 = b.refcnt - 1 := by omega
  have hcounts : ∀ u : State, u.mem = s.mem → ∀ n,
      holders (u.modify p fun w => { w with pMbs := none }).mbs ps n + (if n = m then 1 else 0) =
        holders s.mbs ps n := by
    intro u hu n
    refine holders_of_ne hnd hp hm (fun q _ hq => ?_) (by simp)
    rw [State.mbs_modify_of_ne _ hq, State.mbs, hu, State.mbs]
  rw [mbufsetDecref, hb]
  simp only [hdec]
  split
  case isTrue hdead =>
    have hone : b.refcnt = 1 := by
      simp only [refcntDead, Bool.or_eq_true, decide_eq_true_eq] at hdead
      omega
    exact h.destroy hb hone (hcounts (mbufsetDestroy s m) rfl)
  case isFalse hdead =>
    -- others hold it still
    have htwo : 2 ≤ b.refcnt := by
      simp only [refcntDead, Bool.or_eq_true, decide_eq_true_eq] at hdead
      omega
    have hc := hcounts { s with
      sets := Function.update s.sets m (some { b with refcnt := b.refcnt - 1 }) } rfl
    refine h.put (Nat.le_of_lt (h.lt_nextSet hb)) (h.notMem_destroyed hb) rfl (h.max_nextSet hb)
      rfl rfl ?_ fun n hnm => ?_
    · have hcm := hc m
      rw [if_pos rfl] at hcm
      refine ⟨?_, ?_, ?_⟩ <;> dsimp only <;> omega
    · have hcn := hc n
      rwa [if_neg hnm, Nat.add_zero] at hcn

theorem release (h : MbsInv s ps) (hnd : ps.Nodup) (hp : p ∈ ps) : MbsInv (releaseMbs s p) ps := by
  rw [releaseMbs]
  split
  · exact h
  · rename_i hm
    exact h.decref hnd hp hm

/-- A structure without a set gets a new one, or none if it cannot be made. -/
theorem create (h : MbsInv s ps) (hnd : ps.Nodup) (hp : p ∈ ps) (hnone : s.mbs p = none)
    {f : Window → Window} (hf : ∀ w, (f w).pMbs = (mbufsetCreate s info).1) :
    MbsInv ((mbufsetCreate s info).2.modify p f) ps := by
  rw [mbufsetCreate] at hf ⊢
  split at hf
  · rename_i hok
    rw [if_pos hok]
    obtain ⟨hfresh, hfreshd⟩ := h.fresh s.nextSet (Nat.le_refl _)
    have hc : ∀ u : State, u.mem = s.mem → ∀ n, holders (u.modify p f).mbs ps n =
        holders s.mbs ps n + if s.nextSet = n then 1 else 0 := by
      intro u hu n
      have heq := holders_of_eq_off (f := s.mbs) (g := (u.modify p f).mbs) hnd hp (fun q _ hq => by
        rw [State.mbs_modify_of_ne _ hq, State.mbs, hu, State.mbs]) n
      rw [State.mbs_modify_self, hf] at heq
      simpa [hnone] using heq
    have hzero : holders s.mbs ps s.nextSet = 0 := by
      by_contra hne
      obtain ⟨q, hq, hqm⟩ := holders_pos_iff.1 (Nat.pos_of_ne_zero hne)
      have hlive := h.live q hq _ hqm
      rw [hfresh] at hlive
      cases hlive
    refine h.put (Nat.le_refl _) hfreshd rfl (by simp [State.modify, State.write]) rfl rfl ?_
      fun n hn => ?_
    · have hcm : holders _ ps s.nextSet = _ := hc _ rfl s.nextSet
      rw [hzero, if_pos rfl] at hcm
      exact ⟨hcm.symm, Nat.one_pos, (by decide : 1 ≤ 2 ^ 31)⟩
    · have hcn : holders _ ps n = _ := hc _ rfl n
      rwa [if_neg (Ne.symm hn), Nat.add_zero] at hcn
  · rename_i hok
    rw [if_neg hok]
    apply h.congr (.modify s p f)
    intro q _
    by_cases hq : q = p
    · subst hq
      rw [State.mbs_modify_self, hf, hnone]
    · exact s.mbs_modify_of_ne hq f

/-- A new structure shares the set of another one. -/
theorem share (h : MbsInv s ps) (hs : t.sets = s.sets) (hn : t.nextSet = s.nextSet)
    (hd : t.destroyed = s.destroyed) (hf : t.faults = s.faults)
    (hm : ∀ p ∈ ps, t.mbs p = s.mbs p) (hp : p ∈ ps) (ha : t.mbs a = s.mbs p)
    (hmax : ∀ m b, s.mbs p = some m → s.sets m = some b → b.refcnt < 2 ^ 31) :
    MbsInv (shareMbs t p) (a :: ps) := by
  have htp : (t.mem p).pMbs = s.mbs p := hm p hp
  have hsame : SameSets s t := ⟨hs, hn, hd, fun m hmf => hf ▸ hmf⟩
  rw [shareMbs, htp]
  cases hmp : s.mbs p with
  | none => exact h.add hsame hm (ha.trans hmp)
  | some m =>
    obtain ⟨b, hb⟩ := Option.isSome_iff_exists.1 (h.live p hp m hmp)
    obtain ⟨hcount, hpos, -⟩ := h.refcnt m b hb
    have hlt := hmax m b hmp hb
    have hinc : (b.refcnt + 1) % 2 ^ 32 = b.refcnt + 1 := Nat.mod_eq_of_lt (by omega)
    simp only [mbufsetIncref, hs, hb, hinc]
    have hc : ∀ n, holders t.mbs (a :: ps) n = holders s.mbs ps n + if m = n then 1 else 0 := by
      intro n
      rw [holders_cons, ha, hmp, holders_congr hm]
      simp only [Option.some.injEq]
    refine h.put (Nat.le_of_lt (h.lt_nextSet hb)) (h.notMem_destroyed hb) rfl
      (hn.trans (h.max_nextSet hb)) hd hf ?_ fun n hnm => ?_
    · refine ⟨?_, ?_, ?_⟩
      · show b.refcnt + 1 = holders t.mbs (a :: ps) m
        rw [hc, if_pos rfl, hcount]
      · exact Nat.succ_pos _
      · exact hlt
    · show holders t.mbs (a :: ps) n = _
      rw [hc, if_neg (Ne.symm hnm), Nat.add_zero]

end MbsInv

/-! ## Updates -/

theorem mbs_releaseMbs_self (s : State) (p : Nat) : (releaseMbs s p).mbs p = none := by
  rw [releaseMbs]
  split
  · assumption
  · rw [State.mbs_modify_self]

theorem mbs_decref (s : State) (m q : Nat) : (mbufsetDecref s m).mbs q = s.mbs q := by
  rw [mbufsetDecref]
  split
  · rfl
  · dsimp only
    split <;> rfl

theorem mbs_releaseMbs_of_ne (hq : q ≠ p) : (releaseMbs s p).mbs q = s.mbs q := by
  rw [releaseMbs]
  split
  · rfl
  · rw [State.mbs_modify_of_ne _ hq, mbs_decref]

theorem mbs_create (s : State) (info : Shinfo) (q : Nat) :
    (mbufsetCreate s info).2.mbs q = s.mbs q := by
  rw [mbufsetCreate]
  split <;> rfl

theorem mbs_syncMbufset_of_ne (hq : q ≠ p) : (syncMbufset s p info).mbs q = s.mbs q := by
  rw [syncMbufset]
  split
  · rfl
  · have hr : ((releaseMbs s p).modify p fun w =>
        { w with cMbcomposseq := info.compositionseq }).mbs q = s.mbs q := by
      rw [State.mbs_modify_of_ne _ hq, mbs_releaseMbs_of_ne hq]
    dsimp only
    split
    · exact hr
    · rw [State.mbs_modify_of_ne _ hq, mbs_create, hr]

theorem syncMbufset_of_eq (h : (s.mem p).cMbcomposseq = info.compositionseq) :
    syncMbufset s p info = s := by
  rw [syncMbufset, if_pos h]

theorem composseq_syncMbufset (s : State) (p : Nat) (info : Shinfo) :
    ((syncMbufset s p info).mem p).cMbcomposseq = info.compositionseq := by
  rw [syncMbufset]
  split
  · assumption
  · dsimp only
    split
    · rw [State.modify, State.mem_write_self]
    · rw [State.modify, State.mem_write_self]
      show (((mbufsetCreate _ info).2).mem p).cMbcomposseq = _
      have hmem : ∀ u : State, (mbufsetCreate u info).2.mem = u.mem := by
        intro u
        rw [mbufsetCreate]
        split <;> rfl
      rw [hmem, State.modify, State.mem_write_self]

namespace MbsInv

theorem syncMbufset (h : MbsInv s ps) (hnd : ps.Nodup) (hp : p ∈ ps) (info : Shinfo) :
    MbsInv (syncMbufset s p info) ps := by
  rw [Dga.syncMbufset]
  split
  · exact h
  · have hr : MbsInv ((releaseMbs s p).modify p
        fun w => { w with cMbcomposseq := info.compositionseq }) ps :=
      (h.release hnd hp).modify (by simp) p
    have hnone : ((releaseMbs s p).modify p
        fun w => { w with cMbcomposseq := info.compositionseq }).mbs p = none := by
      rw [State.mbs_modify_self]
      exact mbs_releaseMbs_self s p
    dsimp only
    split
    · exact hr
    · exact hr.create hnd hp hnone fun _ => rfl

theorem touch (h : MbsInv s ps) (hp : p ∈ ps) (hm : s.mbs p = some m) : touchMbs s m = s := by
  rw [touchMbs, if_pos (h.live p hp m hm)]

theorem syncChanges (h : MbsInv s ps) (hp : p ∈ ps) {i : Int} (hs : syncChanges s p i = some t) :
    t = s := by
  rw [Dga.syncChanges] at hs
  split at hs
  · obtain ⟨m, hm, rfl⟩ := Option.map_eq_some_iff.1 hs
    exact h.touch hp hm
  · exact (Option.some.inj hs).symm

theorem winMbUpdate (h : MbsInv s ps) (hnd : ps.Nodup) (hp : p ∈ ps) (info : Shinfo) :
    MbsInv (winMbUpdate s p info) ps := by
  rw [Dga.winMbUpdate]
  split
  · exact (h.syncMbufset hnd hp info).modify (by simp) p
  · exact h.syncMbufset hnd hp info

theorem winLoop (h : MbsInv s ps) (hnd : ps.Nodup) (hp : p ∈ ps) (last : Nat)
    (passes : List Shinfo) : MbsInv (winLoop s p last passes) ps := by
  induction passes generalizing s last with
  | nil => exact h
  | cons info passes ih =>
    rw [Dga.winLoop]
    split
    · exact h
    · dsimp only
      have hb : MbsInv (if last ≠ info.mbufseq then
          (Dga.winMbUpdate s p info).modify p fun w => { w with cMbufseq := info.mbufseq }
          else s) ps := by
        split
        · exact (h.winMbUpdate hnd hp info).modify (by simp) p
        · exact h
      split
      · exact hb.null
      · rename_i hsync
        rw [hb.syncChanges hp hsync]
        exact ih hb _

theorem writeMbufseq (h : MbsInv s ps) (hm : (s.sets m).isSome) (i : Int) (n : Nat) :
    MbsInv (writeMbufseq s m i n) ps := by
  obtain ⟨b, hb⟩ := Option.isSome_iff_exists.1 hm
  simp only [Dga.writeMbufseq, hb]
  exact h.put (Nat.le_of_lt (h.lt_nextSet hb)) (h.notMem_destroyed hb) rfl (h.max_nextSet hb) rfl
    rfl (h.refcnt m b hb) fun _ _ => rfl

theorem mbufFigureDerivChgs (h : MbsInv s ps) (hp : p ∈ ps) (i : Int) :
    MbsInv (mbufFigureDerivChgs s p i) ps := by
  rw [Dga.mbufFigureDerivChgs]
  split
  · exact h.null
  · rename_i heq
    obtain ⟨t, h1, h2⟩ := Option.bind_eq_some_iff.1 heq
    obtain rfl := h.syncChanges hp h1
    rw [h.syncChanges hp h2]
    exact h

end MbsInv

/-! ## Updates of a buffer -/

/-- Whether the loop of `dgai_mbuf_update` makes a new set: a pass sees a new `mbufseq` and another
composition than the recorded one. -/
def recomposed (last compos : Nat) : List Shinfo → Bool
  | [] => false
  | info :: passes =>
    if info.wObsolete then false
    else (last != info.mbufseq && compos != info.compositionseq) ||
      recomposed info.mbufseq compos passes

theorem mem_writeMbufseq {i : Int} {n : Nat} : (writeMbufseq s m i n).mem = s.mem := by
  rw [writeMbufseq]
  split <;> rfl

theorem mbs_mbufMbUpdate_of_ne {i : Int} (hq : q ≠ p) :
    (mbufMbUpdate s p i info).mbs q = s.mbs q := by
  rw [mbufMbUpdate]
  split
  · rw [State.mbs_modify_of_ne _ hq, mbs_syncMbufset_of_ne hq]
  · exact mbs_syncMbufset_of_ne hq

/-- With the composition recorded, only the lock subject may change. -/
theorem mbufMbUpdate_of_eq {i : Int} (h : (s.mem p).cMbcomposseq = info.compositionseq) :
    (mbufMbUpdate s p i info).mbs p = s.mbs p ∧
      ((mbufMbUpdate s p i info).mem p).cMbcomposseq = (s.mem p).cMbcomposseq := by
  rw [mbufMbUpdate, syncMbufset_of_eq h]
  split
  · refine ⟨?_, ?_⟩
    · rw [State.mbs_modify_self, State.mbs]
    · rw [State.modify, State.mem_write_self]
  · exact ⟨rfl, rfl⟩

/-- The set the loop was entered with stays: another structure holds it, or the structure keeps it
because the composition does not change. -/
def SetStays (s : State) (ps : List Nat) (p m last : Nat) (passes : List Shinfo) : Prop :=
  (∃ q ∈ ps, q ≠ p ∧ s.mbs q = some m) ∨
    (s.mbs p = some m ∧ recomposed last (s.mem p).cMbcomposseq passes = false)

namespace MbsInv

theorem mbufMbUpdate (h : MbsInv s ps) (hnd : ps.Nodup) (hp : p ∈ ps) (i : Int) (info : Shinfo) :
    MbsInv (mbufMbUpdate s p i info) ps := by
  rw [Dga.mbufMbUpdate]
  split
  · exact (h.syncMbufset hnd hp info).modify (by simp) p
  · exact h.syncMbufset hnd hp info

/-- The multibuffer part of a pass. -/
theorem mbufPass (h : MbsInv s ps) (hnd : ps.Nodup) (hp : p ∈ ps) (i : Int) {last : Nat}
    {passes : List Shinfo} (hob : info.wObsolete = false) (hlast : last ≠ info.mbufseq)
    (hm : SetStays s ps p m last (info :: passes)) :
    MbsInv (Dga.writeMbufseq (Dga.mbufMbUpdate s p i info) m i info.mbufseq) ps ∧
      SetStays (Dga.writeMbufseq (Dga.mbufMbUpdate s p i info) m i info.mbufseq) ps p m info.mbufseq
        passes := by
  have hu := h.mbufMbUpdate hnd hp i info
  rcases hm with ⟨q, hq, hqp, hqm⟩ | ⟨hpm, hrec⟩
  · have hqm' : (Dga.mbufMbUpdate s p i info).mbs q = some m :=
      (mbs_mbufMbUpdate_of_ne hqp).trans hqm
    refine ⟨hu.writeMbufseq (hu.live q hq m hqm') _ _, .inl ⟨q, hq, hqp, ?_⟩⟩
    rw [State.mbs, mem_writeMbufseq]
    exact hqm'
  · rw [recomposed, if_neg (by simp [hob]), Bool.or_eq_false_iff, Bool.and_eq_false_iff] at hrec
    obtain ⟨hpass, hrest⟩ := hrec
    have hcompos : (s.mem p).cMbcomposseq = info.compositionseq := by
      simpa [hlast] using hpass
    obtain ⟨hpm', hcompos'⟩ := mbufMbUpdate_of_eq (i := i) hcompos
    refine ⟨hu.writeMbufseq (hu.live p hp m (hpm'.trans hpm)) _ _, .inr ⟨?_, ?_⟩⟩
    · rw [State.mbs, mem_writeMbufseq]
      exact hpm'.trans hpm
    · rw [mem_writeMbufseq, hcompos']
      exact hrest

theorem mbufLoop (h : MbsInv s ps) (hnd : ps.Nodup) (hp : p ∈ ps) (i j : Int) {last : Nat}
    {passes : List Shinfo} (hm : SetStays s ps p m last passes) :
    MbsInv (mbufLoop s p i j m last passes) ps := by
  induction passes generalizing s last with
  | nil => exact h.mbufFigureDerivChgs hp j
  | cons info passes ih =>
    rw [Dga.mbufLoop]
    split
    · exact h.mbufFigureDerivChgs hp j
    · rename_i hob
      have hob' : info.wObsolete = false := by simpa using hob
      dsimp only
      by_cases hlast : last ≠ info.mbufseq
      · obtain ⟨hinv, hstay⟩ := h.mbufPass hnd hp i hob' hlast hm
        rw [if_pos hlast]
        split
        · exact hinv.null
        · rename_i hsync
          rw [hinv.syncChanges hp hsync]
          exact ih hinv hstay
      · have hstay : SetStays s ps p m info.mbufseq passes := by
          obtain rfl : last = info.mbufseq := by simpa using hlast
          rcases hm with hshared | ⟨hpm, hrec⟩
          · exact .inl hshared
          · rw [recomposed, if_neg (by simp [hob']), Bool.or_eq_false_iff] at hrec
            exact .inr ⟨hpm, hrec.2⟩
        rw [if_neg hlast]
        split
        · exact h.null
        · rename_i hsync
          rw [h.syncChanges hp hsync]
          exact ih h hstay

end MbsInv

/-- The set the loop of `dgai_mbuf_update` is entered with. -/
def entrySet (s : State) (p : Nat) (info : Shinfo) : Option MbufSet :=
  if (s.mem p).cMbufseq = info.mbufseq ∨ (s.mem p).cMbcomposseq = info.compositionseq then
    (s.mbs p).bind s.sets
  else if info.enabled ∧ info.createOk then some (newMbufset info)
  else none

/-- The composition that is recorded when the loop is entered. -/
def entryCompos (s : State) (p : Nat) (info : Shinfo) : Nat :=
  if (s.mem p).cMbufseq = info.mbufseq then (s.mem p).cMbcomposseq else info.compositionseq

/-- When an update of a buffer leaves its set alone: the composition does not change after the loop
is entered, unless the set is shared. -/
def UpdateOk (s : State) (p : Nat) (bufIndex : Int) (info : Shinfo) (relocks : List Shinfo) : Prop :=
  bufIndex ≠ -1 → ∀ b, entrySet s p info = some b → 2 ≤ b.refcnt ∨
    recomposed (b.mbufseq bufIndex) (entryCompos s p info) (info :: relocks) = false

/-- The check before the loop of `dgai_mbuf_update`. -/
def mbufEntry (s : State) (p : Nat) (info : Shinfo) : State :=
  if (s.mem p).cMbufseq ≠ info.mbufseq then syncMbufset s p info else s

theorem mbufUpdate_eq (s : State) (p : Nat) (i j : Int) (info : Shinfo) (relocks : List Shinfo) :
    mbufUpdate s p i j info relocks = match ((mbufEntry s p info).mem p).pMbs with
      | none => (mbufEntry s p info).fault .null
      | some m => mbufLoop (touchMbs (mbufEntry s p info) m) p i j m
          (((mbufEntry s p info).sets m).elim 0 fun b => b.mbufseq i) (info :: relocks) := rfl

theorem entryCompos_eq (s : State) (p : Nat) (info : Shinfo) :
    ((mbufEntry s p info).mem p).cMbcomposseq = entryCompos s p info := by
  rw [mbufEntry, entryCompos]
  by_cases hseq : (s.mem p).cMbufseq = info.mbufseq
  · rw [if_neg (not_not.2 hseq), if_pos hseq]
  · rw [if_pos hseq, if_neg hseq, composseq_syncMbufset]

theorem entrySet_eq (s : State) (p : Nat) (info : Shinfo) :
    ((mbufEntry s p info).mbs p).bind (mbufEntry s p info).sets = entrySet s p info := by
  rw [mbufEntry, entrySet]
  by_cases hseq : (s.mem p).cMbufseq = info.mbufseq
  · rw [if_neg (not_not.2 hseq), if_pos (.inl hseq)]
  by_cases hcompos : (s.mem p).cMbcomposseq = info.compositionseq
  · rw [if_pos hseq, if_pos (.inr hcompos), syncMbufset_of_eq hcompos]
  · rw [if_pos hseq, if_neg (by simp [hseq, hcompos]), syncMbufset, if_neg hcompos]
    have hnone : ((releaseMbs s p).modify p
        fun w => { w with cMbcomposseq := info.compositionseq }).mbs p = none := by
      rw [State.mbs_modify_self]
      exact mbs_releaseMbs_self s p
    dsimp only
    cases hen : info.enabled with
    | false =>
      rw [if_pos (by simp), hnone, if_neg (by simp)]
      rfl
    | true =>
      rw [if_neg (by simp), State.mbs_modify_self]
      dsimp only
      rw [mbufsetCreate]
      cases hok : info.createOk with
      | false => simp
      | true => simp [State.modify, State.write]

namespace MbsInv

theorem mbufUpdate (h : MbsInv s ps) (hnd : ps.Nodup) (hp : p ∈ ps) {i : Int} (j : Int)
    {relocks : List Shinfo} (hi : i ≠ -1) (hok : UpdateOk s p i info relocks) :
    MbsInv (mbufUpdate s p i j info relocks) ps := by
  have he : MbsInv (mbufEntry s p info) ps := by
    rw [mbufEntry]
    split
    · exact h.syncMbufset hnd hp info
    · exact h
  rw [mbufUpdate_eq]
  split
  · exact he.null
  · rename_i m hm
    have hm' : (mbufEntry s p info).mbs p = some m := hm
    obtain ⟨b, hb⟩ := Option.isSome_iff_exists.1 (he.live p hp m hm')
    have hset : entrySet s p info = some b := by
      rw [← entrySet_eq, hm']
      exact hb
    rw [he.touch hp hm', hb]
    apply he.mbufLoop hnd hp i j
    rcases hok hi b hset with hshared | hrec
    · rw [(he.refcnt m b hb).1] at hshared
      exact .inl (exists_holder_ne hnd hshared)
    · refine .inr ⟨hm', ?_⟩
      rw [entryCompos_eq]
      exact hrec

/-- **Updates keep the counts right.** -/
theorem mbsmembUpdate (h : MbsInv s ps) (hnd : ps.Nodup) (hp : p ∈ ps) {i : Int}
    {relocks : List Shinfo} (hok : UpdateOk s p i info relocks) :
    MbsInv (mbsmembUpdate s p i info relocks) ps := by
  have h0 : MbsInv (s.modify p fun w => { w with eLockSubj := i }) ps := h.modify (by simp) p
  rw [Dga.mbsmembUpdate]
  split
  · exact h0.winLoop hnd hp _ _
  · rename_i hi
    apply h0.mbufUpdate hnd hp _ hi
    have hset : entrySet (s.modify p fun w => { w with eLockSubj := i }) p info =
        entrySet s p info := by
      simp only [entrySet, State.mbs, State.modify, State.mem_write_self]
      rfl
    have hcompos : entryCompos (s.modify p fun w => { w with eLockSubj := i }) p info =
        entryCompos s p info := by
      simp only [entryCompos, State.modify, State.mem_write_self]
    rw [UpdateOk, hset, hcompos]
    exact hok

end MbsInv

end Dga
