import SolarisXorg.Drm.Context
import SolarisXorg.Drm.Proof.IdrRun

/-!
# The two tables of contexts

`CtxInv` is the invariant of the device between calls: `ctx_idr` is well formed, no entry of `ctxlist`
is for the kernel's context, and both tables agree (`CtxDev.Consistent`). With memory for its nodes
`drm_ctxbitmap_next` gives an id that is new or returns -1, which `drm_addctx` tests for
(`drmAddctx_spec`), and `drm_ctxbitmap_free` takes an id away (`drmCtxbitmapFree_spec`), so that both
loops take away ids and entries together (`drmRmctx_inv`, `drmReleaseCtx_inv`). `ctx_consistent`
carries this to whole runs.

Without memory for the node `drm_ctxbitmap_next` returns `-ENOMEM`, for which there is no test
(`addctx_without_memory`).
-/

namespace Drm

open Lib

variable {s t : CtxDev}

/-- What the device keeps. -/
structure CtxInv (s : CtxDev) : Prop where
  idr : IdrInv s.ctxIdr
  low : ∀ pos ∈ s.ctxlist, pos.handle ≠ drmKernelContext
  once : s.handles.Nodup
  used : ∀ id, id ∈ s.handles ↔ id ∈ s.ctxIdr.ids
  count : s.ctxCount = s.ctxlist.length

theorem CtxInv.consistent (h : CtxInv s) : s.Consistent where
  once := h.once
  used id := (h.used id).trans Idr.used_iff.symm
  count := h.count

theorem ctxInit_inv : CtxInv ctxInit where
  idr := idrInit_inv
  low _ hpos := absurd hpos List.not_mem_nil
  once := List.nodup_nil
  used _ := Iff.rfl
  count := rfl

/-! ## Ids -/

/-- An id as a handle. -/
theorem toNat_ofInt_natCast {id : Nat} (h : id < idMax) : (BitVec.ofInt 32 id).toNat = id := by
  rw [BitVec.ofInt_natCast, BitVec.toNat_ofNat]
  exact Nat.mod_eq_of_lt (Nat.lt_trans h (by decide))

theorem drmCtxbitmapNext_spec (h : IdrInv s.ctxIdr) :
    ∃ next t, drmCtxbitmapNext s true = some (next, t) ∧ IdrInv t.ctxIdr ∧
      t.ctxlist = s.ctxlist ∧ t.ctxCount = s.ctxCount ∧
      ((next = -1 ∧ t.ctxIdr.ids = s.ctxIdr.ids) ∨
        ∃ id : Nat, next = id ∧ 1 ≤ id ∧ id < idMax ∧ id ∉ s.ctxIdr.ids ∧
          ∀ x, x ∈ t.ctxIdr.ids ↔ x = id ∨ x ∈ s.ctxIdr.ids) := by
  have hstart : drmReservedContexts.toInt = 1 := rfl
  obtain ⟨ret, idrp, he, hinv, ⟨rfl, hids⟩ | ⟨id, rfl, hlow, hlt, hnew, hids⟩⟩ :=
    getNewAbove_mem h none (hstart ▸ by decide : 0 ≤ drmReservedContexts.toInt)
  · refine ⟨-1, { s with ctxIdr := idrp }, ?_, hinv, rfl, rfl, .inl ⟨rfl, hids⟩⟩
    rw [drmCtxbitmapNext, he]
    rfl
  · refine ⟨id, { s with ctxIdr := idrp }, ?_, hinv, rfl, rfl, .inr ⟨id, rfl, ?_, hlt, hnew, hids⟩⟩
    · rw [drmCtxbitmapNext, he]
      rfl
    · omega

theorem drmCtxbitmapFree_spec (h : IdrInv s.ctxIdr) (handle : BitVec 32) :
    ∃ t, drmCtxbitmapFree s handle true = some t ∧ IdrInv t.ctxIdr ∧
      t.ctxlist = s.ctxlist ∧ t.ctxCount = s.ctxCount ∧
      ∀ x, x ∈ t.ctxIdr.ids ↔ x ∈ s.ctxIdr.ids ∧ x ≠ handle.toNat := by
  obtain ⟨ret, idrp, he, hinv, hids⟩ := remove_mem h handle.toNat
  refine ⟨{ s with ctxIdr := idrp }, ?_, hinv, rfl, rfl, hids⟩
  rw [drmCtxbitmapFree, he]
  rfl

/-! ## The calls -/

/-- **`drm_addctx`** with memory: no id is left and nothing changes, or a new id gets its entry. -/
theorem drmAddctx_spec (h : CtxInv s) (tag : Nat) :
    ∃ ret handle t, drmAddctx s tag true true true = some (ret, handle, t) ∧ CtxInv t ∧
      (ret = 0 → handle.toNat ∉ s.ctxIdr.ids ∧ handle.toNat ∈ t.ctxIdr.ids) := by
  obtain ⟨next, t, he, hinv, hlist, hcount, ⟨rfl, hids⟩ | ⟨id, rfl, hlow, hlt, hnew, hids⟩⟩ :=
    drmCtxbitmapNext_spec h.idr
  · refine ⟨-ENOMEM, -1, t, ?_, ?_, fun hret => absurd hret (by decide)⟩
    · rw [drmAddctx, he]
      rfl
    · refine ⟨hinv, ?_, ?_, ?_, ?_⟩
      · rw [hlist]
        exact h.low
      · rw [CtxDev.handles, hlist]
        exact h.once
      · rw [CtxDev.handles, hlist, hids]
        exact h.used
      · rw [hlist, hcount]
        exact h.count
  · have hnat := toNat_ofInt_natCast hlt
    have hne0 : BitVec.ofInt 32 (id : Int) ≠ drmKernelContext := by
      intro hc
      rw [hc] at hnat
      have hzero : 0 = id := hnat
      omega
    have hne1 : BitVec.ofInt 32 (id : Int) ≠ -1 := by
      intro hc
      rw [hc] at hnat
      exact absurd (hnat ▸ hlt) (by decide)
    refine ⟨0, BitVec.ofInt 32 id, { t with
      ctxlist := { handle := BitVec.ofInt 32 id, tag := tag } :: t.ctxlist
      ctxCount := t.ctxCount + 1 }, ?_, ?_, fun _ => ?_⟩
    · simp only [drmAddctx, he, Option.bind_eq_bind, Option.bind_some, if_neg hne0, if_neg hne1]
      rfl
    · have hhandles : CtxDev.handles { t with
          ctxlist := { handle := BitVec.ofInt 32 id, tag := tag } :: t.ctxlist
          ctxCount := t.ctxCount + 1 } = id :: s.handles := by
        rw [CtxDev.handles, List.map_cons, hnat, hlist]
        rfl
      refine ⟨hinv, fun pos hpos => ?_, ?_, fun x => ?_, ?_⟩
      · rcases List.mem_cons.1 hpos with rfl | hpos
        · exact hne0
        · exact h.low pos (hlist ▸ hpos)
      · rw [hhandles]
        exact List.nodup_cons.2 ⟨fun hm => hnew ((h.used id).1 hm), h.once⟩
      · rw [hhandles, List.mem_cons, h.used, hids]
      · rw [hcount, hlist, h.count, List.length_cons]
        rfl
    · rw [hnat]
      exact ⟨hnew, (hids id).2 (.inl rfl)⟩

theorem rmctxLoop_eq (handle : BitVec 32) (l : List CtxList) (count : Int) :
    (rmctxLoop handle l count).1 = l.filter (·.handle ≠ handle) ∧
      (rmctxLoop handle l count).2 + l.length =
        count + (l.filter (·.handle ≠ handle)).length := by
  induction l generalizing count with
  | nil => exact ⟨rfl, rfl⟩
  | cons pos l ih =>
    by_cases hp : pos.handle = handle
    · obtain ⟨h1, h2⟩ := ih (count - 1)
      rw [rmctxLoop, if_pos hp, List.filter_cons_of_neg (by simpa using hp)]
      refine ⟨h1, ?_⟩
      rw [List.length_cons]
      omega
    · obtain ⟨h1, h2⟩ := ih count
      rw [rmctxLoop, if_neg hp, List.filter_cons_of_pos (by simpa using hp)]
      refine ⟨congrArg (pos :: ·) h1, ?_⟩
      rw [List.length_cons, List.length_cons]
      dsimp only
      omega

/-- A call that keeps some entries of the list and takes the ids of the others away. -/
theorem CtxInv.keep (h : CtxInv s) (p : CtxList → Bool) (hinv : IdrInv t.ctxIdr)
    (hlist : t.ctxlist = s.ctxlist.filter p)
    (hcount : t.ctxCount + s.ctxlist.length = s.ctxCount + t.ctxlist.length)
    (hids : ∀ x, x ∈ t.ctxIdr.ids ↔
      x ∈ s.ctxIdr.ids ∧ ∀ pos ∈ s.ctxlist, p pos = false → pos.handle.toNat ≠ x) :
    CtxInv t := by
  refine ⟨hinv, fun pos hpos => ?_, ?_, fun x => ?_, ?_⟩
  · rw [hlist] at hpos
    exact h.low pos (List.mem_of_mem_filter hpos)
  · rw [CtxDev.handles, hlist]
    exact h.once.sublist (List.filter_sublist.map _)
  · rw [hids, ← h.used, CtxDev.handles, hlist, CtxDev.handles, List.mem_map, List.mem_map]
    constructor
    · rintro ⟨pos, hpos, rfl⟩
      obtain ⟨hmem, hp⟩ := List.mem_filter.1 hpos
      refine ⟨⟨pos, hmem, rfl⟩, fun q hq hpq he => ?_⟩
      have hqp : q = pos := List.inj_on_of_nodup_map h.once hq hmem he
      rw [hqp, hp] at hpq
      cases hpq
    · rintro ⟨⟨pos, hmem, rfl⟩, hother⟩
      refine ⟨pos, List.mem_filter.2 ⟨hmem, ?_⟩, rfl⟩
      by_contra hp
      exact hother pos hmem (Bool.eq_false_iff.2 hp) rfl
  · have := h.count
    omega

/-- **`drm_rmctx`** with memory. -/
theorem drmRmctx_inv (h : CtxInv s) (handle : BitVec 32) :
    ∃ t, drmRmctx s handle true = some t ∧ CtxInv t := by
  by_cases hk : handle ≠ drmKernelContext
  · obtain ⟨u, hu, hinv, hlist, hcnt, hids⟩ := drmCtxbitmapFree_spec h.idr handle
    obtain ⟨hkept, hcount⟩ := rmctxLoop_eq handle u.ctxlist u.ctxCount
    refine ⟨_, by rw [drmRmctx, if_pos hk, hu]; rfl, ?_⟩
    refine h.keep (·.handle ≠ handle) hinv (by rw [← hlist]; exact hkept) ?_ fun x => ?_
    · simp only [hkept]
      rwa [← hlist, ← hcnt]
    · rw [hids]
      refine and_congr_right fun hx => ⟨fun hne pos _ hpos he => ?_, fun hother he => ?_⟩
      · have hph : pos.handle = handle := by simpa using hpos
        exact hne (hph ▸ he.symm)
      · obtain ⟨pos, hpos, rfl⟩ := List.mem_map.1 ((h.used x).2 hx)
        exact hother pos hpos (by simpa using BitVec.eq_of_toNat_eq he) rfl
  · obtain ⟨hkept, hcount⟩ := rmctxLoop_eq handle s.ctxlist s.ctxCount
    refine ⟨_, by rw [drmRmctx, if_neg hk]; rfl, ?_⟩
    refine h.keep (·.handle ≠ handle) h.idr hkept ?_ fun x => ?_
    · simp only [hkept]
      exact hcount
    · refine (and_iff_left fun pos hpos hp => ?_).symm
      have hph : pos.handle = handle := by simpa using hp
      exact absurd (hph.trans (not_not.1 hk)) (h.low pos hpos)

theorem releaseCtxLoop_spec {file : Nat} {mem : BitVec 32 → Bool} (hm : ∀ handle, mem handle = true)
    {l : List CtxList} (hlow : ∀ pos ∈ l, pos.handle ≠ drmKernelContext) (h : IdrInv s.ctxIdr) :
    ∃ t, releaseCtxLoop file mem l s = some t ∧ IdrInv t.ctxIdr ∧
      t.ctxlist = l.filter (·.tag ≠ file) ∧
      t.ctxCount + l.length = s.ctxCount + t.ctxlist.length ∧
      ∀ x, x ∈ t.ctxIdr.ids ↔
        x ∈ s.ctxIdr.ids ∧ ∀ pos ∈ l, (decide (pos.tag ≠ file)) = false → pos.handle.toNat ≠ x := by
  induction l generalizing s with
  | nil => exact ⟨_, rfl, h, rfl, rfl, fun x => by simp⟩
  | cons pos l ih =>
    have hlow' := fun q hq => hlow q (List.mem_cons_of_mem pos hq)
    by_cases hp : pos.tag = file
    · obtain ⟨u, hu, huinv, hulist, hucount, huids⟩ := drmCtxbitmapFree_spec h pos.handle
      have hfree : drmCtxbitmapFree s pos.handle (mem pos.handle) = some u := by rw [hm, hu]
      obtain ⟨t, ht, htinv, htlist, htcount, htids⟩ :=
        ih (s := { u with ctxCount := u.ctxCount - 1 }) hlow' huinv
      refine ⟨t, ?_, htinv, ?_, ?_, fun x => ?_⟩
      · rw [releaseCtxLoop, if_pos ⟨hp, hlow pos List.mem_cons_self⟩, hfree]
        exact ht
      · rw [List.filter_cons_of_neg (by simpa using hp), htlist]
      · rw [List.length_cons]
        dsimp only at htcount
        omega
      · rw [htids, huids, List.forall_mem_cons, and_assoc]
        have hself : ((decide (pos.tag ≠ file)) = false → pos.handle.toNat ≠ x) ↔
            x ≠ pos.handle.toNat := by
          simp [hp, eq_comm]
        rw [hself]
    · obtain ⟨t, ht, htinv, htlist, htcount, htids⟩ := ih (s := s) hlow' h
      refine ⟨{ t with ctxlist := pos :: t.ctxlist }, ?_, htinv, ?_, ?_, fun x => ?_⟩
      · rw [releaseCtxLoop, if_neg fun hc => hp hc.1, ht]
        rfl
      · rw [List.filter_cons_of_pos (by simpa using hp)]
        exact congrArg (pos :: ·) htlist
      · rw [List.length_cons, List.length_cons]
        dsimp only
        omega
      · rw [htids, List.forall_mem_cons]
        exact and_congr_right fun _ => (and_iff_right fun hc => by simp [hp] at hc).symm

/-- **`drm_release`** with memory. -/
theorem drmReleaseCtx_inv (h : CtxInv s) (file : Nat) {mem : BitVec 32 → Bool}
    (hm : ∀ handle, mem handle = true) : ∃ t, drmReleaseCtx s file mem = some t ∧ CtxInv t := by
  obtain ⟨t, ht, hinv, hlist, hcount, hids⟩ := @releaseCtxLoop_spec s file mem hm _ h.low h.idr
  exact ⟨t, ht, h.keep (·.tag ≠ file) hinv hlist hcount hids⟩

/-! ## Whole runs -/

theorem ctxCall_inv {c : CtxCall} (h : CtxInv s) (hm : c.MemOk) (hc : ctxCall s c t) :
    CtxInv t := by
  cases c with
  | addctx tag mem mem' memEntry ret handle =>
    obtain ⟨rfl, rfl, rfl⟩ := hm
    obtain ⟨ret', handle', t', he, hinv, -⟩ := drmAddctx_spec h tag
    cases he.symm.trans hc
    exact hinv
  | rmctx handle mem =>
    cases hm
    obtain ⟨t', he, hinv⟩ := drmRmctx_inv h handle
    cases he.symm.trans hc
    exact hinv
  | release file mem =>
    obtain ⟨t', he, hinv⟩ := drmReleaseCtx_inv h file hm
    cases he.symm.trans hc
    exact hinv

/-- **The handles on `ctxlist` are the ids in use, each once, and `ctx_count` is their number**, in
every state of a run whose allocations succeed; and `drm_addctx` returns 0 there only with a handle
that was not in use and is now. -/
theorem ctx_consistent {cs : List CtxCall} (hr : CtxRun ctxInit cs s) :
    s.Consistent ∧
      ∀ tag mem mem' memEntry ret handle t,
        (CtxCall.addctx tag mem mem' memEntry ret handle).MemOk →
        ctxCall s (.addctx tag mem mem' memEntry ret handle) t → ret = 0 →
        ¬ s.ctxIdr.Used handle.toNat ∧ t.ctxIdr.Used handle.toNat := by
  have h : CtxInv s := hr.inv ctxInit_inv fun _ _ _ hi hs => ctxCall_inv hi hs.1 hs.2
  refine ⟨h.consistent, fun tag mem mem' memEntry ret handle t hm hc hret => ?_⟩
  obtain ⟨rfl, rfl, rfl⟩ := hm
  obtain ⟨ret', handle', t', he, -, hfresh⟩ := drmAddctx_spec h tag
  cases he.symm.trans hc
  rw [Idr.used_iff, Idr.used_iff]
  exact hfresh hret

/-- Two files with a context each; the first one is closed and its id used again. -/
theorem ctx_consistent_two :
    ∃ s, CtxRun ctxInit
        [.addctx 7 true true true 0 1, .addctx 8 true true true 0 2, .release 7 fun _ => true] s ∧
      s.handles = [2] ∧ s.Consistent ∧ ∃ t, ctxCall s (.addctx 8 true true true 0 1) t ∧
        ¬ s.ctxIdr.Used 1 ∧ t.ctxIdr.Used 1 := by
  have h1 : CtxRun ctxInit _ _ :=
    Run.snoc (l := CtxCall.addctx 7 true true true 0 1) .nil ⟨⟨rfl, rfl, rfl⟩, rfl⟩
  have h2 : CtxRun ctxInit _ _ :=
    Run.snoc (l := CtxCall.addctx 8 true true true 0 2) h1 ⟨⟨rfl, rfl, rfl⟩, rfl⟩
  have h3 : CtxRun ctxInit _ _ :=
    Run.snoc (l := CtxCall.release 7 fun _ => true) h2 ⟨fun _ => rfl, rfl⟩
  exact ⟨_, h3, rfl, (ctx_consistent h3).1, _, rfl,
    (ctx_consistent h3).2 8 true true true 0 1 _ ⟨rfl, rfl, rfl⟩ rfl rfl⟩

/-- Without memory for its node the id is not allocated, but `drm_addctx` returns 0 and the handle
0xfffffff4, which it puts on the list. -/
theorem addctx_without_memory :
    ∃ t, ctxCall ctxInit (.addctx 7 false true true 0 0xfffffff4) t ∧
      ¬ t.ctxIdr.Used (0xfffffff4 : BitVec 32).toNat ∧ ¬ t.Consistent := by
  refine ⟨_, rfl, by decide, fun h => ?_⟩
  have hused := (h.used (0xfffffff4 : BitVec 32).toNat).1 (by decide)
  exact absurd hused (by decide)

end Drm
