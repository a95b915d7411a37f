import SolarisXorg.I915.Seqno

/-!
# Seqnos within an epoch

Let `b` seqnos have been handed out before the current epoch and `v` be the number its counting
started from. Every seqno that is out then has the value `v` plus its place in the epoch (`Fresh`), so
plain comparisons tell the order of issue. `RingInv` says this of all that a ring has stored, and that
the requests the GPU has not completed are the last on its list.

As long as seqnos less than half the range apart are compared, `i915_seqno_passed` is a plain
comparison too (`seqnoPassed_iff`), retirement takes exactly the completed requests off the list
(`RingInv.retireRequests`) and a reset finds nothing left on any ring (`idle_retire`).
-/

namespace I915

variable {n : Nat} {b v c e : Nat} {r : SeqRing n} {s : SeqDev n}

/-- The seqno was handed out in the epoch `e`, of which `c` have been handed out by now. -/
structure Fresh (b v c e : Nat) (x : Stamp) : Prop where
  gt : b < x.issue
  le : x.issue ≤ c
  val : x.val.toNat + b = v + x.issue
  epoch : x.epoch = e

theorem Fresh.mono {c' : Nat} {x : Stamp} (h : Fresh b v c e x) (hc : c ≤ c') : Fresh b v c' e x :=
  ⟨h.gt, h.le.trans hc, h.val, h.epoch⟩

theorem Fresh.val_ne_zero {x : Stamp} (h : Fresh b v c e x) : x.val ≠ 0 := by
  have h1 := h.gt
  have h2 := h.val
  intro h0
  rw [h0] at h2
  simp only [BitVec.ofNat_eq_ofNat, BitVec.toNat_ofNat, Nat.zero_mod] at h2
  omega

/-- Within half the range, `i915_seqno_passed` compares plain numbers. -/
theorem seqnoPassed_iff {x y : BitVec 32} (h1 : x.toNat < y.toNat + 2 ^ 31)
    (h2 : y.toNat < x.toNat + 2 ^ 31) : seqnoPassed x y = true ↔ y.toNat ≤ x.toNat := by
  have hx := x.isLt
  have hy := y.isLt
  rw [seqnoPassed, decide_eq_true_eq, BitVec.toInt_eq_toNat_cond, BitVec.toNat_sub]
  split_ifs <;> omega

/-! ## A ring -/

/-- The invariant of a ring (module doc). -/
structure RingInv (b v c e : Nat) (r : SeqRing n) : Prop where
  hws_ge : b ≤ r.hws.issue
  hws_le : r.hws.issue ≤ c
  hws_val : r.hws.val.toNat + b = v + r.hws.issue
  fresh : ∀ x ∈ r.live, Fresh b v c e x
  sorted : r.live.Pairwise fun x y => x.issue < y.issue
  lazy : r.olr.val ≠ 0 → r.hws.issue < r.olr.issue
  split : ∃ done, r.requestList = done ++ r.pending ∧ (∀ x ∈ done, x.issue ≤ r.hws.issue) ∧
    ∀ x ∈ r.pending, r.hws.issue < x.issue
  active : ∀ a ∈ r.activeList, a.seq ∈ r.live
  activeSorted : r.activeList.Pairwise fun x y => x.seq.issue ≤ y.seq.issue
  sync : ∀ j, r.syncSeqno j = .zero ∨ Fresh b v c e (r.syncSeqno j)

theorem live_of_idle (h : r.olr.val = 0) : r.live = r.requestList := by
  rw [SeqRing.live, if_pos h, List.append_nil]

theorem live_of_lazy (h : r.olr.val ≠ 0) : r.live = r.requestList ++ [r.olr] := by
  rw [SeqRing.live, if_neg h]

theorem mem_live_of_mem {x : Stamp} (h : x ∈ r.requestList) : x ∈ r.live :=
  List.mem_append_left _ h

theorem RingInv.mono {c' : Nat} (h : RingInv b v c e r) (hc : c ≤ c') : RingInv b v c' e r :=
  ⟨h.hws_ge, h.hws_le.trans hc, h.hws_val, fun x hx => (h.fresh x hx).mono hc, h.sorted, h.lazy,
    h.split, h.active, h.activeSorted, fun j => (h.sync j).imp_right fun hf => hf.mono hc⟩

theorem pushRequest_live (h : r.olr.val ≠ 0) : r.pushRequest.live = r.live := by
  rw [live_of_lazy h, live_of_idle rfl]
  rfl

theorem RingInv.pushRequest (h : RingInv b v c e r) (hl : r.olr.val ≠ 0) :
    RingInv b v c e r.pushRequest := by
  have hlive := pushRequest_live hl
  refine ⟨h.hws_ge, h.hws_le, h.hws_val, by rw [hlive]; exact h.fresh, by rw [hlive]; exact h.sorted,
    fun hc => absurd rfl hc, ?_, by rw [hlive]; exact h.active, h.activeSorted, h.sync⟩
  obtain ⟨done, h1, h2, h3⟩ := h.split
  refine ⟨done, ?_, h2, ?_⟩
  · show r.requestList ++ [r.olr] = done ++ (r.pending ++ [r.olr])
    rw [h1, List.append_assoc]
  · intro x hx
    rcases List.mem_append.mp hx with hx | hx
    · exact h3 x hx
    · rw [List.mem_singleton.mp hx]
      exact h.lazy hl

theorem RingInv.complete (h : RingInv b v c e r) : RingInv b v c e r.complete := by
  obtain ⟨done, h1, h2, h3⟩ := h.split
  unfold SeqRing.complete
  split
  · exact h
  · next x xs hp =>
    have hx : x ∈ r.requestList := by
      rw [h1, hp]
      exact List.mem_append_right _ List.mem_cons_self
    have hf := h.fresh x (mem_live_of_mem hx)
    have hlive := h.sorted
    rw [SeqRing.live, h1, hp] at hlive
    have hx3 := h3 x (by rw [hp]; exact List.mem_cons_self)
    have hxs : ∀ y ∈ xs, x.issue < y.issue := by
      intro y hy
      have hs := (List.pairwise_append.mp (List.pairwise_append.mp hlive).1).2.1
      exact (List.pairwise_cons.mp hs).1 y hy
    refine ⟨hf.gt.le, hf.le, hf.val, h.fresh, h.sorted, ?_, ?_, h.active, h.activeSorted, h.sync⟩
    · intro hl
      have hs := h.sorted
      rw [live_of_lazy (r := r) hl] at hs
      exact (List.pairwise_append.mp hs).2.2 x hx r.olr (List.mem_singleton.mpr rfl)
    · refine ⟨done ++ [x], ?_, ?_, hxs⟩
      · show r.requestList = done ++ [x] ++ xs
        rw [h1, hp, List.append_assoc, List.singleton_append]
      · intro y hy
        rcases List.mem_append.mp hy with hy | hy
        · exact (h2 y hy).trans hx3.le
        · rw [List.mem_singleton.mp hy]

/-! ## Retirement -/

/-- In a list that goes up, what is dropped from the front is all that is at most `k`. -/
theorem lt_of_mem_dropWhile {α : Type} {f : α → Nat} {p : α → Bool} {k : Nat} {l : List α}
    (hs : l.Pairwise fun x y => f x ≤ f y) (hp : ∀ x ∈ l, p x = true ↔ f x ≤ k) :
    ∀ x ∈ l.dropWhile p, x ∈ l ∧ k < f x := by
  induction l with
  | nil => simp
  | cons y l ih =>
    obtain ⟨hy, hl⟩ := List.pairwise_cons.mp hs
    intro x hx
    rw [List.dropWhile_cons] at hx
    split at hx
    · obtain ⟨h1, h2⟩ := ih hl (fun z hz => hp z (List.mem_cons_of_mem _ hz)) x hx
      exact ⟨List.mem_cons_of_mem _ h1, h2⟩
    · next hpy =>
      have hky : k < f y := by
        rw [hp y List.mem_cons_self] at hpy
        omega
      rcases List.mem_cons.mp hx with rfl | hx'
      · exact ⟨hx, hky⟩
      · exact ⟨hx, hky.trans_le (hy x hx')⟩

/-- Near the status page, a request has passed when it was issued no later. -/
theorem RingInv.passed_iff (h : RingInv b v c e r) (hn : r.Near) {x : Stamp} (hx : x ∈ r.live) :
    seqnoPassed r.hws.val x.val = true ↔ x.issue ≤ r.hws.issue := by
  obtain ⟨h1, h2⟩ := hn x hx
  have h3 := (h.fresh x hx).val
  have h4 := h.hws_val
  rw [seqnoPassed_iff h1 h2]
  omega

/-- Retirement leaves the requests that the GPU has not completed. -/
theorem RingInv.retireRequests (h : RingInv b v c e r) (hn : r.Near) :
    RingInv b v c e r.retireRequests ∧ r.retireRequests.requestList = r.pending := by
  obtain ⟨done, h1, h2, h3⟩ := h.split
  unfold SeqRing.retireRequests
  by_cases he : r.requestList = []
  · rw [if_pos he]
    refine ⟨h, ?_⟩
    rw [he] at h1
    rw [he, (List.append_eq_nil_iff.mp h1.symm).2]
  · rw [if_neg he]
    have hreq : (r.requestList.dropWhile fun x => seqnoPassed r.hws.val x.val) = r.pending := by
      rw [h1, List.dropWhile_append_of_pos]
      · cases hp : r.pending with
        | nil => rfl
        | cons x xs =>
          have hx : x ∈ r.pending := by
            rw [hp]
            exact List.mem_cons_self
          have hlive : x ∈ r.live := mem_live_of_mem (by rw [h1]; exact List.mem_append_right _ hx)
          have hx3 := h3 x hx
          rw [List.dropWhile_cons, if_neg]
          rw [h.passed_iff hn hlive]
          omega
      · intro x hx
        rw [h.passed_iff hn (mem_live_of_mem (by rw [h1]; exact List.mem_append_left _ hx))]
        exact h2 x hx
    have hlt := lt_of_mem_dropWhile (f := fun a : Active => a.seq.issue) (k := r.hws.issue)
      h.activeSorted (fun a ha => h.passed_iff hn (h.active a ha))
    set t : SeqRing n :=
      { r with
        requestList := r.requestList.dropWhile fun x => seqnoPassed r.hws.val x.val
        activeList := r.activeList.dropWhile fun a => seqnoPassed r.hws.val a.seq.val } with ht
    have hlive : t.live = r.pending ++ if r.olr.val = 0 then [] else [r.olr] := by
      rw [SeqRing.live, ht, hreq]
    have hsub : t.live.Sublist r.live := by
      rw [hlive, SeqRing.live, h1, List.append_assoc]
      exact List.sublist_append_right _ _
    refine ⟨⟨h.hws_ge, h.hws_le, h.hws_val, fun x hx => h.fresh x (hsub.subset hx),
      h.sorted.sublist hsub, h.lazy, ⟨[], hreq, by simp, h3⟩, ?_, ?_, h.sync⟩, hreq⟩
    · intro a ha
      obtain ⟨ha1, ha2⟩ := hlt a ha
      have hm := h.active a ha1
      rw [SeqRing.live, h1, List.append_assoc, List.mem_append] at hm
      rw [hlive]
      rcases hm with hm | hm
      · have := h2 _ hm
        omega
      · exact hm
    · exact h.activeSorted.sublist (List.dropWhile_sublist _)

/-! ## Waiting for a ring -/

theorem RingInv.flushLazy (h : RingInv b v c e r) :
    RingInv b v c e r.flushLazy ∧ r.flushLazy.olr.val = 0 ∧ r.flushLazy.live = r.live := by
  unfold SeqRing.flushLazy
  by_cases hl : r.olr.val = 0
  · rw [if_pos hl]
    exact ⟨h, hl, rfl⟩
  · rw [if_neg hl]
    exact ⟨h.pushRequest hl, rfl, pushRequest_live hl⟩

/-- The last request has completed, and so have all. -/
theorem RingInv.allDone (h : RingInv b v c e r) (hl : r.olr.val = 0) {x : Stamp}
    (hx : r.requestList.getLast? = some x) :
    RingInv b v c e { r with hws := x, pending := [] } := by
  obtain ⟨l, hlist⟩ := List.getLast?_eq_some_iff.mp hx
  have hmem : x ∈ r.requestList := by
    rw [hlist]
    exact List.mem_append_right _ (List.mem_singleton.mpr rfl)
  have hf := h.fresh x (mem_live_of_mem hmem)
  refine ⟨hf.gt.le, hf.le, hf.val, h.fresh, h.sorted, fun hc => absurd hl hc,
    ⟨r.requestList, (List.append_nil _).symm, ?_, by simp⟩, h.active, h.activeSorted, h.sync⟩
  intro y hy
  have hs := h.sorted
  rw [live_of_idle hl, hlist] at hs
  rw [hlist] at hy
  rcases List.mem_append.mp hy with hy | hy
  · exact ((List.pairwise_append.mp hs).2.2 y hy x (List.mem_singleton.mpr rfl)).le
  · rw [List.mem_singleton.mp hy]

theorem RingInv.idle (h : RingInv b v c e r) (o : Idle) : RingInv b v c e (r.idle o).2 := by
  obtain ⟨h1, h2, -⟩ := h.flushLazy
  unfold SeqRing.idle
  split
  · exact h
  · split
    · exact h1
    · next x hx =>
      split
      · exact h1
      · exact h1.allDone h2 hx

/-- A ring that has been waited for and retired has nothing left. -/
structure Empty (r : SeqRing n) : Prop where
  olr : r.olr.val = 0
  requests : r.requestList = []
  pending : r.pending = []
  active : r.activeList = []

theorem RingInv.empty (h : RingInv b v c e r) (hl : r.olr.val = 0) (hr : r.requestList = []) :
    Empty r := by
  obtain ⟨done, h1, -, -⟩ := h.split
  rw [hr] at h1
  refine ⟨hl, hr, (List.append_eq_nil_iff.mp h1.symm).2, ?_⟩
  apply List.eq_nil_iff_forall_not_mem.mpr
  intro a ha
  have hm := h.active a ha
  rw [live_of_idle hl, hr] at hm
  cases hm

theorem idle_retire (h : RingInv b v c e r) (ht : r.Tight) {o : Idle} (ho : (r.idle o).1 = true) :
    Empty (r.idle o).2.retireRequests := by
  obtain ⟨h1, h2, h3⟩ := h.flushLazy
  unfold SeqRing.idle at ho ⊢
  split at ho
  · cases ho
  · next hn =>
    rw [if_neg hn]
    split at ho
    · next hlast =>
      have hnil := List.getLast?_eq_none_iff.mp hlast
      rw [SeqRing.retireRequests, if_pos hnil]
      exact h1.empty h2 hnil
    · next x hx =>
      split at ho
      · cases ho
      · next hint =>
        simp only [if_neg hint]
        have hd := h1.allDone h2 hx
        have hxl : x ∈ r.live := by
          rw [← h3]
          exact mem_live_of_mem (List.mem_of_getLast? hx)
        have hnear : SeqRing.Near { r.flushLazy with hws := x, pending := [] } := by
          intro y hy
          have hyl : y ∈ r.live := by
            rw [← h3]
            exact hy
          exact ⟨ht x hxl y hyl, ht y hyl x hxl⟩
        obtain ⟨h4, h5⟩ := hd.retireRequests hnear
        refine h4.empty ?_ h5
        unfold SeqRing.retireRequests
        split
        · exact h2
        · exact h2

/-- An empty ring at the beginning of an epoch. -/
theorem Empty.reset (h : Empty r) (w : BitVec 32) (c e : Nat) :
    RingInv c w.toNat c e
      ({ r with hws := ⟨w, c, e⟩, syncSeqno := fun _ => .zero } : SeqRing n) := by
  have hlive : SeqRing.live
      ({ r with hws := ⟨w, c, e⟩, syncSeqno := fun _ => .zero } : SeqRing n) = [] :=
    (live_of_idle h.olr).trans h.requests
  refine ⟨le_rfl, le_rfl, rfl, by rw [hlive]; simp, by rw [hlive]; exact List.Pairwise.nil,
    fun hc => absurd h.olr hc, ⟨[], ?_, by simp, ?_⟩, ?_, ?_, fun _ => .inl rfl⟩
  · show r.requestList = [] ++ r.pending
    rw [h.requests, h.pending, List.nil_append]
  · show ∀ x ∈ r.pending, _
    rw [h.pending]
    simp
  · show ∀ a ∈ r.activeList, _
    rw [h.active]
    simp
  · show r.activeList.Pairwise _
    rw [h.active]
    exact List.Pairwise.nil

end I915
