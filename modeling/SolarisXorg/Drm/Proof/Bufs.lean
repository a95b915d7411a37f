import Mathlib.Data.List.Count
import Mathlib.Data.List.Nodup
import SolarisXorg.Drm.Bufs

/-!
# The master vector of DMA buffers

A successful call is `Appended`: a new entry whose buffers are numbered on from `dma->buf_count`, and
pointers to them behind the old vector. `drm_addbufs_sg` always appends; `drm_addbufs_agp`, which
copies the new vector over the old one, does so only if there was nothing to copy
(`addbufsStep_appended`). Otherwise fresh memory takes the place of the old pointers
(`agp_vector_fresh`).
-/

namespace Drm

open Lib

/-! ## Pieces -/

section Fill

variable {dma : Dma} {request : BufDesc} {agpOffset addrBase : UInt64} {bufPrivSize : Nat}

/-- The loop makes as many buffers as asked for, and numbers them. -/
theorem BufsFill.run_spec {n : Nat} {f f' : BufsFill}
    (h : BufsFill.run dma request agpOffset addrBase bufPrivSize n f = some f')
    (hf : ∀ j b, f.buflist[j]? = some b → b.idx = dma.bufCount + j) :
    f'.buflist.length = f.buflist.length + n ∧
      ∀ j b, f'.buflist[j]? = some b → b.idx = dma.bufCount + j := by
  induction n generalizing f with
  | zero =>
    cases h
    exact ⟨rfl, hf⟩
  | succ n ih =>
    simp only [BufsFill.run] at h
    split at h
    · cases h
    · have hadd : ∀ j b, (f.add dma request agpOffset addrBase bufPrivSize).buflist[j]? = some b →
          b.idx = dma.bufCount + j := by
        intro j b hb
        simp only [BufsFill.add, List.getElem?_append] at hb
        split at hb
        · exact hf j b hb
        · next hj =>
          obtain ⟨hzero, hb⟩ := List.getElem?_eq_some_iff.mp hb
          simp only [List.length_singleton] at hzero
          have hj' : j = f.buflist.length := by omega
          subst hj'
          simp only [Nat.sub_self, List.getElem_cons_zero] at hb
          rw [← hb]
      obtain ⟨hlen, hidx⟩ := ih h hadd
      refine ⟨?_, hidx⟩
      rw [hlen]
      simp only [BufsFill.add, List.length_append, List.length_singleton]
      omega

end Fill

/-- What `addbufsFill` has done when it succeeds. -/
structure Filled (dma dma' : Dma) (order : Nat) (entry : BufEntry) : Prop where
  bufs : dma' = dma.setEntry order entry
  unused : (dma.bufs order).bufCount = 0
  pos : 0 < entry.bufCount
  length : entry.buflist.length = entry.bufCount
  idx : ∀ j b, entry.buflist[j]? = some b → b.idx = dma.bufCount + j

theorem addbufsFill_filled {dev : BufsDev} {dma dma' : Dma} {request : BufDesc}
    {agpOffset addrBase : UInt64} {entry : BufEntry} {byteCount : Int32}
    (h : addbufsFill dev dma request agpOffset addrBase = .ok (dma', entry, byteCount)) :
    Filled dma dma' request.order entry := by
  simp only [addbufsFill] at h
  split at h
  · cases h
  · split at h
    · cases h
    · split at h
      · cases h
      · next hunused =>
        split at h
        · cases h
        · next hcount =>
          split at h
          · cases h
          · next hzero =>
            split at h
            · cases h
            · next f hf =>
              obtain ⟨hlen, hidx⟩ := BufsFill.run_spec hf (by simp)
              cases h
              refine ⟨rfl, not_not.mp hunused, ?_, rfl, hidx⟩
              simp only [hlen, List.length_nil]
              omega

theorem drmRealloc_spec {allocOk : Bool} {l l' : List BufPtr} {n : Nat}
    (h : drmRealloc allocOk l l.length (l.length + n) = some l') :
    l'.length = l.length + n ∧ ∀ i, i < l.length → l'[i]? = l[i]? := by
  unfold drmRealloc at h
  split at h
  · split at h
    · cases h
      have hmin : min l.length (l.length + n) = l.length := by omega
      simp only [bcopy, hmin, List.take_length]
      refine ⟨by simp, fun i hi => List.getElem?_append_left hi⟩
    · next hzero =>
      cases h
      rw [not_not] at hzero
      exact ⟨by simp, fun i hi => by omega⟩
  · cases h

/-! ## Appending -/

/-- `dma'` is `dma` with a new entry, and pointers to its buffers behind the old vector. -/
structure Appended (dma dma' : Dma) (order : Nat) (entry : BufEntry) : Prop where
  bufs : dma'.bufs = (dma.setEntry order entry).bufs
  unused : (dma.bufs order).bufCount = 0
  bufCount : dma'.bufCount = dma.bufCount + entry.bufCount
  entryLength : entry.buflist.length = entry.bufCount
  idx : ∀ j b, entry.buflist[j]? = some b → b.idx = dma.bufCount + j
  length : dma'.buflist.length = dma'.bufCount
  old : ∀ i, i < dma.bufCount → dma'.buflist[i]? = dma.buflist[i]?
  new : ∀ j, j < entry.bufCount → dma'.buflist[dma.bufCount + j]? = some (.buf order j)

/-- Storing the pointers behind a copy of the old vector appends. -/
theorem Filled.appended {dma dma1 dma' : Dma} {order : Nat} {entry : BufEntry}
    (h : Filled dma dma1 order entry) {temp : List BufPtr}
    (hlen : temp.length = dma.bufCount + entry.bufCount)
    (hold : ∀ i, i < dma.bufCount → temp[i]? = dma.buflist[i]?) (hbufs : dma'.bufs = dma1.bufs)
    (hcount : dma'.bufCount = dma.bufCount + entry.bufCount)
    (hbuflist : dma'.buflist = storePtrs temp dma.bufCount order entry.bufCount) :
    Appended dma dma' order entry where
  bufs := by rw [hbufs, h.bufs]
  unused := h.unused
  bufCount := hcount
  entryLength := h.length
  idx := h.idx
  length := by rw [hbuflist, storePtrs, storeLoop_length, hlen, hcount]
  old i hi := by
    rw [hbuflist, storePtrs, storeLoop_getElem? _ _ _ (Nat.le_of_eq hlen.symm), if_neg (by omega),
      hold i hi]
  new j hj := by
    rw [hbuflist, storePtrs, storeLoop_getElem? _ _ _ (Nat.le_of_eq hlen.symm), if_pos (by omega),
      Nat.add_sub_cancel_left]

/-! ## The invariant -/

/-- The pointers of the vector are those of the buffers, each at its own place. -/
structure Dma.Inv (dma : Dma) : Prop where
  length : dma.buflist.length = dma.bufCount
  entryLength : ∀ order, (dma.bufs order).buflist.length = (dma.bufs order).bufCount
  ptr : ∀ i p, dma.buflist[i]? = some p →
    ∃ (order j : Nat) (b : Buf), p = .buf order j ∧ (dma.bufs order).buflist[j]? = some b ∧ b.idx = i
  listed : ∀ order j, j < (dma.bufs order).bufCount → BufPtr.buf order j ∈ dma.buflist

theorem Dma.zero_inv : Dma.zero.Inv where
  length := rfl
  entryLength _ := rfl
  ptr i p h := by simp [Dma.zero] at h
  listed order j h := absurd h (Nat.not_lt_zero j)

theorem Dma.setEntry_self (dma : Dma) (order : Nat) (entry : BufEntry) :
    (dma.setEntry order entry).bufs order = entry := if_pos rfl

theorem Dma.setEntry_ne (dma : Dma) {order o : Nat} (entry : BufEntry) (h : o ≠ order) :
    (dma.setEntry order entry).bufs o = dma.bufs o := if_neg h

section Appended

variable {dma dma' : Dma} {order : Nat} {entry : BufEntry}

theorem Appended.kept (h : Appended dma dma' order entry) (hi : dma.Inv) : dma.Kept dma' where
  vector := by
    rw [List.prefix_iff_getElem?]
    intro i hlt
    rw [h.old i (hi.length ▸ hlt), List.getElem?_eq_getElem hlt]
  entries o ho := by
    rw [h.bufs, Dma.setEntry_ne dma entry]
    intro e
    rw [e, h.unused] at ho
    exact ho rfl

/-- The buffers of the other entries are the old ones. -/
theorem Appended.bufs_old (h : Appended dma dma' order entry) (hi : dma.Inv) {o j : Nat} {b : Buf}
    (hb : (dma.bufs o).buflist[j]? = some b) : (dma'.bufs o).buflist[j]? = some b := by
  have hne : o ≠ order := by
    intro e
    have hlen := hi.entryLength o
    rw [e] at hb hlen
    rw [h.unused, List.length_eq_zero_iff] at hlen
    rw [hlen] at hb
    cases hb
  rw [h.bufs, Dma.setEntry_ne dma entry hne, hb]

theorem Appended.inv (h : Appended dma dma' order entry) (hi : dma.Inv) : dma'.Inv where
  length := h.length
  entryLength o := by
    rw [h.bufs]
    by_cases ho : o = order
    · rw [ho, Dma.setEntry_self, h.entryLength]
    · rw [Dma.setEntry_ne dma entry ho, hi.entryLength]
  ptr i p hp := by
    by_cases hlt : i < dma.bufCount
    · rw [h.old i hlt] at hp
      obtain ⟨o, j, b, rfl, hb, hidx⟩ := hi.ptr i p hp
      exact ⟨o, j, b, rfl, h.bufs_old hi hb, hidx⟩
    · have hbound := (List.getElem?_eq_some_iff.mp hp).1
      have hlen := h.length
      have hcount := h.bufCount
      obtain ⟨j, rfl⟩ : ∃ j, i = dma.bufCount + j := ⟨i - dma.bufCount, by omega⟩
      have hj : j < entry.bufCount := by omega
      rw [h.new j hj, Option.some.injEq] at hp
      have hb := List.getElem?_eq_getElem (h.entryLength.symm ▸ hj : j < entry.buflist.length)
      refine ⟨order, j, _, hp.symm, ?_, h.idx j _ hb⟩
      rw [h.bufs, Dma.setEntry_self, hb]
  listed o j hj := by
    rw [h.bufs] at hj
    by_cases ho : o = order
    · rw [ho, Dma.setEntry_self] at hj
      rw [ho]
      exact List.mem_of_getElem? (h.new j hj)
    · rw [Dma.setEntry_ne dma entry ho] at hj
      exact (h.kept hi).vector.subset (hi.listed o j hj)

end Appended

/-- A buffer's number is its place, so that no pointer stands in the vector twice. -/
theorem Dma.Inv.nodup {dma : Dma} (h : dma.Inv) : dma.buflist.Nodup := by
  rw [List.nodup_iff_injective_getElem]
  intro i i' e
  obtain ⟨o, j, b, hp, hb, hidx⟩ := h.ptr i _ (List.getElem?_eq_getElem i.2)
  obtain ⟨o', j', b', hp', hb', hidx'⟩ := h.ptr i' _ (List.getElem?_eq_getElem i'.2)
  simp only at e
  rw [hp, hp', BufPtr.buf.injEq] at e
  obtain ⟨rfl, rfl⟩ := e
  rw [hb, Option.some.injEq] at hb'
  apply Fin.ext
  rw [← hidx, ← hidx', hb']

theorem Dma.Inv.vectorOk {dma : Dma} (h : dma.Inv) : dma.VectorOk where
  length := h.length
  idx i hi := by
    have hp := List.getElem?_eq_getElem (h.length ▸ hi : i < dma.buflist.length)
    obtain ⟨order, j, b, hbuf, hb, hidx⟩ := h.ptr i _ hp
    refine ⟨_, b, hp, ?_, hidx⟩
    rw [hbuf]
    exact hb
  once order j hj := List.count_eq_one_of_mem h.nodup (h.listed order j hj)

/-! ## Calls -/

/-- A call of `drm_addbufs_agp` is in order while there are no buffers. -/
def AddbufsCall.InOrder (c : AddbufsCall) (dev : BufsDev) : Prop :=
  c.agp = true → ∀ dma, dev.dma = some dma → dma.bufCount = 0

theorem drmAddbufsAgp_ok {dev : BufsDev} {request : BufDesc} {fresh : Nat → BufPtr} {dma dma' : Dma}
    (hdma : dev.dma = some dma) (h : drmAddbufsAgp dev request fresh = .ok dma') :
    ∃ dma1 entry, Filled dma dma1 request.order entry ∧ dma'.bufs = dma1.bufs ∧
      dma'.bufCount = dma.bufCount + entry.bufCount ∧
      dma'.buflist = storePtrs ((List.range (dma.bufCount + entry.bufCount)).map fresh) dma.bufCount
        request.order entry.bufCount := by
  simp only [drmAddbufsAgp, hdma] at h
  split at h
  · cases h
  · next dma1 entry byteCount hfill =>
    have hfilled := addbufsFill_filled hfill
    have hcount : dma1.bufCount = dma.bufCount := by
      rw [hfilled.bufs]
      rfl
    cases h
    exact ⟨dma1, entry, hfilled, rfl, by simp only [hcount], by simp only [hcount]⟩

theorem drmAddbufsSg_ok {dev : BufsDev} {request : BufDesc} {suser allocOk : Bool} {dma dma' : Dma}
    (hdma : dev.dma = some dma) (h : drmAddbufsSg dev request suser allocOk = .ok dma') :
    ∃ dma1 entry temp, Filled dma dma1 request.order entry ∧ dma'.bufs = dma1.bufs ∧
      dma'.bufCount = dma.bufCount + entry.bufCount ∧
      drmRealloc allocOk dma.buflist dma.bufCount (dma.bufCount + entry.bufCount) = some temp ∧
      dma'.buflist = storePtrs temp dma.bufCount request.order entry.bufCount := by
  simp only [drmAddbufsSg, hdma] at h
  split at h
  · cases h
  · split at h
    · cases h
    · split at h
      · cases h
      · next dma1 entry byteCount hfill =>
        have hfilled := addbufsFill_filled hfill
        have hcount : dma1.bufCount = dma.bufCount := by
          rw [hfilled.bufs]
          rfl
        have hbuflist : dma1.buflist = dma.buflist := by
          rw [hfilled.bufs]
          rfl
        split at h
        · cases h
        · next temp htemp =>
          rw [hcount, hbuflist] at htemp
          cases h
          exact ⟨dma1, entry, temp, hfilled, rfl, by simp only [hcount], htemp,
            by simp only [hcount]⟩

/-- **A successful call in order appends.** -/
theorem addbufsStep_appended {dev dev' : BufsDev} {c : AddbufsCall} {dma : Dma}
    (hdma : dev.dma = some dma) (hi : dma.Inv) (ho : c.InOrder dev)
    (h : addbufsStep dev c = some dev') :
    ∃ dma' order entry, dev'.dma = some dma' ∧ Appended dma dma' order entry := by
  simp only [addbufsStep] at h
  split at h
  · next dma' hr =>
    cases h
    by_cases hagp : c.agp = true
    · rw [if_pos hagp] at hr
      obtain ⟨dma1, entry, hfilled, hbufs, hcount, hbuflist⟩ := drmAddbufsAgp_ok hdma hr
      have hnone := ho hagp dma hdma
      exact ⟨dma', _, entry, rfl,
        hfilled.appended (by simp) (fun i hlt => by omega) hbufs hcount hbuflist⟩
    · rw [if_neg hagp] at hr
      obtain ⟨dma1, entry, temp, hfilled, hbufs, hcount, htemp, hbuflist⟩ := drmAddbufsSg_ok hdma hr
      have hlen := hi.length
      rw [← hlen] at htemp
      obtain ⟨htlen, hold⟩ := drmRealloc_spec htemp
      rw [hlen] at htlen hold
      exact ⟨dma', _, entry, rfl, hfilled.appended htlen hold hbufs hcount hbuflist⟩
  · cases h

/-- **The master vector over any run** of calls in order: it has every buffer once and buffer `i` at
place `i`, and the next call in order keeps what is there. -/
theorem addbufs_keeps_vector {dev dev' : BufsDev} {calls : List AddbufsCall}
    (h : Run (fun d c d' => addbufsStep d c = some d' ∧ c.InOrder d) (drmDmaSetup dev) calls dev') :
    ∃ dma, dev'.dma = some dma ∧ dma.VectorOk ∧
      ∀ c dev'', addbufsStep dev' c = some dev'' → c.InOrder dev' →
        ∃ dma', dev''.dma = some dma' ∧ dma.Kept dma' := by
  have hinv : ∃ dma, dev'.dma = some dma ∧ dma.Inv := by
    apply h.inv (I := fun d => ∃ dma, d.dma = some dma ∧ dma.Inv) ⟨.zero, rfl, Dma.zero_inv⟩
    intro d c d' ⟨dma, hdma, hi⟩ ⟨hs, ho⟩
    obtain ⟨dma', order, entry, hdma', happ⟩ := addbufsStep_appended hdma hi ho hs
    exact ⟨dma', hdma', happ.inv hi⟩
  obtain ⟨dma, hdma, hi⟩ := hinv
  refine ⟨dma, hdma, hi.vectorOk, fun c dev'' hs ho => ?_⟩
  obtain ⟨dma', order, entry, hdma', happ⟩ := addbufsStep_appended hdma hi ho hs
  exact ⟨dma', hdma', happ.kept hi⟩

/-- A device without buffers, and requests for one buffer of 4 KB and one of 8 KB. -/
def bufsDev : BufsDev := ⟨0xd0000000, 0, 16, 0, true, none⟩

def addOne (agp : Bool) (size : Int32) : AddbufsCall :=
  ⟨agp, ⟨1, size, false, 0⟩, true, fun i => .wild i, true⟩

/-- A buffer of AGP memory, then one of scatter-gather memory. -/
theorem addbufs_keeps_vector_agp_sg : ∃ dev',
    Run (fun d c d' => addbufsStep d c = some d' ∧ c.InOrder d) (drmDmaSetup bufsDev)
      [addOne true 4096, addOne false 8192] dev' ∧
    ∃ dma, dev'.dma = some dma ∧ dma.VectorOk := by
  have run : ∃ dev', Run (fun d c d' => addbufsStep d c = some d' ∧ c.InOrder d)
      (drmDmaSetup bufsDev) [addOne true 4096, addOne false 8192] dev' := by
    refine ⟨_, .snoc (.snoc .nil ⟨rfl, ?first⟩) ⟨rfl, ?second⟩⟩
    case first =>
      intro _ dma hdma
      cases hdma
      rfl
    case second =>
      intro hagp
      cases hagp
  obtain ⟨dev', run⟩ := run
  obtain ⟨dma, hdma, hok, -⟩ := addbufs_keeps_vector run
  exact ⟨dev', run, dma, hdma, hok⟩

/-- A call of `drm_addbufs_agp` out of order puts fresh memory in the place of the old pointers. -/
theorem agp_vector_fresh {dev : BufsDev} {request : BufDesc} {fresh : Nat → BufPtr} {dma dma' : Dma}
    (hdma : dev.dma = some dma) (h : drmAddbufsAgp dev request fresh = .ok dma') {i : Nat}
    (hi : i < dma.bufCount) : dma'.buflist[i]? = some (fresh i) := by
  obtain ⟨dma1, entry, -, -, -, hbuflist⟩ := drmAddbufsAgp_ok hdma h
  rw [hbuflist, storePtrs, storeLoop_getElem? _ _ _ (by simp), if_neg (by omega), List.getElem?_map,
    List.getElem?_range (by omega)]
  rfl

/-- Two calls of `drm_addbufs_agp`: the first pointer of the vector is what the allocator left
there. -/
theorem addbufs_agp_loses_vector : ¬ ∀ (dev dev' : BufsDev) (calls : List AddbufsCall),
    Run (fun d c d' => addbufsStep d c = some d') (drmDmaSetup dev) calls dev' →
      ∃ dma, dev'.dma = some dma ∧ dma.VectorOk := by
  intro h
  obtain ⟨dma, hdma, hok⟩ := h bufsDev _ [addOne true 4096, addOne true 8192]
    (.snoc (.snoc .nil rfl) rfl)
  obtain ⟨p, b, hp, hb, -⟩ := hok.idx 0 (by cases hdma; decide)
  cases hdma
  cases hp
  cases hb

end Drm
