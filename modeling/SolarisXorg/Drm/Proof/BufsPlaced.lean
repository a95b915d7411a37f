import Mathlib.Data.Finset.Card
import Mathlib.Tactic.Ring
import SolarisXorg.Drm.Proof.Bufs

/-!
# The places of DMA buffers

The buffers of a request lie one after another from `dma->byte_count` on (`BufsFill.run_places`), at
a distance that is at most the one by which `byte_count` grows (`alignment_spec`). While no request
overflows the `int` that its bytes are counted in, each of the 23 orders adds less than 2 ^ 31, so
that `dma->byte_count` does not wrap (`Dma.Room`, `addbufs_places`). The largest requests that pass
the checks do overflow it (`addbufs_place_past_end`).
-/

namespace Drm

open Lib

/-! ## The arithmetic of a request -/

/-- What the sizes are for the orders that pass the check: the buffers are `alignment` apart, and each
counts for `PAGE_SIZE << page_order`. -/
theorem alignment_spec : ∀ order < 23, 5 ≤ order → ∀ pageAlign : Bool,
    let alignment : Int32 :=
      if pageAlign then roundPage (.ofNat (2 ^ order)) else .ofNat (2 ^ order)
    0 < alignment.toInt ∧ alignment.toInt = (intToUlong alignment).toNat ∧
      (intToUlong alignment).toNat ≤ 4096 * 2 ^ (order - 12) ∧
      (Int32.ofNat (4096 * 2 ^ (order - 12))).toInt = (4096 * 2 ^ (order - 12) : Nat) := by
  decide

theorem toInt_add_natCast {a b : Int32} {m n : Nat} (ha : a.toInt = m) (hb : b.toInt = n)
    (h : m + n < 2 ^ 31) : (a + b).toInt = (m + n : Nat) := by
  rw [Int32.toInt_add, ha, hb, Int.bmod_eq_of_le] <;> omega

theorem intToUlong_toNat {x : Int32} {n : Nat} (h : x.toInt = n) : (intToUlong x).toNat = n := by
  have hlong : x.toInt64.toInt = n := (Int32.toInt_toInt64 x).trans h
  have hbits : (x.toInt64.toBitVec).toInt = n := hlong
  have hnat : ((intToUlong x).toNat : Int) = n := by
    show ((x.toInt64.toBitVec).toNat : Int) = n
    rw [BitVec.toInt_eq_toNat_cond] at hbits
    split at hbits
    · exact hbits
    · have := (x.toInt64.toBitVec).isLt
      omega
  exact_mod_cast hnat

section Fill

variable {dma : Dma} {request : BufDesc} {agpOffset addrBase : UInt64} {bufPrivSize : Nat}

/-- The loop lays `n` buffers one after another and counts their bytes. -/
theorem BufsFill.run_places {n bytes : Nat} {f f' : BufsFill}
    (h : BufsFill.run dma request agpOffset addrBase bufPrivSize n f = some f')
    (hbytes : request.bufBytes.toInt = bytes) {m : Nat} (hcount : f.byteCount.toInt = m)
    (hint : m + n * bytes < 2 ^ 31)
    (hlong : dma.byteCount.toNat + f.offset.toNat +
      n * (intToUlong request.alignment).toNat < 2 ^ 64) :
    f'.byteCount.toInt = (m + n * bytes : Nat) ∧
    ∀ j b, f'.buflist[j]? = some b → f.buflist[j]? = some b ∨
      f.buflist.length ≤ j ∧ b.total = request.alignment ∧
        b.offset.toNat = dma.byteCount.toNat + f.offset.toNat +
          (j - f.buflist.length) * (intToUlong request.alignment).toNat := by
  induction n generalizing f m with
  | zero =>
    cases h
    exact ⟨by simpa using hcount, fun j b hb => .inl hb⟩
  | succ n ih =>
    rw [Nat.succ_mul] at hint hlong
    simp only [BufsFill.run] at h
    split at h
    · cases h
    have hoffset : (f.add dma request agpOffset addrBase bufPrivSize).offset.toNat =
        f.offset.toNat + (intToUlong request.alignment).toNat := by
      simp only [BufsFill.add, UInt64.toNat_add]
      omega
    have hlen : (f.add dma request agpOffset addrBase bufPrivSize).buflist.length =
        f.buflist.length + 1 := by
      simp only [BufsFill.add, List.length_append, List.length_singleton]
    obtain ⟨htotal, hplace⟩ := ih h (toInt_add_natCast hcount hbytes (by omega)) (by omega)
      (by rw [hoffset]; omega)
    rw [hoffset, hlen] at hplace
    refine ⟨by rw [htotal, Nat.succ_mul]; congr 1; omega, fun j b hb => ?_⟩
    rcases hplace j b hb with hb | ⟨hj, htotal, hoff⟩
    · simp only [BufsFill.add, List.getElem?_append] at hb
      split at hb
      · exact .inl hb
      · next hge =>
        obtain ⟨hzero, hb⟩ := List.getElem?_eq_some_iff.mp hb
        have hj : j = f.buflist.length := by
          simp only [List.length_singleton] at hzero
          omega
        subst hj
        simp only [Nat.sub_self, List.getElem_cons_zero] at hb
        subst hb
        refine .inr ⟨le_rfl, rfl, ?_⟩
        rw [Nat.sub_self, Nat.zero_mul, Nat.add_zero, UInt64.toNat_add]
        exact Nat.mod_eq_of_lt (by omega)
    · refine .inr ⟨by omega, htotal, ?_⟩
      obtain ⟨k, rfl⟩ := Nat.exists_eq_add_of_le hj
      rw [hoff, Nat.add_sub_cancel_left, Nat.add_assoc f.buflist.length, Nat.add_sub_cancel_left,
        Nat.add_comm 1 k, Nat.succ_mul]
      omega

end Fill

/-- What `addbufsFill` has checked and done when it succeeds. -/
theorem addbufsFill_ok {dev : BufsDev} {dma dma' : Dma} {request : BufDesc}
    {agpOffset addrBase : UInt64} {entry : BufEntry} {byteCount : Int32}
    (h : addbufsFill dev dma request agpOffset addrBase = .ok (dma', entry, byteCount)) :
    drmMinOrder ≤ request.order ∧ request.order ≤ drmMaxOrder ∧
      0 < request.count ∧ request.count ≤ 4096 ∧ (dma.bufs request.order).bufCount = 0 ∧
      dma' = dma.setEntry request.order entry ∧ entry.bufCount = entry.buflist.length ∧
      0 < entry.bufCount ∧
      ∃ f, BufsFill.run dma request agpOffset addrBase dev.bufPrivSize request.count.toNat
        ⟨[], 0, 0⟩ = some f ∧ entry.buflist = f.buflist ∧ byteCount = f.byteCount := by
  have hfilled := addbufsFill_filled h
  simp only [addbufsFill] at h
  split at h
  · cases h
  rename_i horder
  split at h
  · cases h
  split at h
  · cases h
  split at h
  · cases h
  rename_i hcount
  split at h
  · cases h
  rename_i hzero
  split at h
  · cases h
  rename_i f hf
  have hpos := hfilled.pos
  cases h
  exact ⟨by omega, by omega, by omega, by omega, hfilled.unused, rfl, rfl, hpos, f, hf, rfl, rfl⟩

/-- An error leaves the buffers and their bytes. -/
theorem addbufsFill_error {dev : BufsDev} {dma dma' : Dma} {request : BufDesc}
    {agpOffset addrBase : UInt64} {e : BufsError}
    (h : addbufsFill dev dma request agpOffset addrBase = .error (e, dma')) :
    dma' = dma ∨ (dma.bufs request.order).bufCount = 0 ∧
      ∃ entry, entry.bufCount = 0 ∧ dma' = dma.setEntry request.order entry := by
  simp only [addbufsFill] at h
  split at h
  · cases h
    exact .inl rfl
  split at h
  · cases h
    exact .inl rfl
  split at h
  · cases h
    exact .inl rfl
  rename_i hunused
  rw [not_not] at hunused
  split at h
  · cases h
    exact .inl rfl
  split at h
  · cases h
    exact .inr ⟨hunused, { dma.bufs request.order with buflist := [] }, hunused, rfl⟩
  split at h
  · cases h
    exact .inr ⟨hunused, _, rfl, rfl⟩
  · cases h

/-! ## One call -/

/-- The buffers and their bytes are the same. -/
def Dma.Same (dma dma' : Dma) : Prop :=
  dma'.byteCount = dma.byteCount ∧ (∀ order i, dma'.buffer order i = dma.buffer order i) ∧
    ∀ order, (dma'.bufs order).bufCount = (dma.bufs order).bufCount

theorem Dma.setEntry_setEntry (dma : Dma) (order : Nat) (entry entry' : BufEntry) :
    (dma.setEntry order entry).setEntry order entry' = dma.setEntry order entry' := by
  simp only [Dma.setEntry]
  congr 1
  funext o
  split <;> rfl

theorem Dma.Same.setEntry {dma : Dma} {order : Nat} (h : (dma.bufs order).bufCount = 0)
    {entry : BufEntry} (he : entry.bufCount = 0) : dma.Same (dma.setEntry order entry) := by
  refine ⟨rfl, fun o i => ?_, fun o => ?_⟩
  · by_cases ho : o = order
    · subst ho
      rw [buffer, buffer, Dma.setEntry_self, he, h, if_neg (Nat.not_lt_zero i),
        if_neg (Nat.not_lt_zero i)]
    · rw [buffer, buffer, Dma.setEntry_ne dma entry ho]
  · by_cases ho : o = order
    · rw [ho, Dma.setEntry_self, he, h]
    · rw [Dma.setEntry_ne dma entry ho]

theorem addbufsFill_same {dev : BufsDev} {dma dma' : Dma} {request : BufDesc}
    {agpOffset addrBase : UInt64} {e : BufsError}
    (h : addbufsFill dev dma request agpOffset addrBase = .error (e, dma')) : dma.Same dma' := by
  rcases addbufsFill_error h with rfl | ⟨hunused, entry, he, rfl⟩
  · exact ⟨rfl, fun _ _ => rfl, fun _ => rfl⟩
  · exact .setEntry hunused he

/-- What a call does: it leaves the buffers, or it adds those of `addbufsFill`. -/
theorem addbufsNext_cases {dev : BufsDev} {dma : Dma} (hdma : dev.dma = some dma)
    (c : AddbufsCall) : ∃ dma', (addbufsNext dev c).dma = some dma' ∧ (dma.Same dma' ∨
      ∃ agpOffset addrBase dma₁ entry byteCount,
        addbufsFill dev dma c.request agpOffset addrBase = .ok (dma₁, entry, byteCount) ∧
        dma'.bufs = (dma.setEntry c.request.order entry).bufs ∧
        dma'.byteCount = dma.byteCount + intToUlong byteCount) := by
  have hsame : dma.Same dma := ⟨rfl, fun _ _ => rfl, fun _ => rfl⟩
  unfold addbufsNext
  by_cases hagp : c.agp = true
  · simp only [hagp, if_true, drmAddbufsAgp, hdma]
    split
    · rename_i dma₁ hr
      split at hr
      · cases hr
      · rename_i dma₂ entry byteCount hfill
        cases hr
        refine ⟨_, rfl, .inr ⟨_, _, dma₂, entry, byteCount, hfill, ?_, ?_⟩⟩ <;>
          obtain ⟨-, -, -, -, -, rfl, -⟩ := addbufsFill_ok hfill <;> rfl
    · rename_i e dma₁ hr
      split at hr
      · rename_i hfill
        cases hr
        exact ⟨_, rfl, .inl (addbufsFill_same hfill)⟩
      · cases hr
  · simp only [hagp, Bool.false_eq_true, if_false, drmAddbufsSg, hdma]
    split
    · rename_i dma₁ hr
      split at hr
      · cases hr
      split at hr
      · cases hr
      split at hr
      · cases hr
      rename_i dma₂ entry byteCount hfill
      split at hr
      · cases hr
      · cases hr
        refine ⟨_, rfl, .inr ⟨_, _, dma₂, entry, byteCount, hfill, ?_, ?_⟩⟩ <;>
          obtain ⟨-, -, -, -, -, rfl, -⟩ := addbufsFill_ok hfill <;> rfl
    · rename_i e dma₁ hr
      split at hr
      · cases hr
        exact ⟨_, rfl, .inl hsame⟩
      split at hr
      · cases hr
        exact ⟨_, rfl, .inl hsame⟩
      split at hr
      · rename_i hfill
        cases hr
        exact ⟨_, rfl, .inl (addbufsFill_same hfill)⟩
      rename_i dma₂ entry byteCount hfill
      split at hr
      · cases hr
        obtain ⟨-, -, -, -, hunused, rfl, -⟩ := addbufsFill_ok hfill
        refine ⟨_, rfl, .inl ?_⟩
        rw [Dma.setEntry_setEntry]
        exact .setEntry hunused rfl
      · cases hr

/-! ## Runs -/

/-- The orders that have buffers. -/
def Dma.usedOrders (dma : Dma) : Finset Nat :=
  (Finset.range 23).filter fun order => (dma.bufs order).bufCount ≠ 0

/-- The buffers have their places, and each order that has buffers stands for less than 2 ^ 31
bytes. -/
structure Dma.Room (dma : Dma) : Prop where
  placed : dma.Placed
  bytes : dma.byteCount.toNat ≤ 2 ^ 31 * dma.usedOrders.card

theorem Dma.zero_room : Dma.zero.Room := by
  have hnone : ∀ order i, Dma.zero.buffer order i = none := fun order i => if_neg (Nat.not_lt_zero i)
  refine ⟨⟨fun order i b order' i' b' hb => ?_, fun order i b hb => ?_⟩, Nat.zero_le _⟩
  · rw [hnone] at hb
    cases hb
  · rw [hnone] at hb
    cases hb

theorem Dma.Same.room {dma dma' : Dma} (h : dma.Same dma') (hr : dma.Room) : dma'.Room := by
  obtain ⟨hbytes, hbuffer, hcount⟩ := h
  refine ⟨⟨fun order i b order' i' b' hb hb' => ?_, fun order i b hb => ?_⟩, ?_⟩
  · rw [hbuffer] at hb hb'
    exact hr.placed.disjoint order i b order' i' b' hb hb'
  · rw [hbuffer] at hb
    rw [hbytes]
    exact hr.placed.below order i b hb
  · simp only [Dma.usedOrders, hbytes, hcount]
    exact hr.bytes

theorem Buf.place_disjoint {b b' : Buf}
    (h : b.stop ≤ b'.offset.toNat ∨ b'.stop ≤ b.offset.toNat) : ∀ x ∈ b.place, x ∉ b'.place := by
  intro x hx hx'
  obtain ⟨hoffset, hstop⟩ := hx
  obtain ⟨hoffset', hstop'⟩ := hx'
  omega

theorem Dma.usedOrders_setEntry {dma : Dma} {order : Nat} {entry : BufEntry} (ho : order < 23)
    (he : 0 < entry.bufCount) :
    (dma.setEntry order entry).usedOrders = insert order dma.usedOrders := by
  ext o
  simp only [usedOrders, Finset.mem_filter, Finset.mem_insert, Finset.mem_range]
  by_cases hoo : o = order
  · subst hoo
    rw [Dma.setEntry_self]
    exact ⟨fun _ => .inl rfl, fun _ => ⟨ho, he.ne'⟩⟩
  · rw [Dma.setEntry_ne dma entry hoo]
    exact ⟨.inr, fun h => h.resolve_left hoo⟩

/-- The buffers of a request that fits: `n` of them, `stride` apart, that count for `bytes` each. -/
theorem addbufsFill_laid {dev : BufsDev} {dma dma' : Dma} {request : BufDesc}
    {agpOffset addrBase : UInt64} {entry : BufEntry} {byteCount : Int32} (hfit : request.FitsInt)
    (hroom : dma.byteCount.toNat < 2 ^ 63)
    (hfill : addbufsFill dev dma request agpOffset addrBase = .ok (dma', entry, byteCount)) :
    ∃ n stride bytes : Nat, stride ≤ bytes ∧ n * bytes < 2 ^ 31 ∧
      (intToUlong byteCount).toNat = n * bytes ∧
      ∀ i b, entry.buflist[i]? = some b → i < n ∧
        b.offset.toNat = dma.byteCount.toNat + i * stride ∧
        b.stop = ((dma.byteCount.toNat + (i + 1) * stride : Nat) : Int) := by
  obtain ⟨hmin, hmax, hpos, hcount, -, -, -, -, f, hrun, hlist, rfl⟩ := addbufsFill_ok hfill
  obtain ⟨hapos, hasame, hale, hbuf⟩ :=
    alignment_spec request.order (Nat.lt_succ_of_le hmax) hmin request.pageAlign
  change 0 < request.alignment.toInt at hapos
  change request.alignment.toInt = (intToUlong request.alignment).toNat at hasame
  change (intToUlong request.alignment).toNat ≤ 4096 * 2 ^ request.pageOrder at hale
  change request.bufBytes.toInt = (4096 * 2 ^ request.pageOrder : Nat) at hbuf
  have hint := hfit hmin hmax hcount
  obtain ⟨n, hn⟩ := Int.eq_ofNat_of_zero_le hpos.le
  rw [hn] at hint
  rw [hn, Int.toNat_natCast] at hrun
  generalize 4096 * 2 ^ request.pageOrder = bytes at hale hbuf hint
  replace hint : n * bytes < 2 ^ 31 := by exact_mod_cast hint
  have hstride := Nat.mul_le_mul_left n hale
  obtain ⟨htotal, hplace⟩ := BufsFill.run_places hrun hbuf (m := 0) rfl (by omega)
    (by
      show _ + 0 + _ < _
      omega)
  rw [Nat.zero_add] at htotal
  refine ⟨n, _, bytes, hale, hint, intToUlong_toNat htotal, fun i b hb => ?_⟩
  rw [hlist] at hb
  have hi : i < n := by
    have hlt := (List.getElem?_eq_some_iff.1 hb).1
    rwa [(BufsFill.run_spec hrun (by simp)).1, List.length_nil, Nat.zero_add] at hlt
  rcases hplace i b hb with hb | ⟨-, hb, hoff⟩
  · cases hb
  · have hoff' : b.offset.toNat =
        dma.byteCount.toNat + i * (intToUlong request.alignment).toNat := hoff
    refine ⟨hi, hoff', ?_⟩
    rw [Buf.stop, hb, hasame, hoff', Nat.succ_mul]
    omega

/-- They are laid behind the others. -/
theorem Dma.Room.fill {dev : BufsDev} {dma dma₁ dma' : Dma} {request : BufDesc}
    {agpOffset addrBase : UInt64} {entry : BufEntry} {byteCount : Int32} (hr : dma.Room)
    (hfit : request.FitsInt)
    (hfill : addbufsFill dev dma request agpOffset addrBase = .ok (dma₁, entry, byteCount))
    (hbufs : dma'.bufs = (dma.setEntry request.order entry).bufs)
    (hbytes : dma'.byteCount = dma.byteCount + intToUlong byteCount) : dma'.Room := by
  obtain ⟨-, hmax, -, -, hunused, -, -, hentry, -⟩ := addbufsFill_ok hfill
  have hmem : request.order < 23 := Nat.lt_succ_of_le hmax
  -- the other orders leave room for this one
  have hnew : request.order ∉ dma.usedOrders := fun h => (Finset.mem_filter.1 h).2 hunused
  have hcard : dma.usedOrders.card < 23 := by
    have hsub : insert request.order dma.usedOrders ⊆ Finset.range 23 :=
      Finset.insert_subset (Finset.mem_range.2 hmem) (Finset.filter_subset _ _)
    have hle := Finset.card_le_card hsub
    rwa [Finset.card_insert_of_notMem hnew, Finset.card_range] at hle
  have hbound := hr.bytes
  obtain ⟨n, stride, bytes, hstride, hint, htotal, hlaid⟩ :=
    addbufsFill_laid hfit (by omega) hfill
  have hsum : dma'.byteCount.toNat = dma.byteCount.toNat + n * bytes := by
    rw [hbytes, UInt64.toNat_add, htotal]
    exact Nat.mod_eq_of_lt (by omega)
  have hplaced : ∀ {i b}, dma'.buffer request.order i = some b → i < n ∧
      b.offset.toNat = dma.byteCount.toNat + i * stride ∧
      b.stop = ((dma.byteCount.toNat + (i + 1) * stride : Nat) : Int) := by
    intro i b hb
    rw [Dma.buffer, hbufs, Dma.setEntry_self] at hb
    split at hb
    · exact hlaid i b hb
    · cases hb
  have hold : ∀ {order}, order ≠ request.order → ∀ i, dma'.buffer order i = dma.buffer order i := by
    intro order ho i
    rw [Dma.buffer, Dma.buffer, hbufs, Dma.setEntry_ne dma entry ho]
  refine ⟨⟨fun order i b order' i' b' hb hb' hne => ?_, fun order i b hb => ?_⟩, ?_⟩
  · by_cases ho : order = request.order <;> by_cases ho' : order' = request.order
    · subst ho ho'
      obtain ⟨-, hoff, hstop⟩ := hplaced hb
      obtain ⟨-, hoff', hstop'⟩ := hplaced hb'
      have hii : i ≠ i' := fun h => hne (by rw [h])
      rcases Nat.lt_or_gt_of_ne hii with hlt | hlt
      · have hmul := Nat.mul_le_mul_right stride (show i + 1 ≤ i' from hlt)
        exact Buf.place_disjoint (.inl (by omega))
      · have hmul := Nat.mul_le_mul_right stride (show i' + 1 ≤ i from hlt)
        exact Buf.place_disjoint (.inr (by omega))
    · subst ho
      rw [hold ho'] at hb'
      have hbelow := hr.placed.below _ _ _ hb'
      obtain ⟨-, hoff, -⟩ := hplaced hb
      exact Buf.place_disjoint (.inr (by omega))
    · subst ho'
      rw [hold ho] at hb
      have hbelow := hr.placed.below _ _ _ hb
      obtain ⟨-, hoff, -⟩ := hplaced hb'
      exact Buf.place_disjoint (.inl (by omega))
    · rw [hold ho] at hb
      rw [hold ho'] at hb'
      exact hr.placed.disjoint order i b order' i' b' hb hb' hne
  · rw [hsum]
    by_cases ho : order = request.order
    · subst ho
      obtain ⟨hi, -, hstop⟩ := hplaced hb
      have hmul := Nat.mul_le_mul (show i + 1 ≤ n from hi) hstride
      omega
    · rw [hold ho] at hb
      have hbelow := hr.placed.below order i b hb
      omega
  · have hused : dma'.usedOrders = insert request.order dma.usedOrders := by
      rw [← Dma.usedOrders_setEntry hmem hentry, Dma.usedOrders, Dma.usedOrders, hbufs]
    rw [hused, Finset.card_insert_of_notMem hnew, hsum]
    omega

/-- The buffers have their places after a call whose bytes fit an `int`. -/
theorem addbufsNext_room {dev : BufsDev} {dma : Dma} (hdma : dev.dma = some dma) (hr : dma.Room)
    {c : AddbufsCall} (hfit : c.request.FitsInt) :
    ∃ dma', (addbufsNext dev c).dma = some dma' ∧ dma'.Room := by
  obtain ⟨dma', hdma', hsame | ⟨_, _, _, _, _, hfill, hbufs, hbytes⟩⟩ := addbufsNext_cases hdma c
  · exact ⟨dma', hdma', hsame.room hr⟩
  · exact ⟨dma', hdma', hr.fill hfit hfill hbufs hbytes⟩

/-- **The places of the buffers over any run** of requests whose bytes fit an `int`: they do not
overlap and lie below `dma->byte_count`. -/
theorem addbufs_places {dev dev' : BufsDev} {calls : List AddbufsCall}
    (h : Run (fun d c d' => addbufsNext d c = d' ∧ c.request.FitsInt) (drmDmaSetup dev) calls dev') :
    ∃ dma, dev'.dma = some dma ∧ dma.Placed := by
  obtain ⟨dma, hdma, hr⟩ : ∃ dma, dev'.dma = some dma ∧ dma.Room := by
    apply h.inv (I := fun d => ∃ dma, d.dma = some dma ∧ dma.Room) ⟨.zero, rfl, Dma.zero_room⟩
    intro d c d' hd hstep
    obtain ⟨dma, hdma, hr⟩ := hd
    obtain ⟨rfl, hfit⟩ := hstep
    exact addbufsNext_room hdma hr hfit
  exact ⟨dma, hdma, hr.placed⟩

/-- A buffer of AGP memory, then one of scatter-gather memory. -/
theorem addbufs_places_agp_sg : ∃ dev',
    Run (fun d c d' => addbufsNext d c = d' ∧ c.request.FitsInt) (drmDmaSetup bufsDev)
      [addOne true 4096, addOne false 8192] dev' ∧ ∃ dma, dev'.dma = some dma ∧ dma.Placed := by
  have hrun : ∃ dev', Run (fun d c d' => addbufsNext d c = d' ∧ c.request.FitsInt)
      (drmDmaSetup bufsDev) [addOne true 4096, addOne false 8192] dev' := by
    refine ⟨_, .snoc (.snoc .nil ⟨rfl, ?_⟩) ⟨rfl, ?_⟩⟩
    · unfold BufDesc.FitsInt
      decide
    · unfold BufDesc.FitsInt
      decide
  obtain ⟨dev', hrun⟩ := hrun
  exact ⟨dev', hrun, addbufs_places hrun⟩

/-! ## A request that does not fit -/

/-- The loop's count of the bytes wraps. -/
theorem BufsFill.run_wraps {dma : Dma} {request : BufDesc} {agpOffset addrBase : UInt64}
    {bufPrivSize : Nat} (hpriv : bufPrivSize ≠ 0) (n : Nat) (f : BufsFill) :
    ∃ f', BufsFill.run dma request agpOffset addrBase bufPrivSize n f = some f' ∧
      f.buflist <+: f'.buflist ∧
      f'.byteCount.toInt = (f.byteCount.toInt + n * request.bufBytes.toInt).bmod (2 ^ 32) := by
  induction n generalizing f with
  | zero =>
    refine ⟨f, rfl, List.prefix_rfl, ?_⟩
    rw [Nat.cast_zero, Int.zero_mul, Int.add_zero]
    exact (Int.bmod_eq_of_le (Int32.le_toInt _) (Int32.toInt_lt _)).symm
  | succ n ih =>
    obtain ⟨f', hrun, hpre, hbytes⟩ := ih (f.add dma request agpOffset addrBase bufPrivSize)
    refine ⟨f', by rw [BufsFill.run, if_neg hpriv, hrun], (List.prefix_append _ _).trans hpre, ?_⟩
    rw [hbytes]
    simp only [BufsFill.add, Int32.toInt_add, Int.bmod_add_bmod, Nat.cast_succ]
    congr 1
    ring

/-- A request for 1024 buffers of 4 MB. -/
def fourGigabytes : AddbufsCall :=
  ⟨true, ⟨1024, 0x400000, false, 0⟩, true, fun i => .wild i, true⟩

theorem fourGigabytes_fill : ∃ dma entry, addbufsFill (drmDmaSetup bufsDev) .zero
    fourGigabytes.request 0xd0000000 0 = .ok (dma, entry, 0) ∧
      ∃ b, entry.buflist[0]? = some b ∧ b.stop = 0x400000 := by
  have hbytes : fourGigabytes.request.bufBytes.toInt = 0x400000 := by decide
  have hrest : ∃ f, BufsFill.run .zero fourGigabytes.request 0xd0000000 0 16 1023
      (BufsFill.add .zero fourGigabytes.request 0xd0000000 0 16 ⟨[], 0, 0⟩) = some f ∧ _ ∧ _ :=
    BufsFill.run_wraps (by decide) 1023 _
  obtain ⟨f, hrun, ⟨rest, hlist⟩, hcount⟩ := hrest
  have hzero : f.byteCount = 0 := by
    rw [hbytes] at hcount
    exact Int32.toInt_inj.1 hcount
  have hall : BufsFill.run .zero fourGigabytes.request 0xd0000000 0
      (drmDmaSetup bufsDev).bufPrivSize fourGigabytes.request.count.toNat ⟨[], 0, 0⟩ = some f := by
    show BufsFill.run .zero fourGigabytes.request 0xd0000000 0 16 (1023 + 1) ⟨[], 0, 0⟩ = some f
    rw [BufsFill.run, if_neg (by decide), hrun]
  obtain ⟨dma, entry, hfill, hentry⟩ : ∃ dma entry, addbufsFill (drmDmaSetup bufsDev) .zero
      fourGigabytes.request 0xd0000000 0 = .ok (dma, entry, f.byteCount) ∧
        entry.buflist = f.buflist := by
    unfold addbufsFill
    dsimp only
    rw [if_neg (by decide), if_neg (by decide), if_neg (by decide), if_neg (by decide),
      if_neg (by decide), hall]
    exact ⟨_, _, rfl, rfl⟩
  rw [hzero] at hfill
  refine ⟨dma, entry, hfill, ?_⟩
  rw [hentry, ← hlist]
  exact ⟨_, rfl, by decide⟩

/-- The bytes of the request's buffers are counted as 0, and none of them lies below the count. -/
theorem addbufs_place_past_end : ¬ ∀ (dev dev' : BufsDev) (calls : List AddbufsCall),
    Run (fun d c d' => addbufsNext d c = d') (drmDmaSetup dev) calls dev' →
      ∃ dma, dev'.dma = some dma ∧ dma.Placed := by
  intro h
  obtain ⟨dma₁, entry, hfill, b, hb, hstop⟩ := fourGigabytes_fill
  obtain ⟨-, -, -, -, -, rfl, -, hcount, -⟩ := addbufsFill_ok hfill
  obtain ⟨dma, hdma, hplaced⟩ := h bufsDev _ [fourGigabytes] (.snoc .nil rfl)
  have hcall : addbufsFill (drmDmaSetup bufsDev) .zero fourGigabytes.request
      ((drmDmaSetup bufsDev).agpBase + fourGigabytes.request.agpStart) 0 = _ := hfill
  have hdma₀ : (drmDmaSetup bufsDev).dma = some .zero := rfl
  have hagp : fourGigabytes.agp = true := rfl
  simp only [addbufsNext, hagp, if_true, drmAddbufsAgp, hdma₀, hcall] at hdma
  cases hdma
  have hbelow : b.stop ≤ ((0 : UInt64) + intToUlong 0).toNat :=
    hplaced.below fourGigabytes.request.order 0 b <| by
      simp only [Dma.buffer, Dma.setEntry_self]
      rw [if_pos hcount, hb]
  rw [hstop] at hbelow
  exact absurd hbelow (by decide)

end Drm
