import Mathlib.Tactic.LinearCombination
import Mathlib.Tactic.Zify
import SolarisXorg.I915.Proof.RingPos

/-!
# The command ring is never overrun

Of the `N` dwords that have been stored the GPU has fetched `F` and may fetch up to `P`, and the driver
knows that it has fetched `K`, with `K ≤ F ≤ P ≤ N`. `Inv` ties the fields and registers to these
numbers; its arithmetic is `4 * N + reserved + space + 64 ≤ 4 * K + size`.

A wait moves `K` on (`Inv.setHead`). It does so from requests first (`waitRequest_spec`), and when
that gives out with `-ENOSPC` no position is left noted anywhere, so that the head register may be read
(`pollHead_spec`): a request that retires later cannot take the head back. `Inv` is kept by every call
(`RingStep.inv`), and the results are read off it.
-/

namespace I915

variable {g : Geom} {s t : Ring} {K M P : Nat} {n : Int}

/-- The invariant (module doc). -/
structure Inv (g : Geom) (K P : Nat) (s : Ring) : Prop where
  log : LogInv g s
  known : K ≤ s.fetched
  fetched_le : s.fetched ≤ P
  pub_le : P ≤ s.log.length
  head : (s.head &&& headAddr).toNat = g.off K
  gpu : s.gpu = g.off s.fetched
  pub : s.pub = g.off P
  tail : s.tail % g.size = g.off s.log.length
  tail_le : s.tail + s.reserved.getD 0 ≤ g.effectiveSize
  tail_lt : s.reserved = none → s.tail < g.size
  dwords : 4 ∣ s.reserved.getD 0
  space : 0 ≤ s.space
  room : 4 * (s.log.length : Int) + s.reserved.getD 0 + s.space + freeSpace ≤ 4 * K + g.size
  marks : Marks g K s.fetched s.log.length s.lastRetiredHead (s.requestList ++ s.adding.toList)

theorem Inv.tail_eq (h : Inv g K P s) (hr : s.reserved = none) : s.tail = g.off s.log.length := by
  rw [← h.tail, Nat.mod_eq_of_lt (h.tail_lt hr)]

/-! ## The GPU and retirement -/

theorem Inv.gpuStep (h : Inv g K P s) : Inv g K P (s.gpuStep g) := by
  unfold Ring.gpuStep
  split
  · exact h
  · next hne =>
    have hlt : s.fetched < P := by
      refine Nat.lt_of_le_of_ne h.fetched_le fun he => hne ?_
      rw [h.gpu, h.pub, he]
    have hk := h.known
    refine ⟨⟨h.log.offs, h.log.clean, ?_⟩, by simp only; omega, hlt, h.pub_le, h.head, ?_, h.pub,
      h.tail, h.tail_le, h.tail_lt, h.dwords, h.space, h.room, h.marks.mono (Nat.le_succ _) le_rfl⟩
    · intro e he
      apply h.log.intact e
      rw [Ring.unread, ← List.drop_drop] at he
      exact List.mem_of_mem_drop he
    · show (s.gpu + 4) % g.size = g.off (s.fetched + 1)
      rw [h.gpu, Geom.off_succ]

theorem Inv.gpuRun (h : Inv g K P s) (k : Nat) : Inv g K P (s.gpuRun g k) := by
  induction k generalizing s with
  | zero => exact h
  | succ k ih => exact ih h.gpuStep

/-- The parts of a ring that no wait touches. -/
structure Kept (s t : Ring) : Prop where
  tail : t.tail = s.tail
  log : t.log = s.log
  reserved : t.reserved = s.reserved
  adding : t.adding = s.adding
  marks : ∀ r ∈ t.requestList, ∃ a ∈ s.requestList, r.mark = a.mark

theorem Kept.refl (s : Ring) : Kept s s := ⟨rfl, rfl, rfl, rfl, fun r hr => ⟨r, hr, rfl⟩⟩

theorem Kept.trans {u : Ring} (h : Kept s t) (h' : Kept t u) : Kept s u := by
  refine ⟨h'.tail.trans h.tail, h'.log.trans h.log, h'.reserved.trans h.reserved,
    h'.adding.trans h.adding, ?_⟩
  intro r hr
  obtain ⟨a, ha, hra⟩ := h'.marks r hr
  obtain ⟨b, hb, hab⟩ := h.marks a ha
  exact ⟨b, hb, hra.trans hab⟩

theorem Kept.gpuRun (k : Nat) : ∀ s : Ring, Kept s (s.gpuRun g k) := by
  induction k with
  | zero => exact Kept.refl
  | succ k ih =>
    intro s
    refine Kept.trans ?_ (ih _)
    unfold Ring.gpuStep
    split
    · exact Kept.refl s
    · exact ⟨rfl, rfl, rfl, rfl, fun r hr => ⟨r, hr, rfl⟩⟩

theorem gpuRun_requestList (k : Nat) : ∀ s : Ring, (s.gpuRun g k).requestList = s.requestList ∧
    (s.gpuRun g k).lastRetiredHead = s.lastRetiredHead := by
  induction k with
  | zero => exact fun s => ⟨rfl, rfl⟩
  | succ k ih =>
    intro s
    obtain ⟨h1, h2⟩ := ih (s.gpuStep g)
    rw [Ring.gpuRun, h1, h2]
    unfold Ring.gpuStep
    split
    · exact ⟨rfl, rfl⟩
    · exact ⟨rfl, rfl⟩

/-- Only the noted positions change when a request retires. -/
theorem Inv.withMarks (h : Inv g K P s) {last : Option Nat} {rs : List Request}
    (hm : Marks g K s.fetched s.log.length last (rs ++ s.adding.toList)) :
    Inv g K P { s with lastRetiredHead := last, requestList := rs } :=
  ⟨⟨h.log.offs, h.log.clean, h.log.intact⟩, h.known, h.fetched_le, h.pub_le, h.head, h.gpu, h.pub,
    h.tail, h.tail_le, h.tail_lt, h.dwords, h.space, h.room, hm⟩

theorem Inv.retireRequests (k : Nat) : ∀ {s : Ring}, Inv g K P s →
    Inv g K P (s.retireRequests k) ∧ Kept s (s.retireRequests k) := by
  induction k with
  | zero => exact fun h => ⟨h, Kept.refl _⟩
  | succ k ih =>
    intro s h
    rw [Ring.retireRequests]
    split
    · exact ⟨h, Kept.refl s⟩
    · next r rs hrs =>
      split
      · next hr =>
        have hm := h.marks
        rw [hrs, List.cons_append] at hm
        obtain ⟨h1, h2⟩ := ih (h.withMarks (hm.retire hr))
        refine ⟨h1, h2.tail, h2.log, h2.reserved, h2.adding, ?_⟩
        intro b hb
        obtain ⟨a, ha, hba⟩ := h2.marks b hb
        exact ⟨a, by rw [hrs]; exact List.mem_cons_of_mem _ ha, hba⟩
      · exact ⟨h, Kept.refl s⟩

/-! ## The head is found further on -/

/-- The space that goes with a head at `M`. -/
theorem Inv.spaceTo (h : Inv g K P s) (hr : s.reserved = none) (hKM : K ≤ M)
    (hMN : M ≤ s.log.length) :
    Ring.spaceTo g (g.off M) s.tail = 4 * (M : Int) + g.size - 4 * s.log.length - freeSpace := by
  have h1 := h.room
  have h2 := h.space
  rw [hr, Option.getD_none] at h1
  rw [h.tail_eq hr]
  exact spaceTo_off hMN (by omega)

theorem Inv.setHead (h : Inv g K P s) (hr : s.reserved = none) (hKM : K ≤ M) (hMF : M ≤ s.fetched)
    {x : BitVec 32} (hx : (x &&& headAddr).toNat = g.off M) {last : Option Nat}
    (hm : Marks g M s.fetched s.log.length last (s.requestList ++ s.adding.toList)) :
    Inv g M P ({ s with lastRetiredHead := last }.setHead g x) ∧
      ({ s with lastRetiredHead := last }.setHead g x).space =
        4 * (M : Int) + g.size - 4 * s.log.length - freeSpace := by
  have hsp : ({ s with lastRetiredHead := last }.setHead g x).space =
      4 * (M : Int) + g.size - 4 * s.log.length - freeSpace := by
    simp only [Ring.setHead, Ring.ringSpace, hx]
    exact h.spaceTo hr hKM (hMF.trans (h.fetched_le.trans h.pub_le))
  have h1 := h.room
  have h2 := h.space
  refine ⟨⟨⟨h.log.offs, h.log.clean, h.log.intact⟩, hMF, h.fetched_le, h.pub_le, hx, h.gpu, h.pub,
    h.tail, h.tail_le, h.tail_lt, h.dwords, ?_, ?_, hm⟩, hsp⟩
  · rw [hsp]
    omega
  · rw [hsp]
    simp only [Ring.setHead, hr, Option.getD_none]
    omega

/-! ## Waiting for a request -/

/-- `last_retired_head` stands at position `M`, and no noted position is behind it. -/
structure RetiredAt (g : Geom) (M : Nat) (s : Ring) : Prop where
  last : s.lastRetiredHead = some (g.off M)
  le : M ≤ s.fetched
  marks : Marks g M s.fetched s.log.length none (s.requestList ++ s.adding.toList)

/-- Further requests retire, none of which has been consumed. -/
theorem RetiredAt.retireRequests (k : Nat) : ∀ {s : Ring} {M : Nat}, RetiredAt g M s →
    (∀ r ∈ s.requestList, r.tail ≠ none) →
    ∃ M', M ≤ M' ∧ RetiredAt g M' (s.retireRequests k) := by
  induction k with
  | zero => exact fun {s M} h _ => ⟨M, le_rfl, h⟩
  | succ k ih =>
    intro s M h hv
    rw [Ring.retireRequests]
    split
    · exact ⟨M, le_rfl, h⟩
    · next r rs hrs =>
      split
      · next hr =>
        have hm := h.marks
        rw [hrs, List.cons_append] at hm
        obtain ⟨x, hx⟩ := Option.ne_none_iff_exists'.mp (hv r (by rw [hrs]; exact List.mem_cons_self))
        obtain ⟨hoff, hM, hm'⟩ := hm.retire_take hx
        obtain ⟨M', h1, h2⟩ := ih (s := { s with lastRetiredHead := r.tail, requestList := rs })
          (M := r.mark) ⟨by rw [← hoff]; exact hx, hr, hm'⟩
          (fun b hb => hv b (by rw [hrs]; exact List.mem_cons_of_mem _ hb))
        exact ⟨M', hM.trans h1, h2⟩
      · exact ⟨M, le_rfl, h⟩

/-- The request that was waited for retires with those before it and perhaps some after it, and
`last_retired_head` is not before its position. -/
theorem retired_of_found (k : Nat) {r : Request} (hv : r.tail ≠ none) : ∀ (i : Nat) {s : Ring},
    Inv g K P s → s.requestList[i]? = some r → r.mark ≤ s.fetched →
    ∃ M, r.mark ≤ M ∧ K ≤ M ∧ RetiredAt g M (s.retireRequests (i + 1 + k)) := by
  intro i
  induction i with
  | zero =>
    intro s h hi hr
    obtain ⟨x, hx⟩ := Option.ne_none_iff_exists'.mp hv
    cases hrs : s.requestList with
    | nil => simp [hrs] at hi
    | cons r0 rs =>
      rw [hrs, List.getElem?_cons_zero] at hi
      obtain rfl := Option.some.inj hi
      have hm := h.marks
      rw [hrs, List.cons_append] at hm
      obtain ⟨hoff, hK, hm'⟩ := hm.retire_take hx
      have hall := (List.pairwise_cons.mp hm.sorted).1
      obtain ⟨M, h1, h2⟩ := RetiredAt.retireRequests k
        (s := { s with lastRetiredHead := r0.tail, requestList := rs }) (M := r0.mark)
        ⟨by rw [← hoff]; exact hx, hr, hm'⟩
        (fun b hb => (hall b (List.mem_append_left _ hb)).2 hv)
      refine ⟨M, h1, hK.trans h1, ?_⟩
      rw [show 0 + 1 + k = k + 1 by omega, Ring.retireRequests, hrs]
      simp only [if_pos hr]
      exact h2
  | succ i ih =>
    intro s h hi hr
    cases hrs : s.requestList with
    | nil => simp [hrs] at hi
    | cons r0 rs =>
      rw [hrs, List.getElem?_cons_succ] at hi
      have hm := h.marks
      rw [hrs, List.cons_append] at hm
      have hall := (List.pairwise_cons.mp hm.sorted).1
      have hr0 : r0.mark ≤ s.fetched :=
        (hall r (List.mem_append_left _ (List.mem_of_getElem? hi))).1.trans hr
      obtain ⟨M, h1, h2, h3⟩ := ih (h.withMarks (hm.retire hr0)) hi hr
      refine ⟨M, h1, h2, ?_⟩
      rw [show i + 1 + 1 + k = (i + 1 + k) + 1 by omega, Ring.retireRequests, hrs]
      simp only [if_pos hr0]
      exact h3

/-- How a wait for `n` bytes ends. -/
structure Waited (g : Geom) (P : Nat) (n : Int) (s : Ring) (r : Ret × Ring) : Prop where
  inv : ∃ K, Inv g K P r.2
  kept : Kept s r.2
  enough : r.1 = .ok → n ≤ r.2.space

/-- No position is noted. -/
def Forgotten (s : Ring) : Prop := s.lastRetiredHead = none ∧ ∀ r ∈ s.requestList, r.tail = none

/-- The head is taken from `last_retired_head`. -/
theorem takeRetired_spec (h : Inv g K P s) (hr : s.reserved = none) (hat : RetiredAt g M s)
    (hK : K ≤ M) :
    ∃ t, s.takeRetired g = some t ∧ Inv g M P t ∧ Kept s t ∧ t.lastRetiredHead = none ∧
      t.space = 4 * (M : Int) + g.size - 4 * s.log.length - freeSpace := by
  obtain ⟨h1, h2⟩ := h.setHead hr hK hat.le (headAddr_off g M) hat.marks
  refine ⟨_, ?_, h1, ⟨rfl, rfl, rfl, rfl, fun r hr => ⟨r, hr, rfl⟩⟩, rfl, h2⟩
  rw [Ring.takeRetired, hat.last, Option.map_some]

theorem Inv.takeRetired_cases (h : Inv g K P s) (hr : s.reserved = none) :
    (s.takeRetired g = none ∧ s.lastRetiredHead = none) ∨
      ∃ t M, s.takeRetired g = some t ∧ Inv g M P t ∧ Kept s t ∧ t.lastRetiredHead = none := by
  cases hl : s.lastRetiredHead with
  | none => exact .inl ⟨by rw [Ring.takeRetired, hl, Option.map_none], rfl⟩
  | some x =>
    have hm := h.marks
    rw [hl] at hm
    obtain ⟨M, hx, hK, hF, hm'⟩ := hm.take
    obtain ⟨t, h1, h2, h3, h4, -⟩ := takeRetired_spec h hr ⟨by rw [hl, hx], hF, hm'⟩ hK
    exact .inr ⟨t, M, h1, h2, h3, h4⟩

/-- A request is waited for: the wait fails, or there is enough space. -/
theorem waitFound_spec {i : Nat} {w : Wait} {r : Request} {x : Nat} (h : Inv g K P s)
    (hres : s.reserved = none) (hi : s.requestList[i]? = some r) (hx : r.tail = some x)
    (hn : n ≤ Ring.spaceTo g x s.tail) :
    Waited g P n s (s.waitFound g n w i) ∧ (s.waitFound g n w i).1 ≠ .enospc := by
  have h1 := h.gpuRun w.run
  have hk1 := Kept.gpuRun (g := g) w.run s
  have hreq := (gpuRun_requestList (g := g) w.run s).1
  unfold Ring.waitFound
  simp only [hreq, hi, Option.mem_some_iff, forall_eq']
  split
  · next hdone =>
    obtain ⟨M, hM, hK, hat⟩ := retired_of_found w.late (r := r) (by rw [hx]; exact Option.some_ne_none x)
      i h1 (by rw [hreq, hi]) hdone
    obtain ⟨h2, hk2⟩ := h1.retireRequests (i + 1 + w.late)
    have hk := hk1.trans hk2
    obtain ⟨t, ht, h3, hk3, -, hsp⟩ := takeRetired_spec h2 (by rw [hk.reserved, hres]) hat hK
    have henough : ¬ t.space < n := by
      have hmem : r ∈ s.requestList ++ s.adding.toList :=
        List.mem_append_left _ (List.mem_of_getElem? hi)
      obtain ⟨hoff, hKr⟩ := h.marks.valid r hmem x hx
      rw [hoff, h.spaceTo hres hKr (h.marks.le r hmem)] at hn
      rw [hsp, hk.log]
      omega
    rw [ht]
    simp only [if_neg henough]
    exact ⟨⟨⟨M, h3⟩, hk.trans hk3, fun _ => not_lt.mp henough⟩, nofun⟩
  · exact ⟨⟨⟨K, h1⟩, hk1, nofun⟩, nofun⟩

theorem waitListed_spec {w : Wait} (h : Inv g K P s) (hres : s.reserved = none)
    (hadd : s.adding = none) (hl : s.lastRetiredHead = none) :
    Waited g P n s (s.waitListed g n w) ∧
      ((s.waitListed g n w).1 = .enospc → Forgotten (s.waitListed g n w).2) := by
  have hm := h.marks
  rw [hl, hadd, Option.toList_none, List.append_nil] at hm
  have h1 : Inv g K P { s with requestList := (Ring.findRequest g n s.tail s.requestList).1 } := by
    refine ⟨⟨h.log.offs, h.log.clean, h.log.intact⟩, h.known, h.fetched_le, h.pub_le, h.head, h.gpu,
      h.pub, h.tail, h.tail_le, h.tail_lt, h.dwords, h.space, h.room, ?_⟩
    show Marks g K s.fetched s.log.length s.lastRetiredHead (_ ++ s.adding.toList)
    rw [hl, hadd, Option.toList_none, List.append_nil]
    exact hm.findRequest n s.tail
  have hk1 : Kept s { s with requestList := (Ring.findRequest g n s.tail s.requestList).1 } := by
    refine ⟨rfl, rfl, rfl, rfl, ?_⟩
    intro b hb
    obtain ⟨a, ha, hba, -⟩ := findRequest_mem hb
    exact ⟨a, ha, hba⟩
  unfold Ring.waitListed
  cases hf : (Ring.findRequest g n s.tail s.requestList).2 with
  | none => exact ⟨⟨⟨K, h1⟩, hk1, nofun⟩, fun _ => ⟨hl, findRequest_none hf⟩⟩
  | some i =>
    obtain ⟨r, x, hi, hx, hn⟩ := findRequest_some hf
    obtain ⟨h2, h3⟩ := waitFound_spec (w := w) h1 hres hi hx hn
    exact ⟨⟨h2.inv, hk1.trans h2.kept, h2.enough⟩, fun hc => absurd hc h3⟩

/-- `-ENOSPC` is returned only after every noted position has been forgotten. -/
theorem waitRequest_spec {w : Wait} (h : Inv g K P s) (hres : s.reserved = none)
    (hadd : s.adding = none) :
    Waited g P n s (s.intelRingWaitRequest g n w) ∧
      ((s.intelRingWaitRequest g n w).1 = .enospc →
        Forgotten (s.intelRingWaitRequest g n w).2) := by
  obtain ⟨h1, hk1⟩ := h.retireRequests w.early
  have hres1 := hk1.reserved.trans hres
  have hadd1 := hk1.adding.trans hadd
  unfold Ring.intelRingWaitRequest
  rcases h1.takeRetired_cases hres1 with ⟨ht, hl⟩ | ⟨t, M, ht, h2, hk2, hl⟩
  · rw [ht]
    obtain ⟨h3, h4⟩ := waitListed_spec (n := n) (w := w) h1 hres1 hadd1 hl
    exact ⟨⟨h3.inv, hk1.trans h3.kept, h3.enough⟩, h4⟩
  · rw [ht]
    simp only
    have hk := hk1.trans hk2
    split
    · next hn => exact ⟨⟨⟨M, h2⟩, hk, fun _ => hn⟩, nofun⟩
    · obtain ⟨h3, h4⟩ := waitListed_spec (n := n) (w := w) h2 (hk.reserved.trans hres)
        (hk.adding.trans hadd) hl
      exact ⟨⟨h3.inv, hk.trans h3.kept, h3.enough⟩, h4⟩

/-! ## Waiting for the head register -/

/-- The head register is read while no position is noted. -/
theorem readHead_spec (h : Inv g K P s) (hres : s.reserved = none) (hadd : s.adding = none)
    (hf : Forgotten s) (p : Poll) :
    Inv g s.fetched P (s.setHead g (s.readHead p)) := by
  have hm := h.marks
  rw [hadd, Option.toList_none, List.append_nil] at hm
  have hx : (s.readHead p &&& headAddr).toNat = g.off s.fetched := by
    rw [Ring.readHead, headAddr_other, h.gpu, headAddr_off]
  have hm' : Marks g s.fetched s.fetched s.log.length none (s.requestList ++ s.adding.toList) := by
    rw [hadd, Option.toList_none, List.append_nil]
    exact hm.of_consumed hf.2 _
  have h1 := (h.setHead hres h.known le_rfl hx hm').1
  rwa [← hf.1] at h1

/-- One look at the head register. -/
theorem poll_spec (h : Inv g K P s) (hres : s.reserved = none) (hadd : s.adding = none)
    (hf : Forgotten s) (p : Poll) {t : Ring}
    (ht : t = (s.gpuRun g p.run).setHead g ((s.gpuRun g p.run).readHead p)) :
    (∃ K, Inv g K P t) ∧ Kept s t ∧ Forgotten t := by
  obtain ⟨hrl, hlr⟩ := gpuRun_requestList (g := g) p.run s
  have hk := Kept.gpuRun (g := g) p.run s
  have hf1 : Forgotten (s.gpuRun g p.run) := ⟨by rw [hlr, hf.1], by rw [hrl]; exact hf.2⟩
  have h1 := readHead_spec (h.gpuRun p.run) (hk.reserved.trans hres) (hk.adding.trans hadd) hf1 p
  subst ht
  exact ⟨⟨_, h1⟩, ⟨hk.tail, hk.log, hk.reserved, hk.adding, hk.marks⟩, hf1⟩

theorem pollHead_spec (ps : List Poll) : ∀ {s : Ring} {K : Nat} (p : Poll), Inv g K P s →
    s.reserved = none → s.adding = none → Forgotten s →
    Waited g P n s (s.pollHead g n p ps) := by
  induction ps with
  | nil =>
    intro s K p h hres hadd hf
    obtain ⟨h1, hk1, -⟩ := poll_spec h hres hadd hf p rfl
    unfold Ring.pollHead
    simp only
    split
    · next hn => exact ⟨h1, hk1, fun _ => hn⟩
    · split
      · exact ⟨h1, hk1, nofun⟩
      · exact ⟨h1, hk1, nofun⟩
  | cons q qs ih =>
    intro s K p h hres hadd hf
    obtain ⟨h1, hk1, hf1⟩ := poll_spec h hres hadd hf p rfl
    unfold Ring.pollHead
    simp only
    split
    · next hn => exact ⟨h1, hk1, fun _ => hn⟩
    · split
      · exact ⟨h1, hk1, nofun⟩
      · obtain ⟨K1, hi⟩ := h1
        have h2 := ih q hi (hk1.reserved.trans hres) (hk1.adding.trans hadd) hf1
        exact ⟨h2.inv, hk1.trans h2.kept, h2.enough⟩

theorem waitForSpace_spec {w : Wait} (h : Inv g K P s) (hres : s.reserved = none)
    (hadd : s.adding = none) : Waited g P n s (s.ringWaitForSpace g n w) := by
  obtain ⟨h1, h2⟩ := waitRequest_spec (n := n) (w := w) h hres hadd
  unfold Ring.ringWaitForSpace
  split
  · next s1 he =>
    rw [he] at h1 h2
    obtain ⟨K1, hi⟩ := h1.inv
    have hk := h1.kept
    have h3 := pollHead_spec (n := n) w.polls w.first hi (hk.reserved.trans hres)
      (hk.adding.trans hadd) (h2 rfl)
    exact ⟨h3.inv, hk.trans h3.kept, h3.enough⟩
  · exact h1

theorem waitIfShort_spec {w : Wait} (h : Inv g K P s) (hres : s.reserved = none)
    (hadd : s.adding = none) : Waited g P n s (s.waitIfShort g n w) := by
  unfold Ring.waitIfShort
  split
  · exact waitForSpace_spec h hres hadd
  · next hn => exact ⟨⟨K, h⟩, Kept.refl s, fun _ => not_lt.mp hn⟩

/-! ## Wrapping -/

/-- Padding: `k` dwords are stored and nothing else changes. -/
theorem pad_spec (k : Nat) : ∀ {s : Ring} {o : Nat}, LogInv g s → s.fetched ≤ s.log.length →
    (0 < k → o = g.off s.log.length) → o + 4 * k ≤ g.size →
    4 * s.log.length + 4 * k ≤ 4 * s.fetched + g.size →
    ∃ mem log, s.pad o k = { s with mem := mem, log := log } ∧ LogInv g (s.pad o k) ∧
      log.length = s.log.length + k := by
  induction k with
  | zero => exact fun {s o} h _ _ _ _ => ⟨s.mem, s.log, rfl, h, rfl⟩
  | succ k ih =>
    intro s o h hF ho hsize hroom
    obtain rfl := ho (Nat.succ_pos k)
    have h1 := h.store 0 (by omega) hF
    have hover : (s.store (g.off s.log.length) 0).overrun = s.overrun := by
      rw [h1.clean, h.clean]
    have hlen : (s.store (g.off s.log.length) 0).log.length = s.log.length + 1 := by
      simp only [Ring.store, List.length_append, List.length_singleton]
    have hnext : 0 < k → g.off s.log.length + 4 =
        g.off (s.store (g.off s.log.length) 0).log.length := by
      intro hk
      rw [hlen, ← Geom.off_succ, Nat.mod_eq_of_lt (by omega)]
    obtain ⟨mem, log, h2, h3, h4⟩ := ih h1 (by rw [hlen]; exact Nat.le_succ_of_le hF) hnext
      (by omega) (by rw [hlen]; show 4 * (s.log.length + 1) + 4 * k ≤ 4 * s.fetched + g.size; omega)
    refine ⟨mem, log, ?_, h3, ?_⟩
    · rw [Ring.pad, h2, hover]
      rfl
    · rw [h4, hlen]
      omega

/-- The parts of a ring that `intel_ring_begin` leaves alone. -/
structure Moved (s t : Ring) : Prop where
  reserved : t.reserved = s.reserved
  adding : t.adding = s.adding
  log : s.log.length ≤ t.log.length
  marks : ∀ r ∈ t.requestList, ∃ a ∈ s.requestList, r.mark = a.mark

theorem Kept.moved (h : Kept s t) : Moved s t :=
  ⟨h.reserved, h.adding, by rw [h.log], h.marks⟩

theorem Moved.trans {u : Ring} (h : Moved s t) (h' : Moved t u) : Moved s u := by
  refine ⟨h'.reserved.trans h.reserved, h'.adding.trans h.adding, h.log.trans h'.log, ?_⟩
  intro r hr
  obtain ⟨a, ha, hra⟩ := h'.marks r hr
  obtain ⟨b, hb, hab⟩ := h.marks a ha
  exact ⟨b, hb, hra.trans hab⟩

/-- The ring is padded up to its end, for which there is space. -/
theorem Inv.padToEnd (h : Inv g K P s) (hres : s.reserved = none)
    (hsp : (g.size : Int) - s.tail ≤ s.space)
    (ht : t = { s.pad s.tail ((g.size - s.tail) / 4) with tail := 0 }) :
    Inv g K P { t with space := t.ringSpace g } ∧ Moved s { t with space := t.ringSpace g } := by
  have hroom := h.room
  have hsp0 := h.space
  have hF := h.fetched_le.trans h.pub_le
  have hK := h.known
  rw [hres, Option.getD_none] at hroom
  have hlt := h.tail_lt hres
  have htail := h.tail_eq hres
  obtain ⟨q, hq, h1q, -⟩ := g.exists_size
  have hN := Geom.off_eq hq s.log.length
  set k := (g.size - s.tail) / 4 with hkdef
  have hk4 : 4 * k = g.size - s.tail := by omega
  obtain ⟨mem, log, h2, h3, h4⟩ := pad_spec k h.log hF (fun _ => htail) (by omega) (by omega)
  have hoff : g.off log.length = 0 := by
    have hNq := Nat.div_add_mod s.log.length q
    have hsum : log.length = q * (s.log.length / q + 1) := by
      rw [h4, Nat.mul_add]
      omega
    rw [Geom.off_eq hq, hsum, Nat.mul_mod_right]
  rw [h2] at h3 ht
  have hspace : t.ringSpace g = 4 * (K : Int) + g.size - 4 * log.length - freeSpace := by
    rw [ht]
    simp only [Ring.ringSpace, h.head]
    rw [← hoff]
    exact spaceTo_off (by omega) (by omega)
  subst ht
  refine ⟨⟨⟨h3.offs, h3.clean, h3.intact⟩, hK, h.fetched_le, ?_, h.head, h.gpu, h.pub, ?_, ?_, ?_,
    h.dwords, ?_, ?_, h.marks.mono le_rfl ?_⟩, rfl, rfl, ?_, fun r hr => ⟨r, hr, rfl⟩⟩
  · show P ≤ log.length
    have := h.pub_le
    omega
  · show 0 % g.size = g.off log.length
    rw [hoff, Nat.zero_mod]
  · simp only [hres, Option.getD_none, Nat.add_zero, Nat.zero_le]
  · intro _
    show 0 < g.size
    omega
  · show 0 ≤ Ring.ringSpace g _
    rw [hspace]
    omega
  · show 4 * (log.length : Int) + (s.reserved.getD 0 : Nat) + Ring.ringSpace g _ + freeSpace ≤ _
    rw [hspace, hres, Option.getD_none]
    omega
  · show s.log.length ≤ log.length
    omega
  · show s.log.length ≤ log.length
    omega

theorem wrap_spec {w : Wait} (h : Inv g K P s) (hres : s.reserved = none) (hadd : s.adding = none) :
    (∃ K, Inv g K P (s.intelWrapRingBuffer g w).2) ∧ Moved s (s.intelWrapRingBuffer g w).2 ∧
      ((s.intelWrapRingBuffer g w).1 = .ok → (s.intelWrapRingBuffer g w).2.tail = 0) := by
  obtain ⟨hinv, hk, hsp⟩ := waitIfShort_spec (n := (g.size : Int) - s.tail) (w := w) h hres hadd
  unfold Ring.intelWrapRingBuffer
  cases hr : s.waitIfShort g ((g.size : Int) - s.tail) w with
  | mk ret s1 =>
    rw [hr] at hinv hk hsp
    obtain ⟨K1, hi⟩ := hinv
    cases ret with
    | ok =>
      have hsp1 : (g.size : Int) - s1.tail ≤ s1.space := by
        rw [hk.tail]
        exact hsp rfl
      obtain ⟨h1, h2⟩ := hi.padToEnd (hk.reserved.trans hres) hsp1 rfl
      exact ⟨⟨K1, h1⟩, hk.moved.trans h2, fun _ => rfl⟩
    | enospc => exact ⟨⟨K1, hi⟩, hk.moved, nofun⟩
    | ebusy => exact ⟨⟨K1, hi⟩, hk.moved, nofun⟩
    | err => exact ⟨⟨K1, hi⟩, hk.moved, nofun⟩

/-! ## Reserving -/

/-- After the wrap, or without it, the request fits before the end. -/
theorem wrapIfFull_spec {w : Wait} {bytes : Nat} (h : Inv g K P s) (hres : s.reserved = none)
    (hadd : s.adding = none) (hb : bytes + freeSpace ≤ g.effectiveSize) :
    (∃ K, Inv g K P (s.wrapIfFull g bytes w).2) ∧ Moved s (s.wrapIfFull g bytes w).2 ∧
      ((s.wrapIfFull g bytes w).1 = .ok →
        (s.wrapIfFull g bytes w).2.tail + bytes ≤ g.effectiveSize) := by
  unfold Ring.wrapIfFull
  split
  · obtain ⟨h1, h2, h3⟩ := wrap_spec (w := w) h hres hadd
    refine ⟨h1, h2, fun hok => ?_⟩
    rw [h3 hok]
    omega
  · next hfit => exact ⟨⟨K, h⟩, (Kept.refl s).moved, fun _ => not_lt.mp hfit⟩

/-- What `intel_ring_begin` does: the bytes are reserved, or an error is returned and nothing is. -/
theorem begin_spec (h : Inv g K P s) (hres : s.reserved = none) (hadd : s.adding = none) {d : Nat}
    (hd : Fits g d) (pre : Ret) (w1 w2 : Wait) :
    (∃ K, Inv g K P (s.intelRingBegin g pre d w1 w2).2) ∧
      (s.intelRingBegin g pre d w1 w2).2.adding = none ∧
      (∀ r ∈ (s.intelRingBegin g pre d w1 w2).2.requestList, ∃ a ∈ s.requestList, r.mark = a.mark) ∧
      s.log.length ≤ (s.intelRingBegin g pre d w1 w2).2.log.length := by
  have hsame : (∃ K, Inv g K P s) ∧ s.adding = none ∧
      (∀ r ∈ s.requestList, ∃ a ∈ s.requestList, r.mark = a.mark) ∧
      s.log.length ≤ s.log.length := ⟨⟨K, h⟩, hadd, (Kept.refl s).marks, le_rfl⟩
  unfold Ring.intelRingBegin
  by_cases hpre : pre = .ok
  · rw [if_pos hpre]
    obtain ⟨⟨K1, h1⟩, hm1, hfit⟩ := wrapIfFull_spec (w := w1) h hres hadd hd.2
    unfold Ring.ringBegin
    split
    · next s1 he1 =>
      rw [he1] at h1 hm1 hfit
      have hw := waitIfShort_spec (n := ((d * 4 : Nat) : Int)) (w := w2) h1 (hm1.reserved.trans hres)
        (hm1.adding.trans hadd)
      split
      · next s2 he2 =>
        rw [he2] at hw
        obtain ⟨⟨K2, h2⟩, hk2, hsp⟩ := hw
        have hm := hm1.trans hk2.moved
        have hsp2 : ((d * 4 : Nat) : Int) ≤ s2.space := hsp rfl
        have hroom : 4 * (s2.log.length : Int) + (s2.reserved.getD 0 : Nat) + s2.space + freeSpace ≤
          4 * K2 + g.size := h2.room
        rw [hm.reserved.trans hres, Option.getD_none] at hroom
        refine ⟨⟨K2, ⟨⟨h2.log.offs, h2.log.clean, h2.log.intact⟩, h2.known, h2.fetched_le, h2.pub_le,
          h2.head, h2.gpu, h2.pub, h2.tail, ?_, nofun, ?_, ?_, ?_, h2.marks⟩⟩,
          hm.adding.trans hadd, hm.marks, hm.log⟩
        · show s2.tail + d * 4 ≤ g.effectiveSize
          rw [hk2.tail]
          exact hfit rfl
        · exact Dvd.intro_left d rfl
        · show 0 ≤ s2.space - ((d * 4 : Nat) : Int)
          omega
        · show 4 * (s2.log.length : Int) + ((d * 4 : Nat) : Int) + (s2.space - ((d * 4 : Nat) : Int)) +
            freeSpace ≤ 4 * K2 + g.size
          omega
      · have hm := hm1.trans hw.kept.moved
        exact ⟨hw.inv, hm.adding.trans hadd, hm.marks, hm.log⟩
    · exact ⟨⟨K1, h1⟩, hm1.adding.trans hadd, hm1.marks, hm1.log⟩
  · rw [if_neg hpre]
    exact hsame

/-! ## Emitting and publishing -/

theorem Inv.emit (h : Inv g K P s) {r : Nat} (hr : s.reserved = some r) (hpos : 0 < r)
    (v : BitVec 32) : Inv g K P (s.intelRingEmit v) := by
  have hroom := h.room
  have hsp := h.space
  have hF := h.fetched_le.trans h.pub_le
  have hK := h.known
  have h4 := h.dwords
  have hle := h.tail_le
  have heff := g.effectiveSize_le
  rw [hr, Option.getD_some] at hroom h4 hle
  have htail : s.tail = g.off s.log.length := by
    rw [← h.tail, Nat.mod_eq_of_lt (by omega)]
  have hlog : LogInv g (s.store s.tail v) := by
    rw [htail]
    exact h.log.store v (by omega) hF
  have hlen : (s.store s.tail v).log.length = s.log.length + 1 := by
    simp only [Ring.store, List.length_append, List.length_singleton]
  have hres : (s.intelRingEmit v).reserved.getD 0 = r - 4 := by
    simp only [Ring.intelRingEmit, hr, Option.map_some, Option.getD_some]
  have hNew : (s.intelRingEmit v).log.length = s.log.length + 1 := hlen
  refine ⟨⟨hlog.offs, hlog.clean, hlog.intact⟩, hK, h.fetched_le, ?_, h.head, h.gpu, h.pub, ?_, ?_, ?_,
    ?_, hsp, ?_, ?_⟩
  · rw [hNew]
    exact h.pub_le.trans (Nat.le_succ _)
  · rw [hNew, ← Geom.off_succ, ← htail]
    rfl
  · rw [hres]
    show s.tail + 4 + (r - 4) ≤ g.effectiveSize
    omega
  · intro hc
    simp [Ring.intelRingEmit, hr] at hc
  · rw [hres]
    exact Nat.dvd_sub h4 (dvd_refl 4)
  · rw [hres, hNew]
    show 4 * ((s.log.length + 1 : Nat) : Int) + (r - 4 : Nat) + s.space + freeSpace ≤ _
    omega
  · rw [hNew]
    exact h.marks.mono le_rfl (Nat.le_succ _)

theorem Inv.advance (h : Inv g K P s) (hr : s.reserved = some 0) (stopped : Bool) :
    ∃ P, Inv g K P (s.intelRingAdvance g stopped) := by
  have hroom := h.room
  have hle := h.tail_le
  rw [hr, Option.getD_some] at hroom hle
  have hand : s.tail &&& (g.size - 1) = s.tail % g.size := Nat.and_two_pow_sub_one_eq_mod _ _
  have hpos : 0 < g.size := Nat.two_pow_pos _
  have hmod : s.tail % g.size ≤ s.tail := Nat.mod_le _ _
  have hlt : s.tail % g.size < g.size := Nat.mod_lt _ hpos
  have hroom' : 4 * (s.log.length : Int) + (0 : Nat) + s.space + freeSpace ≤ 4 * K + g.size := hroom
  -- the fields that do not depend on whether the tail is published
  have htail : (s.tail &&& (g.size - 1)) % g.size = g.off s.log.length := by
    rw [hand, Nat.mod_mod, h.tail]
  have htail_le : (s.tail &&& (g.size - 1)) + 0 ≤ g.effectiveSize := by
    rw [hand]
    omega
  have htail_lt : s.tail &&& (g.size - 1) < g.size := by
    rw [hand]
    exact hlt
  unfold Ring.intelRingAdvance
  cases stopped with
  | true =>
    exact ⟨P, ⟨h.log.offs, h.log.clean, h.log.intact⟩, h.known, h.fetched_le, h.pub_le, h.head, h.gpu,
      h.pub, htail, htail_le, fun _ => htail_lt, dvd_zero 4, h.space, hroom', h.marks⟩
  | false =>
    refine ⟨s.log.length, ⟨h.log.offs, h.log.clean, h.log.intact⟩, h.known,
      h.fetched_le.trans h.pub_le, le_rfl, h.head, h.gpu, ?_, htail, htail_le, fun _ => htail_lt,
      dvd_zero 4, h.space, hroom', h.marks⟩
    show s.tail &&& (g.size - 1) = g.off s.log.length
    rw [hand, h.tail]

/-! ## Adding requests -/

theorem Inv.addBegin (h : Inv g K P s) (hres : s.reserved = none) (hadd : s.adding = none) {d : Nat}
    (hd : Fits g d) (pre : Ret) (w1 w2 : Wait) :
    ∃ K, Inv g K P (s.addRequestBegin g pre d w1 w2).2 := by
  obtain ⟨⟨K1, h1⟩, ha, hmarks, hlog⟩ := begin_spec h hres hadd hd pre w1 w2
  unfold Ring.addRequestBegin
  cases hr : s.intelRingBegin g pre d w1 w2 with
  | mk ret s1 =>
    rw [hr] at h1 ha hmarks hlog
    have hm := h1.marks
    simp only at hlog
    -- nothing is published meanwhile, so the GPU has not passed the position that was taken
    have hP := h.pub_le
    have hF := h1.fetched_le
    have hK := h1.known
    simp only at hF hK
    rw [ha, Option.toList_none, List.append_nil] at hm
    have hle : ∀ r ∈ s1.requestList, r.mark ≤ s.log.length := by
      intro r hr
      obtain ⟨a, ha, hra⟩ := hmarks r hr
      rw [hra]
      exact h.marks.le a (List.mem_append_left _ ha)
    cases ret with
    | ok =>
      refine ⟨K1, ⟨h1.log.offs, h1.log.clean, h1.log.intact⟩, h1.known, h1.fetched_le, h1.pub_le,
        h1.head, h1.gpu, h1.pub, h1.tail, h1.tail_le, h1.tail_lt, h1.dwords, h1.space, h1.room, ?_⟩
      rw [h.tail_eq hres]
      exact hm.snoc (hF.trans hP) (hK.trans (hF.trans hP)) hlog hle
    | enospc => exact ⟨K1, h1⟩
    | ebusy => exact ⟨K1, h1⟩
    | err => exact ⟨K1, h1⟩

theorem Inv.addEnd (h : Inv g K P s) : Inv g K P s.addRequestEnd := by
  refine ⟨⟨h.log.offs, h.log.clean, h.log.intact⟩, h.known, h.fetched_le, h.pub_le, h.head, h.gpu,
    h.pub, h.tail, h.tail_le, h.tail_lt, h.dwords, h.space, h.room, ?_⟩
  have hm := h.marks
  simpa only [Ring.addRequestEnd, Option.toList_none, List.append_nil] using hm

/-! ## Runs -/

theorem Inv.init (g : Geom) (mem : Nat → BitVec 32) (other : BitVec 32) :
    Inv g 0 0 (Ring.init g mem other) := by
  obtain ⟨q, hq, h1, -⟩ := g.exists_size
  have h0 : g.off 0 = 0 := Nat.zero_mod _
  have hsp : (Ring.init g mem other).space = g.size - freeSpace := by
    have := spaceTo_off (g := g) (K := 0) (N := 0) le_rfl (by simp only [freeSpace]; omega)
    rw [h0] at this
    show Ring.spaceTo g 0 0 = _
    rw [this]
    simp
  have hlog : LogInv g (Ring.init g mem other) := by
    refine ⟨fun i e he => ?_, rfl, fun e he => ?_⟩
    · exact absurd (List.getElem?_nil.symm.trans he) (Option.some_ne_none e).symm
    · exact absurd he List.not_mem_nil
  have hmarks : Marks g 0 0 0 none [] := by
    refine ⟨fun h hh => ?_, fun r hr => ?_, fun r hr => ?_, .nil⟩
    · exact absurd hh (Option.some_ne_none h).symm
    · exact absurd hr List.not_mem_nil
    · exact absurd hr List.not_mem_nil
  refine ⟨hlog, le_rfl, le_rfl, le_rfl, ?_, h0.symm, h0.symm, ?_, Nat.zero_le _, ?_, dvd_zero 4, ?_,
    ?_, hmarks⟩
  · have hx := headAddr_other other 0#32
    rw [BitVec.or_zero] at hx
    show ((other &&& ~~~headAddr) &&& headAddr).toNat = g.off 0
    rw [hx, h0]
    rfl
  · exact (Nat.zero_mod _).trans h0.symm
  · intro _
    show 0 < g.size
    omega
  · rw [hsp]
    simp only [freeSpace]
    omega
  · rw [hsp]
    show 4 * ((0 : Nat) : Int) + (0 : Nat) + (g.size - freeSpace) + freeSpace ≤ 4 * (0 : Nat) + g.size
    omega

theorem RingStep.inv {c : Call} (h : ∃ K P, Inv g K P s) (hs : RingStep g s c t) :
    ∃ K P, Inv g K P t := by
  obtain ⟨K, P, h⟩ := h
  cases c with
  | gpu =>
    obtain rfl := hs
    exact ⟨K, P, h.gpuStep⟩
  | retire n =>
    obtain rfl := hs
    exact ⟨K, P, (h.retireRequests n).1⟩
  | begin pre d w1 w2 =>
    obtain ⟨hres, hadd, hd, rfl⟩ := hs
    obtain ⟨⟨K1, h1⟩, -⟩ := begin_spec h hres hadd hd pre w1 w2
    exact ⟨K1, P, h1⟩
  | emit v =>
    obtain ⟨⟨r, hr, hpos⟩, rfl⟩ := hs
    exact ⟨K, P, h.emit hr hpos v⟩
  | advance stopped =>
    obtain ⟨hr, rfl⟩ := hs
    obtain ⟨P1, h1⟩ := h.advance hr stopped
    exact ⟨K, P1, h1⟩
  | addBegin pre d w1 w2 =>
    obtain ⟨hres, hadd, hd, rfl⟩ := hs
    obtain ⟨K1, h1⟩ := h.addBegin hres hadd hd pre w1 w2
    exact ⟨K1, P, h1⟩
  | addEnd =>
    obtain ⟨-, -, rfl⟩ := hs
    exact ⟨K, P, h.addEnd⟩

/-- The space is at most the bytes from the tail to the known head, less the free space. -/
theorem Inv.space_le (h : Inv g K P s) :
    s.space ≤ (((s.head &&& headAddr).toNat : Int) - s.tail - freeSpace) % g.size := by
  have hroom := h.room
  have hK := h.known.trans (h.fetched_le.trans h.pub_le)
  obtain ⟨a, e1⟩ : ∃ a, 4 * K = g.size * a + g.off K := ⟨_, (Nat.div_add_mod _ _).symm⟩
  obtain ⟨b, e2⟩ : ∃ b, 4 * s.log.length = g.size * b + g.off s.log.length :=
    ⟨_, (Nat.div_add_mod _ _).symm⟩
  obtain ⟨c, e3⟩ : ∃ c, s.tail = g.size * c + g.off s.log.length := by
    rw [← h.tail]
    exact ⟨_, (Nat.div_add_mod _ _).symm⟩
  have hturn : ((s.head &&& headAddr).toNat : Int) - s.tail - freeSpace =
      4 * (K : Int) + g.size - 4 * s.log.length - freeSpace +
        g.size * ((b : Int) - a - c - 1) := by
    rw [h.head]
    zify at e1 e2 e3
    linear_combination -e1 + e2 - e3
  have hsp := h.space
  rw [hturn, Int.add_mul_emod_self_left, Int.emod_eq_of_lt (by omega)
    (by simp only [freeSpace]; omega)]
  omega

/-- **The command ring is never overrun**: in every run, with whatever the GPU does, no store has hit
a dword that was still to be fetched, so that they all stand in the ring as they were emitted; what is
reserved ends before the effective size, and the space that is accounted for is really there. -/
theorem ring_never_overruns {mem : Nat → BitVec 32} {other : BitVec 32} {calls : List Call} {t : Ring}
    (h : Lib.Run (RingStep g) (Ring.init g mem other) calls t) :
    t.overrun = false ∧ (∀ e ∈ t.unread, t.mem e.1 = e.2) ∧
      t.tail + t.reserved.getD 0 ≤ g.effectiveSize ∧
      t.space ≤ (((t.head &&& headAddr).toNat : Int) - t.tail - freeSpace) % g.size := by
  obtain ⟨K, P, hi⟩ := h.inv (I := fun s => ∃ K P, Inv g K P s) ⟨0, 0, Inv.init g mem other⟩
    fun _ _ _ h hs => RingStep.inv h hs
  exact ⟨hi.log.clean, hi.log.intact, hi.tail_le, hi.space_le⟩

/-- A ring of one page. -/
def onePage : Geom := ⟨12, by decide, by decide, false⟩

/-- Two dwords have been reserved. -/
def reservedPage : Ring :=
  ((Ring.init onePage (fun _ => 0) 0).intelRingBegin onePage .ok 2
    ⟨0, 0, 0, ⟨0, 0, false⟩, []⟩ ⟨0, 0, 0, ⟨0, 0, false⟩, []⟩).2

/-- Both have been emitted. -/
def emittedPage : Ring := (reservedPage.intelRingEmit 7).intelRingEmit 9

/-- They have been published. -/
def publishedPage : Ring := emittedPage.intelRingAdvance onePage false

/-- The GPU fetches the first of the two. -/
theorem ring_never_overruns_packet :
    (publishedPage.gpuStep onePage).fetched = 1 ∧ (publishedPage.gpuStep onePage).log.length = 2 ∧
      (publishedPage.gpuStep onePage).overrun = false := by
  have h1 : RingStep onePage (Ring.init onePage (fun _ => 0) 0)
      (.begin .ok 2 ⟨0, 0, 0, ⟨0, 0, false⟩, []⟩ ⟨0, 0, 0, ⟨0, 0, false⟩, []⟩) reservedPage :=
    ⟨rfl, rfl, ⟨by decide, by decide⟩, rfl⟩
  have h2 : RingStep onePage reservedPage (.emit 7) (reservedPage.intelRingEmit 7) :=
    ⟨⟨8, rfl, by decide⟩, rfl⟩
  have h3 : RingStep onePage (reservedPage.intelRingEmit 7) (.emit 9) emittedPage :=
    ⟨⟨4, rfl, by decide⟩, rfl⟩
  have h4 : RingStep onePage emittedPage (.advance false) publishedPage := ⟨rfl, rfl⟩
  have h5 : RingStep onePage publishedPage .gpu (publishedPage.gpuStep onePage) := rfl
  exact ⟨rfl, rfl, (ring_never_overruns (.snoc (.snoc (.snoc (.snoc (.snoc .nil h1) h2) h3) h4) h5)).1⟩

end I915
