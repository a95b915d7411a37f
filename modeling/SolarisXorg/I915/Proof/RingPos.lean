import Mathlib.Data.Nat.ModEq
import Mathlib.Tactic.Linarith
import SolarisXorg.I915.Ring

/-!
# Positions in the command ring

Positions are counted in dwords from the start of the ring's life, and an offset is such a number
modulo the size (`Geom.off`). Positions less than a turn apart are told apart by their offsets, so
`spaceTo` is exact (`spaceTo_off`) and a store does not meet a dword that is still to be fetched
(`LogInv.store`).

`Marks` is about the positions that the driver has noted: none in a request or in `last_retired_head`
is behind the head as it is known. It is kept when a request retires (`Marks.retire`), when the head
is taken from there (`Marks.take`) and by the search that consumes requests (`Marks.findRequest`).
-/

namespace I915

variable {g : Geom} {s : Ring} {K M N F P : Nat}

/-! ## Offsets -/

namespace Geom

theorem exists_size (g : Geom) : ∃ q, g.size = 4 * q ∧ 1024 ≤ q ∧ g.size ≤ 2 ^ 21 := by
  have h : g.size = 2 ^ 12 * 2 ^ (g.log2 - 12) := by
    rw [size, ← pow_add, Nat.add_sub_cancel' g.page_le]
  have h1 : 1 ≤ 2 ^ (g.log2 - 12) := Nat.one_le_two_pow
  refine ⟨2 ^ 10 * 2 ^ (g.log2 - 12), ?_, ?_, ?_⟩
  · rw [h]
    omega
  · omega
  · exact Nat.pow_le_pow_right (by decide) g.le_max

theorem effectiveSize_le (g : Geom) : g.effectiveSize ≤ g.size := by
  unfold effectiveSize
  split <;> omega

theorem off_lt (g : Geom) (i : Nat) : g.off i < g.size := by
  obtain ⟨q, hq, h1, -⟩ := g.exists_size
  exact Nat.mod_lt _ (by omega)

theorem off_eq {q : Nat} (hq : g.size = 4 * q) (i : Nat) : g.off i = 4 * (i % q) := by
  rw [off, hq, Nat.mul_mod_mul_left]

theorem off_succ (g : Geom) (i : Nat) : (g.off i + 4) % g.size = g.off (i + 1) := by
  rw [off, off, Nat.mod_add_mod]
  congr 1

/-- Positions less than a turn apart are told apart by their offsets, and as dwords. -/
theorem off_apart {i j : Nat} (hij : i < j) (hj : 4 * j + 4 ≤ 4 * i + g.size) :
    ¬ (g.off j < g.off i + 4 ∧ g.off i < g.off j + 4) := by
  obtain ⟨q, hq, h1, -⟩ := g.exists_size
  rw [off_eq hq, off_eq hq]
  intro h
  have he : i % q = j % q := by omega
  have hd : q ∣ j - i := (Nat.modEq_iff_dvd' (Nat.le_of_lt hij)).mp he
  have hle : q ≤ j - i := Nat.le_of_dvd (by omega) hd
  omega

end Geom

/-- The space up to a head that is less than a turn minus the free space behind the tail. -/
theorem spaceTo_off (hKN : K ≤ N) (hroom : 4 * N + freeSpace ≤ 4 * K + g.size) :
    Ring.spaceTo g (g.off K) (g.off N) = 4 * (K : Int) + g.size - 4 * N - freeSpace := by
  obtain ⟨q, hq, h1, -⟩ := g.exists_size
  obtain ⟨d, rfl⟩ := Nat.exists_eq_add_of_le hKN
  have hd : d < q := by
    simp only [freeSpace] at hroom
    omega
  have hmod := Nat.add_mod_eq_ite (m := K) (n := d) (k := q)
  rw [Nat.mod_eq_of_lt hd] at hmod
  have hK : K % q < q := Nat.mod_lt _ (by omega)
  unfold Ring.spaceTo
  rw [Geom.off_eq hq, Geom.off_eq hq, hmod, hq]
  simp only [freeSpace, hq] at hroom ⊢
  split_ifs <;> omega

/-- `HEAD_ADDR` keeps every offset. -/
theorem headAddr_off (g : Geom) (i : Nat) :
    (BitVec.ofNat 32 (g.off i) &&& headAddr).toNat = g.off i := by
  obtain ⟨q, hq, -, hmax⟩ := g.exists_size
  have hlt : g.off i < 2 ^ 21 := Nat.lt_of_lt_of_le (g.off_lt i) hmax
  rw [BitVec.toNat_and, BitVec.toNat_ofNat, Nat.mod_eq_of_lt (by omega)]
  have h4 : g.off i = (i % q) <<< 2 := by
    rw [Geom.off_eq hq, Nat.shiftLeft_eq]
    omega
  have hm : headAddr.toNat = (2 ^ 19 - 1) <<< 2 := rfl
  rw [h4] at hlt ⊢
  rw [Nat.shiftLeft_eq] at hlt
  rw [hm, ← Nat.shiftLeft_and_distrib, Nat.and_two_pow_sub_one_of_lt_two_pow (by omega)]

theorem headAddr_other (x y : BitVec 32) :
    ((x &&& ~~~headAddr) ||| y) &&& headAddr = y &&& headAddr := by
  ext i hi
  simp only [BitVec.getElem_and, BitVec.getElem_or, BitVec.getElem_not]
  cases headAddr[i] <;> simp

/-! ## Stores -/

/-- The record of the stores: every dword went to its own offset, none that was still to be fetched
was overwritten, and so they are all in place. -/
structure LogInv (g : Geom) (s : Ring) : Prop where
  offs : ∀ i e, s.log[i]? = some e → e.1 = g.off i
  clean : s.overrun = false
  intact : ∀ e ∈ s.unread, s.mem e.1 = e.2

theorem mem_unread {e : Nat × BitVec 32} (h : e ∈ s.unread) :
    ∃ i, s.fetched ≤ i ∧ i < s.log.length ∧ s.log[i]? = some e := by
  obtain ⟨i, hi⟩ := List.mem_iff_getElem?.mp h
  rw [Ring.unread, List.getElem?_drop] at hi
  obtain ⟨hlt, -⟩ := List.getElem?_eq_some_iff.mp hi
  exact ⟨s.fetched + i, by omega, hlt, hi⟩

/-- A store at the next offset, with less than a turn of dwords to be fetched. -/
theorem LogInv.store (h : LogInv g s) (v : BitVec 32)
    (hroom : 4 * s.log.length + 4 ≤ 4 * s.fetched + g.size) (hF : s.fetched ≤ s.log.length) :
    LogInv g (s.store (g.off s.log.length) v) := by
  have hapart : ∀ e ∈ s.unread,
      ¬ (g.off s.log.length < e.1 + 4 ∧ e.1 < g.off s.log.length + 4) := by
    intro e he
    obtain ⟨i, hFi, hi, hget⟩ := mem_unread he
    rw [h.offs i e hget]
    exact Geom.off_apart hi (by omega)
  refine ⟨?_, ?_, ?_⟩
  · intro i e he
    simp only [Ring.store] at he
    rcases Nat.lt_or_ge i s.log.length with hi | hi
    · rw [List.getElem?_append_left hi] at he
      exact h.offs i e he
    · rw [List.getElem?_append_right hi] at he
      obtain ⟨h1, rfl⟩ := List.getElem?_eq_some_iff.mp he
      rw [List.length_singleton] at h1
      have : i = s.log.length := by omega
      subst this
      simp
  · simp only [Ring.store, h.clean, Bool.false_or, List.any_eq_false, decide_eq_true_eq]
    exact hapart
  · intro e he
    rw [Ring.unread, Ring.store, List.drop_append_of_le_length hF, List.mem_append,
      List.mem_singleton] at he
    rcases he with he | rfl
    · have hne : e.1 ≠ g.off s.log.length := by
        intro hc
        exact hapart e he (by omega)
      simp only [Ring.store, Function.update_of_ne hne]
      exact h.intact e he
    · simp only [Ring.store, Function.update_self]

/-! ## Positions noted in requests -/

/-- No position that is noted in `last_retired_head` or in a request is behind `K`; those noted in
requests go up, and the consumed requests are the first. -/
structure Marks (g : Geom) (K F N : Nat) (last : Option Nat) (rs : List Request) : Prop where
  last : ∀ h, last = some h → ∃ M, h = g.off M ∧ K ≤ M ∧ M ≤ F ∧
    ∀ r ∈ rs, r.tail ≠ none → M ≤ r.mark
  valid : ∀ r ∈ rs, ∀ h, r.tail = some h → h = g.off r.mark ∧ K ≤ r.mark
  le : ∀ r ∈ rs, r.mark ≤ N
  sorted : rs.Pairwise fun a b => a.mark ≤ b.mark ∧ (a.tail ≠ none → b.tail ≠ none)

variable {last : Option Nat} {r : Request} {rs : List Request}

theorem Marks.mono {F' N' : Nat} (h : Marks g K F N last rs) (hF : F ≤ F') (hN : N ≤ N') :
    Marks g K F' N' last rs := by
  refine ⟨?_, h.valid, ?_, h.sorted⟩
  · intro x hx
    obtain ⟨M, h1, h2, h3, h4⟩ := h.last x hx
    exact ⟨M, h1, h2, by omega, h4⟩
  · intro r hr
    exact (h.le r hr).trans hN

/-- The first request retires. -/
theorem Marks.retire (h : Marks g K F N last (r :: rs)) (hr : r.mark ≤ F) :
    Marks g K F N r.tail rs := by
  obtain ⟨hall, hsort⟩ := List.pairwise_cons.mp h.sorted
  refine ⟨?_, ?_, ?_, hsort⟩
  · intro x hx
    obtain ⟨hoff, hK⟩ := h.valid r List.mem_cons_self x hx
    exact ⟨r.mark, hoff, hK, hr, fun b hb _ => (hall b hb).1⟩
  · intro b hb
    exact h.valid b (List.mem_cons_of_mem _ hb)
  · intro b hb
    exact h.le b (List.mem_cons_of_mem _ hb)

/-- `last_retired_head` is taken for the head. -/
theorem Marks.take {x : Nat} (h : Marks g K F N (some x) rs) :
    ∃ M, x = g.off M ∧ K ≤ M ∧ M ≤ F ∧ Marks g M F N none rs := by
  obtain ⟨M, hx, hK, hF, hM⟩ := h.last x rfl
  refine ⟨M, hx, hK, hF, nofun, ?_, h.le, h.sorted⟩
  intro r hr y hy
  exact ⟨(h.valid r hr y hy).1, hM r hr (by rw [hy]; exact Option.some_ne_none y)⟩

/-- The first request has a position, and the head is taken to be there. -/
theorem Marks.retire_take {x : Nat} (h : Marks g K F N last (r :: rs)) (hx : r.tail = some x) :
    x = g.off r.mark ∧ K ≤ r.mark ∧ Marks g r.mark F N none rs := by
  obtain ⟨hall, hsort⟩ := List.pairwise_cons.mp h.sorted
  obtain ⟨hoff, hK⟩ := h.valid r List.mem_cons_self x hx
  refine ⟨hoff, hK, nofun, ?_, ?_, hsort⟩
  · intro b hb y hy
    exact ⟨(h.valid b (List.mem_cons_of_mem _ hb) y hy).1, (hall b hb).1⟩
  · intro b hb
    exact h.le b (List.mem_cons_of_mem _ hb)

/-- With every request consumed, the head may be anywhere. -/
theorem Marks.of_consumed (h : Marks g K F N last rs) (hr : ∀ r ∈ rs, r.tail = none) (M : Nat) :
    Marks g M F N none rs := by
  refine ⟨nofun, ?_, h.le, h.sorted⟩
  intro r hm y hy
  rw [hr r hm] at hy
  cases hy

/-- A request is added whose position is that of the tail. -/
theorem Marks.snoc {R : Nat} (h : Marks g K F N last rs) (hF : F ≤ R) (hK : K ≤ R) (hN : R ≤ N)
    (hR : ∀ r ∈ rs, r.mark ≤ R) : Marks g K F N last (rs ++ [⟨some (g.off R), R⟩]) := by
  refine ⟨?_, ?_, ?_, ?_⟩
  · intro x hx
    obtain ⟨M, h1, h2, h3, h4⟩ := h.last x hx
    refine ⟨M, h1, h2, h3, ?_⟩
    intro b hb hne
    rcases List.mem_append.mp hb with hb | hb
    · exact h4 b hb hne
    · rw [List.mem_singleton.mp hb]
      exact h3.trans hF
  · intro b hb y hy
    rcases List.mem_append.mp hb with hb | hb
    · exact h.valid b hb y hy
    · rw [List.mem_singleton.mp hb] at hy ⊢
      exact ⟨(Option.some.inj hy).symm, hK⟩
  · intro b hb
    rcases List.mem_append.mp hb with hb | hb
    · exact h.le b hb
    · rw [List.mem_singleton.mp hb]
      exact hN
  · rw [List.pairwise_append]
    refine ⟨h.sorted, List.pairwise_singleton _ _, ?_⟩
    intro a ha b hb
    rw [List.mem_singleton.mp hb]
    exact ⟨hR a ha, fun _ => Option.some_ne_none _⟩

/-! ## The search for a request -/

variable {n : Int} {tail : Nat}

/-- What is left of the requests: each is as it was or consumed. -/
theorem findRequest_mem {b : Request} (hb : b ∈ (Ring.findRequest g n tail rs).1) :
    ∃ a ∈ rs, b.mark = a.mark ∧ (b.tail = a.tail ∨ b.tail = none) := by
  induction rs with
  | nil => simp [Ring.findRequest] at hb
  | cons r rs ih =>
    have hrest : ∀ c ∈ (Ring.findRequest g n tail rs).1, b = c →
        ∃ a ∈ r :: rs, b.mark = a.mark ∧ (b.tail = a.tail ∨ b.tail = none) := by
      intro c hc hbc
      subst hbc
      obtain ⟨a, ha, hab⟩ := ih hc
      exact ⟨a, List.mem_cons_of_mem _ ha, hab⟩
    rw [Ring.findRequest] at hb
    split at hb
    · rcases List.mem_cons.mp hb with rfl | hb
      · exact ⟨b, List.mem_cons_self, rfl, .inl rfl⟩
      · exact hrest b hb rfl
    · split at hb
      · exact ⟨b, hb, rfl, .inl rfl⟩
      · rcases List.mem_cons.mp hb with rfl | hb
        · exact ⟨r, List.mem_cons_self, rfl, .inr rfl⟩
        · exact hrest b hb rfl

theorem Marks.findRequest (h : Marks g K F N none rs) (n : Int) (tail : Nat) :
    Marks g K F N none (Ring.findRequest g n tail rs).1 := by
  refine ⟨nofun, ?_, ?_, ?_⟩
  · intro b hb y hy
    obtain ⟨a, ha, hmark, htail | htail⟩ := findRequest_mem hb
    · rw [hmark]
      exact h.valid a ha y (by rw [← htail, hy])
    · rw [htail] at hy
      cases hy
  · intro b hb
    obtain ⟨a, ha, hmark, -⟩ := findRequest_mem hb
    rw [hmark]
    exact h.le a ha
  · have hsort := h.sorted
    clear h
    induction rs with
    | nil => exact List.Pairwise.nil
    | cons r rs ih =>
      obtain ⟨hall, hrs⟩ := List.pairwise_cons.mp hsort
      have hmark : ∀ b ∈ (Ring.findRequest g n tail rs).1, r.mark ≤ b.mark := by
        intro b hb
        obtain ⟨a, ha, hmark, -⟩ := findRequest_mem hb
        rw [hmark]
        exact (hall a ha).1
      rw [Ring.findRequest]
      split
      · next hnone =>
        refine List.pairwise_cons.mpr ⟨fun b hb => ⟨hmark b hb, fun hc => absurd hnone hc⟩, ih hrs⟩
      · split
        · exact hsort
        · refine List.pairwise_cons.mpr ⟨fun b hb => ⟨hmark b hb, fun hc => absurd rfl hc⟩, ih hrs⟩

/-- When no request will do, all have been consumed. -/
theorem findRequest_none (h : (Ring.findRequest g n tail rs).2 = none) :
    ∀ b ∈ (Ring.findRequest g n tail rs).1, b.tail = none := by
  induction rs with
  | nil => simp [Ring.findRequest]
  | cons r rs ih =>
    rw [Ring.findRequest] at h ⊢
    split at h
    · next hnone =>
      intro b hb
      rcases List.mem_cons.mp hb with rfl | hb
      · exact hnone
      · exact ih (Option.map_eq_none_iff.mp h) b hb
    · split at h
      · cases h
      · next hs =>
        rw [if_neg hs]
        intro b hb
        rcases List.mem_cons.mp hb with rfl | hb
        · rfl
        · exact ih (Option.map_eq_none_iff.mp h) b hb

/-- The request that will do. -/
theorem findRequest_some {i : Nat} (h : (Ring.findRequest g n tail rs).2 = some i) :
    ∃ b x, (Ring.findRequest g n tail rs).1[i]? = some b ∧ b.tail = some x ∧
      n ≤ Ring.spaceTo g x tail := by
  induction rs generalizing i with
  | nil => simp [Ring.findRequest] at h
  | cons r rs ih =>
    rw [Ring.findRequest] at h ⊢
    split at h
    · obtain ⟨j, hj, rfl⟩ := Option.map_eq_some_iff.mp h
      exact ih hj
    · next x hx =>
      split at h
      · next hs =>
        rw [if_pos hs]
        obtain rfl := Option.some.inj h
        exact ⟨r, x, rfl, hx, hs⟩
      · next hs =>
        rw [if_neg hs]
        obtain ⟨j, hj, rfl⟩ := Option.map_eq_some_iff.mp h
        exact ih hj

end I915
