import Mathlib.Data.List.Nodup
import Mathlib.Tactic.Ring
import SolarisXorg.Gfx.GammaPack

/-!
# One packed integer

`unpackIntCore_packIntCore`: whatever follows it in the string, a packed integer is read back and
takes as many characters as were stored. The low digits and the digit that ends the integer are told
apart because no character is in two of the tables (`IntTables.idxOf_pos`, `idxOf_neg`,
`idxOf_lsb`). `packGamInt_length` bounds the characters: each low digit divides the value by 16.
-/

namespace Gfx

/-! ## Characters of the tables -/

/-- A character of a table is at its own index. -/
theorem idxOf?_getD {l : List UInt8} (hl : l.Nodup) {i : Nat} (hi : i < l.length) :
    l.idxOf? (l.getD i 0) = some i := by
  rw [← List.getElem_eq_getD (h := hi)]
  cases h : l.idxOf? l[i] with
  | none => exact absurd (l.getElem_mem hi) (List.idxOf?_eq_none_iff.1 h)
  | some j =>
    obtain ⟨hj, heq, -⟩ := List.idxOf?_eq_some_iff.1 h
    rw [hl.getElem_inj_iff.1 heq]

theorem getD_mem {l : List UInt8} {i : Nat} (hi : i < l.length) : l.getD i 0 ∈ l := by
  rw [← List.getElem_eq_getD (h := hi)]
  exact l.getElem_mem hi

namespace IntTables

variable (tb : IntTables)

theorem nodup_pos : tb.pos.Nodup := (List.nodup_append.1 (List.nodup_append.1 tb.nodup).1).1

theorem nodup_neg : tb.neg.Nodup := (List.nodup_append.1 (List.nodup_append.1 tb.nodup).1).2.1

theorem nodup_lsb : tb.lsb.Nodup := (List.nodup_append.1 tb.nodup).2.1

theorem notMem_neg_of_pos {c : UInt8} (h : c ∈ tb.pos) : c ∉ tb.neg := fun hneg =>
  (List.nodup_append.1 (List.nodup_append.1 tb.nodup).1).2.2 c h c hneg rfl

theorem notMem_lsb_of_pos {c : UInt8} (h : c ∈ tb.pos) : c ∉ tb.lsb := fun hlsb =>
  (List.nodup_append.1 tb.nodup).2.2 c (List.mem_append_left _ h) c hlsb rfl

theorem notMem_lsb_of_neg {c : UInt8} (h : c ∈ tb.neg) : c ∉ tb.lsb := fun hlsb =>
  (List.nodup_append.1 tb.nodup).2.2 c (List.mem_append_right _ h) c hlsb rfl

/-- A character of `pos` is in no other table. -/
theorem idxOf_pos {i : Nat} (hi : i < tb.pos.length) :
    tb.lsb.idxOf? (tb.pos.getD i 0) = none ∧ tb.neg.idxOf? (tb.pos.getD i 0) = none ∧
      tb.pos.idxOf? (tb.pos.getD i 0) = some i :=
  ⟨List.idxOf?_eq_none_iff.2 (tb.notMem_lsb_of_pos (getD_mem hi)),
    List.idxOf?_eq_none_iff.2 (tb.notMem_neg_of_pos (getD_mem hi)), idxOf?_getD tb.nodup_pos hi⟩

theorem idxOf_neg {i : Nat} (hi : i < tb.neg.length) :
    tb.lsb.idxOf? (tb.neg.getD i 0) = none ∧ tb.neg.idxOf? (tb.neg.getD i 0) = some i ∧
      tb.pos.idxOf? (tb.neg.getD i 0) = none :=
  ⟨List.idxOf?_eq_none_iff.2 (tb.notMem_lsb_of_neg (getD_mem hi)), idxOf?_getD tb.nodup_neg hi,
    List.idxOf?_eq_none_iff.2 fun hpos => tb.notMem_neg_of_pos hpos (getD_mem hi)⟩

theorem idxOf_lsb {i : Nat} (hi : i < tb.lsb.length) :
    tb.lsb.idxOf? (tb.lsb.getD i 0) = some i ∧ tb.neg.idxOf? (tb.lsb.getD i 0) = none ∧
      tb.pos.idxOf? (tb.lsb.getD i 0) = none :=
  ⟨idxOf?_getD tb.nodup_lsb hi,
    List.idxOf?_eq_none_iff.2 fun hneg => tb.notMem_lsb_of_neg hneg (getD_mem hi),
    List.idxOf?_eq_none_iff.2 fun hpos => tb.notMem_lsb_of_pos hpos (getD_mem hi)⟩

theorem unpack_pos {i : Nat} (hi : i < tb.pos.length) (str : List UInt8) :
    unpackIntCore tb (tb.pos.getD i 0 :: str) = (1, some (i : Int)) := by
  obtain ⟨hlsb, hneg, hpos⟩ := tb.idxOf_pos hi
  rw [unpackIntCore, hlsb, hneg, hpos]

theorem unpack_neg {i : Nat} (hi : i < tb.neg.length) (str : List UInt8) :
    unpackIntCore tb (tb.neg.getD i 0 :: str) = (1, some (-(i : Int) - 1)) := by
  obtain ⟨hlsb, hneg, hpos⟩ := tb.idxOf_neg hi
  rw [unpackIntCore, hlsb, hneg, hpos]

/-- A low digit before a packed integer. -/
theorem unpack_lsb {i n : Nat} {msb : Int} (hi : i < tb.lsb.length) {str : List UInt8}
    (hmsb : unpackIntCore tb str = (n, some msb)) :
    unpackIntCore tb (tb.lsb.getD i 0 :: str) = (1 + n, some (
      if 0 ≤ msb then msb * tb.lsb.length + (i + tb.pos.length)
      else (msb - 1) * tb.lsb.length + (i - tb.neg.length + tb.lsb.length))) := by
  obtain ⟨hlsb, hneg, hpos⟩ := tb.idxOf_lsb hi
  rw [unpackIntCore, hlsb, hneg, hpos, hmsb]
  rfl

end IntTables

/-! ## Reading an integer back -/

/-- The low digit of a positive value past the small ones. -/
theorem lsb_pos {da2 r : Int} (hr : 0 < r) (hda2 : 0 ≤ da2) :
    0 ≤ da2.tdiv r ∧ 0 ≤ da2 - da2.tdiv r * r ∧ da2 - da2.tdiv r * r < r := by
  have hmod : da2 - da2.tdiv r * r = da2.tmod r := by rw [Int.tmod_def, mul_comm]
  rw [hmod]
  exact ⟨Int.tdiv_nonneg hda2 hr.le, Int.tmod_nonneg r hda2, Int.tmod_lt_of_pos da2 hr⟩

/-- The low digit of a negative value past the small ones. -/
theorem lsb_neg {da2 r : Int} (hr : 0 < r) (hda2 : da2 ≤ 0) :
    da2.tdiv r - 1 < 0 ∧ 0 ≤ da2 - (da2.tdiv r - 1) * r - 1 ∧
      da2 - (da2.tdiv r - 1) * r - 1 < r := by
  obtain ⟨e, rfl⟩ : ∃ e, da2 = -e := ⟨-da2, by omega⟩
  have he : 0 ≤ e := by omega
  obtain ⟨hq, hlo, hhi⟩ := lsb_pos hr he
  rw [Int.neg_tdiv]
  refine ⟨by omega, ?_, ?_⟩ <;> linarith

/-- **Round trip of one integer.** -/
theorem unpackIntCore_packIntCore (tb : IntTables) (data : Int) (str : List UInt8) :
    unpackIntCore tb (packIntCore tb data ++ str) =
      ((packIntCore tb data).length, some data) := by
  have hr : (0 : Int) < tb.lsb.length := by
    have := List.length_pos_of_ne_nil tb.lsb_ne_nil
    omega
  fun_induction packIntCore tb data with
  | case1 data h0 hsmall =>
    -- A small positive value: one character of `pos`.
    rw [List.singleton_append, tb.unpack_pos (by omega), Int.toNat_of_nonneg h0]
    rfl
  | case2 data h0 hlarge da2 msb lsb =>
    rename_i ih
    obtain ⟨hmsb, hlo, hhi⟩ : 0 ≤ msb ∧ 0 ≤ lsb ∧ lsb < tb.lsb.length := lsb_pos hr (by omega)
    rw [List.cons_append, tb.unpack_lsb (by omega) ih, if_pos hmsb, List.length_cons, Nat.add_comm]
    have hsum : msb * tb.lsb.length + (lsb.toNat + tb.pos.length) = data := by omega
    rw [hsum]
  | case3 data h0 hsmall =>
    rw [List.singleton_append, tb.unpack_neg (by omega)]
    have hdata : -((-data - 1).toNat : Int) - 1 = data := by omega
    rw [hdata]
    rfl
  | case4 data h0 hlarge da2 msb lsb =>
    rename_i ih
    obtain ⟨hmsb, hlo, hhi⟩ : msb < 0 ∧ 0 ≤ lsb ∧ lsb < tb.lsb.length := lsb_neg hr (by omega)
    rw [List.cons_append, tb.unpack_lsb (by omega) ih, if_neg (by omega), List.length_cons,
      Nat.add_comm]
    have hsum : (msb - 1) * tb.lsb.length + (lsb.toNat - tb.neg.length + tb.lsb.length) = data := by
      rw [Int.toNat_of_nonneg hlo]
      have hmul : (msb - 1) * (tb.lsb.length : Int) = msb * tb.lsb.length - tb.lsb.length := by ring
      omega
    rw [hsum]

/-- A packed integer is made of characters of the tables, and has one at least. -/
theorem mem_packIntCore (tb : IntTables) (data : Int) :
    packIntCore tb data ≠ [] ∧ ∀ c ∈ packIntCore tb data, c ∈ tb.pos ++ tb.neg ++ tb.lsb := by
  have hr : (0 : Int) < tb.lsb.length := by
    have := List.length_pos_of_ne_nil tb.lsb_ne_nil
    omega
  have hcons : ∀ {lsb : Int} {str : List UInt8}, 0 ≤ lsb → lsb < tb.lsb.length →
      (∀ c ∈ str, c ∈ tb.pos ++ tb.neg ++ tb.lsb) →
      ∀ c ∈ tb.lsb.getD lsb.toNat 0 :: str, c ∈ tb.pos ++ tb.neg ++ tb.lsb := by
    intro lsb str hlo hhi hstr c hc
    rcases List.mem_cons.1 hc with rfl | hc
    · exact List.mem_append_right _ (getD_mem (by omega))
    · exact hstr c hc
  fun_induction packIntCore tb data with
  | case1 data h0 hsmall =>
    refine ⟨by simp, fun c hc => ?_⟩
    rw [List.mem_singleton.1 hc]
    exact List.mem_append_left _ (List.mem_append_left _ (getD_mem (by omega)))
  | case2 data h0 hlarge da2 msb lsb ih =>
    obtain ⟨-, hlo, hhi⟩ : _ ∧ 0 ≤ lsb ∧ lsb < tb.lsb.length := lsb_pos hr (by omega)
    exact ⟨by simp, hcons hlo hhi ih.2⟩
  | case3 data h0 hsmall =>
    refine ⟨by simp, fun c hc => ?_⟩
    rw [List.mem_singleton.1 hc]
    exact List.mem_append_left _ (List.mem_append_right _ (getD_mem (by omega)))
  | case4 data h0 hlarge da2 msb lsb ih =>
    obtain ⟨-, hlo, hhi⟩ : _ ∧ 0 ≤ lsb ∧ lsb < tb.lsb.length := lsb_neg hr (by omega)
    exact ⟨by simp, hcons hlo hhi ih.2⟩

/-! ## The tables in use -/

theorem length_gammaTblInt : gammaTblInt.pos.length = 48 ∧ gammaTblInt.neg.length = 26 ∧
    gammaTblInt.lsb.length = 16 := by decide

/-- Each low digit divides the value by 16. -/
theorem length_lsb_cons {data msb : Int} {c : UInt8} {l : List UInt8} {k : Nat}
    (ih : ∀ {k : Nat}, msb.natAbs ≤ 26 * 16 ^ k → l.length ≤ k + 1) (hlarge : 26 < data.natAbs)
    (hdiv : msb.natAbs * 16 ≤ data.natAbs) (h : data.natAbs ≤ 26 * 16 ^ k) :
    (c :: l).length ≤ k + 1 := by
  cases k with
  | zero => omega
  | succ k =>
    rw [pow_succ] at h
    have hmsb : msb.natAbs ≤ 26 * 16 ^ k := by omega
    have hle := ih hmsb
    rw [List.length_cons]
    omega

theorem packGamInt_length {data : Int} {k : Nat} (h : data.natAbs ≤ 26 * 16 ^ k) :
    (packGamInt data).length ≤ k + 1 := by
  obtain ⟨hpos, hneg, hlsb⟩ := length_gammaTblInt
  have hr : (0 : Int) < gammaTblInt.lsb.length := by omega
  unfold packGamInt
  fun_induction packIntCore gammaTblInt data generalizing k with
  | case1 => simp
  | case2 data h0 hlarge da2 msb lsb =>
    rename_i ih
    obtain ⟨hmsb, hlo, -⟩ : 0 ≤ msb ∧ 0 ≤ lsb ∧ _ := lsb_pos hr (by omega)
    have hmul : msb * gammaTblInt.lsb.length = msb * 16 := by rw [hlsb]; rfl
    exact length_lsb_cons ih (by omega) (by omega) h
  | case3 => simp
  | case4 data h0 hlarge da2 msb lsb =>
    rename_i ih
    obtain ⟨hmsb, -, hhi⟩ : msb < 0 ∧ _ ∧ lsb < gammaTblInt.lsb.length := lsb_neg hr (by omega)
    have hmul : msb * gammaTblInt.lsb.length = msb * 16 := by rw [hlsb]; rfl
    exact length_lsb_cons ih (by omega) (by omega) h

/-- Printable and not a space. -/
def Printable (c : UInt8) : Prop := 0x21 ≤ c ∧ c ≤ 0x7e

instance : DecidablePred Printable := fun c => inferInstanceAs (Decidable (0x21 ≤ c ∧ c ≤ 0x7e))

/-- The characters of the tables, none of which starts or ends a group. -/
theorem gammaTblInt_chars : ∀ c ∈ gammaTblInt.pos ++ gammaTblInt.neg ++ gammaTblInt.lsb,
    Printable c ∧ c ≠ gammaIntStartPacked ∧ c ≠ deltaTableBase0X := by
  have hall : (gammaTblInt.pos ++ gammaTblInt.neg ++ gammaTblInt.lsb).all (fun c =>
      decide (Printable c ∧ c ≠ gammaIntStartPacked ∧ c ≠ deltaTableBase0X)) = true := by
    decide
  exact fun c hc => of_decide_eq_true (List.all_eq_true.1 hall c hc)

end Gfx
