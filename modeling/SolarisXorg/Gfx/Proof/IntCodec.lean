import Mathlib.Data.List.Perm.Subperm
import SolarisXorg.Gfx.IntCodec
import SolarisXorg.Gfx.Proof.GammaInt

/-!
# Every `int` is read back

Where nothing overflows, the checked functions do what the unbounded ones do (`packInt_sound`,
`unpackInt_sound`), so the integer comes back. What can overflow is the product of the more
significant part and the number of low digits, for negative integers: `Fits` says that the least
integer with the same more significant part, less a full range of low digits, is an `int` still.
Only the first digit matters, as the more significant part is half the integer at most
(`fits_of_small`). `int_codec_iff`: both directions are free of overflows exactly for the integers
that fit. With the tables for gamma values every `int` does (`gam_int_codec`).
-/

namespace Gfx

open Lib

variable (tb : IntTables)

/-- The integer is not so near `INT_MIN` that a product overflows. -/
def Fits (d : Int) : Prop :=
  d < -tb.neg.length →
    ((-d - tb.neg.length - 1) / tb.lsb.length + 2) * tb.lsb.length ≤ 2 ^ 31

instance (d : Int) : Decidable (Fits tb d) := by
  unfold Fits
  infer_instance

/-! ## Lengths of the tables -/

/-- There are no more than 256 different characters. -/
theorem IntTables.length_le : tb.pos.length + tb.neg.length + tb.lsb.length ≤ 256 := by
  have hinj : Function.Injective UInt8.toNat := fun _ _ h => UInt8.toNat_inj.1 h
  have hsub : (tb.pos ++ tb.neg ++ tb.lsb).map UInt8.toNat ⊆ List.range 256 := by
    intro n hn
    obtain ⟨c, -, rfl⟩ := List.mem_map.1 hn
    exact List.mem_range.2 c.toNat_lt
  have hle := (List.subperm_of_subset (tb.nodup.map hinj) hsub).length_le
  simpa [Nat.add_assoc] using hle

theorem IntTables.length_pos :
    0 < tb.pos.length ∧ 0 < tb.neg.length ∧ 0 < tb.lsb.length :=
  ⟨List.length_pos_of_ne_nil tb.pos_ne_nil, List.length_pos_of_ne_nil tb.neg_ne_nil,
    List.length_pos_of_ne_nil tb.lsb_ne_nil⟩

/-! ## The first digit -/

@[simp] theorem areInts_nil : AreInts [] := fun _ h => absurd h List.not_mem_nil

@[simp] theorem areInts_cons (x : Int) (xs : List Int) :
    AreInts (x :: xs) ↔ IsInt x ∧ AreInts xs := List.forall_mem_cons

/-- The more significant part of a negative integer. -/
theorem msb_neg {e r : Int} (he : 0 ≤ e) : (-e).tdiv r - 1 = -(e / r + 1) := by
  rw [Int.neg_tdiv, Int.tdiv_eq_ediv_of_nonneg he]
  omega

variable {tb}

theorem fits_iff {d : Int} (hd : d < -tb.neg.length) :
    Fits tb d ↔ -2 ^ 31 ≤
      ((d - (-tb.neg.length - 1)).tdiv tb.lsb.length - 1) * tb.lsb.length - tb.lsb.length := by
  obtain ⟨e, he⟩ : ∃ e, e = -d - tb.neg.length - 1 := ⟨_, rfl⟩
  have hda2 : d - (-tb.neg.length - 1) = -e := by omega
  have hmul : -(e / tb.lsb.length + 1) * (tb.lsb.length : Int) - tb.lsb.length =
      -((e / tb.lsb.length + 2) * tb.lsb.length) := by ring
  rw [Fits, hda2, msb_neg (by omega), hmul, ← he]
  constructor
  · intro h
    have := h hd
    omega
  · intro h _
    omega

/-- The more significant part of a positive integer is no larger. -/
theorem msb_pos_le {da2 r : Int} (hr : 0 < r) (hda2 : 0 ≤ da2) :
    da2.tdiv r ≤ da2 ∧ da2.tdiv r * r ≤ da2 := by
  obtain ⟨hmsb, hlo, -⟩ := lsb_pos hr hda2
  have hle : da2.tdiv r * 1 ≤ da2.tdiv r * r := Int.mul_le_mul_of_nonneg_left (by omega) hmsb
  omega

/-- The more significant part of a negative integer is half as large, with two low digits. -/
theorem msb_neg_ge {da2 r : Int} (hr : 2 ≤ r) (hda2 : da2 ≤ 0) :
    da2 - 2 ≤ 2 * (da2.tdiv r - 1) := by
  obtain ⟨hmsb, -, hhi⟩ := lsb_neg (r := r) (by omega) hda2
  have hle : (-(da2.tdiv r - 1) - 1) * 2 ≤ (-(da2.tdiv r - 1) - 1) * r :=
    Int.mul_le_mul_of_nonneg_left hr (by omega)
  have hmul : (-(da2.tdiv r - 1) - 1) * r = -((da2.tdiv r - 1) * r) - r := by ring
  omega

theorem fits_of_small {d : Int} (hd : -2 ^ 30 ≤ d) : Fits tb d := by
  by_cases hneg : d < -tb.neg.length
  · obtain ⟨-, hn, hr⟩ := tb.length_pos
    have hle := tb.length_le
    obtain ⟨-, -, hhi⟩ := @lsb_neg (d - (-tb.neg.length - 1)) tb.lsb.length (by omega)
      (by omega)
    rw [fits_iff hneg]
    omega
  · exact fun h => absurd h hneg

/-! ## Packing -/

/-- A packed integer is what the unbounded function packs. -/
theorem packInt_sound {d : Int} {bytes : List UInt8} (h : packInt tb d = some bytes) :
    bytes = packIntCore tb d := by
  fun_induction packInt tb d generalizing bytes with
  | case1 data h0 hsmall =>
    rw [packIntCore, if_pos h0, if_pos hsmall]
    exact (Option.some.inj h).symm
  | case2 data h0 hlarge da2 msb lsb hints =>
    rename_i ih
    obtain ⟨rest, hrest, rfl⟩ := Option.map_eq_some_iff.1 h
    rw [packIntCore, if_pos h0, if_neg hlarge, ih hrest]
  | case3 => exact absurd h (by simp)
  | case4 data h0 hsmall hints =>
    rw [packIntCore, if_neg h0, if_pos hsmall]
    exact (Option.some.inj h).symm
  | case5 => exact absurd h (by simp)
  | case6 data h0 hlarge da2 msb lsb hints =>
    rename_i ih
    obtain ⟨rest, hrest, rfl⟩ := Option.map_eq_some_iff.1 h
    rw [packIntCore, if_neg h0, if_neg hlarge, ih hrest]
  | case7 => exact absurd h (by simp)

theorem packInt_eq (hlsb : 2 ≤ tb.lsb.length) {d : Int} (hint : IsInt d) (hfits : Fits tb d) :
    packInt tb d = some (packIntCore tb d) := by
  obtain ⟨hp, hn, hr⟩ := tb.length_pos
  have hle := tb.length_le
  obtain ⟨hlow, hhigh⟩ := hint
  fun_induction packIntCore tb d with
  | case1 data h0 hsmall => rw [packInt, if_pos h0, if_pos hsmall]
  | case2 data h0 hlarge da2 msb lsb ih =>
    obtain ⟨hmsb, hlo, hhi⟩ : 0 ≤ msb ∧ 0 ≤ lsb ∧ lsb < tb.lsb.length :=
      lsb_pos (by omega) (by omega)
    obtain ⟨hle1, hle2⟩ : msb ≤ da2 ∧ msb * tb.lsb.length ≤ da2 := msb_pos_le (by omega) (by omega)
    have hints : AreInts [da2, msb, msb * tb.lsb.length, lsb] := by
      simp only [areInts_cons, areInts_nil, IsInt, and_true]
      omega
    rw [packInt, if_pos h0, if_neg hlarge]
    dsimp only
    rw [if_pos hints, ih (fits_of_small (by omega)) (by omega) (by omega)]
    rfl
  | case3 data h0 hsmall =>
    have hints : AreInts [-data, -data - 1] := by
      simp only [areInts_cons, areInts_nil, IsInt, and_true]
      omega
    rw [packInt, if_neg h0, if_pos hsmall, if_pos hints]
  | case4 data h0 hlarge da2 msb lsb ih =>
    obtain ⟨hmsb, hlo, hhi⟩ : msb < 0 ∧ 0 ≤ lsb ∧ lsb < tb.lsb.length :=
      lsb_neg (by omega) (by omega)
    have hhalf : da2 - 2 ≤ 2 * msb := msb_neg_ge (by omega) (by omega)
    have hfit : -2 ^ 31 ≤ msb * tb.lsb.length - tb.lsb.length := (fits_iff (by omega)).1 hfits
    have hints : AreInts [da2, msb + 1, msb, msb * tb.lsb.length, lsb + 1, lsb] := by
      simp only [areInts_cons, areInts_nil, IsInt, and_true]
      omega
    rw [packInt, if_neg h0, if_neg hlarge]
    dsimp only
    rw [if_pos hints, ih (fits_of_small (by omega)) (by omega) (by omega)]
    rfl

/-! ## Unpacking -/

theorem unpackInt_pos {i : Nat} (hi : i < tb.pos.length) (str : List UInt8) :
    unpackInt tb (tb.pos.getD i 0 :: str) = some (1, some (i : Int)) := by
  obtain ⟨hlsb, hneg, hpos⟩ := tb.idxOf_pos hi
  rw [unpackInt, hlsb, hneg, hpos]

theorem unpackInt_neg {i : Nat} (hi : i < tb.neg.length) (str : List UInt8) :
    unpackInt tb (tb.neg.getD i 0 :: str) = some (1, some (-(i : Int) - 1)) := by
  obtain ⟨hlsb, hneg, hpos⟩ := tb.idxOf_neg hi
  rw [unpackInt, hlsb, hneg, hpos]

theorem unpackInt_lsb {i n : Nat} {msb : Int} (hi : i < tb.lsb.length) {str : List UInt8}
    (hmsb : unpackInt tb str = some (n, some msb)) :
    unpackInt tb (tb.lsb.getD i 0 :: str) =
      (combine tb i msb).map fun data => (1 + n, some data) := by
  obtain ⟨hlsb, hneg, hpos⟩ := tb.idxOf_lsb hi
  rw [unpackInt, hlsb, hneg, hpos, hmsb]

theorem combine_sound {valu msb data : Int} (h : combine tb valu msb = some data) :
    data = if 0 ≤ msb then msb * tb.lsb.length + (valu + tb.pos.length)
      else (msb - 1) * tb.lsb.length + (valu - tb.neg.length + tb.lsb.length) := by
  rw [combine] at h
  split at h
  · rename_i hmsb
    simp only [Option.ite_none_right_eq_some, Option.some.injEq] at h
    rw [if_pos hmsb, ← h.2]
    omega
  · rename_i hmsb
    simp only [Option.ite_none_right_eq_some, Option.some.injEq] at h
    rw [if_neg hmsb, ← h.2]
    omega

/-- What is unpacked is what the unbounded function unpacks. -/
theorem unpackInt_sound {str : List UInt8} {r : Nat × Option Int}
    (h : unpackInt tb str = some r) : r = unpackIntCore tb str := by
  induction str generalizing r with
  | nil => exact (Option.some.inj h).symm
  | cons c str ih =>
    rw [unpackInt] at h
    rw [unpackIntCore]
    generalize tb.lsb.idxOf? c = l, tb.neg.idxOf? c = n, tb.pos.idxOf? c = p at h ⊢
    rcases l with _ | valu
    · rcases n with _ | n <;> rcases p with _ | p <;> exact (Option.some.inj h).symm
    · rcases n with _ | n
      · rcases p with _ | p
        · -- A low digit: the rest decides.
          cases hrest : unpackInt tb str with
          | none => simp [hrest] at h
          | some next =>
            obtain ⟨rc, msb⟩ := next
            rw [← ih hrest]
            rw [hrest] at h
            cases msb with
            | none => exact (Option.some.inj h).symm
            | some msb =>
              obtain ⟨data, hdata, rfl⟩ := Option.map_eq_some_iff.1 h
              rw [combine_sound hdata]
              rfl
        · exact (Option.some.inj h).symm
      · rcases p with _ | p <;> exact (Option.some.inj h).symm

/-- The digits of a positive integer make it again. -/
theorem combine_pos {d msb lsb : Int} (hint : IsInt d) (hd : tb.pos.length ≤ d)
    (hmsb : (d - tb.pos.length).tdiv tb.lsb.length = msb)
    (hlsb : d - tb.pos.length - msb * tb.lsb.length = lsb) : combine tb lsb msb = some d := by
  obtain ⟨-, -, hr⟩ := tb.length_pos
  have hle := tb.length_le
  obtain ⟨hlow, hhigh⟩ := hint
  obtain ⟨h0, hlo, hhi⟩ := @lsb_pos (d - tb.pos.length) tb.lsb.length (by omega) (by omega)
  rw [hmsb] at h0 hlo hhi
  have hsum : msb * tb.lsb.length + (lsb + (tb.pos.length - 1) + 1) = d := by omega
  rw [combine, if_pos h0]
  dsimp only
  rw [hsum, if_pos]
  simp only [areInts_cons, areInts_nil, IsInt, and_true]
  omega

/-- The digits of a negative integer make it again just when it fits. -/
theorem combine_neg (hlsb2 : 2 ≤ tb.lsb.length) {d msb lsb : Int} (hint : IsInt d)
    (hd : d < -tb.neg.length)
    (hmsb : (d - (-tb.neg.length - 1)).tdiv tb.lsb.length - 1 = msb)
    (hlsb : d - (-tb.neg.length - 1) - msb * tb.lsb.length - 1 = lsb) :
    combine tb lsb msb = if Fits tb d then some d else none := by
  obtain ⟨-, hn, -⟩ := tb.length_pos
  have hle := tb.length_le
  obtain ⟨hlow, hhigh⟩ := hint
  obtain ⟨h0, hlo, hhi⟩ := @lsb_neg (d - (-tb.neg.length - 1)) tb.lsb.length (by omega)
    (by omega)
  have hhalf := @msb_neg_ge (d - (-tb.neg.length - 1)) tb.lsb.length (by omega)
    (by omega)
  have hfits := fits_iff hd
  rw [hmsb] at h0 hlo hhi hhalf hfits
  have hmul : (msb - 1) * (tb.lsb.length : Int) = msb * tb.lsb.length - tb.lsb.length := by ring
  have hsum : (msb - 1) * tb.lsb.length + (lsb + -tb.neg.length + tb.lsb.length) = d := by omega
  have hints : AreInts [lsb + -tb.neg.length, lsb + -tb.neg.length + tb.lsb.length, msb - 1,
      (msb - 1) * tb.lsb.length, d] ↔ Fits tb d := by
    rw [hfits]
    simp only [areInts_cons, areInts_nil, IsInt, and_true]
    omega
  rw [combine, if_neg (by omega)]
  dsimp only
  rw [hsum]
  by_cases h : Fits tb d
  · rw [if_pos (hints.2 h), if_pos h]
  · rw [if_neg (fun hall => h (hints.1 hall)), if_neg h]

theorem unpackInt_packIntCore (hlsb2 : 2 ≤ tb.lsb.length) {d : Int} (hint : IsInt d)
    (hfits : Fits tb d) (str : List UInt8) :
    unpackInt tb (packIntCore tb d ++ str) = some ((packIntCore tb d).length, some d) := by
  obtain ⟨hp, hn, hr⟩ := tb.length_pos
  fun_induction packIntCore tb d with
  | case1 data h0 hsmall =>
    rw [List.singleton_append, unpackInt_pos (by omega), Int.toNat_of_nonneg h0]
    rfl
  | case2 data h0 hlarge da2 msb lsb ih =>
    obtain ⟨hmsb, hlo, hhi⟩ : 0 ≤ msb ∧ 0 ≤ lsb ∧ lsb < tb.lsb.length :=
      lsb_pos (by omega) (by omega)
    obtain ⟨hle, -⟩ : msb ≤ da2 ∧ _ := msb_pos_le (by omega) (by omega)
    have hint' : IsInt msb := by
      obtain ⟨hlow, hhigh⟩ := hint
      exact ⟨by omega, by omega⟩
    rw [List.cons_append, unpackInt_lsb (by omega) (ih hint' (fits_of_small (by omega))),
      Int.toNat_of_nonneg hlo, combine_pos hint (by omega) rfl rfl, List.length_cons, Nat.add_comm]
    rfl
  | case3 data h0 hsmall =>
    rw [List.singleton_append, unpackInt_neg (by omega)]
    have hdata : -((-data - 1).toNat : Int) - 1 = data := by omega
    rw [hdata]
    rfl
  | case4 data h0 hlarge da2 msb lsb ih =>
    obtain ⟨hmsb, hlo, hhi⟩ : msb < 0 ∧ 0 ≤ lsb ∧ lsb < tb.lsb.length :=
      lsb_neg (by omega) (by omega)
    have hhalf : da2 - 2 ≤ 2 * msb := msb_neg_ge (by omega) (by omega)
    have hint' : IsInt msb ∧ -2 ^ 30 ≤ msb := by
      obtain ⟨hlow, hhigh⟩ := hint
      exact ⟨⟨by omega, by omega⟩, by omega⟩
    rw [List.cons_append, unpackInt_lsb (by omega) (ih hint'.1 (fits_of_small hint'.2)),
      Int.toNat_of_nonneg hlo, combine_neg hlsb2 hint (by omega) rfl rfl, if_pos hfits,
      List.length_cons, Nat.add_comm]
    rfl

/-- An integer that does not fit overflows when it is read back. -/
theorem unpackInt_overflow (hlsb2 : 2 ≤ tb.lsb.length) {d : Int} (hint : IsInt d)
    (hfits : ¬ Fits tb d) (str : List UInt8) :
    unpackInt tb (packIntCore tb d ++ str) = none := by
  obtain ⟨-, hn, -⟩ := tb.length_pos
  have hd : d < -tb.neg.length := by
    by_contra hd
    exact hfits fun h => absurd h hd
  obtain ⟨msb, hmsb⟩ : ∃ msb, (d - (-tb.neg.length - 1)).tdiv tb.lsb.length - 1 = msb := ⟨_, rfl⟩
  obtain ⟨lsb, hlsb⟩ : ∃ lsb, d - (-tb.neg.length - 1) - msb * tb.lsb.length - 1 = lsb := ⟨_, rfl⟩
  obtain ⟨h0, hlo, hhi⟩ := @lsb_neg (d - (-tb.neg.length - 1)) tb.lsb.length (by omega)
    (by omega)
  have hhalf := @msb_neg_ge (d - (-tb.neg.length - 1)) tb.lsb.length (by omega)
    (by omega)
  rw [hmsb] at h0 hlo hhi hhalf
  rw [hlsb] at hlo hhi
  obtain ⟨hlow, hhigh⟩ := hint
  have hrest := unpackInt_packIntCore hlsb2 (d := msb) ⟨by omega, by omega⟩
    (fits_of_small (by omega)) str
  rw [packIntCore, if_neg (by omega), if_neg (by omega)]
  dsimp only
  rw [hmsb, hlsb, List.cons_append, unpackInt_lsb (by omega) hrest, Int.toNat_of_nonneg hlo,
    combine_neg hlsb2 ⟨hlow, hhigh⟩ hd hmsb hlsb, if_neg hfits]
  rfl

/-! ## The codec -/

/-- **The integer codec.** Packing stops, and packing and reading back come without an overflow to
the integer and the number of bytes packed exactly for the integers that fit. Whenever neither
overflows, the number and the bytes are right. -/
theorem int_codec_iff (hlsb2 : 2 ≤ tb.lsb.length) (d : Int32) :
    ((∃ bytes, packInt tb d.toInt = some bytes ∧
      ∀ str, unpackInt tb (bytes ++ str) = some (bytes.length, some d.toInt)) ↔ Fits tb d.toInt) ∧
    ∀ bytes str r, packInt tb d.toInt = some bytes → unpackInt tb (bytes ++ str) = some r →
      r = (bytes.length, some d.toInt) := by
  have hint : IsInt d.toInt := ⟨d.le_toInt, d.toInt_lt⟩
  refine ⟨⟨?_, fun hfits => ?_⟩, fun bytes str r hpack hunpack => ?_⟩
  · rintro ⟨bytes, hpack, hunpack⟩
    by_contra hfits
    have hnone := unpackInt_overflow hlsb2 hint hfits []
    rw [← packInt_sound hpack, hunpack []] at hnone
    exact absurd hnone (by simp)
  · exact ⟨_, packInt_eq hlsb2 hint hfits, unpackInt_packIntCore hlsb2 hint hfits⟩
  · obtain rfl := packInt_sound hpack
    rw [unpackInt_sound hunpack, unpackIntCore_packIntCore]

/-- `INT_MIN` with the tables for gamma values. -/
theorem int_codec_intMin : ∃ bytes, packInt gammaTblInt Int32.minValue.toInt = some bytes ∧
    ∀ str, unpackInt gammaTblInt (bytes ++ str) = some (bytes.length, some Int32.minValue.toInt) :=
  (int_codec_iff (by decide) Int32.minValue).1.2 (by decide)

/-- A character for small positive and one for small negative values, and two low digits. -/
def shortTables : IntTables where
  pos := chars "0"
  neg := chars "a"
  lsb := chars "[]"
  pos_ne_nil := by decide
  neg_ne_nil := by decide
  lsb_ne_nil := by decide
  nodup := by decide

/-- `INT_MIN` with a single negative character: what was packed overflows when it is read back. -/
theorem int_codec_overflow :
    (packInt shortTables Int32.minValue.toInt).isSome ∧
    (packInt shortTables Int32.minValue.toInt).bind (unpackInt shortTables) = none := by
  decide +kernel

/-- With the tables for gamma values every `int` fits. -/
theorem fits_gammaTblInt {d : Int} (hint : IsInt d) : Fits gammaTblInt d := by
  obtain ⟨-, hneg, hlsb⟩ := length_gammaTblInt
  obtain ⟨hlow, hhigh⟩ := hint
  intro _
  rw [hneg, hlsb]
  omega

/-- **`pack_gam_int` and `unpack_gam_int` are right for every `int`.** -/
theorem gam_int_codec (d : Int32) :
    ∃ bytes, packInt gammaTblInt d.toInt = some bytes ∧
      ∀ str, unpackInt gammaTblInt (bytes ++ str) = some (bytes.length, some d.toInt) := by
  have hint : IsInt d.toInt := ⟨d.le_toInt, d.toInt_lt⟩
  have hfits := fits_gammaTblInt hint
  exact ⟨_, packInt_eq (by decide) hint hfits, unpackInt_packIntCore (by decide) hint hfits⟩

end Gfx
