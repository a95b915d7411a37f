import Mathlib.Tactic.Common
import SolarisXorg.X11.Gb18030Text

/-!
# Single characters

How the ranges exclude each other (`Ptr.at_ascii`, `Ptr.at_two`, `Ptr.at_four`: what the tests answer
at a character of each kind), what the packing of four bytes into two keeps
(`twobyteToFourbyte_csBytes`), and the GB2312 high bits (`GbChar.unmask`).
-/

namespace X11

open Lib

@[simp] theorem Ptr.plus_apply (p : Ptr) (i k : Nat) : p.plus i k = p (i + k) := rfl

theorem holds_plus {p : Ptr} {i : Nat} {l : List UInt8} (h : Holds p i l) :
    Holds (p.plus i) 0 l := by
  suffices ∀ (l : List UInt8) (k : Nat), Holds p (i + k) l → Holds (p.plus i) k l from this l 0 h
  intro l
  induction l with
  | nil => simp
  | cons b l ih =>
    intro k hk
    exact ⟨hk.1, ih (k + 1) hk.2⟩

theorem Ptr.store_holds (q : Ptr) (l : List UInt8) : Holds (q.store l) 0 l := by
  suffices ∀ k pre, pre ++ k = l → Holds (q.store l) pre.length k from this l [] rfl
  intro k
  induction k with
  | nil => simp
  | cons b k ih =>
    intro pre hpre
    refine ⟨?_, ?_⟩
    · simp [Ptr.store, ← hpre]
    · have := ih (pre ++ [b]) (by simpa using hpre)
      simpa using this

theorem Ptr.holds_ofList (l : List UInt8) : Holds (Ptr.ofList l) 0 l :=
  Ptr.store_holds (fun _ => 0) l

/-! ## Ranges -/

theorem isAscii_iff {b : UInt8} : isAscii b = true ↔ b.toNat ≤ 0x7f := by
  simp [isAscii, UInt8.le_iff_toNat_le]

theorem isgb_iff {s : Ptr} : isgb s = true ↔
    (0xa1 ≤ (s 0).toNat ∧ (s 0).toNat ≤ 0xfe) ∧ 0xa1 ≤ (s 1).toNat ∧ (s 1).toNat ≤ 0xfe := by
  simp [isgb, UInt8.le_iff_toNat_le, and_assoc]

theorem isgb18030_2_iff {s : Ptr} : isgb18030_2 s = true ↔
    (0x81 ≤ (s 0).toNat ∧ (s 0).toNat ≤ 0xfe) ∧
      ((0x40 ≤ (s 1).toNat ∧ (s 1).toNat ≤ 0x7e) ∨ (0x80 ≤ (s 1).toNat ∧ (s 1).toNat ≤ 0xfe)) := by
  simp [isgb18030_2, UInt8.le_iff_toNat_le]

theorem isgb18030_4_iff {s : Ptr} : isgb18030_4 s = true ↔
    (0x81 ≤ (s 0).toNat ∧ (s 0).toNat ≤ 0xfe) ∧ (0x30 ≤ (s 1).toNat ∧ (s 1).toNat ≤ 0x39) ∧
      (0x81 ≤ (s 2).toNat ∧ (s 2).toNat ≤ 0xfe) ∧ 0x30 ≤ (s 3).toNat ∧ (s 3).toNat ≤ 0x39 := by
  simp [isgb18030_4, UInt8.le_iff_toNat_le, and_assoc]

theorem isgb_eq_false {s : Ptr} (h : isgb18030_2 s = false) : isgb s = false := by
  rw [← Bool.not_eq_true] at h ⊢
  rw [isgb18030_2_iff] at h
  rw [isgb_iff]
  omega

section Tests

variable {s : Ptr}

theorem Ptr.at_ascii {b : UInt8} (hb : isAscii b = true) (h : Holds s 0 [b]) :
    isgb s = false ∧ isgb18030_2 s = false ∧ isgb18030_4 s = false ∧ isAscii (s 0) = true := by
  rw [← h.1] at hb
  have h0 := isAscii_iff.mp hb
  have h2 : isgb18030_2 s = false := by
    rw [← Bool.not_eq_true, isgb18030_2_iff]
    omega
  have h4 : isgb18030_4 s = false := by
    rw [← Bool.not_eq_true, isgb18030_4_iff]
    omega
  exact ⟨isgb_eq_false h2, h2, h4, hb⟩

theorem Ptr.at_two {b0 b1 : UInt8} (hb : isgb18030_2 (.ofList [b0, b1]) = true)
    (h : Holds s 0 [b0, b1]) :
    isgb s = isgb (.ofList [b0, b1]) ∧ isgb18030_2 s = true := by
  obtain ⟨h0, h1, -⟩ := h
  refine ⟨?_, ?_⟩
  · simp [isgb, Ptr.ofList, h0, h1]
  · rw [← hb]
    simp [isgb18030_2, Ptr.ofList, h0, h1]

theorem Ptr.at_four {b0 b1 b2 b3 : UInt8} (hb : isgb18030_4 (.ofList [b0, b1, b2, b3]) = true)
    (h : Holds s 0 [b0, b1, b2, b3]) :
    isgb s = false ∧ isgb18030_2 s = false ∧ isgb18030_4 s = true := by
  obtain ⟨h0, h1, h2, h3, -⟩ := h
  have h4 : isgb18030_4 s = true := by
    rw [← hb]
    simp [isgb18030_4, Ptr.ofList, h0, h1, h2, h3]
  have h2 : isgb18030_2 s = false := by
    have := isgb18030_4_iff.mp h4
    rw [← Bool.not_eq_true, isgb18030_2_iff]
    omega
  exact ⟨isgb_eq_false h2, h2, h4⟩

end Tests

/-! ## Lengths -/

theorem GbChar.bytes_length_pos (c : GbChar) : 0 < c.bytes.length := by
  cases c <;> simp [GbChar.bytes]

theorem GbChar.ctBytes_length (c : GbChar) : c.ctBytes.length = c.bytes.length := by
  unfold GbChar.ctBytes
  split <;> simp

/-- The length of a character in the text of its charset. -/
def GbKind.charSize : GbKind → Nat
  | .ascii => 1
  | .two => 2
  | .four => 2

theorem GbChar.csBytes_length (c : GbChar) : c.csBytes.length = c.kind.charSize := by
  cases c <;> rfl

theorem text_cons (c : GbChar) (cs : List GbChar) : text (c :: cs) = c.bytes ++ text cs := rfl

/-! ## The packing -/

theorem fourbyteToTwobyte_congr {s t : Ptr} (h0 : s 0 = t 0) (h1 : s 1 = t 1) (h2 : s 2 = t 2)
    (h3 : s 3 = t 3) : fourbyteToTwobyte s = fourbyteToTwobyte t := by
  simp only [fourbyteToTwobyte, h0, h1, h2, h3]

/-- A number has the digits `x0`, `x1`, `x2`, `x3` in the mixed base exactly if it is made up of
them. -/
theorem digits_iff (n x0 : Nat) {x1 x2 x3 : Nat} (h1 : x1 < 10) (h2 : x2 < 126) (h3 : x3 < 10) :
    (n / 10 / 126 / 10 = x0 ∧ n / 10 / 126 % 10 = x1 ∧ n / 10 % 126 = x2 ∧ n % 10 = x3) ↔
      n = 12600 * x0 + 1260 * x1 + 10 * x2 + x3 := by
  constructor
  · intro ⟨e0, e1, e2, e3⟩
    have d1 := Nat.div_add_mod n 10
    have d2 := Nat.div_add_mod (n / 10) 126
    have d3 := Nat.div_add_mod (n / 10 / 126) 10
    omega
  · intro hn
    have d1 : n / 10 = 1260 * x0 + 126 * x1 + x2 := by omega
    have d2 : n / 10 / 126 = 10 * x0 + x1 := by omega
    omega

/-- The digits of a four-byte character. -/
theorem isgb18030_4_digits {b0 b1 b2 b3 : UInt8}
    (h : isgb18030_4 (.ofList [b0, b1, b2, b3]) = true) : ∃ x0 x1 x2 x3 : Nat,
    (x0 < 126 ∧ x1 < 10 ∧ x2 < 126 ∧ x3 < 10) ∧ b0.toNat = 0x81 + x0 ∧ b1.toNat = 0x30 + x1 ∧
      b2.toNat = 0x81 + x2 ∧ b3.toNat = 0x30 + x3 := by
  have hr := isgb18030_4_iff.mp h
  simp only [Ptr.ofList, List.getD_cons_zero, List.getD_cons_succ] at hr
  obtain ⟨⟨l0, u0⟩, ⟨l1, u1⟩, ⟨l2, u2⟩, l3, u3⟩ := hr
  refine ⟨b0.toNat - 0x81, b1.toNat - 0x30, b2.toNat - 0x81, b3.toNat - 0x30, ?_, ?_, ?_, ?_, ?_⟩ <;>
    omega

/-- What the packing keeps of the place of a character are its lower 16 bits. -/
theorem GbChar.csBytes_four {b0 b1 b2 b3 : UInt8}
    (h : isgb18030_4 (.ofList [b0, b1, b2, b3]) = true) :
    (GbChar.four b0 b1 b2 b3 h).csBytes = [.ofNat ((GbChar.four b0 b1 b2 b3 h).index / 256),
      .ofNat (GbChar.four b0 b1 b2 b3 h).index] := by
  obtain ⟨x0, x1, x2, x3, -, e0, e1, e2, e3⟩ := isgb18030_4_digits h
  simp only [GbChar.csBytes, GbChar.index, fourbyteToTwobyte, Ptr.ofList, List.getD_cons_zero,
    List.getD_cons_succ, e0, e1, e2, e3, Nat.add_sub_cancel_left]
  have htmp : (12600 * (((0x81 + x0 : Nat) : Int) - 0x81) +
      1260 * (((0x30 + x1 : Nat) : Int) - 0x30) + 10 * (((0x81 + x2 : Nat) : Int) - 0x81) +
      (((0x30 + x3 : Nat) : Int) - 0x30)) =
      ((12600 * x0 + 1260 * x1 + 10 * x2 + x3 : Nat) : Int) := by
    omega
  rw [htmp]
  generalize 12600 * x0 + 1260 * x1 + 10 * x2 + x3 = n
  have h256 : ((n : Int) / 256 % 256).toNat = n / 256 % 256 := by omega
  have hmod : ((n : Int) % 256).toNat = n % 256 := by omega
  have hbyte : ∀ k : Nat, UInt8.ofNat (k % 256) = .ofNat k := by
    intro k
    apply UInt8.toNat_inj.mp
    simp only [UInt8.toNat_ofNat']
    omega
  rw [h256, hmod, hbyte, hbyte]

/-- **Unpacking gives the character back** exactly if its place fits into 16 bits. -/
theorem twobyteToFourbyte_csBytes {c : GbChar} (hc : c.kind = .four) {s : Ptr}
    (hs : Holds s 0 c.csBytes) : twobyteToFourbyte s = c.bytes ↔ c.index < 65536 := by
  cases c with
  | ascii b h => cases hc
  | two b0 b1 h => cases hc
  | four b0 b1 b2 b3 h =>
    obtain ⟨x0, x1, x2, x3, ⟨l0, l1, l2, l3⟩, e0, e1, e2, e3⟩ := isgb18030_4_digits h
    rw [GbChar.csBytes_four] at hs
    obtain ⟨h0, h1, -⟩ := hs
    have hn : (GbChar.four b0 b1 b2 b3 h).index = 12600 * x0 + 1260 * x1 + 10 * x2 + x3 := by
      simp only [GbChar.index, e0, e1, e2, e3, Nat.add_sub_cancel_left]
    rw [hn] at h0 h1 ⊢
    have hdigits := digits_iff ((12600 * x0 + 1260 * x1 + 10 * x2 + x3) % 65536) x0 l1 l2 l3
    generalize 12600 * x0 + 1260 * x1 + 10 * x2 + x3 = n at h0 h1 hdigits ⊢
    have htmp : (s 0).toNat * 256 + (s 1).toNat = n % 65536 := by
      rw [h0, h1]
      simp only [UInt8.toNat_ofNat']
      omega
    have hsmall : n % 65536 / 10 / 126 / 10 ≤ 5 := by omega
    have hfit : n % 65536 = n ↔ n < 65536 := by omega
    rw [← hfit, ← hdigits]
    simp only [twobyteToFourbyte, GbChar.bytes, htmp, List.cons.injEq, and_true,
      ← UInt8.toNat_inj, UInt8.toNat_ofNat', e0, e1, e2, e3]
    generalize n % 65536 = t at hsmall ⊢
    have m0 : (0x81 + t / 10 / 126 / 10) % 2 ^ 8 = 0x81 + t / 10 / 126 / 10 :=
      Nat.mod_eq_of_lt (by omega)
    have m1 : (0x30 + t / 10 / 126 % 10) % 2 ^ 8 = 0x30 + t / 10 / 126 % 10 :=
      Nat.mod_eq_of_lt (by omega)
    have m2 : (0x81 + t / 10 % 126) % 2 ^ 8 = 0x81 + t / 10 % 126 := Nat.mod_eq_of_lt (by omega)
    have m3 : (0x30 + t % 10) % 2 ^ 8 = 0x30 + t % 10 := Nat.mod_eq_of_lt (by omega)
    rw [m0, m1, m2, m3]
    simp only [Nat.add_left_cancel_iff]

/-- What is unpacked is a four-byte character. -/
theorem isgb18030_4_twobyteToFourbyte (s : Ptr) :
    isgb18030_4 (.ofList (twobyteToFourbyte s)) = true := by
  rw [isgb18030_4_iff]
  simp only [twobyteToFourbyte, Ptr.ofList, List.getD_cons_zero, List.getD_cons_succ,
    UInt8.toNat_ofNat']
  have h0 := (s 0).toNat_lt
  have h1 := (s 1).toNat_lt
  have htmp : (s 0).toNat * 256 + (s 1).toNat < 65536 := by omega
  generalize (s 0).toNat * 256 + (s 1).toNat = tmp at htmp ⊢
  have hsmall : tmp / 10 / 126 / 10 ≤ 5 := by omega
  have d1 := Nat.mod_lt (tmp / 10 / 126) (show 0 < 10 by decide)
  have d2 := Nat.mod_lt (tmp / 10) (show 0 < 126 by decide)
  have d3 := Nat.mod_lt tmp (show 0 < 10 by decide)
  generalize tmp / 10 / 126 / 10 = x0, tmp / 10 / 126 % 10 = x1, tmp / 10 % 126 = x2,
    tmp % 10 = x3 at hsmall d1 d2 d3 ⊢
  rw [Nat.mod_eq_of_lt (by omega), Nat.mod_eq_of_lt (by omega), Nat.mod_eq_of_lt (by omega),
    Nat.mod_eq_of_lt (by omega)]
  omega

/-! ## The high bits -/

theorem or_and_high {b : UInt8} (h : 0x80 ≤ b.toNat) : (b &&& 0x7f) ||| 0x80 = b := by
  apply UInt8.toNat_inj.mp
  have hlt := b.toNat_lt
  have hmod : b.toNat &&& 127 = b.toNat % 2 ^ 7 := Nat.and_two_pow_sub_one_eq_mod _ 7
  have hor := Nat.or_two_pow_eq_add_of_lt (Nat.mod_lt b.toNat (show 0 < 2 ^ 7 by decide))
  have e7f : (0x7f : UInt8).toNat = 127 := rfl
  have e80 : (0x80 : UInt8).toNat = 2 ^ 7 := rfl
  rw [UInt8.toNat_or, UInt8.toNat_and, e7f, e80, hmod, hor]
  omega

theorem and_high_ne {b : UInt8} (h : 0x80 ≤ b.toNat) : b &&& 0x7f ≠ b := by
  intro e
  have hmod : b.toNat &&& 127 = b.toNat % 2 ^ 7 := Nat.and_two_pow_sub_one_eq_mod _ 7
  have e' : (b &&& 0x7f).toNat = b.toNat := congrArg UInt8.toNat e
  rw [UInt8.toNat_and, show (0x7f : UInt8).toNat = 127 from rfl, hmod] at e'
  omega

theorem and_byte (b : UInt8) : b &&& 0xff = b := by
  apply UInt8.toNat_inj.mp
  have hlt := b.toNat_lt
  have hmod : b.toNat &&& 255 = b.toNat % 2 ^ 8 := Nat.and_two_pow_sub_one_eq_mod _ 8
  rw [UInt8.toNat_and, show (0xff : UInt8).toNat = 255 from rfl, hmod]
  omega

end X11
