import Mathlib.Data.List.TakeWhile
import SolarisXorg.Gfx.Proof.GammaInt

/-!
# Round trip of gamma tables

The packing loop and the unpacking loop go through the same states. `Decodes state s tbl` says what
the unpacking loop makes of the rest `s` of a string it reaches in `state`: the rest `tbl` of the
table, and no more. `packLoop_decodes` is the induction over the packing loop: what it stores from
any point on, with the terminator added at the end of the table, decodes to the rest of the table.

* One step each: an integer (`Decodes.single`), the start of a group (`Decodes.start`), a character
  of a group (`Decodes.group`), whose values are the ones packed (`packTinyBytes_spec`).
* The checks on the room left never fail: an integer takes at most five characters, and a group that
  starts has four values (`room`).

`gamma_round_trip` adds the header and the second differences.
-/

namespace Gfx

/-! ## A character of a group -/

/-- The code of up to four values in range. -/
def tinyCode (vals : List Int) : UInt8 :=
  .ofNat (vals.foldl (fun b d => b * 3 + (d + 1).toNat) 0 + baseByte vals.length)

/-- The table's entry for a code holds the values packed. -/
def InDeltaTable (vals : List Int) : Prop :=
  (deltaTable[(tinyCode vals - deltaTableMin).toNat]?).map
    (fun entry => (entry.len, entry.val.take vals.length)) = some (vals.length, vals) ∧
  Printable (tinyCode vals)

instance (vals : List Int) : Decidable (InDeltaTable vals) :=
  inferInstanceAs (Decidable (_ ∧ _))

/-- The values in range. -/
def tinyVals : List Int := [-1, 0, 1]

theorem mem_tinyVals {d : Int} (h : isTiny d = true) : d ∈ tinyVals := by
  simp only [isTiny, Bool.and_eq_true, decide_eq_true_eq] at h
  have : d = -1 ∨ d = 0 ∨ d = 1 := by omega
  simpa [tinyVals] using this

theorem inDeltaTable_four : ∀ a ∈ tinyVals, ∀ b ∈ tinyVals, ∀ c ∈ tinyVals, ∀ d ∈ tinyVals,
    InDeltaTable [a, b, c, d] := by decide

theorem inDeltaTable_two : ∀ a ∈ tinyVals, ∀ b ∈ tinyVals, InDeltaTable [a, b] := by decide

theorem inDeltaTable_one : ∀ a ∈ tinyVals, InDeltaTable [a] := by decide

/-- Unpacking a code where there is room for its values. -/
theorem InDeltaTable.unpack {vals : List Int} (h : InDeltaTable vals) {maxLen : Nat}
    (hlen : vals.length ≤ maxLen) : unpackTinyBytes (tinyCode vals) maxLen = vals := by
  obtain ⟨entry, hentry, hvals⟩ := Option.map_eq_some_iff.1 h.1
  have hlo : ¬tinyCode vals < deltaTableMin := UInt8.not_lt.2 h.2.1
  have hhi : ¬deltaTableMax < tinyCode vals := UInt8.not_lt.2 h.2.2
  simp only [Prod.mk.injEq] at hvals
  simp only [unpackTinyBytes, if_neg hlo, if_neg hhi, hentry, hvals.1, Nat.min_eq_left hlen,
    hvals.2]

/-- The values counted are in range. -/
theorem isTiny_of_mem {tbl : List Int} {d : Int} {n : Nat} (hn : n ≤ goodLen tbl tbl.length)
    (h : d ∈ tbl.take n) : isTiny d = true := by
  have hgood := goodLen_le tbl tbl.length
  have hpre : tbl.take n = ((tbl.take (min tbl.length 4)).takeWhile isTiny).take n := by
    have hpre := List.takeWhile_prefix isTiny (l := tbl.take (min tbl.length 4))
    obtain ⟨l, hl⟩ := hpre
    have htake := congrArg (List.take n) hl
    have hmin : min n (min tbl.length 4) = n := by omega
    rw [List.take_append_of_le_length hn, List.take_take, hmin] at htake
    exact htake.symm
  rw [hpre] at h
  exact List.mem_takeWhile_imp (List.mem_of_mem_take h)

/-- What is packed into one character, and unpacked from it. -/
theorem packTinyBytes_spec (tbl : List Int) : ∃ byte,
    packTinyBytes tbl tbl.length = ((packLen (goodLen tbl tbl.length) : Int), some byte) ∧
    Printable byte ∧ ∀ maxLen, packLen (goodLen tbl tbl.length) ≤ maxLen →
      unpackTinyBytes byte maxLen = tbl.take (packLen (goodLen tbl tbl.length)) := by
  have hgood := goodLen_le tbl tbl.length
  have hpack := packLen_le (goodLen tbl tbl.length)
  have htiny : ∀ d ∈ tbl.take (packLen (goodLen tbl tbl.length)), d ∈ tinyVals := fun d hd =>
    mem_tinyVals (isTiny_of_mem hpack.1 hd)
  have hlen : (tbl.take (packLen (goodLen tbl tbl.length))).length =
      packLen (goodLen tbl tbl.length) := by
    rw [List.length_take]
    omega
  simp only [packTinyBytes, Int.toNat_natCast]
  rw [if_neg (by omega)]
  by_cases h0 : packLen (goodLen tbl tbl.length) = 0
  · rw [h0]
    exact ⟨_, rfl, by decide, fun _ _ => rfl⟩
  · have hin : InDeltaTable (tbl.take (packLen (goodLen tbl tbl.length))) := by
      generalize hvals : tbl.take (packLen (goodLen tbl tbl.length)) = vals at htiny hlen
      have hcases : packLen (goodLen tbl tbl.length) = 1 ∨ packLen (goodLen tbl tbl.length) = 2 ∨
          packLen (goodLen tbl tbl.length) = 4 := by
        revert h0
        unfold packLen
        split <;> simp
      match vals, hlen with
      | [], hlen => exact absurd hlen.symm h0
      | [a], _ => exact inDeltaTable_one a (htiny a (by simp))
      | [a, b], _ => exact inDeltaTable_two a (htiny a (by simp)) b (htiny b (by simp))
      | [_, _, _], hlen => simp only [List.length_cons, List.length_nil] at hlen; omega
      | [a, b, c, d], _ =>
        exact inDeltaTable_four a (htiny a (by simp)) b (htiny b (by simp)) c (htiny c (by simp))
          d (htiny d (by simp))
      | _ :: _ :: _ :: _ :: _ :: _, hlen => simp only [List.length_cons] at hlen; omega
    refine ⟨tinyCode (tbl.take (packLen (goodLen tbl tbl.length))), ?_, hin.2, fun maxLen h => ?_⟩
    · split
      · next h => exact absurd h h0
      · simp only [tinyCode, hlen]
    · exact hin.unpack (by omega)

/-! ## The two loops -/

theorem storeAt_append (pre z vals : List Int) :
    storeAt (pre ++ z) pre.length vals = pre ++ vals ++ z.drop vals.length := by
  simp [storeAt, List.drop_append]

/-- The unpacking loop, reaching `s` in `state`, fills the rest of the table with `tbl`. -/
def Decodes (state : PackTableState) (s : List UInt8) (tbl : List Int) : Prop :=
  ∀ pre z : List Int, z.length = tbl.length →
    unpackLoop (pre.length + tbl.length) s state (pre ++ z) pre.length =
      (pre.length + tbl.length, pre ++ tbl)

theorem Decodes.nil (state : PackTableState) : Decodes state [] [] := by
  intro pre z hz
  rw [List.length_eq_zero_iff.1 hz, unpackLoop]
  rfl

/-- The terminator after a group that ends with the table. -/
theorem Decodes.terminator : Decodes .packTinyGroup [deltaTableBase0X] [] := by
  intro pre z hz
  have hvals : unpackTinyBytes deltaTableBase0X 0 = [] := rfl
  rw [List.length_eq_zero_iff.1 hz, unpackLoop]
  have hstore := storeAt_append pre [] []
  simp only [List.append_nil, List.drop_nil] at hstore
  simp only [List.length_nil, Nat.add_zero, Nat.sub_self, hvals, ne_eq, not_true_eq_false, and_false,
    if_false, List.append_nil, hstore]
  rw [unpackLoop]

theorem Decodes.single {s : List UInt8} {d : Int} {tbl : List Int}
    (h : Decodes .packSingle s tbl) : Decodes .packSingle (packGamInt d ++ s) (d :: tbl) := by
  intro pre z hz
  obtain ⟨hne, hmem⟩ := mem_packIntCore gammaTblInt d
  have hunpack := unpackIntCore_packIntCore gammaTblInt d s
  rw [show packGamInt d = packIntCore gammaTblInt d from rfl]
  cases hstr : packIntCore gammaTblInt d with
  | nil => exact absurd hstr hne
  | cons c str =>
    rw [hstr] at hmem hunpack
    obtain ⟨-, hstart, -⟩ := gammaTblInt_chars c (hmem c (by simp))
    have hrest : (str ++ s).drop ((c :: str).length - 1) = s := by simp
    rw [List.cons_append] at hunpack
    rw [List.cons_append, unpackLoop, if_neg (by simp)]
    simp only [if_neg hstart, unpackGamInt, hunpack, hrest, Option.toList_some, storeAt_append]
    rw [if_neg (by simp)]
    have hrec := h (pre ++ [d]) (z.drop 1) (by simp [hz])
    simp only [List.length_append, List.length_cons, List.length_nil, List.append_assoc] at hrec ⊢
    rw [show pre.length + (tbl.length + 1) = pre.length + (0 + 1) + tbl.length by omega]
    exact hrec

theorem Decodes.start {s : List UInt8} {tbl : List Int} (h0 : tbl ≠ [])
    (h : Decodes .packTinyGroup s tbl) :
    Decodes .packSingle (gammaIntStartPacked :: s) tbl := by
  intro pre z hz
  have hlen : 0 < tbl.length := List.length_pos_of_ne_nil h0
  rw [unpackLoop, if_neg (by omega)]
  simp only [if_true]
  exact h pre z hz

theorem Decodes.group {s : List UInt8} {byte : UInt8} {tbl : List Int} {n : Nat} (h0 : tbl ≠ [])
    (hn : n ≤ tbl.length) (hbyte : ∀ maxLen, n ≤ maxLen → unpackTinyBytes byte maxLen = tbl.take n)
    (h : Decodes (afterGroup n) s (tbl.drop n)) : Decodes .packTinyGroup (byte :: s) tbl := by
  intro pre z hz
  have hlen : 0 < tbl.length := List.length_pos_of_ne_nil h0
  have htake : (tbl.take n).length = n := by rw [List.length_take]; omega
  have hstate : (if (tbl.take n).length ≤ 1 then PackTableState.packSingle else .packTinyGroup) =
      afterGroup n := by
    rw [htake, afterGroup]
    split <;> split <;> first | rfl | omega
  rw [unpackLoop, if_neg (by omega)]
  simp only [Nat.add_sub_cancel_left, hbyte tbl.length hn, hstate, storeAt_append]
  have hrec := h (pre ++ tbl.take n) (z.drop (tbl.take n).length) (by simp [hz, htake])
  rw [List.length_append, htake, List.length_drop,
    show pre.length + n + (tbl.length - n) = pre.length + tbl.length by omega,
    List.append_assoc pre (tbl.take n) (tbl.drop n), List.take_append_drop] at hrec
  rw [htake]
  exact hrec

/-- Room that is enough for the rest of the table. -/
def room (state : PackTableState) (tbl : List Int) : Nat :=
  match state with
  | .packSingle => 6 * tbl.length + 9
  | .packTinyGroup => if goodLen tbl tbl.length = 4 then 6 * tbl.length else 6 * tbl.length + 10

theorem room_le (state : PackTableState) (tbl : List Int) : room state tbl ≤ 6 * tbl.length + 10 := by
  unfold room
  split
  · omega
  · split <;> omega

/-- A character of a group leaves room for what follows it. -/
theorem room_group (tbl : List Int) :
    room (afterGroup (packLen (goodLen tbl tbl.length) : Nat))
        (tbl.drop (packLen (goodLen tbl tbl.length))) + 1 ≤ room .packTinyGroup tbl := by
  have hgood := goodLen_le tbl tbl.length
  have hpack := packLen_le (goodLen tbl tbl.length)
  have hroom := room_le (afterGroup (packLen (goodLen tbl tbl.length) : Nat))
    (tbl.drop (packLen (goodLen tbl tbl.length)))
  rw [List.length_drop] at hroom
  by_cases h0 : goodLen tbl tbl.length = 0
  · simp [h0, packLen, afterGroup, room]
  · rw [room.eq_2]
    split
    · next h4 =>
      rw [h4] at hroom hgood ⊢
      simp only [packLen] at hroom ⊢
      omega
    · omega

/-- What follows the last value: the terminator of a group that did not end. -/
def finalTerm (pw : Int) : List UInt8 := if 2 ≤ pw then [deltaTableBase0X] else []

/-- The packing loop, going on after `out`, stores what decodes to `tbl`, with room to spare. -/
def Packs (strLen : Int) (result : Option (List UInt8 × Int)) (out : List UInt8)
    (state : PackTableState) (tbl : List Int) : Prop :=
  ∃ s pw, result = some (out ++ s, pw) ∧ (∀ c ∈ s, Printable c) ∧ (out ++ s).length + 9 ≤ strLen ∧
    Decodes state (s ++ finalTerm pw) tbl

/-- One round of the loop: the characters `x` are stored. -/
theorem Packs.step {strLen : Int} {result : Option (List UInt8 × Int)} {out x : List UInt8}
    {state state' : PackTableState} {tbl tbl' : List Int}
    (h : Packs strLen result (out ++ x) state' tbl')
    (hx : ∀ c ∈ x, Printable c) (hdec : ∀ s, Decodes state' s tbl' → Decodes state (x ++ s) tbl) :
    Packs strLen result out state tbl := by
  obtain ⟨s, pw, hres, hs, hlen, hd⟩ := h
  refine ⟨x ++ s, pw, ?_, ?_, ?_, ?_⟩
  · rw [hres, List.append_assoc]
  · intro c hc
    rcases List.mem_append.1 hc with hc | hc
    · exact hx c hc
    · exact hs c hc
  · rw [← List.append_assoc]
    exact hlen
  · rw [List.append_assoc]
    exact hdec _ hd

/-- **The packing loop stores what the unpacking loop reads.** The induction is over the rounds of
the loop; `hend` says which state the table can end in. -/
theorem packLoop_decodes {strLen : Int} {tbl : List Int} {state : PackTableState}
    {out : List UInt8} {pw : Int} (hend : tbl = [] → (state = .packTinyGroup ↔ 2 ≤ pw))
    (hbound : ∀ d ∈ tbl, d.natAbs ≤ 26 * 16 ^ 4)
    (hroom : out.length + room state tbl ≤ strLen) :
    Packs strLen (packLoop strLen tbl state out pw) out state tbl := by
  have hpos : ∀ {l : List Int}, ¬l = [] → 0 < l.length := List.length_pos_of_ne_nil
  fun_induction packLoop strLen tbl state out pw with
  | case1 state out pw =>
    refine ⟨[], pw, by simp, by simp, ?_, ?_⟩
    · cases state with
      | packSingle => simpa [room] using hroom
      | packTinyGroup =>
        have hroom' : out.length + 10 ≤ strLen := hroom
        rw [List.append_nil]
        omega
    · cases state with
      | packSingle =>
        have hpw : ¬2 ≤ pw := fun h => PackTableState.noConfusion ((hend rfl).2 h)
        rw [finalTerm, if_neg hpw]
        exact Decodes.nil _
      | packTinyGroup =>
        rw [finalTerm, if_pos ((hend rfl).1 rfl)]
        exact Decodes.terminator
  | case2 tbl state out pw h0 hfull =>
    -- There is room: with four values left in range at least 24 characters' worth.
    have hlen := hpos h0
    have hgood := goodLen_le tbl tbl.length
    unfold room at hroom
    split at hroom
    · omega
    · split at hroom <;> omega
  | case3 tbl out pw h0 hfull tiny hsmall hfull' =>
    have hlen := hpos h0
    rw [room.eq_1] at hroom
    omega
  | case4 tbl out pw h0 hfull tiny hsmall hfull' ih =>
    obtain ⟨d, tbl, rfl⟩ := List.exists_cons_of_ne_nil h0
    have hint := packGamInt_length (hbound d (by simp))
    refine Packs.step (ih ?_ (fun e he => hbound e (.tail _ he)) ?_) ?_ fun s hs => hs.single
    · -- The table ends in this state with one value tried, not two.
      intro hnil
      obtain rfl : tbl = [] := hnil
      have hgood : goodLen [d] 1 ≤ min 1 4 ∧ _ := goodLen_le [d] 1
      have hpack := packLen_le (goodLen [d] 1)
      have hfst : tiny.1 = packLen (goodLen [d] 1) := packTinyBytes_fst [d] 1
      refine ⟨fun h => PackTableState.noConfusion h, fun h => ?_⟩
      omega
    · rw [room.eq_1, List.length_cons] at hroom
      rw [room.eq_1, List.length_append, List.headD_cons, List.tail_cons]
      omega
    · intro c hc
      exact (gammaTblInt_chars c ((mem_packIntCore gammaTblInt d).2 c hc)).1
  | case5 tbl out pw h0 hfull tiny hsmall hfull' =>
    rw [room.eq_1] at hroom
    omega
  | case6 tbl out pw h0 hfull tiny hsmall hfull' ih =>
    have hlen := hpos h0
    have hgood : goodLen tbl tbl.length = 4 := by
      have hgood := goodLen_le tbl tbl.length
      have hpack := packLen_le (goodLen tbl tbl.length)
      have hfst : tiny.1 = packLen (goodLen tbl tbl.length) := packTinyBytes_fst tbl tbl.length
      omega
    refine Packs.step (ih (fun hnil => absurd hnil h0) hbound ?_) ?_ fun s hs => hs.start h0
    · rw [room.eq_1] at hroom
      rw [room.eq_2, if_pos hgood, List.length_append, List.length_singleton]
      omega
    · intro c hc
      rw [List.mem_singleton.1 hc]
      decide
  | case7 tbl out pw h0 hfull tiny hsmall ih =>
    have hgood := goodLen_le tbl tbl.length
    have hpack := packLen_le (goodLen tbl tbl.length)
    obtain ⟨byte, htiny, hbyte, hunpack⟩ := packTinyBytes_spec tbl
    have hfst : tiny.1 = packLen (goodLen tbl tbl.length) := congrArg Prod.fst htiny
    have hsnd : tiny.2.toList = [byte] := congrArg (fun p => p.2.toList) htiny
    rw [hfst, hsnd, Int.toNat_natCast] at ih ⊢
    refine Packs.step (ih ?_ (fun e he => hbound e (List.mem_of_mem_drop he)) ?_) ?_ fun s hs =>
      hs.group h0 (by omega) hunpack
    · intro _
      rw [afterGroup]
      split
      · exact ⟨fun h => PackTableState.noConfusion h, fun h => by omega⟩
      · exact ⟨fun _ => by omega, fun _ => rfl⟩
    · have hgroup := room_group tbl
      rw [List.length_append, List.length_singleton]
      omega
    · intro c hc
      rw [List.mem_singleton.1 hc]
      exact hbyte
  | case8 tbl out pw h0 hfull tiny hneg =>
    have hfst : tiny.1 = packLen (goodLen tbl tbl.length) := packTinyBytes_fst tbl tbl.length
    omega

/-- Packing the whole table. -/
theorem packTblToString_decodes {strLen : Int} {tbl : List Int} (h0 : tbl ≠ [])
    (hbound : ∀ d ∈ tbl, d.natAbs ≤ 26 * 16 ^ 4) (hroom : 6 * tbl.length + 9 ≤ strLen) :
    ∃ s, packTblToString strLen tbl = some s ∧ s ≠ [] ∧ (∀ c ∈ s, Printable c) ∧
      Decodes .packSingle s tbl := by
  have hpacks : Packs strLen (packLoop strLen tbl .packSingle [] 0) [] .packSingle tbl :=
    packLoop_decodes (fun hnil => absurd hnil h0) hbound (by simpa [room] using hroom)
  obtain ⟨s, pw, hloop, hs, hlen, hdec⟩ := hpacks
  rw [List.nil_append] at hloop hlen
  have hterm : (packTinyBytes [] 0).2.toList = [deltaTableBase0X] := rfl
  refine ⟨s ++ finalTerm pw, ?_, ?_, ?_, hdec⟩
  · simp only [packTblToString, hloop, hterm, finalTerm]
    by_cases hpw : 2 ≤ pw
    · rw [if_pos hpw, if_pos hpw, if_neg (by omega), if_neg]
      rw [List.length_append, List.length_singleton]
      omega
    · rw [if_neg hpw, if_neg hpw, if_neg (by omega), List.append_nil]
  · -- The empty string would decode to an empty table.
    intro hnil
    rw [hnil] at hdec
    have hempty := congrArg Prod.fst (hdec [] tbl rfl)
    rw [unpackLoop] at hempty
    have hpos := List.length_pos_of_ne_nil h0
    simp only [List.length_nil] at hempty
    omega
  · intro c hc
    rcases List.mem_append.1 hc with hc | hc
    · exact hs c hc
    · unfold finalTerm at hc
      split at hc
      · rw [List.mem_singleton.1 hc]
        decide
      · exact absurd hc List.not_mem_nil

/-! ## Gamma tables -/

theorem length_secondDiffs (gtData : List UInt16) (lastVal lastDel : Int) :
    (secondDiffs lastVal lastDel gtData).length = gtData.length := by
  induction gtData generalizing lastVal lastDel with
  | nil => rfl
  | cons v gtData ih => simp [secondDiffs, ih]

/-- Second differences of 16-bit values fit in five characters. -/
theorem natAbs_secondDiffs {gtData : List UInt16} {lastVal lastDel : Int}
    (hval : 0 ≤ lastVal ∧ lastVal < 2 ^ 16) (hdel : lastDel.natAbs < 2 ^ 16) :
    ∀ d ∈ secondDiffs lastVal lastDel gtData, d.natAbs ≤ 26 * 16 ^ 4 := by
  induction gtData generalizing lastVal lastDel with
  | nil => exact fun d hd => absurd hd List.not_mem_nil
  | cons v gtData ih =>
    have hv := v.toNat_lt
    intro d hd
    rcases List.mem_cons.1 hd with rfl | hd
    · omega
    · exact ih (by omega) (by omega) d hd

/-- Adding up the second differences gives the table back. -/
theorem addUp_secondDiffs (gtData : List UInt16) (lastVal lastDel : Int) :
    addUp lastVal lastDel (secondDiffs lastVal lastDel gtData) = gtData := by
  induction gtData generalizing lastVal lastDel with
  | nil => rfl
  | cons v gtData ih =>
    have hv := v.toNat_lt
    have hdel : (v.toNat : Int) - lastVal - lastDel + lastDel = v.toNat - lastVal := by omega
    have hval : (v.toNat : Int) - lastVal + lastVal = v.toNat := by omega
    have hcast : UInt16.ofInt (v.toNat : Int) = v := by
      have hmod : ((v.toNat : Int) % 2 ^ 16).toNat = v.toNat := by omega
      rw [UInt16.ofInt, hmod, UInt16.ofNat_toNat]
    simp only [secondDiffs, addUp, hdel, hval, ih, hcast]

theorem takeWhile_ne_zero {s : List UInt8} (h : ∀ c ∈ s, Printable c) :
    s.takeWhile (· ≠ 0) = s := by
  rw [List.takeWhile_eq_self_iff]
  intro c hc
  have hlo := (h c hc).1
  simp only [decide_eq_true_eq]
  rintro rfl
  exact absurd hlo (by decide)

/-- **Gamma table round trip.** Every table of at least one value, small enough for the size of the
string to be an `int`, is packed, into printable characters, and unpacked again. -/
theorem gamma_round_trip (gtData : List UInt16) (hpos : 1 ≤ gtData.length)
    (hsize : gtData.length * 8 + 20 < 2 ^ 31) :
    ∃ rc str, gfxPackGammaString16 gtData = (rc, some str) ∧ 0 < rc ∧ rc = str.length ∧
      (∀ c ∈ str, Printable c) ∧
      gfxUnpackGammaString16 str gtData.length = some ((gtData.length : Int), gtData) := by
  have hlen := length_secondDiffs gtData 0 0
  have hne : secondDiffs 0 0 gtData ≠ [] := List.ne_nil_of_length_pos (by omega)
  have hheader : (packGamInt gtData.length).length ≤ 6 + 1 := packGamInt_length (by
    rw [Int.natAbs_natCast]
    omega)
  have hG : gammaHeader.length = 3 := by decide
  have hroom : 6 * (secondDiffs 0 0 gtData).length + 9 ≤
      (gtData.length * 8 + 20 : Int) - (gammaHeader ++ packGamInt gtData.length).length := by
    rw [List.length_append, hlen, hG]
    omega
  obtain ⟨s, hs, hsne, hsp, hdec⟩ := packTblToString_decodes hne
    (natAbs_secondDiffs (by decide) (by decide)) hroom
  have hprint : ∀ c ∈ gammaHeader ++ packGamInt gtData.length ++ s, Printable c := by
    intro c hc
    rcases List.mem_append.1 hc with hc | hc
    · rcases List.mem_append.1 hc with hc | hc
      · have hall : gammaHeader.all (fun c => decide (Printable c)) = true := by decide +kernel
        exact of_decide_eq_true (List.all_eq_true.1 hall c hc)
      · exact (gammaTblInt_chars c ((mem_packIntCore gammaTblInt _).2 c hc)).1
    · exact hsp c hc
  have hlen0 : s.length ≠ 0 := fun h => hsne (List.length_eq_zero_iff.1 h)
  refine ⟨(gammaHeader ++ packGamInt gtData.length).length + s.length,
    gammaHeader ++ packGamInt gtData.length ++ s, ?_, ?_, ?_, hprint, ?_⟩
  · simp only [gfxPackGammaString16, packGammaString, hlen, hs, if_neg hlen0]
    rw [takeWhile_ne_zero hprint]
  · omega
  · rw [← Int.natCast_add, ← List.length_append]
  · have hunpack : unpackGamInt (packGamInt gtData.length ++ s) =
        ((packGamInt gtData.length).length, some (gtData.length : Int)) :=
      unpackIntCore_packIntCore gammaTblInt gtData.length s
    obtain ⟨rc, hrc⟩ : ∃ rc, (packGamInt gtData.length).length = rc + 1 :=
      Nat.exists_eq_add_one.2 (List.length_pos_of_ne_nil (mem_packIntCore gammaTblInt _).1)
    have hdiffs : unpackStringToTbl s (List.replicate gtData.length 0) =
        (gtData.length, secondDiffs 0 0 gtData) := by
      have hd := hdec [] (List.replicate gtData.length 0) (by simp [hlen])
      rw [List.length_nil, Nat.zero_add, hlen, List.nil_append, List.nil_append] at hd
      rw [unpackStringToTbl, List.length_replicate]
      exact hd
    have hdrop : (gammaHeader ++ (packGamInt gtData.length ++ s)).drop
        (gammaHeader.length + (rc + 1)) = s := by
      rw [← List.append_assoc, ← hrc, ← List.length_append, List.drop_left]
    rw [List.append_assoc, gfxUnpackGammaString16, List.take_left, List.drop_left, hunpack, hrc]
    simp only [ne_eq, not_true_eq_false, if_false, Int.toNat_natCast, hdrop, hdiffs, hlen, lt_irrefl]
    rw [← hlen, List.take_length, addUp_secondDiffs, hlen]

/-- A table whose differences are not in range, and then are. -/
theorem gamma_round_trip_six :
    1 ≤ [0, 257, 514, 771, 1028, 65535].length ∧
      ∃ rc str, gfxPackGammaString16 [0, 257, 514, 771, 1028, 65535] = (rc, some str) ∧ 0 < rc ∧
        rc = str.length ∧ (∀ c ∈ str, Printable c) ∧
        gfxUnpackGammaString16 str 6 = some (6, [0, 257, 514, 771, 1028, 65535]) :=
  ⟨by decide, gamma_round_trip [0, 257, 514, 771, 1028, 65535] (by decide) (by decide)⟩

end Gfx
