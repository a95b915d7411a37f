import SolarisXorg.Drm.Idr

/-!
# The free ranges of an idr

`Tiles a rs b`: the ranges `rs` follow one another from `a` to `b`. `RangeInv cnt r`: in the range
`r` every id below the high-water mark is used or free, once, and no other id is either; `cnt` is
the multiplicity of an id among the used ones. The lemmas here say what taking an id
(`idrTakeId_some`, `idrTakeId_none`), giving one back (`idrPutId_spec`) and splitting a range
(`frEnsure_spec`) do to both.
-/

namespace Drm

/-! ## Consecutive ranges -/

/-- The ranges follow one another from `a` to `b`. -/
def Tiles : Nat → List FreeIdRange → Nat → Prop
  | a, [], b => a = b
  | a, r :: rs, b => r.start = a ∧ Tiles r.stop rs b

theorem Tiles.append {xs ys : List FreeIdRange} {a b c : Nat} (hx : Tiles a xs b)
    (hy : Tiles b ys c) : Tiles a (xs ++ ys) c := by
  induction xs generalizing a with
  | nil => cases hx; exact hy
  | cons r xs ih => exact ⟨hx.1, ih hx.2⟩

theorem Tiles.split {xs ys : List FreeIdRange} {a c : Nat} (h : Tiles a (xs ++ ys) c) :
    ∃ b, Tiles a xs b ∧ Tiles b ys c := by
  induction xs generalizing a with
  | nil => exact ⟨a, rfl, h⟩
  | cons r xs ih =>
    obtain ⟨b, h1, h2⟩ := ih h.2
    exact ⟨b, ⟨h.1, h1⟩, h2⟩

/-- What one range owes to the used ids, of which `cnt` counts the occurrences. -/
structure RangeInv (cnt : Nat → Nat) (r : FreeIdRange) : Prop where
  low : r.start ≤ r.minUnusedId
  high : r.minUnusedId ≤ r.stop
  mem : ∀ id ∈ r.freeIds, r.start ≤ id ∧ id < r.stop
  once : ∀ id, r.start ≤ id → id < r.stop →
    cnt id + r.freeIds.count id = if id < r.minUnusedId then 1 else 0

/-- Only the counts inside the range matter. -/
theorem RangeInv.congr {cnt cnt' : Nat → Nat} {r : FreeIdRange} (h : RangeInv cnt r)
    (hc : ∀ id, r.start ≤ id → id < r.stop → cnt' id = cnt id) : RangeInv cnt' r where
  low := h.low
  high := h.high
  mem := h.mem
  once id h1 h2 := by rw [hc id h1 h2]; exact h.once id h1 h2

/-- A range whose ids are all as the high-water mark says, with nothing on the free list. -/
theorem RangeInv.le {cnt : Nat → Nat} {r : FreeIdRange} (h : RangeInv cnt r) : r.start ≤ r.stop :=
  Nat.le_trans h.low h.high

theorem RangeInv.mem_lt {cnt : Nat → Nat} {r : FreeIdRange} (h : RangeInv cnt r) {id : Nat}
    (hid : id ∈ r.freeIds) : r.start ≤ id ∧ id < r.minUnusedId := by
  obtain ⟨h1, h2⟩ := h.mem id hid
  have := h.once id h1 h2
  have hpos : 0 < r.freeIds.count id := List.count_pos_iff.mpr hid
  split at this
  · exact ⟨h1, by assumption⟩
  · omega

/-- The ranges of a tiling start and end in order. -/
theorem Tiles.le {cnt : Nat → Nat} {rs : List FreeIdRange} {a b : Nat} (h : Tiles a rs b)
    (hr : ∀ r ∈ rs, RangeInv cnt r) : a ≤ b := by
  induction rs generalizing a with
  | nil => exact Nat.le_of_eq h
  | cons r rs ih =>
    have h1 := ih h.2 fun r' hr' => hr r' (.tail _ hr')
    have h2 := (hr r (.head _)).le
    have h3 := h.1
    omega

/-- Every range of a tiling of `[a, b)` lies in it. -/
theorem Tiles.mem_bounds {cnt : Nat → Nat} {rs : List FreeIdRange} {a b : Nat} (h : Tiles a rs b)
    (hr : ∀ r ∈ rs, RangeInv cnt r) {r : FreeIdRange} (hm : r ∈ rs) : a ≤ r.start ∧ r.stop ≤ b := by
  induction rs generalizing a with
  | nil => simp at hm
  | cons r' rs ih =>
    have hrs : ∀ r ∈ rs, RangeInv cnt r := fun r h => hr r (.tail _ h)
    have h1 := (hr r' (.head _)).le
    have h2 := h.2.le hrs
    have h3 := h.1
    rcases List.mem_cons.mp hm with rfl | hm
    · exact ⟨by omega, h2⟩
    · have := ih h.2 hrs hm
      omega

/-! ## Taking an id -/

theorem idrGetFreeIdInRange_some {cnt : Nat → Nat} {r r' : FreeIdRange} {id : Nat}
    (h : RangeInv cnt r) (hg : idrGetFreeIdInRange r = some (id, r')) :
    r.start ≤ id ∧ id < r.stop ∧ cnt id = 0 ∧ r'.start = r.start ∧ r'.stop = r.stop ∧
      RangeInv (Function.update cnt id 1) r' := by
  unfold idrGetFreeIdInRange at hg
  split at hg
  · rename_i i ids hids
    cases hg
    have hm : id ∈ r.freeIds := by rw [hids]; exact .head _
    obtain ⟨h1, h2⟩ := h.mem id hm
    obtain ⟨-, h3⟩ := h.mem_lt hm
    have ho := h.once id h1 h2
    rw [hids, List.count_cons_self, if_pos h3] at ho
    refine ⟨h1, h2, by omega, rfl, rfl, h.low, h.high, fun x hx => h.mem x ?_, fun x hx1 hx2 => ?_⟩
    · rw [hids]; exact .tail _ hx
    · have hox := h.once x hx1 hx2
      rw [hids] at hox
      by_cases hx : x = id
      · subst hx
        simp only [Function.update_self]
        show 1 + ids.count x = if x < r.minUnusedId then 1 else 0
        rw [if_pos h3]
        omega
      · rw [Function.update_of_ne hx]
        rw [List.count_cons_of_ne (fun e => hx e.symm)] at hox
        exact hox
  · rename_i hids
    split at hg
    · cases hg
    · rename_i hf
      cases hg
      simp only [frIsfull, decide_eq_true_eq, Nat.not_le] at hf
      have ho := h.once r.minUnusedId h.low hf
      rw [hids, List.count_nil, if_neg (Nat.lt_irrefl _)] at ho
      refine ⟨h.low, hf, by omega, rfl, rfl, ?_, hf, h.mem, fun x hx1 hx2 => ?_⟩
      · show r.start ≤ r.minUnusedId + 1
        have := h.low
        omega
      · have hox := h.once x hx1 hx2
        show _ + r.freeIds.count x = if x < r.minUnusedId + 1 then 1 else 0
        rw [hids, List.count_nil] at hox ⊢
        by_cases hx : x = r.minUnusedId
        · subst hx
          simp
        · rw [Function.update_of_ne hx, hox]
          exact if_congr (by omega) rfl rfl

theorem idrGetFreeIdInRange_none {cnt : Nat → Nat} {r : FreeIdRange} (h : RangeInv cnt r)
    (hg : idrGetFreeIdInRange r = none) {id : Nat} (h1 : r.start ≤ id) (h2 : id < r.stop) :
    cnt id = 1 := by
  unfold idrGetFreeIdInRange at hg
  split at hg
  · cases hg
  · rename_i hids
    split at hg
    · rename_i hf
      simp only [frIsfull, decide_eq_true_eq] at hf
      have ho := h.once id h1 h2
      rw [hids, List.count_nil, if_pos (by omega)] at ho
      exact ho
    · cases hg

/-- An id taken from consecutive ranges was not used, and is accounted for afterwards. -/
theorem idrTakeId_some {cnt : Nat → Nat} {rs rs' : List FreeIdRange} {a b id : Nat}
    (ht : Tiles a rs b) (hr : ∀ r ∈ rs, RangeInv cnt r) (hg : idrTakeId rs = some (id, rs')) :
    a ≤ id ∧ id < b ∧ cnt id = 0 ∧ Tiles a rs' b ∧ rs'.map (·.start) = rs.map (·.start) ∧
      ∀ r ∈ rs', RangeInv (Function.update cnt id 1) r := by
  induction rs generalizing a id rs' with
  | nil => cases hg
  | cons r rs ih =>
    have hrs : ∀ r ∈ rs, RangeInv cnt r := fun r h => hr r (.tail _ h)
    have hle := ht.2.le hrs
    have hst := ht.1
    have hr0 := hr r (.head _)
    have hsp := hr0.le
    unfold idrTakeId at hg
    split at hg
    · rename_i i r' hi
      cases hg
      obtain ⟨h1, h2, h3, h4, h5, h6⟩ := idrGetFreeIdInRange_some hr0 hi
      refine ⟨by omega, by omega, h3, ⟨h4.trans hst, h5 ▸ ht.2⟩, by simp [h4], fun x hx => ?_⟩
      rcases List.mem_cons.mp hx with rfl | hx
      · exact h6
      · have hb := ht.2.mem_bounds hrs hx
        exact (hrs x hx).congr fun y hy1 hy2 => Function.update_of_ne (by omega) _ _
    · rename_i hi
      cases hrec : idrTakeId rs with
      | none => rw [hrec] at hg; cases hg
      | some q =>
        rw [hrec] at hg
        cases hg
        obtain ⟨h1, h2, h3, h4, h5, h6⟩ := ih ht.2 hrs hrec
        refine ⟨by omega, h2, h3, ⟨hst, h4⟩, by simp [h5], fun x hx => ?_⟩
        rcases List.mem_cons.mp hx with rfl | hx
        · exact hr0.congr fun y hy1 hy2 => Function.update_of_ne (by omega) _ _
        · exact h6 x hx

/-- Where no id can be taken, all ids are used. -/
theorem idrTakeId_none {cnt : Nat → Nat} {rs : List FreeIdRange} {a b : Nat} (ht : Tiles a rs b)
    (hr : ∀ r ∈ rs, RangeInv cnt r) (hg : idrTakeId rs = none) {id : Nat} (h1 : a ≤ id)
    (h2 : id < b) : cnt id = 1 := by
  induction rs generalizing a with
  | nil => have : a = b := ht; omega
  | cons r rs ih =>
    have hrs : ∀ r ∈ rs, RangeInv cnt r := fun r h => hr r (.tail _ h)
    have hst := ht.1
    unfold idrTakeId at hg
    split at hg
    · cases hg
    · rename_i hi
      rcases Nat.lt_or_ge id r.stop with hlt | hge
      · exact idrGetFreeIdInRange_none (hr r (.head _)) hi (by omega) hlt
      · exact ih ht.2 hrs (by simpa using hg) hge

/-! ## Giving an id back -/

/-- The walk of `idr_remove` ends at the range of the id. -/
theorem idrPutId_spec {cnt : Nat → Nat} {rs : List FreeIdRange} {a b id : Nat}
    (ht : Tiles a rs b) (hr : ∀ r ∈ rs, RangeInv cnt r) (h1 : a ≤ id) (h2 : id < b)
    (hu : cnt id = 1) :
    ∃ rs', idrPutId id rs = some rs' ∧ Tiles a rs' b ∧
      rs'.map (·.start) = rs.map (·.start) ∧
      ∀ r ∈ rs', RangeInv (Function.update cnt id 0) r := by
  induction rs generalizing a with
  | nil => have : a = b := ht; omega
  | cons r rs ih =>
    have hrs : ∀ r ∈ rs, RangeInv cnt r := fun r h => hr r (.tail _ h)
    have hr0 := hr r (.head _)
    have hst := ht.1
    unfold idrPutId
    split
    · rename_i hle
      obtain ⟨rs', h3, h4, h5, h6⟩ := ih ht.2 hrs hle
      refine ⟨r :: rs', by rw [h3]; rfl, ⟨hst, h4⟩, by simp [h5], fun x hx => ?_⟩
      rcases List.mem_cons.mp hx with rfl | hx
      · exact hr0.congr fun y hy1 hy2 => Function.update_of_ne (by omega) _ _
      · exact h6 x hx
    · rename_i hnl
      have hlt : id < r.stop := Nat.lt_of_not_le hnl
      refine ⟨_, rfl, ⟨hst, ht.2⟩, rfl, fun x hx => ?_⟩
      rcases List.mem_cons.mp hx with rfl | hx
      · refine ⟨hr0.low, hr0.high, fun y hy => ?_, fun y hy1 hy2 => ?_⟩
        · rcases List.mem_cons.mp hy with rfl | hy
          · exact ⟨hst ▸ h1, hlt⟩
          · exact hr0.mem y hy
        · have ho : cnt y + r.freeIds.count y = _ := hr0.once y hy1 hy2
          show _ + (id :: r.freeIds).count y = if y < r.minUnusedId then 1 else 0
          by_cases hy : y = id
          · subst hy
            rw [Function.update_self, List.count_cons_self]
            omega
          · rw [Function.update_of_ne hy, List.count_cons_of_ne (fun e => hy e.symm)]
            exact ho
      · have hb := ht.2.mem_bounds hrs hx
        exact (hrs x hx).congr fun y hy1 hy2 => Function.update_of_ne (by omega) _ _

/-! ## Splitting a range -/

theorem frMoveIds_fst (start : Nat) (ids moved : List Nat) :
    (frMoveIds start ids moved).1 = ids.filter (· < start) := by
  induction ids generalizing moved with
  | nil => rfl
  | cons id ids ih =>
    unfold frMoveIds
    split
    · rename_i h
      simp [h, ih]
    · rename_i h
      simp [h, ih]

/-- The moved ids come in reverse order, before those that were there. -/
theorem frMoveIds_snd (start : Nat) (ids moved : List Nat) :
    (frMoveIds start ids moved).2 = (ids.filter (start ≤ ·)).reverse ++ moved := by
  induction ids generalizing moved with
  | nil => rfl
  | cons id ids ih =>
    unfold frMoveIds
    split
    · rename_i h
      simp [Nat.not_le.mpr h, ih]
    · rename_i h
      simp [Nat.le_of_not_lt h, ih]

/-- Both halves of a split range keep the account of their ids. -/
theorem frSplit_spec {cnt : Nat → Nat} {prev : FreeIdRange} (next : Option FreeIdRange)
    (start : Nat) (h : RangeInv cnt prev) (h1 : prev.start ≤ start) (h2 : start ≤ prev.stop)
    (hn : prev.stop = (next.map (·.start)).getD idMax) :
    let p := frSplit prev next start
    p.1.start = prev.start ∧ p.1.stop = start ∧ p.2.start = start ∧ p.2.stop = prev.stop ∧
      RangeInv cnt p.1 ∧ RangeInv cnt p.2 := by
  -- before ids are moved, the new range ends where the range it was split from ended
  have hnew : frLinked start next =
      { start := start, stop := prev.stop, minUnusedId := start, freeIds := [] } := by
    cases next <;> simp_all [frLinked, frNew]
  have hhigh := h.high
  have hlow := h.low
  simp only [frSplit, hnew]
  by_cases hf : start ≤ prev.minUnusedId
  · rw [if_pos (by simpa [frIsfull] using hf)]
    refine ⟨rfl, rfl, rfl, rfl, ⟨h1, Nat.le_refl _, fun id hid => ?_, fun id hi1 hi2 => ?_⟩,
      ⟨hf, hhigh, fun id hid => ?_, fun id hi1 hi2 => ?_⟩⟩
    · simp only [frMoveIds_fst, List.mem_filter, decide_eq_true_eq] at hid
      exact ⟨(h.mem id hid.1).1, hid.2⟩
    · have hlt : id < start := hi2
      have ho := h.once id hi1 (by omega)
      simp only [frMoveIds_fst]
      rw [List.count_filter (by simpa using hlt), if_pos hlt, ho, if_pos (by omega)]
    · simp only [frMoveIds_snd, List.append_nil, List.mem_reverse, List.mem_filter,
        decide_eq_true_eq] at hid
      exact ⟨hid.2, (h.mem id hid.1).2⟩
    · have hge : start ≤ id := hi1
      have ho := h.once id (by omega) hi2
      simp only [frMoveIds_snd, List.append_nil, List.count_reverse]
      rw [List.count_filter (by simpa using hge)]
      exact ho
  · rw [if_neg (by simpa [frIsfull] using hf)]
    refine ⟨rfl, rfl, rfl, rfl, ⟨hlow, by simp only; omega, fun id hid => ?_, fun id hi1 hi2 => ?_⟩,
      ⟨Nat.le_refl _, h2, by simp, fun id hi1 hi2 => ?_⟩⟩
    · have := h.mem_lt hid
      simp only
      omega
    · have hlt : id < start := hi2
      exact h.once id hi1 (by omega)
    · have hge : start ≤ id := hi1
      have ho := h.once id (by omega) hi2
      rw [if_neg (by omega)] at ho
      simp only [List.count_nil]
      rw [if_neg (by omega)]
      omega

/-- `fr_insert` at a start no range has: a tiling with a range that starts there. -/
theorem frInsert_spec {cnt : Nat → Nat} {rs : List FreeIdRange} {a start : Nat}
    (hne : rs ≠ []) (ht : Tiles a rs idMax) (hs : (rs.map (·.start)).Pairwise (· < ·))
    (hr : ∀ r ∈ rs, RangeInv cnt r) (h1 : a < start) (h2 : start ≤ idMax)
    (hno : ∀ r ∈ rs, r.start ≠ start) :
    ∃ rs' k, frInsert rs start = some (rs', k) ∧ Tiles a (rs'.take k) start ∧
      Tiles start (rs'.drop k) idMax ∧ (rs'.map (·.start)).Pairwise (· < ·) ∧
      (∀ r ∈ rs', RangeInv cnt r) ∧ (∀ x ∈ rs'.map (·.start), x ∈ rs.map (·.start) ∨ x = start) := by
  induction rs generalizing a with
  | nil => exact absurd rfl hne
  | cons prev rest ih =>
    have hp := hr prev (.head _)
    have hst := ht.1
    cases rest with
    | nil =>
      have hstop : prev.stop = idMax := ht.2
      obtain ⟨e1, e2, e3, e4, e5, e6⟩ :=
        frSplit_spec none start hp (by omega) (by omega) hstop
      refine ⟨_, 1, rfl, ⟨e1.trans hst, e2⟩, ⟨e3, e4.trans hstop⟩, ?_, ?_, ?_⟩
      · simp [e1, e3]; omega
      · intro r hm
        simp only [List.mem_cons, List.not_mem_nil, or_false] at hm
        rcases hm with rfl | rfl
        · exact e5
        · exact e6
      · simp [e1, e3]
    | cons next rest =>
      have hnx : next.start = prev.stop := ht.2.1
      have hrs : ∀ r ∈ next :: rest, RangeInv cnt r := fun r h => hr r (.tail _ h)
      rw [List.map_cons, List.pairwise_cons] at hs
      unfold frInsert
      split
      · rename_i hlt
        obtain ⟨rs', k, e1, e2, e3, e4, e5, e6⟩ := ih (by simp) (hnx ▸ ht.2) hs.2 hrs
          (by omega) fun r h => hno r (.tail _ h)
        refine ⟨prev :: rs', k + 1, by rw [e1]; rfl, ⟨hst, hnx ▸ e2⟩, e3, ?_, ?_, ?_⟩
        · rw [List.map_cons, List.pairwise_cons]
          refine ⟨fun x hx => ?_, e4⟩
          rcases e6 x hx with hx | rfl
          · exact hs.1 x hx
          · omega
        · intro r hm
          rcases List.mem_cons.mp hm with rfl | hm
          · exact hp
          · exact e5 r hm
        · intro x hx
          rw [List.map_cons, List.mem_cons] at hx
          rcases hx with rfl | hx
          · exact .inl (by simp)
          · exact (e6 x hx).imp (fun h => by simp only [List.map_cons, List.mem_cons] at h ⊢; tauto) id
      · rename_i hnl
        have hgt : start < next.start := by
          have := hno next (by simp)
          omega
        obtain ⟨e1, e2, e3, e4, e5, e6⟩ :=
          frSplit_spec (some next) start hp (by omega) (by omega) hnx.symm
        refine ⟨_, 1, rfl, ⟨e1.trans hst, e2⟩, ⟨e3, e4 ▸ ht.2⟩, ?_, ?_, ?_⟩
        · have h3 := hs.2
          rw [List.map_cons, List.pairwise_cons] at h3
          simp only [List.map_cons, e1, e3, List.pairwise_cons]
          refine ⟨fun x hx => ?_, fun x hx => ?_, h3.1, h3.2⟩
          · rcases List.mem_cons.mp hx with rfl | hx
            · omega
            · exact hs.1 x hx
          · rcases List.mem_cons.mp hx with rfl | hx
            · exact hgt
            · exact Nat.lt_trans hgt (h3.1 x hx)
        · intro r hm
          rcases List.mem_cons.mp hm with rfl | hm
          · exact e5
          · rcases List.mem_cons.mp hm with rfl | hm
            · exact e6
            · exact hrs r hm
        · intro x hx
          simp only [List.map_cons, e1, e3, List.mem_cons] at hx ⊢
          tauto

/-- After `fr_get` and, where it fails, `fr_insert`, the ranges are cut at `start`. -/
theorem frEnsure_spec {cnt : Nat → Nat} {rs : List FreeIdRange} {start : Nat}
    (ht : Tiles 0 rs idMax) (hs : (rs.map (·.start)).Pairwise (· < ·))
    (hr : ∀ r ∈ rs, RangeInv cnt r) (h2 : start ≤ idMax) :
    ∃ rs' k, frEnsure rs start = some (rs', k) ∧ Tiles 0 (rs'.take k) start ∧
      Tiles start (rs'.drop k) idMax ∧ (rs'.map (·.start)).Pairwise (· < ·) ∧
      ∀ r ∈ rs', RangeInv cnt r := by
  unfold frEnsure frGet
  cases hg : rs.findIdx? (·.start == start) with
  | some k =>
    rw [List.findIdx?_eq_some_iff_getElem] at hg
    obtain ⟨hk, he, -⟩ := hg
    have hcut := ht
    rw [← List.take_append_drop k rs] at hcut
    obtain ⟨b, hb1, hb2⟩ := hcut.split
    have hb : b = start := by
      rw [List.drop_eq_getElem_cons hk] at hb2
      exact hb2.1.symm.trans (by simpa using he)
    exact ⟨rs, k, rfl, hb ▸ hb1, hb ▸ hb2, hs, hr⟩
  | none =>
    rw [List.findIdx?_eq_none_iff] at hg
    have hno : ∀ r ∈ rs, r.start ≠ start := fun r hm => by simpa using hg r hm
    cases rs with
    | nil => cases ht
    | cons r rest =>
      have hpos : 0 < start := by
        have := hno r (.head _)
        have := ht.1
        omega
      obtain ⟨rs', k, e1, e2, e3, e4, e5, -⟩ := frInsert_spec (by simp) ht hs hr hpos h2 hno
      exact ⟨rs', k, e1, e2, e3, e4, e5⟩

end Drm
