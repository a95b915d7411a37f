import SolarisXorg.Drm.Proof.GemTables

/-!
# Reference counts of GEM objects

`RefInv s H held created` is the bookkeeping of references: `H` is who has a handle to what, `held`
how many references callers hold. It is stated for any `H`, since `drm_gem_release` drops the
references of all handles of a file before it clears the file's table. The five ways in which the
code moves a reference keep it: `reference_inv`, `unreference_inv`, `handleReference_inv`,
`handleUnreference_inv` and `name_inv`.
-/

namespace Drm

/-! ## Handles of an object -/

/-- The handles that lead to an object. -/
def handlesOf (H : Nat × UInt32 → Option Nat) (o : Nat) : Set (Nat × UInt32) := {p | H p = some o}

section
variable {H : Nat × UInt32 → Option Nat} (hfin : {p | H p ≠ none}.Finite) {o : Nat}
  {p : Nat × UInt32}
include hfin

theorem handlesOf_finite (o : Nat) : (handlesOf H o).Finite :=
  hfin.subset fun p hp => by
    have : H p = some o := hp
    simp [this]

theorem handlesOf_add (hp : H p = none) :
    (handlesOf (Function.update H p (some o)) o).ncard = (handlesOf H o).ncard + 1 := by
  have hset : handlesOf (Function.update H p (some o)) o = insert p (handlesOf H o) := by
    ext q
    by_cases hq : q = p
    · subst hq
      simp [handlesOf]
    · simp [handlesOf, hq]
  rw [hset, Set.ncard_insert_of_notMem _ (handlesOf_finite hfin o)]
  simp [handlesOf, hp]

theorem handlesOf_drop (hp : H p = some o) :
    (handlesOf (Function.update H p none) o).ncard + 1 = (handlesOf H o).ncard := by
  have hset : handlesOf (Function.update H p none) o = handlesOf H o \ {p} := by
    ext q
    by_cases hq : q = p
    · subst hq
      simp [handlesOf]
    · simp [handlesOf, hq]
  have hmem : p ∈ handlesOf H o := hp
  rw [hset, Set.ncard_sdiff_singleton_add_one hmem (handlesOf_finite hfin o)]

end

/-- A change at one handle is none for the objects it does not lead to. -/
theorem handlesOf_update_ne {H : Nat × UInt32 → Option Nat} {o : Nat} {p : Nat × UInt32}
    {v : Option Nat} (hold : H p ≠ some o) (hnew : v ≠ some o) :
    handlesOf (Function.update H p v) o = handlesOf H o := by
  ext q
  by_cases hq : q = p
  · subst hq
    simp [handlesOf, hold, hnew]
  · simp [handlesOf, hq]

theorem update_finite {H : Nat × UInt32 → Option Nat} (hfin : {p | H p ≠ none}.Finite)
    (p : Nat × UInt32) (v : Option Nat) : {q | Function.update H p v q ≠ none}.Finite := by
  apply (hfin.insert p).subset
  intro q hq
  by_cases hqp : q = p
  · exact .inl hqp
  · have hq : Function.update H p v q ≠ none := hq
    rw [Function.update_of_ne hqp] at hq
    exact .inr hq

/-! ## The bookkeeping -/

/-- Who refers to an object, and what the object says about it. -/
structure RefInv (s : Gem) (H : Nat × UInt32 → Option Nat) (held : Nat → Nat)
    (created : Nat → Bool) : Prop where
  finite : {p | H p ≠ none}.Finite
  handles : ∀ o, (s.object o).handleCount.toNat = (handlesOf H o).ncard
  refs : ∀ o, (s.object o).refcount.toNat =
    (handlesOf H o).ncard + (if (s.object o).name = 0 then 0 else 1) + held o
  name : ∀ o n, idrListFind s.objectNameIdr n = some o ↔ (s.object o).name = n ∧ n ≠ 0
  named : ∀ o, (s.object o).name ≠ 0 → 0 < (handlesOf H o).ncard
  frees : ∀ o, (s.object o).frees = if created o = true ∧ (s.object o).refcount = 0 then 1 else 0
  fresh : ∀ o, created o = false → (s.object o).refcount = 0
  names : s.objectNameIdr.Ok s.ids

/-- The files and counters are not read. -/
theorem RefInv.congr {s s' : Gem} {H : Nat × UInt32 → Option Nat} {held : Nat → Nat}
    {created : Nat → Bool} (h : RefInv s H held created) (hobject : s'.object = s.object)
    (hnames : s'.objectNameIdr = s.objectNameIdr) (hok : s'.objectNameIdr.Ok s'.ids) :
    RefInv s' H held created := by
  refine ⟨h.finite, ?_, ?_, ?_, ?_, ?_, ?_, hok⟩
  · rw [hobject]
    exact h.handles
  · rw [hobject]
    exact h.refs
  · rw [hobject, hnames]
    exact h.name
  · rw [hobject]
    exact h.named
  · rw [hobject]
    exact h.frees
  · rw [hobject]
    exact h.fresh

theorem toNat_add_one {x : UInt32} (h : x.toNat + 1 < 2 ^ 32) : (x + 1).toNat = x.toNat + 1 := by
  rw [UInt32.toNat_add, UInt32.toNat_one]
  exact Nat.mod_eq_of_lt h

theorem toNat_sub_one {x : UInt32} (h : x.toNat ≠ 0) : (x - 1).toNat = x.toNat - 1 := by
  rw [UInt32.toNat_sub_of_le]
  · rfl
  · rw [UInt32.le_iff_toNat_le, UInt32.toNat_one]
    omega

theorem toNat_eq_zero {x : UInt32} : x.toNat = 0 ↔ x = 0 :=
  ⟨fun h => UInt32.toNat_inj.1 h, fun h => by rw [h]; rfl⟩

theorem modifyObject_self (s : Gem) (o : Nat) (f : GemObject → GemObject) :
    (s.modifyObject o f).object o = f (s.object o) := by
  simp [Gem.modifyObject]

theorem modifyObject_ne (s : Gem) {o o' : Nat} (f : GemObject → GemObject) (h : o' ≠ o) :
    (s.modifyObject o f).object o' = s.object o' := by
  simp [Gem.modifyObject, h]

/-- **Changing one object.** What is to be shown when one object, the handles and the name that
lead to it and the references to it held by callers change. -/
theorem RefInv.change {s : Gem} {H H' : Nat × UInt32 → Option Nat} {held held' : Nat → Nat}
    {created : Nat → Bool} {o : Nat} (h : RefInv s H held created) (x : GemObject) {ids : FrIds}
    {T : IdrList Nat} (hT : T.Ok ids)
    (hTne : ∀ o' n, o' ≠ o → (idrListFind T n = some o' ↔ idrListFind s.objectNameIdr n = some o'))
    (hTo : ∀ n, idrListFind T n = some o ↔ x.name = n ∧ n ≠ 0)
    (hfin : {p | H' p ≠ none}.Finite)
    (hH : ∀ o', o' ≠ o → handlesOf H' o' = handlesOf H o')
    (hheld : ∀ o', o' ≠ o → held' o' = held o')
    (hhandles : x.handleCount.toNat = (handlesOf H' o).ncard)
    (hrefs : x.refcount.toNat =
      (handlesOf H' o).ncard + (if x.name = 0 then 0 else 1) + held' o)
    (hnamed : x.name ≠ 0 → 0 < (handlesOf H' o).ncard)
    (hfrees : x.frees = if created o = true ∧ x.refcount = 0 then 1 else 0)
    (hfresh : created o = false → x.refcount = 0) :
    RefInv ({ s with ids := ids, objectNameIdr := T }.modifyObject o fun _ => x) H' held'
      created := by
  have hself : ({ s with ids := ids, objectNameIdr := T }.modifyObject o fun _ => x).object o = x :=
    modifyObject_self _ o _
  have hne : ∀ o', o' ≠ o →
      ({ s with ids := ids, objectNameIdr := T }.modifyObject o fun _ => x).object o' =
        s.object o' := fun o' ho => modifyObject_ne _ _ ho
  refine ⟨hfin, fun o' => ?_, fun o' => ?_, fun o' n => ?_, fun o' => ?_, fun o' => ?_, fun o' => ?_,
    hT⟩
  · by_cases ho : o' = o
    · rw [ho, hself, hhandles]
    · rw [hne o' ho, hH o' ho, h.handles]
  · by_cases ho : o' = o
    · rw [ho, hself, hrefs]
    · rw [hne o' ho, hH o' ho, hheld o' ho, h.refs]
  · by_cases ho : o' = o
    · rw [ho, hself]
      exact hTo n
    · rw [hne o' ho]
      exact (hTne o' n ho).trans (h.name o' n)
  · by_cases ho : o' = o
    · rw [ho, hself]
      exact hnamed
    · rw [hne o' ho, hH o' ho]
      exact h.named o'
  · by_cases ho : o' = o
    · rw [ho, hself, hfrees]
    · rw [hne o' ho, h.frees]
  · by_cases ho : o' = o
    · rw [ho, hself]
      exact hfresh
    · rw [hne o' ho]
      exact h.fresh o'

/-- The same with the names left as they are. -/
theorem RefInv.modify {s : Gem} {H H' : Nat × UInt32 → Option Nat} {held held' : Nat → Nat}
    {created : Nat → Bool} {o : Nat} (h : RefInv s H held created) (x : GemObject)
    (hfin : {p | H' p ≠ none}.Finite)
    (hH : ∀ o', o' ≠ o → handlesOf H' o' = handlesOf H o')
    (hheld : ∀ o', o' ≠ o → held' o' = held o') (hname : x.name = (s.object o).name)
    (hhandles : x.handleCount.toNat = (handlesOf H' o).ncard)
    (hrefs : x.refcount.toNat =
      (handlesOf H' o).ncard + (if x.name = 0 then 0 else 1) + held' o)
    (hnamed : x.name ≠ 0 → 0 < (handlesOf H' o).ncard)
    (hfrees : x.frees = if created o = true ∧ x.refcount = 0 then 1 else 0)
    (hfresh : created o = false → x.refcount = 0) :
    RefInv (s.modifyObject o fun _ => x) H' held' created :=
  h.change x h.names (fun _ _ _ => .rfl) (fun n => by rw [hname]; exact h.name o n) hfin hH hheld
    hhandles hrefs hnamed hfrees hfresh

/-! ## Moving references -/

section
variable {s : Gem} {H : Nat × UInt32 → Option Nat} {held : Nat → Nat} {created : Nat → Bool}
  {o : Nat}

/-- An object with a reference has been created and not freed. -/
theorem RefInv.live (h : RefInv s H held created) (ho : (s.object o).refcount ≠ 0) :
    created o = true ∧ (s.object o).frees = 0 := by
  have hc : created o = true := by
    by_contra hc
    exact ho (h.fresh o (by simpa using hc))
  exact ⟨hc, by rw [h.frees, if_neg (by simp [ho])]⟩

theorem reference_inv (h : RefInv s H held created) (ho : (s.object o).refcount ≠ 0)
    (hfit : (s.object o).refcount.toNat + 1 < 2 ^ 32) :
    RefInv (gemObjectReference s o) H (Function.update held o (held o + 1)) created := by
  obtain ⟨hc, hf⟩ := h.live ho
  have hpos : (s.object o).refcount + 1 ≠ 0 := by
    rw [ne_eq, ← toNat_eq_zero, toNat_add_one hfit]
    omega
  refine h.modify { s.object o with refcount := (s.object o).refcount + 1 } h.finite
    (fun _ _ => rfl) (fun o' ho' => Function.update_of_ne ho' ..) rfl (h.handles o) ?_ (h.named o)
    ?_ ?_
  · have := h.refs o
    simp only [toNat_add_one hfit, Function.update_self]
    omega
  · simp only [hf, hpos, and_false, if_false]
  · intro hc'
    rw [hc] at hc'
    cases hc'

/-- The object after its last or another reference has been dropped. -/
theorem unreference_inv {H' : Nat × UInt32 → Option Nat} {held' : Nat → Nat} {x : GemObject}
    (h : RefInv s H held created) (hfin : {p | H' p ≠ none}.Finite)
    (hH : ∀ o', o' ≠ o → handlesOf H' o' = handlesOf H o')
    (hheld : ∀ o', o' ≠ o → held' o' = held o') (hname : x.name = (s.object o).name)
    (hhandles : x.handleCount.toNat = (handlesOf H' o).ncard)
    (hrefs : x.refcount.toNat =
      (handlesOf H' o).ncard + (if x.name = 0 then 0 else 1) + held' o + 1)
    (hnamed : x.name ≠ 0 → 0 < (handlesOf H' o).ncard)
    (hfrees : x.frees = 0) (hcreated : created o = true) :
    ∃ s', gemObjectUnreference (s.modifyObject o fun _ => x) o = .ok s' ∧
      RefInv s' H' held' created ∧ s'.files = s.files ∧ s'.ids = s.ids := by
  have hsub : (x.refcount - 1).toNat = x.refcount.toNat - 1 := toNat_sub_one (by omega)
  have hfresh : ∀ P : Prop, created o = false → P := fun P hc => by
    rw [hcreated] at hc
    cases hc
  have hput : gemObjectUnreference (s.modifyObject o fun _ => x) o =
      .ok (s.modifyObject o fun _ => { x with
        refcount := x.refcount - 1
        frees := if x.refcount - 1 = 0 then x.frees + 1 else x.frees }) := by
    simp only [gemObjectUnreference, krefPut, gemObjectFree, Gem.modifyObject, Function.update_self,
      Function.update_idem]
    by_cases hz : x.refcount - 1 = 0
    · simp only [hz, if_true]
    · simp only [hz, if_false]
  refine ⟨_, hput, ?_, rfl, rfl⟩
  refine h.modify _ hfin hH hheld hname hhandles ?_ hnamed ?_ (hfresh _)
  · simp only [hsub, hrefs]
    omega
  · simp only [hcreated, true_and, hfrees]

/-- A reference given back by its holder. -/
theorem unreference_held_inv (h : RefInv s H held created) (ho : 0 < held o) :
    ∃ s', gemObjectUnreference s o = .ok s' ∧
      RefInv s' H (Function.update held o (held o - 1)) created ∧ s'.files = s.files ∧
      s'.ids = s.ids := by
  have hrefs := h.refs o
  have hlive : (s.object o).refcount ≠ 0 := by
    rw [ne_eq, ← toNat_eq_zero]
    omega
  obtain ⟨hc, hf⟩ := h.live hlive
  have hself : (s.modifyObject o fun _ => s.object o) = s := by
    simp [Gem.modifyObject]
  rw [← hself]
  refine unreference_inv h h.finite (fun _ _ => rfl) (fun o' ho' => Function.update_of_ne ho' ..) rfl
    (h.handles o) ?_ (h.named o) hf hc
  rw [Function.update_self]
  omega

/-- A handle made. -/
theorem handleReference_inv {p : Nat × UInt32} (h : RefInv s H held created) (hp : H p = none)
    (ho : (s.object o).refcount ≠ 0) (hfit : (s.object o).refcount.toNat + 1 < 2 ^ 32) :
    RefInv (gemObjectHandleReference s o) (Function.update H p (some o)) held created := by
  obtain ⟨hc, hf⟩ := h.live ho
  have hadd := handlesOf_add (o := o) h.finite hp
  have hrefs := h.refs o
  have hhandles := h.handles o
  have hpos : (s.object o).refcount + 1 ≠ 0 := by
    rw [ne_eq, ← toNat_eq_zero, toNat_add_one hfit]
    omega
  have hself : gemObjectHandleReference s o = s.modifyObject o fun _ => { s.object o with
      refcount := (s.object o).refcount + 1
      handleCount := (s.object o).handleCount + 1 } := by
    simp [gemObjectHandleReference, gemObjectReference, Gem.modifyObject]
  rw [hself]
  refine h.modify _ (update_finite h.finite p _) (fun o' ho' => ?_) (fun _ _ => rfl) rfl ?_ ?_ ?_ ?_ ?_
  · exact handlesOf_update_ne (by simp [hp]) fun e => ho' (Option.some.inj e).symm
  · have : (s.object o).handleCount.toNat + 1 < 2 ^ 32 := by omega
    simp only [toNat_add_one this, hadd, hhandles]
  · simp only [toNat_add_one hfit, hadd]
    omega
  · intro _
    omega
  · simp only [hf, hpos, and_false, if_false]
  · intro hc'
    rw [hc] at hc'
    cases hc'

/-- The name taken away, with its reference. -/
theorem unname_inv (h : RefInv s H held created) (hname : (s.object o).name ≠ 0) :
    RefInv ({ s with objectNameIdr := (idrListRemove s.objectNameIdr (s.object o).name).2
      }.modifyObject o fun _ =>
        { s.object o with name := 0, refcount := (s.object o).refcount - 1 }) H held created := by
  have hrefs := h.refs o
  rw [if_neg hname] at hrefs
  have hpos := h.named o hname
  have hlive : (s.object o).refcount ≠ 0 := by
    rw [ne_eq, ← toNat_eq_zero]
    omega
  obtain ⟨hc, hf⟩ := h.live hlive
  have hsub : ((s.object o).refcount - 1).toNat = (s.object o).refcount.toNat - 1 :=
    toNat_sub_one (by omega)
  have hnz : (s.object o).refcount - 1 ≠ 0 := by
    rw [ne_eq, ← toNat_eq_zero, hsub]
    omega
  have hfind := find_remove h.names (s.object o).name
  refine h.change _ (remove_ok h.names _) (fun o' n ho' => ?_) (fun n => ?_) h.finite
    (fun _ _ => rfl) (fun _ _ => rfl) (h.handles o) ?_ ?_ ?_ ?_
  · rw [hfind]
    split
    · rename_i hn
      subst hn
      have := (h.name o _).2 ⟨rfl, hname⟩
      simp [this, ho'.symm]
    · rfl
  · rw [hfind]
    split
    · rename_i hn
      simp [hn, hname.symm]
    · rename_i hn
      rw [h.name o n]
      constructor
      · intro hc
        exact absurd hc.1.symm hn
      · intro hc
        exact absurd hc.1.symm hc.2
  · simp only [hsub, if_true]
    omega
  · simp
  · simp only [hf, hnz, and_false, if_false]
  · intro hc'
    rw [hc] at hc'
    cases hc'

/-- **A handle dropped**, with the name if it was the last one. -/
theorem handleUnreference_inv {p : Nat × UInt32} (h : RefInv s H held created)
    (hp : H p = some o) :
    ∃ s', gemObjectHandleUnreference s o = .ok s' ∧
      RefInv s' (Function.update H p none) held created ∧ s'.files = s.files ∧ s'.ids = s.ids := by
  have hdrop := handlesOf_drop h.finite hp
  have hhandles := h.handles o
  have hrefs := h.refs o
  have hH : ∀ o', o' ≠ o → handlesOf (Function.update H p none) o' = handlesOf H o' :=
    fun o' ho' => handlesOf_update_ne (by rw [hp]; simpa using ho'.symm) (by simp)
  have hfin := update_finite h.finite p none
  have hcount : (s.object o).handleCount ≠ 0 := by
    rw [ne_eq, ← toNat_eq_zero]
    omega
  have hlive : (s.object o).refcount ≠ 0 := by
    rw [ne_eq, ← toNat_eq_zero]
    omega
  obtain ⟨hc, hf⟩ := h.live hlive
  have hsub : ((s.object o).handleCount - 1).toNat = (s.object o).handleCount.toNat - 1 :=
    toNat_sub_one (by omega)
  have hcount' : ((s.object o).handleCount - 1).toNat =
      (handlesOf (Function.update H p none) o).ncard := by omega
  -- no name to take away: the handle's reference is all that goes
  have hplain : (s.object o).name = 0 ∨ (s.object o).handleCount - 1 ≠ 0 →
      ∃ s', gemObjectUnreference (s.modifyObject o fun x =>
          { x with handleCount := x.handleCount - 1 }) o = .ok s' ∧
        RefInv s' (Function.update H p none) held created ∧ s'.files = s.files ∧
        s'.ids = s.ids := by
    intro hcase
    refine unreference_inv (x := { s.object o with handleCount := (s.object o).handleCount - 1 }) h
      hfin hH (fun _ _ => rfl) rfl hcount' ?_ ?_ hf hc
    · simp only
      omega
    · intro hname
      have hne := hcase.resolve_left hname
      rw [ne_eq, ← toNat_eq_zero] at hne
      omega
  simp only [gemObjectHandleUnreference, hcount, if_false, modifyObject_self]
  split
  · rename_i hz
    simp only [gemObjectHandleFree, modifyObject_self]
    split
    · rename_i hname
      have hun := unname_inv h hname
      rw [if_neg hname] at hrefs
      have hz' := hz
      rw [← toNat_eq_zero] at hz'
      have hsub' : ((s.object o).refcount - 1).toNat = (s.object o).refcount.toNat - 1 :=
        toNat_sub_one (by omega)
      have hnz : (s.object o).refcount - 1 ≠ 0 := by
        rw [ne_eq, ← toNat_eq_zero]
        omega
      have hput : krefPut (({ s.modifyObject o (fun x => { x with handleCount := x.handleCount - 1 })
          with objectNameIdr := (idrListRemove s.objectNameIdr (s.object o).name).2
          } : Gem).modifyObject o fun x => { x with name := 0 }) o gemObjectRefBug =
          .ok (({ s with objectNameIdr := (idrListRemove s.objectNameIdr (s.object o).name).2
            }.modifyObject o fun _ => { s.object o with
              name := 0, refcount := (s.object o).refcount - 1 }).modifyObject o fun _ =>
                { s.object o with
                  name := 0
                  refcount := (s.object o).refcount - 1
                  handleCount := (s.object o).handleCount - 1 }) := by
        simp only [krefPut, Gem.modifyObject, Function.update_self, Function.update_idem, hnz,
          if_false]
      refine Exists.imp (fun s' hs' => ?_) (unreference_inv (x := { s.object o with
        name := 0
        refcount := (s.object o).refcount - 1
        handleCount := (s.object o).handleCount - 1 }) hun hfin hH (fun _ _ => rfl) ?_ hcount' ?_
        (by simp) hf hc)
      · refine ⟨?_, hs'.2⟩
        rw [← hs'.1]
        exact congrArg (Except.bind · fun s => gemObjectUnreference s o) hput
      · rw [modifyObject_self]
      · simp only [if_true, hsub']
        omega
    · rename_i hname
      exact hplain (.inl (not_not.1 hname))
  · rename_i hz
    exact hplain (.inr hz)

/-- A name given, with its reference. -/
theorem name_inv {ids : FrIds} {id : UInt32} (h : RefInv s H held created)
    (hname : (s.object o).name = 0) (hpos : 0 < (handlesOf H o).ncard) (hid : id ≠ 0)
    (hnew : idrListFind s.objectNameIdr id = none) (hle : s.ids.Le ids)
    (hT : (s.objectNameIdr.add id o).Ok ids)
    (hfit : (s.object o).refcount.toNat + 1 < 2 ^ 32) :
    RefInv (gemObjectReference ({ s with ids := ids, objectNameIdr := s.objectNameIdr.add id o
      }.modifyObject o fun x => { x with name := id }) o) H held created := by
  have hrefs := h.refs o
  rw [if_pos hname] at hrefs
  have hlive : (s.object o).refcount ≠ 0 := by
    rw [ne_eq, ← toNat_eq_zero]
    omega
  obtain ⟨hc, hf⟩ := h.live hlive
  have hnz : (s.object o).refcount + 1 ≠ 0 := by
    rw [ne_eq, ← toNat_eq_zero, toNat_add_one hfit]
    omega
  have hfind := find_add (h.names.mono hle) hnew hT
  have hself : gemObjectReference ({ s with ids := ids, objectNameIdr := s.objectNameIdr.add id o
      }.modifyObject o fun x => { x with name := id }) o =
      { s with ids := ids, objectNameIdr := s.objectNameIdr.add id o }.modifyObject o fun _ =>
        { s.object o with name := id, refcount := (s.object o).refcount + 1 } := by
    simp [gemObjectReference, Gem.modifyObject]
  rw [hself]
  refine h.change _ hT (fun o' n ho' => ?_) (fun n => ?_) h.finite (fun _ _ => rfl) (fun _ _ => rfl)
    (h.handles o) ?_ (fun _ => hpos) ?_ ?_
  · rw [hfind]
    split
    · rename_i hn
      subst hn
      simp [hnew, ho'.symm]
    · rfl
  · rw [hfind]
    split
    · rename_i hn
      simp [hn, hid]
    · rename_i hn
      rw [h.name o n, hname]
      constructor
      · intro hc
        exact absurd hc.1.symm hc.2
      · intro hc
        exact absurd hc.1.symm hn
  · simp only [toNat_add_one hfit, hid, if_false]
    omega
  · simp only [hf, hnz, and_false, if_false]
  · intro hc'
    rw [hc] at hc'
    cases hc'

end

end Drm
