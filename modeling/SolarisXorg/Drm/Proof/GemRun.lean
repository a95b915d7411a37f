import SolarisXorg.Drm.Proof.GemRefs

/-!
# Runs of GEM calls

The calls are sequences of the ways in which references move, so that each of them keeps the
bookkeeping of `RefInv`, with the file tables for `H` (`gemStep_inv`), and so does every run
(`gem_references_counted`).

Counters have 32 bits, so this holds as long as none of them wraps; `gem_lookups_wrap` is a run in
which one does.
-/

namespace Drm

open Lib

/-! ## The calls -/

/-- The handle tables as one. -/
def tableOf (s : Gem) (p : Nat × UInt32) : Option Nat := idrListFind (s.files p.1) p.2

/-- The invariant of the device. -/
structure Gem.Inv (s : Gem) (held : Nat → Nat) (created : Nat → Bool) : Prop where
  refs : RefInv s (tableOf s) held created
  ids : s.ids.Ok
  files : ∀ f, (s.files f).Ok s.ids

section
variable {s : Gem} {held : Nat → Nat} {created : Nat → Bool}

/-- The counters of the id lists move on. -/
theorem Gem.Inv.setIds (h : s.Inv held created) {ids : FrIds} (hi : ids.Ok) (hle : s.ids.Le ids) :
    Gem.Inv { s with ids := ids } held created := by
  exact ⟨h.refs.congr rfl rfl (h.refs.names.mono hle), hi, fun f => (h.files f).mono hle⟩

/-- An object someone has a handle to is live. -/
theorem Gem.Inv.handle_live (h : s.Inv held created) {file : Nat} {handle : UInt32} {o : Nat}
    (hf : idrListFind (s.files file) handle = some o) :
    0 < (handlesOf (tableOf s) o).ncard ∧ (s.object o).refcount ≠ 0 := by
  have hpos : 0 < (handlesOf (tableOf s) o).ncard := by
    rw [Set.ncard_pos (handlesOf_finite h.refs.finite o)]
    exact ⟨(file, handle), hf⟩
  have hrefs := h.refs.refs o
  refine ⟨hpos, ?_⟩
  rw [ne_eq, ← toNat_eq_zero]
  omega

theorem tableOf_setFile (s : Gem) (file : Nat) (head : IdrList Nat) (p : Nat × UInt32) :
    tableOf (s.setFile file head) p =
      if p.1 = file then idrListFind head p.2 else tableOf s p := by
  unfold tableOf Gem.setFile
  by_cases hp : p.1 = file
  · rw [if_pos hp]
    simp [hp]
  · rw [if_neg hp]
    simp [hp]

theorem tableOf_remove (h : s.Inv held created) (file : Nat) (handle : UInt32) :
    tableOf (s.setFile file (idrListRemove (s.files file) handle).2) =
      Function.update (tableOf s) (file, handle) none := by
  funext p
  rw [tableOf_setFile, find_remove (h.files file)]
  by_cases hp : p = (file, handle)
  · subst hp
    simp
  · rw [Function.update_of_ne hp]
    by_cases hf : p.1 = file
    · have hn : p.2 ≠ handle := fun e => hp (Prod.ext hf e)
      rw [if_pos hf, if_neg hn, tableOf, hf]
    · rw [if_neg hf]

/-- `drm_gem_close_ioctl` -/
theorem handleDelete_inv (h : s.Inv held created) (file : Nat) (handle : UInt32) :
    ∃ r, gemHandleDelete s file handle = .ok r ∧ r.2.Inv held created := by
  unfold gemHandleDelete
  cases hf : idrListFind (s.files file) handle with
  | none => exact ⟨_, rfl, h⟩
  | some o =>
    have hp : tableOf s (file, handle) = some o := hf
    -- the table is not read on the way
    have hr' : RefInv (s.setFile file (idrListRemove (s.files file) handle).2) (tableOf s) held
        created := h.refs.congr rfl rfl h.refs.names
    obtain ⟨s', e, hr, hfiles, hids⟩ := handleUnreference_inv hr' hp
    have htab : tableOf s' = Function.update (tableOf s) (file, handle) none := by
      rw [← tableOf_remove h file handle]
      funext p
      simp only [tableOf, hfiles]
    refine ⟨(0, s'), by simp [e, Except.map], htab ▸ hr, by rw [hids]; exact h.ids, fun f => ?_⟩
    rw [hfiles, hids]
    simp only [Gem.setFile]
    by_cases hff : f = file
    · subst hff
      rw [Function.update_self]
      exact remove_ok (h.files f) handle
    · rw [Function.update_of_ne hff]
      exact h.files f

/-- `drm_gem_handle_create`, by induction over its tries. -/
theorem handleCreate_inv {o : Nat} (file : Nat) (mem : Bool) (openRet : Int) (tries : Nat) :
    ∀ {s : Gem}, s.Inv held created → s.ids.NoWrap → (s.object o).refcount ≠ 0 →
    (s.object o).refcount.toNat + 1 < 2 ^ 32 →
    (∃ r, gemHandleCreate s file o mem openRet tries = .ok r ∧ r.2.Inv held created) ∨
      gemHandleCreate s file o mem openRet tries = .error .again := by
  induction tries with
  | zero => intros; exact .inr rfl
  | succ tries ih =>
    intro s h hw ho hfit
    obtain ⟨ret, ids, head, hget, hi, hle, hagain, hok⟩ :=
      getNewAbove_fresh (h.files file) h.ids hw o mem
    have h' := h.setIds hi hle
    simp only [gemHandleCreate, hget]
    cases ret with
    | error ret =>
      simp only
      split
      · rename_i he
        exact ih h' (hagain (by rw [he])) ho hfit
      · exact .inl ⟨_, rfl, h'⟩
    | ok handle =>
      obtain ⟨hid, hnew, rfl, hhead⟩ := hok handle rfl
      have hp : tableOf s (file, handle) = none := hnew
      have hr := handleReference_inv (o := o) h'.refs hp ho hfit
      simp only
      -- the new entry and the reference it holds
      have hinv : Gem.Inv (gemObjectHandleReference
          ({ s with ids := ids }.setFile file ((s.files file).add handle o)) o) held created := by
        refine ⟨?_, hi, fun f => ?_⟩
        · have htab : tableOf (gemObjectHandleReference
              ({ s with ids := ids }.setFile file ((s.files file).add handle o)) o) =
              Function.update (tableOf s) (file, handle) (some o) := by
            funext p
            have : tableOf (gemObjectHandleReference
              ({ s with ids := ids }.setFile file ((s.files file).add handle o)) o) p =
              tableOf ({ s with ids := ids }.setFile file ((s.files file).add handle o)) p := rfl
            rw [this, tableOf_setFile, find_add ((h.files file).mono hle) hnew hhead]
            by_cases hpf : p = (file, handle)
            · subst hpf
              simp
            · rw [Function.update_of_ne hpf]
              by_cases hf : p.1 = file
              · have hn : p.2 ≠ handle := fun e => hpf (Prod.ext hf e)
                rw [if_pos hf, if_neg hn, tableOf, hf]
              · rw [if_neg hf]
                rfl
          rw [htab]
          exact hr.congr rfl rfl hr.names
        · have : (gemObjectHandleReference
            ({ s with ids := ids }.setFile file ((s.files file).add handle o)) o).files f =
            Function.update s.files file ((s.files file).add handle o) f := rfl
          rw [this]
          by_cases hff : f = file
          · subst hff
            rw [Function.update_self]
            exact hhead
          · rw [Function.update_of_ne hff]
            exact (h.files f).mono hle
      split
      · obtain ⟨r, e, hr⟩ := handleDelete_inv hinv file handle
        exact .inl ⟨_, by rw [e]; rfl, hr⟩
      · exact .inl ⟨_, rfl, hinv⟩

/-- A reference taken and a reference given back. -/
theorem Gem.Inv.reference (h : s.Inv held created) {o : Nat} (ho : (s.object o).refcount ≠ 0)
    (hfit : (s.object o).refcount.toNat + 1 < 2 ^ 32) :
    (gemObjectReference s o).Inv (Function.update held o (held o + 1)) created ∧
      ((gemObjectReference s o).object o).refcount.toNat = (s.object o).refcount.toNat + 1 := by
  refine ⟨⟨reference_inv h.refs ho hfit, h.ids, h.files⟩, ?_⟩
  rw [gemObjectReference, modifyObject_self]
  exact toNat_add_one hfit

theorem Gem.Inv.unreference (h : s.Inv held created) {o : Nat} (ho : 0 < held o) :
    ∃ s', gemObjectUnreference s o = .ok s' ∧
      s'.Inv (Function.update held o (held o - 1)) created := by
  obtain ⟨s', e, hr, hfiles, hids⟩ := unreference_held_inv h.refs ho
  have htab : tableOf s' = tableOf s := by
    funext p
    rw [tableOf, hfiles, tableOf]
  exact ⟨s', e, htab ▸ hr, hids ▸ h.ids, fun f => by rw [hfiles, hids]; exact h.files f⟩

/-- The reference a call takes for itself, and drops in the end. -/
theorem Gem.Inv.drop_own {o : Nat}
    (h : s.Inv (Function.update held o (held o + 1)) created) :
    ∃ s', gemObjectUnreference s o = .ok s' ∧ s'.Inv held created := by
  obtain ⟨s', e, h'⟩ := h.unreference (o := o) (by simp)
  refine ⟨s', e, ?_⟩
  simpa using h'

/-- The naming of `drm_gem_flink_ioctl`, by induction over its tries. -/
theorem flinkName_inv {o : Nat} (mem : Bool) (tries : Nat) :
    ∀ {s : Gem}, s.Inv held created → s.ids.NoWrap → 0 < (handlesOf (tableOf s) o).ncard →
    (s.object o).refcount.toNat + 1 < 2 ^ 32 →
    (∃ r, gemFlinkName s o mem tries = .ok r ∧ r.2.Inv held created) ∨
      gemFlinkName s o mem tries = .error .again := by
  induction tries with
  | zero => intros; exact .inr rfl
  | succ tries ih =>
    intro s h hw hpos hfit
    simp only [gemFlinkName]
    split
    · rename_i hname
      obtain ⟨ret, ids, head, hget, hi, hle, hagain, hok⟩ :=
        getNewAbove_fresh h.refs.names h.ids hw o mem
      have h' := h.setIds hi hle
      simp only [hget]
      cases ret with
      | error ret =>
        simp only
        split
        · rename_i he
          exact ih h' (hagain (by rw [he])) hpos hfit
        · exact .inl ⟨_, rfl, h'⟩
      | ok id =>
        obtain ⟨hid, hnew, rfl, hhead⟩ := hok id rfl
        refine .inl ⟨_, rfl, ?_, hi, fun f => (h.files f).mono hle⟩
        exact name_inv h.refs hname hpos hid hnew hle hhead hfit
    · exact .inl ⟨_, rfl, h⟩

/-- `drm_gem_flink_ioctl` -/
theorem flinkIoctl_inv (h : s.Inv held created) (hw : s.ids.NoWrap)
    (hfit : ∀ o, (s.object o).refcount.toNat + 2 < 2 ^ 32) (file : Nat) (handle : UInt32)
    (mem : Bool) (tries : Nat) :
    (∃ r, gemFlinkIoctl s file handle mem tries = .ok r ∧ r.2.Inv held created) ∨
      gemFlinkIoctl s file handle mem tries = .error .again := by
  simp only [gemFlinkIoctl, gemObjectLookup]
  cases hf : idrListFind (s.files file) handle with
  | none => exact .inl ⟨_, rfl, h⟩
  | some o =>
    obtain ⟨hpos, ho⟩ := h.handle_live hf
    have hfit' := hfit o
    obtain ⟨h1, hcount⟩ := h.reference ho (by omega)
    rcases flinkName_inv mem tries h1 hw hpos (by omega) with ⟨r, e, h2⟩ | e
    · obtain ⟨s', e', h3⟩ := h2.drop_own
      refine .inl ⟨(r.1, s'), ?_, h3⟩
      simp only [e, Except.bind, e', Except.map]
    · apply Or.inr
      simp only [e, Except.bind]

/-- `drm_gem_open_ioctl` -/
theorem openIoctl_inv (h : s.Inv held created) (hw : s.ids.NoWrap)
    (hfit : ∀ o, (s.object o).refcount.toNat + 2 < 2 ^ 32) (file : Nat) (name : UInt32)
    (mem : Bool) (openRet : Int) (tries : Nat) :
    (∃ r, gemOpenIoctl s file name mem openRet tries = .ok r ∧ r.2.Inv held created) ∨
      gemOpenIoctl s file name mem openRet tries = .error .again := by
  simp only [gemOpenIoctl]
  cases hf : idrListFind s.objectNameIdr name with
  | none => exact .inl ⟨_, rfl, h⟩
  | some o =>
    obtain ⟨hname, hnz⟩ := (h.refs.name o name).1 hf
    have hpos := h.refs.named o (by rw [hname]; exact hnz)
    have hrefs := h.refs.refs o
    have ho : (s.object o).refcount ≠ 0 := by
      rw [ne_eq, ← toNat_eq_zero]
      omega
    have hfit' := hfit o
    obtain ⟨h1, hcount⟩ := h.reference ho (by omega)
    have ho1 : ((gemObjectReference s o).object o).refcount ≠ 0 := by
      rw [ne_eq, ← toNat_eq_zero]
      omega
    rcases handleCreate_inv file mem openRet tries h1 hw ho1 (by omega) with ⟨r, e, h2⟩ | e
    · obtain ⟨s', e', h3⟩ := h2.drop_own
      refine .inl ⟨(r.1, s'), ?_, h3⟩
      simp only [e, Except.bind, e', Except.map]
    · apply Or.inr
      simp only [e, Except.bind]

end

/-! ## Releasing a file -/

theorem mem_entries {ids : FrIds} {head : IdrList Nat} (h : head.Ok ids) {e : IdrListEntry Nat} :
    e ∈ head.entries ↔ idrListFind head e.handle = some e.obj := by
  rw [find_eq_some h, IdrList.entries, List.mem_flatMap]
  constructor
  · intro ⟨k, _, hk⟩
    exact ⟨k, hk⟩
  · intro ⟨k, hk⟩
    refine ⟨k, List.mem_range.2 ?_, hk⟩
    rw [← h.keyed k _ hk]
    exact Nat.mod_lt _ (by decide)

theorem entries_nodup {ids : FrIds} {head : IdrList Nat} (h : head.Ok ids) :
    (head.entries.map (·.handle)).Nodup := by
  rw [IdrList.entries, List.map_flatMap, List.nodup_flatMap]
  refine ⟨fun k _ => h.nodup k, List.nodup_range.imp fun {k k'} hk => ?_⟩
  intro n hn hn'
  obtain ⟨e, he, rfl⟩ := List.mem_map.1 hn
  obtain ⟨e', he', hc⟩ := List.mem_map.1 hn'
  have h1 := h.keyed k e he
  have h2 := h.keyed k' e' he'
  have hc : e'.handle = e.handle := hc
  rw [hc, h1] at h2
  exact hk h2

/-- The loop of `drm_gem_release`, over the entries that are left. -/
theorem releaseHandles_inv {held : Nat → Nat} {created : Nat → Bool} {file : Nat}
    {es : List (IdrListEntry Nat)} : ∀ {s : Gem} {H : Nat × UInt32 → Option Nat},
    RefInv s H held created → (es.map (·.handle)).Nodup →
    (∀ e ∈ es, H (file, e.handle) = some e.obj) →
    ∃ s' H', gemReleaseHandles s es = .ok s' ∧ RefInv s' H' held created ∧
      (∀ n ∈ es.map (·.handle), H' (file, n) = none) ∧
      (∀ p, (p.1 = file → p.2 ∉ es.map (·.handle)) → H' p = H p) ∧
      s'.files = s.files ∧ s'.ids = s.ids := by
  induction es with
  | nil => exact fun {s H} h _ _ => ⟨s, H, rfl, h, by simp, fun _ _ => rfl, rfl, rfl⟩
  | cons e es ih =>
    intro s H h hnd hes
    rw [List.map_cons, List.nodup_cons] at hnd
    obtain ⟨s1, e1, h1, hf1, hi1⟩ := handleUnreference_inv h (hes e (.head _))
    have hes' : ∀ x ∈ es, Function.update H (file, e.handle) none (file, x.handle) = some x.obj := by
      intro x hx
      have hne : x.handle ≠ e.handle := fun hc => hnd.1 (hc ▸ List.mem_map_of_mem hx)
      rw [Function.update_of_ne (by simp [hne])]
      exact hes x (.tail _ hx)
    obtain ⟨s', H', e2, h2, hgone, hkept, hf2, hi2⟩ := ih h1 hnd.2 hes'
    refine ⟨s', H', ?_, h2, fun n hn => ?_, fun p hp => ?_, hf2.trans hf1, hi2.trans hi1⟩
    · simp only [gemReleaseHandles, e1, Except.bind, e2]
    · rw [List.map_cons, List.mem_cons] at hn
      rcases hn with rfl | hn
      · rw [hkept _ fun _ => hnd.1, Function.update_self]
      · exact hgone n hn
    · rw [List.map_cons] at hp
      have hne : p ≠ (file, e.handle) := by
        intro hc
        rw [hc] at hp
        exact hp rfl (.head _)
      rw [hkept p fun hf hm => hp hf (.tail _ hm), Function.update_of_ne hne]

/-- `drm_gem_release` -/
theorem release_inv {s : Gem} {held : Nat → Nat} {created : Nat → Bool} (h : s.Inv held created)
    (file : Nat) : ∃ s', gemRelease s file = .ok s' ∧ s'.Inv held created := by
  obtain ⟨s', H', e, hr, hgone, hkept, hfiles, hids⟩ := releaseHandles_inv h.refs
    (entries_nodup (h.files file)) fun e he => (mem_entries (h.files file)).1 he
  refine ⟨s'.setFile file idrListInit, by simp only [gemRelease, e, Except.map], ?_,
    ?_, fun f => ?_⟩
  · have htab : tableOf (s'.setFile file idrListInit) = H' := by
      funext p
      rw [tableOf_setFile]
      split
      · rename_i hf
        have hnone : idrListFind (idrListInit : IdrList Nat) p.2 = none := rfl
        rw [hnone]
        by_cases hp : p.2 ∈ (s.files file).entries.map (·.handle)
        · have hpf : p = (file, p.2) := Prod.ext hf rfl
          rw [hpf]
          exact (hgone _ hp).symm
        · rw [hkept p fun _ => hp]
          symm
          rw [Option.eq_none_iff_forall_ne_some]
          intro o ho
          rw [tableOf, hf] at ho
          exact hp (List.mem_map.2 ⟨⟨p.2, o⟩, (mem_entries (h.files file)).2 ho, rfl⟩)
      · rename_i hf
        rw [hkept p fun hc => absurd hc hf, tableOf, hfiles, tableOf]
    rw [htab]
    exact hr.congr rfl rfl hr.names
  · simp only [Gem.setFile, hids]
    exact h.ids
  · simp only [Gem.setFile, hids, hfiles]
    by_cases hff : f = file
    · subst hff
      rw [Function.update_self]
      exact idrListInit_ok _
    · rw [Function.update_of_ne hff]
      exact h.files f

/-! ## Runs -/

/-- The invariant of the world. -/
def GemWorld.Inv (w : GemWorld) : Prop := w.gem.Inv w.held w.created

theorem GemWorld.init_inv : GemWorld.init.Inv := by
  have hempty : ∀ o, handlesOf (tableOf GemWorld.init.gem) o = ∅ := by
    intro o
    ext p
    simp [handlesOf, tableOf, GemWorld.init, idrListFind, idrListInit]
  refine ⟨⟨?_, fun o => ?_, fun o => ?_, fun o n => ?_, fun o hc => absurd rfl hc, fun _ => rfl,
    fun _ _ => rfl, idrListInit_ok _⟩, by simp [FrIds.Ok, GemWorld.init], fun f => idrListInit_ok _⟩
  · simp [tableOf, GemWorld.init, idrListFind, idrListInit]
  · rw [hempty, Set.ncard_empty]
    rfl
  · rw [hempty, Set.ncard_empty]
    rfl
  · constructor
    · intro hc
      cases hc
    · intro hc
      exact absurd hc.1.symm hc.2

/-- A new object, in memory that has not been an object before. -/
theorem alloc_inv {w : GemWorld} (h : w.Inv) {o : Nat} (hc : w.created o = false) :
    (gemObjectAlloc w.gem o).Inv (Function.update w.held o 1) (Function.update w.created o true) := by
  have hr := h.refs
  have hrefs := hr.refs o
  rw [hr.fresh o hc] at hrefs
  rw [UInt32.toNat_zero] at hrefs
  have h2 : (w.gem.object o).name = 0 := by
    by_contra hn
    rw [if_neg hn] at hrefs
    omega
  have h1 : (handlesOf (tableOf w.gem) o).ncard = 0 := by omega
  have hself : (gemObjectAlloc w.gem o).object o = { refcount := 1 } := modifyObject_self ..
  have hne : ∀ o', o' ≠ o → (gemObjectAlloc w.gem o).object o' = w.gem.object o' :=
    fun o' ho => modifyObject_ne _ _ ho
  refine ⟨⟨hr.finite, fun o' => ?_, fun o' => ?_, fun o' n => ?_, fun o' => ?_, fun o' => ?_,
    fun o' => ?_, hr.names⟩, h.ids, h.files⟩
  · by_cases ho : o' = o
    · subst ho
      rw [hself]
      exact h1.symm
    · rw [hne o' ho]
      exact hr.handles o'
  · by_cases ho : o' = o
    · subst ho
      rw [hself, Function.update_self]
      exact (by rw [if_pos rfl]; exact congrArg (· + 0 + 1) h1.symm)
    · rw [hne o' ho, Function.update_of_ne ho]
      exact hr.refs o'
  · by_cases ho : o' = o
    · subst ho
      rw [hself]
      have := hr.name o' n
      rw [h2] at this
      exact this
    · rw [hne o' ho]
      exact hr.name o' n
  · by_cases ho : o' = o
    · subst ho
      rw [hself]
      exact fun hc => absurd rfl hc
    · rw [hne o' ho]
      exact hr.named o'
  · by_cases ho : o' = o
    · subst ho
      rw [hself]
      simp
    · rw [hne o' ho, Function.update_of_ne ho]
      exact hr.frees o'
  · by_cases ho : o' = o
    · subst ho
      rw [Function.update_self]
      exact fun hc => by cases hc
    · rw [hne o' ho, Function.update_of_ne ho]
      exact hr.fresh o'

/-- **One call** keeps the invariant and does not end in `drm_gem_object_ref_bug`. -/
theorem gemStep_inv {w : GemWorld} (h : w.Inv) {c : GemCall} (ha : w.Admissible c)
    (hf : w.CountersFit c) :
    (∃ w', gemStep w c = .ok w' ∧ w'.Inv) ∨ gemStep w c = .error .again := by
  obtain ⟨hfit, hw⟩ := hf
  cases c with
  | alloc o => exact .inl ⟨_, rfl, alloc_inv h ha⟩
  | handleCreate file o mem openRet tries =>
    have hrefs := h.refs.refs o
    have ha : 0 < w.held o := ha
    have ho : (w.gem.object o).refcount ≠ 0 := by
      rw [ne_eq, ← toNat_eq_zero]
      omega
    rcases handleCreate_inv file mem openRet tries h hw ho (hfit o) with ⟨r, e, h'⟩ | e
    · exact .inl ⟨{ w with gem := r.2 }, by simp only [gemStep, e, Except.map], h'⟩
    · exact .inr (by simp only [gemStep, e, Except.map])
  | close file handle =>
    obtain ⟨r, e, h'⟩ := handleDelete_inv h file handle
    exact .inl ⟨{ w with gem := r.2 }, by simp only [gemStep, e, Except.map], h'⟩
  | flink file handle mem tries =>
    rcases flinkIoctl_inv h hw hfit file handle mem tries with ⟨r, e, h'⟩ | e
    · exact .inl ⟨{ w with gem := r.2 }, by simp only [gemStep, e, Except.map], h'⟩
    · exact .inr (by simp only [gemStep, e, Except.map])
  | openName file name mem openRet tries =>
    rcases openIoctl_inv h hw hfit file name mem openRet tries with ⟨r, e, h'⟩ | e
    · exact .inl ⟨{ w with gem := r.2 }, by simp only [gemStep, e, Except.map], h'⟩
    · exact .inr (by simp only [gemStep, e, Except.map])
  | lookup file handle =>
    cases hl : idrListFind (w.gem.files file) handle with
    | none => exact .inl ⟨w, by simp only [gemStep, gemObjectLookup, hl], h⟩
    | some o =>
      have h' := (h.reference (h.handle_live hl).2 (hfit o)).1
      refine .inl ⟨{ w with
        gem := gemObjectReference w.gem o
        held := Function.update w.held o (w.held o + 1) }, ?_, h'⟩
      simp only [gemStep, gemObjectLookup, hl]
  | unreference o =>
    obtain ⟨s', e, h'⟩ := Gem.Inv.unreference h ha
    refine .inl ⟨{ w with
      gem := s'
      held := Function.update w.held o (w.held o - 1) }, ?_, h'⟩
    simp only [gemStep, e, Except.map]
  | release file =>
    obtain ⟨s', e, h'⟩ := release_inv h file
    exact .inl ⟨{ w with gem := s' }, by simp only [gemStep, e, Except.map], h'⟩

theorem GemWorld.Inv.counted {w : GemWorld} (h : w.Inv) {o : Nat} (hc : w.created o = true) :
    w.Counted o := by
  have hr := h.refs
  have hset : w.gem.handles o = handlesOf (tableOf w.gem) o := rfl
  have hfin := handlesOf_finite hr.finite o
  have hrefs := hr.refs o
  refine ⟨hfin, hr.handles o, by rw [hrefs, hr.handles o], hr.name o, fun hn => ?_, ?_⟩
  · rw [hr.handles o]
    exact hr.named o hn
  · rw [hr.frees o, hset]
    have hzero : (w.gem.object o).refcount = 0 ↔ handlesOf (tableOf w.gem) o = ∅ ∧
        (w.gem.object o).name = 0 ∧ w.held o = 0 := by
      rw [← toNat_eq_zero, hrefs, ← Set.ncard_eq_zero hfin]
      by_cases hn : (w.gem.object o).name = 0
      · rw [if_pos hn]
        simp only [hn, true_and]
        omega
      · rw [if_neg hn]
        simp only [hn, false_and, and_false, iff_false]
        omega
    simp only [hc, true_and, hzero]

/-- **References.** In every run in which no counter wraps, every object is counted right, the
tables hold every handle once, and no further call ends in `drm_gem_object_ref_bug`. -/
theorem gem_references_counted {ls : List GemCall} {w : GemWorld}
    (h : Run (fun w c w' => gemCall w c w' ∧ w.CountersFit c) GemWorld.init ls w) :
    (∀ o, w.created o = true → w.Counted o) ∧
      (∀ f, ((w.gem.files f).entries.map (·.handle)).Nodup ∧ ∀ e, e ∈ (w.gem.files f).entries ↔
        idrListFind (w.gem.files f) e.handle = some e.obj) ∧
      ∀ c, w.Admissible c → w.CountersFit c → gemStep w c ≠ .error .refBug := by
  have hinv : w.Inv := by
    apply h.inv GemWorld.init_inv
    intro w1 c w2 h1 hc
    obtain ⟨⟨ha, e⟩, hf⟩ := hc
    rcases gemStep_inv h1 ha hf with ⟨w', e', h'⟩ | e'
    · rw [e] at e'
      cases e'
      exact h'
    · rw [e] at e'
      cases e'
  refine ⟨fun o hc => hinv.counted hc, fun f => ?_, fun c ha hf hbug => ?_⟩
  · exact ⟨entries_nodup (hinv.files f), fun e => mem_entries (hinv.files f)⟩
  · rcases gemStep_inv hinv ha hf with ⟨w', e', -⟩ | e'
    · rw [hbug] at e'
      cases e'
    · rw [hbug] at e'
      cases e'

/-! ## A wrap -/

/-- An object with one handle, looked up `n` times. -/
def lookedUp (n : Nat) : GemWorld where
  gem :=
    { ids := { frId := 1 }
      files := Function.update (fun _ => idrListInit) 0 (idrListInit.add 1 0)
      objectNameIdr := idrListInit
      object := Function.update (fun _ => {}) 0
        { refcount := UInt32.ofNat (n + 2), handleCount := 1 } }
  held := Function.update (fun _ => 0) 0 (n + 1)
  created := Function.update (fun _ => false) 0 true

theorem lookedUp_find (n : Nat) : idrListFind ((lookedUp n).gem.files 0) 1 = some 0 := by
  rfl

theorem lookedUp_step (n : Nat) : gemStep (lookedUp n) (.lookup 0 1) = .ok (lookedUp (n + 1)) := by
  have hcount : UInt32.ofNat (n + 2) + 1 = UInt32.ofNat (n + 1 + 2) := by
    rw [UInt32.ofNat_add, UInt32.ofNat_add, UInt32.ofNat_add]
    grind
  simp only [gemStep, gemObjectLookup, lookedUp_find]
  simp only [gemObjectReference, Gem.modifyObject, lookedUp, Function.update_self,
    Function.update_idem, hcount]

/-- The object created, and a handle made for it. -/
theorem lookedUp_zero : ∃ w, gemStep GemWorld.init (.alloc 0) = .ok w ∧
    0 < w.held 0 ∧ gemStep w (.handleCreate 0 0 true 0 1) = .ok (lookedUp 0) := by
  refine ⟨_, rfl, by decide, ?_⟩
  simp [gemStep, gemHandleCreate, GemWorld.init, gemObjectAlloc, Gem.modifyObject,
    idrListGetNewAbove, FrIds.next, Except.map, gemObjectHandleReference, gemObjectReference,
    Gem.setFile, lookedUp]

theorem lookedUp_run (n : Nat) : Run gemCall GemWorld.init
    ([.alloc 0, .handleCreate 0 0 true 0 1] ++ List.replicate n (.lookup 0 1)) (lookedUp n) := by
  induction n with
  | zero =>
    obtain ⟨w, h1, h2, h3⟩ := lookedUp_zero
    have hstart : GemWorld.init.Admissible (.alloc 0) := rfl
    exact .snoc (.snoc .nil ⟨hstart, h1⟩) ⟨h2, h3⟩
  | succ n ih =>
    rw [List.replicate_succ', ← List.append_assoc]
    exact .snoc ih ⟨trivial, lookedUp_step n⟩

/-- After `2 ^ 32` lookups the counter of references has wrapped. -/
theorem gem_lookups_wrap : ¬ ∀ (ls : List GemCall) (w : GemWorld), Run gemCall GemWorld.init ls w →
    ∀ o, w.created o = true → w.Counted o := by
  intro h
  have hc := (h _ _ (lookedUp_run (2 ^ 32)) 0 rfl).refcount
  have h1 : ((lookedUp (2 ^ 32)).gem.object 0).refcount.toNat = 2 := rfl
  have h2 : (lookedUp (2 ^ 32)).held 0 = 2 ^ 32 + 1 := rfl
  rw [h1, h2] at hc
  omega

/-- An object with a handle and its creator's reference. -/
theorem gem_references_counted_handle : Run
    (fun w c w' => gemCall w c w' ∧ w.CountersFit c) GemWorld.init
    [.alloc 0, .handleCreate 0 0 true 0 1] (lookedUp 0) ∧ (lookedUp 0).Counted 0 := by
  obtain ⟨w, h1, h2, h3⟩ := lookedUp_zero
  have hstart : GemWorld.init.Admissible (.alloc 0) := rfl
  have hfit0 : GemWorld.init.CountersFit (.alloc 0) := by
    refine ⟨fun o => ?_, ?_⟩
    · simp [GemWorld.init, GemCall.extraRefs]
    · intro hc
      cases hc
  have hfit1 : w.CountersFit (.handleCreate 0 0 true 0 1) := by
    cases h1
    refine ⟨fun o => ?_, ?_⟩
    · by_cases ho : o = 0
      · subst ho
        decide
      · simp [gemObjectAlloc, modifyObject_ne _ _ ho, GemWorld.init, GemCall.extraRefs]
    · intro hc
      cases hc
  have run : Run (fun w c w' => gemCall w c w' ∧ w.CountersFit c) GemWorld.init
      [.alloc 0, .handleCreate 0 0 true 0 1] (lookedUp 0) :=
    .snoc (.snoc .nil ⟨⟨hstart, h1⟩, hfit0⟩) ⟨⟨h2, h3⟩, hfit1⟩
  exact ⟨run, (gem_references_counted run).1 0 rfl⟩

end Drm
