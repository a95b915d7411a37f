import SolarisXorg.Drm.IdrLists
import SolarisXorg.Drm.Proof.GemTables

/-!
# Id lists that share a counter

`getNewAbove_cases` says all that `idr_list_get_new_above` can do; a call that returns `-EAGAIN`
leaves the counter at 0, so that the next one looks at every id (`getNewAbove_again`). Along a run
the lists hold what is live in them (`IdrLists.Holds`), which makes every call return what it should
(`call_holds`, `idr_lists_serve`).
-/

namespace Drm

open Lib

variable {α : Type}

/-! ## One call -/

/-- The search ends at an id that is not in the list if there is one ahead. -/
theorem available_lt {head : IdrList α} {n : Nat} {id x : UInt32}
    (hn : id.toNat + n = 0x7fffffff) (hle : id ≤ x) (hlt : x < 0x7fffffff)
    (hfree : idrListFind head x = none) : idrListAvailable head n id < 0x7fffffff := by
  induction n generalizing id with
  | zero =>
    rw [UInt32.le_iff_toNat_le] at hle
    simp only [UInt32.lt_iff_toNat_lt, UInt32.reduceToNat] at hlt
    omega
  | succ n ih =>
    have hnext : (id + 1).toNat = id.toNat + 1 := by
      rw [UInt32.toNat_add, UInt32.toNat_one]
      omega
    unfold idrListAvailable
    split
    · rename_i hused
      have hne : id ≠ x := by
        rintro rfl
        rw [hfree] at hused
        cases hused
      apply ih (by omega)
      have hne' : id.toNat ≠ x.toNat := fun hc => hne (UInt32.toNat_inj.1 hc)
      rw [UInt32.le_iff_toNat_le] at hle ⊢
      omega
    · simp only [UInt32.lt_iff_toNat_lt, UInt32.reduceToNat]
      omega

/-- What `idr_list_get_new_above` returns and leaves: every id from the counter on is in use and the
counter starts again, or there is no memory, or the id is handed out. -/
theorem getNewAbove_cases {ids ids' : FrIds} {head head' : IdrList α} {obj : α} {mem : Bool}
    {ret : Except Int UInt32} (hi : ids.Ok) (ht : ids.NoWrap)
    (h : idrListGetNewAbove ids head obj mem = (ret, ids', head')) :
    (ret = .error (-EAGAIN) ∧ ids' = { ids.next with frId := 0 } ∧ head' = head ∧
      ids.next.frTime ≠ 0 ∧
      ∀ x, ids.next.frId ≤ x → x < 0x7fffffff → (idrListFind head x).isSome) ∨
    (ret = .error (-1) ∧ mem = false ∧ head' = head) ∨
    (∃ id, ret = .ok id ∧ mem = true ∧ id < 0x7fffffff ∧ head' = head.add id obj) := by
  obtain ⟨hok, -, -, -⟩ := FrIds.next_spec hi ht
  unfold FrIds.Ok at hok
  have hlt : ids.next.frId < 0x7fffffff := by
    rw [UInt32.lt_iff_toNat_lt]
    exact hok
  by_cases hz : ids.next.frTime = 0
  · have hget : idrListGetNewAbove ids head obj mem =
        if mem then (.ok ids.next.frId, { ids.next with frId := ids.next.frId },
          head.add ids.next.frId obj)
        else (.error (-1), { ids.next with frId := ids.next.frId }, head) := by
      simp [idrListGetNewAbove, hz]
    rw [hget] at h
    cases mem with
    | false =>
      cases h
      exact .inr (.inl ⟨rfl, rfl, rfl⟩)
    | true =>
      cases h
      exact .inr (.inr ⟨_, rfl, rfl, hlt, rfl⟩)
  · have hget : idrListGetNewAbove ids head obj mem =
        (let id := idrListAvailable head (0x7fffffff - ids.next.frId.toNat) ids.next.frId
        if ¬ id < 0x7fffffff then (.error (-EAGAIN), { ids.next with frId := 0 }, head)
        else if mem then (.ok id, { ids.next with frId := id }, head.add id obj)
        else (.error (-1), { ids.next with frId := id }, head)) := by
      simp [idrListGetNewAbove, hz]
    rw [hget] at h
    dsimp only at h
    split at h
    · rename_i hend
      cases h
      refine .inl ⟨rfl, rfl, rfl, hz, fun x hx hxlt => ?_⟩
      rw [Option.isSome_iff_ne_none]
      exact fun hfree => hend (available_lt (by omega) hx hxlt hfree)
    · rename_i hin
      rw [not_not] at hin
      cases mem with
      | false =>
        cases h
        exact .inr (.inl ⟨rfl, rfl, rfl⟩)
      | true =>
        cases h
        exact .inr (.inr ⟨_, rfl, rfl, hin, rfl⟩)

/-- A call that returns `-EAGAIN` leaves the list alone and is followed by one that does not return
it, if there is a free handle. -/
theorem getNewAbove_again {ids ids' : FrIds} {head head' : IdrList α} {obj : α} {mem : Bool}
    (hi : ids.Ok) (ht : ids.NoWrap)
    (h : idrListGetNewAbove ids head obj mem = (.error (-EAGAIN), ids', head')) {x : UInt32}
    (hx : IsHandle x) (hfree : idrListFind head x = none) (obj' : α) (mem' : Bool) :
    head' = head ∧ ∃ ret ids'' head'', idrListGetNewAbove ids' head' obj' mem' =
      (ret, ids'', head'') ∧
      (mem' = true → ∃ id, ret = .ok id) ∧ (mem' = false → ret = .error (-1)) := by
  rcases getNewAbove_cases hi ht h with ⟨-, rfl, rfl, -, -⟩ | ⟨hret, -, -⟩ | ⟨id, hret, -⟩
  · obtain ⟨ret, ids'', head'', hget⟩ : ∃ ret ids'' head'', idrListGetNewAbove
        { ids.next with frId := 0 } head' obj' mem' = (ret, ids'', head'') := ⟨_, _, _, rfl⟩
    refine ⟨rfl, ret, ids'', head'', hget, ?_⟩
    have hi' : FrIds.Ok { ids.next with frId := 0 } := by simp [FrIds.Ok]
    have ht' : FrIds.NoWrap { ids.next with frId := 0 } := by
      intro hc
      simp at hc
    rcases getNewAbove_cases hi' ht' hget with
      ⟨-, -, -, -, hfull⟩ | ⟨hret, hmem, -⟩ | ⟨id, hret, hmem, -⟩
    · have hused := hfull x hx.1 hx.2
      rw [hfree] at hused
      cases hused
    · rw [hret, hmem]
      exact ⟨fun hc => absurd hc Bool.false_ne_true, fun _ => rfl⟩
    · rw [hret, hmem]
      exact ⟨fun _ => ⟨id, rfl⟩, fun hc => absurd hc Bool.noConfusion⟩
  · exact absurd (Except.error.inj hret) (by decide)
  · cases hret

/-! ## Runs -/

/-- The lists are well formed and hold what is live. -/
structure IdrLists.Holds (s : IdrLists α) (m : LiveHandles α) : Prop where
  ids : s.ids.Ok
  ok : ∀ t, (s.table t).Ok s.ids
  find : ∀ t name, idrListFind (s.table t) name = m t name

theorem idrListInit_find (name : UInt32) : idrListFind (idrListInit : IdrList α) name = none := rfl

theorem IdrLists.holds_init : IdrLists.Holds ({} : IdrLists α) (liveHandles []) :=
  ⟨by simp [FrIds.Ok], fun _ => idrListInit_ok _, fun _ => idrListInit_find⟩

variable {s s' : IdrLists α} {m : LiveHandles α}

/-- Only one list is changed. -/
theorem IdrLists.Holds.update (h : s.Holds m) {ids : FrIds} (hi : ids.Ok) (hle : s.ids.Le ids)
    {t : Nat} {head : IdrList α} {names : UInt32 → Option α} (hok : head.Ok ids)
    (hfind : ∀ name, idrListFind head name = names name) :
    IdrLists.Holds ⟨ids, Function.update s.table t head⟩ (Function.update m t names) := by
  refine ⟨hi, fun u => ?_, fun u name => ?_⟩
  · by_cases hu : u = t
    · subst hu
      simp only [Function.update_self]
      exact hok
    · simp only [Function.update_of_ne hu]
      exact (h.ok u).mono hle
  · by_cases hu : u = t
    · subst hu
      simp only [Function.update_self]
      exact hfind name
    · simp only [Function.update_of_ne hu]
      exact h.find u name

theorem FrIds.Le.refl (ids : FrIds) : ids.Le ids := fun h => ⟨h, UInt32.le_refl _⟩

/-- Every call returns what it should and keeps to what is live. -/
theorem call_holds (h : s.Holds m) {call : IdrListCall α} (ht : s.NoWrap call) :
    m.Serves call (s.call call).1 ∧ (s.call call).2.Holds (m.after call (s.call call).1) := by
  cases call with
  | getNewAbove t obj mem =>
    obtain ⟨ret, ids, head, hget, hi, hle, -, hnew⟩ := getNewAbove_fresh (h.ok t) h.ids ht obj mem
    have hcall : s.call (.getNewAbove t obj mem) =
        (.handle ret, ⟨ids, Function.update s.table t head⟩) := by
      simp only [IdrLists.call, hget]
    rw [hcall]
    have hkept : head = s.table t →
        IdrLists.Holds ⟨ids, Function.update s.table t head⟩ m := by
      rintro rfl
      have hsame := h.update (t := t) hi hle ((h.ok t).mono hle) (h.find t)
      simp only [Function.update_eq_self] at hsame ⊢
      exact hsame
    rcases getNewAbove_cases h.ids ht hget with
      ⟨rfl, -, hhead, -⟩ | ⟨rfl, -, hhead⟩ | ⟨id, rfl, -, hlt, -⟩
    · exact ⟨.inl rfl, hkept hhead⟩
    · exact ⟨.inr rfl, hkept hhead⟩
    · obtain ⟨hpos, hfree, rfl, hadd⟩ := hnew id rfl
      refine ⟨⟨⟨?_, hlt⟩, (h.find t id).symm.trans hfree⟩, h.update hi hle hadd fun name => ?_⟩
      · rw [UInt32.le_iff_toNat_le, UInt32.toNat_one]
        exact Nat.pos_of_ne_zero fun hz => hpos (UInt32.toNat_inj.1 hz)
      · rw [find_add ((h.ok t).mono hle) hfree hadd, Function.update_apply, h.find]
  | find t name => exact ⟨h.find t name, h⟩
  | remove t name =>
    have hfind : ∀ n, idrListFind (idrListRemove (s.table t) name).2 n =
        Function.update (m t) name none n := by
      intro n
      rw [find_remove (h.ok t), Function.update_apply, h.find]
    refine ⟨?_, h.update (t := t) h.ids (.refl _) (remove_ok (h.ok t) name) hfind⟩
    show (idrListRemove (s.table t) name).1 = _
    rw [← h.find t name, idrListRemove]
    split <;> rfl

theorem liveHandles_snoc (log : List (IdrListCall α × IdrListRet α))
    (l : IdrListCall α × IdrListRet α) :
    liveHandles (log ++ [l]) = (liveHandles log).after l.1 l.2 := by
  rw [liveHandles, List.foldl_append]
  rfl

theorem run_holds {log : List (IdrListCall α × IdrListRet α)} (h : Run idrListStep {} log s) :
    s.Holds (liveHandles log) := by
  apply h.history (P := fun log s => s.Holds (liveHandles log)) IdrLists.holds_init
  intro log s l s' hs hstep
  obtain ⟨ht, hcall⟩ := hstep
  have hholds := (call_holds hs ht).2
  rw [hcall] at hholds
  rw [liveHandles_snoc]
  exact hholds

/-! ## The loops that try again -/

theorem ok_ne_again {β : Type} (b : β) : (.ok b : Except GemStop β) ≠ .error .again :=
  fun hc => by cases hc

theorem bind_ne_again {β γ : Type} {x : Except GemStop β} {f : β → Except GemStop γ}
    (hx : x ≠ .error .again) (hf : ∀ b, f b ≠ .error .again) : x.bind f ≠ .error .again := by
  cases x with
  | error e => exact fun hc => hx (congrArg Except.error (Except.error.inj hc))
  | ok b => exact hf b

theorem map_ne_again {β γ : Type} {x : Except GemStop β} {f : β → γ} (hx : x ≠ .error .again) :
    x.map f ≠ .error .again := by
  cases x with
  | error e => exact fun hc => hx (congrArg Except.error (Except.error.inj hc))
  | ok b => exact ok_ne_again _

theorem krefPut_ne_again {s : Gem} {o : Nat} {release : Gem → Except GemStop Gem}
    (h : ∀ s, release s ≠ .error .again) : krefPut s o release ≠ .error .again := by
  unfold krefPut
  dsimp only
  split
  · exact h _
  · exact ok_ne_again _

theorem gemObjectUnreference_ne_again (s : Gem) (o : Nat) :
    gemObjectUnreference s o ≠ .error .again :=
  krefPut_ne_again fun _ => ok_ne_again _

theorem gemObjectHandleFree_ne_again (s : Gem) (o : Nat) :
    gemObjectHandleFree s o ≠ .error .again := by
  unfold gemObjectHandleFree
  split
  · exact krefPut_ne_again fun _ hc => by cases hc
  · exact ok_ne_again _

theorem gemHandleDelete_ne_again (s : Gem) (file : Nat) (handle : UInt32) :
    gemHandleDelete s file handle ≠ .error .again := by
  unfold gemHandleDelete
  split
  · exact ok_ne_again _
  apply map_ne_again
  unfold gemObjectHandleUnreference
  split
  · exact ok_ne_again _
  dsimp only
  split
  · exact bind_ne_again (gemObjectHandleFree_ne_again _ _)
      fun s => gemObjectUnreference_ne_again s _
  · exact gemObjectUnreference_ne_again _ _

/-- The loop of `drm_gem_handle_create` ends at its second round if the file has a free handle. -/
theorem gemHandleCreate_ends {g : Gem} {file : Nat} (hi : g.ids.Ok) (ht : g.ids.NoWrap)
    {x : UInt32} (hx : IsHandle x) (hfree : idrListFind (g.files file) x = none) (o : Nat)
    (mem : Bool) (openRet : Int) (tries : Nat) :
    gemHandleCreate g file o mem openRet (tries + 2) ≠ .error .again := by
  have hdone : ∀ (g : Gem) {ret : Except Int UInt32} {ids : FrIds} {head : IdrList Nat} (n : Nat),
      idrListGetNewAbove g.ids (g.files file) o mem = (ret, ids, head) →
      ret ≠ .error (-EAGAIN) → gemHandleCreate g file o mem openRet (n + 1) ≠ .error .again := by
    intro g ret ids head n hget hret
    rw [gemHandleCreate, hget]
    cases ret with
    | error e =>
      have he : e ≠ -EAGAIN := fun hc => hret (congrArg Except.error hc)
      simp only [if_neg he]
      exact ok_ne_again _
    | ok handle =>
      dsimp only
      split
      · exact map_ne_again (gemHandleDelete_ne_again _ _ _)
      · exact ok_ne_again _
  obtain ⟨ret, ids, head, hget⟩ : ∃ ret ids head,
      idrListGetNewAbove g.ids (g.files file) o mem = (ret, ids, head) := ⟨_, _, _, rfl⟩
  by_cases hret : ret = .error (-EAGAIN)
  · subst hret
    obtain ⟨rfl, ret, ids', head', hget', hok, hnomem⟩ :=
      getNewAbove_again hi ht hget hx hfree o mem
    rw [gemHandleCreate, hget]
    simp only [if_true]
    apply hdone { g with ids := ids } tries hget'
    cases mem with
    | false =>
      rw [hnomem rfl]
      exact fun hc => absurd (Except.error.inj hc) (by decide)
    | true =>
      obtain ⟨id, hid⟩ := hok rfl
      rw [hid]
      exact fun hc => by cases hc
  · exact hdone g (tries + 1) hget hret

/-- So does the loop of `drm_gem_flink_ioctl` if there is a free name. -/
theorem gemFlinkName_ends {g : Gem} (hi : g.ids.Ok) (ht : g.ids.NoWrap) {x : UInt32}
    (hx : IsHandle x) (hfree : idrListFind g.objectNameIdr x = none) (o : Nat) (mem : Bool)
    (tries : Nat) : gemFlinkName g o mem (tries + 2) ≠ .error .again := by
  have hdone : ∀ (g : Gem) {ret : Except Int UInt32} {ids : FrIds} {head : IdrList Nat} (n : Nat),
      idrListGetNewAbove g.ids g.objectNameIdr o mem = (ret, ids, head) →
      ret ≠ .error (-EAGAIN) → gemFlinkName g o mem (n + 1) ≠ .error .again := by
    intro g ret ids head n hget hret
    rw [gemFlinkName, hget]
    split
    · cases ret with
      | error e =>
        have he : e ≠ -EAGAIN := fun hc => hret (congrArg Except.error hc)
        simp only [if_neg he]
        exact ok_ne_again _
      | ok name => exact ok_ne_again _
    · exact ok_ne_again _
  obtain ⟨ret, ids, head, hget⟩ : ∃ ret ids head,
      idrListGetNewAbove g.ids g.objectNameIdr o mem = (ret, ids, head) := ⟨_, _, _, rfl⟩
  by_cases hret : ret = .error (-EAGAIN)
  · subst hret
    obtain ⟨rfl, ret, ids', head', hget', hok, hnomem⟩ :=
      getNewAbove_again hi ht hget hx hfree o mem
    rw [gemFlinkName, hget]
    split
    · simp only [if_true]
      apply hdone { g with ids := ids } tries hget'
      cases mem with
      | false =>
        rw [hnomem rfl]
        exact fun hc => absurd (Except.error.inj hc) (by decide)
      | true =>
        obtain ⟨id, hid⟩ := hok rfl
        rw [hid]
        exact fun hc => by cases hc
    · exact ok_ne_again _
  · exact hdone g (tries + 1) hget hret

/-- **Handles.** In every run, `idr_list_get_new_above` returns a handle that is not in use in its
list, `idr_list_find` the object of a live handle and nothing else, and `idr_list_remove` takes the
handle it names; and a call that returns `-EAGAIN` with a handle free is followed by one that does
not, so that the loops of `drm_gem_handle_create` and `drm_gem_flink_ioctl` end. -/
theorem idr_lists_serve {log : List (IdrListCall Nat × IdrListRet Nat)} {s : IdrLists Nat}
    (h : Run idrListStep {} log s) :
    (∀ call, s.NoWrap call → (liveHandles log).Serves call (s.call call).1) ∧
    (∀ t obj mem, s.ids.NoWrap → (∃ id, IsHandle id ∧ liveHandles log t id = none) →
      ((s.call (.getNewAbove t obj mem)).1 = .handle (.error (-EAGAIN)) → ∀ obj' mem',
        let again := (s.call (.getNewAbove t obj mem)).2.call (.getNewAbove t obj' mem')
        (mem' = true → ∃ id, again.1 = .handle (.ok id)) ∧
          (mem' = false → again.1 = .handle (.error (-1)))) ∧
      ∀ g : Gem, g.ids = s.ids →
        (∀ file openRet n, g.files file = s.table t →
          gemHandleCreate g file obj mem openRet (n + 2) ≠ .error .again) ∧
        (∀ n, g.objectNameIdr = s.table t → gemFlinkName g obj mem (n + 2) ≠ .error .again)) := by
  have hs := run_holds h
  refine ⟨fun call ht => (call_holds hs ht).1, fun t obj mem ht hfree => ⟨?_, fun g hg => ?_⟩⟩
  · obtain ⟨x, hx, hnone⟩ := hfree
    rw [← hs.find] at hnone
    intro hret obj' mem'
    obtain ⟨ret, ids, head, hget⟩ : ∃ ret ids head,
        idrListGetNewAbove s.ids (s.table t) obj mem = (ret, ids, head) := ⟨_, _, _, rfl⟩
    simp only [IdrLists.call, hget, IdrListRet.handle.injEq] at hret ⊢
    subst hret
    obtain ⟨rfl, ret, ids', head', hget', hok, hnomem⟩ :=
      getNewAbove_again hs.ids ht hget hx hnone obj' mem'
    rw [Function.update_self, hget']
    exact ⟨hok, hnomem⟩
  · obtain ⟨x, hx, hnone⟩ := hfree
    rw [← hs.find] at hnone
    have hi := hs.ids
    rw [← hg] at hi ht
    refine ⟨fun file openRet n hfile => ?_, fun n hname => ?_⟩
    · rw [← hfile] at hnone
      exact gemHandleCreate_ends hi ht hx hnone obj mem openRet n
    · rw [← hname] at hnone
      exact gemFlinkName_ends hi ht hx hnone obj mem n

/-! ## A call that finds no memory -/

/-- With an empty list and no memory, a call moves the counter and does no more. -/
theorem getNewAbove_no_memory {ids : FrIds} {head : IdrList α} (obj : α)
    (hfree : ∀ id, idrListFind head id = none) (hlim : ids.frId.toNat + 1 < 0x7fffffff) :
    idrListGetNewAbove ids head obj false =
      (.error (-1), { ids with frId := ids.frId + 1 }, head) := by
  have hsucc : (ids.frId + 1).toNat = ids.frId.toNat + 1 := by
    rw [UInt32.toNat_add, UInt32.toNat_one]
    omega
  have hnext : ids.next = { ids with frId := ids.frId + 1 } := by
    rw [FrIds.next, if_neg]
    intro hc
    have hc' := congrArg UInt32.toNat hc
    rw [hsucc] at hc'
    simp only [UInt32.reduceToNat] at hc'
    omega
  have hlt : ids.frId + 1 < 0x7fffffff := by
    simp only [UInt32.lt_iff_toNat_lt, hsucc, UInt32.reduceToNat]
    exact hlim
  have havail : idrListAvailable head (0x7fffffff - (ids.frId + 1).toNat) (ids.frId + 1) =
      ids.frId + 1 := by
    obtain ⟨n, hn⟩ : ∃ n, 0x7fffffff - (ids.frId + 1).toNat = n + 1 :=
      ⟨_, (Nat.succ_pred_eq_of_pos (by omega)).symm⟩
    rw [hn, idrListAvailable, hfree, if_neg (by simp)]
  simp only [idrListGetNewAbove, hnext, havail, ite_self, hlt, not_true_eq_false, and_false,
    if_false, Bool.false_eq_true]

/-- The call that moves the counter on, and its result. -/
def pass : IdrListCall Nat × IdrListRet Nat := (.getNewAbove 1 0 false, .handle (.error (-1)))

section

variable {table : Nat → IdrList Nat} {k time : UInt32}

theorem pass_call {ids : FrIds} (hget : idrListGetNewAbove ⟨k, time⟩ (table 1) 0 false =
    (.error (-1), ids, table 1)) : IdrLists.call ⟨⟨k, time⟩, table⟩ pass.1 = (pass.2, ⟨ids, table⟩) := by
  simp only [pass, IdrLists.call, hget, Function.update_eq_self]

theorem pass_run (hfree : ∀ id, idrListFind (table 1) id = none) (n : Nat)
    (hn : k.toNat + n < 0x7fffffff) :
    Run idrListStep ⟨⟨k, time⟩, table⟩ (.replicate n pass) ⟨⟨k + .ofNat n, time⟩, table⟩ := by
  induction n with
  | zero =>
    have hzero : k + .ofNat 0 = k := by simp
    rw [hzero]
    exact .nil
  | succ n ih =>
    have hcount : (k + .ofNat n).toNat = k.toNat + n := by
      rw [UInt32.toNat_add, UInt32.toNat_ofNat']
      omega
    have hlim : (k + .ofNat n).toNat + 1 < 0x7fffffff := by
      rw [hcount]
      omega
    have hget : idrListGetNewAbove ⟨k + .ofNat n, time⟩ (table 1) 0 false = _ :=
      getNewAbove_no_memory 0 hfree hlim
    rw [List.replicate_succ', UInt32.ofNat_add, ← UInt32.add_assoc]
    refine .snoc (ih (by omega)) ⟨?_, pass_call hget⟩
    intro hc
    have hc' := congrArg UInt32.toNat hc
    rw [UInt32.toNat_add, hcount] at hc'
    simp only [UInt32.reduceToNat] at hc'
    omega

end

/-- The lists in the run of `nearEnd_reached`: list 0 has the handle 0x7ffffffe alone. -/
def lastHandle : Nat → IdrList Nat :=
  Function.update (fun _ => idrListInit) 0 (idrListInit.add 0x7ffffffe 7)

/-- The counter has been reset and comes to the one handle in use next. -/
theorem nearEnd_reached :
    ∃ log, Run idrListStep {} log ⟨⟨0x7ffffffd, 1⟩, lastHandle⟩ ∧ liveHandles log 0 1 = none := by
  have hstart : Run idrListStep {} (.replicate 0x7ffffffd pass)
      ⟨⟨0x7ffffffd, 0⟩, fun _ => idrListInit⟩ := pass_run (fun _ => rfl) _ (by decide)
  have hnew : Run idrListStep {} _ ⟨⟨0x7ffffffe, 0⟩, lastHandle⟩ :=
    hstart.snoc (l := (.getNewAbove 0 7 true, .handle (.ok 0x7ffffffe)))
      ⟨by unfold IdrLists.NoWrap FrIds.NoWrap; decide, rfl⟩
  have hreset : Run idrListStep {} _ ⟨⟨1, 1⟩, lastHandle⟩ :=
    hnew.snoc (l := pass) ⟨by unfold IdrLists.NoWrap pass FrIds.NoWrap; decide, pass_call rfl⟩
  have hend := hreset.append (pass_run (fun _ => rfl) 0x7ffffffc (by decide))
  refine ⟨_, hend, ?_⟩
  rw [← (run_holds hend).find]
  rfl

/-- The call that is made again returns -1 if it finds no memory. -/
theorem again_without_memory : ¬ ∀ (log : List (IdrListCall Nat × IdrListRet Nat))
    (s : IdrLists Nat), Run idrListStep {} log s → ∀ t obj mem, s.ids.NoWrap →
      (∃ id, IsHandle id ∧ liveHandles log t id = none) →
      (s.call (.getNewAbove t obj mem)).1 = .handle (.error (-EAGAIN)) → ∀ obj' mem',
        ∃ id, ((s.call (.getNewAbove t obj mem)).2.call (.getNewAbove t obj' mem')).1 =
          .handle (.ok id) := by
  intro h
  obtain ⟨log, hrun, hfree⟩ := nearEnd_reached
  have hwrap : FrIds.NoWrap ⟨0x7ffffffd, 1⟩ := by
    unfold FrIds.NoWrap
    decide
  obtain ⟨id, hid⟩ := h log _ hrun 0 0 true hwrap ⟨1, ⟨by decide, by decide⟩, hfree⟩ rfl 0 false
  cases hid

/-- Two lists with a handle each. -/
theorem idr_lists_serve_two :
    Run idrListStep {} [(.getNewAbove 0 5 true, .handle (.ok 1)),
      (.getNewAbove 1 6 true, .handle (.ok 2))]
      ⟨⟨2, 0⟩, Function.update (Function.update (fun _ => idrListInit) 0 (idrListInit.add 1 5)) 1
        (idrListInit.add 2 6)⟩ ∧
    liveHandles [(.getNewAbove 0 5 true, .handle (.ok 1)),
      (.getNewAbove 1 6 true, .handle (.ok 2))] 0 1 = some 5 := by
  have hone : Run idrListStep {} [(.getNewAbove 0 5 true, .handle (.ok 1))]
      ⟨⟨1, 0⟩, Function.update (fun _ => idrListInit) 0 (idrListInit.add 1 5)⟩ :=
    Run.nil.snoc ⟨by unfold IdrLists.NoWrap FrIds.NoWrap; decide, rfl⟩
  have htwo := hone.snoc (l := (.getNewAbove 1 6 true, .handle (.ok 2)))
    ⟨by unfold IdrLists.NoWrap FrIds.NoWrap; decide, rfl⟩
  exact ⟨htwo, ((idr_lists_serve htwo).1 (.find 0 1) trivial).symm⟩

end Drm
