import Mathlib.Data.List.Perm.Subperm
import SolarisXorg.Fbconf.Synonyms

/-!
# What the command line adds (`fbc_getargs.c`)

`Adds`: a handler adds the Option entries that its words ask for, or it exits where they contradict
one another, whatever is in `.Option_mods[]` (`handle_adds`, `getopt_adds`). By induction on its
words a command line does (`getargsFrom_adds`). So:

- it is accepted iff what it asks for is consistent (`getargs_accepts`),
- an Option that it asks for has the truth value of any request for it (`truth_of_request`), and the
  others have none (`truth_of_no_request`).
-/

namespace Getargs

open Lib Fbc ResComp

variable {V : Varient} {env : Env} {v : Fbvar} {size sectn : Nat}

/-! ## Requests and Option entries -/

/-- The entry for a request. -/
def Request.mod (r : Request) : OptMod := ⟨r.sectn, r.name, some r.value⟩

/-- One of the options asks for this. -/
def Varient.Allows (V : Varient) (r : Request) : Prop :=
  ∃ d ∈ V.options, r.key ∈ d.keys ∧ r.strcmpFn = d.getoptFn.strcmpFn

/-- The entries are those for the requests that are kept. -/
structure Varient.Holds (V : Varient) (v : Fbvar) (kept : List Request) : Prop where
  mods : v.optionMods = kept.map Request.mod
  allows : ∀ r ∈ kept, V.Allows r
  nodup : (kept.map Request.key).Nodup

theorem isOption_mod (r m : Request) :
    OptMod.isOption r.sectn r.name m.mod = decide (m.key = r.key) := by
  rw [OptMod.isOption, strcaseEq, Request.mod, ← Bool.decide_and, decide_eq_decide, Request.key,
    Request.key, Prod.mk.injEq]
  exact and_congr eq_comm eq_comm

/-- The values of an Option are all compared in the same way. -/
theorem sameValue_mod {r m : Request} (hr : V.Allows r) (hm : V.Allows m) (hkey : m.key = r.key) :
    sameValue r.strcmpFn (some r.value) m.mod.value = decide (r.val = m.val) := by
  obtain ⟨d, hd, hrk, hrf⟩ := hr
  obtain ⟨d', hd', hmk, hmf⟩ := hm
  have hfn : r.strcmpFn = m.strcmpFn := by
    rw [hrf, hmf]
    exact V.kinds d hd d' hd' _ hrk (hkey ▸ hmk)
  rw [Request.val, Request.val, ← hfn]
  cases r.strcmpFn <;> rfl

/-- There is always room. -/
theorem Varient.Holds.room {kept : List Request} {r : Request} (h : V.Holds v kept)
    (hr : V.Allows r) (hne : ∀ m ∈ kept, m.key ≠ r.key) : v.optionMods.length + 1 < V.size := by
  have hnodup : (r.key :: kept.map Request.key).Nodup := by
    rw [List.nodup_cons]
    refine ⟨fun hmem => ?_, h.nodup⟩
    obtain ⟨m, hm, he⟩ := List.mem_map.1 hmem
    exact hne m hm he
  have hsub : r.key :: kept.map Request.key ⊆ (V.options.flatMap Descr.keys).dedup := by
    intro k hk
    rw [List.mem_dedup, List.mem_flatMap]
    rcases List.mem_cons.1 hk with rfl | hk
    · obtain ⟨d, hd, hkey, -⟩ := hr
      exact ⟨d, hd, hkey⟩
    · obtain ⟨m, hm, rfl⟩ := List.mem_map.1 hk
      obtain ⟨d, hd, hkey, -⟩ := h.allows m hm
      exact ⟨d, hd, hkey⟩
  have hle := (hnodup.subperm hsub).length_le
  have hroom := V.room
  rw [h.mods, List.length_map]
  rw [List.length_cons, List.length_map] at hle
  omega

/-! ## Handlers -/

/-- From a state, what is asked for is added, or the program exits. -/
def Varient.Adds {α ε : Type} (V : Varient) (v : Fbvar) (rs : Option (List Request))
    (x : Except ε α) (state : α → Fbvar) : Prop :=
  ∀ kept, V.Holds v kept →
    (∃ out a, rs.bind (assignAll Request.key Request.val kept) = some out ∧ x = .ok a ∧
      V.Holds (state a) out) ∨
    rs.bind (assignAll Request.key Request.val kept) = none ∧ ∃ e, x = .error e

section Adds

variable {α β ε ε' : Type} {x : Except ε α} {y : Except ε' β} {state : α → Fbvar}
  {state' : β → Fbvar} {rs : Option (List Request)} {k : List Request}

/-- Nothing is asked for. -/
theorem adds_nil {a : α} (h : (state a).optionMods = v.optionMods) :
    V.Adds v (some []) (Except.ok (ε := ε) a) state :=
  fun kept hk => .inl ⟨kept, a, rfl, rfl, h.trans hk.mods, hk.allows, hk.nodup⟩

/-- There is an error in the words. -/
theorem adds_error (e : ε) : V.Adds v none (Except.error (α := α) e) state :=
  fun _ _ => .inr ⟨rfl, e, rfl⟩

/-- One after the other. -/
theorem Varient.Adds.seq {ks : Option (List Request)} (hx : V.Adds v ks x state)
    (rs : Option (List Request)) (hok : ∀ a, x = .ok a → V.Adds (state a) rs y state')
    (herr : ∀ e, x = .error e → ∃ e', y = .error e') :
    V.Adds v (ks.bind fun k => rs.map (k ++ ·)) y state' := by
  intro kept hkept
  have hsplit : (ks.bind fun k => rs.map (k ++ ·)).bind
        (assignAll Request.key Request.val kept) =
      (ks.bind (assignAll Request.key Request.val kept)).bind fun out =>
        rs.bind (assignAll Request.key Request.val out) := by
    cases ks with
    | none => rfl
    | some k =>
      cases rs with
      | none => exact (Option.bind_fun_none _).symm
      | some l => exact List.foldlM_append
  rw [hsplit]
  rcases hx kept hkept with ⟨out, a, hout, ha, hholds⟩ | ⟨hnone, e, he⟩
  · rw [hout, Option.bind_some]
    exact hok a ha out hholds
  · rw [hnone]
    exact .inr ⟨rfl, herr e he⟩

/-- What is done with the result does not matter if it leaves the entries alone. -/
theorem Varient.Adds.congr {f : α → β} {g : ε → ε'} (hx : V.Adds v rs x state)
    (hok : ∀ a, x = .ok a → y = .ok (f a)) (herr : ∀ e, x = .error e → y = .error (g e))
    (hf : ∀ a, (state' (f a)).optionMods = (state a).optionMods) : V.Adds v rs y state' := by
  intro kept hkept
  rcases hx kept hkept with ⟨out, a, hout, ha, hholds⟩ | ⟨hnone, e, he⟩
  · exact .inl ⟨out, f a, hout, hok a ha, (hf a).trans hholds.mods, hholds.allows, hholds.nodup⟩
  · exact .inr ⟨hnone, g e, herr e he⟩

/-- Only the entries matter. -/
theorem Varient.Adds.of_mods {w : Fbvar} (hx : V.Adds w rs x state)
    (h : w.optionMods = v.optionMods) : V.Adds v rs x state :=
  fun kept hkept => hx kept ⟨h.trans hkept.mods, hkept.allows, hkept.nodup⟩

theorem Varient.Adds.map {f : α → β} (hx : V.Adds v rs x state)
    (hf : ∀ a, (state' (f a)).optionMods = (state a).optionMods) :
    V.Adds v rs (x.map f) state' :=
  hx.congr (g := id) (fun a ha => by rw [ha]; rfl) (fun e he => by rw [he]; rfl) hf

end Adds

/-- `fbc_add_Option_mod` -/
theorem addOptionMod_adds {r : Request} (hr : V.Allows r) :
    V.Adds v (some [r]) (addOptionMod V.size r.sectn r.name (some r.value) r.strcmpFn v)
      Prod.fst := by
  intro kept hkept
  have hassign : (some [r]).bind (assignAll Request.key Request.val kept) =
      assign Request.key Request.val kept r := by
    rw [Option.bind_some, assignAll, List.foldlM_cons]
    exact bind_pure _
  have hfind : v.optionMods.find? (OptMod.isOption r.sectn r.name) =
      (kept.find? fun m => m.key = r.key).map Request.mod := by
    rw [hkept.mods, List.find?_map]
    congr 2
    funext m
    exact isOption_mod r m
  rw [hassign, assign, addOptionMod]
  dsimp only
  rw [hfind]
  cases hm : kept.find? fun m => m.key = r.key with
  | some m =>
    have hmem := List.mem_of_find?_eq_some hm
    have hkey : m.key = r.key := by simpa using List.find?_some hm
    rw [Option.map_some]
    dsimp only
    rw [sameValue_mod hr (hkept.allows m hmem) hkey]
    by_cases hval : r.val = m.val
    case neg =>
      rw [if_neg hval, if_neg (by simpa using hval)]
      exact .inr ⟨rfl, _, rfl⟩
    rw [if_pos hval, if_pos (by simpa using hval)]
    exact .inl ⟨kept, _, rfl, rfl, hkept.mods, hkept.allows, hkept.nodup⟩
  | none =>
    have hne : ∀ m ∈ kept, m.key ≠ r.key := fun m hmem => by
      simpa using List.find?_eq_none.1 hm m hmem
    have hroom := hkept.room hr hne
    rw [Option.map_none]
    dsimp only
    rw [if_neg (by omega)]
    have htaken : assign Request.key Request.val kept r = some (kept ++ [r]) := by rw [assign, hm]
    refine .inl ⟨kept ++ [r], _, rfl, rfl, ?_, ?_, assign_nodup htaken hkept.nodup⟩
    · dsimp only
      rw [hkept.mods, List.map_append]
      rfl
    · intro m hmem
      rcases List.mem_append.1 hmem with hmem | hmem
      · exact hkept.allows m hmem
      · rw [List.mem_singleton.1 hmem]
        exact hr

theorem resetGanged_adds {reset : Word} {strcmpFn : StrcmpFn} {conflict : Exit}
    {ganged : List Word} (h : ∀ name ∈ ganged, V.Allows ⟨sectn, name, reset, strcmpFn⟩) :
    V.Adds v (some (ganged.map fun name => ⟨sectn, name, reset, strcmpFn⟩))
      (resetGanged V.size sectn reset strcmpFn conflict ganged v) id := by
  induction ganged generalizing v with
  | nil => exact adds_nil rfl
  | cons name ganged ih =>
    have hone := addOptionMod_adds (v := v) (h name (.head _))
    refine hone.seq (some (ganged.map fun name => ⟨sectn, name, reset, strcmpFn⟩))
      (fun a ha => ?_) fun e he => ?_
    · dsimp only at ha
      rw [resetGanged, ha]
      exact ih fun name hname => h name (.tail _ hname)
    · dsimp only at he
      rw [resetGanged, he]
      exact ⟨_, rfl⟩

section Handlers

variable {d : Descr} {names : Names} {opt arg : Word}

/-- The Options of a descriptor are allowed. -/
theorem allows_name (hd : d ∈ V.options) {name : Word} (hname : name ∈ d.getoptFn.names)
    {strcmpFn : StrcmpFn} (hfn : strcmpFn = d.getoptFn.strcmpFn) (value : Word) :
    V.Allows ⟨d.sectn, name, value, strcmpFn⟩ :=
  ⟨d, hd, List.mem_map.2 ⟨name, hname, rfl⟩, hfn⟩

/-- `fbc_add_radio_Option_mod` after the keyword look-up -/
theorem addRadio_adds (hd : d ∈ V.options)
    (hnames : d.getoptFn.names = names.name :: names.ganged) {strcmpFn : StrcmpFn}
    (hfn : strcmpFn = d.getoptFn.strcmpFn) (value : Word) (reset : Option Word) :
    V.Adds v (some (radioRequests d.sectn names value strcmpFn reset))
      (addRadio V.size d.sectn names value strcmpFn reset opt arg v) Prod.fst := by
  have hown := addOptionMod_adds (v := v)
    (allows_name hd (hnames ▸ .head _ : names.name ∈ d.getoptFn.names) hfn value)
  dsimp only at hown
  cases reset with
  | none =>
    refine hown.congr (f := id) (g := fun e => e.exit (.conflict opt arg)) (fun a ha => ?_)
      (fun e he => ?_) fun _ => rfl
    · rw [addRadio, ha]
      rfl
    · rw [addRadio, he]
  | some reset =>
    rw [radioRequests]
    refine hown.seq (some (if strcaseEq value reset = true then []
      else names.ganged.map fun name => ⟨d.sectn, name, reset, strcmpFn⟩))
      (fun a ha => ?_) fun e he => ?_
    · rw [addRadio, ha]
      dsimp only
      split
      · exact adds_nil rfl
      · have hganged : ∀ name ∈ names.ganged, V.Allows ⟨d.sectn, name, reset, strcmpFn⟩ :=
          fun name hname => allows_name hd (hnames ▸ .tail _ hname : name ∈ d.getoptFn.names) hfn _
        exact (resetGanged_adds hganged).map fun _ => rfl
    · rw [addRadio, he]
      exact ⟨_, rfl⟩

/-- `fbc_add_radio_Option_mod` without a keyword look-up -/
theorem addRadioOptionMod_adds (hd : d ∈ V.options)
    (hnames : d.getoptFn.names = names.name :: names.ganged)
    (hfn : .strcmp = d.getoptFn.strcmpFn) (opt arg : Word) (reset : Option Word) :
    V.Adds v (some (radioRequests d.sectn names arg .strcmp reset))
      (addRadioOptionMod V.size d names none reset opt arg v) Prod.fst :=
  addRadio_adds hd hnames hfn arg reset

/-- `fbc_Option_keyword` -/
theorem optionKeyword_adds (hd : d ∈ V.options) {keywds : KeywdTable}
    (hfn : d.getoptFn = .optionKeyword keywds names) :
    V.Adds v ((searchKeywds Keywd.argvName arg keywds.keywds).toOption.map fun ent =>
        radioRequests d.sectn names ent.conf .strcasecmp keywds.reset)
      (addRadioOptionMod V.size d names (some keywds.keywds) keywds.reset opt arg v)
      Prod.fst := by
  rw [addRadioOptionMod, searchOptvals]
  cases searchKeywds Keywd.argvName arg keywds.keywds with
  | error e => cases e <;> exact adds_error _
  | ok ent => exact addRadio_adds hd (by rw [hfn]; rfl) (by rw [hfn]; rfl) _ _

theorem optionInt_adds (hd : d ∈ V.options) {name : Word} (hfn : d.getoptFn = .optionInt name) :
    V.Adds v (if isInteger arg then some [⟨d.sectn, name, arg, .strcasecmp⟩] else none)
      (optionInt V.size d name opt arg v) id := by
  rw [optionInt]
  split
  · have hone := addOptionMod_adds (v := v)
      (allows_name hd (by rw [hfn]; exact .head _) (by rw [hfn]; rfl : .strcasecmp = _) arg)
    refine hone.congr (f := Prod.fst) (g := fun e => e.exit (.conflict opt arg)) (fun a ha => ?_)
      (fun e he => ?_) fun _ => rfl
    · rw [ha]
    · rw [he]
  · exact adds_error _

theorem optionStreamOffset_adds (hd : d ∈ V.options) {xName yName x y : Word}
    (hfn : d.getoptFn = .optionStreamOffset xName yName) :
    V.Adds v (if isInteger x && isInteger y then
        some [⟨d.sectn, xName, x, .strcasecmp⟩, ⟨d.sectn, yName, y, .strcasecmp⟩] else none)
      (optionStreamOffset V.size d xName yName opt x y v) id := by
  rw [optionStreamOffset]
  cases isInteger x with
  | false => exact adds_error _
  | true =>
    cases isInteger y with
    | false => exact adds_error _
    | true =>
      have hx := addOptionMod_adds (v := v)
        (allows_name hd (by rw [hfn]; exact .head _) (by rw [hfn]; rfl : .strcasecmp = _) x)
      refine hx.seq (some [⟨d.sectn, yName, y, .strcasecmp⟩]) (fun a ha => ?_) fun e he => ?_
      · have hy := addOptionMod_adds (v := a.1)
          (allows_name hd (by rw [hfn]; exact .tail _ (.head _))
            (by rw [hfn]; rfl : .strcasecmp = _) y)
        dsimp only at ha
        refine hy.congr (f := Prod.fst) (g := fun e => e.exit (.conflictOffset opt x y))
          (fun b hb => ?_) (fun e he => ?_) fun _ => rfl
        · rw [if_neg (by decide), if_neg (by decide), ha]
          dsimp only
          rw [hb]
        · rw [if_neg (by decide), if_neg (by decide), ha]
          dsimp only
          rw [he]
      · rw [if_neg (by decide), if_neg (by decide), he]
        exact ⟨_, rfl⟩

theorem optFile_adds {keywds : List Keywd} :
    V.Adds v (if arg.head? = some 0x2f then if env.issetugid then none else some []
        else if areKeywds keywds [arg] then some [] else none)
      (optFile env d keywds opt arg v) id := by
  rw [optFile]
  split
  · split
    · exact adds_error _
    · exact adds_nil rfl
  · rw [areKeywds, searchOptvals, List.all_cons, List.all_nil, Bool.and_true]
    cases searchKeywds Keywd.argvName arg keywds with
    | error e => cases e <;> exact adds_error _
    | ok ent => exact adds_nil rfl

theorem optGamma_adds (hd : d ∈ V.options) {names : Option Names}
    (hfn : d.getoptFn = .optGamma names) :
    V.Adds v (if env.validGamma arg then
        some (names.elim [] fun names => radioRequests d.sectn names arg .strcmp (some (chars "")))
      else none) (optGamma env V.size d names opt arg v) id := by
  unfold optGamma
  split
  · cases names with
    | none => exact adds_nil rfl
    | some names =>
      have hradio := addRadioOptionMod_adds (v := { v with gamma := .value arg }) hd
        (by rw [hfn]; rfl) (by rw [hfn]; rfl) opt arg (some (chars ""))
      refine Varient.Adds.of_mods (hradio.map fun _ => ?_) rfl
      rfl
  · exact adds_error _

theorem optionGFile_adds (hd : d ∈ V.options) (hfn : d.getoptFn = .optionGFile names) :
    V.Adds v (some (radioRequests d.sectn names arg .strcmp (some (chars "2.22"))))
      (optionGFile V.size d names opt arg v) id := by
  have hradio := addRadioOptionMod_adds (v := { v with gfileInPath := some arg }) hd
    (by rw [hfn]; rfl) (by rw [hfn]; rfl) opt arg (some (chars "2.22"))
  rw [optionGFile]
  refine Varient.Adds.of_mods (hradio.congr (g := id) (f := fun a => { a.1 with
      gamma := .deleted
      gfileOutPath := if arg ≠ [] ∧ a.1.gfileOutPath = none then some a.2 else a.1.gfileOutPath })
    (fun a ha => ?_) (fun e he => ?_) fun _ => rfl) rfl
  · rw [ha]
  · rw [he]
    rfl

theorem areKeywds_cons (keywds : List Keywd) (w : Word) (ws : List Word) :
    areKeywds keywds (w :: ws) =
      ((searchKeywds Keywd.argvName w keywds).toOption.isSome && areKeywds keywds ws) :=
  List.all_cons

/-- The words that look like arguments must all be keywords. -/
theorem optionalArgs_spec (d : Descr) (keywds : List Keywd) (set : OptSet → Nat → OptSet)
    (ws : List Word) (o : OptSet) :
    (areKeywds keywds (ws.takeWhile isArgument) = true ∧
        ∃ o', optionalArgs d keywds set ws o = .ok (o', (ws.takeWhile isArgument).length)) ∨
      areKeywds keywds (ws.takeWhile isArgument) = false ∧
        ∃ e, optionalArgs d keywds set ws o = .error e := by
  induction ws generalizing o with
  | nil => exact .inl ⟨rfl, o, rfl⟩
  | cons w ws ih =>
    rw [optionalArgs, List.takeWhile_cons]
    cases isArgument w with
    | false => exact .inl ⟨rfl, o, rfl⟩
    | true =>
      rw [if_pos rfl, if_pos rfl, areKeywds_cons, searchOptvals]
      cases searchKeywds Keywd.argvName w keywds with
      | error e => cases e <;> exact .inr ⟨rfl, _, rfl⟩
      | ok ent =>
        rcases ih (set o ent.value) with ⟨hall, o', ho'⟩ | ⟨hall, e, he⟩
        · exact .inl ⟨hall, o', by dsimp only; rw [ho']; rfl⟩
        · exact .inr ⟨hall, e, by dsimp only; rw [he]; rfl⟩

/-- A handler that takes no more words than `option_args`. -/
theorem Varient.Adds.noExtra {α ε : Type} {x : Except ε α} {state : α → Fbvar}
    {rs : Option (List Request)} (hx : V.Adds v rs x state) :
    V.Adds v rs (x.map fun a => (state a, 0)) Prod.fst ∧
      ∀ a, (x.map fun a => (state a, 0)) = .ok a → a.2 = 0 := by
  refine ⟨hx.map fun _ => rfl, fun a ha => ?_⟩
  cases x with
  | error e => cases ha
  | ok b =>
    cases ha
    rfl

/-- `fbc_opt_predid` -/
theorem optPredid_adds (args : List Word) :
    V.Adds v (if areKeywds keywdsPredid (args.takeWhile isArgument) then some [] else none)
      (optPredid d args v) Prod.fst ∧
      ∀ a, optPredid d args v = .ok a → a.2 = (args.takeWhile isArgument).length := by
  rw [optPredid]
  rcases optionalArgs_spec d keywdsPredid OptSet.predid args
    { v.optionSet with predidRaw := false, predidParsed := false } with
    ⟨hall, o, ho⟩ | ⟨hall, e, he⟩
  · rw [hall, ho]
    refine ⟨adds_nil rfl, fun a ha => ?_⟩
    cases ha
    rfl
  · rw [hall, he]
    exact ⟨adds_error e, fun a ha => (by cases ha)⟩

/-- `fbc_opt_res` -/
theorem optRes_adds (keywds : Option (List Keywd)) (arg : Word) (args : List Word) :
    V.Adds v (keywds.elim (some []) fun keywds =>
        if arg = chars "?" || areKeywds keywds (args.takeWhile isArgument) then some [] else none)
      (optRes d keywds arg args v) Prod.fst ∧
      ∀ a, optRes d keywds arg args v = .ok a →
        a.2 = keywds.elim 0 fun _ =>
          if arg = chars "?" then 0 else (args.takeWhile isArgument).length := by
  rw [optRes]
  by_cases hlist : arg = chars "?"
  case pos =>
    rw [if_pos hlist]
    have hasked : (keywds.elim (some []) fun keywds =>
        if arg = chars "?" || areKeywds keywds (args.takeWhile isArgument) then some []
        else none) = some ([] : List Request) := by
      cases keywds with
      | none => rfl
      | some keywds => rw [Option.elim_some, decide_eq_true hlist, Bool.true_or, if_pos rfl]
    rw [hasked]
    refine ⟨adds_nil rfl, fun a ha => ?_⟩
    cases ha
    cases keywds with
    | none => rfl
    | some keywds => rw [Option.elim_some, if_pos hlist]
  rw [if_neg hlist]
  cases keywds with
  | none =>
    refine ⟨adds_nil rfl, fun a ha => ?_⟩
    cases ha
    rfl
  | some keywds =>
    dsimp only
    rw [Option.elim_some, Option.elim_some, if_neg hlist, decide_eq_false hlist, Bool.false_or]
    rcases optionalArgs_spec d keywds OptSet.res args _ with ⟨hall, o, ho⟩ | ⟨hall, e, he⟩
    · rw [hall, ho]
      refine ⟨adds_nil rfl, fun a ha => ?_⟩
      cases ha
      rfl
    · rw [hall, he]
      exact ⟨adds_error e, fun a ha => (by cases ha)⟩

/-- A handler adds what its words ask for, and takes as many words as it is said to. -/
theorem handle_adds (env : Env) (hd : d ∈ V.options) (opt : Word) (args : List Word) :
    V.Adds v (d.requests env args) (d.handle env V.size opt args v) Prod.fst ∧
      ∀ a, d.handle env V.size opt args v = .ok a → a.2 = d.extra args := by
  unfold Descr.requests Descr.handle Descr.extra
  cases hfn : d.getoptFn with
  | optDefaults => exact ⟨adds_nil rfl, fun a ha => by cases ha; rfl⟩
  | optHelp => exact ⟨adds_nil rfl, fun a ha => by cases ha; rfl⟩
  | optPrconf => exact ⟨adds_nil rfl, fun a ha => by cases ha; rfl⟩
  | optPropt => exact ⟨adds_nil rfl, fun a ha => by cases ha; rfl⟩
  | optPredid => exact optPredid_adds args
  | optDev =>
    cases args with
    | nil => exact ⟨adds_error _, fun a ha => (by cases ha)⟩
    | cons arg args => exact ⟨adds_nil rfl, fun a ha => by cases ha; rfl⟩
  | optionKeyword keywds names =>
    cases args with
    | nil => exact ⟨adds_error _, fun a ha => (by cases ha)⟩
    | cons arg args => exact (optionKeyword_adds hd hfn).noExtra
  | optionInt name =>
    cases args with
    | nil => exact ⟨adds_error _, fun a ha => (by cases ha)⟩
    | cons arg args => exact (optionInt_adds hd hfn).noExtra
  | optionStreamOffset xName yName =>
    match args with
    | [] | [_] => exact ⟨adds_error _, fun a ha => (by cases ha)⟩
    | x :: y :: args => exact (optionStreamOffset_adds hd hfn).noExtra
  | optFile keywds =>
    cases args with
    | nil => exact ⟨adds_error _, fun a ha => (by cases ha)⟩
    | cons arg args => exact optFile_adds.noExtra
  | optGamma names =>
    cases args with
    | nil => exact ⟨adds_error _, fun a ha => (by cases ha)⟩
    | cons arg args =>
      have hgamma : V.Adds v _ (optGamma env V.size d names opt arg v) id := optGamma_adds hd hfn
      cases names <;> exact hgamma.noExtra
  | optionGFile names =>
    cases args with
    | nil => exact ⟨adds_error _, fun a ha => (by cases ha)⟩
    | cons arg args => exact (optionGFile_adds hd hfn).noExtra
  | optRes keywds =>
    cases args with
    | nil => exact ⟨adds_error _, fun a ha => (by cases ha)⟩
    | cons arg args =>
      have hres := optRes_adds (V := V) (v := v) (d := d) keywds arg args
      cases keywds <;> exact hres

/-- `fbc_opt_defaults` -/
theorem defaults_adds {ds : List Descr} (hds : ∀ d ∈ ds, d ∈ V.options) :
    V.Adds v (defaultsRequests env ds) (defaults env V.size ds v) id := by
  induction ds generalizing v with
  | nil => exact adds_nil rfl
  | cons d ds ih =>
    have hrest : ∀ d ∈ ds, d ∈ V.options := fun d hd => hds d (.tail _ hd)
    rw [defaultsRequests, defaults]
    cases d.defaultsArgv with
    | none => exact ih hrest
    | some argv =>
      dsimp only
      split
      · exact ih hrest
      · have hone := (handle_adds (v := v) env (hds d (.head _)) argv.opt argv.args).1
        refine hone.seq (defaultsRequests env ds) (fun a ha => ?_) fun e he => ?_
        · rw [ha]
          exact ih hrest
        · rw [he]
          exact ⟨e, rfl⟩

/-- The handler of an option. -/
theorem getopt_adds (env : Env) (hd : d ∈ V.options) (opt : Word) (args : List Word) :
    V.Adds v (V.requests env d args) (V.getopt env d opt args v) Prod.fst ∧
      ∀ a, V.getopt env d opt args v = .ok a → a.2 = d.extra args := by
  have hone := handle_adds (v := v) env hd opt args
  rw [Varient.requests.eq_def, Varient.getopt.eq_def]
  cases hfn : d.getoptFn with
  | optDefaults =>
    have hextra : d.extra args = 0 := by
      unfold Descr.extra
      rw [hfn]
    rw [hextra]
    exact (defaults_adds fun d hd => hd).noExtra
  | _ => exact hone

end Handlers

/-! ## The command line -/

theorem searchFrom_mem {α : Type} {name : α → List UInt8} {keywd : List UInt8}
    {found : Except KwdError α} {table : List α} {ent : α}
    (h : searchFrom name keywd found table = .ok ent) : found = .ok ent ∨ ent ∈ table := by
  induction table generalizing found with
  | nil => exact .inl h
  | cons a table ih =>
    unfold searchFrom at h
    split at h
    case isFalse => exact (ih h).imp_right (.tail _)
    split at h
    case isTrue =>
      cases h
      exact .inr (.head _)
    split at h
    · rcases ih h with ho | hmem
      · cases ho
        exact .inr (.head _)
      · exact .inr (.tail _ hmem)
    · rcases ih h with ho | hmem
      · cases ho
      · exact .inr (.tail _ hmem)

theorem searchKeywds_mem {α : Type} {name : α → List UInt8} {keywd : List UInt8} {table : List α}
    {ent : α} (h : searchKeywds name keywd table = .ok ent) : ent ∈ table :=
  (searchFrom_mem h).resolve_left fun ho => (by cases ho)

/-- The loop of `fbc_getargs` adds what the command line asks for. -/
theorem getargsFrom_adds (skip : Nat) (argv : List Word) :
    V.Adds v (V.requestsFrom env skip argv) (V.getargsFrom env skip argv v) id := by
  induction argv generalizing skip v with
  | nil => cases skip <;> exact adds_nil rfl
  | cons opt argv ih =>
    cases skip with
    | succ skip => exact ih skip
    | zero =>
      rw [Varient.requestsFrom, Varient.getargsFrom, Varient.option]
      cases isArgument opt with
      | true => exact adds_error _
      | false =>
        rw [if_neg (by decide), if_neg (by decide)]
        cases hs : searchKeywds Descr.argvName opt.tail V.options with
        | error e => cases e <;> exact adds_error _
        | ok d =>
          dsimp only [Except.toOption, Option.bind_some]
          split
          · exact adds_error _
          · obtain ⟨hone, hextra⟩ := getopt_adds (v := v) env
              (searchKeywds_mem hs) opt argv
            refine hone.seq (V.requestsFrom env (d.getoptFn.optionArgs + d.extra argv) argv)
              (fun a ha => ?_) fun e he => ?_
            · rw [ha, ← hextra a ha]
              exact ih _
            · rw [he]
              exact ⟨e, rfl⟩

theorem holds_nil (h : v.optionMods = []) : V.Holds v [] :=
  ⟨h, fun _ hr => (by cases hr), List.nodup_nil⟩

/-- `fbc_getargs` takes what the command line asks for, or it exits. -/
theorem getargs_spec (V : Varient) (env : Env) (v : Fbvar) (argv : List Word) :
    (env.malloc = true ∧ ∃ rs out u, V.requestsFrom env 0 argv = some rs ∧
        assignAll Request.key Request.val [] rs = some out ∧ V.getargs env argv v = .ok u ∧
        V.Holds u out) ∨
      (env.malloc = true → ∀ rs, V.requestsFrom env 0 argv = some rs →
        assignAll Request.key Request.val [] rs = none) ∧ ∃ e, V.getargs env argv v = .error e := by
  rw [Varient.getargs]
  by_cases hmem : env.malloc = true
  case neg =>
    rw [if_neg hmem]
    exact .inr ⟨fun h => absurd h hmem, _, rfl⟩
  rw [if_pos hmem]
  rcases getargsFrom_adds (V := V) 0 argv [] (holds_nil (V := V) (v := { v with
      gamma := .notSet
      videoModeName := none
      optionMods := []
      modifyConfig := 0 }) rfl) with ⟨out, u, hout, hu, hholds⟩ | ⟨hnone, e, he⟩
  · obtain ⟨rs, hrs, hout⟩ := Option.bind_eq_some_iff.1 hout
    exact .inl ⟨hmem, rs, out, u, hrs, hout, hu, hholds⟩
  · refine .inr ⟨fun _ rs hrs => ?_, e, he⟩
    rwa [hrs, Option.bind_some] at hnone

/-- **A command line is accepted iff what it asks for is consistent.** -/
theorem getargs_accepts {argv : List Word} : (∃ u, V.getargs env argv v = .ok u) ↔
    env.malloc = true ∧
      ∃ rs, V.requestsFrom env 0 argv = some rs ∧ Consistent Request.key Request.val rs := by
  rcases getargs_spec V env v argv with
    ⟨hmem, rs, out, u, hrs, hout, hu, -⟩ | ⟨hnone, e, he⟩
  · have hcons := assignAll_isSome_iff.1 (Option.isSome_iff_exists.2 ⟨out, hout⟩)
    exact ⟨fun _ => ⟨hmem, rs, hrs, hcons⟩, fun _ => ⟨u, hu⟩⟩
  · constructor
    · rintro ⟨u, hu⟩
      rw [he] at hu
      cases hu
    · rintro ⟨hmem, rs, hrs, hcons⟩
      have hsome := assignAll_isSome_iff.2 hcons
      rw [hnone hmem rs hrs] at hsome
      cases hsome

/-- The defaults of `mga_option` pass their own checks. -/
theorem mga_defaults_accepted (hmem : env.malloc = true) :
    ∃ u, mga.getargs env [chars "-defaults"] v = .ok u := by
  have hreqs : mga.requestsFrom env 0 [chars "-defaults"] =
      some [⟨sectnRScreen, chars "RemoteScreen", chars "Disable", .strcasecmp⟩] := rfl
  refine getargs_accepts.2 ⟨hmem, _, hreqs, fun r hr r' hr' _ => ?_⟩
  rw [List.mem_singleton.1 hr, List.mem_singleton.1 hr']

/-! ## Truth values -/

theorem tolower_tolower (c : UInt8) : tolower (tolower c) = tolower c := by
  unfold tolower
  by_cases h : 0x41 ≤ c ∧ c ≤ 0x5a
  case neg => rw [if_neg h, if_neg h]
  rw [if_pos h, if_neg]
  grind

theorem isIgnored_tolower (c : UInt8) : isIgnored (tolower c) = isIgnored c := by
  unfold tolower isIgnored
  by_cases h : 0x41 ≤ c ∧ c ≤ 0x5a
  case neg => rw [if_neg h]
  rw [if_pos h]
  grind

/-- Case does not matter for a truth value. -/
theorem boolArg_map_tolower (s : Word) : boolArg (some (s.map tolower)) = boolArg (some s) := by
  have hkey : nameKey (s.map tolower) = nameKey s := by
    have hignored : ((fun c => !isIgnored c) ∘ tolower) = fun c => !isIgnored c :=
      funext fun c => congrArg _ (isIgnored_tolower c)
    rw [nameKey, nameKey, List.filter_map, hignored, List.map_map]
    exact List.map_congr_left fun c _ => tolower_tolower c
  rw [boolArg, boolArg]
  dsimp only [Option.getD_some, nameEq]
  rw [hkey]

theorem boolArg_val (r : Request) : boolArg (some r.val) = boolArg (some r.value) := by
  rw [Request.val]
  cases r.strcmpFn with
  | strcmp => rfl
  | strcasecmp => exact boolArg_map_tolower r.value

/-- The entries hold the truth value of the first request for an Option. -/
theorem getargs_truth {argv : List Word} {u : Fbvar} {rs : List Request}
    (h : V.getargs env argv v = .ok u) (hrs : V.requestsFrom env 0 argv = some rs)
    (sectn : Nat) (name : Word) : u.truth sectn name =
      (rs.find? fun m => m.key = (sectn, name.map tolower)).map fun m => boolArg (some m.val) := by
  rcases getargs_spec V env v argv with
    ⟨-, rs', out, u', hrs', hout, hu, hholds⟩ | ⟨-, e, he⟩
  case inr =>
    rw [he] at h
    cases h
  rw [hu] at h
  rw [hrs'] at hrs
  cases h
  cases hrs
  have hfirst := find?_assignAll hout (sectn, name.map tolower)
  rw [List.nil_append] at hfirst
  rw [← hfirst, Fbvar.truth, hholds.mods, List.find?_map, Option.map_map]
  have hkey : OptMod.isOption sectn name ∘ Request.mod =
      fun m => decide (m.key = (sectn, name.map tolower)) :=
    funext fun m => isOption_mod ⟨sectn, name, [], .strcmp⟩ m
  rw [hkey]
  congr 1
  exact funext fun m => (boolArg_val m).symm

/-- **An Option has the truth value of any request for it.** -/
theorem truth_of_request {argv : List Word} {u : Fbvar} {rs : List Request} {r : Request}
    (h : V.getargs env argv v = .ok u) (hrs : V.requestsFrom env 0 argv = some rs) (hr : r ∈ rs)
    {name : Word} (hkey : r.key = (sectn, name.map tolower)) :
    u.truth sectn name = some (boolArg (some r.val)) := by
  obtain ⟨-, rs', hrs', hcons⟩ := getargs_accepts.1 ⟨u, h⟩
  rw [hrs] at hrs'
  cases hrs'
  rw [getargs_truth h hrs, ← hkey]
  exact hcons.find?_map (fun a _ b _ _ hval => by rw [hval]) hr

theorem truth_of_no_request {argv : List Word} {u : Fbvar} {rs : List Request}
    (h : V.getargs env argv v = .ok u) (hrs : V.requestsFrom env 0 argv = some rs) {name : Word}
    (hno : ∀ r ∈ rs, r.key ≠ (sectn, name.map tolower)) : u.truth sectn name = none := by
  rw [getargs_truth h hrs, List.find?_eq_none.2, Option.map_none]
  exact fun r hr => by simpa using hno r hr

/-- Two command lines that ask for the same truth value set an Option to the same one. -/
theorem truth_congr {argv argv' : List Word} {u u' : Fbvar} {rs rs' : List Request} {name : Word}
    (h : V.getargs env argv v = .ok u) (hrs : V.requestsFrom env 0 argv = some rs)
    (h' : V.getargs env argv' v = .ok u') (hrs' : V.requestsFrom env 0 argv' = some rs')
    (hsame : ∀ r ∈ rs, r.key = (sectn, name.map tolower) →
      ∃ r' ∈ rs', r'.key = r.key ∧ boolArg (some r'.val) = boolArg (some r.val))
    (hback : ∀ r' ∈ rs', r'.key = (sectn, name.map tolower) → ∃ r ∈ rs, r.key = r'.key) :
    u.truth sectn name = u'.truth sectn name := by
  by_cases hex : ∃ r ∈ rs, r.key = (sectn, name.map tolower)
  · obtain ⟨r, hr, hkey⟩ := hex
    obtain ⟨r', hr', hkey', htruth⟩ := hsame r hr hkey
    rw [truth_of_request h hrs hr hkey, truth_of_request h' hrs' hr' (hkey'.trans hkey), htruth]
  · rw [truth_of_no_request h hrs fun r hr hkey => hex ⟨r, hr, hkey⟩,
      truth_of_no_request h' hrs' fun r' hr' hkey' => ?_]
    obtain ⟨r, hr, hkey⟩ := hback r' hr' hkey'
    exact hex ⟨r, hr, hkey.trans hkey'⟩

end Getargs
