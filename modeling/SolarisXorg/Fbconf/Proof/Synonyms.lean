import SolarisXorg.Fbconf.Proof.Getargs

/-!
# When keywords for one truth value are interchangeable (`fbc_getargs.c`)

An option takes its own words only, so what it asks for stands among what the options before and
after it ask for (`requestsFrom_append`, `requestsFrom_option`), and it is accepted iff these are
consistent and it `Fits` (`option_accepts`). Keywords for one truth value differ in their word: a
word that is not False resets the Options that are ganged. `synonyms_iff` says when this makes no
difference:

- where the others clash with the option, none of the words fits (`clashes_not_fits`),
- where they leave it alone, every word asks for the same truth values (`alone_covers`), and an
  option that is turned off resets what is False without it (`off_of_alone`),
- otherwise one of the words fits (`exists_fits`), and another one does not, or sets an Option that
  this one does not (`alone_of_synonyms`).

In `off_resets`, an option is turned off with two keywords.
-/

namespace Getargs

open Lib Fbc ResComp

variable {V : Varient} {env : Env} {v : Fbvar} {d : Descr} {rest : List Word}

/-! ## The words of several options -/

theorem takeWhile_append_rest (hrest : ∀ w ∈ rest.head?, isArgument w = false) (args : List Word) :
    (args ++ rest).takeWhile isArgument = args.takeWhile isArgument := by
  induction args with
  | nil =>
    cases rest with
    | nil => rfl
    | cons w rest => rw [List.nil_append, List.takeWhile_cons, hrest w rfl]; rfl
  | cons w args ih => rw [List.cons_append, List.takeWhile_cons, List.takeWhile_cons, ih]

/-- A handler does not take the words of the next option. -/
theorem handle_append (env : Env) (hrest : ∀ w ∈ rest.head?, isArgument w = false)
    {args : List Word} (hlen : d.getoptFn.optionArgs ≤ args.length) :
    d.requests env (args ++ rest) = d.requests env args ∧
      d.extra (args ++ rest) = d.extra args := by
  unfold Descr.requests Descr.extra
  cases hfn : d.getoptFn with
  | optDefaults => exact ⟨rfl, rfl⟩
  | optHelp => exact ⟨rfl, rfl⟩
  | optPrconf => exact ⟨rfl, rfl⟩
  | optPropt => exact ⟨rfl, rfl⟩
  | optPredid =>
    dsimp only
    rw [takeWhile_append_rest hrest]
    exact ⟨rfl, rfl⟩
  | optionStreamOffset xName yName =>
    rw [hfn] at hlen
    match args with
    | [] => cases hlen
    | [_] => exact absurd hlen (Nat.not_succ_le_self 1)
    | x :: y :: args => exact ⟨rfl, rfl⟩
  | optRes keywds =>
    rw [hfn] at hlen
    match args with
    | [] => cases hlen
    | arg :: args =>
      cases keywds with
      | none => exact ⟨rfl, rfl⟩
      | some keywds =>
        dsimp only [List.cons_append]
        rw [takeWhile_append_rest hrest]
        exact ⟨rfl, rfl⟩
  | _ =>
    rw [hfn] at hlen
    match args with
    | [] => cases hlen
    | arg :: args => exact ⟨rfl, rfl⟩

theorem not_isArgument {opt : Word} (h : V.option opt = some d) : isArgument opt = false := by
  rw [Varient.option] at h
  split at h
  · cases h
  · simpa using ‹¬isArgument opt = true›

theorem option_mem {opt : Word} (h : V.option opt = some d) : d ∈ V.options := by
  rw [Varient.option] at h
  split at h
  · cases h
  · cases hs : searchKeywds Descr.argvName opt.tail V.options with
    | error e =>
      rw [hs] at h
      cases h
    | ok d' =>
      rw [hs] at h
      cases h
      exact searchKeywds_mem hs

/-- An option does not take the words of the next one. -/
theorem requests_append (env : Env) (hrest : ∀ w ∈ rest.head?, isArgument w = false)
    {args : List Word} (hlen : d.getoptFn.optionArgs ≤ args.length) :
    V.requests env d (args ++ rest) = V.requests env d args ∧
      d.extra (args ++ rest) = d.extra args := by
  have hone := handle_append env hrest hlen
  refine ⟨?_, hone.2⟩
  rw [Varient.requests.eq_def, Varient.requests.eq_def]
  split
  · rfl
  · exact hone.1

theorem wholeOptions_length {skip : Nat} {argv : List Word}
    (h : V.wholeOptions skip argv = true) : skip ≤ argv.length := by
  induction argv generalizing skip with
  | nil =>
    cases skip with
    | zero => exact le_rfl
    | succ skip => cases h
  | cons opt argv ih =>
    cases skip with
    | zero => exact Nat.zero_le _
    | succ skip => exact Nat.succ_le_succ (ih h)

/-- What options ask for and then what the options behind them ask for. -/
theorem requestsFrom_append (hrest : ∀ w ∈ rest.head?, isArgument w = false) {skip : Nat}
    {argv : List Word} (h : V.wholeOptions skip argv = true) :
    V.requestsFrom env skip (argv ++ rest) = (V.requestsFrom env skip argv).bind fun k =>
      (V.requestsFrom env 0 rest).map (k ++ ·) := by
  induction argv generalizing skip with
  | nil =>
    cases skip with
    | succ skip => cases h
    | zero =>
      rw [List.nil_append, Varient.requestsFrom, Option.bind_some]
      exact Option.map_id'.symm
  | cons opt argv ih =>
    cases skip with
    | succ skip => exact ih h
    | zero =>
      rw [Varient.wholeOptions, Option.any_eq_true] at h
      obtain ⟨d, hd, h⟩ := h
      have hlen := wholeOptions_length h
      rw [List.cons_append, Varient.requestsFrom, Varient.requestsFrom, hd]
      dsimp only [Option.bind_some]
      obtain ⟨hreq, hextra⟩ := requests_append (V := V) env hrest
        (le_trans (Nat.le_add_right _ _) hlen)
      rw [hreq, hextra, if_neg (by rw [List.length_append]; omega), if_neg (by omega), ih h]
      cases V.requests env d argv with
      | none => rfl
      | some rs =>
        cases V.requestsFrom env (d.getoptFn.optionArgs + d.extra argv) argv with
        | none => rfl
        | some k =>
          cases V.requestsFrom env 0 rest with
          | none => rfl
          | some l => exact congrArg some (List.append_assoc rs k l).symm

/-! ## Words for a truth value -/

/-- The Option of an option with keywords. -/
abbrev Descr.own (d : Descr) (names : Names) : Key := (d.sectn, names.name.map tolower)

/-- The Options that are ganged with it. -/
abbrev Descr.ganged (d : Descr) (names : Names) : List Key :=
  names.ganged.map fun name => (d.sectn, name.map tolower)

theorem mem_spellings {value : Nat} {w : Word} : w ∈ spellings value ↔
    ∃ ent ∈ keywdsBoolean.keywds, ent.value = value ∧ ent.conf.map tolower = w := by
  simp only [spellings, List.mem_map, List.mem_filter, decide_eq_true_eq, and_assoc]

/-- Every word is that of a keyword. -/
theorem keywd_of_spelling {value : Nat} {w : Word} (h : w ∈ spellings value) :
    ∃ s ent, searchKeywds Keywd.argvName s keywdsBoolean.keywds = .ok ent ∧ ent.value = value ∧
      ent.conf.map tolower = w := by
  have hself : ∀ ent ∈ keywdsBoolean.keywds,
      searchKeywds Keywd.argvName ent.argvName keywdsBoolean.keywds = .ok ent := by
    simp only [keywdsBoolean, List.forall_mem_cons]
    exact ⟨rfl, rfl, rfl, rfl, rfl, rfl, rfl, rfl, rfl, rfl, fun _ hmem => (by cases hmem)⟩
  obtain ⟨ent, hent, hvalue, hw⟩ := mem_spellings.1 h
  exact ⟨ent.argvName, ent, hself ent hent, hvalue, hw⟩

theorem spelling_of_keywd {s : Word} {ent : Keywd}
    (hs : searchKeywds Keywd.argvName s keywdsBoolean.keywds = .ok ent) :
    ent.conf.map tolower ∈ spellings ent.value :=
  mem_spellings.2 ⟨ent, searchKeywds_mem hs, rfl, rfl⟩

theorem boolArg_spelling {value : Nat} {w : Word} (h : w ∈ spellings value) :
    boolArg (some w) = decide (value = boolTrue) := by
  have hall : ∀ ent ∈ keywdsBoolean.keywds,
      boolArg (some (ent.conf.map tolower)) = decide (ent.value = boolTrue) := by
    decide
  obtain ⟨ent, hent, rfl, rfl⟩ := mem_spellings.1 h
  exact hall ent hent

theorem falseWord_spelling {value : Nat} (h : falseWord ∈ spellings value) : value = boolFalse := by
  have hall : ∀ ent ∈ keywdsBoolean.keywds,
      ent.conf.map tolower = falseWord → ent.value = boolFalse := by
    decide
  obtain ⟨ent, hent, rfl, hw⟩ := mem_spellings.1 h
  exact hall ent hent hw

/-- A truth value has more than one word. -/
theorem exists_spelling_ne {value : Nat} {w : Word} (h : w ∈ spellings value) (w' : Word) :
    ∃ w'' ∈ spellings value, w'' ≠ w' := by
  have hall : ∀ ent ∈ keywdsBoolean.keywds,
      ∃ a ∈ spellings ent.value, ∃ b ∈ spellings ent.value, a ≠ b := by
    decide
  obtain ⟨ent, hent, rfl, -⟩ := mem_spellings.1 h
  obtain ⟨a, ha, b, hb, hab⟩ := hall ent hent
  by_cases hw : a = w'
  · exact ⟨b, hb, fun he => hab (hw.trans he.symm)⟩
  · exact ⟨a, ha, hw⟩

/-! ## An option among others -/

/-- What an option with a Boolean keyword asks for. -/
def ownRequests (d : Descr) (names : Names) (ent : Keywd) : List Request :=
  radioRequests d.sectn names ent.conf .strcasecmp keywdsBoolean.reset

/-- The option goes together with what the others ask for. -/
def Fits (rs : List Request) (own : Key) (ganged : List Key) (w : Word) : Prop :=
  (∀ r ∈ rs, r.key = own → r.val = w) ∧
    (w ≠ falseWord → ∀ r ∈ rs, r.key ∈ ganged → r.val = falseWord)

section Among

variable {names : Names} {opt s : Word} {ent : Keywd} {before after : List Word}
  {rs : List Request} {u : Fbvar}

theorem mem_ownRequests {r : Request} : r ∈ ownRequests d names ent ↔
    r = ⟨d.sectn, names.name, ent.conf, .strcasecmp⟩ ∨ ent.conf.map tolower ≠ falseWord ∧
      ∃ name ∈ names.ganged, r = ⟨d.sectn, name, chars "False", .strcasecmp⟩ := by
  have hreset : strcaseEq ent.conf (chars "False") =
      decide (ent.conf.map tolower = falseWord) := rfl
  rw [ownRequests, keywdsBoolean, radioRequests, List.mem_cons, hreset]
  refine or_congr_right ?_
  split
  case isTrue h =>
    exact ⟨fun hr => (by cases hr), fun hr => absurd (of_decide_eq_true h) hr.1⟩
  case isFalse h =>
    rw [List.mem_map]
    constructor
    · rintro ⟨name, hname, rfl⟩
      exact ⟨by simpa using h, name, hname, rfl⟩
    · rintro ⟨-, name, hname, rfl⟩
      exact ⟨name, hname, rfl⟩

theorem ownRequests_cases {r : Request} (hr : r ∈ ownRequests d names ent) :
    (r.key = d.own names ∧ r.val = ent.conf.map tolower) ∨
      ent.conf.map tolower ≠ falseWord ∧ r.key ∈ d.ganged names ∧ r.val = falseWord := by
  rcases mem_ownRequests.1 hr with rfl | ⟨hne, name, hname, rfl⟩
  · exact .inl ⟨rfl, rfl⟩
  · exact .inr ⟨hne, List.mem_map.2 ⟨name, hname, rfl⟩, rfl⟩

theorem own_request (d : Descr) (names : Names) (ent : Keywd) : ∃ r ∈ ownRequests d names ent,
    r.key = d.own names ∧ r.val = ent.conf.map tolower :=
  ⟨_, mem_ownRequests.2 (.inl rfl), rfl, rfl⟩

theorem ganged_request (hne : ent.conf.map tolower ≠ falseWord) {k : Key}
    (hk : k ∈ d.ganged names) : ∃ r ∈ ownRequests d names ent, r.key = k ∧ r.val = falseWord := by
  obtain ⟨name, hname, rfl⟩ := List.mem_map.1 hk
  exact ⟨_, mem_ownRequests.2 (.inr ⟨hne, name, hname, rfl⟩), rfl, rfl⟩

/-- What is asked for with the option. -/
theorem requestsFrom_option (hd : V.option opt = some d)
    (hfn : d.getoptFn = .optionKeyword keywdsBoolean names)
    (hs : searchKeywds Keywd.argvName s keywdsBoolean.keywds = .ok ent)
    (hpre : V.wholeOptions 0 before = true) :
    V.requestsFrom env 0 (before ++ opt :: s :: after) =
      (V.requestsFrom env 0 before).bind fun k => (V.requestsFrom env 0 after).map fun l =>
        k ++ (ownRequests d names ent ++ l) := by
  have hown : V.requestsFrom env 0 (opt :: s :: after) =
      (V.requestsFrom env 0 after).map (ownRequests d names ent ++ ·) := by
    have hargs : d.getoptFn.optionArgs = 1 := by rw [hfn]; rfl
    have hextra : d.extra (s :: after) = 0 := by
      unfold Descr.extra
      rw [hfn]
    have hreq : V.requests env d (s :: after) = some (ownRequests d names ent) := by
      unfold Varient.requests Descr.requests
      rw [hfn]
      dsimp only
      rw [hs]
      rfl
    rw [Varient.requestsFrom, hd, Option.bind_some, hargs, if_neg (by rw [List.length_cons]; omega),
      hreq, Option.bind_some, hextra, Varient.requestsFrom]
  have hrest : ∀ w ∈ (opt :: s :: after).head?, isArgument w = false := by
    rintro w ⟨⟩
    exact not_isArgument hd
  rw [requestsFrom_append hrest hpre, hown]
  simp only [Option.map_map]
  rfl

theorem option_requests (hd : V.option opt = some d)
    (hfn : d.getoptFn = .optionKeyword keywdsBoolean names)
    (hs : searchKeywds Keywd.argvName s keywdsBoolean.keywds = .ok ent)
    (hpre : V.wholeOptions 0 before = true) (hrs : V.others env before after = some rs) :
    ∃ all, V.requestsFrom env 0 (before ++ opt :: s :: after) = some all ∧
      ∀ r, r ∈ all ↔ r ∈ rs ∨ r ∈ ownRequests d names ent := by
  obtain ⟨k, hk, hrs⟩ := Option.bind_eq_some_iff.1 hrs
  obtain ⟨l, hl, rfl⟩ := Option.map_eq_some_iff.1 hrs
  refine ⟨k ++ (ownRequests d names ent ++ l), ?_, fun r => ?_⟩
  · rw [requestsFrom_option hd hfn hs hpre, hk, hl]
    rfl
  · simp only [List.mem_append]
    tauto

theorem own_not_ganged (hd : V.option opt = some d)
    (hfn : d.getoptFn = .optionKeyword keywdsBoolean names) : d.own names ∉ d.ganged names := by
  have hnodup := V.gangs d (option_mem hd)
  rw [Descr.keys, hfn] at hnodup
  exact (List.nodup_cons.1 hnodup).1

/-- What is asked for with the option is consistent iff the rest is and the option fits. -/
theorem consistent_option_iff (hd : V.option opt = some d)
    (hfn : d.getoptFn = .optionKeyword keywdsBoolean names) :
    Consistent Request.key Request.val (rs ++ ownRequests d names ent) ↔
      Consistent Request.key Request.val rs ∧
        Fits rs (d.own names) (d.ganged names) (ent.conf.map tolower) := by
  have hself : Consistent Request.key Request.val (ownRequests d names ent) := by
    have hnot := own_not_ganged hd hfn
    intro a ha b hb hkey
    rcases ownRequests_cases ha with ⟨hak, hav⟩ | ⟨-, hak, hav⟩
    · rcases ownRequests_cases hb with ⟨-, hbv⟩ | ⟨-, hbk, -⟩
      · exact hav.trans hbv.symm
      · exact absurd (hak ▸ hkey ▸ hbk) hnot
    · rcases ownRequests_cases hb with ⟨hbk, -⟩ | ⟨-, -, hbv⟩
      · exact absurd (hbk ▸ hkey ▸ hak) hnot
      · exact hav.trans hbv.symm
  rw [consistent_append, Fits]
  constructor
  · rintro ⟨hrs, -, hcross⟩
    refine ⟨hrs, fun r hr hkey => ?_, fun hne r hr hkey => ?_⟩
    · obtain ⟨m, hm, hmk, hmv⟩ := own_request d names ent
      exact (hcross r hr m hm (hkey.trans hmk.symm)).trans hmv
    · obtain ⟨m, hm, hmk, hmv⟩ := ganged_request hne hkey
      exact (hcross r hr m hm hmk.symm).trans hmv
  · rintro ⟨hrs, hown, hganged⟩
    refine ⟨hrs, hself, fun a ha b hb hkey => ?_⟩
    rcases ownRequests_cases hb with ⟨hbk, hbv⟩ | ⟨hne, hbk, hbv⟩
    · exact (hown a ha (hkey.trans hbk)).trans hbv.symm
    · exact (hganged hne a ha (hkey ▸ hbk)).trans hbv.symm

/-- The option is accepted iff the others are consistent and it fits. -/
theorem option_accepts (hd : V.option opt = some d)
    (hfn : d.getoptFn = .optionKeyword keywdsBoolean names)
    (hs : searchKeywds Keywd.argvName s keywdsBoolean.keywds = .ok ent)
    (hpre : V.wholeOptions 0 before = true) :
    (∃ u, V.getargs env (before ++ opt :: s :: after) v = .ok u) ↔
      env.malloc = true ∧ ∃ rs, V.others env before after = some rs ∧
        Consistent Request.key Request.val rs ∧
          Fits rs (d.own names) (d.ganged names) (ent.conf.map tolower) := by
  have hiff : ∀ {all rs : List Request},
      (∀ r, r ∈ all ↔ r ∈ rs ∨ r ∈ ownRequests d names ent) →
      (Consistent Request.key Request.val all ↔ Consistent Request.key Request.val rs ∧
        Fits rs (d.own names) (d.ganged names) (ent.conf.map tolower)) := by
    intro all rs hmem
    rw [← consistent_option_iff hd hfn]
    exact ⟨fun h => h.subset fun r hr => (hmem r).2 (List.mem_append.1 hr),
      fun h => h.subset fun r hr => List.mem_append.2 ((hmem r).1 hr)⟩
  rw [getargs_accepts]
  refine and_congr_right fun _ => ?_
  cases hrs : V.others env before after with
  | some rs =>
    obtain ⟨all, hall, hmem⟩ := option_requests hd hfn hs hpre hrs
    rw [hall]
    simp only [Option.some.injEq, exists_eq_left', hiff hmem]
  | none =>
    have hnone : V.requestsFrom env 0 (before ++ opt :: s :: after) = none := by
      rw [requestsFrom_option hd hfn hs hpre]
      rw [Varient.others] at hrs
      cases hk : V.requestsFrom env 0 before with
      | none => rfl
      | some k =>
        rw [hk, Option.bind_some, Option.map_eq_none_iff] at hrs
        rw [hrs]
        rfl
    rw [hnone]
    exact ⟨fun ⟨_, h, _⟩ => (by cases h), fun ⟨_, h, _⟩ => (by cases h)⟩

theorem requestsFrom_others (hpre : V.wholeOptions 0 before = true)
    (hrs : V.others env before after = some rs) :
    V.requestsFrom env 0 (before ++ after) = some rs := by
  have hrest : ∀ w ∈ after.head?, isArgument w = false := by
    obtain ⟨k, -, hrs⟩ := Option.bind_eq_some_iff.1 hrs
    obtain ⟨l, hl, -⟩ := Option.map_eq_some_iff.1 hrs
    intro w hw
    cases after with
    | nil => cases hw
    | cons w' after =>
      cases hw
      obtain ⟨d, hd, -⟩ := Option.bind_eq_some_iff.1 hl
      exact not_isArgument hd
  rw [requestsFrom_append hrest hpre]
  exact hrs

/-! ## Synonyms -/

theorem sameEffect_of_rejected {a b : Except Exit Fbvar} (ha : ¬∃ u, a = .ok u)
    (hb : ¬∃ u, b = .ok u) : SameEffect a b :=
  ⟨iff_of_false ha hb, fun u _ hu => absurd ⟨u, hu⟩ ha⟩

theorem clashes_not_fits {own : Key} {ganged : List Key} {value : Nat} {w : Word}
    (h : Clashes rs own ganged value) (hw : w ∈ spellings value) : ¬Fits rs own ganged w := by
  rintro ⟨hown, hganged⟩
  rcases h with ⟨r, hr, hkey, hval⟩ | ⟨⟨r, hr, hkey, hval⟩, hfalse⟩
  · exact hval (hown r hr hkey ▸ hw)
  · by_cases hword : w = falseWord
    case neg => exact hval (hganged hword r hr hkey)
    -- the word for False resets nothing, but another option asks for another word
    subst hword
    obtain ⟨r', hr', hkey', hval'⟩ := hfalse (falseWord_spelling hw)
    exact hval' (hown r' hr' hkey')

/-- What does not clash goes together with one of the words. -/
theorem exists_fits {own : Key} {ganged : List Key} {value : Nat} {w : Word}
    (hcons : Consistent Request.key Request.val rs) (hnot : ¬Clashes rs own ganged value)
    (hw : w ∈ spellings value) : ∃ w ∈ spellings value, Fits rs own ganged w := by
  obtain ⟨hown, hganged⟩ := not_or.1 hnot
  have hreset : (∀ r ∈ rs, r.key ∈ ganged → r.val = falseWord) ∨
      value = boolFalse ∧ ∀ r ∈ rs, r.key = own → r.val = falseWord := by
    rcases not_and_or.1 hganged with hall | hfalse
    · exact .inl fun r hr hkey => not_not.1 fun hval => hall ⟨r, hr, hkey, hval⟩
    · obtain ⟨hvalue, hnone⟩ := Classical.not_imp.1 hfalse
      exact .inr ⟨hvalue, fun r hr hkey => not_not.1 fun hval => hnone ⟨r, hr, hkey, hval⟩⟩
  by_cases hset : ∃ r ∈ rs, r.key = own
  · -- the word that another option gives the Option
    obtain ⟨r, hr, hkey⟩ := hset
    have hval : r.val ∈ spellings value := not_not.1 fun hval => hown ⟨r, hr, hkey, hval⟩
    refine ⟨r.val, hval, fun r' hr' hkey' => hcons r' hr' r hr (hkey'.trans hkey.symm), ?_⟩
    intro hne
    rcases hreset with hall | ⟨-, hfalse⟩
    · exact hall
    · exact absurd (hfalse r hr hkey) hne
  · have hfirst : ∀ w, ∀ r ∈ rs, r.key = own → r.val = w :=
      fun _ r hr hkey => absurd ⟨r, hr, hkey⟩ hset
    rcases hreset with hall | ⟨rfl, -⟩
    · exact ⟨w, hw, hfirst w, fun _ => hall⟩
    · exact ⟨falseWord, by decide, hfirst _, fun hne => absurd rfl hne⟩

/-- If every word fits then the others do not set the Option. -/
theorem no_own_of_fits {own : Key} {ganged : List Key} {value : Nat} {w : Word}
    (hw : w ∈ spellings value) (h : ∀ w ∈ spellings value, Fits rs own ganged w) :
    ∀ r ∈ rs, r.key ≠ own := by
  intro r hr hkey
  obtain ⟨w', hw', hne⟩ := exists_spelling_ne hw r.val
  exact hne ((h w' hw').1 r hr hkey).symm

/-- Alone, what a keyword asks for is asked for with any other one. -/
theorem alone_covers {ent' : Keywd} {value : Nat}
    (halone : Alone rs (d.own names) (d.ganged names) value)
    (hw' : ent'.conf.map tolower ∈ spellings value) (hw : ent.conf.map tolower ∈ spellings value)
    {r : Request} (hr : r ∈ rs ∨ r ∈ ownRequests d names ent) :
    ∃ r', (r' ∈ rs ∨ r' ∈ ownRequests d names ent') ∧ r'.key = r.key ∧
      boolArg (some r'.val) = boolArg (some r.val) := by
  rcases hr with hr | hr
  · exact ⟨r, .inl hr, rfl, rfl⟩
  rcases ownRequests_cases hr with ⟨hkey, hval⟩ | ⟨-, hkey, hval⟩
  · obtain ⟨r', hr', hkey', hval'⟩ := own_request d names ent'
    refine ⟨r', .inr hr', hkey'.trans hkey.symm, ?_⟩
    rw [hval', hval, boolArg_spelling hw', boolArg_spelling hw]
  · by_cases hne : ent'.conf.map tolower = falseWord
    case pos =>
      obtain ⟨r', hr', hkey', hval'⟩ :=
        halone.2 (falseWord_spelling (hne ▸ hw')) r.key hkey
      exact ⟨r', .inl hr', hkey', by rw [hval', hval]⟩
    obtain ⟨r', hr', hkey', hval'⟩ := ganged_request hne hkey
    exact ⟨r', .inr hr', hkey', by rw [hval', hval]⟩

/-- Alone, the option fits with any of its words or with none of them. -/
theorem alone_fits {own : Key} {ganged : List Key} {value : Nat} {w w' : Word}
    (hcons : Consistent Request.key Request.val rs) (halone : Alone rs own ganged value)
    (hw : w ∈ spellings value) (hfits : Fits rs own ganged w) : Fits rs own ganged w' := by
  refine ⟨fun r hr hkey => absurd hkey (halone.1 r hr), fun _ r hr hkey => ?_⟩
  by_cases hne : w = falseWord
  case neg => exact hfits.2 hne r hr hkey
  obtain ⟨r', hr', hkey', hval'⟩ := halone.2 (falseWord_spelling (hne ▸ hw)) r.key hkey
  exact (hcons r hr r' hr' hkey'.symm).trans hval'

/-- The option sets the Option and its gang alike with any keyword for the truth value. -/
theorem sameEffect_of_alone {s' : Word} {ent' : Keywd} (hd : V.option opt = some d)
    (hfn : d.getoptFn = .optionKeyword keywdsBoolean names)
    (hs : searchKeywds Keywd.argvName s keywdsBoolean.keywds = .ok ent)
    (hs' : searchKeywds Keywd.argvName s' keywdsBoolean.keywds = .ok ent')
    (hvalue : ent'.value = ent.value) (hpre : V.wholeOptions 0 before = true)
    (hrs : V.others env before after = some rs)
    (hcons : Consistent Request.key Request.val rs)
    (halone : Alone rs (d.own names) (d.ganged names) ent.value) :
    SameEffect (V.getargs env (before ++ opt :: s :: after) v)
      (V.getargs env (before ++ opt :: s' :: after) v) := by
  have hw := spelling_of_keywd hs
  have hw' := spelling_of_keywd hs'
  rw [hvalue] at hw'
  refine ⟨?_, fun u u' hu hu' sectn name => ?_⟩
  · rw [option_accepts hd hfn hs hpre, option_accepts hd hfn hs' hpre, hrs]
    simp only [Option.some.injEq, exists_eq_left']
    refine and_congr_right fun _ => and_congr_right fun _ => ?_
    exact ⟨alone_fits hcons halone hw, alone_fits hcons halone hw'⟩
  · obtain ⟨all, hall, hmem⟩ := option_requests hd hfn hs hpre hrs
    obtain ⟨all', hall', hmem'⟩ := option_requests hd hfn hs' hpre hrs
    refine truth_congr hu hall hu' hall' (fun r hr _ => ?_) fun r hr _ => ?_
    · obtain ⟨r', hr', hkey, htruth⟩ := alone_covers halone hw' hw ((hmem r).1 hr)
      exact ⟨r', (hmem' r').2 hr', hkey, htruth⟩
    · obtain ⟨r', hr', hkey, -⟩ := alone_covers halone hw hw' ((hmem' r).1 hr)
      exact ⟨r', (hmem r').2 hr', hkey⟩

/-- Turned off alone, the option leaves the others as they are without it. -/
theorem off_of_alone (hd : V.option opt = some d)
    (hfn : d.getoptFn = .optionKeyword keywdsBoolean names)
    (hs : searchKeywds Keywd.argvName s keywdsBoolean.keywds = .ok ent)
    (hpre : V.wholeOptions 0 before = true) (hrs : V.others env before after = some rs)
    (halone : Alone rs (d.own names) (d.ganged names) boolFalse)
    (hu : V.getargs env (before ++ opt :: s :: after) v = .ok u) :
    ∃ w, V.getargs env (before ++ after) v = .ok w ∧
      ∀ sectn name, (sectn, name.map tolower) ≠ d.own names →
        u.truth sectn name = w.truth sectn name := by
  obtain ⟨hmem, rs', hrs', hcons, -⟩ := (option_accepts hd hfn hs hpre).1 ⟨u, hu⟩
  rw [hrs] at hrs'
  cases hrs'
  have hothers := requestsFrom_others hpre hrs
  obtain ⟨w, hw⟩ := getargs_accepts.2 ⟨hmem, rs, hothers, hcons⟩
  refine ⟨w, hw, fun sectn name hkey => ?_⟩
  obtain ⟨all, hall, hall_mem⟩ := option_requests hd hfn hs hpre hrs
  refine truth_congr hu hall hw hothers (fun r hr hr_key => ?_) fun r hr _ => ?_
  · rcases (hall_mem r).1 hr with hr | hr
    · exact ⟨r, hr, rfl, rfl⟩
    · rcases ownRequests_cases hr with ⟨hown, -⟩ | ⟨-, hganged, hval⟩
      · exact absurd (hr_key.symm.trans hown) hkey
      · -- what the option resets is False without it
        obtain ⟨r', hr', hkey', hval'⟩ := halone.2 rfl r.key hganged
        exact ⟨r', hr', hkey', by rw [hval', hval]⟩
  · exact ⟨r, (hall_mem r).2 (.inl hr), rfl⟩

/-- If no keyword makes a difference then the option is alone. -/
theorem alone_of_synonyms (hd : V.option opt = some d)
    (hfn : d.getoptFn = .optionKeyword keywdsBoolean names)
    (hs : searchKeywds Keywd.argvName s keywdsBoolean.keywds = .ok ent)
    (hpre : V.wholeOptions 0 before = true) (hmem : env.malloc = true)
    (hrs : V.others env before after = some rs)
    (hcons : Consistent Request.key Request.val rs)
    (hnot : ¬Clashes rs (d.own names) (d.ganged names) ent.value)
    (hsyn : ∀ s' ent', searchKeywds Keywd.argvName s' keywdsBoolean.keywds = .ok ent' →
      ent'.value = ent.value → SameEffect (V.getargs env (before ++ opt :: s :: after) v)
        (V.getargs env (before ++ opt :: s' :: after) v)) :
    Alone rs (d.own names) (d.ganged names) ent.value := by
  have hw := spelling_of_keywd hs
  -- one of the keywords is accepted, so all of them are
  have hfits : ∀ w ∈ spellings ent.value, Fits rs (d.own names) (d.ganged names) w := by
    obtain ⟨w₁, hw₁, hfit₁⟩ := exists_fits hcons hnot hw
    obtain ⟨s₁, ent₁, hs₁, hvalue₁, rfl⟩ := keywd_of_spelling hw₁
    have haccept : ∃ u, V.getargs env (before ++ opt :: s :: after) v = .ok u :=
      (hsyn s₁ ent₁ hs₁ hvalue₁).accepted.2
        ((option_accepts hd hfn hs₁ hpre).2 ⟨hmem, rs, hrs, hcons, hfit₁⟩)
    intro w₂ hw₂
    obtain ⟨s₂, ent₂, hs₂, hvalue₂, rfl⟩ := keywd_of_spelling hw₂
    obtain ⟨-, rs', hrs', -, hfit⟩ :=
      (option_accepts hd hfn hs₂ hpre).1 ((hsyn s₂ ent₂ hs₂ hvalue₂).accepted.1 haccept)
    rw [hrs] at hrs'
    cases hrs'
    exact hfit
  have hown := no_own_of_fits hw hfits
  refine ⟨hown, fun hvalue k hk => ?_⟩
  rw [hvalue] at hsyn hfits
  have hfalse : falseWord ∈ spellings boolFalse := by decide
  obtain ⟨w₁, hw₁, hne⟩ := exists_spelling_ne hfalse falseWord
  by_cases hset : ∃ r ∈ rs, r.key = k
  · obtain ⟨r, hr, rfl⟩ := hset
    exact ⟨r, hr, rfl, (hfits w₁ hw₁).2 hne r hr hk⟩
  -- another word than False resets what is ganged, and False does not
  obtain ⟨s₁, ent₁, hs₁, hvalue₁, rfl⟩ := keywd_of_spelling hw₁
  obtain ⟨s₂, ent₂, hs₂, hvalue₂, hword⟩ := keywd_of_spelling hfalse
  obtain ⟨u₁, hu₁⟩ := (option_accepts (v := v) hd hfn hs₁ hpre).2
    ⟨hmem, rs, hrs, hcons, hfits _ hw₁⟩
  obtain ⟨u₂, hu₂⟩ := (option_accepts (v := v) hd hfn hs₂ hpre).2
    ⟨hmem, rs, hrs, hcons, hword ▸ hfits _ hfalse⟩
  obtain ⟨u, hu⟩ := (hsyn s₁ ent₁ hs₁ hvalue₁).accepted.2 ⟨u₁, hu₁⟩
  obtain ⟨all₁, hall₁, hmem₁⟩ := option_requests hd hfn hs₁ hpre hrs
  obtain ⟨all₂, hall₂, hmem₂⟩ := option_requests hd hfn hs₂ hpre hrs
  obtain ⟨name, hname, rfl⟩ := List.mem_map.1 hk
  obtain ⟨r, hr, hkey, -⟩ := ganged_request hne hk
  have hreset := truth_of_request hu₁ hall₁ ((hmem₁ r).2 (.inr hr)) hkey
  have hkept : u₂.truth d.sectn name = none := by
    refine truth_of_no_request hu₂ hall₂ fun r hr hkey => ?_
    rcases (hmem₂ r).1 hr with hr | hr
    · exact hset ⟨r, hr, hkey⟩
    · rcases ownRequests_cases hr with ⟨hown, -⟩ | ⟨hne, -⟩
      · exact own_not_ganged hd hfn (hown ▸ hkey ▸ hk)
      · exact hne hword
  rw [← (hsyn s₁ ent₁ hs₁ hvalue₁).truth u u₁ hu hu₁,
    (hsyn s₂ ent₂ hs₂ hvalue₂).truth u u₂ hu hu₂, hkept] at hreset
  cases hreset

end Among

/-- **The keywords for a truth value do the same iff the other options clash with the option in any
case or leave it alone.** -/
theorem synonyms_iff {names : Names} {opt s : Word} {ent : Keywd} {before after : List Word}
    (hpre : V.wholeOptions 0 before = true) (hd : V.option opt = some d)
    (hfn : d.getoptFn = .optionKeyword keywdsBoolean names)
    (hs : searchKeywds Keywd.argvName s keywdsBoolean.keywds = .ok ent) :
    Interchangeable V env v before opt s after (d.sectn, names.name.map tolower) ent ↔
      Synonymous V env before after (d.sectn, names.name.map tolower)
        (names.ganged.map fun name => (d.sectn, name.map tolower)) ent.value := by
  have hw := spelling_of_keywd hs
  constructor
  · intro h hmem rs hrs hcons
    by_cases hclash : Clashes rs (d.own names) (d.ganged names) ent.value
    case pos => exact .inl hclash
    exact .inr (alone_of_synonyms hd hfn hs hpre hmem hrs hcons hclash h.synonyms)
  · intro h
    refine ⟨fun s' ent' hs' hvalue => ?_, fun hvalue u hu => ?_⟩
    · by_cases hrs : ∃ rs, V.others env before after = some rs ∧
          Consistent Request.key Request.val rs ∧
            Alone rs (d.own names) (d.ganged names) ent.value
      case pos =>
        obtain ⟨rs, hrs, hcons, halone⟩ := hrs
        exact sameEffect_of_alone hd hfn hs hs' hvalue hpre hrs hcons halone
      -- no keyword for the truth value is accepted
      have hrejected : ∀ {s' : Word} {ent' : Keywd},
          searchKeywds Keywd.argvName s' keywdsBoolean.keywds = .ok ent' →
          ent'.value = ent.value →
            ¬∃ u, V.getargs env (before ++ opt :: s' :: after) v = .ok u := by
        intro s' ent' hs' hvalue hu
        obtain ⟨hmem, rs, hothers, hcons, hfits⟩ := (option_accepts hd hfn hs' hpre).1 hu
        rcases h hmem rs hothers hcons with hclash | halone
        · exact clashes_not_fits hclash (hvalue ▸ spelling_of_keywd hs') hfits
        · exact hrs ⟨rs, hothers, hcons, halone⟩
      exact sameEffect_of_rejected (hrejected hs rfl) (hrejected hs' hvalue)
    · obtain ⟨hmem, rs, hrs, hcons, hfits⟩ := (option_accepts hd hfn hs hpre).1 ⟨u, hu⟩
      rcases h hmem rs hrs hcons with hclash | halone
      · exact absurd hfits (clashes_not_fits hclash hw)
      · exact off_of_alone hd hfn hs hpre hrs (hvalue ▸ halone) hu

/-- There is memory, no added privileges and no gamma value. -/
def plainEnv : Env := ⟨fun _ => false, true, false⟩

/-- Nothing is set yet. -/
def unset : Fbvar := ⟨[], 0, .notSet, none, none, none, none, none, none, {}⟩

/-- Turned on alone. -/
theorem synonyms_iff_on :
    Interchangeable visuals plainEnv unset [] (chars "-deflinear") (chars "on") []
      (sectnDefVisual, (chars "DefLinear").map tolower)
      ⟨chars "on", some (chars "On"), boolTrue⟩ := by
  refine (synonyms_iff rfl (d := deflinear) rfl rfl rfl).2 fun _ rs hrs _ => ?_
  have hnone : visuals.others plainEnv [] [] = some [] := rfl
  rw [hnone] at hrs
  cases hrs
  exact .inr ⟨fun _ hr => (by cases hr), fun hvalue => (by cases hvalue)⟩

theorem exists_truth {x : Except Exit Fbvar} {sectn : Nat} {name : Word} {value : Option Bool}
    (h : (x.toOption.map fun u => u.truth sectn name) = some value) :
    ∃ u, x = .ok u ∧ u.truth sectn name = value := by
  obtain ⟨u, hu, hvalue⟩ := Option.map_eq_some_iff.1 h
  cases x with
  | error e => cases hu
  | ok w =>
    cases hu
    exact ⟨_, rfl, hvalue⟩

/-- **`-deflinear off` sets `DefOverlay`, and `-deflinear false` does not.** -/
theorem off_resets :
    ¬Interchangeable visuals plainEnv unset [] (chars "-deflinear") (chars "off") []
      (sectnDefVisual, (chars "DefLinear").map tolower)
      ⟨chars "off", some (chars "Off"), boolFalse⟩ := by
  intro h
  have hoff : ((visuals.getargs plainEnv [chars "-deflinear", chars "off"] unset).toOption.map
      fun u => u.truth sectnDefVisual (chars "DefOverlay")) = some (some false) := by
    decide +kernel
  have hfalse : ((visuals.getargs plainEnv [chars "-deflinear", chars "false"] unset).toOption.map
      fun u => u.truth sectnDefVisual (chars "DefOverlay")) = some none := by
    decide +kernel
  obtain ⟨u, hu, hset⟩ := exists_truth hoff
  obtain ⟨w, hw, hunset⟩ := exists_truth hfalse
  have heq := (h.synonyms (chars "false") ⟨chars "false", some (chars "False"), boolFalse⟩ rfl
    rfl).truth u w hu hw sectnDefVisual (chars "DefOverlay")
  rw [hset, hunset] at heq
  cases heq

end Getargs
