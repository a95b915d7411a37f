import SolarisXorg.Fbconf.Getargs
import SolarisXorg.Lib.Assign

/-!
# Synonyms on the command line (`fbc_getargs.c`)

Two keywords for one truth value should do the same: `Interchangeable`. What they do depends on what
the other options of the command line ask for. `requestsFrom` are the Option entries that the words
of a command line ask to be added, conflicts aside; `Synonymous` is when synonyms are
interchangeable.
-/

namespace Getargs

open Lib Fbc ResComp

/-! ## What a command line asks for -/

/-- An Option entry to be added. -/
structure Request where
  sectn : Nat
  name : Word
  value : Word
  strcmpFn : StrcmpFn

/-- The Option. -/
def Request.key (r : Request) : Key := (r.sectn, r.name.map tolower)

/-- What of a value is compared. -/
def StrcmpFn.norm : StrcmpFn → Word → Word
  | .strcmp, s => s
  | .strcasecmp, s => s.map tolower

/-- What of the value is compared. -/
def Request.val (r : Request) : Word := r.strcmpFn.norm r.value

/-- What an Option of a gang asks for: the others are reset unless it is. -/
def radioRequests (sectn : Nat) (names : Names) (value : Word) (strcmpFn : StrcmpFn) :
    Option Word → List Request
  | none => [⟨sectn, names.name, value, strcmpFn⟩]
  | some reset =>
    ⟨sectn, names.name, value, strcmpFn⟩ ::
      if strcaseEq value reset then []
      else names.ganged.map fun name => ⟨sectn, name, reset, strcmpFn⟩

/-- The words are keywords. -/
def areKeywds (keywds : List Keywd) (ws : List Word) : Bool :=
  ws.all fun w => (searchKeywds Keywd.argvName w keywds).toOption.isSome

/-- How many more words than `option_args` an option takes. -/
def Descr.extra (d : Descr) (args : List Word) : Nat :=
  match d.getoptFn, args with
  | .optPredid, args => (args.takeWhile isArgument).length
  | .optRes (some _), arg :: args =>
    if arg = chars "?" then 0 else (args.takeWhile isArgument).length
  | _, _ => 0

/-- What an option asks for, unless its words are not what it takes. -/
def Descr.requests (env : Env) (d : Descr) (args : List Word) : Option (List Request) :=
  match d.getoptFn, args with
  | .optDefaults, _ | .optHelp, _ | .optPrconf, _ | .optPropt, _ | .optDev, _ :: _ => some []
  | .optPredid, args => if areKeywds keywdsPredid (args.takeWhile isArgument) then some [] else none
  | .optionKeyword keywds names, arg :: _ =>
    (searchKeywds Keywd.argvName arg keywds.keywds).toOption.map fun ent =>
      radioRequests d.sectn names ent.conf .strcasecmp keywds.reset
  | .optionInt name, arg :: _ =>
    if isInteger arg then some [⟨d.sectn, name, arg, .strcasecmp⟩] else none
  | .optionStreamOffset xName yName, x :: y :: _ =>
    if isInteger x && isInteger y then
      some [⟨d.sectn, xName, x, .strcasecmp⟩, ⟨d.sectn, yName, y, .strcasecmp⟩]
    else none
  | .optFile keywds, arg :: _ =>
    if arg.head? = some 0x2f then if env.issetugid then none else some []
    else if areKeywds keywds [arg] then some []
    else none
  | .optGamma names, arg :: _ =>
    if env.validGamma arg then
      some (match names with
        | none => []
        | some names => radioRequests d.sectn names arg .strcmp (some (chars "")))
    else none
  | .optionGFile names, arg :: _ =>
    some (radioRequests d.sectn names arg .strcmp (some (chars "2.22")))
  | .optRes keywds, arg :: args =>
    match keywds with
    | none => some []
    | some keywds =>
      if arg = chars "?" || areKeywds keywds (args.takeWhile isArgument) then some [] else none
  | _, _ => none

/-- What the defaults ask for. -/
def defaultsRequests (env : Env) : List Descr → Option (List Request)
  | [] => some []
  | d :: ds =>
    match d.defaultsArgv with
    | none => defaultsRequests env ds
    | some argv =>
      if strcaseEq d.argvName (chars "defaults") then defaultsRequests env ds
      else
        (d.requests env argv.args).bind fun rs => (defaultsRequests env ds).map (rs ++ ·)

namespace Varient

variable (V : Varient) (env : Env)

/-- What an option asks for. -/
def requests (d : Descr) (args : List Word) : Option (List Request) :=
  match d.getoptFn with
  | .optDefaults => defaultsRequests env V.options
  | _ => d.requests env args

/-- The option of a word. -/
def option (opt : Word) : Option Descr :=
  if isArgument opt then none else (searchKeywds Descr.argvName opt.tail V.options).toOption

/-- What the words of a command line ask for, unless there is an error in them; `skip` words belong
to the option before. -/
def requestsFrom : Nat → List Word → Option (List Request)
  | _, [] => some []
  | skip + 1, _ :: argv => requestsFrom skip argv
  | 0, opt :: argv =>
    (V.option opt).bind fun d =>
      if argv.length < d.getoptFn.optionArgs then none
      else
        (V.requests env d argv).bind fun rs =>
          (requestsFrom (d.getoptFn.optionArgs + d.extra argv) argv).map (rs ++ ·)

/-- The words of a command line are whole options. -/
def wholeOptions : Nat → List Word → Bool
  | skip, [] => skip = 0
  | skip + 1, _ :: argv => wholeOptions skip argv
  | 0, opt :: argv =>
    (V.option opt).any fun d => wholeOptions (d.getoptFn.optionArgs + d.extra argv) argv

/-- What the options before and after an option ask for. -/
def others (before after : List Word) : Option (List Request) :=
  (V.requestsFrom env 0 before).bind fun k => (V.requestsFrom env 0 after).map (k ++ ·)

end Varient

/-! ## Synonyms -/

/-- Two command lines are accepted or not, and set every Option to the same truth value. -/
structure SameEffect (a b : Except Exit Fbvar) : Prop where
  accepted : (∃ u, a = .ok u) ↔ ∃ u, b = .ok u
  truth : ∀ u w, a = .ok u → b = .ok w → ∀ sectn name, u.truth sectn name = w.truth sectn name

/-- The argument `s` of a Boolean option can be replaced by any other keyword for its truth value,
and an option that is turned off does not change another one. -/
structure Interchangeable (V : Varient) (env : Env) (v : Fbvar) (before : List Word) (opt s : Word)
    (after : List Word) (own : Key) (ent : Keywd) : Prop where
  synonyms : ∀ s' ent', searchKeywds Keywd.argvName s' keywdsBoolean.keywds = .ok ent' →
    ent'.value = ent.value →
    SameEffect (V.getargs env (before ++ opt :: s :: after) v)
      (V.getargs env (before ++ opt :: s' :: after) v)
  off : ent.value = boolFalse → ∀ u, V.getargs env (before ++ opt :: s :: after) v = .ok u →
    ∃ w, V.getargs env (before ++ after) v = .ok w ∧
      ∀ sectn name, (sectn, name.map tolower) ≠ own → u.truth sectn name = w.truth sectn name

/-- The words for a truth value in the configuration file. -/
def spellings (value : Nat) : List Word :=
  (keywdsBoolean.keywds.filter (·.value = value)).map fun k => k.conf.map tolower

/-- The word that Boolean Options are reset to. -/
def falseWord : Word := (chars "False").map tolower

/-- The other options give the Option a value that is no word for the truth value, or they give one
of those ganged with it another value than False: then the option conflicts with them unless its
word is False and they do not ask for another one. -/
def Clashes (rs : List Request) (own : Key) (ganged : List Key) (value : Nat) : Prop :=
  (∃ r ∈ rs, r.key = own ∧ r.val ∉ spellings value) ∨
    (∃ r ∈ rs, r.key ∈ ganged ∧ r.val ≠ falseWord) ∧
      (value = boolFalse → ∃ r ∈ rs, r.key = own ∧ r.val ≠ falseWord)

/-- The other options do not set the Option, and to turn it off need not reset those ganged with it:
these are False already. -/
def Alone (rs : List Request) (own : Key) (ganged : List Key) (value : Nat) : Prop :=
  (∀ r ∈ rs, r.key ≠ own) ∧
    (value = boolFalse → ∀ k ∈ ganged, ∃ r ∈ rs, r.key = k ∧ r.val = falseWord)

/-- The keywords for a truth value do the same besides other options that do not contradict one
another. -/
def Synonymous (V : Varient) (env : Env) (before after : List Word) (own : Key) (ganged : List Key)
    (value : Nat) : Prop :=
  env.malloc = true → ∀ rs, V.others env before after = some rs →
    Consistent Request.key Request.val rs → Clashes rs own ganged value ∨ Alone rs own ganged value

/-! ## The default visual -/

/-- `FBC_SECTN_DefLinear`, `FBC_SECTN_DefOverlay` and `FBC_SECTN_DefTransparent`, a Display
subsection -/
def sectnDefVisual : Nat := 2

/-- An option for the default visual: setting one resets the others. -/
def defVisual (argvName : String) (names : Names) : Descr where
  argvName := chars argvName
  getoptFn := .optionKeyword keywdsBoolean names
  sectn := sectnDefVisual
  -- `fbc_defargv_deflinear`, `fbc_defargv_defoverlay` and `fbc_defargv_deftransparent`
  defaultsArgv := some ⟨chars ("-defaults; -" ++ argvName), [chars "false"]⟩
  noRecursion := fun h => (by cases h)

/-- `-deflinear` -/
def deflinear : Descr :=
  defVisual "deflinear" ⟨chars "DefLinear", [chars "DefOverlay", chars "DefTransparent"]⟩

/-- `-defoverlay` -/
def defoverlay : Descr :=
  defVisual "defoverlay" ⟨chars "DefOverlay", [chars "DefLinear", chars "DefTransparent"]⟩

/-- `-deftransparent` -/
def deftransparent : Descr :=
  defVisual "deftransparent" ⟨chars "DefTransparent", [chars "DefLinear", chars "DefOverlay"]⟩

/-- A device type with `-defaults` and the options for the default visual. -/
def visuals : Varient where
  options := [optionDefaults, deflinear, defoverlay, deftransparent]
  size := 5
  gangs := by decide +kernel
  kinds := by decide +kernel
  room := by decide +kernel

end Getargs
