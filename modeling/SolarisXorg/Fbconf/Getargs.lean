import SolarisXorg.Fbconf.Keywds

/-!
# The command line (`fbc_getargs.c`)

`fbc_getargs` goes through the words of the command line and calls the handler of each option. The
options that a device type has are a table (`Varient`); a handler is given the words behind its
option. The handlers add Option entries to `.Option_mods[]`, for which `addOptionMod` rejects values
that conflict, and `addRadioOptionMod` resets the Options that are ganged with one. An error ends
the program (`Exit`).
-/

namespace Getargs

open Lib Fbc ResComp

/-- A word of the command line. -/
abbrev Word := List UInt8

/-! ## Option modifications -/

/-- How the values of an Option are compared. -/
inductive StrcmpFn where
  | strcmp
  | strcasecmp
  deriving DecidableEq

/-- `strcmp_fn(s, t) == 0` -/
def StrcmpFn.eq : StrcmpFn → Word → Word → Bool
  | .strcmp, s, t => s = t
  | .strcasecmp, s, t => strcaseEq s t

/-- `xf86_opt_mod_t` -/
structure OptMod where
  sectn : Nat
  name : Word
  value : Option Word

/-- A Gamma entry: `FBC_NO_Gamma`, to be deleted, or the value of a word. -/
inductive Gamma where
  | notSet
  | deleted
  | value (w : Word)

/-- `opt_set_t` -/
structure OptSet where
  help : Bool := false
  prconf : Bool := false
  predidRaw : Bool := false
  predidParsed : Bool := false
  propt : Bool := false
  resList : Bool := false
  resModeNocheck : Bool := false
  resModeNoconfirm : Bool := false
  resModeTry : Bool := false
  resModeNow : Bool := false

/-- What the command line sets in `fbc_varient_t`. `gfileOutPath` is the element of
`.Option_mods[]` whose value it points to. -/
structure Fbvar where
  optionMods : List OptMod
  modifyConfig : Nat
  gamma : Gamma
  videoModeName : Option Word
  gfileInPath : Option Word
  gfileOutPath : Option Nat
  configFileLoc : Option Word
  configFilePath : Option Word
  configSearchPath : Option Word
  optionSet : OptSet

/-- Why the program exits: the text of the message is quoted. -/
inductive Exit where
  /-- "Invalid value for -%s option: %s" -/
  | invalidValue (option value : Word)
  /-- "Ambiguous value for -%s option." -/
  | ambiguousValue (option : Word)
  /-- "Conflicting option, %s %s" -/
  | conflict (opt value : Word)
  /-- "Conflicting option, %s %s %s" -/
  | conflictOffset (opt x y : Word)
  /-- "Conflicting associated option, %s %s" -/
  | conflictAssociated (opt value : Word)
  /-- "Internal error; array bound exceeded" -/
  | arrayBound
  /-- "Invalid integer value, %s %s" -/
  | invalidInteger (opt value : Word)
  /-- "Invalid offset value #%d, %s %s %s" -/
  | invalidOffset (i : Nat) (opt x y : Word)
  /-- "Invalid gamma value, %s %s" -/
  | invalidGamma (opt value : Word)
  /-- "%s %s not allowed with added privileges" -/
  | notAllowed (opt value : Word)
  /-- "Unknown option, %s" -/
  | unknownOption (opt : Word)
  /-- "Option %s is ambiguous." -/
  | ambiguousOption (opt : Word)
  /-- "Option requires an argument, %s" -/
  | requiresArgument (opt : Word)
  /-- "Insufficient memory, Option_mods" -/
  | nomem
  /-- An argument that is not there is read. -/
  | nullArg

/-- The Option of a name in a section. -/
def OptMod.isOption (sectn : Nat) (name : Word) (m : OptMod) : Bool :=
  sectn = m.sectn && strcaseEq name m.name

/-- Values do not conflict. -/
def sameValue (strcmpFn : StrcmpFn) : Option Word → Option Word → Bool
  | none, none => true
  | some s, some t => strcmpFn.eq s t
  | _, _ => false

/-- How `fbc_add_Option_mod` fails: `FBC_ERR_OPT_CONFLICT`, or it exits. -/
inductive AddError where
  | conflict
  | arrayBound

/-- `fbc_add_Option_mod`, for an array of `size` elements: the state and the element. -/
def addOptionMod (size sectn : Nat) (name : Word) (value : Option Word) (strcmpFn : StrcmpFn)
    (v : Fbvar) : Except AddError (Fbvar × Nat) :=
  let v := { v with modifyConfig := v.modifyConfig ||| sectn }
  match v.optionMods.find? (OptMod.isOption sectn name) with
  | some m =>
    if sameValue strcmpFn value m.value then
      .ok (v, v.optionMods.findIdx (OptMod.isOption sectn name))
    else .error .conflict
  | none =>
    if size ≤ v.optionMods.length + 1 then .error .arrayBound
    else
      .ok ({ v with optionMods := v.optionMods ++ [⟨sectn, name, value⟩] }, v.optionMods.length)

/-- The exit for a failed addition. -/
def AddError.exit (conflict : Exit) : AddError → Exit
  | .conflict => conflict
  | .arrayBound => .arrayBound

/-- `conf_name` of an option's descriptor: the Option and those ganged with it. -/
structure Names where
  name : Word
  ganged : List Word

/-! ## Handlers -/

/-- `fbc_getopt_fn`, with what it reads of the descriptor's keyword table and Option names. -/
inductive GetoptFn where
  | optionKeyword (keywds : KeywdTable) (names : Names)
  | optionInt (name : Word)
  | optionStreamOffset (xName yName : Word)
  | optDefaults
  | optDev
  | optFile (keywds : List Keywd)
  | optGamma (names : Option Names)
  | optionGFile (names : Names)
  | optHelp
  | optPrconf
  | optPredid
  | optPropt
  | optRes (keywds : Option (List Keywd))

/-- `option_args`: as many arguments as the handler reads in any case. -/
def GetoptFn.optionArgs : GetoptFn → Nat
  | .optionKeyword .. | .optionInt _ | .optDev | .optFile _ | .optGamma _ | .optionGFile _
  | .optRes _ => 1
  | .optionStreamOffset .. => 2
  | .optDefaults | .optHelp | .optPrconf | .optPredid | .optPropt => 0

/-- `defaults_argv`: the option that is named in messages, and its arguments. -/
structure DefaultsArgv where
  opt : Word
  args : List Word

/-- `fbopt_descr_t`. The option `-defaults` has no defaults. -/
structure Descr where
  argvName : Word
  getoptFn : GetoptFn
  sectn : Nat
  defaultsArgv : Option DefaultsArgv
  noRecursion : getoptFn = .optDefaults → defaultsArgv = none

/-- What the command line depends on besides its words: which of them are gamma values, whether
there is memory, and whether the program has added privileges. -/
structure Env where
  validGamma : Word → Bool
  malloc : Bool
  issetugid : Bool

/-- `fbc_search_optvals` -/
def searchOptvals (optionName : Word) (keywds : List Keywd) (optionValue : Word) :
    Except Exit Keywd :=
  match searchKeywds Keywd.argvName optionValue keywds with
  | .ok ent => .ok ent
  | .error .invalid => .error (.invalidValue optionName optionValue)
  | .error .ambiguous => .error (.ambiguousValue optionName)

/-- The loop of `fbc_add_radio_Option_mod` over the Options that are ganged. -/
def resetGanged (size sectn : Nat) (reset : Word) (strcmpFn : StrcmpFn) (conflict : Exit) :
    List Word → Fbvar → Except Exit Fbvar
  | [], v => .ok v
  | name :: ganged, v =>
    match addOptionMod size sectn name (some reset) strcmpFn v with
    | .error e => .error (e.exit conflict)
    | .ok (v, _) => resetGanged size sectn reset strcmpFn conflict ganged v

/-- `fbc_add_radio_Option_mod` after the keyword look-up: the state and the element added. -/
def addRadio (size sectn : Nat) (names : Names) (value : Word) (strcmpFn : StrcmpFn)
    (reset : Option Word) (opt arg : Word) (v : Fbvar) : Except Exit (Fbvar × Nat) :=
  match addOptionMod size sectn names.name (some value) strcmpFn v with
  | .error e => .error (e.exit (.conflict opt arg))
  | .ok (v, i) =>
    match reset with
    | none => .ok (v, i)
    | some reset =>
      if strcaseEq value reset then .ok (v, i)
      else
        (resetGanged size sectn reset strcmpFn (.conflictAssociated opt arg) names.ganged v).map
          fun v => (v, i)

/-- `fbc_add_radio_Option_mod` -/
def addRadioOptionMod (size : Nat) (d : Descr) (names : Names) (keywds : Option (List Keywd))
    (reset : Option Word) (opt arg : Word) (v : Fbvar) : Except Exit (Fbvar × Nat) :=
  match keywds with
  | none => addRadio size d.sectn names arg .strcmp reset opt arg v
  | some keywds =>
    match searchOptvals d.argvName keywds arg with
    | .error e => .error e
    | .ok ent => addRadio size d.sectn names ent.conf .strcasecmp reset opt arg v

/-- `strtol(s, &end_ptr, 0)` reads all of a word. -/
def isInteger (s : Word) : Bool := s ≠ [] && (strtoul s).2 = []

/-- A word that looks like an argument. -/
def isArgument (w : Word) : Bool := w.head? ≠ some 0x2d

/-- `fbc_Option_int` -/
def optionInt (size : Nat) (d : Descr) (name opt arg : Word) (v : Fbvar) : Except Exit Fbvar :=
  if isInteger arg then
    match addOptionMod size d.sectn name (some arg) .strcasecmp v with
    | .error e => .error (e.exit (.conflict opt arg))
    | .ok (v, _) => .ok v
  else .error (.invalidInteger opt arg)

/-- `fbc_Option_Stream_Offset` -/
def optionStreamOffset (size : Nat) (d : Descr) (xName yName opt x y : Word) (v : Fbvar) :
    Except Exit Fbvar :=
  if !isInteger x then .error (.invalidOffset 1 opt x y)
  else if !isInteger y then .error (.invalidOffset 2 opt x y)
  else
    match addOptionMod size d.sectn xName (some x) .strcasecmp v with
    | .error e => .error (e.exit (.conflictOffset opt x y))
    | .ok (v, _) =>
      match addOptionMod size d.sectn yName (some y) .strcasecmp v with
      | .error e => .error (e.exit (.conflictOffset opt x y))
      | .ok (v, _) => .ok v

/-- `fbc_opt_file` -/
def optFile (env : Env) (d : Descr) (keywds : List Keywd) (opt arg : Word) (v : Fbvar) :
    Except Exit Fbvar :=
  if arg.head? = some 0x2f then
    if env.issetugid then .error (.notAllowed opt arg)
    else
      .ok { v with
        configFileLoc := none
        configFilePath := some arg
        configSearchPath := some (chars "%A") }
  else
    match searchOptvals d.argvName keywds arg with
    | .error e => .error e
    | .ok ent =>
      .ok { v with
        configFileLoc := some ent.argvName
        configFilePath := ent.confName
        configSearchPath := some (chars "%A") }

/-- `fbc_opt_Gamma` -/
def optGamma (env : Env) (size : Nat) (d : Descr) (names : Option Names) (opt arg : Word)
    (v : Fbvar) : Except Exit Fbvar :=
  if env.validGamma arg then
    match names with
    | none => .ok { v with gamma := .value arg }
    | some names =>
      (addRadioOptionMod size d names none (some (chars "")) opt arg
        { v with gamma := .value arg }).map Prod.fst
  else .error (.invalidGamma opt arg)

/-- `fbc_Option_GFile` -/
def optionGFile (size : Nat) (d : Descr) (names : Names) (opt arg : Word) (v : Fbvar) :
    Except Exit Fbvar :=
  match addRadioOptionMod size d names none (some (chars "2.22")) opt arg
      { v with gfileInPath := some arg } with
  | .error e => .error e
  | .ok (v, i) =>
    .ok { v with
      gamma := .deleted
      gfileOutPath := if arg ≠ [] ∧ v.gfileOutPath = none then some i else v.gfileOutPath }

/-- A keyword of `-predid`. -/
def OptSet.predid (o : OptSet) (value : Nat) : OptSet :=
  if value = 0 then { o with predidRaw := true }
  else if value = 1 then { o with predidParsed := true }
  else o

/-- A keyword of `-res`. -/
def OptSet.res (o : OptSet) (value : Nat) : OptSet :=
  if value = 1 then { o with resModeNocheck := true, resModeNoconfirm := true }
  else if value = 2 then { o with resModeNoconfirm := true }
  else if value = 3 then { o with resModeTry := true }
  else if value = 4 then { o with resModeNow := true }
  else o

/-- The loops of `fbc_opt_predid` and `fbc_opt_res` over the words that look like arguments: the
flags, and how many words there are. -/
def optionalArgs (d : Descr) (keywds : List Keywd) (set : OptSet → Nat → OptSet) :
    List Word → OptSet → Except Exit (OptSet × Nat)
  | [], o => .ok (o, 0)
  | w :: ws, o =>
    if isArgument w then
      match searchOptvals d.argvName keywds w with
      | .error e => .error e
      | .ok ent =>
        (optionalArgs d keywds set ws (set o ent.value)).map fun (o, n) => (o, n + 1)
    else .ok (o, 0)

/-- `fbc_opt_predid` -/
def optPredid (d : Descr) (args : List Word) (v : Fbvar) : Except Exit (Fbvar × Nat) :=
  let o := { v.optionSet with predidRaw := false, predidParsed := false }
  (optionalArgs d keywdsPredid OptSet.predid args o).map fun (o, n) =>
    ({ v with
      optionSet :=
        if o.predidRaw || o.predidParsed then o else { o with predidParsed := true } }, n)

/-- `FBC_SECTN_Res`, a Display subsection -/
def sectnRes : Nat := 2

/-- `fbc_opt_res` -/
def optRes (d : Descr) (keywds : Option (List Keywd)) (arg : Word) (args : List Word) (v : Fbvar) :
    Except Exit (Fbvar × Nat) :=
  let o := { v.optionSet with
    resList := false
    resModeNocheck := false
    resModeNoconfirm := false
    resModeTry := false
    resModeNow := false }
  if arg = chars "?" then .ok ({ v with optionSet := { o with resList := true } }, 0)
  else
    let v := { v with
      optionSet := o
      videoModeName := some arg
      modifyConfig := v.modifyConfig ||| sectnRes }
    match keywds with
    | none => .ok (v, 0)
    | some keywds =>
      (optionalArgs d keywds OptSet.res args o).map fun (o, n) => ({ v with optionSet := o }, n)

/-- A handler, given the words behind its option: the state, and how many more words than
`option_args` it takes. `-defaults` is handled by `defaults`. -/
def Descr.handle (env : Env) (size : Nat) (d : Descr) (opt : Word) (args : List Word) (v : Fbvar) :
    Except Exit (Fbvar × Nat) :=
  match d.getoptFn, args with
  | .optDefaults, _ => .ok (v, 0)
  | .optHelp, _ => .ok ({ v with optionSet := { v.optionSet with help := true } }, 0)
  | .optPrconf, _ => .ok ({ v with optionSet := { v.optionSet with prconf := true } }, 0)
  | .optPropt, _ => .ok ({ v with optionSet := { v.optionSet with propt := true } }, 0)
  | .optPredid, args => optPredid d args v
  | .optDev, _ :: _ => .ok (v, 0)
  | .optionKeyword keywds names, arg :: _ =>
    (addRadioOptionMod size d names (some keywds.keywds) keywds.reset opt arg v).map
      fun (v, _) => (v, 0)
  | .optionInt name, arg :: _ => (optionInt size d name opt arg v).map fun v => (v, 0)
  | .optionStreamOffset xName yName, x :: y :: _ =>
    (optionStreamOffset size d xName yName opt x y v).map fun v => (v, 0)
  | .optFile keywds, arg :: _ => (optFile env d keywds opt arg v).map fun v => (v, 0)
  | .optGamma names, arg :: _ => (optGamma env size d names opt arg v).map fun v => (v, 0)
  | .optionGFile names, arg :: _ => (optionGFile size d names opt arg v).map fun v => (v, 0)
  | .optRes keywds, arg :: args => optRes d keywds arg args v
  | _, _ => .error .nullArg

/-- `fbc_opt_defaults` -/
def defaults (env : Env) (size : Nat) : List Descr → Fbvar → Except Exit Fbvar
  | [], v => .ok v
  | d :: ds, v =>
    match d.defaultsArgv with
    | none => defaults env size ds v
    | some argv =>
      -- a message, and no recursion
      if strcaseEq d.argvName (chars "defaults") then defaults env size ds v
      else
        match d.handle env size argv.opt argv.args v with
        | .error e => .error e
        | .ok (v, _) => defaults env size ds v

/-! ## The command line -/

/-- The Options that an option may add. -/
def GetoptFn.names : GetoptFn → List Word
  | .optionKeyword _ names | .optGamma (some names) | .optionGFile names =>
    names.name :: names.ganged
  | .optionInt name => [name]
  | .optionStreamOffset xName yName => [xName, yName]
  | _ => []

/-- How the values of these Options are compared. -/
def GetoptFn.strcmpFn : GetoptFn → StrcmpFn
  | .optGamma _ | .optionGFile _ => .strcmp
  | _ => .strcasecmp

/-- An Option, however its name is spelled. -/
abbrev Key := Nat × Word

/-- The Options that an option may add. -/
def Descr.keys (d : Descr) : List Key :=
  d.getoptFn.names.map fun name => (d.sectn, name.map tolower)

/-- The options of a device type and the size of its `.Option_mods[]`: no Option is ganged with
itself, the values of an Option are always compared in the same way, and there is room for every
Option and the terminator. -/
structure Varient where
  options : List Descr
  size : Nat
  gangs : ∀ d ∈ options, d.keys.Nodup
  kinds : ∀ d ∈ options, ∀ d' ∈ options, ∀ k ∈ d.keys, k ∈ d'.keys →
    d.getoptFn.strcmpFn = d'.getoptFn.strcmpFn
  room : (options.flatMap Descr.keys).dedup.length < size

/-- `fbc_defargv_rscreen` -/
def defargvRscreen : DefaultsArgv := ⟨chars "-defaults; -rscreen", [chars "disable"]⟩

/-- `FBC_SECTN_RScreen`, a Screen section -/
def sectnRScreen : Nat := 1

/-- `FBC_SECTN_Device`, a Device section -/
def sectnDevice : Nat := 8

/-- `-defaults` -/
def optionDefaults : Descr where
  argvName := chars "defaults"
  getoptFn := .optDefaults
  sectn := 0
  defaultsArgv := none
  noRecursion := fun _ => rfl

/-- `mga_option`, which `ast_option` is the same as -/
def mgaOption : List Descr :=
  [optionDefaults,
    ⟨chars "dev", .optDev, sectnDevice, none, fun _ => rfl⟩,
    ⟨chars "file", .optFile keywdsFile, 0, none, fun _ => rfl⟩,
    ⟨chars "help", .optHelp, 0, none, fun _ => rfl⟩,
    ⟨chars "prconf", .optPrconf, 0, none, fun _ => rfl⟩,
    ⟨chars "predid", .optPredid, 0, none, fun _ => rfl⟩,
    ⟨chars "propt", .optPropt, 0, none, fun _ => rfl⟩,
    ⟨chars "res", .optRes (some keywdsResNntn), sectnRes, none, fun _ => rfl⟩,
    ⟨chars "rscreen", .optionKeyword keywdsXable ⟨chars "RemoteScreen", []⟩, sectnRScreen,
      some defargvRscreen, fun h => (by cases h)⟩]

/-- What `SUNWmga_get_properties` says of the command line; the size of the array is that of the
table with its end marker. -/
def mga : Varient where
  options := mgaOption
  size := mgaOption.length + 1
  gangs := by decide +kernel
  kinds := by decide +kernel
  room := by decide +kernel

/-- The handler of an option. -/
def Varient.getopt (V : Varient) (env : Env) (d : Descr) (opt : Word) (args : List Word)
    (v : Fbvar) : Except Exit (Fbvar × Nat) :=
  match d.getoptFn with
  | .optDefaults => (defaults env V.size V.options v).map fun v => (v, 0)
  | _ => d.handle env V.size opt args v

/-- The loop of `fbc_getargs`; `skip` words belong to the option before. -/
def Varient.getargsFrom (V : Varient) (env : Env) :
    Nat → List Word → Fbvar → Except Exit Fbvar
  | _, [], v => .ok v
  | skip + 1, _ :: argv, v => V.getargsFrom env skip argv v
  | 0, opt :: argv, v =>
    if isArgument opt then .error (.unknownOption opt)
    else
      match searchKeywds Descr.argvName opt.tail V.options with
      | .error .invalid => .error (.unknownOption opt)
      | .error .ambiguous => .error (.ambiguousOption opt)
      | .ok d =>
        if argv.length < d.getoptFn.optionArgs then .error (.requiresArgument opt)
        else
          match V.getopt env d opt argv v with
          | .error e => .error e
          | .ok (v, extra) => V.getargsFrom env (d.getoptFn.optionArgs + extra) argv v

/-- `fbc_getargs`: what of the command line follows the program's name. -/
def Varient.getargs (V : Varient) (env : Env) (argv : List Word) (v : Fbvar) :
    Except Exit Fbvar :=
  if env.malloc then
    V.getargsFrom env 0 argv { v with
      gamma := .notSet
      videoModeName := none
      optionMods := []
      modifyConfig := 0 }
  else .error .nomem

/-- The truth value to which an Option is set. -/
def Fbvar.truth (v : Fbvar) (sectn : Nat) (name : Word) : Option Bool :=
  (v.optionMods.find? (OptMod.isOption sectn name)).map fun m => boolArg m.value

end Getargs
