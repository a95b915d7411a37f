import SolarisXorg.Fbconf.ResLookup

/-!
# Keywords (`fbc_keywds.c`, the keyword tables of `fbc_getargs.c`)

A keyword on the command line may be abbreviated. The tables for options with a keyword argument
give each keyword the word that stands for it in the configuration file; their zeroth entry holds
the word that ganged options are reset to. `boolArg` is how `fbc_get_Option_bool_value` reads such a
word.
-/

namespace Getargs

open Lib Fbc ResComp

/-- `strncasecmp(s, t, n) == 0` -/
def strncaseEq (s t : List UInt8) (n : Nat) : Bool := strcaseEq (s.take n) (t.take n)

/-- `FBC_ERR_KWD_INVALID` and `FBC_ERR_KWD_AMBIGUOUS` -/
inductive KwdError where
  | invalid
  | ambiguous

section Search

variable {α : Type} (name : α → List UInt8) (keywd : List UInt8)

/-- The loop of `fbc_search_keywds`, with what it has found so far. -/
def searchFrom (found : Except KwdError α) : List α → Except KwdError α
  | [] => found
  | ent :: table =>
    if keywd.length ≤ (name ent).length && strncaseEq keywd (name ent) keywd.length then
      if keywd.length = (name ent).length then .ok ent
      else
        match found with
        | .error .invalid => searchFrom (.ok ent) table
        | _ => searchFrom (.error .ambiguous) table
    else searchFrom found table

/-- `fbc_search_keywds` -/
def searchKeywds (table : List α) : Except KwdError α :=
  searchFrom name keywd (.error .invalid) table

end Search

/-- `keywd_int_t` -/
structure Keywd where
  argvName : List UInt8
  confName : Option (List UInt8)
  value : Nat

/-- The keyword as it will appear in the configuration file. -/
def Keywd.conf (k : Keywd) : List UInt8 := k.confName.getD k.argvName

/-- A keyword table whose zeroth entry holds the reset value. -/
structure KeywdTable where
  reset : Option (List UInt8)
  keywds : List Keywd

/-- `FBC_Bool_False` -/
def boolFalse : Nat := 0

/-- `FBC_Bool_True` -/
def boolTrue : Nat := 1

/-- `fbc_keywds_boolean` -/
def keywdsBoolean : KeywdTable where
  reset := some (chars "False")
  keywds :=
    [⟨chars "true", some (chars "True"), boolTrue⟩,
      ⟨chars "false", some (chars "False"), boolFalse⟩,
      ⟨chars "enable", some (chars "True"), boolTrue⟩,
      ⟨chars "disable", some (chars "False"), boolFalse⟩,
      ⟨chars "yes", some (chars "Yes"), boolTrue⟩,
      ⟨chars "no", some (chars "No"), boolFalse⟩,
      ⟨chars "on", some (chars "On"), boolTrue⟩,
      ⟨chars "off", some (chars "Off"), boolFalse⟩,
      ⟨chars "0", some (chars "0"), boolFalse⟩,
      ⟨chars "1", some (chars "1"), boolTrue⟩]

/-- `fbc_keywds_xable` -/
def keywdsXable : KeywdTable where
  reset := some (chars "Disable")
  keywds :=
    [⟨chars "enable", some (chars "Enable"), boolTrue⟩,
      ⟨chars "disable", some (chars "Disable"), boolFalse⟩,
      ⟨chars "true", some (chars "Enable"), boolTrue⟩,
      ⟨chars "false", some (chars "Disable"), boolFalse⟩,
      ⟨chars "on", some (chars "Enable"), boolTrue⟩,
      ⟨chars "off", some (chars "Disable"), boolFalse⟩,
      ⟨chars "yes", some (chars "Enable"), boolTrue⟩,
      ⟨chars "no", some (chars "Disable"), boolFalse⟩]

/-- `fbc_keywds_file`: `FBC_File_Machine` and `FBC_File_System` -/
def keywdsFile : List Keywd :=
  [⟨chars "machine", some (chars "/etc/X11/xorg.conf"), 0⟩,
    ⟨chars "system", some (chars "/usr/lib/X11/xorg.conf"), 1⟩]

/-- `fbc_keywds_predid`: `FBC_PrEDID_Raw` and `FBC_PrEDID_Parsed` -/
def keywdsPredid : List Keywd := [⟨chars "raw", none, 0⟩, ⟨chars "parsed", none, 1⟩]

/-- `fbc_keywds_res_nntn`: `FBC_ResMode_NoCheck`, `_NoConfirm`, `_Try` and `_Now` -/
def keywdsResNntn : List Keywd :=
  [⟨chars "nocheck", none, 1⟩, ⟨chars "noconfirm", none, 2⟩, ⟨chars "try", none, 3⟩,
    ⟨chars "now", none, 4⟩]

/-- `keywd_boolean` of `fbc_get_Option_bool_value` -/
def keywdBoolean : List (List UInt8 × Bool) :=
  [(chars "false", false), (chars "true", true), (chars "off", false), (chars "on", true),
    (chars "no", false), (chars "yes", true), (chars "0", false), (chars "1", true),
    (chars "", true)]

/-- What `fbc_get_Option_bool_value` makes of an Option's argument; garbage is false. -/
def boolArg (optVal : Option (List UInt8)) : Bool :=
  ((keywdBoolean.find? fun k => nameEq k.1 (optVal.getD [])).map (·.2)).getD false

end Getargs
