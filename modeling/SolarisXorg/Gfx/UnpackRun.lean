import SolarisXorg.Gfx.GammaPack

/-!
# Unpacking any string (`gfx_gamma_pack.c`)

`gfx_unpack_gamma_string_16` once more, on strings nobody packed: what the functions load and store
is checked here. A run stops with a `Fault` where it touches an element the difference table does
not have, or uses a variable nothing was stored in. The other runs keep a record of the numbers
they came to.

An `int` that overflows wraps around, and `malloc` is taken to succeed.
-/

namespace Gfx

/-- Where a run stops. -/
inductive Fault where
  /-- Element `i` of a table that ends before it. -/
  | past (i : Nat)
  /-- The use of a variable nothing was stored in. -/
  | unwritten
  deriving DecidableEq, Repr

/-! ## The difference table -/

/-- `tbl[i]` -/
def load (tbl : List Int32) (i : Nat) : Except Fault Int32 :=
  match tbl[i]? with
  | some v => .ok v
  | none => .error (.past i)

/-- `tbl[i] = v` -/
def store (tbl : List Int32) (i : Nat) (v : Int32) : Except Fault (List Int32) :=
  if i < tbl.length then .ok (tbl.set i v) else .error (.past i)

/-- What a call that was given `tbl + i` stored. -/
def storeCell (tbl : List Int32) (i : Nat) : Option Int32 → Except Fault (List Int32)
  | some v => store tbl i v
  | none => .ok tbl

/-- `tbl[i] = vals[0], tbl[i + 1] = vals[1], ...` -/
def storeAll (tbl : List Int32) (i : Nat) : List Int → Except Fault (List Int32)
  | [] => .ok tbl
  | v :: vals => do
    let tbl ← store tbl i (.ofInt v)
    storeAll tbl (i + 1) vals

/-! ## One integer -/

/-- `unpack_int_core`: the number of characters consumed, and the value if one was stored. -/
def unpackCell (tb : IntTables) : List UInt8 → Except Fault (Nat × Option Int32)
  | [] => .ok (0, none)
  | c :: str =>
    match tb.lsb.idxOf? c, tb.neg.idxOf? c, tb.pos.idxOf? c with
    | none, none, some valu => .ok (1, some (.ofNat valu))
    | none, some valu, none => .ok (1, some (-.ofNat valu - 1))
    | some valu, none, none => do
      let (rc, msb) ← unpackCell tb str
      if 0 < rc then
        match msb with
        | none => .error .unwritten
        | some msb =>
          let lsbRange : Int32 := .ofNat tb.lsb.length
          if 0 ≤ msb then
            .ok (1 + rc, some (msb * lsbRange + (.ofNat valu + .ofNat tb.pos.length)))
          else
            .ok (1 + rc,
              some ((msb - 1) * lsbRange + (.ofNat valu - .ofNat tb.neg.length + lsbRange)))
      else .ok (1 + rc, none)
    | _, _, _ => .ok (0, none)

/-- A call of `unpack_gam_int`: where it started, and what it returned. -/
structure GamIntCall where
  sp : List UInt8
  rc : Nat

/-! ## Integer tables -/

/-- What a run leaves. -/
structure Unpacked (α : Type) where
  /-- The value returned. -/
  rc : Int
  /-- The numbers met. -/
  calls : List GamIntCall
  /-- The table filled in. -/
  table : List α

/-- A number met before the rest. -/
def Unpacked.after {α : Type} (call : GamIntCall) (run : Unpacked α) : Unpacked α :=
  { run with calls := call :: run.calls }

/-- The loop of `unpack_string_to_tbl` from `sp`. -/
def unpackRunLoop (tblLen : Int) (sp : List UInt8) (state : PackTableState) (tbl : List Int32)
    (tcount : Nat) : Except Fault (Unpacked Int32) :=
  match sp with
  | [] => .ok ⟨tcount, [], tbl⟩
  | c :: str =>
    -- A zero length terminator at the end is ignored.
    if tblLen ≤ tcount ∧ c ≠ deltaTableBase0X then .ok ⟨0, [], tbl⟩
    else
      match state with
      | .packSingle =>
        if c = gammaIntStartPacked then unpackRunLoop tblLen str .packTinyGroup tbl tcount
        else do
          let (ll, value) ← unpackCell gammaTblInt (c :: str)
          let call : GamIntCall := ⟨c :: str, ll⟩
          if ll = 0 then .ok ⟨0, [call], tbl⟩
          else
            let tbl ← storeCell tbl tcount value
            let run ← unpackRunLoop tblLen (str.drop (ll - 1)) .packSingle tbl (tcount + 1)
            .ok (run.after call)
      | .packTinyGroup => do
        let vals := unpackTinyBytes c (tblLen - tcount).toNat
        let tbl ← storeAll tbl tcount vals
        unpackRunLoop tblLen str (if vals.length ≤ 1 then .packSingle else .packTinyGroup) tbl
          (tcount + vals.length)
termination_by sp.length
decreasing_by
  · simp
  · simp only [List.length_drop, List.length_cons]
    omega
  · simp

/-- `unpack_string_to_tbl` -/
def unpackRunTbl (packedString : List UInt8) (tblLen : Int) (tbl : List Int32) :
    Except Fault (Unpacked Int32) :=
  unpackRunLoop tblLen packedString .packSingle tbl 0

/-! ## Gamma tables -/

/-- The last loop of `gfx_unpack_gamma_string_16` from entry `g`, with `n` entries left. -/
def addUpRun (ddel : List Int32) (lastVal lastDel : Int32) (g : Nat) :
    Nat → Except Fault (List UInt16)
  | 0 => .ok []
  | n + 1 => do
    let d ← load ddel g
    let currDel := d + lastDel
    let currVal := currDel + lastVal
    let gtData ← addUpRun ddel currVal currDel (g + 1) n
    .ok (currVal.toUInt32.toUInt16 :: gtData)

/-- `gfx_unpack_gamma_string_16` -/
def gfxUnpackRun (str : List UInt8) (maxEntries : Nat) : Except Fault (Unpacked UInt16) :=
  if str.take gammaHeader.length ≠ gammaHeader then .ok ⟨-1, [], []⟩
  else do
    let sp := str.drop gammaHeader.length
    let (rc, strEntries) ← unpackCell gammaTblInt sp
    let call : GamIntCall := ⟨sp, rc⟩
    if rc = 0 then .ok ⟨0, [call], []⟩
    else
      match strEntries with
      | none => .error .unwritten
      | some strEntries =>
        let ddel := List.replicate strEntries.toInt.toNat 0
        let run ← unpackRunTbl (sp.drop rc) strEntries.toInt ddel
        let gtData ← addUpRun run.table 0 0 0 maxEntries
        .ok ⟨run.rc, call :: run.calls, gtData⟩

end Gfx
