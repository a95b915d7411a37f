import SolarisXorg.Dga.Phase

/-!
# The clip list and the window lock (`win_grab.c`)

`dgai_win_clip_update` makes the client's mapping of the clip list the one that the server has. The
sizes are set through a file, for which the client gives up the window lock: in each of three places
of a loop it unlocks, opens and truncates the file, closes it and locks again. What the server has
may be anything when the lock is taken again.

The call is given what happens each time the lock is given up. It has no result if it gives the lock
up more or fewer times than that.
-/

namespace Dga.ClipUpdate

/-- The clip list of the server: `w_flag & WEXTEND`, that there is an extended mapping, and
`w_scliplen`. -/
structure Server where
  wextend : Bool
  wScliplen : Nat

/-- What `w_clipptr` points to: `cmclip`, the list in the page, or the one behind the page. -/
inductive ClipPtr where
  | cmclip
  | extended
  deriving DecidableEq

/-- The client's mapping. -/
structure Client where
  wClipptr : ClipPtr
  wCliplen : Nat

/-- `DGA_UNLOCK` and `DGA_LOCK` -/
inductive LockOp where
  | unlock
  | lock
  deriving DecidableEq

/-- The lock given up: how `open` and `ftruncate` end, and what the server has when the lock is
taken again. -/
structure Relock where
  opens : Bool
  truncates : Bool
  server : Server

/-- The file operations succeed. -/
def Relock.succeeds (r : Relock) : Bool := r.opens && r.truncates

/-- A return from the call, with the lock operations made. -/
structure Return where
  client : Client
  server : Server
  ops : List LockOp

/-- The places where the lock is given up: the server has an extended mapping and the client has
none, or one of the wrong size, or the client has one and the server none. -/
inductive Place where
  | extend
  | resize
  | shrink
  deriving DecidableEq

/-- Which place a pass of the loop comes to; at none the loop ends. -/
def place (c : Client) (S : Server) : Option Place :=
  if S.wextend then
    if c.wClipptr = .cmclip then some .extend
    else if c.wCliplen ≠ S.wScliplen then some .resize
    else none
  else if c.wClipptr ≠ .cmclip then some .shrink
  else none

/-- The client when a file operation fails. -/
def failed (p : Place) (c : Client) : Client :=
  match p with
  | .extend => c
  | .resize => c
  | .shrink => { c with wClipptr := .cmclip }

/-- The client when the lock is held again, with the size read before. `bad` is
`(int)clipptr == -1`. -/
def mapped (bad : Bool) (p : Place) (cliplen : Nat) (c : Client) : Client :=
  match p with
  | .extend => if bad then c else ⟨.extended, cliplen⟩
  | .resize => if bad then { c with wClipptr := .cmclip } else ⟨.extended, cliplen⟩
  | .shrink => { c with wClipptr := .cmclip }

/-- `dgai_win_clip_update` -/
def clipUpdate (bad : Bool) (c : Client) (S : Server) : List Relock → Option Return
  | [] =>
    match place c S with
    | none => some ⟨c, S, []⟩
    | some _ => none
  | r :: rs =>
    match place c S with
    | none => none
    | some p =>
      if r.succeeds then
        (clipUpdate bad (mapped bad p S.wScliplen c) r.server rs).map fun e =>
          { e with ops := .unlock :: .lock :: e.ops }
      else if rs.isEmpty then some ⟨failed p c, r.server, [.unlock]⟩
      else none

/-! ## What is to hold -/

/-- Whether the lock is held after some operations, if it was before. -/
def heldAfter (ops : List LockOp) : Bool := ops.foldl (fun _ op => op = .lock) true

/-- The lock is held as it was, with as many `DGA_UNLOCK`s as `DGA_LOCK`s. -/
def Return.Balanced (e : Return) : Prop :=
  e.ops.count .unlock = e.ops.count .lock ∧ heldAfter e.ops = true

/-- The client's mapping is the one that the server has. -/
structure Agrees (c : Client) (S : Server) : Prop where
  inPage : c.wClipptr = .cmclip ↔ S.wextend = false
  extended : S.wextend = true → c.wClipptr = .extended ∧ c.wCliplen = S.wScliplen

end Dga.ClipUpdate
