import SolarisXorg.Lib.CStr

/-!
# The display manager pipe (`dtlogin.c`)

The display manager writes login records to a pipe: `KEY="value"` pairs in packets that end with a
`;`, the record with an `EOF` pair. `dtlogin_receive_packet` runs when the pipe is readable. It reads
into a buffer, cuts the packets out of it in place and keeps the rest; `dtlogin_parse_packet` cuts a
packet into pairs, again in place, stores them in the user structure and at an `EOF` pair calls
`dtlogin_process`, which makes the server the user's.

The buffer is the list of its bytes (`Lib.strAt`), the fresh bytes of an allocation are arbitrary
(`junk`), and allocations succeed. `ngroupsUmax` is the system's `NGROUPS_UMAX`. Copying the rest to
the front of the buffer with `strcpy` is a copy of the bytes in order.
-/

namespace Dtlogin

open Lib

/-- `BUFLEN` -/
def bufLen : Nat := 1024

/-- `struct dmuser`: `groupids` are the first `groupid_cnt` of the array. -/
structure DmUser where
  uid : UInt32
  gid : UInt32
  homedir : Option (List UInt8)
  projid : UInt32
  groupids : List UInt32
  deriving DecidableEq

/-- The user of a new `struct dmdata`. -/
def DmUser.init : DmUser := ⟨-1, -1, none, -1, []⟩

/-! ## Switching to the user -/

/-- System calls of `dtlogin_process`. -/
inductive SysCall where
  | seteuid (uid : UInt32)
  | chown (file : List UInt8) (uid gid : UInt32)
  | setregid (rgid egid : UInt32)
  | setegid (gid : UInt32)
  | setgroups (gids : List UInt32)
  | settaskid (projid : UInt32)
  | setproject (proj user : List UInt8)
  | setreuid (ruid euid : UInt32)
  | putenvHome (dir : List UInt8)
  | chdir (dir : List UInt8)
  | setDispLogin (loggedIn : Bool)
  deriving DecidableEq

/-- What `dtlogin_process` asks the system about. -/
structure ProcessEnv where
  euid : UInt32
  authFile : Option (List UInt8)
  getpwuid : UInt32 → Option (List UInt8)
  getdefaultproj : List UInt8 → Option (List UInt8)
  console : Bool

/-- `dtlogin_process`, as the system calls it makes. -/
def process (env : ProcessEnv) (user : DmUser) (userLoggedIn : Bool) : List SysCall :=
  let pwName := if user.projid = -1 ∧ user.uid ≠ -1 then env.getpwuid user.uid else none
  -- The login screen's user has not logged in.
  let userLoggedIn := if pwName = some (chars "gdm") then false else userLoggedIn
  (if env.euid ≠ 0 then [.seteuid 0] else []) ++
  (env.authFile.map fun file => SysCall.chown file user.uid user.gid).toList ++
  (if user.gid ≠ -1 then [.setregid user.gid 0, .setegid user.gid] else []) ++
  [.setgroups user.groupids] ++
  (if user.projid ≠ -1 then [.settaskid user.projid]
   else (pwName.bind fun name => (env.getdefaultproj name).map fun proj =>
     SysCall.setproject proj name).toList) ++
  (if user.uid ≠ -1 then [.setreuid user.uid (-1), .setreuid (-1) user.uid] else []) ++
  (match user.homedir with
   | none => []
   | some dir => [.putenvHome dir, .chdir dir]) ++
  (if env.console then [.setDispLogin userLoggedIn] else [])

/-! ## Packets -/

section

variable (ngroupsUmax : Nat)

/-- A numeric value, if it is one. -/
def numeric (value : List UInt8) : Option UInt32 :=
  let (val, erange) := strtol value
  if val = 0 ∧ value ≠ chars "0" then none
  else if (val = longMax ∨ val = longMin) ∧ erange then none
  else some (.ofInt val)

/-- Storing a pair in the user structure. -/
def storePair (user : DmUser) (key value : List UInt8) : DmUser :=
  if key = chars "HOME" then { user with homedir := some value }
  else if key = chars "UID" then
    match numeric value with
    | none => user
    | some val => { user with uid := val }
  else if key = chars "GID" then
    match numeric value with
    | none => user
    | some val => { user with gid := val }
  else if key = chars "G_LIST_ID" then
    match numeric value with
    | none => user
    | some val =>
      if user.groupids.length < ngroupsUmax then { user with groupids := user.groupids ++ [val] }
      else user
  else user

/-- `dtlogin_parse_packet`: the buffer, the user and the value returned. It returns true after a call
of `dtlogin_process` with that user. -/
def parsePacket (buf : List UInt8) (user : DmUser) (s : Nat) : List UInt8 × DmUser × Bool :=
  if s < buf.length then
    let k := s + ((strAt buf s).takeWhile isspace).length
    if buf.getD k 0 = 0 then (buf, user, false)
    else
      match _hp : strchr buf k 0x3d with
      | none => (buf, user, false)
      | some p =>
        -- The key ends at the `=`, the value at the second quote.
        let keyed := buf.set p 0
        if keyed.getD (p + 1) 0 ≠ 0x22 then (keyed, user, false)
        else
          let v := p + 2
          match hq : strchr keyed v 0x22 with
          | none => (keyed, user, false)
          | some q =>
            let cut := keyed.set q 0
            let key := strAt cut k
            let value := strAt cut v
            if key = chars "EOF" then (cut, user, true)
            else parsePacket cut (storePair ngroupsUmax user key value) (q + 1)
  else (buf, user, false)
termination_by buf.length - s
decreasing_by
  have hk := strchr_bounds _hp
  have hq := strchr_bounds hq
  simp only [keyed, List.length_set] at hq ⊢
  omega

theorem length_parsePacket (buf : List UInt8) (user : DmUser) (s : Nat) :
    (parsePacket ngroupsUmax buf user s).1.length = buf.length := by
  fun_induction parsePacket ngroupsUmax buf user s with
  | case6 buf user s hs k hk p hp keyed hquote v q hq cut key value hkey ih =>
    rw [ih, List.length_set, List.length_set]
  | _ => simp +zetaDelta

/-- The loop over the complete packets of the buffer from `p` on: the buffer, the user, whether the
record ended, and where the rest starts. -/
def parsePackets (buf : List UInt8) (user : DmUser) (p : Nat) :
    List UInt8 × DmUser × Bool × Nat :=
  match hn : strchr buf p 0x3b with
  | none => (buf, user, false, p)
  | some n =>
    let parsed := parsePacket ngroupsUmax (buf.set n 0) user p
    if parsed.2.2 then (parsed.1, parsed.2.1, true, p)
    else parsePackets parsed.1 parsed.2.1 (n + 1)
termination_by buf.length - p
decreasing_by
  have hn := strchr_bounds hn
  have hlen := length_parsePacket ngroupsUmax (buf.set n 0) user p
  rw [List.length_set] at hlen
  rw [hlen]
  omega

/-! ## Reading the pipe -/

/-- What a `read` of the pipe returns. No bytes are the end of the file. -/
inductive ReadResult where
  | bytes (l : List UInt8)
  | eintr
  | eagain
  | error

/-- `struct dmdata`, with the users `dtlogin_process` was called with. -/
structure DmData where
  /-- The buffer, `bufsize` bytes. -/
  buf : Option (List UInt8)
  user : DmUser
  /-- The pipe is closed. -/
  closed : Bool
  processed : List DmUser

/-- A new `struct dmdata`. -/
def DmData.init : DmData := ⟨none, .init, false, []⟩

/-- `dtlogin_close_pipe` -/
def closePipe (dmd : DmData) : DmData := { dmd with buf := none, closed := true }

variable (junk : Nat → UInt8)

/-- `n` bytes of fresh memory. -/
def fresh (n : Nat) : List UInt8 := (List.range n).map junk

/-- The buffer at the start of `dtlogin_receive_packet`. -/
def openBuf (dmd : DmData) : List UInt8 :=
  match dmd.buf with
  | none => (fresh junk bufLen).set 0 0
  | some buf => buf

/-- The buffer grows when it is more than half full. -/
def growBuf (buf : List UInt8) : List UInt8 :=
  if buf.length / 2 < (strAt buf 0).length then buf ++ fresh junk bufLen else buf

/-- One turn of the loop in `dtlogin_receive_packet` with the result of its `read`: the data, and
whether the function returns. `none` where `read` cannot have returned that many bytes. -/
def turn (dmd : DmData) (r : ReadResult) : Option (DmData × Bool) :=
  let buf := growBuf junk (openBuf junk dmd)
  let len := (strAt buf 0).length
  match r with
  | .eintr => some ({ dmd with buf := some buf }, false)
  | .eagain => some ({ dmd with buf := some buf }, true)
  | .error => some (closePipe dmd, true)
  | .bytes l =>
    if buf.length - len - 1 < l.length then none
    else if l = [] then some (closePipe dmd, true)
    else
      let buf := buf.take len ++ l ++ 0 :: buf.drop (len + l.length + 1)
      let (buf, user, done, p) := parsePackets ngroupsUmax buf dmd.user 0
      -- Save the rest for the next iteration.
      let buf := if !done ∧ p < len + l.length then strcpy buf (strAt buf p) else buf.set 0 0
      let processed := if done then dmd.processed ++ [user] else dmd.processed
      some (⟨some buf, user, false, processed⟩, done)

/-- `dtlogin_receive_packet` with the results of its reads, the last of which makes it return. -/
def receivePacket (dmd : DmData) : List ReadResult → Option DmData
  | [] => none
  | r :: reads =>
    match turn ngroupsUmax junk dmd r with
    | none => none
    | some (dmd, true) => if reads = [] then some dmd else none
    | some (dmd, false) => receivePacket dmd reads

/-- Notifications that the pipe is readable, until it is closed. -/
def notify (dmd : DmData) : List (List ReadResult) → Option DmData
  | [] => some dmd
  | reads :: notes =>
    if dmd.closed then none
    else
      match receivePacket ngroupsUmax junk dmd reads with
      | none => none
      | some dmd => notify dmd notes

end

end Dtlogin
