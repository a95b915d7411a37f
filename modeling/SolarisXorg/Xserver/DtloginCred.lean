import SolarisXorg.Xserver.Dtlogin

/-!
# The server's own credentials (`dtlogin.c`)

`DtloginInit` notes the credentials of the server in `originalUser`, every login makes them those of
its user, and `DtloginCloseDown` goes back with `dtlogin_process` on `originalUser`. Here are the
credentials themselves, what the system calls of `dtlogin_process` do to them, and the run from
`DtloginInit` to `DtloginCloseDown`.
-/

namespace Dtlogin

/-! ## Credentials -/

/-- The ids of the server process. -/
structure Cred where
  ruid : UInt32
  euid : UInt32
  suid : UInt32
  rgid : UInt32
  egid : UInt32
  sgid : UInt32
  groups : List UInt32
  deriving DecidableEq, Repr

/-- A system call that succeeds. -1 leaves an id as it is; `setreuid` and `setregid` set the saved
id too if they set the real one, or the effective one to another value. -/
def SysCall.apply (c : Cred) : SysCall → Cred
  | .seteuid uid => { c with euid := uid }
  | .setegid gid => { c with egid := gid }
  | .setreuid ruid euid =>
    let newEuid := if euid = -1 then c.euid else euid
    { c with
      ruid := if ruid = -1 then c.ruid else ruid
      euid := newEuid
      suid := if ruid ≠ -1 ∨ euid ≠ -1 ∧ euid ≠ c.ruid then newEuid else c.suid }
  | .setregid rgid egid =>
    let newEgid := if egid = -1 then c.egid else egid
    { c with
      rgid := if rgid = -1 then c.rgid else rgid
      egid := newEgid
      sgid := if rgid ≠ -1 ∨ egid ≠ -1 ∧ egid ≠ c.rgid then newEgid else c.sgid }
  | .setgroups gids => { c with groups := gids }
  | .chown .. | .settaskid .. | .setproject .. | .putenvHome .. | .chdir .. | .setDispLogin .. => c

/-- `dtlogin_process`, as what it makes of the credentials. -/
def processCred (env : ProcessEnv) (user : DmUser) (userLoggedIn : Bool) (c : Cred) : Cred :=
  (process { env with euid := c.euid } user userLoggedIn).foldl SysCall.apply c

/-! ## The server -/

/-- `originalUser`, with the array of groups and its count as they are in memory. -/
structure OriginalUser where
  uid : UInt32
  gid : UInt32
  homedir : Option (List UInt8)
  projid : UInt32
  groupidCnt : Nat
  groupids : List UInt32

/-- Static storage starts as zeros. -/
def OriginalUser.static (ngroupsUmax : Nat) : OriginalUser where
  uid := 0
  gid := 0
  homedir := none
  projid := 0
  groupidCnt := 0
  groupids := List.replicate ngroupsUmax 0

/-- What `dtlogin_process` finds there. -/
def OriginalUser.user (o : OriginalUser) : DmUser where
  uid := o.uid
  gid := o.gid
  homedir := o.homedir
  projid := o.projid
  groupids := o.groupids.take o.groupidCnt

/-- The server process; `pipe` is whether `dmHandlerData` is not NULL. -/
structure Server where
  cred : Cred
  originalUser : OriginalUser
  pipe : Bool

/-- The server when it starts. -/
def Server.boot (ngroupsUmax : Nat) (c : Cred) : Server := ⟨c, .static ngroupsUmax, false⟩

/-- What `DtloginInit` asks the system about. -/
structure InitEnv where
  serverGeneration : Nat
  getcwd : Option (List UInt8)
  getprojid : UInt32
  /-- `dtlogin_create_pipe` succeeds. -/
  createPipe : Bool

/-- `DtloginInit`. The number of groups that `getgroups` returns is not used. -/
def dtloginInit (env : InitEnv) (s : Server) : Server :=
  if env.serverGeneration ≠ 1 then s
  else
    let s := { s with
      originalUser := { s.originalUser with
        uid := s.cred.euid
        gid := s.cred.egid
        groupids := s.cred.groups ++ s.originalUser.groupids.drop s.cred.groups.length
        homedir := env.getcwd
        projid := env.getprojid } }
    if s.cred.ruid ≠ 0 then s else { s with pipe := env.createPipe }

/-- A login record, as `dtlogin_parse_packet` hands it to `dtlogin_process`. -/
structure Login where
  env : ProcessEnv
  user : DmUser

/-- A login is processed, if there is a pipe that it may come from. -/
def Server.login (s : Server) (l : Login) : Server :=
  if s.pipe then { s with cred := processCred l.env l.user true s.cred } else s

/-- `DtloginCloseDown` -/
def dtloginCloseDown (env : ProcessEnv) (s : Server) : Server :=
  let s :=
    if s.cred.euid ≠ s.originalUser.uid then
      { s with cred := processCred env s.originalUser.user false s.cred }
    else s
  { s with pipe := false }

/-! ## What the run is to keep -/

/-- The effective ids and the groups are those of `c₀`. -/
structure Cred.Restored (c₀ c : Cred) : Prop where
  euid : c.euid = c₀.euid
  egid : c.egid = c₀.egid
  groups : c.groups = c₀.groups

/-- No process has the id -1. -/
structure Cred.Valid (c : Cred) : Prop where
  euid : c.euid ≠ -1
  egid : c.egid ≠ -1

/-- The effective uid after a login. -/
def loginEuid (user : DmUser) : UInt32 := if user.uid ≠ -1 then user.uid else 0

/-- The effective gid after logins that come one after the other. -/
def loginsEgid (egid : UInt32) (logins : List Login) : UInt32 :=
  logins.foldl (fun egid l => if l.user.gid ≠ -1 then l.user.gid else egid) egid

/-- There has been no login; or the last one is for the server's own uid, and the logins have left
the gid and the groups; or it is for another uid, and the server has no groups. -/
def LoginsUndone (c₀ : Cred) (logins : List Login) : Prop :=
  ∀ l, logins.getLast? = some l →
    if loginEuid l.user = c₀.euid then
      loginsEgid c₀.egid logins = c₀.egid ∧ l.user.groupids = c₀.groups
    else c₀.groups = []

end Dtlogin
