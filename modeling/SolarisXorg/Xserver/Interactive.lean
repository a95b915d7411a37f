import Mathlib.Logic.Function.Basic

/-!
# Interactive priority of the focus client (`interactive.c`)

The extension keeps the processes of the client with the input focus in the interactive class. Each
client has a private structure with a pointer to its process record; a record has the client's pids
and whether they are boosted. `LastPids` points to the record of the last focus client. Records are
at addresses, `malloc` returns one that is not in use, and a `none` is a use of memory that is not a
record. `priocntl` succeeds.

Clients are their indices, the server's own is 0. Requests come from connected clients.
-/

namespace IA

/-- `ConnectionPidRec` -/
abbrev Pid := Int32

/-! ## Processes of the system -/

/-- Scheduling classes. -/
inductive PcClass where
  | ia
  | ts
  | other
  deriving DecidableEq

/-- A process, for `priocntl`: its class and whether its mode is `IA_SET_INTERACTIVE`. -/
structure OsProc where
  cls : PcClass
  interactive : Bool
  deriving DecidableEq

/-- The commands of `SetPriority`. -/
inductive Cmd where
  | unsetPriority
  | setPriority
  | setInteractive
  deriving DecidableEq

/-- The `PC_SETPARMS` of a command. -/
def setParms (cmd : Cmd) (proc : OsProc) : OsProc :=
  match proc.cls, cmd with
  | .other, _ => proc
  | _, .unsetPriority => ⟨.ia, false⟩
  | _, .setPriority => ⟨.ia, true⟩
  | .ia, .setInteractive => proc
  | .ts, .setInteractive => ⟨.ia, false⟩

/-! ## Records and clients -/

/-- `ClientProcessRec`: `count` is the number of `pids`. -/
structure ClientProcess where
  pids : List Pid
  boosted : Bool
  deriving DecidableEq

/-- `IAClientPrivateRec` -/
structure ClientPrivate where
  process : Option Nat
  wmgr : Bool
  deriving DecidableEq

/-- The extension's state. -/
structure State where
  heap : Nat → Option ClientProcess
  /-- `GetIAClient` -/
  privs : Nat → Option ClientPrivate
  lastPids : Option Nat
  os : Pid → OsProc

/-- The index of `serverClient`. -/
def serverClient : Nat := 0

/-- The state `IAExtensionInit` leaves. -/
def State.init (os : Pid → OsProc) : State := ⟨fun _ => none, fun _ => none, none, os⟩

/-- `GetConnectionPids` -/
def getConnectionPids (s : State) (client : Nat) : Option Nat :=
  match s.privs client with
  | none => none
  | some priv => priv.process

/-- The `boosted` a command leaves. -/
def Cmd.boosted : Cmd → Bool → Bool
  | .unsetPriority, _ => false
  | .setPriority, _ => true
  | .setInteractive, boosted => boosted

/-- `SetPriority` -/
def setPriority (s : State) (cpp : Nat) (cmd : Cmd) : Option State :=
  match s.heap cpp with
  | none => none
  | some proc =>
    if proc.pids = [] then some s
    else some { s with
      os := proc.pids.foldl (fun os pid => Function.update os pid (setParms cmd (os pid))) s.os
      heap := Function.update s.heap cpp (some { proc with boosted := cmd.boosted proc.boosted }) }

/-- `PidSetEqual` -/
def pidSetEqual (a b : ClientProcess) : Bool :=
  a.pids.length = b.pids.length && a.pids.all fun pid => b.pids.any fun pid' => pid = pid'

/-- The comparison of a client's record with `LastPids`, if there are both. -/
def sameAsLast (s : State) (current : Option Nat) : Option Bool :=
  match current, s.lastPids with
  | some current, some last =>
    match s.heap current, s.heap last with
    | some a, some b => some (pidSetEqual a b)
    | _, _ => none
  | _, _ => some false

/-- Removing the boost of the last focus group. -/
def unsetLast (s : State) : Option State :=
  match s.lastPids with
  | none => some s
  | some last => (setPriority s last .unsetPriority).map fun s => { s with lastPids := none }

/-- Boosting the current focus group: the server or a window manager is not remembered. -/
def boostCurrent (s : State) (client : Nat) : Option State :=
  match s.privs client with
  | some ⟨some current, wmgr⟩ =>
    match s.heap current with
    | none => none
    | some proc =>
      if proc.pids = [] then some s
      else
        (if proc.boosted then some s else setPriority s current .setPriority).map fun s =>
          if client ≠ serverClient ∧ wmgr ≠ true then { s with lastPids := some current } else s
  | _ => some s

/-- `ChangePriority` -/
def changePriority (s : State) (client : Nat) : Option State :=
  match sameAsLast s (getConnectionPids s client) with
  | none => none
  | some true => some s
  | some false => (unsetLast s).bind fun s => boostCurrent s client

/-- `ChangeInteractive` -/
def changeInteractive (s : State) (client : Nat) : Option State :=
  match getConnectionPids s client with
  | none => some s
  | some cpp => setPriority s cpp .setInteractive

/-- `IAInitClientPrivate` -/
def initClientPrivate (s : State) (client : Nat) : State :=
  match s.privs client with
  | some _ => s
  | none => { s with privs := Function.update s.privs client (some ⟨none, false⟩) }

/-- `FreeProcessList` of a client's private structure. -/
def freeProcessList (s : State) (client : Nat) (priv : ClientPrivate) : Option State :=
  match priv.process with
  | none => some s
  | some cpp =>
    match s.heap cpp with
    | none => none
    | some _ => some { s with
        heap := Function.update s.heap cpp none
        privs := Function.update s.privs client (some { priv with process := none })
        lastPids := if s.lastPids = some cpp then none else s.lastPids }

/-- `SetClientPrivate`, with the address `malloc` returns. -/
def setClientPrivate (s : State) (client : Nat) (pids : List Pid) (addr : Nat) : Option State :=
  match s.privs client with
  -- The structure allocated here is not the one used below.
  | none => none
  | some priv =>
    match freeProcessList s client priv with
    | none => none
    | some s =>
      match s.heap addr with
      | some _ => none
      | none => some { s with
          heap := Function.update s.heap addr (some ⟨pids, false⟩)
          privs := Function.update s.privs client (some { priv with process := some addr }) }

/-! ## Callbacks and requests -/

/-- `IAInitTimerCall` -/
def initTimerCall (s : State) (serverPid : Pid) (addr : Nat) : Option State :=
  (setClientPrivate (initClientPrivate s serverClient) serverClient [serverPid] addr).bind fun s =>
    changePriority s serverClient

/-- `IAClientStateChange` of a client that connects. -/
def clientInitial (s : State) (client : Nat) (clientPid : Pid) (addr : Nat) : Option State :=
  let s := initClientPrivate s client
  if clientPid ≠ -1 then
    (setClientPrivate s client [clientPid] addr).bind fun s => changeInteractive s client
  else some s

/-- `IAClientStateChange` of a client that goes. -/
def clientGone (s : State) (client : Nat) : Option State :=
  match s.privs client with
  | none => some s
  | some priv =>
    let unboosted :=
      match priv.process with
      | none => some s
      | some cpp =>
        match s.heap cpp with
        | none => none
        | some proc => if proc.boosted then setPriority s cpp .unsetPriority else some s
    unboosted.bind fun s => (sameAsLast s priv.process).bind fun same =>
      let s := if same then { s with lastPids := none } else s
      (freeProcessList s client priv).map fun s =>
        { s with privs := Function.update s.privs client none }

/-- What `ProcIASetProcessInfo` looks at before it stores the pids: `INTERACTIVE_INFO` in the flags
of the request, its user id and the server's, and whether the client is a local one. -/
structure InfoCheck where
  interactiveInfo : Bool
  uid : UInt32
  serverUid : UInt32
  isLocal : Bool

/-- The check itself. -/
def InfoCheck.ok (check : InfoCheck) : Bool :=
  check.interactiveInfo &&
    (check.uid = check.serverUid || check.serverUid = 0 || check.uid = 0) && check.isLocal

/-- `ProcIASetProcessInfo`, the part about the client's pids. -/
def setProcessInfo (s : State) (client : Nat) (check : InfoCheck) (pids : List Pid) (addr : Nat) :
    Option State :=
  if check.ok then
    (setClientPrivate s client pids addr).bind fun s => changeInteractive s client
  else some s

/-- `IAProcSetInputFocus` after the focus is set to a client's window. -/
def setInputFocus (s : State) (requestee : Nat) : Option State := changePriority s requestee

/-- `IAProcSendEvent` of a `ClientMessage` to a client's window. -/
def sendEvent (s : State) (client requestee : Nat) : Option State :=
  match s.privs client with
  | none => none
  | some priv => if priv.wmgr then changePriority s requestee else some s

/-- `CWEventMask` is this bit of a value mask. -/
def cwEventMaskBit : Nat := 11

/-- `SubstructureRedirectMask` is this bit of an event mask. -/
def substructureRedirectBit : Nat := 20

/-- The value of `CWEventMask` in the value list of a request. There is a value for each bit set in
the value mask, the one of the lowest bit first. -/
def eventMaskValue (valueMask : UInt32) (values : List UInt32) : Option UInt32 :=
  if valueMask.toNat.testBit cwEventMaskBit then
    values[(List.range cwEventMaskBit).countP fun bit => valueMask.toNat.testBit bit]?
  else none

/-- A request that makes its client the window manager. -/
def redirects (valueMask : UInt32) (values : List UInt32) : Bool :=
  (eventMaskValue valueMask values).any fun value => value.toNat.testBit substructureRedirectBit

/-- `IAProcChangeWindowAttributes` -/
def changeWindowAttributes (s : State) (client : Nat) (valueMask : UInt32)
    (values : List UInt32) : Option State :=
  match s.privs client with
  | none => none
  | some priv =>
    if !priv.wmgr ∧ redirects valueMask values then
      let s := { s with privs := Function.update s.privs client (some { priv with wmgr := true }) }
      (changePriority s client).map fun s => { s with lastPids := none }
    else some s

/-- What happens to the extension. -/
inductive Op where
  | initTimerCall (serverPid : Pid) (addr : Nat)
  | clientInitial (client : Nat) (clientPid : Pid) (addr : Nat)
  | clientGone (client : Nat)
  | setProcessInfo (client : Nat) (check : InfoCheck) (pids : List Pid) (addr : Nat)
  | setInputFocus (requestee : Nat)
  | sendEvent (client requestee : Nat)
  | changeWindowAttributes (client : Nat) (valueMask : UInt32) (values : List UInt32)

/-- The state after it. -/
def exec (s : State) : Op → Option State
  | .initTimerCall serverPid addr => initTimerCall s serverPid addr
  | .clientInitial client clientPid addr => clientInitial s client clientPid addr
  | .clientGone client => clientGone s client
  | .setProcessInfo client check pids addr => setProcessInfo s client check pids addr
  | .setInputFocus requestee => setInputFocus s requestee
  | .sendEvent client requestee => sendEvent s client requestee
  | .changeWindowAttributes client valueMask values =>
    changeWindowAttributes s client valueMask values

end IA
