import SolarisXorg.Xserver.Interactive

/-!
# Asking for the process info (`interactive.c`)

`ProcIAGetProcessInfo` replies with the pids of the client's record or with the server's setting.
It reads the pids through the pointer in the record, so the record is here as it is in memory:
`pids` is the address of a word, and the words at it are what `SetClientPrivate` copied from the
request. The other functions on a record are `SetPriority`, which reads the pids as well, and
`FreeProcessList`, which gives them back. A function that reads behind the array gets the words
there.
-/

namespace IA

/-- Memory, as its words. -/
abbrev Memory := Nat → Int32

/-- `n` words from an address on. -/
def Memory.words (mem : Memory) (p n : Nat) : List Int32 := (List.range n).map fun i => mem (p + i)

/-- `NULL` -/
def null : Nat := 0

/-- `ClientProcessRec`, with the address of the pids. -/
structure ClientProcessRec where
  count : Nat
  pids : Nat
  boosted : Bool
  deriving DecidableEq

/-- The process record that `cpp` stands for. -/
def ClientProcessRec.view (mem : Memory) (cpp : ClientProcessRec) : ClientProcess :=
  ⟨mem.words cpp.pids cpp.count, cpp.boosted⟩

/-! ## The request -/

/-- `INTERACTIVE_INFO` -/
def interactiveInfo : UInt32 := 0x1

/-- `INTERACTIVE_SETTING` -/
def interactiveSetting : UInt32 := 0x2

/-- `sizeof(xIAGetProcessInfoReq)` -/
def sizeofGetProcessInfoReq : Nat := 8

/-- `xIAGetProcessInfoReq`, with the length of the request in words. -/
structure GetProcessInfoReq where
  reqLen : Nat
  flags : UInt32

/-- `xIAGetProcessInfoReply` and the words after it. The count is not set without a flag. -/
structure GetProcessInfoReply where
  count : Option Nat
  length : Nat
  writeBack : List Int32
  deriving DecidableEq

/-- `n` turns of `for (i = 0; i < CurrentPids->count; ++i) *tmp++ = *CurrentPids->pids++;`. -/
def copyPids (mem : Memory) : Nat → ClientProcessRec → List Int32 × ClientProcessRec
  | 0, cpp => ([], cpp)
  | n + 1, cpp =>
    let (rest, cpp') := copyPids mem n { cpp with pids := cpp.pids + 1 }
    (mem cpp.pids :: rest, cpp')

/-- The pids of a client with the record `process`, for the reply, and the record. -/
def replyInfo (mem : Memory) :
    Option ClientProcessRec → GetProcessInfoReply × Option ClientProcessRec
  | none => (⟨some 0, 0, []⟩, none)
  | some cpp =>
    let (writeBack, cpp') := copyPids mem cpp.count cpp
    (⟨some cpp.count, cpp.count, writeBack⟩, some cpp')

/-- `ProcIAGetProcessInfo` of a client with the record `process`: the reply, `none` for `BadLength`,
and the record. -/
def getProcessInfo (mem : Memory) (iaNice : Int32) (process : Option ClientProcessRec)
    (req : GetProcessInfoReq) : Option GetProcessInfoReply × Option ClientProcessRec :=
  if req.reqLen ≠ sizeofGetProcessInfoReq / 4 then (none, process)
  else
    let info :=
      if req.flags &&& interactiveInfo ≠ 0 then replyInfo mem process else (⟨none, 0, []⟩, process)
    (some (if req.flags &&& interactiveSetting ≠ 0 then ⟨some 1, 1, [iaNice]⟩ else info.1), info.2)

/-! ## The other users of the record -/

/-- `SetPriority`: the pids it sets the priority of, and the record. -/
def ClientProcessRec.setPriority (mem : Memory) (cpp : ClientProcessRec) (cmd : Cmd) :
    List Int32 × ClientProcessRec :=
  if cpp.pids = null ∨ cpp.count = 0 then ([], cpp)
  else (mem.words cpp.pids cpp.count, { cpp with boosted := cmd.boosted cpp.boosted })

/-- `FreeProcessList`: the array it frees. -/
def ClientProcessRec.freeProcessList (cpp : ClientProcessRec) : Option Nat :=
  if cpp.pids ≠ null then some cpp.pids else none

/-- `SetClientPrivate` of `count` pids, copied to the address `pids`. -/
def ClientProcessRec.new (count pids : Nat) : ClientProcessRec := ⟨count, pids, false⟩

/-- What is done with a client's record. -/
inductive RecCall where
  | getProcessInfo (req : GetProcessInfoReq) (iaNice : Int32)
  | setPriority (cmd : Cmd)

/-- The record after it. -/
def ClientProcessRec.call (mem : Memory) (cpp : ClientProcessRec) : RecCall → ClientProcessRec
  | .getProcessInfo req iaNice => ((getProcessInfo mem iaNice (some cpp) req).2).getD cpp
  | .setPriority cmd => (cpp.setPriority mem cmd).2

/-- The record after calls. -/
def ClientProcessRec.calls (mem : Memory) (cpp : ClientProcessRec) (cs : List RecCall) :
    ClientProcessRec := cs.foldl (ClientProcessRec.call mem) cpp

end IA
