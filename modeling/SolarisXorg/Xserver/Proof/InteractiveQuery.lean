import SolarisXorg.Xserver.InteractiveQuery

/-!
# What asking leaves of the record

The loop that copies the pids moves the pointer of the record behind them (`copyPids_eq`), so a
request for the pids leaves a record of the words after the array (`view_getProcessInfo`), and the
pointer that `FreeProcessList` frees is no longer the one `malloc` returned. `ReadOnly` is what
asking should do to a record, over all the calls between `SetClientPrivate` and `FreeProcessList`.
It holds when nobody asks for the pids or there are none (`queries_read_only_iff`).
`setPriority_view` is the connection to the list of pids that the rest of the model uses.
-/

namespace IA

variable {mem : Memory} {cpp : ClientProcessRec}

/-! ## One request -/

/-- A request for the pids. -/
def GetProcessInfoReq.AsksInfo (req : GetProcessInfoReq) : Prop :=
  req.reqLen = sizeofGetProcessInfoReq / 4 ∧ req.flags &&& interactiveInfo ≠ 0

/-- A request for the server's setting. -/
def GetProcessInfoReq.AsksSetting (req : GetProcessInfoReq) : Prop :=
  req.reqLen = sizeofGetProcessInfoReq / 4 ∧ req.flags &&& interactiveSetting ≠ 0

theorem words_length (p n : Nat) : (mem.words p n).length = n := by
  rw [Memory.words, List.length_map, List.length_range]

theorem words_succ (p n : Nat) : mem.words p (n + 1) = mem p :: mem.words (p + 1) n := by
  rw [Memory.words, Memory.words, List.range_succ_eq_map, List.map_cons, List.map_map, Nat.add_zero]
  refine congrArg _ (List.map_congr_left fun i _ => ?_)
  rw [Function.comp_apply, Nat.succ_eq_add_one, Nat.add_assoc, Nat.add_comm 1 i]

/-- **The loop copies the pids and moves the pointer.** -/
theorem copyPids_eq (n : Nat) (cpp : ClientProcessRec) :
    copyPids mem n cpp = (mem.words cpp.pids n, { cpp with pids := cpp.pids + n }) := by
  induction n generalizing cpp with
  | zero => rfl
  | succ n ih =>
    rw [copyPids, ih, words_succ]
    simp only [Nat.add_assoc, Nat.add_comm 1 n]

theorem replyInfo_some : replyInfo mem (some cpp) =
    (⟨some cpp.count, cpp.count, mem.words cpp.pids cpp.count⟩,
      some { cpp with pids := cpp.pids + cpp.count }) := by
  rw [replyInfo, copyPids_eq]

/-- The record after a request. -/
theorem getProcessInfo_record (req : GetProcessInfoReq) (iaNice : Int32) [Decidable req.AsksInfo] :
    (getProcessInfo mem iaNice (some cpp) req).2 =
      some (if req.AsksInfo then { cpp with pids := cpp.pids + cpp.count } else cpp) := by
  rw [getProcessInfo]
  by_cases hlen : req.reqLen = sizeofGetProcessInfoReq / 4
  · rw [if_neg (not_not.2 hlen)]
    dsimp only
    by_cases hflag : req.flags &&& interactiveInfo ≠ 0
    · rw [if_pos hflag, if_pos (show req.AsksInfo from ⟨hlen, hflag⟩), replyInfo_some]
    · rw [if_neg hflag, if_neg (show ¬ req.AsksInfo from fun h => hflag h.2)]
  · rw [if_pos hlen, if_neg (show ¬ req.AsksInfo from fun h => hlen h.1)]

/-- The reply with the pids. -/
theorem getProcessInfo_info {req : GetProcessInfoReq} (hinfo : req.AsksInfo)
    (hsetting : ¬ req.AsksSetting) (iaNice : Int32) :
    (getProcessInfo mem iaNice (some cpp) req).1 =
      some ⟨some cpp.count, cpp.count, mem.words cpp.pids cpp.count⟩ := by
  obtain ⟨hlen, hflag⟩ := hinfo
  have hnot : ¬ req.flags &&& interactiveSetting ≠ 0 := fun h => hsetting ⟨hlen, h⟩
  rw [getProcessInfo, if_neg (not_not.2 hlen)]
  dsimp only
  rw [if_neg hnot, if_pos hflag, replyInfo_some]

/-- The setting overwrites the pids. -/
theorem getProcessInfo_setting {req : GetProcessInfoReq} (h : req.AsksSetting) (iaNice : Int32) :
    (getProcessInfo mem iaNice (some cpp) req).1 = some ⟨some 1, 1, [iaNice]⟩ := by
  obtain ⟨hlen, hflag⟩ := h
  rw [getProcessInfo, if_neg (not_not.2 hlen)]
  dsimp only
  rw [if_pos hflag]

/-- **After a request for the pids** the record is one of as many words behind them. -/
theorem view_getProcessInfo {req : GetProcessInfoReq} (h : req.AsksInfo) (iaNice : Int32) :
    ((getProcessInfo mem iaNice (some cpp) req).2).map (ClientProcessRec.view mem) =
      some ⟨mem.words (cpp.pids + cpp.count) cpp.count, cpp.boosted⟩ := by
  classical
  rw [getProcessInfo_record, if_pos h]
  rfl

/-- `SetPriority` does to the record what it does to the pids it stands for. -/
theorem setPriority_view {s : State} {a : Nat} (ha : s.heap a = some (cpp.view mem))
    (hpids : cpp.pids ≠ null) (cmd : Cmd) :
    ∃ s', setPriority s a cmd = some s' ∧
      s'.heap a = some ((cpp.setPriority mem cmd).2.view mem) ∧
      s'.os = (cpp.setPriority mem cmd).1.foldl
        (fun os pid => Function.update os pid (setParms cmd (os pid))) s.os := by
  have hnil : (cpp.view mem).pids = [] ↔ cpp.count = 0 := by
    rw [← List.length_eq_zero_iff, ClientProcessRec.view, words_length]
  rw [setPriority, ha]
  by_cases hcount : cpp.count = 0
  · rw [ClientProcessRec.setPriority, if_pos (.inr hcount)]
    exact ⟨s, if_pos (hnil.2 hcount), ha, rfl⟩
  · rw [ClientProcessRec.setPriority, if_neg (by simp [hpids, hcount])]
    exact ⟨_, if_neg fun h => hcount (hnil.1 h), Function.update_self .., rfl⟩

/-! ## Calls one after the other -/

theorem call_query (req : GetProcessInfoReq) (iaNice : Int32) [Decidable req.AsksInfo] :
    cpp.call mem (.getProcessInfo req iaNice) =
      if req.AsksInfo then { cpp with pids := cpp.pids + cpp.count } else cpp := by
  rw [ClientProcessRec.call, getProcessInfo_record, Option.getD_some]

theorem call_count (call : RecCall) : (cpp.call mem call).count = cpp.count := by
  classical
  cases call with
  | getProcessInfo req iaNice =>
    rw [call_query]
    split <;> rfl
  | setPriority cmd =>
    rw [ClientProcessRec.call, ClientProcessRec.setPriority]
    split <;> rfl

theorem calls_count (cs : List RecCall) : (cpp.calls mem cs).count = cpp.count := by
  induction cs generalizing cpp with
  | nil => rfl
  | cons call cs ih => exact (@ih (cpp.call mem call)).trans (call_count call)

/-- Nobody asks for the pids, or there are none. -/
def Unasked (count : Nat) (cs : List RecCall) : Prop :=
  ∀ req iaNice, .getProcessInfo req iaNice ∈ cs → req.AsksInfo → count = 0

/-- The pointer stays where it is then. -/
theorem calls_pids {cs : List RecCall} (h : Unasked cpp.count cs) :
    (cpp.calls mem cs).pids = cpp.pids := by
  classical
  induction cs generalizing cpp with
  | nil => rfl
  | cons call cs ih =>
    have hcall : (cpp.call mem call).pids = cpp.pids := by
      cases call with
      | getProcessInfo req iaNice =>
        rw [call_query]
        split
        · rename_i hinfo
          have hzero := h req iaNice (.head _) hinfo
          dsimp only
          omega
        · rfl
      | setPriority cmd =>
        rw [ClientProcessRec.call, ClientProcessRec.setPriority]
        split <;> rfl
    refine (@ih (cpp.call mem call) ?_).trans hcall
    rw [call_count]
    exact fun req iaNice hmem => h req iaNice (.tail _ hmem)

/-! ## Read only -/

/-- Asking is read only: of a record with the pids `pids`, every request for them gets just these
and leaves the record as it is, `SetPriority` is about these, and `FreeProcessList` frees their
array. -/
structure ReadOnly (mem : Memory) (pids : List Int32) (cpp : ClientProcessRec)
    (cs : List RecCall) : Prop where
  reply : ∀ pre req iaNice post, cs = pre ++ .getProcessInfo req iaNice :: post → req.AsksInfo →
    (getProcessInfo mem iaNice (some (cpp.calls mem pre)) req).1 =
      some ⟨some pids.length, pids.length, pids⟩
  record : ∀ pre req iaNice post, cs = pre ++ .getProcessInfo req iaNice :: post →
    (getProcessInfo mem iaNice (some (cpp.calls mem pre)) req).2 = some (cpp.calls mem pre)
  priorities : ∀ pre cmd post, cs = pre ++ .setPriority cmd :: post →
    ((cpp.calls mem pre).setPriority mem cmd).1 = pids
  freed : (cpp.calls mem cs).freeProcessList = some cpp.pids

/-- **Asking is read only exactly when there is nothing to ask for**: nobody asks for the pids, or
there are none, and who asks for them does not ask for the setting with the same request. -/
theorem queries_read_only_iff {pids : List Int32} {p : Nat} (hp : p ≠ null)
    (hmem : mem.words p pids.length = pids) (cs : List RecCall) :
    ReadOnly mem pids (.new pids.length p) cs ↔
      ∀ req iaNice, .getProcessInfo req iaNice ∈ cs → req.AsksInfo →
        pids = [] ∧ ¬ req.AsksSetting := by
  classical
  constructor
  · intro h req iaNice hcall hinfo
    obtain ⟨pre, post, hsplit⟩ := List.append_of_mem hcall
    have hrecord := h.record pre req iaNice post hsplit
    rw [getProcessInfo_record, if_pos hinfo, Option.some.injEq] at hrecord
    have hpids := congrArg ClientProcessRec.pids hrecord
    dsimp only at hpids
    rw [calls_count] at hpids
    have hnil : pids = [] := by
      apply List.length_eq_zero_iff.1
      have hcount : (ClientProcessRec.new pids.length p).count = pids.length := rfl
      omega
    refine ⟨hnil, fun hsetting => ?_⟩
    have hreply := h.reply pre req iaNice post hsplit hinfo
    rw [getProcessInfo_setting hsetting, hnil] at hreply
    simp at hreply
  · intro h
    obtain ⟨cpp, hcpp⟩ : ∃ cpp, cpp = ClientProcessRec.new pids.length p := ⟨_, rfl⟩
    have hcount : cpp.count = pids.length := by rw [hcpp]; rfl
    have hptr : cpp.pids = p := by rw [hcpp]; rfl
    have hunasked {pre post : List RecCall} (hsplit : cs = pre ++ post) :
        Unasked cpp.count pre := by
      intro req iaNice hmem' hinfo
      rw [hcount, (h req iaNice (by rw [hsplit]; exact List.mem_append_left _ hmem') hinfo).1]
      rfl
    have hat {pre post : List RecCall} (hsplit : cs = pre ++ post) :
        (cpp.calls mem pre).count = pids.length ∧ (cpp.calls mem pre).pids = p :=
      ⟨(calls_count pre).trans hcount, (calls_pids (hunasked hsplit)).trans hptr⟩
    rw [← hcpp]
    refine ⟨?_, ?_, ?_, ?_⟩
    · intro pre req iaNice post hsplit hinfo
      obtain ⟨hn, hq⟩ := hat hsplit
      have hmem' : .getProcessInfo req iaNice ∈ cs := by rw [hsplit]; simp
      rw [getProcessInfo_info hinfo (h req iaNice hmem' hinfo).2, hn, hq, hmem]
    · intro pre req iaNice post hsplit
      obtain ⟨hn, hq⟩ := hat hsplit
      rw [getProcessInfo_record]
      split
      · rename_i hinfo
        have hmem' : .getProcessInfo req iaNice ∈ cs := by rw [hsplit]; simp
        rw [hn, (h req iaNice hmem' hinfo).1, List.length_nil, Nat.add_zero]
        rw [(h req iaNice hmem' hinfo).1, List.length_nil] at hn
        rw [← hn]
      · rfl
    · intro pre cmd post hsplit
      obtain ⟨hn, hq⟩ := hat hsplit
      rw [ClientProcessRec.setPriority, hn, hq]
      split
      · rename_i hnone
        exact (List.length_eq_zero_iff.1 (hnone.resolve_left hp)).symm
      · exact hmem
    · obtain ⟨-, hq⟩ := hat (List.append_nil cs).symm
      rw [ClientProcessRec.freeProcessList, hq, hptr, if_pos hp]

/-- Memory with the pids 100 and 200 at the address 64 and 7 elsewhere. -/
def twoPids : Memory := fun a => if a = 64 then 100 else if a = 65 then 200 else 7

/-- A request for the setting between two focus changes. -/
theorem queries_read_only_setting :
    ReadOnly twoPids [100, 200] (.new 2 64) [.setPriority .setPriority,
      .getProcessInfo ⟨2, interactiveSetting⟩ 1, .setPriority .unsetPriority] := by
  have hmem : twoPids.words 64 [100, 200].length = [100, 200] := by decide
  apply (queries_read_only_iff (by decide) hmem _).2
  intro req iaNice hcall hinfo
  simp only [List.mem_cons, reduceCtorEq, RecCall.getProcessInfo.injEq, List.not_mem_nil, or_false,
    false_or] at hcall
  rw [hcall.1] at hinfo
  exact absurd hinfo.2 (by decide)

/-- Two pids and two requests for them: the second reply has the words after the array, the next
`SetPriority` is about those, and what is freed is not the array. -/
theorem second_query_wrong :
    twoPids.words 64 2 = [100, 200] ∧
    (getProcessInfo twoPids 1 (some (.new 2 64)) ⟨2, interactiveInfo⟩).1 =
      some ⟨some 2, 2, [100, 200]⟩ ∧
    ∃ cpp, cpp =
        (ClientProcessRec.new 2 64).calls twoPids [.getProcessInfo ⟨2, interactiveInfo⟩ 1] ∧
      cpp ≠ .new 2 64 ∧
      (getProcessInfo twoPids 1 (some cpp) ⟨2, interactiveInfo⟩).1 = some ⟨some 2, 2, [7, 7]⟩ ∧
      (cpp.setPriority twoPids .setPriority).1 = [7, 7] ∧
      cpp.freeProcessList = some 66 := by
  refine ⟨by decide, by decide, _, rfl, ?_, ?_, ?_, ?_⟩ <;> decide

end IA
