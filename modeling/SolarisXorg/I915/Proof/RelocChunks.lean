import SolarisXorg.I915.RelocChunks
import SolarisXorg.I915.Proof.ExecBalance

/-!
# Two passes over the relocations

The state of a chunk needs no array: a chunk that is followed by another is the two at once
(`relocateChunk_append`), and what a chunk writes to the user's array lies behind what is read later
(`relocateChunk_outside`). So the `while` loop is one long chunk (`relocateChunks_eq`), and that goes
along with the loop over the copy (`relocateChunk_same`). The per-entry view of the two passes, which
the other results on execbuffers have, is `relocateChunks_each` and `relocateRest_each`.
-/

namespace I915.Exec

variable {file obj : Nat} {env : Nat → RelocEnv}

/-- An entry that fails is left as it is, and of one that is done `presumed_offset` changes at
most. -/
theorem relocateEntry_reloc (file obj : Nat) (e : RelocEnv) (s : Eb) :
    let res := execbufferRelocateEntry file obj e s
    (res.1 ≠ 0 → res.2.1 = e.reloc) ∧
      res.2.1 = { e.reloc with presumedOffset := res.2.1.presumedOffset } := by
  unfold execbufferRelocateEntry
  dsimp only
  split
  · exact ⟨fun _ => rfl, rfl⟩
  split
  · exact ⟨fun _ => rfl, rfl⟩
  split
  · exact ⟨fun _ => rfl, rfl⟩
  split
  · exact ⟨fun _ => rfl, rfl⟩
  split
  · exact ⟨fun _ => rfl, rfl⟩
  split
  · exact ⟨fun _ => rfl, rfl⟩
  split
  · exact ⟨fun _ => rfl, rfl⟩
  split
  · exact ⟨fun _ => rfl, rfl⟩
  · exact ⟨fun h => absurd rfl h, rfl⟩

/-! ## Chunks -/

/-- The entries of the user that are not in the chunk stay. -/
theorem relocateChunk_outside {l : List Reloc} {pos : Nat} {user : Nat → Reloc} {s : Eb} {j : Nat}
    (hj : j < pos ∨ pos + l.length ≤ j) :
    (relocateChunk file obj env l pos user s).2.1 j = user j := by
  induction l generalizing pos user s with
  | nil => rfl
  | cons r l ih =>
    rw [List.length_cons] at hj
    have hrest : j < pos + 1 ∨ pos + 1 + l.length ≤ j := by omega
    rw [relocateChunk]
    dsimp only
    split
    · rfl
    split
    · split
      · rfl
      · rw [ih hrest, putPresumed, Function.update_of_ne (by omega)]
    · exact ih hrest

/-- One chunk after another. -/
theorem relocateChunk_append (l l' : List Reloc) (pos : Nat) (user : Nat → Reloc) (s : Eb) :
    relocateChunk file obj env (l ++ l') pos user s =
      let (ret, user, s) := relocateChunk file obj env l pos user s
      if ret ≠ 0 then (ret, user, s)
      else relocateChunk file obj env l' (pos + l.length) user s := by
  induction l generalizing pos user s with
  | nil => rfl
  | cons r l ih =>
    have hpos : pos + (r :: l).length = pos + 1 + l.length := by
      rw [List.length_cons]
      omega
    rw [List.cons_append, relocateChunk, relocateChunk, hpos]
    dsimp only
    split
    · rfl
    split
    · split
      · rfl
      · exact ih ..
    · exact ih ..

/-- The first `count` entries, and the others. -/
theorem map_range'_split {α : Type*} (f : Nat → α) (pos : Nat) {count remain : Nat}
    (h : count ≤ remain) :
    (List.range' pos remain).map f = (List.range' pos count).map f ++
      (List.range' (pos + count) (remain - count)).map f := by
  rw [← List.map_append, List.range'_append_1, Nat.add_sub_cancel' h]

/-- **The `while` loop is one chunk** of all entries. -/
theorem relocateChunks_eq (hcopy : CopiesSucceed env) (remain pos : Nat) (user : Nat → Reloc)
    (s : Eb) : relocateChunks file obj env remain pos user s =
      relocateChunk file obj env ((List.range' pos remain).map user) pos user s := by
  induction remain using Nat.strongRecOn generalizing pos user s with
  | ind remain ih =>
    rw [relocateChunks]
    split
    case isTrue hzero =>
      subst hzero
      rfl
    case isFalse hpos =>
      rw [if_neg (by simp [(hcopy pos).1])]
      dsimp only
      generalize hcount : (if remain > nReloc then nReloc else remain) = count
      have hle : 0 < count ∧ count ≤ remain := by
        have : 0 < nReloc := by decide
        split at hcount <;> omega
      rw [map_range'_split user pos hle.2, relocateChunk_append]
      dsimp only
      split
      · rfl
      · rw [ih (remain - count) (by omega), List.length_map, List.length_range']
        -- the entries behind the chunk are the ones that were there before it
        congr 1
        apply List.map_congr_left
        intro j hj
        apply relocateChunk_outside
        rw [List.mem_range'_1] at hj
        rw [List.length_map, List.length_range']
        omega

/-- With copies that succeed the user has the new entry, whether it has changed or not. -/
theorem relocateChunk_cons (hcopy : CopiesSucceed env) (l : List Reloc) (pos : Nat)
    (user : Nat → Reloc) (s : Eb) :
    relocateChunk file obj env (user pos :: l) pos user s =
      let (ret, r, s) := execbufferRelocateEntry file obj (entryEnv env pos (user pos)) s
      if ret ≠ 0 then (ret, user, s)
      else relocateChunk file obj env l (pos + 1) (Function.update user pos r) s := by
  have hr := (relocateEntry_reloc file obj (entryEnv env pos (user pos)) s).2
  have hreloc : (entryEnv env pos (user pos)).reloc = user pos := rfl
  rw [hreloc] at hr
  rw [relocateChunk, (hcopy pos).2]
  dsimp only
  split
  · rfl
  split
  · rw [if_neg (by decide), putPresumed, ← hr]
  case isFalse hsame =>
    rw [not_not.1 hsame] at hr
    rw [hr]
    dsimp only
    rw [Function.update_eq_self]

/-- **One chunk does what the loop over the copy does.** -/
theorem relocateChunk_same (hcopy : CopiesSucceed env) (n pos : Nat) (user : Nat → Reloc) (s : Eb) :
    let l := (List.range' pos n).map user
    let chunk := relocateChunk file obj env l pos user s
    let slow := relocateRest file obj env l pos s
    chunk.1 = slow.1 ∧ chunk.2.2 = slow.2.2 ∧
      (∀ i < n, slow.2.1[i]? = some (chunk.2.1 (pos + i))) ∧
      ∀ j, chunk.2.1 j = { user j with presumedOffset := (chunk.2.1 j).presumedOffset } := by
  induction n generalizing pos user s with
  | zero => exact ⟨rfl, rfl, fun i hi => absurd hi (Nat.not_lt_zero i), fun _ => rfl⟩
  | succ n ih =>
    obtain ⟨hfail, hentry⟩ := relocateEntry_reloc file obj (entryEnv env pos (user pos)) s
    have hreloc : (entryEnv env pos (user pos)).reloc = user pos := rfl
    rw [hreloc] at hfail hentry
    rw [List.range'_succ, List.map_cons]
    dsimp only
    rw [relocateChunk_cons hcopy, relocateRest]
    generalize execbufferRelocateEntry file obj (entryEnv env pos (user pos)) s = res at *
    obtain ⟨ret, r, t⟩ := res
    dsimp only at hfail hentry ⊢
    split
    case isTrue hret =>
      rw [hfail hret, ← List.map_cons, ← List.range'_succ]
      refine ⟨rfl, rfl, fun i hi => ?_, fun _ => rfl⟩
      rw [List.getElem?_map, List.getElem?_range' hi]
      simp
    case isFalse =>
      -- the entries behind are the user's still
      have hrest : (List.range' (pos + 1) n).map (Function.update user pos r) =
          (List.range' (pos + 1) n).map user := by
        apply List.map_congr_left
        intro j hj
        rw [List.mem_range'_1] at hj
        exact Function.update_of_ne (by omega) ..
      obtain ⟨hret, hstate, hwritten, hpresumed⟩ := ih (pos + 1) (Function.update user pos r) t
      rw [hrest] at hret hstate hwritten hpresumed
      refine ⟨hret, hstate, fun i hi => ?_, fun j => ?_⟩
      · cases i with
        | zero =>
          simp only [List.getElem?_cons_zero, Nat.add_zero]
          rw [relocateChunk_outside (.inl (by omega)), Function.update_self]
        | succ i =>
          rw [List.getElem?_cons_succ, hwritten i (by omega), Nat.add_right_comm, Nat.add_assoc]
      · rw [hpresumed j]
        by_cases hj : j = pos
        · subst hj
          rw [Function.update_self, hentry]
        · rw [Function.update_of_ne hj]

/-- **The two passes agree**: for an array of any length they return the same and leave the same
state, and the user's entries are those of the copy afterwards. -/
theorem relocateUserArray_same (hcopy : CopiesSucceed env) (a : Args) (user : Nat → Reloc) (s : Eb) :
    SameRelocs (a.entry (s.obj obj).execEntry).relocationCount.toNat user
      (relocateUserArray a file env obj user s) (relocateCopiedArray a file env obj user s) := by
  rw [relocateUserArray, relocateCopiedArray, Args.copied, relocateChunks_eq hcopy,
    List.range_eq_range']
  obtain ⟨hret, hstate, hwritten, hpresumed⟩ := @relocateChunk_same file obj env hcopy
    (a.entry (s.obj obj).execEntry).relocationCount.toNat 0 user s
  refine ⟨hret, hstate, fun pos hpos => ?_, hpresumed, fun pos hpos => relocateChunk_outside ?_⟩
  · rw [hwritten pos hpos, Nat.zero_add]
  · right
    rw [List.length_map, List.length_range', Nat.zero_add]
    exact hpos

/-- One entry more than fits on the stack. -/
theorem relocateUserArray_same_seventeen :
    ∃ chunks, chunks = relocateUserArray { exec := [{ handle := 1, relocationCount := 17 }] } 0
        (fun _ => { reloc := toSecond }) 0 (fun _ => toSecond) twoObjects ∧
      chunks.1 = 0 ∧ chunks.2.1 16 = { toSecond with presumedOffset := 0 } ∧
      SameRelocs 17 (fun _ => toSecond) chunks
        (relocateCopiedArray { exec := [{ handle := 1, relocationCount := 17 }] } 0
          (fun _ => { reloc := toSecond }) 0 (fun _ => toSecond) twoObjects) := by
  have hslow : ((relocateCopiedArray { exec := [{ handle := 1, relocationCount := 17 }] } 0
      (fun _ => { reloc := toSecond }) 0 (fun _ => toSecond) twoObjects).1,
      (relocateCopiedArray { exec := [{ handle := 1, relocationCount := 17 }] } 0
        (fun _ => { reloc := toSecond }) 0 (fun _ => toSecond) twoObjects).2.1[16]?) =
      (0, some { toSecond with presumedOffset := 0 }) := by
    decide +kernel
  have hcopy : CopiesSucceed fun _ => { reloc := toSecond } := fun _ => ⟨rfl, rfl⟩
  have hsame := @relocateUserArray_same 0 0 _ hcopy
    { exec := [{ handle := 1, relocationCount := 17 }] } (fun _ => toSecond) twoObjects
  refine ⟨_, rfl, hsame.ret.trans (congrArg Prod.fst hslow), ?_, hsame⟩
  have hlast := (hsame.written 16 (by decide)).symm.trans (congrArg Prod.snd hslow)
  exact Option.some.inj hlast

/-! ## Entry by entry -/

/-- Entries with their numbers and what their processing meets. -/
def numbered (env : Nat → RelocEnv) (l : List Reloc) (pos : Nat) : List (RelocEnv × Nat) :=
  (l.zipIdx pos).map fun q => (entryEnv env q.2 q.1, q.2)

theorem numbered_append (l l' : List Reloc) (pos : Nat) :
    numbered env (l ++ l') pos = numbered env l pos ++ numbered env l' (pos + l.length) := by
  rw [numbered, List.zipIdx_append, List.map_append]
  rfl

/-- The loop over the copy is the pass without copies. -/
theorem relocateRest_each (l : List Reloc) (pos : Nat) (s : Eb) :
    Lib.Act.each (fun p => .call (relocateOne false file obj p)) (numbered env l pos) s =
      some ((relocateRest file obj env l pos s).1, (relocateRest file obj env l pos s).2.2) := by
  induction l generalizing pos s with
  | nil => rfl
  | cons r l ih =>
    have hone : relocateOne false file obj (entryEnv env pos r, pos) s =
        ((execbufferRelocateEntry file obj (entryEnv env pos r) s).1,
          (execbufferRelocateEntry file obj (entryEnv env pos r) s).2.2) := by
      simp [relocateOne]
    show Lib.Act.andThen _ _ s = _
    simp only [Lib.Act.andThen, Lib.Act.call, hone, relocateRest]
    split
    case isTrue hret =>
      rw [if_neg (not_not.2 hret)]
      exact ih ..
    · rfl

/-- A chunk is the pass with copies, if nothing in it has to be copied in any more. -/
theorem relocateChunk_each (l : List Reloc) (pos : Nat) (user : Nat → Reloc) (s : Eb)
    (hin : ∀ j, pos ≤ j → j < pos + l.length → j % nReloc = 0 → (env j).copyFault = false) :
    Lib.Act.each (fun p => .call (relocateOne true file obj p)) (numbered env l pos) s =
      some ((relocateChunk file obj env l pos user s).1,
        (relocateChunk file obj env l pos user s).2.2) := by
  induction l generalizing pos user s with
  | nil => rfl
  | cons r l ih =>
    rw [List.length_cons] at hin
    have hrest := fun user s => ih (pos + 1) user s fun j hj hl => hin j (by omega) (by omega)
    have hcopied : ¬ (pos % nReloc = 0 ∧ (env pos).copyFault = true) := by
      rintro ⟨hmod, hfault⟩
      rw [hin pos (Nat.le_refl pos) (by omega) hmod] at hfault
      cases hfault
    have hone : relocateOne true file obj (entryEnv env pos r, pos) s =
        let (ret, r', t) := execbufferRelocateEntry file obj (entryEnv env pos r) s
        if ret = 0 ∧ r'.presumedOffset ≠ r.presumedOffset ∧ (env pos).copyBackFault = true then
          (-EFAULT, t)
        else (ret, t) := by
      have hfault : (entryEnv env pos r).copyFault = (env pos).copyFault := rfl
      simp only [relocateOne, hfault, true_and, if_neg hcopied]
      rfl
    show Lib.Act.andThen _ _ s = _
    simp only [Lib.Act.andThen, Lib.Act.call, hone, relocateChunk]
    generalize execbufferRelocateEntry file obj (entryEnv env pos r) s = res
    obtain ⟨ret, r', t⟩ := res
    dsimp only
    by_cases hret : ret = 0
    · by_cases hsame : r'.presumedOffset = r.presumedOffset
      · simp only [hret, hsame, ne_eq, not_true_eq_false, false_and, and_false, if_false, if_true]
        exact hrest user t
      · by_cases hback : (env pos).copyBackFault = true
        · simp [hret, hsame, hback, EFAULT]
        · simp only [hret, hsame, hback, ne_eq, not_true_eq_false, not_false_eq_true, if_false,
            if_true]
          exact hrest _ t
    · simp [hret]

/-- **The `while` loop is the pass with copies**, entry by entry, whatever faults. -/
theorem relocateChunks_each (remain pos : Nat) (user : Nat → Reloc) (s : Eb)
    (hpos : pos % nReloc = 0) :
    Lib.Act.each (fun p => .call (relocateOne true file obj p))
        (numbered env ((List.range' pos remain).map user) pos) s =
      some ((relocateChunks file obj env remain pos user s).1,
        (relocateChunks file obj env remain pos user s).2.2) := by
  induction remain using Nat.strongRecOn generalizing pos user s with
  | ind remain ih =>
    rw [relocateChunks]
    by_cases hzero : remain = 0
    · subst hzero
      rfl
    rw [if_neg hzero]
    by_cases hfault : (env pos).copyFault = true
    · obtain ⟨n, rfl⟩ := Nat.exists_eq_succ_of_ne_zero hzero
      have hone : relocateOne true file obj (entryEnv env pos (user pos), pos) s = (-EFAULT, s) :=
        if_pos ⟨rfl, hpos, hfault⟩
      rw [if_pos hfault, List.range'_succ, List.map_cons]
      show Lib.Act.andThen _ _ s = _
      simp [Lib.Act.andThen, Lib.Act.call, hone, EFAULT]
    rw [if_neg hfault]
    dsimp only
    generalize hcount : (if remain > nReloc then nReloc else remain) = count
    have hn : nReloc = 16 := rfl
    have hpos16 : pos % 16 = 0 := hpos
    have hle : 0 < count ∧ count ≤ remain ∧ count ≤ nReloc := by
      split at hcount <;> omega
    have hlen : ((List.range' pos count).map user).length = count := by
      rw [List.length_map, List.length_range']
    have hchunk := @relocateChunk_each file obj env
      ((List.range' pos count).map user) pos user s fun j hj hl hmod => by
        have hmod16 : j % 16 = 0 := hmod
        have hjpos : j = pos := by omega
        subst hjpos
        simpa using hfault
    rw [map_range'_split user pos hle.2.1, numbered_append, Lib.Act.each_append, hlen]
    simp only [Lib.Act.andThen, hchunk]
    split
    case isFalse hret => rfl
    case isTrue hret =>
      rw [if_neg (not_not.2 hret)]
      -- the entries behind the chunk are the ones that were there before it
      have hrest : (List.range' (pos + count) (remain - count)).map user =
          (List.range' (pos + count) (remain - count)).map
            (relocateChunk file obj env ((List.range' pos count).map user) pos user s).2.1 := by
        apply List.map_congr_left
        intro j hj
        rw [List.mem_range'_1] at hj
        rw [relocateChunk_outside (.inr (by omega))]
      rw [hrest]
      by_cases hmore : remain > nReloc
      · rw [if_pos hmore] at hcount
        have hnext : (pos + count) % 16 = 0 := by omega
        exact ih _ (by omega) _ _ _ hnext
      · rw [if_neg hmore] at hcount
        rw [hcount, Nat.sub_self, relocateChunks]
        rfl

theorem numbered_relocs (a : Args) (mem : Nat → Nat → RelocEnv) (i : Nat) (user : Nat → Reloc)
    (hmem : ∀ j, mem i j = entryEnv env j (user j)) :
    numbered env (a.copied user i) 0 = a.relocs mem i := by
  rw [numbered, Args.copied, Args.relocs, List.zipIdx_map, List.zipIdx_map, List.map_map]
  apply List.map_congr_left
  rintro ⟨j, j'⟩ hj
  have hsame : j = j' := by
    obtain ⟨-, hlt, hget⟩ := List.mem_zipIdx hj
    simpa using hget
  subst hsame
  exact congrArg (·, j) (hmem j).symm

/-- The two passes are those of the execbuffer. -/
theorem relocateUserArray_each (a : Args) (mem : Nat → Nat → RelocEnv) (user : Nat → Reloc) (s : Eb)
    (hmem : ∀ j, mem (s.obj obj).execEntry j = entryEnv env j (user j)) :
    execbufferRelocateObject a file mem obj s =
        some ((relocateUserArray a file env obj user s).1,
          (relocateUserArray a file env obj user s).2.2) ∧
      execbufferRelocateObjectSlow a file mem obj s =
        some ((relocateCopiedArray a file env obj user s).1,
          (relocateCopiedArray a file env obj user s).2.2) := by
  unfold execbufferRelocateObject execbufferRelocateObjectSlow relocateObject
  rw [← numbered_relocs a mem (s.obj obj).execEntry user hmem]
  constructor
  · rw [Args.copied, List.range_eq_range']
    exact relocateChunks_each _ 0 user s rfl
  · exact relocateRest_each _ 0 s

end I915.Exec
