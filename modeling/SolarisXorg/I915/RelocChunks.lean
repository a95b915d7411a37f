import SolarisXorg.I915.Execbuffer

/-!
# The two passes over the relocations of an object (`i915_gem_execbuffer.c`)

`i915_gem_execbuffer_relocate_object` copies the entries of an object out of the user's memory into an
array on its stack, as many at a time as fit, and writes what changes of them back.
`i915_gem_execbuffer_relocate_object_slow` has been given all entries.

The user's array is a function of the index, and `env` has what the processing of each entry meets
(its own `reloc` is not looked at). A `relocation_count` that `validate_exec_list` lets pass is an
`int`, so that `remain` is the number of entries that are left.
-/

namespace I915.Exec

/-- What the processing of the `pos`-th entry meets, with the entry itself. -/
def entryEnv (env : Nat → RelocEnv) (pos : Nat) (reloc : Reloc) : RelocEnv :=
  { env pos with reloc := reloc }

/-- `DRM_COPY_TO_USER(&user_relocs->presumed_offset, ..)` -/
def putPresumed (user : Nat → Reloc) (pos : Nat) (presumedOffset : UInt64) : Nat → Reloc :=
  Function.update user pos { user pos with presumedOffset := presumedOffset }

/-- The `do` loop, over what is left of the array on the stack. -/
def relocateChunk (file obj : Nat) (env : Nat → RelocEnv) :
    List Reloc → Nat → (Nat → Reloc) → Eb → Int × (Nat → Reloc) × Eb
  | [], _, user, s => (0, user, s)
  | r :: stackReloc, pos, user, s =>
    let offset := r.presumedOffset
    let (ret, r, s) := execbufferRelocateEntry file obj (entryEnv env pos r) s
    if ret ≠ 0 then (ret, user, s)
    else if r.presumedOffset ≠ offset then
      if (env pos).copyBackFault then (-EFAULT, user, s)
      else relocateChunk file obj env stackReloc (pos + 1) (putPresumed user pos r.presumedOffset) s
    else relocateChunk file obj env stackReloc (pos + 1) user s

/-- The `while` loop with `remain` entries to go, of which the first is the `pos`-th one: what the
function returns, the user's array and the state. -/
def relocateChunks (file obj : Nat) (env : Nat → RelocEnv) (remain pos : Nat) (user : Nat → Reloc)
    (s : Eb) : Int × (Nat → Reloc) × Eb :=
  if remain = 0 then (0, user, s)
  else
    let count := if remain > nReloc then nReloc else remain
    if (env pos).copyFault then (-EFAULT, user, s)
    else
      let stackReloc := (List.range' pos count).map user
      let (ret, user, s) := relocateChunk file obj env stackReloc pos user s
      if ret ≠ 0 then (ret, user, s)
      else relocateChunks file obj env (remain - count) (pos + count) user s
termination_by remain
decreasing_by
  have hcount : 0 < nReloc := by decide
  split <;> omega

/-- `i915_gem_execbuffer_relocate_object` with the user's array. -/
def relocateUserArray (a : Args) (file : Nat) (env : Nat → RelocEnv) (obj : Nat) (user : Nat → Reloc)
    (s : Eb) : Int × (Nat → Reloc) × Eb :=
  relocateChunks file obj env (a.entry (s.obj obj).execEntry).relocationCount.toNat 0 user s

/-- The loop of `i915_gem_execbuffer_relocate_object_slow` from the `i`-th entry on, over the entries
from there. -/
def relocateRest (file obj : Nat) (env : Nat → RelocEnv) :
    List Reloc → Nat → Eb → Int × List Reloc × Eb
  | [], _, s => (0, [], s)
  | r :: relocs, i, s =>
    let (ret, r, s) := execbufferRelocateEntry file obj (entryEnv env i r) s
    if ret ≠ 0 then (ret, r :: relocs, s)
    else
      let (ret, relocs, s) := relocateRest file obj env relocs (i + 1) s
      (ret, r :: relocs, s)

/-- The user's array as `i915_gem_execbuffer_relocate_slow` has copied it. -/
def Args.copied (a : Args) (user : Nat → Reloc) (i : Nat) : List Reloc :=
  (List.range (a.entry i).relocationCount.toNat).map user

/-- `i915_gem_execbuffer_relocate_object_slow` with the array it is given. -/
def relocateCopiedArray (a : Args) (file : Nat) (env : Nat → RelocEnv) (obj : Nat)
    (user : Nat → Reloc) (s : Eb) : Int × List Reloc × Eb :=
  relocateRest file obj env (a.copied user (s.obj obj).execEntry) 0 s

/-- No copy from or to the user's memory faults. -/
def CopiesSucceed (env : Nat → RelocEnv) : Prop :=
  ∀ pos, (env pos).copyFault = false ∧ (env pos).copyBackFault = false

/-- The pass over the user's array did what the other one did with its copy of `count` entries, and
wrote each of these back: the entry of the user is the one in the copy afterwards, with a
`presumed_offset` that is its only change. -/
structure SameRelocs (count : Nat) (before : Nat → Reloc) (chunks : Int × (Nat → Reloc) × Eb)
    (slow : Int × List Reloc × Eb) : Prop where
  ret : chunks.1 = slow.1
  state : chunks.2.2 = slow.2.2
  written : ∀ pos < count, slow.2.1[pos]? = some (chunks.2.1 pos)
  presumed : ∀ pos, chunks.2.1 pos =
    { before pos with presumedOffset := (chunks.2.1 pos).presumedOffset }
  rest : ∀ pos, count ≤ pos → chunks.2.1 pos = before pos

end I915.Exec
