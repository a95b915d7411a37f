import SolarisXorg.Drm.Magic

/-!
# Whose number a magic number is

`MagicFile.claimed` is the number that a file has, or has swapped into `sequence` and is about to
look for. `MagicInv` says that the claimed numbers are at most `sequence` and different, and that the
hash lists and the calls of `drm_authmagic` give a number to the file that claims it. A step of
`drm_getmagic` that meets `retries` keeps it (`drmGetmagic_inv`): a number is claimed when the
compare-and-set succeeds, and only then, since after one that fails the file goes back to reading
`sequence`. So no two files have the same number (`magic_unique`).

Without this, two files that read the same `sequence` both take the number after it
(`magic_taken_twice`).
-/

namespace Drm

open Lib

variable {master : Nat → Nat} {s : MagicSys} {file : Nat}

/-- The number that is the file's: 0 if there is none yet. -/
def MagicFile.claimed (f : MagicFile) : BitVec 32 :=
  match f.pc with
  | .find old true => old + 1
  | _ => f.magic

/-- A file has no number while it looks for one, and has one when it registers it. -/
def MagicFile.Ordered (f : MagicFile) : Prop :=
  match f.pc with
  | .idle => True
  | .add => f.magic ≠ 0
  | .find old true => f.magic = 0 ∧ old ≠ 0xffffffff
  | _ => f.magic = 0

/-- What the system keeps. -/
structure MagicInv (s : MagicSys) : Prop where
  le : ∀ file, (s.files file).claimed ≤ s.sequence
  inj : ∀ f g, (s.files f).claimed ≠ 0 → (s.files f).claimed = (s.files g).claimed → f = g
  ordered : ∀ file, (s.files file).Ordered
  listed : ∀ m hash e, e ∈ s.magiclist m hash → e.1 ≠ 0 ∧ (s.files e.2).magic = e.1
  found : ∀ a ∈ s.authmagic, a.2.1 ≠ 0 ∧ (s.files a.2.2).magic = a.2.1

theorem magicInit_inv : MagicInv magicInit where
  le _ := BitVec.le_refl _
  inj _ _ h := absurd rfl h
  ordered _ := trivial
  listed _ _ _ h := absurd h List.not_mem_nil
  found _ h := absurd h List.not_mem_nil

/-! ## The lists -/

/-- What is found was added. -/
theorem mem_of_drmFindFile {m found : Nat} {magic : BitVec 32}
    (h : s.drmFindFile m magic = some found) :
    (magic, found) ∈ s.magiclist m (drmHashMagic magic) := by
  obtain ⟨e, he, rfl⟩ := Option.map_eq_some_iff.1 h
  have hm : e.1 = magic := by simpa using List.find?_some he
  have hmem := List.mem_of_find?_eq_some he
  rwa [← hm] at hmem ⊢

theorem mem_setList {m hash m' hash' : Nat} {l : List (BitVec 32 × Nat)} {e : BitVec 32 × Nat}
    (h : e ∈ (s.setList m hash l).magiclist m' hash') :
    e ∈ s.magiclist m' hash' ∨ (m' = m ∧ hash' = hash ∧ e ∈ l) := by
  simp only [MagicSys.setList] at h
  by_cases hm : m' = m
  · subst hm
    rw [Function.update_self] at h
    by_cases hh : hash' = hash
    · subst hh
      rw [Function.update_self] at h
      exact .inr ⟨rfl, rfl, h⟩
    · rw [Function.update_of_ne hh] at h
      exact .inl h
  · rw [Function.update_of_ne hm] at h
    exact .inl h

theorem mem_drmRemoveMagic {m m' hash : Nat} {magic : BitVec 32} {e : BitVec 32 × Nat}
    (h : e ∈ (s.drmRemoveMagic m magic).magiclist m' hash) : e ∈ s.magiclist m' hash := by
  rcases mem_setList h with hmem | ⟨rfl, rfl, hmem⟩
  · exact hmem
  · exact List.mem_of_mem_eraseP hmem

theorem mem_drmAddMagic {m m' hash : Nat} {magic : BitVec 32} {alloc : Bool}
    {e : BitVec 32 × Nat} (h : e ∈ (s.drmAddMagic m file magic alloc).magiclist m' hash) :
    e ∈ s.magiclist m' hash ∨ e = (magic, file) := by
  unfold MagicSys.drmAddMagic at h
  split at h
  · rcases mem_setList h with hmem | ⟨rfl, rfl, hmem⟩
    · exact .inl hmem
    · rcases List.mem_append.1 hmem with hmem | hmem
      · exact .inl hmem
      · exact .inr (List.mem_singleton.1 hmem)
  · exact .inl h

/-! ## Steps -/

/-- A step of one file that claims nothing new and leaves the number it has. -/
theorem MagicInv.setFile (h : MagicInv s) {f : MagicFile}
    (hclaimed : f.claimed = 0 ∨ f.claimed = (s.files file).claimed) (hord : f.Ordered)
    (hmagic : (s.files file).magic ≠ 0 → f.magic = (s.files file).magic) :
    MagicInv (s.setFile file f) := by
  have hfiles : ∀ g, ((s.setFile file f).files g).claimed = 0 ∨
      ((s.setFile file f).files g).claimed = (s.files g).claimed := by
    intro g
    by_cases hg : g = file
    · subst hg
      simpa [MagicSys.setFile] using hclaimed
    · simp [MagicSys.setFile, Function.update_of_ne hg]
  have hkeep : ∀ g magic, magic ≠ 0 → (s.files g).magic = magic →
      ((s.setFile file f).files g).magic = magic := by
    intro g magic hm hg
    by_cases hgf : g = file
    · subst hgf
      rw [← hg] at hm ⊢
      simpa [MagicSys.setFile] using hmagic hm
    · simpa [MagicSys.setFile, Function.update_of_ne hgf] using hg
  refine ⟨fun g => ?_, fun f' g hne heq => ?_, fun g => ?_, fun m hash e he => ?_, fun a ha => ?_⟩
  · rcases hfiles g with hz | hsame
    · rw [hz]
      exact BitVec.le_def.2 (Nat.zero_le _)
    · rw [hsame]
      exact h.le g
  · rcases hfiles f' with hz | hsame
    · exact absurd hz hne
    · rcases hfiles g with hz | hsame'
      · exact absurd (heq.trans hz) hne
      · rw [hsame] at hne heq
        exact h.inj f' g hne (heq.trans hsame')
  · by_cases hg : g = file
    · subst hg
      simpa [MagicSys.setFile] using hord
    · simpa [MagicSys.setFile, Function.update_of_ne hg] using h.ordered g
  · obtain ⟨hne, hm⟩ := h.listed m hash e he
    exact ⟨hne, hkeep _ _ hne hm⟩
  · obtain ⟨hne, hm⟩ := h.found a ha
    exact ⟨hne, hkeep _ _ hne hm⟩

/-- A step that changes only the hash lists, to entries that were there or belong to a file. -/
theorem MagicInv.setLists (h : MagicInv s) {t : MagicSys} (hseq : t.sequence = s.sequence)
    (hfiles : t.files = s.files) (hauth : t.authmagic = s.authmagic)
    (hlists : ∀ m hash e, e ∈ t.magiclist m hash →
      e ∈ s.magiclist m hash ∨ e.1 ≠ 0 ∧ (s.files e.2).magic = e.1) : MagicInv t := by
  obtain ⟨hle, hinj, hord, hlisted, hfound⟩ := h
  refine ⟨?_, ?_, ?_, fun m hash e he => ?_, ?_⟩
  · rwa [hfiles, hseq]
  · rwa [hfiles]
  · rwa [hfiles]
  · rw [hfiles]
    rcases hlists m hash e he with hmem | hnew
    · exact hlisted m hash e hmem
    · exact hnew
  · rwa [hauth, hfiles]

theorem MagicInv.removeMagic (h : MagicInv s) (m : Nat) (magic : BitVec 32) :
    MagicInv (s.drmRemoveMagic m magic) :=
  h.setLists rfl rfl rfl fun _ _ _ he => .inl (mem_drmRemoveMagic he)

theorem MagicInv.addMagic (h : MagicInv s) (hne : (s.files file).magic ≠ 0) (m : Nat)
    (alloc : Bool) : MagicInv (s.drmAddMagic m file (s.files file).magic alloc) := by
  have hframe : (s.drmAddMagic m file (s.files file).magic alloc).sequence = s.sequence ∧
      (s.drmAddMagic m file (s.files file).magic alloc).files = s.files ∧
      (s.drmAddMagic m file (s.files file).magic alloc).authmagic = s.authmagic := by
    unfold MagicSys.drmAddMagic
    split <;> exact ⟨rfl, rfl, rfl⟩
  apply h.setLists hframe.1 hframe.2.1 hframe.2.2
  intro m' hash e he
  rcases mem_drmAddMagic he with hmem | rfl
  · exact .inl hmem
  · exact .inr ⟨hne, rfl⟩

/-- **A compare-and-set that succeeds** gives the file a number that nobody claims. -/
theorem MagicInv.swap (h : MagicInv s) (hpc : (s.files file).pc = .cmpset s.sequence)
    (hwrap : s.sequence ≠ 0xffffffff) :
    MagicInv ({ s with sequence := s.sequence + 1 }.setPc file (.find s.sequence true)) := by
  have hsucc : (s.sequence + 1).toNat = s.sequence.toNat + 1 := by
    have hlt := s.sequence.isLt
    have hne : s.sequence.toNat ≠ 0xffffffff := fun he => hwrap (BitVec.eq_of_toNat_eq he)
    rw [BitVec.toNat_add]
    show (s.sequence.toNat + 1) % 2 ^ 32 = _
    omega
  have hzero : (s.files file).magic = 0 := by
    have hord := h.ordered file
    rwa [MagicFile.Ordered, hpc] at hord
  have hself : (({ s with sequence := s.sequence + 1 }.setPc file
      (.find s.sequence true)).files file).claimed = s.sequence + 1 := by
    simp [MagicSys.setPc, MagicSys.setFile, MagicFile.claimed]
  have hother : ∀ g, g ≠ file → ({ s with sequence := s.sequence + 1 }.setPc file
      (.find s.sequence true)).files g = s.files g := fun g hg => Function.update_of_ne hg _ _
  have hbelow : ∀ g, (s.files g).claimed ≠ s.sequence + 1 := by
    intro g he
    have hle := BitVec.le_def.1 (h.le g)
    rw [he, hsucc] at hle
    omega
  have hmagic : ∀ g, (({ s with sequence := s.sequence + 1 }.setPc file
      (.find s.sequence true)).files g).magic = (s.files g).magic := by
    intro g
    by_cases hg : g = file
    · subst hg
      simp [MagicSys.setPc, MagicSys.setFile]
    · rw [hother g hg]
  refine ⟨fun g => ?_, fun f g hne heq => ?_, fun g => ?_, fun m hash e he => ?_, fun a ha => ?_⟩
  · by_cases hg : g = file
    · subst hg
      rw [hself]
      exact BitVec.le_refl _
    · rw [hother g hg, BitVec.le_def]
      have hle := BitVec.le_def.1 (h.le g)
      show _ ≤ (s.sequence + 1).toNat
      omega
  · by_cases hf : f = file
    · by_cases hg : g = file
      · rw [hf, hg]
      · subst hf
        rw [hself, hother g hg] at heq
        exact absurd heq.symm (hbelow g)
    · by_cases hg : g = file
      · subst hg
        rw [hself, hother f hf] at heq
        exact absurd heq (hbelow f)
      · rw [hother f hf] at hne heq
        rw [hother g hg] at heq
        exact h.inj f g hne heq
  · by_cases hg : g = file
    · subst hg
      simpa [MagicSys.setPc, MagicSys.setFile, MagicFile.Ordered] using ⟨hzero, hwrap⟩
    · rw [hother g hg]
      exact h.ordered g
  · rw [hmagic]
    exact h.listed m hash e he
  · rw [hmagic]
    exact h.found a ha

/-- A file without a number goes on looking for one. -/
theorem MagicInv.look (h : MagicInv s) (hzero : (s.files file).magic = 0) {pc : MagicPc}
    (hpc : pc = .read ∨ ∃ old, pc = .cmpset old ∨ pc = .find old false) :
    MagicInv (s.setPc file pc) := by
  refine h.setFile (.inl ?_) ?_ fun _ => rfl
  · rcases hpc with rfl | ⟨old, rfl | rfl⟩ <;> exact hzero
  · rcases hpc with rfl | ⟨old, rfl | rfl⟩ <;> exact hzero

/-- A file that has the number it looked for takes it. -/
theorem MagicInv.take (h : MagicInv s) {old : BitVec 32}
    (hpc : (s.files file).pc = .find old true) :
    MagicInv (s.setFile file { s.files file with magic := old + 1, pc := .add }) := by
  have hord := h.ordered file
  rw [MagicFile.Ordered, hpc] at hord
  have hne : old + 1 ≠ 0 := by
    intro he
    have hn := congrArg BitVec.toNat he
    have hold : old.toNat ≠ 0xffffffff := fun hc => hord.2 (BitVec.eq_of_toNat_eq hc)
    have hlt := old.isLt
    rw [BitVec.toNat_add] at hn
    change (old.toNat + 1) % 2 ^ 32 = 0 at hn
    omega
  refine h.setFile (.inr ?_) hne fun hm => absurd hord.1 hm
  simp only [MagicFile.claimed, hpc]

/-- **A step of `drm_getmagic`.** -/
theorem drmGetmagic_inv {alloc : Bool} (h : MagicInv s)
    (hret : s.retries master (.getmagic file alloc) = true) :
    MagicInv (drmGetmagic master s file alloc) := by
  have hord := h.ordered file
  unfold MagicFile.Ordered at hord
  unfold MagicSys.retries at hret
  unfold drmGetmagic
  dsimp only at hret ⊢
  cases hpc : (s.files file).pc with
  | idle =>
    dsimp only
    by_cases hm : (s.files file).magic = 0
    · rw [if_neg (not_not.2 hm)]
      exact h.look hm (.inl rfl)
    · rwa [if_pos hm]
  | read =>
    rw [hpc] at hord
    exact h.look hord (.inr ⟨_, .inl rfl⟩)
  | cmpset old =>
    rw [hpc] at hord
    dsimp only
    by_cases hseq : s.sequence = old
    · subst hseq
      rw [if_pos rfl]
      exact h.swap hpc (by simpa [hpc] using hret)
    · rw [if_neg hseq]
      exact h.look hord (.inr ⟨_, .inr rfl⟩)
  | find old swapped =>
    have hzero : (s.files file).magic = 0 := by
      rw [hpc] at hord
      cases swapped with
      | true => exact hord.1
      | false => exact hord
    dsimp only
    cases hfind : s.drmFindFile (master file) (old + 1) with
    | some found => exact h.look hzero (.inl rfl)
    | none =>
      -- a number that was not swapped in would have been found
      rw [hpc] at hret
      dsimp only at hret
      rw [hfind] at hret
      obtain rfl : swapped = true := by simpa using hret
      exact h.take hpc
  | add =>
    rw [hpc] at hord
    have hadd := h.addMagic hord (master file) alloc
    have hfile : (s.drmAddMagic (master file) file (s.files file).magic alloc).files file =
        s.files file := by
      unfold MagicSys.drmAddMagic
      split <;> rfl
    refine hadd.setFile (.inr ?_) trivial fun _ => rfl
    rw [hfile]
    simp only [MagicFile.claimed, hpc]

theorem drmAuthmagic_inv (h : MagicInv s) (caller : Nat) (magic : BitVec 32) :
    MagicInv (drmAuthmagic master s caller magic) := by
  unfold drmAuthmagic
  split
  · next found hfind =>
    have hnew := h.listed _ _ _ (mem_of_drmFindFile hfind)
    refine ⟨h.le, h.inj, h.ordered, h.listed, fun a ha => ?_⟩
    rcases List.mem_cons.1 ha with rfl | ha
    · exact hnew
    · exact h.found a ha
  · exact h

theorem drmAuthenticate_inv (h : MagicInv s) (caller : Nat) (magic : BitVec 32) (found : Nat) :
    MagicInv (drmAuthenticate master s caller magic found) := by
  have hset : MagicInv (s.setFile found { s.files found with authenticated := true }) :=
    h.setFile (.inr rfl) (h.ordered found) fun _ => rfl
  exact hset.removeMagic _ _

theorem drmReleaseMagic_inv (h : MagicInv s) : MagicInv (drmReleaseMagic master s file) := by
  unfold drmReleaseMagic
  dsimp only
  have hset : ∀ {t : MagicSys}, MagicInv t → t.files = s.files →
      MagicInv (t.setFile file { s.files file with released := true }) := by
    intro t ht hfiles
    rw [← hfiles]
    exact ht.setFile (.inr rfl) (ht.ordered file) fun _ => rfl
  split
  · exact hset (h.removeMagic _ _) rfl
  · exact hset h rfl

theorem magicStep_inv {t : MagicSys} {l : MagicCall} (h : MagicInv s)
    (hret : s.retries master l = true) (hs : magicStep master s l = some t) : MagicInv t := by
  cases l with
  | getmagic file alloc =>
    rw [magicStep, Option.ite_none_left_eq_some] at hs
    cases hs.2
    exact drmGetmagic_inv h hret
  | authmagic caller magic =>
    rw [magicStep, Option.ite_none_left_eq_some] at hs
    cases hs.2
    exact drmAuthmagic_inv h caller magic
  | authenticate i =>
    obtain ⟨⟨caller, magic, found⟩, -, rfl⟩ := Option.map_eq_some_iff.1 hs
    have herase : MagicInv { s with authmagic := s.authmagic.eraseIdx i } :=
      ⟨h.le, h.inj, h.ordered, h.listed, fun a ha => h.found a (List.mem_of_mem_eraseIdx ha)⟩
    exact drmAuthenticate_inv herase caller magic found
  | release file =>
    rw [magicStep, Option.ite_none_right_eq_some] at hs
    cases hs.2
    exact drmReleaseMagic_inv h

/-! ## Whole runs -/

variable {ls : List MagicCall}

/-- **No two files have the same magic number**, in whatever order the steps of their calls come, as
long as every step meets `retries`; so a call of `drm_authmagic` is about to authenticate the one
file that has the number it was called with. -/
theorem magic_unique (hr : RetryRun master magicInit ls s) :
    (∀ f g, (s.files f).magic ≠ 0 → (s.files f).magic = (s.files g).magic → f = g) ∧
      ∀ caller magic found, (caller, magic, found) ∈ s.authmagic →
        ∀ f, (s.files f).magic = magic ↔ f = found := by
  have h : MagicInv s := hr.inv magicInit_inv fun _ _ _ hi hs => magicStep_inv hi hs.1 hs.2
  have hclaimed : ∀ f, (s.files f).magic ≠ 0 → (s.files f).claimed = (s.files f).magic := by
    intro f hm
    have hord := h.ordered f
    unfold MagicFile.Ordered at hord
    unfold MagicFile.claimed
    split
    · next old hpc =>
      rw [hpc] at hord
      exact absurd hord.1 hm
    · rfl
  have hinj : ∀ f g, (s.files f).magic ≠ 0 → (s.files f).magic = (s.files g).magic → f = g := by
    intro f g hm heq
    refine h.inj f g ?_ ?_
    · rwa [hclaimed f hm]
    · rw [hclaimed f hm, hclaimed g (heq ▸ hm), heq]
  refine ⟨hinj, fun caller magic found ha f => ?_⟩
  obtain ⟨hne, hmagic⟩ := h.found _ ha
  constructor
  · intro hf
    exact hinj f found (hf ▸ hne) (hf.trans hmagic.symm)
  · rintro rfl
    exact hmagic

/-- The steps that meet `retries`, as a function. -/
def retryStep (master : Nat → Nat) (s : MagicSys) (l : MagicCall) : Option MagicSys :=
  if s.retries master l then magicStep master s l else none

theorem retryStep_spec {t : MagicSys} {l : MagicCall} (h : retryStep master s l = some t) :
    s.retries master l = true ∧ magicStep master s l = some t :=
  Option.ite_none_right_eq_some.1 h

/-- Two files with a step of each in turn: the second finds the first one's number and looks on. -/
theorem magic_unique_two :
    ∃ s, RetryRun (fun _ => 0) magicInit
        [.getmagic 0 true, .getmagic 1 true, .getmagic 0 true, .getmagic 1 true, .getmagic 0 true,
          .getmagic 1 true, .getmagic 0 true, .getmagic 0 true, .getmagic 1 true, .getmagic 1 true,
          .getmagic 1 true, .getmagic 1 true, .getmagic 1 true, .authmagic 0 2] s ∧
      s.authmagic = [(0, 2, 1)] ∧ (s.files 0).magic = 1 ∧
      ∀ f, (s.files f).magic = 2 ↔ f = 1 := by
  have hr : ∃ s, RetryRun (fun _ => 0) magicInit
        [.getmagic 0 true, .getmagic 1 true, .getmagic 0 true, .getmagic 1 true, .getmagic 0 true,
          .getmagic 1 true, .getmagic 0 true, .getmagic 0 true, .getmagic 1 true, .getmagic 1 true,
          .getmagic 1 true, .getmagic 1 true, .getmagic 1 true, .authmagic 0 2] s ∧
      s.authmagic = [(0, 2, 1)] ∧ (s.files 0).magic = 1 :=
    ⟨_, Run.of_foldlM (f := retryStep fun _ => 0) (fun _ _ _ => retryStep_spec) rfl, rfl, rfl⟩
  obtain ⟨s, hrun, hauth, hmagic⟩ := hr
  exact ⟨s, hrun, hauth, hmagic,
    (magic_unique hrun).2 0 2 1 (hauth ▸ List.mem_singleton_self _)⟩

/-! ## A number that is taken twice -/

/-- Two files read 0. The compare-and-set of file 1 fails, but it finds nobody under 1 and takes 1;
so does file 0, whose number it is. The call of `drm_authmagic` for file 0 finds file 1. -/
theorem magic_taken_twice :
    ∃ s, Run (fun s l t => magicStep (fun _ => 0) s l = some t) magicInit
        [.getmagic 0 true, .getmagic 1 true, .getmagic 0 true, .getmagic 1 true, .getmagic 0 true,
          .getmagic 1 true, .getmagic 1 true, .getmagic 0 true, .getmagic 1 true, .getmagic 0 true,
          .authmagic 2 1] s ∧
      (s.files 0).magic = 1 ∧ (s.files 1).magic = 1 ∧ s.authmagic = [(2, 1, 1)] :=
  ⟨_, Run.of_foldlM (f := magicStep fun _ => 0) (fun _ _ _ => id) rfl, rfl, rfl, rfl⟩

end Drm
