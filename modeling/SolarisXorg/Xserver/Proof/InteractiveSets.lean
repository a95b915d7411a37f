import Mathlib.Data.List.Dedup
import SolarisXorg.Xserver.Proof.Interactive

/-!
# What equal pid lists say about the sets

`PidSetEqual` compares the counts and looks for the pids of one record in the other. Where the pids
of one are in the other, the sets are equal exactly when they have as many members
(`members_eq_iff`), so the answer is right exactly when the counts, which count a pid as often as it
is listed, compare as the numbers of members do (`pid_set_equal_iff`).
-/

namespace IA

variable {a b : ClientProcess}

/-- The number of different pids of a record. -/
def ClientProcess.members (a : ClientProcess) : Nat := a.pids.dedup.length

/-- Two records have the same set of pids. -/
def SameMembers (a b : ClientProcess) : Prop := ∀ pid, pid ∈ a.pids ↔ pid ∈ b.pids

theorem sameMembers_iff : SameMembers a b ↔ a.pids ⊆ b.pids ∧ b.pids ⊆ a.pids :=
  ⟨fun h => ⟨fun pid => (h pid).1, fun pid => (h pid).2⟩, fun h pid => ⟨@h.1 pid, @h.2 pid⟩⟩

/-- A set in another one with as many members is the other one. -/
theorem members_eq_iff (h : a.pids ⊆ b.pids) : a.members = b.members ↔ b.pids ⊆ a.pids := by
  have hsub : a.pids.dedup.Subperm b.pids.dedup := by
    apply List.subperm_of_subset (List.nodup_dedup _)
    intro pid hpid
    rw [List.mem_dedup] at hpid ⊢
    exact h hpid
  constructor
  · intro heq pid hpid
    have hperm := hsub.perm_of_length_le (Nat.le_of_eq heq.symm)
    rw [← List.mem_dedup] at hpid ⊢
    exact hperm.mem_iff.2 hpid
  · intro hback
    have hperm : a.pids.dedup.Perm b.pids.dedup := by
      apply (List.perm_ext_iff_of_nodup (List.nodup_dedup _) (List.nodup_dedup _)).2
      intro pid
      rw [List.mem_dedup, List.mem_dedup]
      exact ⟨@h pid, @hback pid⟩
    exact hperm.length_eq

/-- Pids that are all in the other record and as many as there are no fewer members. -/
def NoneHidden (a b : ClientProcess) : Prop :=
  a.pids ⊆ b.pids → a.pids.length = b.pids.length → a.members = b.members

/-- Where the pids of `a` are in `b`, the counts are equal just when the numbers of members are. -/
def CountsAgree (a b : ClientProcess) : Prop :=
  a.pids ⊆ b.pids → (a.pids.length = b.pids.length ↔ a.members = b.members)

theorem equal_same_iff : (pidSetEqual a b = true → SameMembers a b) ↔ NoneHidden a b := by
  rw [pidSetEqual_eq_true, sameMembers_iff, NoneHidden]
  constructor
  · intro h hsub hlen
    exact (members_eq_iff hsub).2 (h ⟨hlen, hsub⟩).2
  · rintro h ⟨hlen, hsub⟩
    exact ⟨hsub, (members_eq_iff hsub).1 (h hsub hlen)⟩

theorem same_equal_iff : (SameMembers a b → pidSetEqual a b = true) ↔
    (a.pids ⊆ b.pids → a.members = b.members → a.pids.length = b.pids.length) := by
  rw [pidSetEqual_eq_true, sameMembers_iff]
  constructor
  · intro h hsub hmem
    exact (h ⟨hsub, (members_eq_iff hsub).1 hmem⟩).1
  · rintro h ⟨hsub, hback⟩
    exact ⟨h hsub ((members_eq_iff hsub).2 hback), hsub⟩

theorem symmetric_iff :
    pidSetEqual a b = pidSetEqual b a ↔ NoneHidden a b ∧ NoneHidden b a := by
  rw [Bool.eq_iff_iff, pidSetEqual_eq_true, pidSetEqual_eq_true, NoneHidden, NoneHidden]
  constructor
  · intro h
    exact ⟨fun hsub hlen => (members_eq_iff hsub).2 (h.1 ⟨hlen, hsub⟩).2,
      fun hsub hlen => (members_eq_iff hsub).2 (h.2 ⟨hlen, hsub⟩).2⟩
  · rintro ⟨hab, hba⟩
    exact ⟨fun h => ⟨h.1.symm, (members_eq_iff h.2).1 (hab h.2 h.1)⟩,
      fun h => ⟨h.1.symm, (members_eq_iff h.2).1 (hba h.2 h.1)⟩⟩

/-- **When `PidSetEqual` compares sets.** Its answer is whether the members are the same exactly
when the counts compare as the numbers of members do. It is the same both ways round, and the
shortcut of `ChangePriority` is taken only for the old focus group, exactly when a list of as many
pids that are all in the other has no fewer members. -/
theorem pid_set_equal_iff (a b : ClientProcess) :
    ((pidSetEqual a b = true ↔ SameMembers a b) ↔ CountsAgree a b) ∧
    (pidSetEqual a b = pidSetEqual b a ↔ NoneHidden a b ∧ NoneHidden b a) ∧
    ∀ s client current last, getConnectionPids s client = some current → s.lastPids = some last →
      s.heap current = some a → s.heap last = some b →
      ((sameAsLast s (getConnectionPids s client) = some true → SameMembers a b) ↔
        NoneHidden a b) := by
  refine ⟨?_, symmetric_iff, fun s client current last hcur hlast ha hb => ?_⟩
  · have hiff : (pidSetEqual a b = true ↔ SameMembers a b) ↔
        (pidSetEqual a b = true → SameMembers a b) ∧ (SameMembers a b → pidSetEqual a b = true) :=
      iff_iff_implies_and_implies
    rw [hiff, equal_same_iff, same_equal_iff]
    constructor
    · rintro ⟨h1, h2⟩ hsub
      exact ⟨h1 hsub, h2 hsub⟩
    · intro h
      exact ⟨fun hsub => (h hsub).1, fun hsub => (h hsub).2⟩
  · rw [hcur]
    simp only [sameAsLast, hlast, ha, hb, Option.some.injEq]
    exact equal_same_iff

/-- The pids 100 and 100 and the pids 100 and 200: equal one way round, and the focus moves from the
second group to the first with the boost left where it is. -/
theorem pid_set_equal_duplicate :
    (pidSetEqual ⟨[100, 100], false⟩ ⟨[100, 200], false⟩ = true ∧
      pidSetEqual ⟨[100, 200], false⟩ ⟨[100, 100], false⟩ = false ∧
      ¬ SameMembers ⟨[100, 100], false⟩ ⟨[100, 200], false⟩) ∧
    ∃ s, [Op.clientInitial 1 100 0, .setProcessInfo 1 ⟨true, 0, 0, true⟩ [100, 200] 1,
        .setInputFocus 1, .clientInitial 2 100 2,
        .setProcessInfo 2 ⟨true, 0, 0, true⟩ [100, 100] 3, .setInputFocus 2].foldlM exec
          (.init fun _ => ⟨.ts, false⟩) = some s ∧
      pidsOf s 1 = [100, 200] ∧ pidsOf s 2 = [100, 100] ∧
      Boosted s 1 ∧ ¬ Boosted s 2 ∧ s.lastPids = some 1 := by
  refine ⟨⟨by decide, by decide, fun h => absurd ((h 200).2 (by decide)) (by decide)⟩, _, rfl, rfl,
    rfl, ⟨1, _, rfl, rfl, rfl⟩, ?_, rfl⟩
  rintro ⟨cpp, proc, hown, hproc, hboosted⟩
  obtain rfl := Option.some.inj hown
  obtain rfl := Option.some.inj hproc
  exact absurd hboosted (by decide)

end IA
