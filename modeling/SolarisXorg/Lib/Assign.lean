import Mathlib.Data.List.Basic
import Mathlib.Data.List.Dedup
import Mathlib.Data.List.Nodup

/-!
# Values given to keys, of which no two may differ

Requests give keys values. `assign` takes one more request: the first one for its key is kept, and
a later one must give the same value. The order does not matter for whether all of them can be
taken: `assignAll_isSome_iff` says that they are `Consistent`, which is about pairs of requests.
`find?_assignAll`: what is kept for a key is its first request, so all requests for the key give the
value that is kept (`Consistent.find?_map`).
-/

namespace Lib

section

variable {α κ β : Type} [DecidableEq κ] [DecidableEq β] (key : α → κ) (val : α → β)

/-- A request for a key that has a value must agree with it. -/
def assign (kept : List α) (r : α) : Option (List α) :=
  match kept.find? fun m => key m = key r with
  | some m => if val r = val m then some kept else none
  | none => some (kept ++ [r])

/-- Requests, one after the other. -/
def assignAll (kept rs : List α) : Option (List α) := rs.foldlM (assign key val) kept

end

/-- No two requests give one key different values. -/
def Consistent {α κ β : Type} (key : α → κ) (val : α → β) (rs : List α) : Prop :=
  ∀ a ∈ rs, ∀ b ∈ rs, key a = key b → val a = val b

section

variable {α κ β : Type} {key : α → κ} {val : α → β} {k l : List α} {r : α}

/-! ## Consistent requests -/

theorem Consistent.nil : Consistent key val [] := fun _ h => (by cases h)

theorem Consistent.subset (h : Consistent key val l) (hsub : k ⊆ l) : Consistent key val k :=
  fun a ha b hb => h a (hsub ha) b (hsub hb)

theorem consistent_append : Consistent key val (k ++ l) ↔
    Consistent key val k ∧ Consistent key val l ∧
      ∀ a ∈ k, ∀ b ∈ l, key a = key b → val a = val b := by
  constructor
  · intro h
    exact ⟨h.subset (List.subset_append_left k l), h.subset (List.subset_append_right k l),
      fun a ha b hb => h a (List.mem_append_left l ha) b (List.mem_append_right k hb)⟩
  · rintro ⟨hk, hl, hkl⟩ a ha b hb
    rcases List.mem_append.1 ha with ha | ha
    · rcases List.mem_append.1 hb with hb | hb
      · exact hk a ha b hb
      · exact hkl a ha b hb
    · rcases List.mem_append.1 hb with hb | hb
      · exact fun he => (hkl b hb a ha he.symm).symm
      · exact hl a ha b hb

theorem Consistent.insert (h : Consistent key val (k ++ l))
    (hr : ∀ b ∈ k ++ l, key r = key b → val r = val b) : Consistent key val (k ++ r :: l) := by
  have hmem : ∀ a ∈ k ++ r :: l, a = r ∨ a ∈ k ++ l := by
    intro a ha
    simp only [List.mem_append, List.mem_cons] at ha ⊢
    tauto
  intro a ha b hb he
  rcases hmem a ha with rfl | ha'
  · rcases hmem b hb with rfl | hb'
    · rfl
    · exact hr b hb' he
  · rcases hmem b hb with rfl | hb'
    · exact (hr a ha' he.symm).symm
    · exact h a ha' b hb' he

/-- What the first request for a key gives, all its requests give. -/
theorem Consistent.find?_map [DecidableEq κ] {γ : Type} {f : α → γ} (h : Consistent key val l)
    (hf : ∀ a ∈ l, ∀ b ∈ l, key a = key b → val a = val b → f a = f b) (hr : r ∈ l) :
    (l.find? fun m => key m = key r).map f = some (f r) := by
  cases hfind : l.find? fun m => key m = key r with
  | none =>
    have hno := List.find?_eq_none.1 hfind r hr
    simp at hno
  | some m =>
    have hm := List.mem_of_find?_eq_some hfind
    have hk : key m = key r := by simpa using List.find?_some hfind
    exact congrArg some (hf m hm r hr hk (h m hm r hr hk))

end

section

variable {α κ β : Type} [DecidableEq κ] [DecidableEq β] {key : α → κ} {val : α → β}
  {kept out rs : List α} {r : α}

/-! ## One request -/

theorem assign_cases (h : assign key val kept r = some out) :
    (out = kept ∧ ∃ m ∈ kept, key m = key r ∧ val m = val r) ∨
      out = kept ++ [r] ∧ ∀ m ∈ kept, key m ≠ key r := by
  unfold assign at h
  split at h
  case h_1 m hm =>
    split at h
    case isTrue hv =>
      cases h
      exact .inl ⟨rfl, m, List.mem_of_find?_eq_some hm, by simpa using List.find?_some hm, hv.symm⟩
    case isFalse => cases h
  case h_2 hm =>
    cases h
    exact .inr ⟨rfl, fun m hmem => by simpa using List.find?_eq_none.1 hm m hmem⟩

theorem assign_isSome (h : ∀ m ∈ kept, key m = key r → val m = val r) :
    (assign key val kept r).isSome = true := by
  unfold assign
  split
  case h_1 m hm =>
    rw [if_pos (h m (List.mem_of_find?_eq_some hm) (by simpa using List.find?_some hm)).symm]
    rfl
  case h_2 => rfl

/-- No key is kept twice. -/
theorem assign_nodup (h : assign key val kept r = some out) (hn : (kept.map key).Nodup) :
    (out.map key).Nodup := by
  rcases assign_cases h with ⟨rfl, -⟩ | ⟨rfl, hne⟩
  · exact hn
  · rw [List.map_append, List.nodup_append]
    refine ⟨hn, List.nodup_singleton _, ?_⟩
    rintro a ha b hb rfl
    obtain ⟨m, hm, he⟩ := List.mem_map.1 ha
    exact hne m hm (he.trans (List.mem_singleton.1 hb))

/-! ## All requests -/

/-- What is taken agrees with what is kept. -/
theorem consistent_of_assignAll (h : assignAll key val kept rs = some out)
    (hk : Consistent key val kept) : Consistent key val (kept ++ rs) := by
  induction rs generalizing kept with
  | nil => rwa [List.append_nil]
  | cons r rs ih =>
    rw [assignAll, List.foldlM_cons, Option.bind_eq_bind, Option.bind_eq_some_iff] at h
    obtain ⟨kept', hr, h⟩ := h
    rcases assign_cases hr with ⟨rfl, m, hm, hkey, hval⟩ | ⟨rfl, hne⟩
    · have hrest := ih h hk
      -- the request says again what is kept
      exact hrest.insert fun b hb he =>
        hval.symm.trans (hrest m (List.mem_append_left rs hm) b hb (hkey.trans he))
    · have hone : Consistent key val (kept ++ [r]) := by
        refine Consistent.insert (by rwa [List.append_nil]) fun b hb he => ?_
        rw [List.append_nil] at hb
        exact absurd he.symm (hne b hb)
      have hrest := ih h hone
      rwa [List.append_assoc] at hrest

theorem assignAll_isSome (h : Consistent key val (kept ++ rs)) :
    (assignAll key val kept rs).isSome = true := by
  induction rs generalizing kept with
  | nil => rfl
  | cons r rs ih =>
    have hr : (assign key val kept r).isSome = true := assign_isSome fun m hm he =>
      h m (List.mem_append_left _ hm) r (List.mem_append_right _ (.head _)) he
    obtain ⟨kept', hkept⟩ := Option.isSome_iff_exists.1 hr
    rw [assignAll, List.foldlM_cons, hkept]
    refine ih (h.subset ?_)
    rcases assign_cases hkept with ⟨rfl, -⟩ | ⟨rfl, -⟩
    · exact List.append_subset.2 ⟨List.subset_append_left _ _,
        fun a ha => List.mem_append_right _ (.tail _ ha)⟩
    · rw [List.append_assoc]
      exact fun a ha => ha

/-- All requests can be taken iff no two differ. -/
theorem assignAll_isSome_iff :
    (assignAll key val [] rs).isSome = true ↔ Consistent key val rs := by
  constructor
  · intro h
    obtain ⟨out, hout⟩ := Option.isSome_iff_exists.1 h
    exact consistent_of_assignAll hout .nil
  · intro h
    exact assignAll_isSome (by rwa [List.nil_append])

/-- What is kept for a key is what was, or the first request. -/
theorem find?_assignAll (h : assignAll key val kept rs = some out) (x : κ) :
    out.find? (fun m => key m = x) = (kept ++ rs).find? fun m => key m = x := by
  induction rs generalizing kept with
  | nil =>
    cases h
    rw [List.append_nil]
  | cons r rs ih =>
    rw [assignAll, List.foldlM_cons, Option.bind_eq_bind, Option.bind_eq_some_iff] at h
    obtain ⟨kept', hr, h⟩ := h
    rw [ih h]
    rcases assign_cases hr with ⟨rfl, m, hm, hkey, -⟩ | ⟨rfl, -⟩
    · rw [List.find?_append, List.find?_append, List.find?_cons]
      by_cases hx : key r = x
      case neg => rw [decide_eq_false hx]
      have hfound : (kept'.find? fun m => key m = x).isSome = true :=
        List.find?_isSome.2 ⟨m, hm, by simpa using hkey.trans hx⟩
      obtain ⟨a, ha⟩ := Option.isSome_iff_exists.1 hfound
      rw [ha]
      rfl
    · rw [List.append_assoc]
      rfl

end

end Lib
