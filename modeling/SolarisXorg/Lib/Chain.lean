import Mathlib.Data.List.Basic
import Mathlib.Logic.Function.Basic

/-!
# Lists linked through their elements

`Chain next h l`: the pointer `h` and the `next` fields from there lead through `l` to the null
pointer. Several lists may share the field: writing one element's field leaves every list alone that
does not have the element (`Chain.congr`). `findPrev` is the search loop that remembers the element
before; what it finds is where `Chain.unlink` takes an element out. `Leads` is a list up to a
pointer that need not be its end (`Chain.leads_update`: after a write to the last element), and
`readList` the loop to the end of a list.
-/

namespace Lib

variable {ι : Type*} {next next' : ι → Option ι} {h : Option ι} {a b l : List ι} {p q : ι}

/-- From `h`, the `next` fields lead through `l` to the end. -/
def Chain (next : ι → Option ι) : Option ι → List ι → Prop
  | h, [] => h = none
  | h, p :: l => h = some p ∧ Chain next (next p) l

@[simp] theorem chain_nil : Chain next h [] ↔ h = none := Iff.rfl

@[simp] theorem chain_cons : Chain next h (p :: l) ↔ h = some p ∧ Chain next (next p) l := Iff.rfl

namespace Chain

theorem congr (hc : Chain next h l) (hn : ∀ p ∈ l, next' p = next p) : Chain next' h l := by
  induction l generalizing h with
  | nil => exact hc
  | cons p l ih =>
    refine ⟨hc.1, ?_⟩
    rw [hn p (by simp)]
    exact ih hc.2 fun q hq => hn q (by simp [hq])

theorem eq_nil_of_none (hc : Chain next none l) : l = [] := by
  cases l with
  | nil => rfl
  | cons p l => cases hc.1

theorem exists_cons_of_some (hc : Chain next (some p) l) :
    ∃ b, l = p :: b ∧ Chain next (next p) b := by
  cases l with
  | nil => cases hc
  | cons q b =>
    obtain rfl := Option.some.inj hc.1
    exact ⟨b, rfl, hc.2⟩

theorem isSome_iff (hc : Chain next h l) : h.isSome ↔ l ≠ [] := by
  cases l with
  | nil => simp [chain_nil.1 hc]
  | cons p l => simp [hc.1]

/-- The list behind an element starts at the element's field. -/
theorem of_append (hc : Chain next h (a ++ p :: b)) : Chain next (next p) b := by
  induction a generalizing h with
  | nil => exact hc.2
  | cons c a ih => exact ih hc.2

/-- Writing the field of the element before `p` takes `p` out. -/
theorem unlink [DecidableEq ι] (hc : Chain next h (a ++ p :: b)) (hnd : (a ++ p :: b).Nodup)
    (hq : a.getLast? = some q) : Chain (Function.update next q (next p)) h (a ++ b) := by
  induction a generalizing h with
  | nil => cases hq
  | cons c a ih =>
    rw [List.cons_append, List.nodup_cons] at hnd
    refine ⟨hc.1, ?_⟩
    cases a with
    | nil =>
      obtain rfl : c = q := by simpa using hq
      rw [Function.update_self]
      refine hc.2.2.congr fun r hr => Function.update_of_ne ?_ _ _
      rintro rfl
      exact hnd.1 (by simp [hr])
    | cons d a =>
      have hq' : (d :: a).getLast? = some q := by simpa [List.getLast?_cons_cons] using hq
      have hqm : q ∈ d :: a := List.mem_of_getLast? hq'
      have hcq : c ≠ q := by
        rintro rfl
        exact hnd.1 (by simp only [List.mem_append]; exact .inl hqm)
      rw [Function.update_of_ne hcq]
      exact ih hc.2 hnd.2 hq'

end Chain

/-! ## Part of a list -/

/-- From `h`, the `next` fields lead through `l` to the pointer `t`. -/
def Leads (next : ι → Option ι) : Option ι → List ι → Option ι → Prop
  | h, [], t => h = t
  | h, p :: l, t => h = some p ∧ Leads next (next p) l t

namespace Leads

variable {t : Option ι}

/-- Links that are not null stay what they are. -/
theorem keep (hl : Leads next h l (some p)) (hn : ∀ c q, next c = some q → next' c = some q) :
    Leads next' h l (some p) := by
  induction l generalizing h with
  | nil => exact hl
  | cons c l ih =>
    obtain ⟨rfl, hl⟩ := hl
    cases hq : next c with
    | none =>
      rw [hq] at hl
      cases l with
      | nil => cases hl
      | cons d l => cases hl.1
    | some q =>
      refine ⟨rfl, ?_⟩
      rw [hn c q hq]
      rw [hq] at hl
      exact ih hl

/-- A list on from where it leads. -/
theorem chain_append (hl : Leads next h a t) (hc : Chain next t b) : Chain next h (a ++ b) := by
  induction a generalizing h with
  | nil =>
    cases hl
    exact hc
  | cons p a ih => exact ⟨hl.1, ih hl.2⟩

/-- A list with an end goes on to all that it leads to. -/
theorem mem_chain (hl : Leads next h a (some p)) (hc : Chain next h l) : p ∈ l := by
  induction a generalizing h l with
  | nil =>
    cases hl
    obtain ⟨b, rfl, -⟩ := hc.exists_cons_of_some
    simp
  | cons c a ih =>
    obtain ⟨rfl, hl⟩ := hl
    obtain ⟨b, rfl, hb⟩ := hc.exists_cons_of_some
    exact List.mem_cons_of_mem _ (ih hl hb)

end Leads

namespace Chain

theorem unique (ha : Chain next h a) (hb : Chain next h b) : a = b := by
  induction a generalizing h b with
  | nil =>
    obtain rfl := chain_nil.1 ha
    exact hb.eq_nil_of_none.symm
  | cons p a ih =>
    obtain ⟨rfl, ha⟩ := ha
    obtain ⟨c, rfl, hc⟩ := hb.exists_cons_of_some
    rw [ih ha hc]

/-- A list with an end meets no element twice. -/
theorem nodup (hc : Chain next h l) : l.Nodup := by
  induction l generalizing h with
  | nil => exact List.nodup_nil
  | cons p l ih =>
    refine List.nodup_cons.2 ⟨fun hp => ?_, ih hc.2⟩
    obtain ⟨a, b, rfl⟩ := List.append_of_mem hp
    have he := congrArg List.length (hc.2.unique hc.2.of_append)
    simp at he
    omega

/-- Writing the field of the last element makes the list lead on. -/
theorem leads_update [DecidableEq ι] {t : Option ι} (hc : Chain next h (a ++ [q])) :
    Leads (Function.update next q t) h (a ++ [q]) t := by
  have hnd := hc.nodup
  induction a generalizing h with
  | nil => exact ⟨hc.1, Function.update_self ..⟩
  | cons c a ih =>
    rw [List.cons_append, List.nodup_cons] at hnd
    have hcq : c ≠ q := by
      rintro rfl
      exact hnd.1 (by simp)
    refine ⟨hc.1, ?_⟩
    rw [Function.update_of_ne hcq]
    exact ih hc.2 hnd.2

end Chain

/-! ## Reading a list -/

/-- The elements from `h` on, at most `n`; `link p` is the `next` field of the record `p`, if there
is one. There is no result where the list leads to no record, or does not end. -/
def readList (link : ι → Option (Option ι)) : Nat → Option ι → Option (List ι)
  | _, none => some []
  | 0, some _ => none
  | n + 1, some p => (link p).bind fun t => (readList link n t).map (p :: ·)

section Read

variable {link : ι → Option (Option ι)} {n : Nat}

theorem chain_of_readList (hr : readList link n h = some l) :
    Chain (fun p => (link p).join) h l ∧ ∀ p ∈ l, (link p).isSome := by
  induction n generalizing h l with
  | zero =>
    cases h with
    | none => cases hr; exact ⟨rfl, by simp⟩
    | some p => cases hr
  | succ n ih =>
    cases h with
    | none => cases hr; exact ⟨rfl, by simp⟩
    | some p =>
      rw [readList, Option.bind_eq_some_iff] at hr
      obtain ⟨t, ht, hr⟩ := hr
      obtain ⟨m, hm, rfl⟩ := Option.map_eq_some_iff.1 hr
      obtain ⟨hc, ha⟩ := ih hm
      exact ⟨⟨rfl, by simpa [ht] using hc⟩, by simpa [ht] using ha⟩

theorem readList_of_chain (hc : Chain (fun p => (link p).join) h l) (ha : ∀ p ∈ l, (link p).isSome)
    (hn : l.length ≤ n) : readList link n h = some l := by
  induction l generalizing h n with
  | nil => rw [chain_nil.1 hc, readList]
  | cons p l ih =>
    obtain ⟨rfl, hc⟩ := hc
    obtain ⟨t, ht⟩ := Option.isSome_iff_exists.1 (ha p (by simp))
    obtain ⟨n, rfl⟩ : ∃ k, n = k + 1 := ⟨n - 1, by simp at hn; omega⟩
    simp only [ht, Option.join_some] at hc
    have hl : readList link n t = some l :=
      ih hc (fun q hq => ha q (by simp [hq])) (by simpa using hn)
    rw [readList, ht, Option.bind_some, hl, Option.map_some]

end Read

/-! ## The search loop -/

variable [DecidableEq ι]

/-- The loop that looks for `p` from `cur` on, at most `n` elements: the element before it. -/
def findPrev (next : ι → Option ι) (p : ι) : Nat → Option ι → Option ι → Option (Option ι)
  | 0, _, _ => none
  | _ + 1, _, none => none
  | n + 1, prev, some cur =>
    if cur = p then some prev else findPrev next p n (some cur) (next cur)

theorem findPrev_of_notMem {prev : Option ι} {n : Nat} (hc : Chain next h l) (hp : p ∉ l) :
    findPrev next p n prev h = none := by
  induction n generalizing h l prev with
  | zero => rfl
  | succ n ih =>
    cases h with
    | none => rfl
    | some c =>
      obtain ⟨b, rfl, hb⟩ := hc.exists_cons_of_some
      have hcp : c ≠ p := fun he => hp (by simp [he])
      rw [findPrev, if_neg hcp]
      exact ih hb fun hm => hp (by simp [hm])

/-- With an element found, the list is split at it, and the element before is the last of the first
part. -/
theorem findPrev_of_mem {prev : Option ι} {n : Nat} (hc : Chain next h (a ++ p :: b)) (ha : p ∉ a)
    (hn : a.length < n) : findPrev next p n prev h = some (a.getLast?.or prev) := by
  induction a generalizing h prev n with
  | nil =>
    obtain ⟨k, rfl⟩ : ∃ k, n = k + 1 := ⟨n - 1, by omega⟩
    rw [hc.1, findPrev, if_pos rfl]
    rfl
  | cons c a ih =>
    rw [List.length_cons] at hn
    obtain ⟨k, rfl⟩ : ∃ k, n = k + 1 := ⟨n - 1, by omega⟩
    have hcp : c ≠ p := fun he => ha (by simp [he])
    rw [hc.1, findPrev, if_neg hcp, ih hc.2 (fun hm => ha (by simp [hm])) (by omega)]
    cases a with
    | nil => rfl
    | cons d a =>
      rw [List.getLast?_cons_cons, List.getLast?_eq_some_getLast (List.cons_ne_nil d a)]
      rfl

end Lib
