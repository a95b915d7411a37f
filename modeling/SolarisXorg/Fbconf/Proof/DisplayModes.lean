import Mathlib.Data.List.Perm.Subperm
import Mathlib.Data.List.Range
import SolarisXorg.Fbconf.DisplayModes
import SolarisXorg.Fbconf.Proof.ModeList

/-!
# What is left of a Display subsection's modes

`findMode_found`, `findMode_absent`: the loop ends at the first element with the name, or at the end
of the list. An element that is not found is created and is the only one (`onlyMode_of_absent`). One
that is found keeps its link when it becomes the list (`onlyMode_found_iff`): where the list went on
behind it, it goes on all the same, and with the element first in the list, what it goes on with is
freed. `editDisplaySubsection_onlyMode_iff`: so there may be no such element but the last.
-/

namespace DisplayModes

open Lib Fbc

variable {d : Display} {name : CString}

/-! ## The search -/

/-- The pointer to the link to the element behind some others. -/
def behind (pptr : Slot) (l : List Addr) : Slot :=
  match l.getLast? with
  | none => pptr
  | some a => .next a

theorem behind_cons (pptr : Slot) (a : Addr) (l : List Addr) :
    behind pptr (a :: l) = behind (.next a) l := by
  rw [behind, behind]
  cases l with
  | nil => rfl
  | cons b l => rw [List.getLast?_cons_cons, List.getLast?_cons]

theorem load_next {a : Addr} (ha : (d.mode a).isSome) : d.load (.next a) = some (d.next a) := by
  obtain ⟨r, hr⟩ := Option.isSome_iff_exists.1 ha
  rw [Display.load, Display.next, hr]
  rfl

/-- The loop passes elements without the name. -/
theorem findMode_behind {x y : List Addr} {p : Option Addr} (pptr : Slot)
    (hl : Chain d.next p (x ++ y)) (hall : ∀ a ∈ x, (d.mode a).isSome) (hp : d.load pptr = some p)
    (hname : ∀ a ∈ x, d.named name a = false) (n : Nat) :
    findMode d name (x.length + n) pptr = findMode d name n (behind pptr x) ∧
      ∃ t, d.load (behind pptr x) = some t ∧ Chain d.next t y := by
  induction x generalizing p pptr with
  | nil =>
    rw [List.length_nil, Nat.zero_add]
    exact ⟨rfl, p, hp, hl⟩
  | cons a x ih =>
    obtain ⟨rfl, hl⟩ := hl
    obtain ⟨r, hr⟩ := Option.isSome_iff_exists.1 (hall a (.head _))
    have hne : xf86nameCompare name.bytes r.modeName.bytes ≠ 0 := by
      have h := hname a (.head _)
      rw [Display.named, hr] at h
      exact of_decide_eq_false h
    obtain ⟨hfind, ht⟩ := ih _ hl (fun b hb => hall b (.tail _ hb))
      (load_next (by rw [hr]; rfl)) fun b hb => hname b (.tail _ hb)
    rw [behind_cons, ← hfind, List.length_cons, Nat.add_right_comm, findMode, hp]
    simp only [hr]
    rw [if_neg hne]
    exact ⟨rfl, ht⟩

theorem findMode_absent {l : List Addr} {n : Nat} (hl : Chain d.next d.dispModeLst l)
    (hall : ∀ a ∈ l, (d.mode a).isSome) (hn : l.length < n)
    (hname : ∀ a ∈ l, d.named name a = false) :
    findMode d name n .dispModeLst = some (behind .dispModeLst l, none) := by
  obtain ⟨k, rfl⟩ : ∃ k, n = l.length + (k + 1) := ⟨n - l.length - 1, by omega⟩
  rw [← List.append_nil l] at hl
  obtain ⟨hfind, t, hload, ht⟩ := findMode_behind .dispModeLst hl hall rfl hname (k + 1)
  rw [chain_nil.1 ht] at hload
  rw [hfind, findMode, hload]

theorem findMode_found {x y : List Addr} {a : Addr} {n : Nat}
    (hl : Chain d.next d.dispModeLst (x ++ a :: y)) (hall : ∀ b ∈ x, (d.mode b).isSome)
    (hn : x.length < n) (hname : ∀ b ∈ x, d.named name b = false) (ha : d.named name a = true) :
    findMode d name n .dispModeLst = some (behind .dispModeLst x, some a) := by
  obtain ⟨k, rfl⟩ : ∃ k, n = x.length + (k + 1) := ⟨n - x.length - 1, by omega⟩
  obtain ⟨hfind, t, hload, rfl, -⟩ := findMode_behind .dispModeLst hl hall rfl hname (k + 1)
  obtain ⟨r, hr, hname⟩ := (Option.any_eq_true ..).1 ha
  rw [hfind, findMode, hload]
  simp only [hr]
  rw [if_pos (of_decide_eq_true hname)]

/-! ## The element that becomes the list -/

/-- A list that ends with its first element. -/
theorem onlyMode_iff {a : Addr} (hlst : d.dispModeLst = some a) (hname : d.named name a = true) :
    OnlyMode name d ↔ d.next a = none := by
  constructor
  · rintro ⟨⟨b, ⟨hb, hend⟩, -⟩, -⟩
    rw [hlst] at hb
    obtain rfl := Option.some.inj hb
    exact hend
  · intro hend
    refine ⟨⟨a, ⟨hlst, hend⟩, hname⟩, fun b hb => ?_⟩
    rw [hlst] at hb
    cases hb with
    | here => exact Option.isSome_of_any hname
    | next hb =>
      rw [hend] at hb
      exact nomatch hb

theorem mode_free {a b : Addr} (h : b ≠ a) : (d.free a).mode b = d.mode b := by
  rw [Display.mode, Display.mode, Display.free, List.getElem?_set_ne h.symm]

/-- What is behind the new list is untouched. -/
theorem mode_replaceMode {a : Addr} (h : d.dispModeLst ≠ some a) :
    (replaceMode d a).dispModeLst = some a ∧ (replaceMode d a).mode a = d.mode a := by
  rw [replaceMode]
  cases hlst : d.dispModeLst with
  | none => exact ⟨rfl, rfl⟩
  | some old =>
    refine ⟨rfl, mode_free ?_⟩
    rintro rfl
    exact h hlst

theorem mode_store {p : Option Addr} {x : List Addr} {a : Addr} (h : a ∉ x) :
    (d.store p (behind .dispModeLst x)).mode a = d.mode a := by
  rw [behind]
  cases hx : x.getLast? with
  | none => rfl
  | some b =>
    have hne : b ≠ a := by
      rintro rfl
      exact h (List.mem_of_getLast? hx)
    simp only [Display.store, Display.mode]
    rw [List.getElem?_modify_ne _ _ hne]

theorem next_congr {d d' : Display} {a : Addr} (h : d'.mode a = d.mode a) (name : CString) :
    d'.next a = d.next a ∧ d'.named name a = d.named name a := by
  rw [Display.next, Display.next, Display.named, Display.named, h]
  exact ⟨rfl, rfl⟩

/-! ## The call -/

theorem lt_of_mode {a : Addr} (h : (d.mode a).isSome) : a < d.modes.length := by
  obtain ⟨r, hr⟩ := Option.isSome_iff_exists.1 h
  exact (List.getElem?_eq_some_iff.1 (Option.join_eq_some_iff.1 hr)).1

theorem Subsection.length_le (d : Subsection) : d.elems.length ≤ d.modes.length := by
  have hsub : d.elems ⊆ List.range d.modes.length := by
    intro a ha
    exact List.mem_range.2 (lt_of_mode (d.allocated a ha))
  have hle := (d.linked.nodup.subperm hsub).length_le
  rwa [List.length_range] at hle

/-- A new element at the head of the list. -/
theorem replaceMode_new (d : Subsection) (name : CString) :
    let d' := replaceMode (d.create name) d.modes.length
    d'.dispModeLst = some d.modes.length ∧ d'.mode d.modes.length = some ⟨name, none⟩ := by
  have hnew : (d.create name).mode d.modes.length = some ⟨name, none⟩ := by
    rw [Display.mode, Display.create, List.getElem?_append_right (Nat.le_refl _), Nat.sub_self]
    rfl
  rw [← hnew]
  apply mode_replaceMode
  intro hhead
  obtain ⟨l, hl, -⟩ := (hhead ▸ d.linked).exists_cons_of_some
  exact absurd (lt_of_mode (d.allocated d.modes.length (hl ▸ .head _))) (Nat.lt_irrefl _)

/-- An element that is found at the head of the list. -/
theorem replaceMode_found (d : Subsection) {x y : List Addr} {a : Addr}
    (hsplit : d.elems = x ++ a :: y) :
    let d' := replaceMode (d.store (d.next a) (behind .dispModeLst x)) a
    d'.dispModeLst = some a ∧ d'.mode a = d.mode a := by
  have hl := d.linked
  have hnd := d.linked.nodup
  rw [hsplit] at hl hnd
  obtain ⟨-, hnda, hdisj⟩ := List.nodup_append.1 hnd
  have hax : a ∉ x := fun h => hdisj a h a (.head _) rfl
  rw [← mode_store (p := d.next a) hax]
  apply mode_replaceMode
  intro hhead
  cases x with
  | nil =>
    have hnext : d.next a = some a := hhead
    have hy : Chain d.next (d.next a) y := hl.of_append
    rw [hnext] at hy
    obtain ⟨z, rfl, -⟩ := hy.exists_cons_of_some
    exact (List.nodup_cons.1 hnda).1 (.head _)
  | cons b x =>
    have hlst : d.dispModeLst = some a := by
      rw [behind_cons, behind] at hhead
      split at hhead <;> exact hhead
    obtain rfl := Option.some.inj (hl.1.symm.trans hlst)
    exact hax (.head _)

theorem named_new {a : Addr} (h : d.mode a = some ⟨name, none⟩) : d.named name a = true := by
  rw [Display.named, h]
  exact decide_eq_true (xf86nameCompare_self name)

/-- A new element is the only one. -/
theorem onlyMode_of_absent (d : Subsection) (name : CString) :
    OnlyMode name (replaceMode (d.create name) d.modes.length) := by
  obtain ⟨hlst, hmode⟩ := replaceMode_new d name
  rw [onlyMode_iff hlst (named_new hmode), Display.next, hmode]
  rfl

/-- An element that is found is the only one if and only if it was the last. -/
theorem onlyMode_found_iff (d : Subsection) {x y : List Addr} {a : Addr}
    (hsplit : d.elems = x ++ a :: y) (ha : d.named name a = true) :
    OnlyMode name (replaceMode (d.store (d.next a) (behind .dispModeLst x)) a) ↔ y = [] := by
  have hl := d.linked
  rw [hsplit] at hl
  have hy : Chain d.next (d.next a) y := hl.of_append
  obtain ⟨hlst, hmode⟩ := replaceMode_found d hsplit
  obtain ⟨hnext, hnamed⟩ := next_congr hmode name
  rw [onlyMode_iff hlst (hnamed.trans ha), hnext, ← Option.not_isSome_iff_eq_none, hy.isSome_iff,
    not_not]

/-- What the call returns where no element has the name. -/
theorem edit_absent (d : Subsection) (hname : ∀ a ∈ d.elems, d.named name a = false) (mem : Mem) :
    editDisplaySubsection (some name) mem d.toDisplay = some (.fbcErrNomem, d.toDisplay, none) ∨
      ∃ line, editDisplaySubsection (some name) mem d.toDisplay =
        some (.fbcSuccess, replaceMode (d.create name) d.modes.length, some line) := by
  have hle := d.length_le
  have hfind := findMode_absent d.linked d.allocated (Nat.lt_succ_of_le hle) hname
  simp only [editDisplaySubsection, hfind]
  split
  · exact .inr ⟨_, rfl⟩
  · exact .inl rfl

/-- What it returns where one has. -/
theorem edit_found (d : Subsection) {x y : List Addr} {a : Addr} (hsplit : d.elems = x ++ a :: y)
    (hname : ∀ b ∈ x, d.named name b = false) (ha : d.named name a = true) (mem : Mem) :
    ∃ line, editDisplaySubsection (some name) mem d.toDisplay = some (.fbcSuccess,
      replaceMode (d.store (d.next a) (behind .dispModeLst x)) a, some line) := by
  have hle := d.length_le
  have hl := d.linked
  have hall := d.allocated
  rw [hsplit] at hl hall hle
  have hlen : x.length < d.modes.length + 1 := by
    rw [List.length_append, List.length_cons] at hle
    omega
  have hfind := findMode_found hl (fun b hb => hall b (List.mem_append_left _ hb)) hlen hname ha
  simp only [editDisplaySubsection, hfind]
  exact ⟨_, rfl⟩

/-- The first element with a name, if there is one. -/
theorem first_cases (d : Subsection) (name : CString) :
    (∀ a ∈ d.elems, d.named name a = false) ∨ ∃ x a y, d.elems = x ++ a :: y ∧
      (∀ b ∈ x, d.named name b = false) ∧ d.named name a = true := by
  cases hfind : d.elems.find? (d.named name) with
  | none =>
    left
    intro a ha
    exact Bool.eq_false_iff.2 (List.find?_eq_none.1 hfind a ha)
  | some a =>
    obtain ⟨ha, x, y, hsplit, hx⟩ := List.find?_eq_some_iff_append.1 hfind
    right
    refine ⟨x, a, y, hsplit, ?_, ha⟩
    intro b hb
    have h := hx b hb
    rwa [Bool.not_eq_true'] at h

/-- A successful call leaves the requested mode active, whatever else is in the list. -/
theorem findActiveModeName_edit (d : Subsection) (name : CString) (mem : Mem) {d' : Display}
    {line : Option Line}
    (h : editDisplaySubsection (some name) mem d.toDisplay = some (.fbcSuccess, d', line)) :
    ∃ m, findActiveModeName d' = some m ∧ xf86nameCompare name.bytes m.bytes = 0 := by
  obtain ⟨a, hlst, hname⟩ : ∃ a, d'.dispModeLst = some a ∧ d'.named name a = true := by
    rcases first_cases d name with habsent | ⟨x, a, y, hsplit, hx, ha⟩
    · rcases edit_absent d habsent mem with hedit | ⟨line, hedit⟩
      · rw [hedit] at h
        exact nomatch h
      · rw [hedit] at h
        obtain ⟨rfl, -⟩ : _ = d' ∧ _ := by simpa using h
        obtain ⟨hlst, hmode⟩ := replaceMode_new d name
        exact ⟨_, hlst, named_new hmode⟩
    · obtain ⟨line, hedit⟩ := edit_found d hsplit hx ha mem
      rw [hedit] at h
      obtain ⟨rfl, -⟩ : _ = d' ∧ _ := by simpa using h
      obtain ⟨hlst, hmode⟩ := replaceMode_found d hsplit
      exact ⟨_, hlst, (next_congr hmode name).2.trans ha⟩
  obtain ⟨r, hr, hcmp⟩ := (Option.any_eq_true ..).1 hname
  refine ⟨r.modeName, ?_, of_decide_eq_true hcmp⟩
  rw [findActiveModeName, hlst, Option.bind_some, hr]
  rfl

/-- The call leaves an element that is found as the only one if and only if it was the last. -/
theorem edit_found_onlyMode_iff (d : Subsection) {x y : List Addr} {a : Addr}
    (hsplit : d.elems = x ++ a :: y) (hname : ∀ b ∈ x, d.named name b = false)
    (ha : d.named name a = true) (mem : Mem) :
    (∃ rc d' line, editDisplaySubsection (some name) mem d.toDisplay = some (rc, d', line) ∧
      (rc = .fbcSuccess → OnlyMode name d')) ↔ y = [] := by
  obtain ⟨line, hedit⟩ := edit_found d hsplit hname ha mem
  rw [← onlyMode_found_iff d hsplit ha, hedit]
  constructor
  · rintro ⟨rc, d', line', heq, honly⟩
    obtain ⟨rfl, rfl, -⟩ : _ = rc ∧ _ = d' ∧ _ := by simpa using heq
    exact honly rfl
  · intro honly
    exact ⟨_, _, _, rfl, fun _ => honly⟩

/-- **The subsection is left with one mode, the requested one**, if and only if no element but the
last has its name. -/
theorem editDisplaySubsection_onlyMode_iff (d : Subsection) (name : CString) (mem : Mem) :
    (∃ rc d' line, editDisplaySubsection (some name) mem d.toDisplay = some (rc, d', line) ∧
      (rc = .fbcSuccess → OnlyMode name d')) ↔
        ∀ a ∈ d.elems.dropLast, d.named name a = false := by
  rcases first_cases d name with habsent | ⟨x, a, y, hsplit, hx, ha⟩
  · refine iff_of_true ?_ fun a ha => habsent a (List.dropLast_subset _ ha)
    rcases edit_absent d habsent mem with hedit | ⟨line, hedit⟩
    · exact ⟨_, _, _, hedit, fun h => nomatch h⟩
    · exact ⟨_, _, _, hedit, fun _ => onlyMode_of_absent d name⟩
  · rw [edit_found_onlyMode_iff d hsplit hx ha, hsplit]
    constructor
    · rintro rfl
      rw [List.dropLast_concat]
      exact hx
    · intro hall
      by_contra hy
      rw [List.dropLast_append_of_ne_nil (List.cons_ne_nil a y), List.dropLast_cons_of_ne_nil hy]
        at hall
      rw [hall a (List.mem_append_right x (.head _))] at ha
      exact nomatch ha

/-- The modes `a` and `b`. -/
def twoModes : Subsection where
  dispModeLst := some 0
  modes := [some ⟨⟨chars "a", by unfold NulFree; decide⟩, some 1⟩,
    some ⟨⟨chars "b", by unfold NulFree; decide⟩, none⟩]
  elems := [0, 1]
  linked := ⟨rfl, rfl, rfl⟩
  allocated := by decide

/-- With the first of two modes requested, its element leads to the other one, which is freed. -/
theorem not_onlyMode : ¬∀ (d : Subsection) (name : CString) (mem : Mem),
    ∃ rc d' line, editDisplaySubsection (some name) mem d.toDisplay = some (rc, d', line) ∧
      (rc = .fbcSuccess → OnlyMode name d') := by
  intro hall
  have hname : twoModes.named ⟨chars "a", by unfold NulFree; decide⟩ 0 = true :=
    decide_eq_true (xf86nameCompare_self _)
  have hnil := (edit_found_onlyMode_iff twoModes (x := []) rfl (fun b hb => nomatch hb) hname
    ⟨true, true⟩).1 (hall twoModes _ _)
  exact nomatch hnil

end DisplayModes
