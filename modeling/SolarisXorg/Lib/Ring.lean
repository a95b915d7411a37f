import Mathlib.Data.List.Chain
import Mathlib.Data.List.Nodup
import Mathlib.Logic.Function.Basic

/-!
# Circular doubly linked lists

`Links A` holds the forward and backward pointer of every list head of type `A`; `none` is the
null pointer. `IsRing L c`: following `next` visits the elements of `c` in order and returns to
the first, and `prev` goes the other way. A position in a ring is a decomposition
`c = p ++ a :: q`; the element after `a` is `succ p a q`.

`Cyc R c` says of any relation that it holds between neighbours of the closed walk through `c`;
data that a component keeps per pair of neighbours is stated with it, and changes with the ring by
`Cyc.insert` and `Cyc.erase`. `IsRing.insertAfter` and `IsRing.unlink` are the two pointer edits;
`insertAfter_unlink` says that the first undoes the second whatever happened to the unlinked
element's own pointers in between.
-/

namespace Lib

variable {A : Type*}

/-! ## Closed walks -/

/-- `R` holds between neighbours of the closed walk through `c`. -/
def Cyc (R : A → A → Prop) (c : List A) : Prop := (c ++ c.take 1).IsChain R

/-- The element after `a` in the closed walk through `p ++ a :: q`. -/
def succ (p : List A) (a : A) (q : List A) : A := (q ++ p).headD a

@[simp] theorem succ_cons (p : List A) (a x : A) (q : List A) : succ p a (x :: q) = x := rfl

theorem succ_append (p : List A) (a x : A) (q : List A) :
    succ (p ++ [a]) x q = succ p a q := by
  cases q with
  | nil => cases p <;> rfl
  | cons y q => rfl

theorem succ_mem (p : List A) (a : A) (q : List A) : succ p a q ∈ p ++ a :: q := by
  unfold succ
  cases q with
  | nil => cases p <;> simp
  | cons y q => simp

/-- The walk behind `a`. -/
theorem walk_eq (p : List A) (a : A) (q : List A) :
    (p ++ a :: q) ++ (p ++ a :: q).take 1 =
      p ++ a :: succ p a q :: (q ++ (p ++ [a]).take 1).tail := by
  cases q with
  | nil => cases p <;> simp [succ]
  | cons y q => cases p <;> simp [succ]

theorem cyc_iff {R : A → A → Prop} {p q : List A} {a : A} :
    Cyc R (p ++ a :: q) ↔
      (p ++ [a]).IsChain R ∧ R a (succ p a q) ∧ (q ++ (p ++ [a]).take 1).IsChain R := by
  have htail : succ p a q :: (q ++ (p ++ [a]).take 1).tail = q ++ (p ++ [a]).take 1 := by
    cases q with
    | nil => cases p <;> simp [succ]
    | cons y q => simp
  rw [Cyc, walk_eq, List.isChain_append_cons_cons, htail]

theorem Cyc.rel_succ {R : A → A → Prop} {p q : List A} {a : A} (h : Cyc R (p ++ a :: q)) :
    R a (succ p a q) := (cyc_iff.1 h).2.1

/-- A chain is kept by a change that respects the pairs it consists of. -/
theorem isChain_imp_dropLast {R S : A → A → Prop} {l : List A}
    (hs : ∀ u ∈ l.dropLast, ∀ v ∈ l, R u v → S u v) (h : l.IsChain R) : l.IsChain S := by
  induction l with
  | nil => exact .nil
  | cons a l ih =>
    cases l with
    | nil => exact .singleton a
    | cons b l =>
      rw [List.isChain_cons_cons] at h ⊢
      refine ⟨hs a (by simp) b (by simp) h.1, ih (fun u hu v hv => ?_) h.2⟩
      exact hs u (by rw [List.dropLast_cons_of_ne_nil (by simp)]; exact .tail _ hu) v (.tail _ hv)

/-- Neighbours other than those `a` belongs to as the first. -/
theorem Cyc.imp_off {R S : A → A → Prop} {p q : List A} {a : A} (h : Cyc R (p ++ a :: q))
    (hs : ∀ u ∈ p ++ q, ∀ v ∈ p ++ a :: q, R u v → S u v) :
    (p ++ [a]).IsChain S ∧ (q ++ (p ++ [a]).take 1).IsChain S := by
  obtain ⟨h1, -, h3⟩ := cyc_iff.1 h
  constructor
  · refine isChain_imp_dropLast (fun u hu v hv => hs u ?_ v ?_) h1
    · rw [List.dropLast_concat] at hu
      exact List.mem_append_left _ hu
    · rcases List.mem_append.1 hv with hv | hv
      · exact List.mem_append_left _ hv
      · exact List.mem_append_right _ (List.mem_singleton.1 hv ▸ .head _)
  · -- the last element of this walk is the first one of the whole
    obtain ⟨y, hy⟩ : ∃ y, (p ++ [a]).take 1 = [y] := by cases p <;> simp
    refine isChain_imp_dropLast (fun u hu v hv => hs u ?_ v ?_) h3
    · rw [hy, List.dropLast_concat] at hu
      exact List.mem_append_right _ hu
    · rcases List.mem_append.1 hv with hv | hv
      · exact List.mem_append_right _ (.tail _ hv)
      · have := List.mem_of_mem_take hv
        simp only [List.mem_append, List.mem_cons, List.not_mem_nil, or_false] at this ⊢
        tauto

/-- A new element `x` behind `a`. -/
theorem Cyc.insert {R S : A → A → Prop} {p q : List A} {a x : A} (h : Cyc R (p ++ a :: q))
    (hs : ∀ u ∈ p ++ q, ∀ v ∈ p ++ a :: q, R u v → S u v) (h1 : S a x)
    (h2 : S x (succ p a q)) : Cyc S (p ++ a :: x :: q) := by
  obtain ⟨h3, h4⟩ := h.imp_off hs
  have hx : p ++ a :: x :: q = (p ++ [a]) ++ x :: q := by simp
  rw [hx, cyc_iff, succ_append]
  refine ⟨?_, h2, ?_⟩
  · rw [List.append_assoc, List.singleton_append, List.isChain_append_cons_cons]
    exact ⟨h3, h1, .singleton x⟩
  · rw [List.take_append_of_le_length (by simp)]
    exact h4

/-- The element `x` behind `a` removed. -/
theorem Cyc.erase {R S : A → A → Prop} {p q : List A} {a x : A} (h : Cyc R (p ++ a :: x :: q))
    (hs : ∀ u ∈ p ++ q, ∀ v ∈ p ++ a :: q, R u v → S u v) (h1 : S a (succ p a q)) :
    Cyc S (p ++ a :: q) := by
  have hx : p ++ a :: x :: q = (p ++ [a]) ++ x :: q := by simp
  have hpx := h
  rw [hx, cyc_iff, List.take_append_of_le_length (by simp)] at hpx
  obtain ⟨h3, -, h4⟩ := hpx
  rw [List.append_assoc, List.singleton_append, List.isChain_append_cons_cons] at h3
  obtain ⟨y, hy⟩ : ∃ y, (p ++ [a]).take 1 = [y] := by cases p <;> simp
  have hym : y ∈ p ++ [a] := List.mem_of_mem_take (by rw [hy]; exact .head _)
  rw [cyc_iff]
  refine ⟨isChain_imp_dropLast (fun u hu v hv => hs u ?_ v ?_) h3.1, h1,
    isChain_imp_dropLast (fun u hu v hv => hs u ?_ v ?_) h4⟩
  · rw [List.dropLast_concat] at hu
    exact List.mem_append_left _ hu
  · simp only [List.mem_append, List.mem_cons, List.not_mem_nil, or_false] at hv ⊢
    tauto
  · rw [hy, List.dropLast_concat] at hu
    exact List.mem_append_right _ hu
  · rw [hy] at hv
    simp only [List.mem_append, List.mem_cons, List.not_mem_nil, or_false] at hv hym ⊢
    rcases hv with hv | rfl
    · tauto
    · tauto

/-! ## Pointers -/

/-- The pointers of the list heads; `none` is null. -/
structure Links (A : Type*) where
  next : A → Option A
  prev : A → Option A

/-- `b` follows `a`, in both directions. -/
def Links.Adj (L : Links A) (a b : A) : Prop := L.next a = some b ∧ L.prev b = some a

/-- The pointers run round the elements of `c`, each once. -/
structure IsRing (L : Links A) (c : List A) : Prop where
  adj : Cyc L.Adj c
  nodup : c.Nodup

theorem IsRing.next {L : Links A} {p q : List A} {a : A} (h : IsRing L (p ++ a :: q)) :
    L.next a = some (succ p a q) := h.adj.rel_succ.1

theorem IsRing.prev {L : Links A} {p q : List A} {a x : A} (h : IsRing L (p ++ a :: x :: q)) :
    L.prev x = some a := h.adj.rel_succ.2

/-- Every element of a ring is followed by one of its elements. -/
theorem IsRing.next_mem {L : Links A} {c : List A} (h : IsRing L c) {a b : A} (ha : a ∈ c)
    (hb : L.next a = some b) : b ∈ c := by
  obtain ⟨p, q, rfl⟩ := List.append_of_mem ha
  rw [h.next] at hb
  cases hb
  exact succ_mem p a q

/-- The element behind the one at position `k`, counted round. -/
theorem IsRing.next_getElem? {L : Links A} {l : List A} (h : IsRing L l) {k : Nat} {a : A}
    (ha : l[k]? = some a) : L.next a = l[(k + 1) % l.length]? := by
  obtain ⟨hk, rfl⟩ := List.getElem?_eq_some_iff.1 ha
  have hl : l = l.take k ++ l[k] :: l.drop (k + 1) := by simp
  have hnext : L.next l[k] = some (succ (l.take k) l[k] (l.drop (k + 1))) :=
    IsRing.next (hl ▸ h)
  rw [hnext]
  rcases Nat.lt_or_ge (k + 1) l.length with hlt | hge
  · rw [Nat.mod_eq_of_lt hlt, List.drop_eq_getElem_cons hlt, succ_cons, List.getElem?_eq_getElem hlt]
  · have hlast : k + 1 = l.length := by omega
    rw [hlast, Nat.mod_self, List.drop_length]
    cases l with
    | nil => cases hk
    | cons b l =>
      cases k with
      | zero => rfl
      | succ k => rfl

/-- A ring does not depend on the pointers of other elements. -/
theorem IsRing.frame {L L' : Links A} {c : List A} (h : IsRing L c)
    (hnext : ∀ u ∈ c, L'.next u = L.next u) (hprev : ∀ u ∈ c, L'.prev u = L.prev u) :
    IsRing L' c := by
  have hsub : ∀ u ∈ c ++ c.take 1, u ∈ c := by
    intro u hu
    rcases List.mem_append.1 hu with hu | hu
    · exact hu
    · exact List.mem_of_mem_take hu
  refine ⟨isChain_imp_dropLast (fun u hu v hv huv => ?_) h.adj, h.nodup⟩
  rw [Links.Adj, hnext u (hsub u (List.dropLast_subset _ hu)), hprev v (hsub v hv)]
  exact huv

variable [DecidableEq A]

namespace Links

/-- `a->next = b` -/
def setNext (L : Links A) (a : A) (b : Option A) : Links A :=
  { L with next := Function.update L.next a b }

/-- `a->prev = b` -/
def setPrev (L : Links A) (a : A) (b : Option A) : Links A :=
  { L with prev := Function.update L.prev a b }

/-- Link `x` in behind `a`; no result where `a` has no successor to relink. -/
def insertAfter (L : Links A) (x a : A) : Option (Links A) :=
  match L.next a with
  | none => none
  | some b => some ((((L.setPrev x (some a)).setNext x (some b)).setPrev b (some x)).setNext a (some x))

/-- Take `x` out and clear its pointers; no result where one of them is null. -/
def unlink (L : Links A) (x : A) : Option (Links A) :=
  match L.next x, L.prev x with
  | some b, some a => some ((((L.setPrev b (some a)).setNext a (some b)).setPrev x none).setNext x none)
  | _, _ => none

end Links

/-- **Linking in.** -/
theorem IsRing.insertAfter {L : Links A} {p q : List A} {a x : A} (h : IsRing L (p ++ a :: q))
    (hx : x ∉ p ++ a :: q) :
    ∃ L', L.insertAfter x a = some L' ∧ IsRing L' (p ++ a :: x :: q) := by
  have hn := h.nodup
  have hb : succ p a q ≠ x := fun e => hx (e ▸ succ_mem p a q)
  have hax : a ≠ x := fun e => hx (e ▸ List.mem_append_right _ (.head _))
  refine ⟨_, by rw [Links.insertAfter, h.next], ?_, ?_⟩
  · refine h.adj.insert (fun u hu v hv huv => ?_) ?_ ?_
    · have hua : u ≠ a := by
        rintro rfl
        rw [List.nodup_middle, List.nodup_cons] at hn
        exact hn.1 hu
      have hux : u ≠ x := by
        rintro rfl
        exact hx (by simp only [List.mem_append, List.mem_cons] at hu ⊢; tauto)
      have hvx : v ≠ x := fun e => hx (e ▸ hv)
      have hvb : v ≠ succ p a q := by
        rintro rfl
        exact hua (Option.some.inj (huv.2.symm.trans h.adj.rel_succ.2))
      simp only [Links.Adj, Links.setNext, Links.setPrev, Function.update_of_ne hua,
        Function.update_of_ne hux, Function.update_of_ne hvx, Function.update_of_ne hvb]
      exact huv
    · simp only [Links.Adj, Links.setNext, Links.setPrev, Function.update_self,
        Function.update_of_ne hb.symm]
      exact ⟨trivial, trivial⟩
    · simp only [Links.Adj, Links.setNext, Links.setPrev, Function.update_self,
        Function.update_of_ne hax.symm]
      exact ⟨trivial, trivial⟩
  · rw [List.nodup_middle, List.nodup_cons] at hn ⊢
    refine ⟨fun hm => ?_, ?_⟩
    · simp only [List.mem_append, List.mem_cons] at hm
      rcases hm with hm | rfl | hm
      · exact hn.1 (List.mem_append_left _ hm)
      · exact hax rfl
      · exact hn.1 (List.mem_append_right _ hm)
    · rw [List.nodup_middle, List.nodup_cons]
      refine ⟨fun hm => hx ?_, hn.2⟩
      simp only [List.mem_append, List.mem_cons] at hm ⊢
      tauto

/-- **Taking out.** -/
theorem IsRing.unlink {L : Links A} {p q : List A} {a x : A} (h : IsRing L (p ++ a :: x :: q)) :
    ∃ L', L.unlink x = some L' ∧ IsRing L' (p ++ a :: q) := by
  have hn := h.nodup
  have hcut : p ++ a :: x :: q = (p ++ [a]) ++ x :: q := by simp
  have hnext : L.next x = some (succ p a q) := by
    rw [hcut] at h
    rw [h.next, succ_append]
  have hprev := h.prev
  have hbprev : L.prev (succ p a q) = some x := by
    rw [hcut] at h
    have := h.adj.rel_succ.2
    rwa [succ_append] at this
  rw [hcut, List.nodup_middle, List.nodup_cons, List.append_assoc, List.singleton_append] at hn
  have hxb : succ p a q ≠ x := fun e => hn.1 (e ▸ succ_mem p a q)
  have hxa : a ≠ x := fun e => hn.1 (e ▸ List.mem_append_right _ (.head _))
  refine ⟨_, by rw [Links.unlink, hnext, hprev], ?_, hn.2⟩
  refine h.adj.erase (fun u hu v hv huv => ?_) ?_
  · have hua : u ≠ a := by
      rintro rfl
      exact (List.nodup_cons.1 (List.nodup_middle.1 hn.2)).1 hu
    have hux : u ≠ x := by
      rintro rfl
      exact hn.1 (by simp only [List.mem_append, List.mem_cons] at hu ⊢; tauto)
    have hvx : v ≠ x := fun e => hn.1 (e ▸ hv)
    have hvb : v ≠ succ p a q := by
      rintro rfl
      exact hux (Option.some.inj (huv.2.symm.trans hbprev))
    simp only [Links.Adj, Links.setNext, Links.setPrev, Function.update_of_ne hua,
      Function.update_of_ne hux, Function.update_of_ne hvx, Function.update_of_ne hvb]
    exact huv
  · simp only [Links.Adj, Links.setNext, Links.setPrev, Function.update_self,
      Function.update_of_ne hxa, Function.update_of_ne hxb]
    exact ⟨trivial, trivial⟩

/-- **Undo.** Linking `x` back in behind the element it was taken from restores every pointer,
whatever its own pointers `n` and `m` were set to in between. -/
theorem insertAfter_unlink {L L' : Links A} {a x b : A} (hax : L.Adj a x) (hxb : L.Adj x b)
    (hne : a ≠ x) (hbx : b ≠ x) (h : L.unlink x = some L') (n m : Option A) :
    ((L'.setPrev x n).setNext x m).insertAfter x a = some L := by
  rw [Links.unlink, hxb.1, hax.2] at h
  cases h
  simp only [Links.insertAfter, Links.setNext, Links.setPrev, Function.update_of_ne hne,
    Function.update_self, Option.some.injEq]
  rcases L with ⟨next, prev⟩
  simp only [Links.Adj] at hax hxb
  congr 1
  · funext y
    by_cases h1 : y = a
    · subst h1
      simp [hax.1]
    · by_cases h2 : y = x
      · subst h2
        simp [h1, hxb.1]
      · simp [h1, h2]
  · funext y
    by_cases h1 : y = b
    · subst h1
      simp [hxb.2]
    · by_cases h2 : y = x
      · subst h2
        simp [h1, hax.2]
      · simp [h1, h2]

end Lib
