import Mathlib.Data.List.Nodup
import SolarisXorg.Fbconf.EditConfig

/-!
# Identifiers, records and lists of a configuration in memory

The identifier of a new section is a new one while there are fewer than `2 ^ 32` sections of its kind
(`uniqueIdentifier_fresh`). `Heap.list_eq_some` reads a list through its links, and
`addListItem_eq_ok` says what `xf86addListItem` writes: one link that was `NULL`. So no link that is
not `NULL` is ever written (`Keeps`), and a list that leads to the configuration itself (`Loops`)
stays so.
-/

namespace EditConfig

open Lib Fbc

variable {h h' h₁ : Heap} {a b : Addr} {p : Option Addr} {l : List Addr} {r : Rec}

/-! ## New identifiers -/

/-- The decimal digits of a number are compared as they are. -/
theorem nameKey_append_digits (s : Str) (n : Nat) :
    nameKey (s ++ chars (toString n)) = nameKey s ++ chars (toString n) := by
  have hdigit : ∀ k < 58, 48 ≤ k →
      isIgnored (UInt8.ofNat k) = false ∧ tolower (UInt8.ofNat k) = UInt8.ofNat k := by decide
  have hd : ∀ b ∈ chars (toString n), isIgnored b = false ∧ tolower b = b := by
    intro b hb
    simp only [chars, Nat.toString_eq_repr, Nat.toList_repr, List.mem_map] at hb
    obtain ⟨c, hc, rfl⟩ := hb
    obtain ⟨h1, h2⟩ := toNat_of_mem_toDigits hc
    exact hdigit _ h2 h1
  rw [nameKey, List.filter_append, List.map_append, ← nameKey]
  congr 1
  rw [List.filter_eq_self.2 fun b hb => by simp [(hd b hb).1]]
  exact (List.map_congr_left fun b hb => (hd b hb).2).trans (List.map_id _)

theorem chars_toString_injective {m n : Nat} (h : chars (toString m) = chars (toString n)) :
    m = n := by
  have hback : ∀ k, (chars (toString k)).map (fun b => Char.ofNat b.toNat) = Nat.toDigits 10 k := by
    intro k
    rw [chars, Nat.toString_eq_repr, Nat.toList_repr, List.map_map]
    refine (List.map_congr_left fun c hc => ?_).trans (List.map_id _)
    obtain ⟨-, h2⟩ := toNat_of_mem_toDigits hc
    simp only [Function.comp_apply, UInt8.toNat_ofNat', id_eq]
    rw [Nat.mod_eq_of_lt (by omega), Char.ofNat_toNat]
  rw [← Nat.ofDigitChars_ten_toDigits (n := m), ← hback, h, hback, Nat.ofDigitChars_ten_toDigits]

/-- The identifiers that are tried are pairwise different. -/
theorem nameKey_identifier_injective (tmpl : Str) {i j : Nat}
    (h : nameKey (identifier tmpl i) = nameKey (identifier tmpl j)) : i = j := by
  have hkey : ∀ i, nameKey (identifier tmpl i) =
      nameKey tmpl ++ if i = 0 then [] else chars (toString i) := by
    intro i
    rw [identifier]
    split
    · simp
    · rw [nameKey_append_digits]
      simp [nameKey, isIgnored, chars]
  rw [hkey, hkey] at h
  have hne : ∀ k : Nat, chars (toString k) ≠ [] := by
    intro k hk
    simp [chars, Nat.toString_eq_repr, Nat.toList_repr] at hk
  have h := List.append_cancel_left h
  split at h <;> split at h
  · omega
  · exact absurd h.symm (hne j)
  · exact absurd h (hne i)
  · exact chars_toString_injective h

/-- The loop ends at an identifier that is not taken, if there is one before the counter wraps. -/
theorem uniqueIdentifierFrom_fresh {tmpl : Str} {taken : List Str} {fuel i j : Nat} (hij : i ≤ j)
    (hj : j < 2 ^ 32) (hfree : ∀ t ∈ taken, nameEq (identifier tmpl j) t = false)
    (hfuel : j < i + fuel) :
    ∀ t ∈ taken, nameEq (uniqueIdentifierFrom tmpl taken fuel i) t = false := by
  induction fuel generalizing i with
  | zero => omega
  | succ fuel ih =>
    rw [uniqueIdentifierFrom]
    split
    case isTrue hany =>
      have hne : i ≠ j := by
        rintro rfl
        obtain ⟨t, ht, he⟩ := List.any_eq_true.1 hany
        rw [hfree t ht] at he
        cases he
      have hw : ¬ (i + 1) % 2 ^ 32 = 0 := by
        rw [Nat.mod_eq_of_lt (by omega)]
        omega
      rw [if_neg hw]
      exact ih (by omega) (by omega)
    case isFalse hany =>
      intro t ht
      by_contra he
      exact hany (List.any_eq_true.2 ⟨t, ht, by simpa using he⟩)

/-- With fewer than `2 ^ 32` sections of a kind, the identifier of a new one is different from
theirs. -/
theorem uniqueIdentifier_fresh {tmpl : Str} {taken : List Str} (hlen : taken.length < 2 ^ 32) :
    ∀ t ∈ taken, nameEq (uniqueIdentifier tmpl taken) t = false := by
  obtain ⟨j, hj, hfree⟩ : ∃ j < 2 ^ 32, ∀ t ∈ taken, nameEq (identifier tmpl j) t = false := by
    by_contra hno
    have hnd : ((List.range (2 ^ 32)).map fun j => nameKey (identifier tmpl j)).Nodup :=
      List.Nodup.map (fun i j => nameKey_identifier_injective tmpl) List.nodup_range
    have hsub : ((List.range (2 ^ 32)).map fun j => nameKey (identifier tmpl j)) ⊆
        taken.map nameKey := by
      intro key hkey
      obtain ⟨j, hj, rfl⟩ := List.mem_map.1 hkey
      by_contra hn
      refine hno ⟨j, List.mem_range.1 hj, fun t ht => ?_⟩
      simp only [nameEq, decide_eq_false_iff_not]
      intro he
      exact hn (he ▸ List.mem_map_of_mem ht)
    have hle := hnd.length_le_of_subset hsub
    simp only [List.length_map, List.length_range] at hle
    omega
  exact uniqueIdentifierFrom_fresh (Nat.zero_le j) hj hfree (by omega)

/-! ## Records -/

theorem deref_eq_ok {α : Type} {x : Option α} {y : α} : deref x = .ok y ↔ x = some y := by
  cases x <;> simp [deref]

theorem bind_eq_ok {α β : Type} {x : Except Stop α} {f : α → Except Stop β} {y : β} :
    x >>= f = .ok y ↔ ∃ z, x = .ok z ∧ f z = .ok y := by
  cases x <;> simp [bind, Except.bind]

theorem alloc_eq_ok {s : Bool} {u : Unit} : alloc s = .ok u ↔ s = true := by
  cases s <;> simp [alloc]

theorem bind_eq_nomem {α β : Type} {x : Except Stop α} {f : α → Except Stop β} :
    x >>= f = .error .nomem ↔ x = .error .nomem ∨ ∃ z, x = .ok z ∧ f z = .error .nomem := by
  cases x <;> simp [bind, Except.bind]

theorem deref_ne_nomem {α : Type} {x : Option α} : deref x ≠ .error .nomem := by
  cases x <;> simp [deref]

theorem alloc_eq_nomem {s : Bool} : alloc s = .error .nomem ↔ s = false := by
  cases s <;> simp [alloc]

theorem attempt_eq_some {α : Type} {x : Except Stop α} {y : α} :
    attempt x = .ok (some y) ↔ x = .ok y := by
  rcases x with (_ | _) | _ <;> simp [attempt]

theorem attempt_eq_none {α : Type} {x : Except Stop α} :
    attempt x = .ok none ↔ x = .error .nomem := by
  rcases x with (_ | _) | _ <;> simp [attempt]

namespace Heap

theorem device_eq_some {d : DeviceRec} : h.device a = some d ↔ h[a]? = some (.device d) := by
  rw [device]
  rcases h[a]? with _ | (_ | _ | _ | _ | _ | _ | _) <;> simp [Rec.device?]

theorem screen_eq_some {s : ScreenRec} : h.screen a = some s ↔ h[a]? = some (.screen s) := by
  rw [screen]
  rcases h[a]? with _ | (_ | _ | _ | _ | _ | _ | _) <;> simp [Rec.screen?]

theorem monitor_eq_some {m : MonitorRec} : h.monitor a = some m ↔ h[a]? = some (.monitor m) := by
  rw [monitor]
  rcases h[a]? with _ | (_ | _ | _ | _ | _ | _ | _) <;> simp [Rec.monitor?]

theorem monitorEntry_eq_some {e : MonitorEntryRec} :
    h.monitorEntry a = some e ↔ h[a]? = some (.monitorEntry e) := by
  rw [monitorEntry]
  rcases h[a]? with _ | (_ | _ | _ | _ | _ | _ | _) <;> simp [Rec.monitorEntry?]

theorem display_eq_some {d : DisplayRec} : h.display a = some d ↔ h[a]? = some (.display d) := by
  rw [display]
  rcases h[a]? with _ | (_ | _ | _ | _ | _ | _ | _) <;> simp [Rec.display?]

theorem config_eq_some {c : ConfigRec} : h.config a = some c ↔ h[a]? = some (.config c) := by
  rw [config]
  rcases h[a]? with _ | (_ | _ | _ | _ | _ | _ | _) <;> simp [Rec.config?]

/-- The link at `a`, `NULL` where there is no record. -/
def next (h : Heap) (a : Addr) : Option Addr := (h.link a).join

theorem next_of_getElem? (hr : h[a]? = some r) : h.next a = r.next := by
  simp [next, link, hr]

theorem isSome_link : (h.link a).isSome ↔ a < h.length := by
  simp [link]

/-- A list is what its links lead through, to the end. -/
theorem list_eq_some : h.list p = some l ↔ Chain h.next p l ∧ ∀ a ∈ l, a < h.length := by
  constructor
  · intro hl
    obtain ⟨hc, ha⟩ := chain_of_readList hl
    exact ⟨hc, fun a hm => isSome_link.1 (ha a hm)⟩
  · rintro ⟨hc, ha⟩
    apply readList_of_chain hc (fun a hm => isSome_link.2 (ha a hm))
    have hsub : l ⊆ List.range h.length := fun a hm => List.mem_range.2 (ha a hm)
    simpa using hc.nodup.length_le_of_subset hsub

/-- A list is the same where the links of its elements are. -/
theorem list_congr (hl : h.list p = some l) (ha : ∀ a ∈ l, h'.link a = h.link a) :
    h'.list p = some l := by
  obtain ⟨hc, hlt⟩ := list_eq_some.1 hl
  refine list_eq_some.2 ⟨hc.congr fun a hm => ?_, fun a hm => ?_⟩
  · rw [next, ha a hm, next]
  · rw [← isSome_link, ha a hm, isSome_link]
    exact hlt a hm

theorem list_cons (hr : h[a]? = some r) (hl : h.list r.next = some l) :
    h.list (some a) = some (a :: l) := by
  obtain ⟨hc, hlt⟩ := list_eq_some.1 hl
  refine list_eq_some.2 ⟨⟨rfl, by rwa [next_of_getElem? hr]⟩, fun b hb => ?_⟩
  obtain rfl | hb := List.mem_cons.1 hb
  · exact (List.getElem?_eq_some_iff.1 hr).1
  · exact hlt b hb

theorem getElem?_append_of_some {r' : Rec} (hr : h[a]? = some r) : (h ++ [r'])[a]? = some r := by
  obtain ⟨hlt, -⟩ := List.getElem?_eq_some_iff.1 hr
  rw [List.getElem?_append_left hlt, hr]

theorem next_append_length : Heap.next (h ++ [r]) h.length = r.next :=
  next_of_getElem? (by simp)

theorem next_append_of_some {r' : Rec} {q : Addr} (hq : h.next a = some q) :
    Heap.next (h ++ [r']) a = some q := by
  cases hr : h[a]? with
  | none => simp [next, link, hr] at hq
  | some r =>
    rw [next_of_getElem? hr] at hq
    rw [next_of_getElem? (getElem?_append_of_some hr), hq]

theorem getElem?_modify_of_some {f : Rec → Rec} (hr : h[b]? = some r) :
    (h.modify a f)[b]? = some (if a = b then f r else r) := by
  rw [List.getElem?_modify, hr]
  rfl

/-- A write that leaves the links alone. -/
theorem link_modify {f : Rec → Rec} (hf : ∀ r, (f r).next = r.next) :
    Heap.link (h.modify a f) = h.link := by
  funext b
  cases hr : h[b]? with
  | none => simp [link, List.getElem?_modify, hr]
  | some r =>
    rw [link, getElem?_modify_of_some hr, link, hr]
    split <;> simp [hf]

theorem next_modify {f : Rec → Rec} (hf : ∀ r, (f r).next = r.next) :
    Heap.next (h.modify a f) = h.next := by
  funext b
  rw [next, link_modify hf, next]

@[simp] theorem next_setNext (r : Rec) (q : Option Addr) : (r.setNext q).next = q := by
  cases r <;> rfl

theorem link_modify_setNext {q : Option Addr} (hb : b ≠ a) :
    Heap.link (h.modify a (Rec.setNext q)) b = h.link b := by
  simp [link, hb.symm]

theorem next_modify_setNext {q : Option Addr} (ha : a < h.length) :
    Heap.next (h.modify a (Rec.setNext q)) = Function.update h.next a q := by
  funext b
  by_cases hb : b = a
  · subst hb
    rw [next_of_getElem? (getElem?_modify_of_some (List.getElem?_eq_getElem ha))]
    simp
  · rw [next, link_modify_setNext hb, Function.update_of_ne hb, next]

end Heap

/-! ## Appending to a list -/

theorem addListItem_eq_ok {new : Addr} {x : Option Addr × Heap}
    (hr : addListItem h p new = .ok x) :
    ∃ l, h.list p = some l ∧ (l = [] ∧ x = (some new, h) ∨
      ∃ init last, l = init ++ [last] ∧ x = (p, h.modify last (Rec.setNext (some new)))) := by
  rw [addListItem, bind_eq_ok] at hr
  obtain ⟨l, hl, hr⟩ := hr
  refine ⟨l, deref_eq_ok.1 hl, ?_⟩
  rcases List.eq_nil_or_concat l with rfl | ⟨init, last, rfl⟩
  · cases hr
    exact .inl ⟨rfl, rfl⟩
  · simp only [List.concat_eq_append, List.getLast?_append, List.getLast?_singleton,
      Option.some_or, Except.ok.injEq] at hr
    exact .inr ⟨init, last, by simp, hr.symm⟩

theorem addListItem_ne_nomem {new : Addr} : addListItem h p new ≠ .error .nomem := by
  intro hr
  rw [addListItem, bind_eq_nomem] at hr
  obtain hr | ⟨l, -, hr⟩ := hr
  · exact deref_ne_nomem hr
  · split at hr <;> cases hr

/-- What was appended comes after the elements of the list. -/
theorem leads_addListItem {new : Addr} {x : Option Addr × Heap}
    (hr : addListItem h p new = .ok x) :
    ∃ l, h.list p = some l ∧ Leads x.2.next x.1 l (some new) := by
  obtain ⟨l, hl, ⟨rfl, rfl⟩ | ⟨init, last, rfl, rfl⟩⟩ := addListItem_eq_ok hr
  · exact ⟨[], hl, rfl⟩
  · obtain ⟨hc, hlt⟩ := Heap.list_eq_some.1 hl
    refine ⟨_, hl, ?_⟩
    rw [Heap.next_modify_setNext (hlt last (by simp))]
    exact hc.leads_update

section AddListItem

variable {new : Addr} {x : Option Addr × Heap} (hr : addListItem h p new = .ok x)
include hr

theorem length_addListItem : x.2.length = h.length := by
  obtain ⟨l, -, ⟨rfl, rfl⟩ | ⟨init, last, rfl, rfl⟩⟩ := addListItem_eq_ok hr
  · rfl
  · simp

/-- A record of the list is at most written in its link. -/
theorem exists_setNext_addListItem (ha : h[a]? = some r) :
    ∃ q, x.2[a]? = some (r.setNext q) := by
  have hq : r.setNext r.next = r := by cases r <;> rfl
  obtain ⟨l', hl', ⟨rfl, rfl⟩ | ⟨init, last, rfl, rfl⟩⟩ := addListItem_eq_ok hr
  · exact ⟨r.next, by rw [ha, hq]⟩
  · by_cases hne : last = a
    · exact ⟨some new, by rw [Heap.getElem?_modify_of_some ha, if_pos hne]⟩
    · exact ⟨r.next, by rw [Heap.getElem?_modify_of_some ha, if_neg hne, hq]⟩

variable (hl : h.list p = some l)
include hl

/-- The records that are not in the list are not written. -/
theorem getElem?_addListItem (ha : a ∉ l) : x.2[a]? = h[a]? := by
  obtain ⟨l', hl', ⟨rfl, rfl⟩ | ⟨init, last, rfl, rfl⟩⟩ := addListItem_eq_ok hr
  · rfl
  · obtain rfl := Option.some.inj (hl'.symm.trans hl)
    have hne : last ≠ a := by
      rintro rfl
      exact ha (by simp)
    exact List.getElem?_modify_ne _ h hne

/-- A new record at the end of a list. -/
theorem list_addListItem (hnew : h[new]? = some r) (hnull : r.next = none) (hm : new ∉ l) :
    x.2.list x.1 = some (l ++ [new]) := by
  obtain ⟨l', hl', hle⟩ := leads_addListItem hr
  obtain rfl := Option.some.inj (hl'.symm.trans hl)
  have hend : Chain x.2.next (some new) [new] := by
    refine ⟨rfl, ?_⟩
    rw [Heap.next_of_getElem? ((getElem?_addListItem hr hl hm).trans hnew)]
    exact hnull
  refine Heap.list_eq_some.2 ⟨hle.chain_append hend, fun a ha => ?_⟩
  rw [length_addListItem hr]
  rcases List.mem_append.1 ha with ha | ha
  · exact (Heap.list_eq_some.1 hl).2 a ha
  · obtain rfl := List.mem_singleton.1 ha
    exact (List.getElem?_eq_some_iff.1 hnew).1

end AddListItem

/-! ## What no step of the program undoes -/

/-- The links that are not `NULL` are as before, and so is the list `lst` of a configuration. -/
structure Keeps (lst : ConfigRec → Option Addr) (h h' : Heap) : Prop where
  next : ∀ a q, h.next a = some q → h'.next a = some q
  config : ∀ a c, h.config a = some c → ∃ c', h'.config a = some c' ∧ lst c' = lst c

namespace Keeps

variable {lst : ConfigRec → Option Addr}

theorem refl (h : Heap) : Keeps lst h h :=
  ⟨fun _ _ hq => hq, fun _ c hc => ⟨c, hc, rfl⟩⟩

theorem trans (k : Keeps lst h h₁) (k' : Keeps lst h₁ h') : Keeps lst h h' := by
  refine ⟨fun a q hq => k'.next a q (k.next a q hq), fun a c hc => ?_⟩
  obtain ⟨c₁, hc₁, he₁⟩ := k.config a c hc
  obtain ⟨c', hc', he'⟩ := k'.config a c₁ hc₁
  exact ⟨c', hc', he'.trans he₁⟩

theorem append (h : Heap) (r : Rec) : Keeps lst h (h ++ [r]) := by
  refine ⟨fun a q hq => Heap.next_append_of_some hq, fun a c hc => ⟨c, ?_, rfl⟩⟩
  rw [Heap.config_eq_some] at hc ⊢
  exact Heap.getElem?_append_of_some hc

/-- A write to the record at `a` that leaves the list alone, and the link if there is one. -/
theorem modify {f : Rec → Rec} (hf : h.next a = none ∨ ∀ r, (f r).next = r.next)
    (hc : ∀ c, ∃ c', f (.config c) = .config c' ∧ lst c' = lst c) : Keeps lst h (h.modify a f) := by
  refine ⟨fun b q hq => ?_, fun b c hb => ?_⟩
  · obtain hn | hf := hf
    · have hb : a ≠ b := by
        rintro rfl
        rw [hn] at hq
        cases hq
      rw [Heap.next, Heap.link, List.getElem?_modify_ne f h hb]
      exact hq
    · rw [Heap.next_modify hf, hq]
  · rw [Heap.config_eq_some] at hb
    obtain ⟨c', hc', he⟩ := hc c
    by_cases hab : a = b
    · refine ⟨c', ?_, he⟩
      rw [Heap.config_eq_some, Heap.getElem?_modify_of_some hb, if_pos hab, hc']
    · refine ⟨c, ?_, rfl⟩
      rw [Heap.config_eq_some, Heap.getElem?_modify_of_some hb, if_neg hab]

theorem setDevice {f : DeviceRec → DeviceRec} (hf : ∀ d, (f d).next = d.next) :
    Keeps lst h (setDevice h a f) := by
  refine modify (.inr fun r => ?_) fun c => ⟨c, rfl, rfl⟩
  cases r <;> simp [Rec.next, hf]

theorem setScreen {f : ScreenRec → ScreenRec} (hf : ∀ s, (f s).next = s.next) :
    Keeps lst h (setScreen h a f) := by
  refine modify (.inr fun r => ?_) fun c => ⟨c, rfl, rfl⟩
  cases r <;> simp [Rec.next, hf]

theorem setConfig {f : ConfigRec → ConfigRec} (hf : ∀ c, (f c).confFiles = c.confFiles)
    (hc : ∀ c, lst (f c) = lst c) : Keeps lst h (setConfig h a f) := by
  refine modify (.inr fun r => ?_) fun c => ⟨f c, rfl, hc c⟩
  cases r <;> simp [Rec.next, hf]

/-- Only the link of the last element is written, and that one was `NULL`. -/
theorem addListItem {new : Addr} {x : Option Addr × Heap}
    (hlst : ∀ c q, lst { c with confFiles := q } = lst c)
    (hr : addListItem h p new = .ok x) : Keeps lst h x.2 := by
  obtain ⟨l, hl, ⟨rfl, rfl⟩ | ⟨init, last, rfl, rfl⟩⟩ := addListItem_eq_ok hr
  · exact refl h
  · obtain ⟨hc, hlt⟩ := Heap.list_eq_some.1 hl
    have hend : h.next last = none := hc.of_append
    refine ⟨fun a q hq => ?_, fun a c hc => ?_⟩
    · have ha : a ≠ last := by
        rintro rfl
        rw [hend] at hq
        cases hq
      rw [Heap.next_modify_setNext (hlt last (by simp)), Function.update_of_ne ha, hq]
    · rw [Heap.config_eq_some] at hc
      by_cases ha : last = a
      · refine ⟨{ c with confFiles := some new }, ?_, hlst c _⟩
        rw [Heap.config_eq_some, Heap.getElem?_modify_of_some hc, if_pos ha]
        rfl
      · refine ⟨c, ?_, rfl⟩
        rw [Heap.config_eq_some, Heap.getElem?_modify_of_some hc, if_neg ha]

end Keeps

/-- The list `lst` of the configuration leads to the configuration itself. -/
def Loops (lst : ConfigRec → Option Addr) (h : Heap) (configIR : Addr) : Prop :=
  ∃ c l, h.config configIR = some c ∧ Leads h.next (lst c) l (some configIR)

namespace Loops

variable {lst : ConfigRec → Option Addr} {configIR : Addr}

theorem keeps (hl : Loops lst h configIR) (k : Keeps lst h h') : Loops lst h' configIR := by
  obtain ⟨c, l, hc, hl⟩ := hl
  obtain ⟨c', hc', he⟩ := k.config _ _ hc
  refine ⟨c', l, hc', ?_⟩
  rw [he]
  exact hl.keep k.next

/-- Such a list is not one of sections. -/
theorem not_listed {ident : Heap → Addr → Option Str} {sectn : Option Addr}
    (hi : ∀ a c, h'.config a = some c → ident h' a = none) (hl : Loops lst h' configIR) :
    ¬ Listed ident lst h h' configIR sectn := by
  rintro ⟨_, c', old, new, _, -, hc', -, hnew, -, -, hk⟩
  obtain ⟨c, l, hc, hl⟩ := hl
  obtain rfl : c = c' := Option.some.inj (hc.symm.trans hc')
  have hm := hl.mem_chain (Heap.list_eq_some.1 hnew).1
  have hs := hk.kind _ hm
  rw [hi _ _ hc] at hs
  cases hs

/-- `xf86addListItem` with the configuration for the item. -/
theorem addListItem {c : ConfigRec} {x : Option Addr × Heap} (f : ConfigRec → ConfigRec)
    (hc : h.config configIR = some c) (hr : addListItem h (lst c) configIR = .ok x)
    (hf : ∀ c, (f c).confFiles = c.confFiles) (hl : ∀ c, lst (f c) = x.1) :
    Loops lst (setConfig x.2 configIR f) configIR := by
  obtain ⟨l, -, hle⟩ := leads_addListItem hr
  have hk : Keeps (fun _ => none) h x.2 := Keeps.addListItem (fun _ _ => rfl) hr
  have hk' : Keeps (fun _ => none) x.2 (setConfig x.2 configIR f) :=
    Keeps.setConfig hf fun _ => rfl
  obtain ⟨c₁, hc₁, -⟩ := hk.config _ _ hc
  refine ⟨f c₁, l, ?_, ?_⟩
  · rw [Heap.config_eq_some] at hc₁ ⊢
    rw [setConfig, Heap.getElem?_modify_of_some hc₁, if_pos rfl]
  · rw [hl]
    exact hle.keep hk'.next

end Loops

end EditConfig
