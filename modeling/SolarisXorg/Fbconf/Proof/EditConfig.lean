import SolarisXorg.Fbconf.Proof.EditHeap

/-!
# The references of an edited configuration

`fbc_insert_new_Device_section` and `fbc_insert_new_Monitor_section` give `configIR` to
`xf86addListItem`, and not the section that they made: the list leads to the configuration
(`loops_insertDeviceSection`, `loops_insertMonitorSection`) and is not one of sections any more. A
new Screen section does go into its list (`listed_insertScreenSection`), but has no Monitor entry,
so that a Monitor section is made after it. What is left are the calls that find all of the sections
up to the Monitor entry (`findActiveSections_integrity_iff`); these write nothing but an Option and
a Display subsection (`Same`, `DisplayKept`).
-/

namespace EditConfig

open Lib Fbc

variable {h h' h₁ : Heap} {a b : Addr} {p : Option Addr} {l : List Addr} {r : Rec}

/-! ## The functions -/

section Functions

variable {lst : ConfigRec → Option Addr} {device : Device} {configIR : Addr} {mem : Mem}
  {ident : Str} {x : Addr × Heap}

theorem keeps_setDeviceOption (hr : setDeviceOption h a device mem = .ok h') : Keeps lst h h' := by
  simp only [setDeviceOption, bind_eq_ok, Except.ok.injEq] at hr
  obtain ⟨d, -, l, -, rfl⟩ := hr
  exact Keeps.setDevice fun _ => rfl

theorem loops_insertNewDeviceSection
    (hr : insertNewDeviceSection h configIR ident device mem = .ok x) :
    Loops ConfigRec.confDeviceLst x.2 configIR := by
  simp only [insertNewDeviceSection, bind_eq_ok, deref_eq_ok, Except.ok.injEq] at hr
  obtain ⟨-, -, -, -, c, hc, y, hy, h₂, hh₂, rfl⟩ := hr
  have hl := Loops.addListItem (fun c => { c with confDeviceLst := y.1 }) hc hy (fun _ => rfl)
    fun _ => rfl
  exact hl.keeps (keeps_setDeviceOption hh₂)

/-- A new Device section makes the list of them lead to the configuration. -/
theorem loops_insertDeviceSection (hr : insertDeviceSection h device configIR mem = .ok x) :
    Loops ConfigRec.confDeviceLst x.2 configIR := by
  simp only [insertDeviceSection, bind_eq_ok] at hr
  obtain ⟨-, -, c, -, l, -, sectns, -, hr⟩ := hr
  exact loops_insertNewDeviceSection hr

/-- A new Monitor section makes the list of them lead to the configuration. -/
theorem loops_insertMonitorSection {tmpl : Str}
    (hr : insertMonitorSection h configIR tmpl mem = .ok x) :
    Loops ConfigRec.confMonitorLst x.2 configIR := by
  simp only [insertMonitorSection, insertNewMonitorSection, bind_eq_ok, deref_eq_ok,
    Except.ok.injEq] at hr
  obtain ⟨-, -, c₀, -, l, -, sectns, -, -, -, c, hc, y, hy, rfl⟩ := hr
  exact Loops.addListItem (fun c => { c with confMonitorLst := y.1 }) hc hy (fun _ => rfl)
    fun _ => rfl

theorem keeps_insertMonitorSection {tmpl : Str}
    (hlst : ∀ c q, lst { c with confFiles := q } = lst c)
    (hlst' : ∀ c q, lst { c with confMonitorLst := q } = lst c)
    (hr : insertMonitorSection h configIR tmpl mem = .ok x) : Keeps lst h x.2 := by
  simp only [insertMonitorSection, insertNewMonitorSection, bind_eq_ok, deref_eq_ok,
    Except.ok.injEq] at hr
  obtain ⟨-, -, c₀, -, l, -, sectns, -, -, -, c, hc, y, hy, rfl⟩ := hr
  refine (Keeps.append _ _).trans ((Keeps.addListItem hlst hy).trans ?_)
  exact Keeps.setConfig (fun _ => rfl) fun c => hlst' c _

/-- What the insertion of a Screen section does. -/
theorem insertScreenSection_eq_ok {last : Bool} {tmpl str : Str}
    (hr : insertScreenSection h configIR last tmpl str mem = .ok x) :
    ∃ c l sectns new, h.config configIR = some c ∧ h.list c.confScreenLst = some l ∧
      l.mapM h.screen = some sectns ∧ new.next = none ∧ new.scrnMonitorLst = none ∧
      new.scrnIdentifier = uniqueIdentifier tmpl (sectns.map ScreenRec.scrnIdentifier) ∧
      x.1 = h.length ∧
      ((∃ y, addListItem (h ++ [.screen new]) c.confScreenLst h.length = .ok y ∧
          x.2 = setConfig y.2 configIR fun c => { c with confScreenLst := y.1 }) ∨
        x.2 = setConfig
          (setScreen (h ++ [.screen new]) h.length fun s => { s with next := c.confScreenLst })
          configIR fun c => { c with confScreenLst := some h.length }) := by
  simp only [insertScreenSection, insertNewScreenSection, bind_eq_ok, deref_eq_ok] at hr
  obtain ⟨-, -, c, hc, l, hl, sectns, hsectns, -, -, c', hc', hr⟩ := hr
  obtain rfl : c = c' := by
    rw [Heap.config_eq_some] at hc hc'
    simpa using (Heap.getElem?_append_of_some hc).symm.trans hc'
  let ident := uniqueIdentifier tmpl (sectns.map ScreenRec.scrnIdentifier)
  let deviceStr := if mem.scrnDeviceStr then some str else none
  refine ⟨c, l, sectns, ⟨none, ident, 0, 0, none, deviceStr, none⟩, hc, hl, hsectns, rfl, rfl, rfl,
    ?_⟩
  split at hr
  · simp only [bind_eq_ok, Except.ok.injEq] at hr
    obtain ⟨y, hy, rfl⟩ := hr
    exact ⟨rfl, .inl ⟨y, hy, rfl⟩⟩
  · cases hr
    exact ⟨rfl, .inr rfl⟩

theorem keeps_insertScreenSection {last : Bool} {tmpl str : Str}
    (hlst : ∀ c q, lst { c with confFiles := q } = lst c)
    (hlst' : ∀ c q, lst { c with confScreenLst := q } = lst c)
    (hr : insertScreenSection h configIR last tmpl str mem = .ok x) : Keeps lst h x.2 := by
  obtain ⟨c, l, sectns, new, -, -, -, hnull, -, -, -, ⟨y, hy, hx⟩ | hx⟩ :=
    insertScreenSection_eq_ok hr
  · rw [hx]
    refine (Keeps.append _ _).trans ((Keeps.addListItem hlst hy).trans ?_)
    exact Keeps.setConfig (fun _ => rfl) fun c => hlst' c _
  · rw [hx]
    refine .trans ?_ (Keeps.setConfig (fun _ => rfl) fun c => hlst' c _)
    refine (Keeps.append _ _).trans (Keeps.modify (.inl ?_) fun c => ⟨c, rfl, rfl⟩)
    rw [Heap.next_append_length]
    exact hnull

theorem keeps_insertMonitorEntry {m : Addr} (hlst : ∀ c q, lst { c with confFiles := q } = lst c)
    (hr : insertMonitorEntry h a m mem = .ok x) : Keeps lst h x.2 := by
  simp only [insertMonitorEntry, bind_eq_ok, Except.ok.injEq] at hr
  obtain ⟨-, -, m, -, -, -, s, -, y, hy, rfl⟩ := hr
  refine (Keeps.append _ _).trans ((Keeps.addListItem hlst hy).trans ?_)
  exact Keeps.setScreen fun _ => rfl

theorem keeps_insertDisplaySubsection {e : MonitorEntryRec}
    (hlst : ∀ c q, lst { c with confFiles := q } = lst c)
    (hr : insertDisplaySubsection h a e mem = .ok x) : Keeps lst h x.2 := by
  simp only [insertDisplaySubsection, bind_eq_ok, Except.ok.injEq] at hr
  obtain ⟨-, -, s, -, y, hy, rfl⟩ := hr
  refine (Keeps.append _ _).trans ((Keeps.addListItem hlst hy).trans ?_)
  exact Keeps.setScreen fun _ => rfl

end Functions

/-! ## The search for the Device section -/

section Search

variable {device : Device} {configIR : Addr} {mem : Mem}

theorem hasPath_eq {d : DeviceRec} (hd : h.device a = some d) :
    hasPath h device a ↔ d.devDriver = device.type ∧ d.devScreen = 0 ∧
      ∃ o, d.devOptionLst.find? isDeviceOption = some o ∧ o.optVal = some device.path := by
  simp [hasPath, hd, Option.any_eq_true]

theorem isBlankFor_eq {d : DeviceRec} (hd : h.device a = some d) :
    isBlankFor h device a ↔ d.devDriver = device.type ∧ d.devScreen = 0 ∧
      d.devOptionLst.find? isDeviceOption = none := by
  simp only [isBlankFor, hd, Option.any_some, decide_eq_true_eq]

/-- The loop finds the first section with the path, or else the first without a path. -/
theorem scanDevices_eq_ok {blank : Option Addr} {x : Option Addr × Bool}
    (hr : scanDevices h device 0 l blank = .ok x) :
    x.1 = (l.find? (hasPath h device)).or (blank.or (l.find? (isBlankFor h device))) := by
  induction l generalizing blank with
  | nil =>
    cases hr
    simp
  | cons a l ih =>
    simp only [scanDevices, bind_eq_ok, deref_eq_ok] at hr
    obtain ⟨d, hd, hr⟩ := hr
    have hp : hasPath h device a ↔ _ := hasPath_eq hd
    have hb : isBlankFor h device a ↔ _ := isBlankFor_eq hd
    split at hr
    case isTrue hne =>
      have hn : ¬ (d.devDriver = device.type ∧ d.devScreen = 0) := by
        rintro ⟨he, hs⟩
        simp [he, hs] at hne
      rw [List.find?_cons_of_neg fun hh => hn ⟨(hp.1 hh).1, (hp.1 hh).2.1⟩,
        List.find?_cons_of_neg fun hh => hn ⟨(hb.1 hh).1, (hb.1 hh).2.1⟩]
      exact ih hr
    case isFalse heq =>
      have heq : d.devDriver = device.type ∧ d.devScreen = 0 := by
        simp only [ne_eq, not_or, not_not] at heq
        exact ⟨heq.1.symm, heq.2.symm⟩
      split at hr
      case h_1 ho =>
        have hnp : ¬ hasPath h device a := by
          rw [hp]
          rintro ⟨-, -, o, ho', -⟩
          rw [ho] at ho'
          cases ho'
        rw [List.find?_cons_of_neg hnp, List.find?_cons_of_pos (hb.2 ⟨heq.1, heq.2, ho⟩), ih hr]
        cases blank <;> simp
      case h_2 o ho =>
        simp only [bind_eq_ok, deref_eq_ok] at hr
        obtain ⟨val, hval, hr⟩ := hr
        split at hr
        case isTrue hv =>
          cases hr
          rw [List.find?_cons_of_pos (hp.2 ⟨heq.1, heq.2, o, ho, by rw [hval, hv]⟩)]
          rfl
        case isFalse hv =>
          have hnp : ¬ hasPath h device a := by
            rw [hp]
            rintro ⟨-, -, o', ho', hv'⟩
            obtain rfl := Option.some.inj (ho.symm.trans ho')
            exact hv (Option.some.inj (hval.symm.trans hv'))
          have hnb : ¬ isBlankFor h device a := by
            rw [hb]
            rintro ⟨-, -, ho'⟩
            rw [ho] at ho'
            cases ho'
          rw [List.find?_cons_of_neg hnp, List.find?_cons_of_neg hnb]
          exact ih hr

/-- Two memories that differ in the Options of Device sections alone. -/
structure Same (h h' : Heap) : Prop where
  length : h'.length = h.length
  link : h'.link = h.link
  config : h'.config = h.config
  deviceIdent : h'.deviceIdent = h.deviceIdent
  screen : h'.screen = h.screen
  monitor : h'.monitor = h.monitor
  monitorEntry : h'.monitorEntry = h.monitorEntry
  display : h'.display = h.display

namespace Same

theorem refl (h : Heap) : Same h h := ⟨rfl, rfl, rfl, rfl, rfl, rfl, rfl, rfl⟩

theorem list (hs : Same h h') : h'.list = h.list := by
  funext p
  rw [Heap.list, hs.link, hs.length, Heap.list]

/-- A write to a Device section that leaves the link and the identifier alone. -/
theorem setDevice {f : DeviceRec → DeviceRec} (hn : ∀ d, (f d).next = d.next)
    (hi : ∀ d, (f d).devIdentifier = d.devIdentifier) : Same h (setDevice h a f) := by
  have hl : Heap.link (EditConfig.setDevice h a f) = h.link :=
    Heap.link_modify fun r => by cases r <;> simp [Rec.next, hn]
  refine ⟨by simp [EditConfig.setDevice], hl, ?_, ?_, ?_, ?_, ?_, ?_⟩ <;> funext b <;>
    simp only [Heap.config, Heap.deviceIdent, Heap.device, Heap.screen, Heap.monitor,
      Heap.monitorEntry, Heap.display, EditConfig.setDevice, List.getElem?_modify] <;>
    rcases h[b]? with _ | (_ | _ | _ | _ | _ | _ | _) <;> by_cases hb : a = b <;>
    simp [hb, hi, Rec.config?, Rec.device?, Rec.screen?, Rec.monitor?, Rec.monitorEntry?,
      Rec.display?]

end Same

theorem same_setDeviceOption (hr : setDeviceOption h a device mem = .ok h') : Same h h' := by
  simp only [setDeviceOption, bind_eq_ok, Except.ok.injEq] at hr
  obtain ⟨d, -, l, -, rfl⟩ := hr
  exact Same.setDevice (fun _ => rfl) fun _ => rfl

/-- The search finds the Device section for the device, and writes at most its Option. -/
theorem findActiveDeviceSection_eq_ok {x : Option Addr × Heap} (hl : h.list p = some l)
    (hr : findActiveDeviceSection h device p 0 mem = .ok x) :
    x.1 = deviceFor h device l ∧ Same h x.2 := by
  simp only [findActiveDeviceSection, hl, deref, bind_eq_ok, Except.ok.injEq] at hr
  obtain ⟨_, rfl, ⟨found, path⟩, hscan, hr⟩ := hr
  have hf : found = deviceFor h device l := by
    simpa [deviceFor] using scanDevices_eq_ok hscan
  cases found with
  | none =>
    cases hr
    exact ⟨hf, Same.refl h⟩
  | some a =>
    cases path with
    | true =>
      cases hr
      exact ⟨hf, Same.refl h⟩
    | false =>
      simp only [bind_eq_ok, Except.ok.injEq] at hr
      obtain ⟨h₁, hh₁, rfl⟩ := hr
      exact ⟨hf, same_setDeviceOption hh₁⟩

end Search

/-! ## A new Display subsection -/

theorem setScreen_getElem?_ne {f : ScreenRec → ScreenRec} (ha : a ≠ b) :
    (setScreen h b f)[a]? = h[a]? :=
  List.getElem?_modify_ne _ h ha.symm

theorem setScreen_getElem?_self {f : ScreenRec → ScreenRec} {s : ScreenRec}
    (hs : h[b]? = some (.screen s)) : (setScreen h b f)[b]? = some (.screen (f s)) := by
  rw [setScreen, Heap.getElem?_modify_of_some hs, if_pos rfl]

theorem setScreen_list {f : ScreenRec → ScreenRec} (hf : ∀ s, (f s).next = s.next)
    (hl : h.list p = some l) : Heap.list (setScreen h b f) p = some l := by
  apply Heap.list_congr hl
  intro a _
  rw [setScreen, Heap.link_modify fun r => by cases r <;> simp [Rec.next, hf]]

/-- The list is there after an allocation. -/
theorem list_append (hl : h.list p = some l) : Heap.list (h ++ [r]) p = some l := by
  apply Heap.list_congr hl
  intro a ha
  have hlt := (Heap.list_eq_some.1 hl).2 a ha
  rw [Heap.link, List.getElem?_append_left hlt, Heap.link]

/-- From `h` to `h'` nothing is written but the Display subsections of the Screen section `s` at
`b`, and `x` is one of these. -/
structure DisplayKept (h h' : Heap) (b : Addr) (s : ScreenRec) (x : Addr) : Prop where
  keep : ∀ a r, h[a]? = some r → (∀ d, r ≠ .display d) → a ≠ b → h'[a]? = some r
  screen : ∃ q l, h'[b]? = some (.screen { s with scrnDisplayLst := q }) ∧ h'.list q = some l ∧
    x ∈ l ∧ ∀ y ∈ l, (h'.display y).isSome

/-- A new Display subsection is the last of its Screen section. -/
theorem displayKept_insertDisplaySubsection {s : ScreenRec} {e : MonitorEntryRec} {mem : Mem}
    {x : Addr × Heap} (hs : h[b]? = some (.screen s)) (hl : h.list s.scrnDisplayLst = some l)
    (hd : ∀ a ∈ l, (h.display a).isSome) (hr : insertDisplaySubsection h b e mem = .ok x) :
    DisplayKept h x.2 b s x.1 := by
  simp only [insertDisplaySubsection, bind_eq_ok, deref_eq_ok, Except.ok.injEq] at hr
  obtain ⟨-, -, s', hs', y, hy, rfl⟩ := hr
  obtain rfl : s' = s := Option.some.inj (hs'.symm.trans (Heap.screen_eq_some.2 hs))
  obtain ⟨new, hnull, hy⟩ : ∃ new : DisplayRec, new.next = none ∧
      addListItem (h ++ [.display new]) s'.scrnDisplayLst h.length = .ok y := ⟨_, rfl, hy⟩
  have hlt := (Heap.list_eq_some.1 hl).2
  have hnot : ∀ (a : Addr) r, h[a]? = some r → (∀ d, r ≠ Rec.display d) → a ∉ l := by
    intro a r ha hn hm
    obtain ⟨d, hd⟩ := Option.isSome_iff_exists.1 (hd a hm)
    exact hn d (Option.some.inj (ha.symm.trans (Heap.display_eq_some.1 hd)))
  have hkeep : ∀ (a : Addr) r, h[a]? = some r → (∀ d, r ≠ Rec.display d) → y.2[a]? = some r := by
    intro a r ha hn
    rw [getElem?_addListItem hy (list_append hl) (hnot a r ha hn)]
    exact Heap.getElem?_append_of_some ha
  have hb : y.2[b]? = some (.screen s') := hkeep b _ hs fun _ => nofun
  refine ⟨fun a r ha hn hne => ?_, y.1, l ++ [h.length], setScreen_getElem?_self hb, ?_, by simp,
    fun a ha => ?_⟩
  · exact (setScreen_getElem?_ne hne).trans (hkeep a r ha hn)
  · refine setScreen_list (fun _ => rfl) ?_
    refine list_addListItem hy (list_append hl) List.getElem?_concat_length hnull fun hm => ?_
    exact absurd (hlt _ hm) (Nat.lt_irrefl _)
  · obtain ⟨d, hd₁⟩ : ∃ d, (h ++ [.display new])[a]? = some (.display d) := by
      rcases List.mem_append.1 ha with ha | ha
      · obtain ⟨d, hd⟩ := Option.isSome_iff_exists.1 (hd a ha)
        exact ⟨d, Heap.getElem?_append_of_some (Heap.display_eq_some.1 hd)⟩
      · obtain rfl := List.mem_singleton.1 ha
        exact ⟨new, List.getElem?_concat_length⟩
    obtain ⟨q, hq⟩ := exists_setNext_addListItem hy hd₁
    have hne : a ≠ b := by
      rintro rfl
      rw [hb] at hq
      cases hq
    exact Option.isSome_iff_exists.2
      ⟨_, Heap.display_eq_some.2 ((setScreen_getElem?_ne hne).trans hq)⟩

/-! ## The stages of a call -/

section Stages

variable {device : Device} {configIR : Addr} {mem : Mem} {lines : Bool} {refConfig : Nat}

/-- The Device section is the one that there is for the device, or a new one breaks the list. -/
theorem deviceSection_eq_ok {c : ConfigRec} {devs : List Addr} {x : Addr × Heap}
    (hc : h.config configIR = some c) (hl : h.list c.confDeviceLst = some devs)
    (hr : deviceSection h device configIR mem = .ok x) :
    deviceFor h device devs = some x.1 ∧ Same h x.2 ∨
      deviceFor h device devs = none ∧ Loops ConfigRec.confDeviceLst x.2 configIR := by
  simp only [deviceSection, bind_eq_ok, deref_eq_ok] at hr
  obtain ⟨c', hc', ⟨found, h₁⟩, hfind, hr⟩ := hr
  obtain rfl := Option.some.inj (hc'.symm.trans hc)
  obtain ⟨hf, hs⟩ := findActiveDeviceSection_eq_ok hl hfind
  cases found with
  | none => exact .inr ⟨hf.symm, loops_insertDeviceSection hr⟩
  | some a =>
    cases hr
    exact .inl ⟨hf.symm, hs⟩

theorem setConfig_list {f : ConfigRec → ConfigRec} (hf : ∀ c, (f c).confFiles = c.confFiles)
    (hl : h.list p = some l) : Heap.list (setConfig h b f) p = some l := by
  apply Heap.list_congr hl
  intro a _
  rw [setConfig, Heap.link_modify fun r => by cases r <;> simp [Rec.next, hf]]

theorem setConfig_getElem?_screen {f : ConfigRec → ConfigRec} {s : ScreenRec}
    (ha : h[a]? = some (.screen s)) : (setConfig h b f)[a]? = some (.screen s) := by
  rw [setConfig, Heap.getElem?_modify_of_some ha]
  split <;> rfl

/-- A new Screen section has no Monitor entry. -/
theorem screen_insertScreenSection {last : Bool} {tmpl str : Str} {x : Addr × Heap}
    (hr : insertScreenSection h configIR last tmpl str mem = .ok x) :
    ∃ s, x.2.screen x.1 = some s ∧ s.scrnMonitorLst = none := by
  obtain ⟨c, l, sectns, new, -, -, -, -, hm, -, hx₁, ⟨y, hy, hx⟩ | hx⟩ :=
    insertScreenSection_eq_ok hr
  · obtain ⟨q, hq⟩ := exists_setNext_addListItem hy List.getElem?_concat_length
    refine ⟨{ new with next := q }, ?_, hm⟩
    rw [Heap.screen_eq_some, hx, hx₁]
    exact setConfig_getElem?_screen hq
  · refine ⟨{ new with next := c.confScreenLst }, ?_, hm⟩
    rw [Heap.screen_eq_some, hx, hx₁]
    exact setConfig_getElem?_screen (setScreen_getElem?_self List.getElem?_concat_length)

theorem keeps_screenSection {x : Addr × Heap}
    (hr : screenSection h device configIR a lines mem = .ok x) :
    Keeps ConfigRec.confDeviceLst h x.2 := by
  simp only [screenSection, bind_eq_ok] at hr
  obtain ⟨d, -, c, -, found, -, hr⟩ := hr
  cases found with
  | some b =>
    cases hr
    exact Keeps.refl h
  | none => exact keeps_insertScreenSection (fun _ _ => rfl) (fun _ _ => rfl) hr

/-- The Screen section is the first that names the Device section, or a new one. -/
theorem screenSection_eq_ok {c : ConfigRec} {scrns : List Addr} {x : Addr × Heap}
    (hc : h.config configIR = some c) (hl : h.list c.confScreenLst = some scrns)
    (hr : screenSection h device configIR a lines mem = .ok x) :
    ∃ d, h.device a = some d ∧
      ((scrns.find? fun b => (h.screen b).any fun s => s.names d.devIdentifier) = some x.1 ∧
          x.2 = h ∨
        (scrns.find? fun b => (h.screen b).any fun s => s.names d.devIdentifier) = none ∧
          ∃ s, x.2.screen x.1 = some s ∧ s.scrnMonitorLst = none) := by
  simp only [screenSection, findActiveScreenSection, bind_eq_ok, deref_eq_ok,
    Except.ok.injEq] at hr
  obtain ⟨d, hd, c', hc', found, ⟨l, hl', rfl⟩, hr⟩ := hr
  obtain rfl := Option.some.inj (hc'.symm.trans hc)
  obtain rfl := Option.some.inj (hl'.symm.trans hl)
  refine ⟨d, hd, ?_⟩
  split at hr
  case h_1 b hb =>
    cases hr
    exact .inl ⟨hb, rfl⟩
  case h_2 hb => exact .inr ⟨hb, screen_insertScreenSection hr⟩

/-- The Monitor entry is the first of the Screen section. Where there is none, there is no Monitor
section in the end, or a new one breaks the list. -/
theorem monitorEntry_eq_ok {x : Option Addr × Option Addr × Heap}
    (href : refConfig &&& subsctnDisplay ≠ 0)
    (hr : monitorEntry h device configIR b refConfig mem = .ok x) :
    ∃ s, h.screen b = some s ∧ Keeps ConfigRec.confDeviceLst h x.2.2 ∧
      ((∃ p, s.scrnMonitorLst = some p ∧ x = (none, some p, h)) ∨
        s.scrnMonitorLst = none ∧ (x.1 = none ∧ x.2.1 = none ∨
          Loops ConfigRec.confMonitorLst x.2.2 configIR)) := by
  simp only [monitorEntry, bind_eq_ok, deref_eq_ok] at hr
  obtain ⟨s, hs, hr⟩ := hr
  refine ⟨s, hs, ?_⟩
  have href' : refConfig &&& (sectionMonitor ||| subsctnDisplay) ≠ 0 := by
    rw [Nat.and_or_distrib_left]
    intro h0
    exact href (Nat.or_eq_zero_iff.1 h0).2
  cases hm : s.scrnMonitorLst with
  | some p =>
    rw [hm] at hr
    cases hr
    exact ⟨Keeps.refl h, .inl ⟨p, rfl, rfl⟩⟩
  | none =>
    simp only [hm, if_neg href', bind_eq_ok] at hr
    obtain ⟨found, hfound, hr⟩ := hr
    cases found with
    | none =>
      cases hr
      exact ⟨Keeps.refl h, .inr ⟨rfl, .inl ⟨rfl, rfl⟩⟩⟩
    | some y =>
      have hins := attempt_eq_some.1 hfound
      have hk : Keeps ConfigRec.confDeviceLst h y.2 :=
        keeps_insertMonitorSection (fun _ _ => rfl) (fun _ _ => rfl) hins
      have hloop := loops_insertMonitorSection hins
      simp only [bind_eq_ok] at hr
      obtain ⟨entry, hentry, hr⟩ := hr
      cases entry with
      | none =>
        cases hr
        exact ⟨hk, .inr ⟨rfl, .inr hloop⟩⟩
      | some z =>
        cases hr
        have hins' := attempt_eq_some.1 hentry
        exact ⟨hk.trans (keeps_insertMonitorEntry (fun _ _ => rfl) hins'),
          .inr ⟨rfl, .inr (hloop.keeps (keeps_insertMonitorEntry (fun _ _ => rfl) hins'))⟩⟩

theorem keeps_displaySubsection {lst : ConfigRec → Option Addr} {e : MonitorEntryRec}
    {x : Option Addr × Heap} (hlst : ∀ c q, lst { c with confFiles := q } = lst c)
    (hr : displaySubsection h b e refConfig mem = .ok x) : Keeps lst h x.2 := by
  simp only [displaySubsection, bind_eq_ok] at hr
  obtain ⟨s, -, found, -, hr⟩ := hr
  cases found with
  | some y =>
    cases hr
    exact Keeps.refl h
  | none =>
    dsimp only at hr
    split at hr
    · cases hr
      exact Keeps.refl h
    · simp only [bind_eq_ok] at hr
      obtain ⟨new, hnew, hr⟩ := hr
      cases new with
      | none =>
        cases hr
        exact Keeps.refl h
      | some y =>
        cases hr
        exact keeps_insertDisplaySubsection hlst (attempt_eq_some.1 hnew)

/-- There is a Display subsection for the entry in the end, if there was one or memory for one. -/
theorem displaySubsection_eq_ok {s : ScreenRec} {e : MonitorEntryRec} {x : Option Addr × Heap}
    (href : refConfig &&& subsctnDisplay ≠ 0) (hs : h.screen b = some s)
    (hl : h.list s.scrnDisplayLst = some l) (hd : ∀ a ∈ l, (h.display a).isSome)
    (hr : displaySubsection h b e refConfig mem = .ok x) :
    (mem.display ∨ ∃ y ∈ l, (h.display y).any fun d => d.isFor s e) ∧
        (∃ y, x.1 = some y ∧ DisplayKept h x.2 b s y) ∨
      ¬ (mem.display ∨ ∃ y ∈ l, (h.display y).any fun d => d.isFor s e) ∧ x.1 = none := by
  simp only [displaySubsection, findActiveDisplaySubsection, bind_eq_ok, deref_eq_ok,
    Except.ok.injEq, if_neg href] at hr
  obtain ⟨s', hs', found, ⟨l', hl', hfound⟩, hr⟩ := hr
  obtain rfl := Option.some.inj (hs'.symm.trans hs)
  obtain rfl := Option.some.inj (hl'.symm.trans hl)
  rw [Heap.screen_eq_some] at hs
  cases found with
  | some y =>
    cases hr
    have hy := List.mem_of_find?_eq_some hfound
    have hany := List.find?_some hfound
    refine .inl ⟨.inr ⟨y, hy, hany⟩, y, rfl, fun a r ha _ _ => ha, ?_⟩
    exact ⟨s'.scrnDisplayLst, l', hs, hl, hy, hd⟩
  | none =>
    have hnone : ¬ ∃ y ∈ l', (h.display y).any fun d => d.isFor s' e := by
      rintro ⟨y, hy, hany⟩
      exact List.find?_eq_none.1 hfound y hy hany
    simp only [bind_eq_ok] at hr
    obtain ⟨new, hnew, hr⟩ := hr
    cases new with
    | none =>
      cases hr
      have hmem : mem.display = false := by
        simp only [attempt_eq_none, insertDisplaySubsection, bind_eq_nomem, alloc_eq_nomem,
          deref_ne_nomem, addListItem_ne_nomem] at hnew
        simpa using hnew
      exact .inr ⟨by simp [hmem, hnone], rfl⟩
    | some y =>
      cases hr
      have hins := attempt_eq_some.1 hnew
      have hmem : mem.display = true := by
        simp only [insertDisplaySubsection, bind_eq_ok, alloc_eq_ok] at hins
        obtain ⟨-, hmem, -⟩ := hins
        exact hmem
      exact .inl ⟨.inl hmem, y.1, rfl, displayKept_insertDisplaySubsection hs hl hd hins⟩

end Stages

/-! ## The references of the configuration -/

theorem ident_config_none (hc : ∃ c, h.config a = some c) :
    h.deviceIdent a = none ∧ h.screenIdent a = none ∧ h.monitorIdent a = none := by
  obtain ⟨c, hc⟩ := hc
  rw [Heap.config_eq_some] at hc
  simp [Heap.deviceIdent, Heap.device, Heap.screenIdent, Heap.screen, Heap.monitorIdent,
    Heap.monitor, hc, Rec.device?, Rec.screen?, Rec.monitor?]

section Integrity

variable {device : Device} {configIR : Addr} {mem : Mem} {act : Active}

theorem not_integrity_of_loops_device (hl : Loops ConfigRec.confDeviceLst h' configIR) :
    ¬ Integrity h h' configIR act :=
  fun hi => hl.not_listed (fun _ c hc => (ident_config_none ⟨c, hc⟩).1) hi.device

theorem not_integrity_of_loops_monitor (hl : Loops ConfigRec.confMonitorLst h' configIR) :
    ¬ Integrity h h' configIR act :=
  fun hi => hl.not_listed (fun _ c hc => (ident_config_none ⟨c, hc⟩).2.2) hi.monitor

/-- A list that is as it was. -/
theorem Listed.of_same {ident : Heap → Addr → Option Str} {lst : ConfigRec → Option Addr}
    {c : ConfigRec} (hc : h.config configIR = some c) (hc' : h'.config configIR = some c)
    (hl : h.list (lst c) = some l) (hlink : ∀ b ∈ l, h'.link b = h.link b)
    (hi : ∀ b ∈ l, (ident h' b).isSome) (ha : a ∈ l) :
    Listed ident lst h h' configIR (some a) := by
  refine ⟨c, c, l, l, a, hc, hc', hl, Heap.list_congr hl hlink, rfl, ha, hi,
    List.Sublist.refl l, ?_⟩
  intro b hb hnew
  exact absurd hb hnew

namespace Same

variable {c : ConfigRec} {devs scrns mons : List Addr}

theorem parsed (hs : Same h h') (hp : Parsed h configIR c devs scrns mons) :
    Parsed h' configIR c devs scrns mons := by
  have hd : ∀ a, (h'.device a).isSome = (h.device a).isSome := by
    intro a
    have := congrArg Option.isSome (congrFun hs.deviceIdent a)
    simpa [Heap.deviceIdent] using this
  constructor
  case config => rw [hs.config, hp.config]
  case devices => rw [hs.list, hp.devices]
  case isDevice => exact fun a ha => by rw [hd, hp.isDevice a ha]
  case screens => rw [hs.list, hp.screens]
  case isScreen => rw [hs.screen]; exact hp.isScreen
  case monitors => rw [hs.list, hp.monitors]
  case isMonitor => rw [hs.monitor]; exact hp.isMonitor
  case entries => rw [hs.screen, hs.list, hs.monitorEntry]; exact hp.entries
  case displays => rw [hs.screen, hs.list, hs.display]; exact hp.displays

theorem listed {ident : Heap → Addr → Option Str} {lst : ConfigRec → Option Addr}
    {sectn : Option Addr} (hs : Same h h₁) :
    Listed ident lst h₁ h' configIR sectn ↔ Listed ident lst h h' configIR sectn := by
  rw [Listed, Listed, hs.config, hs.list]

theorem integrity (hs : Same h h₁) :
    Integrity h₁ h' configIR act ↔ Integrity h h' configIR act :=
  ⟨fun hi => ⟨hs.listed.1 hi.device, hs.listed.1 hi.screen, hs.listed.1 hi.monitor, hi.names,
      hi.entry, hi.display⟩,
    fun hi => ⟨hs.listed.2 hi.device, hs.listed.2 hi.screen, hs.listed.2 hi.monitor, hi.names,
      hi.entry, hi.display⟩⟩

end Same

namespace DisplayKept

variable {s : ScreenRec} {x : Addr} (hk : DisplayKept h h' b s x) (hs : h[b]? = some (.screen s))
include hk hs

/-- The links of other records than Display subsections. The Screen section is written in another
field. -/
theorem link (ha : h[a]? = some r) (hn : ∀ d, r ≠ .display d) : h'.link a = h.link a := by
  by_cases hab : a = b
  · obtain ⟨q, l, hb, -⟩ := hk.screen
    rw [hab, Heap.link, hb, Heap.link, hs]
    rfl
  · rw [Heap.link, hk.keep a r ha hn hab, Heap.link, ha]

/-- Records that are neither Display subsections nor Screen sections. -/
theorem getElem? (ha : h[a]? = some r) (hn : ∀ d, r ≠ .display d) (hn' : ∀ s, r ≠ .screen s) :
    h'[a]? = some r := by
  apply hk.keep a r ha hn
  rintro rfl
  exact hn' s (Option.some.inj (ha.symm.trans hs))

variable {c : ConfigRec} {devs scrns mons : List Addr} (hp : Parsed h configIR c devs scrns mons)
include hp

theorem config : h'.config configIR = some c := by
  rw [Heap.config_eq_some]
  exact hk.getElem? hs (Heap.config_eq_some.1 hp.config) (fun _ => nofun) fun _ => nofun

theorem listed_device (ha : a ∈ devs) :
    Listed Heap.deviceIdent ConfigRec.confDeviceLst h h' configIR (some a) := by
  refine Listed.of_same hp.config (hk.config hs hp) hp.devices (fun y hy => ?_) (fun y hy => ?_) ha
  all_goals
    obtain ⟨d, hd⟩ := Option.isSome_iff_exists.1 (hp.isDevice y hy)
    rw [Heap.device_eq_some] at hd
  · exact hk.link hs hd fun _ => nofun
  · have hy' := hk.getElem? hs hd (fun _ => nofun) fun _ => nofun
    rw [Heap.deviceIdent, Heap.device_eq_some.2 hy']
    rfl

theorem listed_screen (ha : a ∈ scrns) :
    Listed Heap.screenIdent ConfigRec.confScreenLst h h' configIR (some a) := by
  refine Listed.of_same hp.config (hk.config hs hp) hp.screens (fun y hy => ?_) (fun y hy => ?_) ha
  all_goals
    obtain ⟨t, ht⟩ := Option.isSome_iff_exists.1 (hp.isScreen y hy)
    rw [Heap.screen_eq_some] at ht
  · exact hk.link hs ht fun _ => nofun
  · by_cases hyb : y = b
    · obtain ⟨q, l, hb, -⟩ := hk.screen
      rw [hyb, Heap.screenIdent, Heap.screen_eq_some.2 hb]
      rfl
    · have hy' := hk.keep _ _ ht (fun _ => nofun) hyb
      rw [Heap.screenIdent, Heap.screen_eq_some.2 hy']
      rfl

theorem listed_monitor (ha : a ∈ mons) :
    Listed Heap.monitorIdent ConfigRec.confMonitorLst h h' configIR (some a) := by
  refine Listed.of_same hp.config (hk.config hs hp) hp.monitors (fun y hy => ?_) (fun y hy => ?_) ha
  all_goals
    obtain ⟨m, hm⟩ := Option.isSome_iff_exists.1 (hp.isMonitor y hy)
    rw [Heap.monitor_eq_some] at hm
  · exact hk.link hs hm fun _ => nofun
  · have hy' := hk.getElem? hs hm (fun _ => nofun) fun _ => nofun
    rw [Heap.monitorIdent, Heap.monitor_eq_some.2 hy']
    rfl

/-- With the sections in the configuration and a Display subsection, all references hold. -/
theorem integrity {d : DeviceRec} {e : MonitorEntryRec} {q m : Addr} (ha : a ∈ devs)
    (hd : h.device a = some d) (hb : b ∈ scrns) (hn : s.names d.devIdentifier)
    (hq : s.scrnMonitorLst = some q) (he : h.monitorEntry q = some e)
    (hem : e.scrnMonitor = some m) (hm : m ∈ mons) :
    Integrity h h' configIR ⟨some a, some b, e.scrnMonitor, some x⟩ := by
  obtain ⟨r, l, hb', hl, hx, hdisp⟩ := hk.screen
  have hs' := Heap.screen_eq_some.2 hb'
  have hd' : h'.device a = some d := by
    rw [Heap.device_eq_some] at hd ⊢
    exact hk.getElem? hs hd (fun _ => nofun) fun _ => nofun
  have he' : h'.monitorEntry q = some e := by
    rw [Heap.monitorEntry_eq_some] at he ⊢
    exact hk.getElem? hs he (fun _ => nofun) fun _ => nofun
  constructor
  case device => exact hk.listed_device hs hp ha
  case screen => exact hk.listed_screen hs hp hb
  case monitor => rw [hem]; exact hk.listed_monitor hs hp hm
  case names => exact ⟨a, d, b, _, rfl, hd', rfl, hs', hn⟩
  case entry => exact ⟨b, _, q, e, rfl, hs', hq, he', rfl⟩
  case display => exact ⟨b, _, x, l, rfl, hs', rfl, hl, hx, hdisp⟩

end DisplayKept

theorem deviceFor_mem {devs : List Addr} (ha : deviceFor h device devs = some a) : a ∈ devs := by
  rcases Option.or_eq_some_iff.1 ha with ha | ⟨-, ha⟩
  · exact List.mem_of_find?_eq_some ha
  · exact List.mem_of_find?_eq_some ha

/-- A Monitor entry at the head of a Screen section points to a Monitor section. -/
theorem Parsed.exists_monitor {c : ConfigRec} {devs scrns mons : List Addr} {s : ScreenRec}
    {q : Addr} {e : MonitorEntryRec} (hp : Parsed h configIR c devs scrns mons) (hb : b ∈ scrns)
    (hs : h.screen b = some s) (hq : s.scrnMonitorLst = some q) (he : h.monitorEntry q = some e) :
    ∃ m, e.scrnMonitor = some m ∧ m ∈ mons := by
  obtain ⟨l, hl, hentry⟩ := hp.entries b hb s hs
  rw [hq] at hl
  obtain ⟨l', rfl, -⟩ := (Heap.list_eq_some.1 hl).1.exists_cons_of_some
  obtain ⟨e', m, he', hem, hm⟩ := hentry q (by simp)
  obtain rfl := Option.some.inj (he'.symm.trans he)
  exact ⟨m, hem, hm⟩

/-- What is left of a call after the Monitor entry. -/
theorem findActiveSections_eq_ok {refConfig : Nat} {lines : Bool}
    (hr : findActiveSections h device configIR refConfig lines mem = .ok (act, h')) :
    ∃ a h₁ b h₂ mon entry h₃, deviceSection h device configIR mem = .ok (a, h₁) ∧
      screenSection h₁ device configIR a lines mem = .ok (b, h₂) ∧
      monitorEntry h₂ device configIR b refConfig mem = .ok (mon, entry, h₃) ∧
      (entry = none ∧ act = ⟨some a, some b, mon, none⟩ ∧ h' = h₃ ∨
        ∃ q e x, entry = some q ∧ h₃.monitorEntry q = some e ∧
          displaySubsection h₃ b e refConfig mem = .ok (x, h') ∧
          act = ⟨some a, some b, e.scrnMonitor, x⟩) := by
  simp only [findActiveSections, bind_eq_ok] at hr
  obtain ⟨⟨a, h₁⟩, hdev, ⟨b, h₂⟩, hscr, ⟨mon, entry, h₃⟩, hmon, hr⟩ := hr
  refine ⟨a, h₁, b, h₂, mon, entry, h₃, hdev, hscr, hmon, ?_⟩
  cases entry with
  | none =>
    cases hr
    exact .inl ⟨rfl, rfl, rfl⟩
  | some q =>
    simp only [bind_eq_ok, deref_eq_ok, Except.ok.injEq, Prod.mk.injEq] at hr
    obtain ⟨e, he, ⟨x, h₄⟩, hx, rfl, rfl⟩ := hr
    exact .inr ⟨q, e, x, rfl, he, hx, rfl⟩

/-- The condition, when there is a Device section for the device. -/
theorem present_iff {c : ConfigRec} {devs scrns mons : List Addr} {d : DeviceRec}
    (hp : Parsed h configIR c devs scrns mons) (ha : deviceFor h device devs = some a)
    (hd : h.device a = some d) :
    Present h configIR device mem ↔ ∃ b s q e l,
      (scrns.find? fun b => (h.screen b).any fun s => s.names d.devIdentifier) = some b ∧
      h.screen b = some s ∧ s.scrnMonitorLst = some q ∧ h.monitorEntry q = some e ∧
      h.list s.scrnDisplayLst = some l ∧
      (mem.display ∨ ∃ x ∈ l, (h.display x).any fun y => y.isFor s e) := by
  constructor
  · rintro ⟨c', devs', scrns', a', d', b, s, q, e, l, hc', hl', ha', hd', hs', hrest⟩
    obtain rfl := Option.some.inj (hc'.symm.trans hp.config)
    obtain rfl := Option.some.inj (hl'.symm.trans hp.devices)
    obtain rfl := Option.some.inj (ha'.symm.trans ha)
    obtain rfl := Option.some.inj (hd'.symm.trans hd)
    obtain rfl := Option.some.inj (hs'.symm.trans hp.screens)
    exact ⟨b, s, q, e, l, hrest⟩
  · rintro ⟨b, s, q, e, l, hrest⟩
    exact ⟨c, devs, scrns, a, d, b, s, q, e, l, hp.config, hp.devices, ha, hd, hp.screens, hrest⟩

/-- After the Monitor entry no step undoes a list. -/
theorem keeps_rest {refConfig : Nat} {mon entry : Option Addr} {lst : ConfigRec → Option Addr}
    (hlst : ∀ c q, lst { c with confFiles := q } = lst c)
    (hr : entry = none ∧ act = ⟨some a, some b, mon, none⟩ ∧ h' = h ∨
      ∃ q e x, entry = some q ∧ h.monitorEntry q = some e ∧
        displaySubsection h b e refConfig mem = .ok (x, h') ∧
        act = ⟨some a, some b, e.scrnMonitor, x⟩) : Keeps lst h h' := by
  obtain ⟨-, -, rfl⟩ | ⟨q, e, x, -, -, hx, -⟩ := hr
  · exact Keeps.refl _
  · exact keeps_displaySubsection hlst hx

/-- Without a Monitor entry there is no Monitor section, or one that is not in the list. -/
theorem not_integrity_of_no_entry {refConfig : Nat} {mon entry : Option Addr}
    (hno : mon = none ∧ entry = none ∨ Loops ConfigRec.confMonitorLst h₁ configIR)
    (hr : entry = none ∧ act = ⟨some a, some b, mon, none⟩ ∧ h' = h₁ ∨
      ∃ q e x, entry = some q ∧ h₁.monitorEntry q = some e ∧
        displaySubsection h₁ b e refConfig mem = .ok (x, h') ∧
        act = ⟨some a, some b, e.scrnMonitor, x⟩) : ¬ Integrity h h' configIR act := by
  obtain ⟨rfl, rfl⟩ | hloop := hno
  · obtain ⟨-, rfl, -⟩ | ⟨q, e, x, he, -⟩ := hr
    · intro hi
      obtain ⟨c, c', old, new, m, -, -, -, -, hm, -⟩ := hi.monitor
      cases hm
    · cases he
  · exact not_integrity_of_loops_monitor (hloop.keeps (keeps_rest (fun _ _ => rfl) hr))

/-- The condition, when the sections are there up to the Monitor entry. -/
theorem present_iff_display {scrns : List Addr} {d : DeviceRec} {s : ScreenRec} {q : Addr}
    {e : MonitorEntryRec}
    (hb : (scrns.find? fun b => (h.screen b).any fun s => s.names d.devIdentifier) = some b)
    (hs : h.screen b = some s) (hq : s.scrnMonitorLst = some q) (he : h.monitorEntry q = some e)
    (hl : h.list s.scrnDisplayLst = some l) :
    (∃ b s q e l,
      (scrns.find? fun b => (h.screen b).any fun s => s.names d.devIdentifier) = some b ∧
      h.screen b = some s ∧ s.scrnMonitorLst = some q ∧ h.monitorEntry q = some e ∧
      h.list s.scrnDisplayLst = some l ∧
      (mem.display ∨ ∃ x ∈ l, (h.display x).any fun y => y.isFor s e)) ↔
      (mem.display ∨ ∃ x ∈ l, (h.display x).any fun y => y.isFor s e) := by
  constructor
  · rintro ⟨b', s', q', e', l', hb', hs', hq', he', hl', hc⟩
    obtain rfl := Option.some.inj (hb.symm.trans hb')
    obtain rfl := Option.some.inj (hs.symm.trans hs')
    obtain rfl := Option.some.inj (hq.symm.trans hq')
    obtain rfl := Option.some.inj (he.symm.trans he')
    obtain rfl := Option.some.inj (hl.symm.trans hl')
    exact hc
  · intro hc
    exact ⟨b, s, q, e, l, hb, hs, hq, he, hl, hc⟩

/-- With the sections there up to the Monitor entry, the references hold if and only if there is a
Display subsection or memory for one. -/
theorem integrity_iff_display {c : ConfigRec} {devs scrns mons : List Addr} {d : DeviceRec}
    {s : ScreenRec} {q : Addr} {e : MonitorEntryRec} {refConfig : Nat} {x : Option Addr}
    (hp : Parsed h configIR c devs scrns mons) (href : refConfig &&& subsctnDisplay ≠ 0)
    (ha : a ∈ devs) (hd : h.device a = some d)
    (hb : (scrns.find? fun b => (h.screen b).any fun s => s.names d.devIdentifier) = some b)
    (hs : h.screen b = some s) (hq : s.scrnMonitorLst = some q) (he : h.monitorEntry q = some e)
    (hl : h.list s.scrnDisplayLst = some l) (hdisp : ∀ y ∈ l, (h.display y).isSome)
    (hx : displaySubsection h b e refConfig mem = .ok (x, h')) :
    Integrity h h' configIR ⟨some a, some b, e.scrnMonitor, x⟩ ↔
      (mem.display ∨ ∃ x ∈ l, (h.display x).any fun y => y.isFor s e) := by
  have hmem := List.mem_of_find?_eq_some hb
  have hn : s.names d.devIdentifier := by
    have := List.find?_some hb
    rwa [hs, Option.any_some] at this
  obtain ⟨m, hem, hm⟩ := hp.exists_monitor hmem hs hq he
  obtain ⟨hc, y, rfl, hk⟩ | ⟨hc, hnone⟩ := displaySubsection_eq_ok href hs hl hdisp hx
  · refine iff_of_true ?_ hc
    exact hk.integrity (Heap.screen_eq_some.1 hs) hp ha hd hmem hn hq he hem hm
  · refine iff_of_false (fun hi => ?_) hc
    obtain ⟨b', s', y, l', -, -, hy, -⟩ := hi.display
    rw [show x = none from hnone] at hy
    cases hy

theorem mem_of_mapM {α β : Type} {f : α → Option β} {xs : List α} {ys : List β}
    (hm : xs.mapM f = some ys) : ys.length = xs.length ∧ ∀ x ∈ xs, ∀ y, f x = some y → y ∈ ys := by
  induction xs generalizing ys with
  | nil =>
    cases hm
    simp
  | cons x xs ih =>
    simp only [List.mapM_cons, Option.bind_eq_bind, Option.bind_eq_some_iff, Option.pure_def,
      Option.some.injEq] at hm
    obtain ⟨y, hy, zs, hzs, rfl⟩ := hm
    obtain ⟨hlen, hmem⟩ := ih hzs
    refine ⟨by simp [hlen], ?_⟩
    rintro z hz w hw
    obtain rfl | hz := List.mem_cons.1 hz
    · rw [hy] at hw
      cases hw
      simp
    · exact List.mem_cons_of_mem _ (hmem z hz w hw)

/-- A list with one more section of the kind. -/
theorem Kept.of_perm {ident : Addr → Option Str} {old new : List Addr} {n : Addr} {id : Str}
    (hnew : ∀ a, a ∈ new ↔ a = n ∨ a ∈ old) (hord : old.Sublist new) (hid : ident n = some id)
    (hold : ∀ a ∈ old, ∃ t, ident a = some t ∧ nameEq id t = false) : Kept ident old new := by
  refine ⟨fun a ha => ?_, hord, fun a ha hna b hb hba s t hs ht => ?_⟩
  · obtain rfl | ha := (hnew a).1 ha
    · simp [hid]
    · obtain ⟨t, ht, -⟩ := hold a ha
      simp [ht]
  · obtain rfl | ha := (hnew a).1 ha
    · obtain rfl | hb := (hnew b).1 hb
      · exact absurd rfl hba
      · obtain ⟨t', ht', he⟩ := hold b hb
        rw [hs] at hid
        rw [ht] at ht'
        cases hid
        cases ht'
        exact he
    · exact absurd ha hna

/-- The Screen sections of before and a new one, all of them up to their links. -/
theorem kept_screen {new : ScreenRec} {L : List Addr} {tmpl : Str} {sectns : List ScreenRec}
    (hscr : ∀ a ∈ l, (h.screen a).isSome) (hsectns : l.mapM h.screen = some sectns)
    (hlen : l.length < 2 ^ 32)
    (hid : new.scrnIdentifier = uniqueIdentifier tmpl (sectns.map ScreenRec.scrnIdentifier))
    (hL : ∀ a, a ∈ L ↔ a = h.length ∨ a ∈ l) (hsub : l.Sublist L)
    (hrec : ∀ (a : Addr) s, (h ++ [Rec.screen new])[a]? = some (Rec.screen s) →
      ∃ q, h'[a]? = some (Rec.screen { s with next := q })) : Kept h'.screenIdent l L := by
  obtain ⟨hlen', hmem⟩ := mem_of_mapM hsectns
  have hident : ∀ (a : Addr) s, (h ++ [Rec.screen new])[a]? = some (Rec.screen s) →
      h'.screenIdent a = some s.scrnIdentifier := by
    intro a s ha
    obtain ⟨q, hq⟩ := hrec a s ha
    rw [Heap.screenIdent, Heap.screen_eq_some.2 hq]
    rfl
  refine Kept.of_perm hL hsub (hident _ _ List.getElem?_concat_length) fun a ha => ?_
  obtain ⟨s, hs⟩ := Option.isSome_iff_exists.1 (hscr a ha)
  refine ⟨_, hident a s (Heap.getElem?_append_of_some (Heap.screen_eq_some.1 hs)), ?_⟩
  rw [hid]
  apply uniqueIdentifier_fresh (by simpa [hlen'] using hlen) _
  exact List.mem_map_of_mem (hmem a ha s hs)

/-- A new Screen section does go into the list, at its end or its head, with an identifier of its
own. -/
theorem listed_insertScreenSection {c : ConfigRec} {devs scrns mons : List Addr} {last : Bool}
    {tmpl str : Str} {x : Addr × Heap} (hp : Parsed h configIR c devs scrns mons)
    (hlen : scrns.length < 2 ^ 32)
    (hr : insertScreenSection h configIR last tmpl str mem = .ok x) :
    Listed Heap.screenIdent ConfigRec.confScreenLst h x.2 configIR (some x.1) := by
  obtain ⟨c', l, sectns, new, hc', hl', hsectns, hnull, -, hid, hx₁, hcase⟩ :=
    insertScreenSection_eq_ok hr
  obtain rfl := Option.some.inj (hc'.symm.trans hp.config)
  obtain rfl := Option.some.inj (hl'.symm.trans hp.screens)
  have hn : h.length ∉ l := fun hm => Nat.lt_irrefl _ ((Heap.list_eq_some.1 hl').2 _ hm)
  have hc₀ := Heap.config_eq_some.1 hc'
  have hc₁ : (h ++ [Rec.screen new])[configIR]? = some (.config c') :=
    Heap.getElem?_append_of_some hc₀
  have hcl : configIR ∉ l := by
    intro hm
    obtain ⟨s, hs⟩ := Option.isSome_iff_exists.1 (hp.isScreen _ hm)
    cases (Heap.screen_eq_some.1 hs).symm.trans hc₀
  rw [hx₁]
  obtain ⟨y, hy, hx⟩ | hx := hcase
  · have hlist := list_addListItem hy (list_append hl') List.getElem?_concat_length hnull hn
    refine ⟨c', { c' with confScreenLst := y.1 }, l, l ++ [h.length], h.length, hc', ?_, hl', ?_,
      rfl, by simp, kept_screen hp.isScreen hsectns hlen hid (by simp [or_comm])
        (List.sublist_append_left ..) ?_⟩
    · rw [hx, Heap.config_eq_some, setConfig, Heap.getElem?_modify_of_some
        ((getElem?_addListItem hy (list_append hl') hcl).trans hc₁), if_pos rfl]
    · rw [hx]
      exact setConfig_list (fun _ => rfl) hlist
    · intro a s ha
      obtain ⟨q, hq⟩ := exists_setNext_addListItem hy ha
      exact ⟨q, hx ▸ setConfig_getElem?_screen hq⟩
  · have hcn : configIR ≠ h.length := (List.getElem?_eq_some_iff.1 hc₀).1.ne
    have hnew := setScreen_getElem?_self (f := fun s => { s with next := c'.confScreenLst })
      (List.getElem?_concat_length (l := h) (a := Rec.screen new))
    refine ⟨c', { c' with confScreenLst := some h.length }, l, h.length :: l, h.length, hc', ?_,
      hl', ?_, rfl, by simp, kept_screen hp.isScreen hsectns hlen hid (by simp)
        (List.sublist_cons_self ..) ?_⟩
    · rw [hx, Heap.config_eq_some, setConfig, Heap.getElem?_modify_of_some
        ((setScreen_getElem?_ne hcn).trans hc₁), if_pos rfl]
    · rw [hx]
      refine setConfig_list (fun _ => rfl) (Heap.list_cons hnew ?_)
      have hl₁ : Heap.list (h ++ [Rec.screen new]) c'.confScreenLst = some l := list_append hl'
      apply Heap.list_congr hl₁
      intro a ha
      have hne : a ≠ h.length := fun he => hn (he ▸ ha)
      rw [Heap.link, setScreen_getElem?_ne hne, Heap.link]
    · intro a s ha
      rw [hx]
      by_cases han : a = h.length
      · subst han
        exact ⟨_, setConfig_getElem?_screen (setScreen_getElem?_self ha)⟩
      · exact ⟨s.next, setConfig_getElem?_screen ((setScreen_getElem?_ne han).trans ha)⟩

/-- **When the references hold.** A call that succeeds leaves a configuration with its references if
and only if the Device section, a Screen section that names it and a Monitor entry of that were
there, with a Display subsection or memory for one. -/
theorem findActiveSections_integrity_iff {c : ConfigRec} {devs scrns mons : List Addr}
    {refConfig : Nat} {lines : Bool} (hp : Parsed h configIR c devs scrns mons)
    (href : refConfig &&& subsctnDisplay ≠ 0)
    (hr : findActiveSections h device configIR refConfig lines mem = .ok (act, h')) :
    Integrity h h' configIR act ↔ Present h configIR device mem := by
  obtain ⟨a, h₁, b, h₂, mon, entry, h₃, hdev, hscr, hmon, hr⟩ := findActiveSections_eq_ok hr
  obtain ⟨s, hs₂, hk₂, hentry⟩ := monitorEntry_eq_ok href hmon
  dsimp only at hk₂ hentry
  obtain ⟨hfor, hs⟩ | ⟨hfor, hloop⟩ := deviceSection_eq_ok hp.config hp.devices hdev
  case inr =>
    have hk := (keeps_screenSection hscr).trans (hk₂.trans (keeps_rest (fun _ _ => rfl) hr))
    apply iff_of_false (not_integrity_of_loops_device (hloop.keeps hk))
    rintro ⟨c', devs', scrns', a', d', b, s, q, e, l, hc', hl', ha', -⟩
    obtain rfl := Option.some.inj (hc'.symm.trans hp.config)
    obtain rfl := Option.some.inj (hl'.symm.trans hp.devices)
    rw [hfor] at ha'
    cases ha'
  case inl =>
    have hp₁ := hs.parsed hp
    obtain ⟨d, hd, hfind⟩ := screenSection_eq_ok hp₁.config hp₁.screens hscr
    obtain ⟨d₀, hd₀, hid⟩ : ∃ d₀, h.device a = some d₀ ∧ d₀.devIdentifier = d.devIdentifier := by
      have he := congrFun hs.deviceIdent a
      simp only [Heap.deviceIdent, hd, Option.map_some] at he
      exact Option.map_eq_some_iff.1 he.symm
    rw [present_iff hp hfor hd₀, hid]
    rw [hs.screen] at hfind
    obtain ⟨hfind, rfl⟩ | ⟨hfind, s', hs', hnone⟩ := hfind
    case inr =>
      obtain rfl := Option.some.inj (hs₂.symm.trans hs')
      obtain ⟨q, hq, -⟩ | ⟨-, hno⟩ := hentry
      · rw [hnone] at hq
        cases hq
      · apply iff_of_false (not_integrity_of_no_entry hno hr)
        rintro ⟨b', s', q, e, l, hfind', -⟩
        rw [hfind] at hfind'
        cases hfind'
    case inl =>
      have hs₀ : h.screen b = some s := by rw [← hs.screen, hs₂]
      obtain ⟨q, hq, hx⟩ | ⟨hnone, hno⟩ := hentry
      case inr =>
        apply iff_of_false (not_integrity_of_no_entry hno hr)
        rintro ⟨b', s', q, e, l, hfind', hs', hq, -⟩
        obtain rfl := Option.some.inj (hfind.symm.trans hfind')
        obtain rfl := Option.some.inj (hs₀.symm.trans hs')
        rw [hnone] at hq
        cases hq
      case inl =>
        cases hx
        obtain ⟨he, -⟩ | ⟨q', e, x, hq', he, hx, rfl⟩ := hr
        · cases he
        cases hq'
        have he₀ : h.monitorEntry q = some e := by rw [← hs.monitorEntry, he]
        obtain ⟨l, hl, hdisp⟩ := hp₁.displays b (List.mem_of_find?_eq_some hfind) s hs₂
        rw [present_iff_display hfind hs₀ hq he₀ (by rw [← hs.list, hl]), ← hs.display]
        rw [← hs.screen] at hfind
        rw [← hs.integrity]
        exact integrity_iff_display hp₁ href (deviceFor_mem hfor) hd hfind hs₂ hq he hl hdisp hx

/-- Memory for all. -/
def enough : Mem := ⟨true, true, true, true, true, true, true, true, true, true, true, true⟩

/-- `/dev/fbs/ast0` -/
def ast0 : Device := ⟨chars "/dev/fbs/ast0", chars "ast0", chars "ast", false⟩

/-- The configuration without a file, with the record at 0. -/
def emptyConfig : Heap := [.config ⟨none, none, none, none⟩]

theorem parsed_emptyConfig : Parsed emptyConfig 0 ⟨none, none, none, none⟩ [] [] [] := by
  constructor <;> simp [emptyConfig, Heap.config, Heap.list, readList, Rec.config?]

/-- A configuration with the sections for `ast0`. -/
def ast0Config : Heap :=
  [.config ⟨none, some 3, some 1, some 2⟩,
    .device ⟨none, chars "Card0", chars "ast", 0, [⟨chars "Device", some ast0.path⟩]⟩,
    .screen ⟨none, chars "Screen0", 24, 32, some 4, some (chars "card_0"), none⟩,
    .monitor ⟨none, chars "Monitor0"⟩,
    .monitorEntry ⟨none, false, 0, chars "Monitor0", some 3⟩]

theorem parsed_ast0Config :
    Parsed ast0Config 0 ⟨none, some 3, some 1, some 2⟩ [1] [2] [3] := by
  constructor
  case entries =>
    rintro a ha s hs
    obtain rfl := List.mem_singleton.1 ha
    cases hs
    refine ⟨[4], by decide, ?_⟩
    rintro x hx
    obtain rfl := List.mem_singleton.1 hx
    exact ⟨_, 3, rfl, rfl, by simp⟩
  case displays =>
    rintro a ha s hs
    obtain rfl := List.mem_singleton.1 ha
    cases hs
    exact ⟨[], by decide, by simp⟩
  all_goals decide

theorem findActiveSections_integrity_ast0 :
    ∃ act h', findActiveSections ast0Config ast0 0 0x0006 true enough = .ok (act, h') ∧
      Integrity ast0Config h' 0 act := by
  have hr : findActiveSections ast0Config ast0 0 0x0006 true enough = .ok (_, _) := rfl
  refine ⟨_, _, hr, (findActiveSections_integrity_iff parsed_ast0Config (by decide) hr).2 ?_⟩
  refine ⟨_, [1], [2], 1, _, 2, _, 4, _, [], rfl, by decide, by decide +kernel, rfl, by decide,
    by decide +kernel, rfl, rfl, rfl, by decide, .inl rfl⟩

/-- Without a configuration file, a call that succeeds leaves a list of Device sections that has the
configuration in it. -/
theorem integrity_fails_without_sections :
    ¬ ∀ (h h' : Heap) (device : Device) (configIR : Addr) (c : ConfigRec)
        (devs scrns mons : List Addr) (lines : Bool) (mem : Mem) (act : Active),
      Parsed h configIR c devs scrns mons →
      findActiveSections h device configIR (sectionMonitor ||| subsctnDisplay) lines mem =
        .ok (act, h') → Integrity h h' configIR act := by
  intro hall
  obtain ⟨act, h', hr, hc⟩ : ∃ act h',
      findActiveSections emptyConfig ast0 0 (sectionMonitor ||| subsctnDisplay) false enough =
        .ok (act, h') ∧ h'.config 0 = some ⟨none, some 0, some 0, some 2⟩ := ⟨_, _, rfl, rfl⟩
  have hloop : Loops ConfigRec.confDeviceLst h' 0 := ⟨_, [], hc, rfl⟩
  exact not_integrity_of_loops_device hloop
    (hall emptyConfig h' ast0 0 _ _ _ _ false enough act parsed_emptyConfig hr)

end Integrity

end EditConfig
