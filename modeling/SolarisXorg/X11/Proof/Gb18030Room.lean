import SolarisXorg.X11.Gb18030Units
import SolarisXorg.X11.Proof.Gb18030Ct

/-!
# The room of `gb18030_wcstocts`

A pass at a character writes it, or leaves the loop where the room that it looks for is not there
(`wcstoctsPass_unit`); for an ASCII character after another it does not look. Characters that all find
what they look for (`Room`) are written one after the other, and the first that does not is lost
(`wcstocts_units`). What that means for the text as a whole is `room_iff`, and with it
`wcstocts_ok_iff` says when the converter keeps its promise.
-/

namespace X11

open Lib

variable {fromLeft toLeft : Int} {W : Type*} {wctomb : W → Option (List UInt8)} {pwc : Nat → W}

/-! ## The room that is looked for -/

/-- The encoder finds the room that it looks for, if it looks: `j` bytes are there already, the last of
them for a character of charset `prev`. -/
def HasRoom (toLeft : Int) (prev : Option CharSetType) (j : Nat) (u : CtUnit) : Prop :=
  (prev = some .ascii ∧ u.charset = .ascii) ∨
    (j + (ctSwitch prev u.charset).length + u.bytes.length : Int) < toLeft

instance (toLeft : Int) (prev : Option CharSetType) (j : Nat) (u : CtUnit) :
    Decidable (HasRoom toLeft prev j u) := inferInstanceAs (Decidable (_ ∨ _))

/-- So it does for each character. -/
def Room (toLeft : Int) : Option CharSetType → Nat → List (Option CtUnit) → Prop
  | _, _, [] => True
  | prev, j, none :: us => Room toLeft prev j us
  | prev, j, some u :: us =>
    HasRoom toLeft prev j u ∧
      Room toLeft (some u.charset) (j + (ctSwitch prev u.charset).length + u.bytes.length) us

theorem ctUnit_bytes_pos {c : Ptr} {u : CtUnit} (h : ctUnit c = some u) : 0 < u.bytes.length := by
  unfold ctUnit at h
  split at h
  · cases h
    exact Nat.succ_pos _
  split at h
  · cases h
    exact Nat.succ_pos _
  split at h
  · cases h
    exact Nat.succ_pos _
  split at h
  · cases h
    exact Nat.succ_pos _
  · cases h

theorem wcUnits_bytes_pos {n k : Nat} {q : Ptr} :
    ∀ u, some u ∈ wcUnits wctomb pwc n k q → 0 < u.bytes.length := by
  induction n generalizing k q with
  | zero => intro u hu; cases hu
  | succ n ih =>
    intro u hu
    rw [wcUnits] at hu
    split at hu
    · cases hu
    · rcases List.mem_cons.1 hu with hu | hu
      · exact ctUnit_bytes_pos hu.symm
      · exact ih u hu

theorem wcUnits_length_le (n k : Nat) (q : Ptr) : (wcUnits wctomb pwc n k q).length ≤ n := by
  induction n generalizing k q with
  | zero => exact Nat.le_refl 0
  | succ n ih =>
    rw [wcUnits]
    split
    · exact Nat.zero_le _
    · exact Nat.succ_le_succ (ih _ _)

theorem unitsCharsets_cons (u : CtUnit) (us : List (Option CtUnit)) :
    unitsCharsets (some u :: us) = u.charset :: unitsCharsets us := rfl

/-- A text ends in ASCII by itself, or as one character after the one before it. -/
theorem endsInAscii_cons {prev : Option CharSetType} {u : CtUnit} {us : List (Option CtUnit)} :
    EndsInAscii prev (some u :: us) ↔
      if unitsCharsets us = [] then prev = some .ascii ∧ u.charset = .ascii
      else EndsInAscii (some u.charset) us := by
  have hne : unitsCharsets (some u :: us) ≠ [] := List.cons_ne_nil _ _
  rw [EndsInAscii, or_iff_right hne, unitsCharsets_cons]
  by_cases hus : unitsCharsets us = []
  · rw [if_pos hus, hus]
    constructor
    · rintro ⟨pre, hpre⟩
      cases prev with
      | none =>
        have := congrArg List.length hpre
        simp at this
      | some t =>
        have hnil : pre = [] := by
          have := congrArg List.length hpre
          simpa using this
        rw [hnil] at hpre
        simp only [List.nil_append, Option.toList_some, List.singleton_append, List.cons.injEq,
          and_true] at hpre
        exact ⟨by rw [hpre.1], hpre.2.symm⟩
    · rintro ⟨rfl, hu⟩
      rw [hu]
      exact ⟨[], rfl⟩
  · rw [if_neg hus, EndsInAscii, or_iff_right hus]
    have hlen : 2 ≤ (u.charset :: unitsCharsets us).length := by
      rw [List.length_cons]
      have := List.length_pos_iff.2 hus
      omega
    constructor
    · intro h
      exact List.suffix_of_suffix_length_le h (List.suffix_append _ _) hlen
    · intro h
      exact h.trans (List.suffix_append _ _)

theorem unitsText_length_pos {us : List (Option CtUnit)}
    (hpos : ∀ u, some u ∈ us → 0 < u.bytes.length) (prev : Option CharSetType) :
    0 < (unitsText prev us).length ↔ unitsCharsets us ≠ [] := by
  induction us generalizing prev with
  | nil => simp [unitsText, unitsCharsets]
  | cons u us ih =>
    cases u with
    | none => exact ih (fun v hv => hpos v (List.mem_cons_of_mem _ hv)) prev
    | some u =>
      have hu := hpos u List.mem_cons_self
      rw [unitsText, List.length_append, List.length_append]
      exact iff_of_true (by omega) (List.cons_ne_nil _ _)

/-- The text of one character more is longer. -/
theorem unitsText_take_lt {us : List (Option CtUnit)}
    (hpos : ∀ u, some u ∈ us → 0 < u.bytes.length) {m : Nat} {u : CtUnit}
    (hm : us[m]? = some (some u)) (prev : Option CharSetType) :
    (unitsText prev (us.take m)).length < (unitsText prev (us.take (m + 1))).length := by
  induction us generalizing m prev with
  | nil => cases hm
  | cons v us ih =>
    have hpos' : ∀ u, some u ∈ us → 0 < u.bytes.length := fun u hu =>
      hpos u (List.mem_cons_of_mem _ hu)
    cases m with
    | zero =>
      cases hm
      have hu := hpos u List.mem_cons_self
      simp only [List.take_zero, List.take_succ_cons, unitsText, List.length_append, List.length_nil]
      omega
    | succ m =>
      rw [List.getElem?_cons_succ] at hm
      cases v with
      | none => exact ih hpos' hm prev
      | some v =>
        have hrest := ih hpos' hm (some v.charset)
        rw [List.take_succ_cons, List.take_succ_cons, unitsText, unitsText]
        simp only [List.length_append]
        omega

/-- **All room that is looked for is there, and the output is not overrun**, exactly if the text leaves
a byte, or fills the output with ASCII at its end. -/
theorem room_iff {us : List (Option CtUnit)} (hpos : ∀ u, some u ∈ us → 0 < u.bytes.length)
    (prev : Option CharSetType) (j : Nat) :
    (Room toLeft prev j us ∧ j + (unitsText prev us).length ≤ toLeft.toNat) ↔
      j + (unitsText prev us).length < toLeft.toNat ∨
        (j + (unitsText prev us).length = toLeft.toNat ∧ EndsInAscii prev us) := by
  induction us generalizing prev j with
  | nil =>
    have hend : EndsInAscii prev [] := .inl rfl
    simp only [Room, hend, and_true, true_and]
    omega
  | cons u us ih =>
    have hpos' : ∀ v, some v ∈ us → 0 < v.bytes.length := fun v hv =>
      hpos v (List.mem_cons_of_mem _ hv)
    cases u with
    | none => exact ih hpos' prev j
    | some u =>
      have hrest := ih hpos' (some u.charset)
        (j + (ctSwitch prev u.charset).length + u.bytes.length)
      have hmore := unitsText_length_pos hpos' (some u.charset)
      simp only [Room, HasRoom, unitsText, List.length_append]
      rw [endsInAscii_cons]
      by_cases hus : unitsCharsets us = []
      · have hend : EndsInAscii (some u.charset) us := .inl hus
        rw [if_pos hus]
        simp only [hend, and_true] at hrest
        have hnil : (unitsText (some u.charset) us).length = 0 := by
          have := mt hmore.1 (not_not.2 hus)
          omega
        rw [hnil] at hrest ⊢
        constructor
        · rintro ⟨⟨hascii | hlt, -⟩, hle⟩
          · by_cases hfull : j + ((ctSwitch prev u.charset).length + u.bytes.length + 0) = toLeft.toNat
            · exact .inr ⟨hfull, hascii⟩
            · left
              omega
          · left
            omega
        · rintro (hlt | ⟨heq, hascii⟩)
          · exact ⟨⟨.inr (by omega), (hrest.2 (by omega)).1⟩, by omega⟩
          · exact ⟨⟨.inl hascii, (hrest.2 (by omega)).1⟩, by omega⟩
      · rw [if_neg hus]
        have hlen := hmore.2 hus
        constructor
        · rintro ⟨⟨-, hroom⟩, hle⟩
          rcases hrest.1 ⟨hroom, by omega⟩ with hlt | ⟨heq, hend⟩
          · left
            omega
          · exact .inr ⟨by omega, hend⟩
        · intro h
          have hright : j + (ctSwitch prev u.charset).length + u.bytes.length +
                (unitsText (some u.charset) us).length < toLeft.toNat ∨
              (j + (ctSwitch prev u.charset).length + u.bytes.length +
                (unitsText (some u.charset) us).length = toLeft.toNat ∧
                  EndsInAscii (some u.charset) us) := by
            rcases h with hlt | ⟨heq, hend⟩
            · left
              omega
            · exact .inr ⟨by omega, hend⟩
          obtain ⟨hroom, hle⟩ := hrest.2 hright
          exact ⟨⟨.inr (by omega), hroom⟩, by omega⟩

/-! ## Passes -/

/-- The branch for the character `u`, and the one for a character of no charset. -/
def unitPass (fromLeft toLeft : Int) (prev : Option CharSetType) (s : CtState) :
    Option CtUnit → Pass CtState Converted
  | none => .next { s with unconvNum := s.unconvNum + 1 }
  | some u =>
    if HasRoom toLeft prev s.out.length u then
      .next { s with
        out := s.out ++ ctSwitch prev u.charset ++ u.bytes
        flag := u.charset.wcNumber }
    else .leave (s.finish fromLeft toLeft)

theorem ctChar_unit {s : CtState} {prev : Option CharSetType}
    (hflag : s.flag = flagOf CharSetType.wcNumber prev) (t : CharSetType) (ht : t ≠ .ascii)
    (l : List UInt8) :
    ctChar fromLeft toLeft t.name t.wcNumber l 0 s =
      unitPass fromLeft toLeft prev s (some ⟨t, l⟩) := by
  rw [ctChar_eq wcNumber_numbering hflag, unitPass]
  by_cases hroom : (s.out.length + (ctSwitch prev t).length + l.length : Int) < toLeft
  · rw [if_neg (by omega), if_pos (.inr hroom)]
    rfl
  · have hno : ¬ HasRoom toLeft prev s.out.length ⟨t, l⟩ := by
      rintro (⟨-, h⟩ | h)
      · exact ht h
      · exact hroom h
    rw [if_pos (by omega), if_neg hno]

theorem ctEscape_ascii {s : CtState} {prev : Option CharSetType}
    (hflag : s.flag = flagOf CharSetType.wcNumber prev) (b : UInt8) :
    ((ctEscape fromLeft toLeft "ASCII" 3 1 s).andThen fun s =>
        .next { s with out := s.out ++ [b] }) =
      unitPass fromLeft toLeft prev s (some ⟨.ascii, [b]⟩) := by
  have hesc := @ctEscape_eq fromLeft toLeft prev .ascii s _ wcNumber_numbering hflag 1
  have hname : CharSetType.ascii.name = "ASCII" := rfl
  have hnumber : CharSetType.ascii.wcNumber = 3 := rfl
  rw [hname, hnumber] at hesc
  rw [hesc, unitPass]
  by_cases hsame : prev = some .ascii
  · have hroom : HasRoom toLeft prev s.out.length ⟨.ascii, [b]⟩ := .inl ⟨hsame, rfl⟩
    rw [hsame] at hflag
    rw [if_pos hsame, if_pos hroom, ctSwitch, if_pos hsame, List.append_nil]
    simp only [Pass.andThen, hflag, flagOf]
  · rw [if_neg hsame]
    have hswitch : ctSwitch prev .ascii = CharSetType.ascii.encodeString := if_neg hsame
    by_cases hroom : (s.out.length + CharSetType.ascii.encodeString.length + 1 : Int) < toLeft
    · have hyes : HasRoom toLeft prev s.out.length ⟨.ascii, [b]⟩ := by
        right
        rw [hswitch]
        exact hroom
      rw [if_neg (by omega), if_pos hyes, hswitch]
      rfl
    · have hno : ¬ HasRoom toLeft prev s.out.length ⟨.ascii, [b]⟩ := by
        rintro (⟨h, -⟩ | h)
        · exact hsame h
        · rw [hswitch] at h
          exact hroom h
      rw [if_pos (by omega), if_neg hno]
      rfl

/-- **A pass** at a wide character goes by what the character is taken for. -/
theorem wcstoctsPass_unit {s : CtState} {q : Ptr} {l : List UInt8} {prev : Option CharSetType}
    (hi : s.i < fromLeft) (hw : wctomb (pwc s.i) = some l)
    (hflag : s.flag = flagOf CharSetType.wcNumber prev) :
    wcstoctsPass fromLeft toLeft wctomb pwc (s, q) =
      (unitPass fromLeft toLeft prev { s with i := s.i + 1 } (ctUnit (q.store l))).map
        fun s => (s, q.store l) := by
  have hchar := @ctChar_unit fromLeft toLeft { s with i := s.i + 1 } prev hflag
  have hascii := @ctEscape_ascii fromLeft toLeft { s with i := s.i + 1 } prev hflag
  simp only [wcstoctsPass, hw]
  rw [if_pos hi]
  generalize q.store l = c
  unfold ctUnit
  congr 1
  split
  · exact hchar .gb2312 (by decide) _
  split
  · exact hchar .gb18030_0 (by decide) _
  split
  · exact hchar .gb18030_1 (by decide) _
  split
  · exact hascii _
  · rfl

/-! ## The whole text -/

/-- **The wide characters from the `k`-th one on**: with all the room that is looked for they are
written one after the other; else the first one without is counted as done and is not written. -/
theorem wcstocts_units {n : Nat} {s : CtState} {q : Ptr} {prev : Option CharSetType}
    (hn : (fromLeft - s.i).toNat = n) (hflag : s.flag = flagOf CharSetType.wcNumber prev) :
    ∃ r, Leaves (wcstoctsPass fromLeft toLeft wctomb pwc) (s, q) r ∧
      (Room toLeft prev s.out.length (wcUnits wctomb pwc n s.i q) →
        r.written = s.out ++ unitsText prev (wcUnits wctomb pwc n s.i q) ∧
          (r.ret ≠ -1 → fromLeft - s.i - r.fromLeft = n)) ∧
      (¬ Room toLeft prev s.out.length (wcUnits wctomb pwc n s.i q) →
        ∃ (m : Nat) (u : CtUnit), (wcUnits wctomb pwc n s.i q)[m]? = some (some u) ∧ r.ret ≠ -1 ∧
          fromLeft - s.i - r.fromLeft = m + 1 ∧
          r.written = s.out ++ unitsText prev ((wcUnits wctomb pwc n s.i q).take m)) := by
  induction n generalizing s q prev with
  | zero =>
    refine ⟨s.finish fromLeft toLeft, .leave ?_, fun _ => ⟨?_, fun _ => ?_⟩, fun h => ?_⟩
    · simp only [wcstoctsPass]
      exact if_neg (by omega)
    · rw [wcUnits, unitsText, List.append_nil]
      rfl
    · simp only [CtState.finish]
      omega
    · exact absurd trivial h
  | succ n ih =>
    have hi : s.i < fromLeft := by omega
    cases hw : wctomb (pwc s.i) with
    | none =>
      have hunits : wcUnits wctomb pwc (n + 1) s.i q = [] := by
        simp only [wcUnits, hw]
      rw [hunits]
      refine ⟨s.fail fromLeft toLeft, .leave ?_, fun _ => ⟨?_, fun h => ?_⟩, fun h => ?_⟩
      · simp only [wcstoctsPass, hw]
        exact if_pos hi
      · exact (List.append_nil _).symm
      · exact absurd rfl h
      · exact absurd trivial h
    | some l =>
      have hunits : wcUnits wctomb pwc (n + 1) s.i q =
          ctUnit (q.store l) :: wcUnits wctomb pwc n (s.i + 1) (q.store l) := by
        simp only [wcUnits, hw]
      have hpass := @wcstoctsPass_unit fromLeft toLeft W wctomb pwc s q l prev hi hw hflag
      rw [hunits]
      cases hu : ctUnit (q.store l) with
      | none =>
        rw [hu] at hpass
        obtain ⟨r, hleaves, hall, hlost⟩ := @ih
          { s with i := s.i + 1, unconvNum := s.unconvNum + 1 } (q.store l) prev
          (by simp only; omega) hflag
        refine ⟨r, .next hpass hleaves, fun h => ⟨(hall h).1, fun hr => ?_⟩, fun h => ?_⟩
        · have := (hall h).2 hr
          simp only at this
          omega
        · obtain ⟨m, u, hm, hr, hcount, hwritten⟩ := hlost h
          refine ⟨m + 1, u, hm, hr, ?_, hwritten⟩
          simp only at hcount
          omega
      | some u =>
        rw [hu] at hpass
        by_cases hroom : HasRoom toLeft prev s.out.length u
        · rw [unitPass, if_pos hroom] at hpass
          obtain ⟨r, hleaves, hall, hlost⟩ := @ih
            { s with
              i := s.i + 1
              out := s.out ++ ctSwitch prev u.charset ++ u.bytes
              flag := u.charset.wcNumber } (q.store l) (some u.charset) (by simp only; omega) rfl
          simp only [List.length_append] at hall hlost
          refine ⟨r, .next hpass hleaves, fun h => ⟨?_, fun hr => ?_⟩, fun h => ?_⟩
          · rw [(hall h.2).1, unitsText]
            simp only [List.append_assoc]
          · have := (hall h.2).2 hr
            omega
          · obtain ⟨m, v, hm, hr, hcount, hwritten⟩ := hlost fun hrest => h ⟨hroom, hrest⟩
            refine ⟨m + 1, v, hm, hr, by omega, ?_⟩
            rw [hwritten, List.take_succ_cons, unitsText]
            simp only [List.append_assoc]
        · rw [unitPass, if_neg hroom] at hpass
          refine ⟨_, .leave hpass, fun h => absurd h.1 hroom, fun _ => ⟨0, u, rfl, ?_, ?_, ?_⟩⟩
          · simp [CtState.finish]
          · simp only [CtState.finish]
            omega
          · rw [List.take_zero, unitsText, List.append_nil]
            rfl

/-- **`gb18030_wcstocts` keeps its promise** exactly if the text of the wide characters leaves a byte of
the output, or fills it with ASCII at its end. -/
theorem wcstocts_ok_iff (fromLeft toLeft : Int) (wctomb : W → Option (List UInt8)) (inbufptr : Ptr)
    (pwc : Nat → W) :
    ∃ r, gb18030Wcstocts fromLeft toLeft wctomb inbufptr pwc = some r ∧
      (WcstoctsOk fromLeft toLeft (wcUnits wctomb pwc fromLeft.toNat 0 inbufptr) r ↔
        WcstoctsFits toLeft (wcUnits wctomb pwc fromLeft.toNat 0 inbufptr)) := by
  have hn : (fromLeft - (CtState.start.i : Int)).toNat = fromLeft.toNat := by
    simp [CtState.start]
  obtain ⟨r, hleaves, hall, hlost⟩ := @wcstocts_units fromLeft toLeft W wctomb pwc _ .start inbufptr
    none hn rfl
  have hloop := loop_of_leaves (μ := fun s => (fromLeft - s.1.i).toNat)
    (fun _ _ h => wcstoctsPass_lt h) hleaves (fromLeft.toNat + 1) (by simp only; omega)
  refine ⟨r, hloop, ?_⟩
  have hpos : ∀ u, some u ∈ wcUnits wctomb pwc fromLeft.toNat 0 inbufptr → 0 < u.bytes.length :=
    wcUnits_bytes_pos
  have hfits := @room_iff toLeft _ hpos none 0
  simp only [CtState.start, List.length_nil, List.nil_append] at hall hlost
  have hlen := @wcUnits_length_le W wctomb pwc fromLeft.toNat 0 inbufptr
  generalize wcUnits wctomb pwc fromLeft.toNat 0 inbufptr = us at hall hlost hpos hfits hlen ⊢
  rw [Nat.zero_add] at hfits
  rw [WcstoctsFits, ← hfits]
  constructor
  · intro hok
    by_cases hroom : Room toLeft none 0 us
    · have hle := hok.room
      rw [(hall hroom).1] at hle
      exact ⟨hroom, hle⟩
    · obtain ⟨m, u, hm, hr, hcount, hwritten⟩ := hlost hroom
      have hwhole := hok.whole hr
      have htake : (fromLeft - r.fromLeft).toNat = m + 1 := by omega
      rw [hwritten, htake] at hwhole
      exact absurd (congrArg List.length hwhole) (Nat.ne_of_lt (unitsText_take_lt hpos hm none))
  · rintro ⟨hroom, hle⟩
    obtain ⟨hwritten, hcount⟩ := hall hroom
    refine ⟨by rw [hwritten]; exact hle, fun hr => ?_⟩
    have hdone := hcount hr
    rw [hwritten, List.take_of_length_le (by omega)]

/-- `wctomb` for wide characters that are characters of GB18030. -/
def wctombChars (c : GbChar) : Option (List UInt8) := some c.bytes

/-- The wide characters of `cs`, with NUL behind. -/
def wideText (cs : List GbChar) (k : Nat) : GbChar := cs.getD k (.ascii 0 rfl)

/-- Three characters of ASCII overrun an output of five bytes; and of an ASCII and a GB2312 character,
with six bytes of room, the second is counted as done and is not written. -/
theorem wcstocts_loses :
    (∃ r, gb18030Wcstocts 3 5 wctombChars (.ofList [])
        (wideText [.ascii 0x41 rfl, .ascii 0x42 rfl, .ascii 0x43 rfl]) = some r ∧
      r.written.length = 6) ∧
    ∃ r, gb18030Wcstocts 2 6 wctombChars (.ofList [])
        (wideText [.ascii 0x41 rfl, .two 0xb0 0xa1 rfl]) = some r ∧
      r.ret = 0 ∧ r.fromLeft = 0 ∧ r.written = cstr "\x1b(BA" ∧
      ¬ WcstoctsOk 2 6 (wcUnits wctombChars (wideText [.ascii 0x41 rfl, .two 0xb0 0xa1 rfl]) 2 0
        (.ofList [])) r := by
  refine ⟨⟨_, rfl, by decide⟩, _, rfl, by decide, by decide, by decide, fun hok => ?_⟩
  have hwhole := hok.whole (by decide)
  revert hwhole
  decide

end X11
