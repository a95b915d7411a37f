import SolarisXorg.Fbconf.ResCompatible

/-!
# What the compatibility-file line parser accepts

`Entry` is the documented grammar, and `ParsesRight` says that a line is accepted exactly if it is
blank or an entry, with the entry's fields, and that no memory behind the line is read. The scan of
what follows the model name ends in an error exactly for a `Refuses` text (`parseManufacturer_refused`,
`parseManufacturer_stays`); otherwise the fields are the ones the spans find
(`parseManufacturer_accepted`), and they are an entry's if they are `WellFormed` (`entry_iff`).
`parsesRight_iff` puts this together with the lines whose model name ends the text.
-/

namespace ResComp

open Lib

/-! ## The grammar -/

/-- White space only. -/
def IsSpace (s : List UInt8) : Prop := ∀ c ∈ s, isWhite c = true

/-- No white space. -/
def IsBlack (s : List UInt8) : Prop := ∀ c ∈ s, isWhite c = false

/-- A product code is `*` or a number below 65536. -/
def IsProduct (product : List UInt8) : Prop :=
  product = chars "*" ∨ (strtoul product).2 = [] ∧ (strtoul product).1 < 65536

instance (product : List UInt8) : Decidable (IsProduct product) := by
  unfold IsProduct
  infer_instance

/-- The documented line with an entry, without its comment. -/
structure Entry (text model manufacturer product mode : List UInt8) : Prop where
  layout : ∃ s₀ s₁ s₂ s₃, IsSpace s₀ ∧ IsSpace s₁ ∧ IsSpace s₂ ∧ IsSpace s₃ ∧ s₁ ≠ [] ∧ s₂ ≠ [] ∧
    text = s₀ ++ (model ++ (s₁ ++ (manufacturer ++ (0x2c :: (product ++ (s₂ ++ (mode ++ s₃)))))))
  model_ne : model ≠ []
  model_black : IsBlack model
  manufacturer_black : IsBlack manufacturer
  manufacturer_comma : 0x2c ∉ manufacturer
  product_ne : product ≠ []
  product_black : IsBlack product
  product_code : IsProduct product
  mode_ne : mode ≠ []
  mode_black : IsBlack mode

/-- The line without its comment. -/
def CLine.text (line : CLine) : List UInt8 := line.bytes.takeWhile (· ≠ 0x23)

/-- The comment, behind its `#`. -/
def CLine.comment (line : CLine) : Option (List UInt8) :=
  (line.bytes.dropWhile (· ≠ 0x23)).tail?

/-- The fields that are returned for an entry. -/
def Parsed.Returns (r : Parsed) (model manufacturer product mode : List UInt8) : Prop :=
  r.fbModelName = some model ∧ r.manufacturerId = some manufacturer ∧
    r.productField = some product ∧ r.videoMode = some mode ∧
    (product ≠ chars "*" → r.productCode.toNat = (strtoul product).1)

/-- The line is parsed without a look behind it, accepted exactly if it is blank or an entry, and
the fields are those of the entry. -/
def ParsesRight (line : CLine) : Prop :=
  ∃ r, fbcResCompParse line = some r ∧
    (r.rc = .fbcSuccess ↔ IsSpace line.text ∨ ∃ model manufacturer product mode,
      Entry line.text model manufacturer product mode) ∧
    (IsSpace line.text → r.fbModelName = none) ∧
    ∀ model manufacturer product mode, Entry line.text model manufacturer product mode →
      r.Returns model manufacturer product mode

/-! ## Spans -/

/-- Without the white space in front. -/
def skip (text : List UInt8) : List UInt8 := text.dropWhile isWhite

/-- The characters up to white space. -/
def word (text : List UInt8) : List UInt8 := text.takeWhile (!isWhite ·)

/-- What follows the word. -/
def afterWord (text : List UInt8) : List UInt8 := text.dropWhile (!isWhite ·)

/-- The text has more than one word. -/
abbrev ManyWords (text : List UInt8) : Prop := skip (afterWord (skip text)) ≠ []

/-- What stands before and behind the first comma. -/
def atComma (text : List UInt8) : Option (List UInt8 × List UInt8) :=
  match text.dropWhile (· != 0x2c) with
  | [] => none
  | _ :: rest => some (text.takeWhile (· != 0x2c), rest)

/-- Where the scan looks for the mode name: behind the product code, or in `next` where the product
code ends the text. -/
def modeText (rest : List UInt8) (next : Option (List UInt8)) : Option (List UInt8) :=
  if afterWord rest = [] then next else some (afterWord rest)

/-- What the scan behind the model name is refused for: there is no comma, the product code is
something else than `*`, nothing and a number, or there is more than one word behind it. -/
def Refuses (text : List UInt8) (next : Option (List UInt8)) : Prop :=
  match atComma (skip text) with
  | none => True
  | some (_, rest) =>
    (word rest ≠ chars "*" ∧ (strtoul (word rest)).2 ≠ []) ∨
      ∃ mode ∈ modeText rest next, ManyWords mode

/-- The manufacturer, product code and mode name are as documented. -/
def WellFormed (text : List UInt8) : Prop :=
  ∃ manufacturer rest, atComma (skip text) = some (manufacturer, rest) ∧ IsBlack manufacturer ∧
    word rest ≠ [] ∧ IsProduct (word rest) ∧ afterWord rest ≠ [] ∧ skip (afterWord rest) ≠ []

/-- **The lines that are handled as documented.** -/
def Handled (line : CLine) : Prop :=
  IsSpace line.text ∨
    if afterWord (skip line.text) = [] then ∃ comment ∈ line.comment, Refuses comment none
    else Refuses (afterWord (skip line.text)) line.comment ∨
      WellFormed (afterWord (skip line.text))

/-! ### The span functions in memory -/

variable {t : List UInt8}

/-- The memory behind a text: a NUL, and the comment if there is one. -/
def behind (next : Option (List UInt8)) : List UInt8 := next.elim [] fun comment => comment ++ [0]

theorem skipWhite_append (t r : List UInt8) : skipWhite (t ++ 0 :: r) = some (skip t ++ 0 :: r) := by
  induction t with
  | nil => rfl
  | cons c t ih =>
    rw [List.cons_append, skipWhite, skip, List.dropWhile_cons]
    split
    · exact ih
    · rfl

theorem strcspn_append {stop : UInt8 → Bool} (ht : NulFree t) (r : List UInt8) :
    strcspn stop (t ++ 0 :: r) = some (t.takeWhile (!stop ·),
      match t.dropWhile (!stop ·) with
      | [] => (0, r)
      | c :: t' => (c, t' ++ 0 :: r)) := by
  induction t with
  | nil => simp [strcspn]
  | cons c t ih =>
    have hc : c ≠ 0 := fun h => ht (h ▸ List.mem_cons_self)
    rw [List.cons_append, strcspn]
    by_cases hstop : stop c
    · simp [hstop]
    · rw [if_neg (by simp [hstop, hc]), ih fun h => ht (List.mem_cons_of_mem _ h)]
      rw [List.dropWhile_cons_of_pos (by simp [hstop]), List.takeWhile_cons_of_pos (by simp [hstop])]
      rfl

theorem discardComment_eq (line : CLine) :
    discardComment line = line.text ++ 0 :: behind line.comment := by
  unfold discardComment CLine.text CLine.comment
  cases h : line.bytes.dropWhile (· ≠ 0x23) with
  | nil =>
    have htext := List.takeWhile_append_dropWhile (p := (· ≠ 0x23)) (l := line.bytes)
    rw [h, List.append_nil] at htext
    rw [htext]
    rfl
  | cons c comment => rfl

theorem nulFree_takeWhile {p : UInt8 → Bool} (ht : NulFree t) : NulFree (t.takeWhile p) :=
  fun h => ht ((List.takeWhile_sublist p).mem h)

theorem nulFree_dropWhile {p : UInt8 → Bool} (ht : NulFree t) : NulFree (t.dropWhile p) :=
  fun h => ht ((List.dropWhile_sublist p).mem h)

theorem nulFree_tail {c : UInt8} (ht : NulFree (c :: t)) : NulFree t :=
  fun h => ht (List.mem_cons_of_mem c h)

theorem nulFree_comment (line : CLine) : ∀ comment ∈ line.comment, NulFree comment := by
  intro comment h
  have hrest : NulFree (line.bytes.dropWhile (· ≠ 0x23)) := nulFree_dropWhile line.nulFree
  unfold CLine.comment at h
  generalize line.bytes.dropWhile (· ≠ 0x23) = rest at h hrest
  cases rest with
  | nil => cases h
  | cons c rest =>
    cases h
    exact nulFree_tail hrest

/-! ### From field to field -/

/-- White space in front makes no difference. -/
theorem parseVideoMode_cons {c : UInt8} (hc : isWhite c = true) (mem : List UInt8) (e : Parsed) :
    parseVideoMode (c :: mem) e = parseVideoMode mem e := by
  simp [parseVideoMode, skipWhite, hc]

theorem parseManufacturer_cons {c : UInt8} (hc : isWhite c = true) (mem : List UInt8)
    (e : Parsed) : parseManufacturer (c :: mem) e = parseManufacturer mem e := by
  simp [parseManufacturer, skipWhite, hc]

theorem head?_append_nul (t r : List UInt8) (ht : NulFree t) :
    (t ++ 0 :: r).head? = some 0 ↔ t = [] := by
  cases t with
  | nil => simp
  | cons c t =>
    have hc : c ≠ 0 := fun h => ht (h ▸ List.mem_cons_self)
    simp [hc]

/-- A character that ends a field ends it for a reason. -/
theorem head?_strcspn {stop : UInt8 → Bool} {c : UInt8} {t' : List UInt8}
    (h : t.dropWhile (!stop ·) = c :: t') : stop c = true := by
  have hc := head?_dropWhile (p := (!stop ·)) (t := t) c (by rw [h]; rfl)
  simpa using hc

theorem parseVideoMode_append (ht : NulFree t) (r : List UInt8) (e : Parsed) :
    parseVideoMode (t ++ 0 :: r) e =
      some (if ManyWords t then
        { e with videoMode := some (word (skip t)) }.fail "Garbage following video mode name"
      else { e with videoMode := some (word (skip t)) }) := by
  have hskip : NulFree (skip t) := nulFree_dropWhile ht
  rw [parseVideoMode, skipWhite_append]
  show (strcspn isWhite (skip t ++ 0 :: r) >>= _) = _
  rw [strcspn_append hskip]
  unfold ManyWords afterWord
  have hafter : NulFree ((skip t).dropWhile (!isWhite ·)) := nulFree_dropWhile hskip
  cases hdrop : (skip t).dropWhile (!isWhite ·) with
  | nil => rfl
  | cons c t' =>
    rw [hdrop] at hafter
    have hwhite : isWhite c = true := head?_strcspn hdrop
    have hc : c ≠ 0 := fun h => hafter (h ▸ List.mem_cons_self)
    have hcons : skip (c :: t') = skip t' := List.dropWhile_cons_of_pos hwhite
    rw [hcons]
    show (if c = 0 then _ else skipWhite (t' ++ 0 :: r) >>= _) = _
    rw [if_neg hc, skipWhite_append]
    show (if (skip t' ++ 0 :: r).head? = some 0 then _ else _) = _
    have hlast := head?_append_nul (skip t') r (nulFree_dropWhile (nulFree_tail hafter))
    by_cases hend : skip t' = []
    · rw [if_pos (hlast.2 hend), if_neg (not_not_intro hend)]
      rfl
    · rw [if_neg (mt hlast.1 hend), if_pos hend]
      rfl

/-- The fields after the product code has been noted. -/
def withProduct (e : Parsed) (t : List UInt8) : Parsed :=
  { e with productField := some (word t) }.note (word t = [] || afterWord t = [])
    "Error near display device product code"

theorem parseProduct_append (ht : NulFree t) (r : List UInt8) (e : Parsed) :
    parseProduct (t ++ 0 :: r) e =
      match readProduct (word t) with
      | none =>
        some ({ withProduct e t with productCode := .ofNat (strtoul (word t)).1 }.fail
          "Invalid display device product code")
      | some code =>
        parseVideoMode (if afterWord t = [] then r else afterWord t ++ 0 :: r)
          { withProduct e t with productCode := code } := by
  rw [parseProduct, strcspn_append ht]
  unfold withProduct afterWord
  have hafter : NulFree (t.dropWhile (!isWhite ·)) := nulFree_dropWhile ht
  cases hdrop : t.dropWhile (!isWhite ·) with
  | nil => rfl
  | cons c t' =>
    rw [hdrop] at hafter
    have hwhite : isWhite c = true := head?_strcspn hdrop
    have hc : c ≠ 0 := fun h => hafter (h ▸ List.mem_cons_self)
    have hcons : ∀ e, parseVideoMode (c :: t' ++ 0 :: r) e = parseVideoMode (t' ++ 0 :: r) e :=
      parseVideoMode_cons hwhite _
    simp only [Option.bind_eq_bind, Option.bind_some, hc, List.cons_ne_nil, if_false, hcons]
    rfl

theorem parseManufacturer_append (ht : NulFree t) (r : List UInt8) (e : Parsed) :
    parseManufacturer (t ++ 0 :: r) e =
      match atComma (skip t) with
      | none =>
        some ({ e with manufacturerId := some ((skip t).takeWhile (· != 0x2c)) }.fail
          "Error near display device manufacturer ID")
      | some (manufacturer, rest) =>
        parseProduct (rest ++ 0 :: r) { e with manufacturerId := some manufacturer } := by
  have hskip : NulFree (skip t) := nulFree_dropWhile ht
  have hbehind : NulFree ((skip t).dropWhile (· != 0x2c)) := nulFree_dropWhile hskip
  have hspan : strcspn (· == 0x2c) (skip t ++ 0 :: r) = some ((skip t).takeWhile (· != 0x2c),
      match (skip t).dropWhile (· != 0x2c) with
      | [] => (0, r)
      | c :: t' => (c, t' ++ 0 :: r)) := strcspn_append hskip r
  rw [parseManufacturer, skipWhite_append]
  show (strcspn (· == 0x2c) (skip t ++ 0 :: r) >>= _) = _
  rw [hspan, atComma]
  cases hdrop : (skip t).dropWhile (· != 0x2c) with
  | nil => rfl
  | cons c t' =>
    rw [hdrop] at hbehind
    have hc : c ≠ 0 := fun h => hbehind (h ▸ List.mem_cons_self)
    show (if c = 0 then _ else _) = _
    rw [if_neg hc]

/-! ### What follows the model name -/

section Note

variable (e : Parsed) (cond : Bool) (text : String)

@[simp] theorem note_rc : (e.note cond text).rc = e.rc := by cases cond <;> rfl

@[simp] theorem note_fbModelName : (e.note cond text).fbModelName = e.fbModelName := by
  cases cond <;> rfl

@[simp] theorem note_manufacturerId : (e.note cond text).manufacturerId = e.manufacturerId := by
  cases cond <;> rfl

@[simp] theorem note_productField : (e.note cond text).productField = e.productField := by
  cases cond <;> rfl

end Note

theorem readProduct_eq_none {product : List UInt8} :
    readProduct product = none ↔ product ≠ chars "*" ∧ (strtoul product).2 ≠ [] := by
  unfold readProduct
  by_cases hstar : product = chars "*"
  · simp [hstar]
  · by_cases hrest : (strtoul product).2 = []
    · simp [hstar, hrest]
    · simp [hstar, hrest]

/-- The value of a product code field that is read. -/
theorem readProduct_eq_some {product : List UInt8} {code : UInt16}
    (h : readProduct product = some code) (hstar : product ≠ chars "*") :
    code = .ofNat (strtoul product).1 := by
  unfold readProduct at h
  rw [if_neg hstar] at h
  dsimp only at h
  split at h
  · exact (Option.some.inj h).symm
  · cases h

variable {next : Option (List UInt8)} {e : Parsed}

theorem parseVideoMode_at (ht : NulFree t) (hnext : ∀ comment ∈ next, NulFree comment) :
    parseVideoMode (if afterWord t = [] then behind next else afterWord t ++ 0 :: behind next) e =
      (modeText t next).map fun mode =>
        if ManyWords mode then
          { e with videoMode := some (word (skip mode)) }.fail "Garbage following video mode name"
        else { e with videoMode := some (word (skip mode)) } := by
  unfold modeText
  split
  · cases next with
    | none => rfl
    | some comment => exact parseVideoMode_append (hnext comment rfl) [] e
  · exact parseVideoMode_append (nulFree_dropWhile ht) _ e

/-- What stands behind the comma has no NUL in it. -/
theorem nulFree_atComma {manufacturer rest : List UInt8} (ht : NulFree t)
    (h : atComma (skip t) = some (manufacturer, rest)) : NulFree rest := by
  have hdrop : NulFree ((skip t).dropWhile (· != 0x2c)) := nulFree_dropWhile (nulFree_dropWhile ht)
  unfold atComma at h
  split at h
  · cases h
  · next heq =>
    cases h
    rw [heq] at hdrop
    exact nulFree_tail hdrop

theorem parseManufacturer_refused (ht : NulFree t) (hnext : ∀ comment ∈ next, NulFree comment)
    (h : Refuses t next) :
    ∃ x, parseManufacturer (t ++ 0 :: behind next) e = some x ∧ x.rc = .fbcErrGeneral := by
  rw [parseManufacturer_append ht]
  unfold Refuses at h
  cases hcomma : atComma (skip t) with
  | none => exact ⟨_, rfl, rfl⟩
  | some fields =>
    obtain ⟨manufacturer, rest⟩ := fields
    rw [hcomma] at h
    have hrest := nulFree_atComma ht hcomma
    dsimp only at h ⊢
    rw [parseProduct_append hrest]
    cases hread : readProduct (word rest) with
    | none => exact ⟨_, rfl, rfl⟩
    | some code =>
      rcases h with h | ⟨mode, hmode, hmany⟩
      · rw [readProduct_eq_none.2 h] at hread
        cases hread
      · dsimp only
        rw [parseVideoMode_at hrest hnext, Option.mem_def.1 hmode, Option.map_some, if_pos hmany]
        exact ⟨_, rfl, rfl⟩

/-- What is not refused is accepted, if memory behind the line is not read. -/
theorem parseManufacturer_stays (ht : NulFree t) (hnext : ∀ comment ∈ next, NulFree comment)
    (h : ¬Refuses t next) :
    ∃ manufacturer rest code, atComma (skip t) = some (manufacturer, rest) ∧
      readProduct (word rest) = some code ∧
      parseManufacturer (t ++ 0 :: behind next) e = (modeText rest next).map fun mode =>
        { withProduct { e with manufacturerId := some manufacturer } rest with
          productCode := code, videoMode := some (word (skip mode)) } := by
  rw [parseManufacturer_append ht]
  unfold Refuses at h
  cases hcomma : atComma (skip t) with
  | none => simp [hcomma] at h
  | some fields =>
    obtain ⟨manufacturer, rest⟩ := fields
    rw [hcomma] at h
    obtain ⟨hread, hmany⟩ := not_or.1 h
    have hrest := nulFree_atComma ht hcomma
    obtain ⟨code, hcode⟩ := Option.ne_none_iff_exists'.1 (mt readProduct_eq_none.1 hread)
    refine ⟨manufacturer, rest, code, rfl, hcode, ?_⟩
    dsimp only
    rw [parseProduct_append hrest, hcode]
    dsimp only
    rw [parseVideoMode_at hrest hnext]
    apply Option.map_congr
    intro mode hmode
    rw [if_neg fun hm => hmany ⟨mode, hmode, hm⟩]

theorem rc_of_not_refuses {x : Parsed} (ht : NulFree t)
    (hnext : ∀ comment ∈ next, NulFree comment) (h : ¬Refuses t next)
    (hx : parseManufacturer (t ++ 0 :: behind next) e = some x) : x.rc = e.rc := by
  obtain ⟨manufacturer, rest, code, -, -, hparse⟩ := parseManufacturer_stays (e := e) ht hnext h
  rw [hparse] at hx
  obtain ⟨mode, -, rfl⟩ := Option.map_eq_some_iff.1 hx
  exact note_rc _ _ _

/-! ## Entries -/

section Words

variable {s w text : List UInt8}

/-- White space, and text that does not start with any. -/
theorem skip_append (hs : IsSpace s) (hw : ∀ c ∈ w.head?, isWhite c = false) :
    skip (s ++ w) = w := (span_append hs hw).2

theorem skip_space (hs : IsSpace s) : skip s = [] := List.dropWhile_eq_nil_iff.2 hs

theorem isSpace_iff : IsSpace s ↔ skip s = [] := List.dropWhile_eq_nil_iff.symm

/-- A word, and text that starts with white space. -/
theorem word_append (hw : IsBlack w) (hs : ∀ c ∈ s.head?, isWhite c = true) :
    word (w ++ s) = w ∧ afterWord (w ++ s) = s := by
  refine span_append ?_ ?_
  · intro c hc
    rw [hw c hc]
    rfl
  · intro c hc
    rw [hs c hc]
    rfl

theorem head?_of_ne {p : UInt8 → Prop} (hne : w ≠ []) (h : ∀ c ∈ w, p c) (v : List UInt8) :
    ∀ c ∈ (w ++ v).head?, p c := by
  obtain ⟨c, w', rfl⟩ := List.exists_cons_of_ne_nil hne
  rintro _ ⟨⟩
  exact h c List.mem_cons_self

theorem isBlack_word : IsBlack (word text) := by
  intro c hc
  have h := List.mem_takeWhile_imp hc
  simpa using h

theorem word_afterWord : word text ++ afterWord text = text := List.takeWhile_append_dropWhile

/-- The white space in front. -/
theorem exists_space : ∃ s, IsSpace s ∧ text = s ++ skip text :=
  ⟨text.takeWhile isWhite, fun _ hc => List.mem_takeWhile_imp hc,
    List.takeWhile_append_dropWhile.symm⟩

/-- What follows a word is nothing or starts with white space. -/
theorem afterWord_ne_nil (h : afterWord text ≠ []) :
    ∃ c rest, isWhite c = true ∧ afterWord text = c :: rest := by
  obtain ⟨c, rest, hcons⟩ := List.exists_cons_of_ne_nil h
  exact ⟨c, rest, head?_strcspn hcons, hcons⟩

/-- The white space between two words. -/
theorem exists_space_ne (h : afterWord text ≠ []) :
    ∃ s, IsSpace s ∧ s ≠ [] ∧ afterWord text = s ++ skip (afterWord text) := by
  obtain ⟨c, rest, hc, hcons⟩ := afterWord_ne_nil h
  obtain ⟨s, hs, hrest⟩ := @exists_space rest
  refine ⟨c :: s, List.forall_mem_cons.2 ⟨hc, hs⟩, List.cons_ne_nil c s, ?_⟩
  rw [hcons, skip, List.dropWhile_cons_of_pos hc]
  exact congrArg (c :: ·) hrest

end Words

variable {text model manufacturer product mode : List UInt8}

/-- The spans of an entry are its fields. -/
theorem Entry.spans (h : Entry text model manufacturer product mode) :
    word (skip text) = model ∧ afterWord (skip text) ≠ [] ∧ ∃ rest,
      atComma (skip (afterWord (skip text))) = some (manufacturer, rest) ∧ word rest = product ∧
        afterWord rest ≠ [] ∧ word (skip (afterWord rest)) = mode ∧
        ¬ManyWords (afterWord rest) := by
  obtain ⟨s₀, s₁, s₂, s₃, hs₀, hs₁, hs₂, hs₃, hne₁, hne₂, rfl⟩ := h.layout
  have hmodel := word_append h.model_black (head?_of_ne hne₁ hs₁
    (manufacturer ++ (0x2c :: (product ++ (s₂ ++ (mode ++ s₃))))))
  have hproduct := word_append h.product_black (head?_of_ne hne₂ hs₂ (mode ++ s₃))
  have hmode := word_append (s := s₃) h.mode_black fun c hc => hs₃ c (List.mem_of_mem_head? hc)
  have hskip₀ := skip_append hs₀ (head?_of_ne h.model_ne h.model_black
    (s₁ ++ (manufacturer ++ (0x2c :: (product ++ (s₂ ++ (mode ++ s₃)))))))
  have hskip₂ := skip_append hs₂ (head?_of_ne h.mode_ne h.mode_black s₃)
  have hskip₁ : skip (s₁ ++ (manufacturer ++ (0x2c :: (product ++ (s₂ ++ (mode ++ s₃)))))) =
      manufacturer ++ (0x2c :: (product ++ (s₂ ++ (mode ++ s₃)))) := by
    apply skip_append hs₁
    intro c hc
    cases hm : manufacturer with
    | nil =>
      rw [hm] at hc
      cases hc
      rfl
    | cons c' m =>
      rw [hm] at hc
      cases hc
      exact h.manufacturer_black c (by rw [hm]; exact List.mem_cons_self)
  have hcomma := span_append (p := (· != 0x2c)) (w := manufacturer)
    (t := 0x2c :: (product ++ (s₂ ++ (mode ++ s₃))))
    (fun c hc => by simpa using fun hcc : c = 0x2c => h.manufacturer_comma (hcc ▸ hc))
    (by rintro _ ⟨⟩; rfl)
  rw [hskip₀, hmodel.1, hmodel.2, hskip₁]
  refine ⟨rfl, ?_, product ++ (s₂ ++ (mode ++ s₃)), ?_, hproduct.1, ?_, ?_, ?_⟩
  · simp [hne₁]
  · rw [atComma, hcomma.1, hcomma.2]
  · rw [hproduct.2]
    simp [hne₂]
  · rw [hproduct.2, hskip₂, hmode.1]
  · rw [hproduct.2, ManyWords, hskip₂, hmode.2, skip_space hs₃]
    exact not_not_intro rfl

/-- Text that does not start with white space starts with a word. -/
theorem word_skip_ne_nil (h : skip text ≠ []) : word (skip text) ≠ [] := by
  have hhead := head?_dropWhile (p := isWhite) (t := text)
  obtain ⟨c, rest, hcons⟩ := List.exists_cons_of_ne_nil h
  have hc : isWhite c = false := hhead c (by rw [← skip, hcons]; rfl)
  rw [hcons, word, List.takeWhile_cons_of_pos (by rw [hc]; rfl)]
  exact List.cons_ne_nil _ _

/-- The text before and behind the first comma. -/
theorem atComma_eq_some {rest : List UInt8} (h : atComma text = some (manufacturer, rest)) :
    text = manufacturer ++ 0x2c :: rest ∧ 0x2c ∉ manufacturer := by
  have hsplit := List.takeWhile_append_dropWhile (p := (· != 0x2c)) (l := text)
  have hhead := head?_dropWhile (p := (· != 0x2c)) (t := text)
  unfold atComma at h
  split at h
  · cases h
  · next c r heq =>
    cases h
    rw [heq] at hsplit hhead
    have hc : c = 0x2c := by simpa using hhead c rfl
    rw [hc] at hsplit
    refine ⟨hsplit.symm, ?_⟩
    intro hmem
    simpa using List.mem_takeWhile_imp hmem

/-- Well-formed fields, and no more than the mode name behind them, are an entry. -/
theorem entry_of_wellFormed {rest : List UInt8} (htext : skip text ≠ [])
    (htail : afterWord (skip text) ≠ [])
    (hcomma : atComma (skip (afterWord (skip text))) = some (manufacturer, rest))
    (hblack : IsBlack manufacturer) (hproduct : word rest ≠ []) (hcode : IsProduct (word rest))
    (hafter : afterWord rest ≠ []) (hmode : skip (afterWord rest) ≠ [])
    (hmany : ¬ManyWords (afterWord rest)) :
    Entry text (word (skip text)) manufacturer (word rest) (word (skip (afterWord rest))) := by
  obtain ⟨s₀, hs₀, htext₀⟩ := @exists_space text
  obtain ⟨s₁, hs₁, hne₁, htail₁⟩ := exists_space_ne htail
  obtain ⟨s₂, hs₂, hne₂, hafter₂⟩ := exists_space_ne hafter
  have hs₃ : IsSpace (afterWord (skip (afterWord rest))) := isSpace_iff.2 (not_not.1 hmany)
  obtain ⟨hcomma₁, hnotComma⟩ := atComma_eq_some hcomma
  constructor
  · refine ⟨s₀, s₁, s₂, afterWord (skip (afterWord rest)), hs₀, hs₁, hs₂, hs₃, hne₁, hne₂, ?_⟩
    rw [word_afterWord, ← hafter₂, word_afterWord, ← hcomma₁, ← htail₁, word_afterWord]
    exact htext₀
  · exact word_skip_ne_nil htext
  · exact isBlack_word
  · exact hblack
  · exact hnotComma
  · exact hproduct
  · exact isBlack_word
  · exact hcode
  · exact word_skip_ne_nil hmode
  · exact isBlack_word

/-- What is refused behind the model name is no entry. -/
theorem Entry.not_refuses (h : Entry text model manufacturer product mode)
    (next : Option (List UInt8)) : ¬Refuses (afterWord (skip text)) next := by
  obtain ⟨-, -, rest, hcomma, hword, hafter, -, hmany⟩ := h.spans
  unfold Refuses
  rw [hcomma]
  rintro (⟨hstar, hrest⟩ | ⟨m, hm, hmm⟩)
  · rw [hword] at hstar hrest
    exact h.product_code.elim hstar fun hcode => hrest hcode.1
  · rw [modeText, if_neg hafter] at hm
    cases hm
    exact hmany hmm

theorem Entry.wellFormed (h : Entry text model manufacturer product mode) :
    WellFormed (afterWord (skip text)) := by
  obtain ⟨-, -, rest, hcomma, hword, hafter, hmode, -⟩ := h.spans
  refine ⟨manufacturer, rest, hcomma, h.manufacturer_black, ?_, ?_, hafter, ?_⟩
  · rw [hword]
    exact h.product_ne
  · rw [hword]
    exact h.product_code
  · intro hnil
    rw [hnil] at hmode
    exact h.mode_ne hmode.symm

/-! ## The parser -/

/-- A line that is refused, and is no entry. -/
theorem parsesRight_of_fail {line : CLine} {x : Parsed} (hx : fbcResCompParse line = some x)
    (hrc : x.rc = .fbcErrGeneral) (hspace : ¬IsSpace line.text)
    (hentry : ∀ model manufacturer product mode,
      ¬Entry line.text model manufacturer product mode) : ParsesRight line := by
  refine ⟨x, hx, iff_of_false ?_ ?_, fun h => absurd h hspace, ?_⟩
  · rw [hrc]
    exact nofun
  · rintro (h | ⟨model, manufacturer, product, mode, h⟩)
    · exact hspace h
    · exact hentry _ _ _ _ h
  · intro model manufacturer product mode h
    exact absurd h (hentry _ _ _ _)

/-- A blank line. -/
theorem fbcResCompParse_space {line : CLine} (h : IsSpace line.text) :
    fbcResCompParse line = some noFields := by
  rw [fbcResCompParse, discardComment_eq, skipWhite_append, isSpace_iff.1 h]
  rfl

/-- The fields after the model name. -/
def withModel (line : CLine) (cond : Bool) : Parsed :=
  { noFields with fbModelName := some (word (skip line.text)) }.note cond
    "Error near frame buffer model name"

/-- The scan behind the model name. -/
theorem fbcResCompParse_eq {line : CLine} (h : ¬IsSpace line.text) :
    ∃ cond, fbcResCompParse line =
      if afterWord (skip line.text) = [] then
        parseManufacturer (behind line.comment) (withModel line cond)
      else
        parseManufacturer (afterWord (skip line.text) ++ 0 :: behind line.comment)
          (withModel line cond) := by
  have hskip : NulFree (skip line.text) := nulFree_dropWhile (nulFree_takeWhile line.nulFree)
  have hhead := head?_append_nul (skip line.text) (behind line.comment) hskip
  rw [fbcResCompParse, discardComment_eq, skipWhite_append]
  simp only [Option.bind_eq_bind, Option.bind_some]
  rw [if_neg (mt hhead.1 (mt isSpace_iff.2 h)), strcspn_append hskip]
  cases hdrop : afterWord (skip line.text) with
  | nil =>
    rw [afterWord] at hdrop
    rw [hdrop]
    refine ⟨true, ?_⟩
    rw [if_pos rfl]
    rfl
  | cons c t' =>
    rw [afterWord] at hdrop
    have hwhite : isWhite c = true := head?_strcspn hdrop
    rw [hdrop]
    refine ⟨decide (c = 0), ?_⟩
    rw [if_neg (List.cons_ne_nil c t')]
    exact (parseManufacturer_cons hwhite _ _).symm

/-- **The compatibility-file line parser** accepts its grammar exactly for these lines. -/
theorem parsesRight_iff (line : CLine) : ParsesRight line ↔ Handled line := by
  have hcomment := nulFree_comment line
  have htext : NulFree (afterWord (skip line.text)) :=
    nulFree_dropWhile (nulFree_dropWhile (nulFree_takeWhile line.nulFree))
  by_cases hspace : IsSpace line.text
  case pos =>
    refine iff_of_true ⟨noFields, fbcResCompParse_space hspace, iff_of_true rfl (.inl hspace),
      fun _ => rfl, ?_⟩ (.inl hspace)
    intro model manufacturer product mode h
    have hmodel := h.spans.1
    rw [isSpace_iff.1 hspace] at hmodel
    exact absurd hmodel.symm h.model_ne
  obtain ⟨cond, hparse⟩ := fbcResCompParse_eq hspace
  generalize he : withModel line cond = e at hparse
  have hrcE : e.rc = .fbcSuccess := he ▸ note_rc _ _ _
  have hmodel : e.fbModelName = some (word (skip line.text)) := he ▸ note_fbModelName _ _ _
  unfold Handled
  rw [or_iff_right hspace]
  by_cases hend : afterWord (skip line.text) = []
  · -- The model name ends the text: the scan goes on in the comment.
    have hentry : ∀ model manufacturer product mode,
        ¬Entry line.text model manufacturer product mode := fun _ _ _ _ h => h.spans.2.1 hend
    rw [if_pos hend] at hparse ⊢
    cases hc : line.comment with
    | none =>
      rw [hc] at hparse
      refine iff_of_false ?_ (by simp)
      rintro ⟨r, hr, -⟩
      rw [hparse] at hr
      cases hr
    | some comment =>
      have hnul := hcomment comment hc
      rw [hc] at hparse
      have hparse' : fbcResCompParse line = parseManufacturer (comment ++ 0 :: behind none) e :=
        hparse
      by_cases hrefuse : Refuses comment none
      · obtain ⟨x, hx, hrc⟩ := parseManufacturer_refused hnul (by simp) hrefuse
        exact iff_of_true (parsesRight_of_fail (hparse'.trans hx) hrc hspace hentry)
          ⟨comment, rfl, hrefuse⟩
      · refine iff_of_false ?_ (by simpa using hrefuse)
        rintro ⟨r, hr, hiff, -⟩
        have hrc := rc_of_not_refuses hnul (by simp) hrefuse (hparse'.symm.trans hr)
        rcases hiff.1 (hrc.trans hrcE) with h | ⟨model, manufacturer, product, mode, h⟩
        · exact hspace h
        · exact hentry _ _ _ _ h
  · rw [if_neg hend] at hparse ⊢
    by_cases hrefuse : Refuses (afterWord (skip line.text)) line.comment
    · obtain ⟨x, hx, hrc⟩ := parseManufacturer_refused htext hcomment hrefuse
      exact iff_of_true (parsesRight_of_fail (hparse.trans hx) hrc hspace
        fun _ _ _ _ h => h.not_refuses _ hrefuse) (.inl hrefuse)
    rw [or_iff_right hrefuse]
    constructor
    · rintro ⟨r, hr, hiff, -⟩
      have hrc := rc_of_not_refuses htext hcomment hrefuse (hparse.symm.trans hr)
      rcases hiff.1 (hrc.trans hrcE) with h | ⟨model, manufacturer, product, mode, h⟩
      · exact absurd h hspace
      · exact h.wellFormed
    · rintro ⟨manufacturer, rest, hcomma, hblack, hproduct, hcode, hafter, hmode⟩
      obtain ⟨manufacturer', rest', code, hcomma', hread, hstays⟩ :=
        parseManufacturer_stays (e := e) htext hcomment hrefuse
      obtain ⟨rfl, rfl⟩ : manufacturer = manufacturer' ∧ rest = rest' := by
        simpa using hcomma.symm.trans hcomma'
      rw [modeText, if_neg hafter, Option.map_some] at hstays
      have hmany : ¬ManyWords (afterWord rest) := by
        intro hm
        apply hrefuse
        rw [Refuses, hcomma]
        exact .inr ⟨_, by rw [modeText, if_neg hafter]; rfl, hm⟩
      have hentry := entry_of_wellFormed (mt isSpace_iff.2 hspace) hend hcomma hblack hproduct hcode
        hafter hmode hmany
      refine ⟨_, hparse.trans hstays, iff_of_true ?_ (.inr ⟨_, _, _, _, hentry⟩),
        fun h => absurd h hspace, ?_⟩
      · exact (note_rc _ _ _).trans hrcE
      · intro model₁ manufacturer₁ product₁ mode₁ h₁
        obtain ⟨rfl, -, rest₁, hcomma₁, rfl, -, rfl, -⟩ := h₁.spans
        obtain ⟨rfl, rfl⟩ : manufacturer = manufacturer₁ ∧ rest = rest₁ := by
          simpa using hcomma.symm.trans hcomma₁
        refine ⟨?_, note_manufacturerId _ _ _, note_productField _ _ _, rfl, ?_⟩
        · exact (note_fbModelName _ _ _).trans hmodel
        · intro hstar
          show code.toNat = _
          rw [readProduct_eq_some hread hstar, UInt16.toNat_ofNat']
          exact Nat.mod_eq_of_lt ((hcode.resolve_left hstar).2)

/-- A model name that ends the line, and a product code past 65535. -/
theorem not_parsesRight :
    ¬ParsesRight ⟨chars "SUNW,XVR-50", by unfold NulFree; decide⟩ ∧
      ¬ParsesRight ⟨chars "m *,65536 r\n", by unfold NulFree; decide⟩ := by
  constructor
  · rintro ⟨r, hr, -⟩
    cases hr
  · rintro ⟨r, hr, hiff, -⟩
    have hrc : r.rc = .fbcSuccess := by
      cases hr
      rfl
    rcases hiff.1 hrc with h | ⟨model, manufacturer, product, mode, h⟩
    · have hm := h 0x6d (.head _)
      cases hm
    · obtain ⟨-, -, rest, hcomma, rfl, -⟩ := h.spans
      have hrest : some (manufacturer, rest) = some (chars "*", chars "65536 r\n") := hcomma.symm
      cases hrest
      exact absurd h.product_code (by decide)

end ResComp
