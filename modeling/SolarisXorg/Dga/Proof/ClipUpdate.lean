import SolarisXorg.Dga.ClipUpdate

/-!
# The window lock over an update of the clip list

A pass that gives up the lock takes it again if the file operations succeed (`clipUpdate_pass`), and
is the last one, without the lock, if one fails (`clipUpdate_failed`). So the lock is held at the
return if and only if none has failed (`balanced_iff`). The loop ends with the client's mapping the
one the server has (`agrees_of_place`), which is what successful operations lead to
(`clipUpdate_agrees`). `clipUpdate_sound_iff` puts the two together, and `phase_clipUpdate` relates
the call to the one in the model of the update phase.
-/

namespace Dga.ClipUpdate

variable {bad : Bool} {c : Client} {S : Server} {rs : List Relock} {e : Return}

/-- With no place to give up the lock at, the mapping is the server's. -/
theorem agrees_of_place (h : place c S = none) : Agrees c S := by
  rw [place] at h
  cases hext : S.wextend with
  | true =>
    rw [hext, if_pos rfl] at h
    by_cases hptr : c.wClipptr = .cmclip
    · rw [if_pos hptr] at h
      exact nomatch h
    by_cases hlen : c.wCliplen = S.wScliplen
    case neg =>
      rw [if_neg hptr, if_pos hlen] at h
      exact nomatch h
    have hextended : c.wClipptr = .extended := by
      cases hc : c.wClipptr with
      | cmclip => exact absurd hc hptr
      | extended => rfl
    exact ⟨iff_of_false hptr (by rw [hext]; decide), fun _ => ⟨hextended, hlen⟩⟩
  | false =>
    rw [hext, if_neg Bool.false_ne_true] at h
    by_cases hptr : c.wClipptr = .cmclip
    case neg =>
      rw [if_pos hptr] at h
      exact nomatch h
    exact ⟨iff_of_true hptr hext, fun h => absurd h (by rw [hext]; decide)⟩

/-- What a return looks like: the loop ends, or the last file operation fails, or there is a pass
before. -/
theorem clipUpdate_cases (h : clipUpdate bad c S rs = some e) :
    (rs = [] ∧ place c S = none ∧ e = ⟨c, S, []⟩) ∨
      (∃ p r, rs = [r] ∧ r.succeeds = false ∧ e = ⟨failed p c, r.server, [.unlock]⟩) ∨
      ∃ p r rs' e', rs = r :: rs' ∧ r.succeeds = true ∧
        clipUpdate bad (mapped bad p S.wScliplen c) r.server rs' = some e' ∧
        e = { e' with ops := .unlock :: .lock :: e'.ops } := by
  cases rs with
  | nil =>
    rw [clipUpdate] at h
    split at h
    · exact .inl ⟨rfl, ‹_›, (Option.some.inj h).symm⟩
    · exact nomatch h
  | cons r rs =>
    rw [clipUpdate] at h
    split at h
    · exact nomatch h
    rename_i p _
    split at h
    · obtain ⟨e', he', rfl⟩ := Option.map_eq_some_iff.1 h
      exact .inr (.inr ⟨p, r, rs, e', rfl, ‹_›, he', rfl⟩)
    split at h
    · obtain rfl := List.isEmpty_iff.1 ‹_›
      exact .inr (.inl ⟨p, r, rfl, Bool.eq_false_iff.2 ‹_›, (Option.some.inj h).symm⟩)
    · exact nomatch h

/-- The lock is given up and taken again. -/
theorem balanced_pass (e : Return) :
    Return.Balanced { e with ops := .unlock :: .lock :: e.ops } ↔ e.Balanced := by
  rw [Return.Balanced, Return.Balanced]
  simp [heldAfter]

theorem not_balanced_unlock (c : Client) (S : Server) : ¬Return.Balanced ⟨c, S, [.unlock]⟩ := by
  rintro ⟨-, hheld⟩
  exact Bool.false_ne_true hheld

/-- **The lock is held at the return** if and only if no file operation has failed. -/
theorem balanced_iff (h : clipUpdate bad c S rs = some e) :
    e.Balanced ↔ ∀ r ∈ rs, r.succeeds = true := by
  induction rs generalizing c S e with
  | nil =>
    rcases clipUpdate_cases h with ⟨-, -, rfl⟩ | ⟨p, r, hrs, -⟩ | ⟨p, r, rs', e', hrs, -⟩
    · exact iff_of_true ⟨rfl, rfl⟩ fun r hr => nomatch hr
    · exact nomatch hrs
    · exact nomatch hrs
  | cons r rs ih =>
    rcases clipUpdate_cases h with
      ⟨hrs, -⟩ | ⟨p, r', hrs, hfail, rfl⟩ | ⟨p, r', rs', e', hrs, hr, he, rfl⟩
    · exact nomatch hrs
    · obtain ⟨rfl, rfl⟩ := List.cons.inj hrs
      refine iff_of_false (not_balanced_unlock _ _) fun hall => ?_
      rw [hall r (.head _)] at hfail
      exact nomatch hfail
    · obtain ⟨rfl, rfl⟩ := List.cons.inj hrs
      rw [balanced_pass, ih he, List.forall_mem_cons, and_iff_right hr]

/-- After successful file operations, the loop has come to its end. -/
theorem clipUpdate_agrees (h : clipUpdate bad c S rs = some e)
    (hall : ∀ r ∈ rs, r.succeeds = true) : Agrees e.client e.server := by
  induction rs generalizing c S e with
  | nil =>
    rcases clipUpdate_cases h with ⟨-, hplace, rfl⟩ | ⟨p, r, hrs, -⟩ | ⟨p, r, rs', e', hrs, -⟩
    · exact agrees_of_place hplace
    · exact nomatch hrs
    · exact nomatch hrs
  | cons r rs ih =>
    rcases clipUpdate_cases h with
      ⟨hrs, -⟩ | ⟨p, r', hrs, hfail, rfl⟩ | ⟨p, r', rs', e', hrs, hr, he, rfl⟩
    · exact nomatch hrs
    · obtain ⟨rfl, rfl⟩ := List.cons.inj hrs
      rw [hall r (.head _)] at hfail
      exact nomatch hfail
    · obtain ⟨rfl, rfl⟩ := List.cons.inj hrs
      have hagrees := ih he fun r hr => hall r (.tail _ hr)
      exact hagrees

/-- **The lock over an update of the clip list**: it is held at the return, and the mapping agrees
with the server's after successful file operations, if and only if all file operations that the call
makes succeed. -/
theorem clipUpdate_sound_iff (h : clipUpdate bad c S rs = some e) :
    (e.Balanced ∧ ((∀ r ∈ rs, r.succeeds = true) → Agrees e.client e.server)) ↔
      ∀ r ∈ rs, r.succeeds = true := by
  rw [balanced_iff h, and_iff_left (clipUpdate_agrees h)]

/-- A mapping that is extended and then made longer: the lock is given up twice. -/
theorem clipUpdate_sound_twice :
    (Return.Balanced ⟨⟨.extended, 8⟩, ⟨true, 8⟩, [.unlock, .lock, .unlock, .lock]⟩ ∧
      ((∀ r ∈ [(⟨true, true, ⟨true, 8⟩⟩ : Relock), ⟨true, true, ⟨true, 8⟩⟩], r.succeeds = true) →
        Agrees ⟨.extended, 8⟩ ⟨true, 8⟩)) ↔
      ∀ r ∈ [(⟨true, true, ⟨true, 8⟩⟩ : Relock), ⟨true, true, ⟨true, 8⟩⟩], r.succeeds = true :=
  @clipUpdate_sound_iff false ⟨.cmclip, 0⟩ ⟨true, 4⟩ _ ⟨⟨.extended, 8⟩, ⟨true, 8⟩, _⟩ rfl

/-- Where the file of an extended mapping cannot be opened, the call returns without the lock. -/
theorem not_clipUpdate_sound : ¬∀ (bad : Bool) (c : Client) (S : Server) (rs : List Relock)
    (e : Return), clipUpdate bad c S rs = some e →
      e.Balanced ∧ ((∀ r ∈ rs, r.succeeds = true) → Agrees e.client e.server) := by
  intro hall
  obtain ⟨hbal, -⟩ := hall false ⟨.cmclip, 0⟩ ⟨true, 4⟩ [⟨false, false, ⟨true, 4⟩⟩] _ rfl
  exact not_balanced_unlock _ _ hbal

/-! ## The model of the update phase -/

/-- The client's mapping in the update phase. -/
def client (c : Phase.Client) : Client :=
  ⟨if c.clipExtended then .extended else .cmclip, c.wCliplen⟩

/-- The server's clip list in the update phase. -/
def server (S : Phase.Shared) : Server := ⟨S.wextend, S.scliplen⟩

/-- What happens while the lock is given up in the update phase. -/
def relocks (S : Phase.Shared) : List Phase.ClipRelock → List Relock
  | [] => []
  | r :: rs =>
    ⟨r.opens, r.truncates, server (S.changes r.changes)⟩ :: relocks (S.changes r.changes) rs

/-- The update phase gives up the lock where this model does, for the same mapping. -/
theorem place_phase (c : Phase.Client) (S : Phase.Shared) :
    (Phase.clipStale c S = false → place (client c) (server S) = none) ∧
      (Phase.clipStale c S = true → ∃ p, place (client c) (server S) = some p ∧
        client (Phase.clipMapped c S) = mapped false p S.scliplen (client c) ∧
        client (if S.wextend then c else Phase.clipMapped c S) = failed p (client c)) := by
  cases hext : S.wextend <;> cases hptr : c.clipExtended
  · simp [Phase.clipStale, place, client, server, hext, hptr]
  · simp [Phase.clipStale, place, client, server, Phase.clipMapped, mapped, failed, hext, hptr]
  · simp [Phase.clipStale, place, client, server, Phase.clipMapped, mapped, failed, hext, hptr]
  · by_cases hlen : c.wCliplen = S.scliplen
    · simp [Phase.clipStale, place, client, server, hext, hptr, hlen]
    · simp [Phase.clipStale, place, client, server, Phase.clipMapped, mapped, failed, hext, hptr,
        hlen]

/-- The call is the one in the model of the update phase. -/
theorem phase_clipUpdate (c : Phase.Client) (S : Phase.Shared) (rs : List Phase.ClipRelock) :
    match Phase.clipUpdate c S rs with
    | none => clipUpdate false (client c) (server S) (relocks S rs) = none
    | some (held, c', S') => ∃ e, clipUpdate false (client c) (server S) (relocks S rs) = some e ∧
        heldAfter e.ops = held ∧ e.client = client c' ∧ (held = true → e.server = server S') := by
  induction rs generalizing c S with
  | nil =>
    obtain ⟨hfresh, hstale⟩ := place_phase c S
    rw [Phase.clipUpdate]
    cases hst : Phase.clipStale c S with
    | true =>
      obtain ⟨p, hp, -⟩ := hstale hst
      simp [clipUpdate, relocks, hp]
    | false => simp [clipUpdate, relocks, hfresh hst, heldAfter]
  | cons r rs ih =>
    obtain ⟨hfresh, hstale⟩ := place_phase c S
    rw [Phase.clipUpdate]
    cases hst : Phase.clipStale c S with
    | false => simp [clipUpdate, relocks, hfresh hst]
    | true =>
      obtain ⟨p, hp, hmapped, hfailed⟩ := hstale hst
      simp only [clipUpdate, relocks, hp, Relock.succeeds, Bool.not_true, Bool.false_eq_true,
        if_false]
      by_cases hok : (r.opens && r.truncates) = true
      · rw [if_pos hok, if_pos hok]
        have hih := ih (Phase.clipMapped c S) (S.changes r.changes)
        rw [hmapped] at hih
        split at hih
        · exact Option.map_eq_none_iff.2 hih
        · obtain ⟨e, he, hheld, hclient, hserver⟩ := hih
          exact ⟨_, Option.map_eq_some_iff.2 ⟨e, he, rfl⟩, hheld, hclient, hserver⟩
      · rw [if_neg hok, if_neg hok]
        cases rs with
        | nil => exact ⟨_, rfl, rfl, hfailed.symm, fun h => nomatch h⟩
        | cons r' rs => rfl

end Dga.ClipUpdate
