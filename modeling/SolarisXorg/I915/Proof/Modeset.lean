import Mathlib.Data.List.Nodup
import SolarisXorg.I915.Modeset
import SolarisXorg.Lib.Holders

/-!
# What `intel_modeset_stage_output_state` stages

`Linked` says of two maps, connectors to encoders and encoders to crtcs, that they fit together: a
connector uses its own encoder, an encoder has a crtc when a connector uses it, and one that can
drive it. From a linked state the call stages `stagedEncoder` for each connector and `stagedCrtc`
for each encoder (`stageOutputState_cases`), and these are linked again (`StagedFor.linked`), or it
refuses a crtc and leaves all but the staged links as they are.
-/

namespace I915.Modeset

open Lib

/-- The maps fit together. -/
structure Linked (cfg : Cfg) (encoder crtc : Nat → Option Nat) : Prop where
  attached : ∀ c ∈ cfg.connectors, ∀ e, encoder c = some e → e = cfg.attached c
  used : ∀ e ∈ cfg.encoders, (crtc e).isSome = true ↔ ∃ c ∈ cfg.connectors, encoder c = some e
  possible : ∀ e ∈ cfg.encoders, ∀ p, crtc e = some p →
    p < cfg.numPipes ∧ (cfg.possibleCrtcs e).testBit p = true

/-- The last connector in the list that the call stages on an encoder. -/
def Outputs.lastUser {cfg : Cfg} (s : Outputs) (set : ModeSet cfg) (e : Nat) : Option Nat :=
  cfg.connectors.reverse.find? fun c => s.stagedEncoder set c = some e

/-- The crtc that the call stages for an encoder: its last user decides. -/
def Outputs.stagedCrtc {cfg : Cfg} (s : Outputs) (set : ModeSet cfg) (e : Nat) : Option Nat :=
  match s.lastUser set e with
  | none => none
  | some c => if c ∈ set.connectors then some set.crtc else s.crtc e

/-- The staged links are the links. -/
def Staged (cfg : Cfg) (s : Outputs) : Prop :=
  (∀ c ∈ cfg.connectors, s.newEncoder c = s.encoder c) ∧
    ∀ e ∈ cfg.encoders, s.newCrtc e = s.crtc e

variable {cfg : Cfg} {s t : Outputs} {set : ModeSet cfg}

/-! ## Links -/

theorem Linked.congr {encoder crtc encoder' crtc' : Nat → Option Nat}
    (h : Linked cfg encoder crtc) (hencoder : ∀ c ∈ cfg.connectors, encoder' c = encoder c)
    (hcrtc : ∀ e ∈ cfg.encoders, crtc' e = crtc e) : Linked cfg encoder' crtc' := by
  refine ⟨fun c hc e he => h.attached c hc e (hencoder c hc ▸ he), fun e he => ?_,
    fun e he p hp => h.possible e he p (hcrtc e he ▸ hp)⟩
  rw [hcrtc e he, h.used e he]
  constructor
  · intro ⟨c, hc, hce⟩
    exact ⟨c, hc, by rw [hencoder c hc, hce]⟩
  · intro ⟨c, hc, hce⟩
    exact ⟨c, hc, by rw [← hencoder c hc, hce]⟩

/-- A connector with an encoder has a crtc. -/
theorem Linked.exists_crtc {encoder crtc : Nat → Option Nat} (h : Linked cfg encoder crtc)
    {c e : Nat} (hc : c ∈ cfg.connectors) (he : encoder c = some e) :
    e ∈ cfg.encoders ∧ ∃ p, crtc e = some p ∧ p < cfg.numPipes := by
  have hmem : e ∈ cfg.encoders := h.attached c hc e he ▸ cfg.attached_mem c hc
  obtain ⟨p, hp⟩ := Option.isSome_iff_exists.1 ((h.used e hmem).2 ⟨c, hc, he⟩)
  exact ⟨hmem, p, hp, (h.possible e hmem p hp).1⟩

/-! ## Staging -/

/-- A request without a framebuffer names no connector. -/
theorem not_mem_of_no_fb (h : set.fb = none) (c : Nat) : c ∉ set.connectors := by
  have hnil : set.connectors = [] := by
    by_contra hne
    have hsome := set.fb_iff.2 hne
    rw [h] at hsome
    cases hsome
  rw [hnil]
  exact List.not_mem_nil

/-- A connector of the request gets its own encoder. -/
theorem stagedEncoder_of_mem {c : Nat} (hc : c ∈ set.connectors) :
    s.stagedEncoder set c = some (cfg.attached c) := by
  have hfb : set.fb ≠ none := fun h => not_mem_of_no_fb h c hc
  simp [Outputs.stagedEncoder, hc, hfb]

/-- Another one keeps its encoder, unless the request's crtc drives it. -/
theorem stagedEncoder_of_notMem {c : Nat} (hc : c ∉ set.connectors) :
    s.stagedEncoder set c = if s.crtcOf c = some set.crtc then none else s.newEncoder c := by
  simp [Outputs.stagedEncoder, hc]

theorem stagedEncoder_attached (hlinked : Linked cfg s.encoder s.crtc) (hstaged : Staged cfg s)
    {c e : Nat} (hc : c ∈ cfg.connectors) (h : s.stagedEncoder set c = some e) :
    e = cfg.attached c := by
  by_cases hmem : c ∈ set.connectors
  · rw [stagedEncoder_of_mem hmem] at h
    exact (Option.some.inj h).symm
  · rw [stagedEncoder_of_notMem hmem] at h
    split at h
    · cases h
    · exact hlinked.attached c hc e ((hstaged.1 c hc).symm.trans h)

/-- An unnamed connector that keeps its encoder is driven by another crtc. -/
theorem exists_crtc_of_notMem (hlinked : Linked cfg s.encoder s.crtc) (hstaged : Staged cfg s)
    {c e : Nat} (hc : c ∈ cfg.connectors) (hmem : c ∉ set.connectors)
    (h : s.stagedEncoder set c = some e) : ∃ p, s.crtc e = some p ∧ p ≠ set.crtc := by
  rw [stagedEncoder_of_notMem hmem] at h
  split at h
  next => cases h
  next hne =>
    rw [hstaged.1 c hc] at h
    obtain ⟨-, p, hp, -⟩ := hlinked.exists_crtc hc h
    refine ⟨p, hp, fun hpc => hne ?_⟩
    rw [Outputs.crtcOf, h, Option.bind_some, hp, hpc]

theorem lastUser_mem {c e : Nat} (h : s.lastUser set e = some c) :
    c ∈ cfg.connectors ∧ s.stagedEncoder set c = some e := by
  refine ⟨List.mem_reverse.1 (List.mem_of_find?_eq_some h), ?_⟩
  simpa using List.find?_some h

theorem lastUser_eq_none {e : Nat} :
    s.lastUser set e = none ↔ ∀ c ∈ cfg.connectors, s.stagedEncoder set c ≠ some e := by
  simp [Outputs.lastUser, List.find?_eq_none]

/-- The staged crtc is the one of the call or the one from before. -/
theorem stagedCrtc_cases (s : Outputs) (set : ModeSet cfg) (e : Nat) : s.stagedCrtc set e = none ∨
    s.stagedCrtc set e = some set.crtc ∨ s.stagedCrtc set e = s.crtc e := by
  rw [Outputs.stagedCrtc]
  cases s.lastUser set e with
  | none => exact .inl rfl
  | some c =>
    by_cases hc : c ∈ set.connectors
    · exact .inr (.inl (if_pos hc))
    · exact .inr (.inr (if_neg hc))

/-- An encoder has a staged crtc when a connector is staged on it. -/
theorem stagedCrtc_isSome (hlinked : Linked cfg s.encoder s.crtc) (hstaged : Staged cfg s)
    (e : Nat) : (s.stagedCrtc set e).isSome = true ↔
      ∃ c ∈ cfg.connectors, s.stagedEncoder set c = some e := by
  rw [Outputs.stagedCrtc]
  cases hlast : s.lastUser set e with
  | none =>
    have hnone := lastUser_eq_none.1 hlast
    constructor
    · intro h
      cases h
    · intro ⟨c, hc, he⟩
      exact absurd he (hnone c hc)
  | some c =>
    obtain ⟨hc, he⟩ := lastUser_mem hlast
    refine iff_of_true ?_ ⟨c, hc, he⟩
    by_cases hmem : c ∈ set.connectors
    · simp [hmem]
    · obtain ⟨p, hp, -⟩ := exists_crtc_of_notMem hlinked hstaged hc hmem he
      simp [hmem, hp]

/-- The crtc of the next connector in the list goes to the staged crtc of its encoder. -/
theorem find?_concat_some (l : List Nat) (c e : Nat) :
    (l ++ [c]).reverse.find? (fun d => s.stagedEncoder set d = some e) =
      if s.stagedEncoder set c = some e then some c
      else l.reverse.find? fun d => s.stagedEncoder set d = some e := by
  rw [List.reverse_append, List.reverse_singleton, List.singleton_append, List.find?_cons]
  by_cases h : s.stagedEncoder set c = some e
  · simp [h]
  · simp [h]

/-- The loop over the connectors, after the ones of `done`. -/
theorem stageCrtcs_cases (hlinked : Linked cfg s.encoder s.crtc) (hstaged : Staged cfg s)
    (cs done : List Nat) (hcs : ∀ c ∈ cs, c ∈ cfg.connectors)
    (hdone : ∀ c ∈ done, c ∈ cfg.connectors)
    (hencoder : ∀ c ∈ cs, t.newEncoder c = s.stagedEncoder set c) (hcrtc : t.crtc = s.crtc)
    (hnew : ∀ e, t.newCrtc e =
      match done.reverse.find? fun c => s.stagedEncoder set c = some e with
      | none => s.newCrtc e
      | some c => if c ∈ set.connectors then some set.crtc else s.crtc e) :
    ∃ newCrtc, (Outputs.stageCrtcs set t cs = .ok (-EINVAL, { t with newCrtc := newCrtc }) ∧
        set.connectors ≠ []) ∨
      (Outputs.stageCrtcs set t cs = .ok (0, { t with newCrtc := newCrtc }) ∧
        (∀ c ∈ cs, ∀ e, s.stagedEncoder set c = some e → ∀ p,
          (if c ∈ set.connectors then some set.crtc else s.crtc e) = some p →
            (cfg.possibleCrtcs e).testBit p = true) ∧
        ∀ e, newCrtc e =
          match (done ++ cs).reverse.find? fun c => s.stagedEncoder set c = some e with
          | none => s.newCrtc e
          | some c => if c ∈ set.connectors then some set.crtc else s.crtc e) := by
  induction cs generalizing t done with
  | nil =>
    refine ⟨t.newCrtc, .inr ⟨rfl, by simp, fun e => ?_⟩⟩
    rw [List.append_nil]
    exact hnew e
  | cons c cs ih =>
    have hc := hcs c List.mem_cons_self
    have hcs' : ∀ d ∈ cs, d ∈ cfg.connectors := fun d hd => hcs d (List.mem_cons_of_mem c hd)
    have hdone' : ∀ d ∈ done ++ [c], d ∈ cfg.connectors := by
      intro d hd
      rcases List.mem_append.1 hd with hd | hd
      · exact hdone d hd
      · exact List.mem_singleton.1 hd ▸ hc
    have hhead := hencoder c List.mem_cons_self
    rw [Outputs.stageCrtcs, hhead]
    have happ : done ++ c :: cs = done ++ [c] ++ cs := by simp
    rw [happ]
    cases hstage : s.stagedEncoder set c with
    | none =>
      obtain ⟨newCrtc, hcase⟩ := ih (done ++ [c]) hcs' hdone'
        (fun d hd => hencoder d (List.mem_cons_of_mem c hd)) hcrtc fun e => by
          rw [find?_concat_some, if_neg (by simp [hstage])]
          exact hnew e
      refine ⟨newCrtc, hcase.imp_right fun ⟨hok, hpossible, hval⟩ => ⟨hok, ?_, hval⟩⟩
      intro d hd
      rcases List.mem_cons.1 hd with rfl | hd
      · intro e he
        rw [hstage] at he
        cases he
      · exact hpossible d hd
    | some e =>
      have he : e = cfg.attached c := stagedEncoder_attached hlinked hstaged hc hstage
      -- the crtc of the request, or the one that the connector keeps
      obtain ⟨p, hp⟩ : ∃ p, (if c ∈ set.connectors then some set.crtc else s.crtc e) = some p := by
        by_cases hmem : c ∈ set.connectors
        · exact ⟨set.crtc, if_pos hmem⟩
        · obtain ⟨p, hp, -⟩ := exists_crtc_of_notMem hlinked hstaged hc hmem hstage
          exact ⟨p, (if_neg hmem).trans hp⟩
      have hgoal : (if c ∈ set.connectors then some set.crtc else t.crtc e) = some p := by
        rw [hcrtc]
        exact hp
      dsimp only
      rw [hgoal]
      dsimp only
      by_cases hpossible : (cfg.possibleCrtcs e).testBit p = true
      case neg =>
        refine ⟨t.newCrtc, .inl ⟨if_neg hpossible, fun hnil => hpossible ?_⟩⟩
        rw [if_neg (by rw [hnil]; exact List.not_mem_nil)] at hp
        exact (hlinked.possible e (he ▸ cfg.attached_mem c hc) p hp).2
      rw [if_pos hpossible, ← he]
      obtain ⟨newCrtc, hcase⟩ := ih
        (t := { t with newCrtc := Function.update t.newCrtc e (some p) }) (done ++ [c]) hcs' hdone'
        (fun d hd => hencoder d (List.mem_cons_of_mem c hd)) hcrtc fun e' => by
          rw [find?_concat_some]
          by_cases hee : e = e'
          · subst hee
            rw [if_pos hstage]
            exact (Function.update_self _ _ _).trans hp.symm
          · rw [if_neg (by rw [hstage]; simpa using hee)]
            exact (Function.update_of_ne (Ne.symm hee) _ _).trans (hnew e')
      refine ⟨newCrtc, hcase.imp_right fun ⟨hok, hall, hval⟩ => ⟨hok, ?_, hval⟩⟩
      intro d hd
      rcases List.mem_cons.1 hd with rfl | hd
      · intro e' he' p' hp'
        rw [hstage] at he'
        cases he'
        rw [hp] at hp'
        cases hp'
        exact hpossible
      · exact hall d hd

/-- What the call has staged when it succeeds. -/
structure StagedFor (s : Outputs) (set : ModeSet cfg) (t : Outputs) : Prop where
  encoder : ∀ c ∈ cfg.connectors, t.newEncoder c = s.stagedEncoder set c
  crtc : ∀ e ∈ cfg.encoders, t.newCrtc e = s.stagedCrtc set e
  possible : ∀ e ∈ cfg.encoders, ∀ p, s.stagedCrtc set e = some p →
    (cfg.possibleCrtcs e).testBit p = true

/-- **`intel_modeset_stage_output_state`** changes the staged links only. It refuses the request, or
stages its links and says in `mode_changed` if these are others than before. -/
theorem stageOutputState_cases (hlinked : Linked cfg s.encoder s.crtc) (hstaged : Staged cfg s)
    (set : ModeSet cfg) :
    ∃ newEncoder newCrtc changed ret,
      s.stageOutputState set =
        .ok (ret, changed, { s with newEncoder := newEncoder, newCrtc := newCrtc }) ∧
      ((ret = -EINVAL ∧ set.connectors ≠ []) ∨ (ret = 0 ∧
        StagedFor s set { s with newEncoder := newEncoder, newCrtc := newCrtc } ∧
        (changed = false →
          Staged cfg { s with newEncoder := newEncoder, newCrtc := newCrtc }))) := by
  rw [Outputs.stageOutputState]
  generalize hN : (fun c => if c ∈ cfg.connectors then s.stagedEncoder set c
    else s.newEncoder c) = newEncoder
  have hencoder : ∀ c ∈ cfg.connectors, newEncoder c = s.stagedEncoder set c := by
    intro c hc
    rw [← hN]
    exact if_pos hc
  obtain ⟨newCrtc, hcase⟩ := stageCrtcs_cases (t := { s with newEncoder := newEncoder })
    hlinked hstaged cfg.connectors [] (fun _ h => h) (by simp) hencoder rfl (fun e => rfl)
  rcases hcase with ⟨hbad, hne⟩ | ⟨hok, hpossible, hval⟩
  · refine ⟨newEncoder, newCrtc, cfg.connectors.any fun c => newEncoder c ≠ s.encoder c, -EINVAL,
      ?_, .inl ⟨rfl, hne⟩⟩
    simp only [hbad]
    rfl
  · let final := fun e => if e ∈ cfg.encoders ∧
      ¬ ∃ c ∈ cfg.connectors, newEncoder c = some e then none else newCrtc e
    have hfinal : ∀ e ∈ cfg.encoders, final e = s.stagedCrtc set e := by
      intro e he
      have hnew := hval e
      rw [List.nil_append] at hnew
      rw [Outputs.stagedCrtc]
      cases hlast : s.lastUser set e with
      | none =>
        have hnone := lastUser_eq_none.1 hlast
        exact if_pos ⟨he, fun ⟨c, hc, hce⟩ => hnone c hc ((hencoder c hc).symm.trans hce)⟩
      | some c =>
        obtain ⟨hc, hce⟩ := lastUser_mem hlast
        have hfind : cfg.connectors.reverse.find?
            (fun c => decide (s.stagedEncoder set c = some e)) = some c := hlast
        refine (if_neg fun hno => hno.2 ⟨c, hc, (hencoder c hc).trans hce⟩).trans ?_
        rw [hnew, hfind]
    refine ⟨newEncoder, final, (cfg.connectors.any fun c => newEncoder c ≠ s.encoder c) ||
      cfg.encoders.any fun e => final e ≠ s.crtc e, 0, ?_,
      .inr ⟨rfl, ⟨hencoder, hfinal, fun e he p hp => ?_⟩, fun hsame => ?_⟩⟩
    · simp only [hok]
      rfl
    · rw [Outputs.stagedCrtc] at hp
      cases hlast : s.lastUser set e with
      | none =>
        rw [hlast] at hp
        cases hp
      | some c =>
        rw [hlast] at hp
        obtain ⟨hc, hce⟩ := lastUser_mem hlast
        exact hpossible c hc e hce p hp
    · rw [Bool.or_eq_false_iff] at hsame
      refine ⟨fun c hc => ?_, fun e he => ?_⟩
      · have := hsame.1
        simp only [List.any_eq_false, decide_eq_true_eq, not_not] at this
        exact this c hc
      · have := hsame.2
        simp only [List.any_eq_false, decide_eq_true_eq, not_not] at this
        exact this e he

/-- **The staged links fit together.** -/
theorem StagedFor.linked (h : StagedFor s set t) (hlinked : Linked cfg s.encoder s.crtc)
    (hstaged : Staged cfg s) : Linked cfg t.newEncoder t.newCrtc := by
  suffices hstage : Linked cfg (s.stagedEncoder set) (s.stagedCrtc set) from
    hstage.congr h.encoder h.crtc
  refine ⟨fun c hc e he => stagedEncoder_attached hlinked hstaged hc he,
    fun e _ => stagedCrtc_isSome hlinked hstaged e, fun e he p hp => ⟨?_, h.possible e he p hp⟩⟩
  rcases stagedCrtc_cases s set e with hnone | hcrtc | hsame
  · rw [hnone] at hp
    cases hp
  · rw [hcrtc] at hp
    cases hp
    exact set.crtc_lt
  · rw [hsame] at hp
    exact (hlinked.possible e he p hp).1

end I915.Modeset
