import SolarisXorg.Xserver.Proof.DtloginParse

/-!
# The stream, however it is read

`packetsOf` cuts a text into its complete packets and the rest, and `packetsOf_append` says that the
rest is all that has to be kept of a text to go on with it. `Fed` is the state of the receive loop
after some bytes of a stream: the user is the one of the complete packets, `dtlogin_process` has been
called with it exactly when one of them ends the record, and the buffer holds the rest. A turn keeps
it (`Fed.turn`), so any way of delivering the stream does (`turns_fed`): the state depends on the
bytes delivered and not on how they were cut into reads and notifications.
-/

namespace Dtlogin

open Lib

/-! ## Packets of a stream -/

/-- The complete packets of a text, and what follows the last of them. -/
def packetsOf (text : List UInt8) : List (List UInt8) × List UInt8 :=
  match _h : cutAt 0x3b text with
  | none => ([], text)
  | some (pkt, more) => (pkt :: (packetsOf more).1, (packetsOf more).2)
termination_by text.length
decreasing_by
  all_goals
    have hlen := congrArg List.length (cutAt_eq_some _h).1
    simp only [List.length_append, List.length_cons] at hlen
    omega

theorem packetsOf_rest {text : List UInt8} (h : 0x3b ∉ text) : packetsOf text = ([], text) := by
  rw [packetsOf, cutAt_eq_none h]

theorem packetsOf_packet {pkt : List UInt8} (hpkt : 0x3b ∉ pkt) (more : List UInt8) :
    packetsOf (pkt ++ 0x3b :: more) = (pkt :: (packetsOf more).1, (packetsOf more).2) := by
  rw [packetsOf, cutAt_append hpkt]

/-- Induction on the packets of a text. -/
theorem packets_induction {P : List UInt8 → Prop} (rest : ∀ text, 0x3b ∉ text → P text)
    (packet : ∀ pkt more, 0x3b ∉ pkt → P more → P (pkt ++ 0x3b :: more)) (text : List UInt8) :
    P text := by
  induction hn : text.length using Nat.strong_induction_on generalizing text with
  | _ n ih =>
    by_cases hmem : 0x3b ∈ text
    · obtain ⟨pkt, more, rfl, hpkt⟩ := List.eq_append_cons_of_mem hmem
      refine packet pkt more hpkt (ih more.length ?_ more rfl)
      simp only [List.length_append, List.length_cons] at hn
      omega
    · exact rest text hmem

theorem packetsOf_eq_rest {text rest : List UInt8} (h : packetsOf text = ([], rest)) :
    0x3b ∉ text ∧ rest = text := by
  by_cases hmem : 0x3b ∈ text
  · obtain ⟨pkt, more, rfl, hpkt⟩ := List.eq_append_cons_of_mem hmem
    rw [packetsOf_packet hpkt] at h
    simp at h
  · rw [packetsOf_rest hmem] at h
    exact ⟨hmem, (Prod.mk.inj h).2.symm⟩

/-- Going on with a text takes its rest only. -/
theorem packetsOf_append (a b : List UInt8) :
    packetsOf (a ++ b) = ((packetsOf a).1 ++ (packetsOf ((packetsOf a).2 ++ b)).1,
      (packetsOf ((packetsOf a).2 ++ b)).2) := by
  induction a using packets_induction with
  | rest text h => rw [packetsOf_rest h, List.nil_append]
  | packet pkt more hpkt ih =>
    rw [List.append_assoc, List.cons_append, packetsOf_packet hpkt, packetsOf_packet hpkt, ih]
    rfl

/-- Whether a packet ends the record. -/
def isEof (pkt : List UInt8) : Bool := (pairsOf pkt).2

/-- The pairs of packets. -/
def pairsOfAll (pkts : List (List UInt8)) : List (List UInt8 × List UInt8) :=
  pkts.flatMap fun pkt => (pairsOf pkt).1

theorem pairsOfAll_append (ps qs : List (List UInt8)) :
    pairsOfAll (ps ++ qs) = pairsOfAll ps ++ pairsOfAll qs := List.flatMap_append

/-- The last of the packets, and no other, has an `EOF` pair. -/
def EofLast (pkts : List (List UInt8)) : Prop :=
  ∃ init last, pkts = init ++ [last] ∧ isEof last = true ∧ ∀ pkt ∈ init, isEof pkt = false

variable (ngroupsUmax : Nat)

theorem storePairs_append (user : DmUser) (ps qs : List (List UInt8 × List UInt8)) :
    storePairs ngroupsUmax user (ps ++ qs) =
      storePairs ngroupsUmax (storePairs ngroupsUmax user ps) qs := List.foldl_append

/-- A text without an `EOF` pair. -/
theorem consume_packets {text : List UInt8} (h : ∀ pkt ∈ (packetsOf text).1, isEof pkt = false)
    (user : DmUser) : consume ngroupsUmax user text =
      (storePairs ngroupsUmax user (pairsOfAll (packetsOf text).1), false, (packetsOf text).2) := by
  induction text using packets_induction generalizing user with
  | rest text hfree =>
    rw [consume_rest ngroupsUmax hfree, packetsOf_rest hfree]
    rfl
  | packet pkt more hpkt ih =>
    rw [packetsOf_packet hpkt] at h ⊢
    have heof : (pairsOf pkt).2 = false := h pkt (.head _)
    rw [consume_packet ngroupsUmax hpkt, heof, if_neg (by simp),
      ih (fun p hp => h p (.tail _ hp)), ← storePairs_append]
    rfl

/-- A text whose last packet ends the record. -/
theorem consume_eofLast {text : List UInt8} (h : EofLast (packetsOf text).1) (user : DmUser) :
    consume ngroupsUmax user text =
      (storePairs ngroupsUmax user (pairsOfAll (packetsOf text).1), true, []) := by
  induction text using packets_induction generalizing user with
  | rest text hfree =>
    rw [packetsOf_rest hfree] at h
    obtain ⟨init, last, hnil, -⟩ := h
    simp at hnil
  | packet pkt more hpkt ih =>
    rw [packetsOf_packet hpkt] at h ⊢
    obtain ⟨init, last, heq, hlast, hinit⟩ := h
    rw [consume_packet ngroupsUmax hpkt]
    cases init with
    | nil =>
      obtain ⟨rfl, hnil⟩ := List.cons_eq_cons.1 heq
      have heof : (pairsOf pkt).2 = true := hlast
      rw [if_pos heof, hnil]
      simp [pairsOfAll]
    | cons p init =>
      obtain ⟨rfl, hmore⟩ := List.cons_eq_cons.1 heq
      have heof : (pairsOf pkt).2 = false := hinit pkt (.head _)
      rw [heof, if_neg (by simp), ih ⟨init, last, hmore, hlast, fun q hq => hinit q (.tail _ hq)⟩,
        ← storePairs_append]
      rfl

/-! ## Reads of the stream -/

/-- The bytes a `read` delivers. -/
def ReadResult.data : ReadResult → List UInt8
  | .bytes l => l
  | _ => []

/-- The bytes reads deliver. -/
def delivered (reads : List ReadResult) : List UInt8 := reads.flatMap ReadResult.data

variable (junk : Nat → UInt8)

/-- Turns of the receive loop one after the other, of one notification or several, while the pipe is
open. -/
def turns (dmd : DmData) : List ReadResult → Option DmData
  | [] => some dmd
  | r :: reads =>
    if dmd.closed then none
    else
      match turn ngroupsUmax junk dmd r with
      | none => none
      | some (dmd, _) => turns dmd reads

theorem turns_append (dmd : DmData) (xs ys : List ReadResult) :
    turns ngroupsUmax junk dmd (xs ++ ys) =
      (turns ngroupsUmax junk dmd xs).bind fun dmd => turns ngroupsUmax junk dmd ys := by
  induction xs generalizing dmd with
  | nil => rfl
  | cons r xs ih =>
    rw [List.cons_append, turns, turns]
    split
    · rfl
    · split
      · rfl
      · exact ih _

/-- A turn that goes on leaves the pipe open. -/
theorem turn_closed {dmd dmd' : DmData} {r : ReadResult} (hopen : dmd.closed = false)
    (h : turn ngroupsUmax junk dmd r = some (dmd', false)) : dmd'.closed = false := by
  cases r with
  | bytes l =>
    simp only [turn] at h
    split at h
    · cases h
    · split at h
      · simp at h
      · obtain ⟨rfl, -⟩ := Prod.mk.inj (Option.some.inj h)
        rfl
  | eintr =>
    obtain ⟨rfl, -⟩ := Prod.mk.inj (Option.some.inj h)
    exact hopen
  | eagain => simp [turn] at h
  | error => simp [turn] at h

theorem receivePacket_turns {dmd dmd' : DmData} {reads : List ReadResult}
    (hopen : dmd.closed = false) (h : receivePacket ngroupsUmax junk dmd reads = some dmd') :
    turns ngroupsUmax junk dmd reads = some dmd' := by
  induction reads generalizing dmd with
  | nil => exact nomatch h
  | cons r reads ih =>
    rw [receivePacket] at h
    rw [turns, if_neg (by simp [hopen])]
    split at h
    · exact nomatch h
    · rename_i d hturn
      rw [hturn]
      split at h
      · rename_i hnil
        rw [hnil]
        exact h
      · exact nomatch h
    · rename_i d hturn
      rw [hturn]
      exact ih (turn_closed ngroupsUmax junk hopen hturn) h

/-- The turns of notifications. -/
theorem notify_turns {dmd dmd' : DmData} {notes : List (List ReadResult)}
    (h : notify ngroupsUmax junk dmd notes = some dmd') :
    turns ngroupsUmax junk dmd notes.flatten = some dmd' := by
  induction notes generalizing dmd with
  | nil => exact h
  | cons reads notes ih =>
    rw [notify] at h
    split at h
    · exact nomatch h
    · rename_i hopen
      split at h
      · exact nomatch h
      · rename_i d hreceive
        rw [List.flatten_cons, turns_append,
          receivePacket_turns ngroupsUmax junk (by simpa using hopen) hreceive]
        exact ih h

/-! ## The state after some bytes -/

/-- The state after the bytes `text`, starting from `start` with nothing in the buffer. -/
structure Fed (start dmd : DmData) (text : List UInt8) : Prop where
  bufOk : BufOk junk dmd
  user : dmd.user = storePairs ngroupsUmax start.user (pairsOfAll (packetsOf text).1)
  /-- The record goes on, and the rest is in the buffer, or it has ended. -/
  record : ((∀ pkt ∈ (packetsOf text).1, isEof pkt = false) ∧ dmd.processed = start.processed ∧
      (dmd.closed = false → kept junk dmd = (packetsOf text).2)) ∨
    (EofLast (packetsOf text).1 ∧ dmd.processed = start.processed ++ [dmd.user] ∧
      kept junk dmd <:+ (packetsOf text).2)

/-- Packets of which at most the last ends the record. -/
def EofOnlyLast (pkts : List (List UInt8)) : Prop := ∀ pkt ∈ pkts.dropLast, isEof pkt = false

theorem EofOnlyLast.cases {pkts : List (List UInt8)} (h : EofOnlyLast pkts) :
    (∀ pkt ∈ pkts, isEof pkt = false) ∨ EofLast pkts := by
  rcases List.eq_nil_or_concat pkts with rfl | ⟨init, last, rfl⟩
  · exact .inl (by simp)
  · rw [EofOnlyLast, List.concat_eq_append, List.dropLast_concat] at h
    cases hlast : isEof last with
    | true => exact .inr ⟨init, last, List.concat_eq_append, hlast, h⟩
    | false =>
      left
      intro pkt hpkt
      rw [List.concat_eq_append, List.mem_append, List.mem_singleton] at hpkt
      rcases hpkt with hpkt | rfl
      · exact h pkt hpkt
      · exact hlast

theorem EofOnlyLast.of_append {xs ys : List (List UInt8)} (h : EofOnlyLast (xs ++ ys)) :
    EofOnlyLast xs := by
  intro pkt hpkt
  rcases List.eq_nil_or_concat ys with rfl | ⟨init, last, rfl⟩
  · rw [List.append_nil] at h
    exact h pkt hpkt
  · apply h pkt
    rw [List.concat_eq_append, ← List.append_assoc, List.dropLast_concat]
    exact List.mem_append_left _ ((List.dropLast_sublist xs).subset hpkt)

theorem EofLast.onlyLast {pkts : List (List UInt8)} (h : EofLast pkts) : EofOnlyLast pkts := by
  obtain ⟨init, last, rfl, -, hinit⟩ := h
  rwa [EofOnlyLast, List.dropLast_concat]

theorem EofLast.of_append {xs ys : List (List UInt8)} (h : EofLast (xs ++ ys))
    (hx : ∀ pkt ∈ xs, isEof pkt = false) : EofLast ys := by
  obtain ⟨init, last, heq, hlast, hinit⟩ := h
  rcases List.eq_nil_or_concat ys with rfl | ⟨init', last', rfl⟩
  · rw [List.append_nil] at heq
    rw [hx last (by simp [heq])] at hlast
    exact nomatch hlast
  · rw [List.concat_eq_append] at heq ⊢
    rw [← List.append_assoc] at heq
    obtain ⟨rfl, hl⟩ := List.append_inj' heq rfl
    obtain rfl := List.singleton_injective hl
    exact ⟨init', last', rfl, hlast, fun p hp => hinit p (List.mem_append_right _ hp)⟩

/-- Nothing follows the end of the record. -/
theorem EofLast.append_eq_nil {xs ys : List (List UInt8)} (hx : EofLast xs)
    (h : EofOnlyLast (xs ++ ys)) : ys = [] := by
  obtain ⟨init, last, rfl, hlast, -⟩ := hx
  rcases List.eq_nil_or_concat ys with rfl | ⟨init', last', rfl⟩
  · rfl
  · have hmem : last ∈ (init ++ [last] ++ (init'.concat last')).dropLast := by
      rw [List.concat_eq_append, ← List.append_assoc, List.dropLast_concat]
      simp
    rw [h last hmem] at hlast
    exact nomatch hlast

variable {ngroupsUmax junk}

/-- A turn that reads nothing leaves everything as it was. -/
theorem turn_noBytes {dmd dmd' : DmData} {r : ReadResult} {ret : Bool} (hbuf : BufOk junk dmd)
    (hr : r.data = []) (h : turn ngroupsUmax junk dmd r = some (dmd', ret)) :
    BufOk junk dmd' ∧ dmd'.user = dmd.user ∧ dmd'.processed = dmd.processed ∧
      (dmd'.closed = false → kept junk dmd' = kept junk dmd) ∧
      kept junk dmd' <:+ kept junk dmd := by
  have hclose : BufOk junk (closePipe dmd) ∧ kept junk (closePipe dmd) = [] :=
    bufOk_of_none junk rfl
  obtain ⟨g, hgrow, hmin, hroom⟩ := growBuf_spec junk hbuf
  have hgrown (d : DmData) (hd : d.buf = some (growBuf junk (openBuf junk dmd))) :
      BufOk junk d ∧ kept junk d = kept junk dmd := by
    rw [hgrow] at hmin hd
    exact bufOk_of_some junk hd (strAt_nulFree _ _) hmin
  cases r with
  | bytes l =>
    obtain rfl : l = [] := hr
    simp only [turn, List.length_nil, Nat.not_lt_zero, if_false, if_true] at h
    obtain ⟨rfl, -⟩ := Prod.mk.inj (Option.some.inj h)
    exact ⟨hclose.1, rfl, rfl, by simp [closePipe], by rw [hclose.2]; exact List.nil_suffix⟩
  | eintr =>
    obtain ⟨rfl, -⟩ := Prod.mk.inj (Option.some.inj h)
    obtain ⟨hok, hkept⟩ := hgrown { dmd with buf := some (growBuf junk (openBuf junk dmd)) } rfl
    exact ⟨hok, rfl, rfl, fun _ => hkept, by simp only [hkept, List.suffix_rfl]⟩
  | eagain =>
    obtain ⟨rfl, -⟩ := Prod.mk.inj (Option.some.inj h)
    obtain ⟨hok, hkept⟩ := hgrown { dmd with buf := some (growBuf junk (openBuf junk dmd)) } rfl
    exact ⟨hok, rfl, rfl, fun _ => hkept, by simp only [hkept, List.suffix_rfl]⟩
  | error =>
    obtain ⟨rfl, -⟩ := Prod.mk.inj (Option.some.inj h)
    exact ⟨hclose.1, rfl, rfl, by simp [closePipe], by rw [hclose.2]; exact List.nil_suffix⟩

/-- **A turn goes on with the stream.** -/
theorem Fed.turn {start dmd dmd' : DmData} {text : List UInt8} {r : ReadResult} {ret : Bool}
    (hfed : Fed ngroupsUmax junk start dmd text) (hopen : dmd.closed = false)
    (hnul : NulFree r.data) (heof : EofOnlyLast (packetsOf (text ++ r.data)).1)
    (h : turn ngroupsUmax junk dmd r = some (dmd', ret)) :
    Fed ngroupsUmax junk start dmd' (text ++ r.data) := by
  by_cases hdata : r.data = []
  · obtain ⟨hok, huser, hproc, hkept, hsuffix⟩ := turn_noBytes hfed.bufOk hdata h
    rw [hdata, List.append_nil]
    refine ⟨hok, huser.trans hfed.user, ?_⟩
    rw [hproc, huser]
    rcases hfed.record with ⟨hno, hp, hk⟩ | ⟨hlast, hp, hk⟩
    · exact .inl ⟨hno, hp, fun hc => (hkept hc).trans (hk hopen)⟩
    · exact .inr ⟨hlast, hp, hsuffix.trans hk⟩
  obtain ⟨l, rfl⟩ : ∃ l, r = .bytes l := by
    cases r with
    | bytes l => exact ⟨l, rfl⟩
    | _ => exact absurd rfl hdata
  obtain ⟨-, hok, hclosed, hconsume, hproc⟩ :=
    turn_bytes ngroupsUmax junk hfed.bufOk hnul hdata h
  have hl : (ReadResult.bytes l).data = l := rfl
  rw [hl] at heof hconsume ⊢
  obtain ⟨xs, rest, hxs⟩ : ∃ xs rest, packetsOf text = (xs, rest) := ⟨_, _, rfl⟩
  obtain ⟨ys, rest', hys⟩ : ∃ ys rest', packetsOf (rest ++ l) = (ys, rest') := ⟨_, _, rfl⟩
  have hnext : packetsOf (text ++ l) = (xs ++ ys, rest') := by rw [packetsOf_append, hxs, hys]
  have huser := hfed.user
  have hrecord := hfed.record
  rw [hxs] at huser hrecord
  rw [hnext] at heof
  suffices hgoal : dmd'.user = storePairs ngroupsUmax dmd.user (pairsOfAll ys) ∧
      (((∀ pkt ∈ xs ++ ys, isEof pkt = false) ∧ dmd'.processed = start.processed ∧
        (dmd'.closed = false → kept junk dmd' = rest')) ∨
      (EofLast (xs ++ ys) ∧ dmd'.processed = start.processed ++ [dmd'.user] ∧
        kept junk dmd' <:+ rest')) by
    refine ⟨hok, ?_, by rw [hnext]; exact hgoal.2⟩
    rw [hnext, hgoal.1, huser, pairsOfAll_append, storePairs_append]
  rcases hrecord with ⟨hno, hp, hk⟩ | ⟨hlast, hp, hk⟩
  · rw [hk hopen] at hconsume
    rcases heof.cases with hno' | hlast
    · have hys' : ∀ pkt ∈ (packetsOf (rest ++ l)).1, isEof pkt = false := by
        rw [hys]
        exact fun p hp => hno' p (List.mem_append_right _ hp)
      rw [consume_packets ngroupsUmax hys', hys, Prod.mk.injEq, Prod.mk.injEq] at hconsume
      obtain ⟨huser', rfl, hkept⟩ := hconsume
      exact ⟨huser'.symm, .inl ⟨hno', by simp [hproc, hp], fun _ => hkept.symm⟩⟩
    · have hys' : EofLast (packetsOf (rest ++ l)).1 := by
        rw [hys]
        exact hlast.of_append hno
      rw [consume_eofLast ngroupsUmax hys', hys, Prod.mk.injEq, Prod.mk.injEq] at hconsume
      obtain ⟨huser', rfl, hkept⟩ := hconsume
      exact ⟨huser'.symm, .inr ⟨hlast, by simp [hproc, hp], hkept ▸ List.nil_suffix⟩⟩
  · -- The record has ended, so the bytes hold no further packet.
    obtain rfl := hlast.append_eq_nil heof
    have hfree := packetsOf_eq_rest hys
    have hsuffix : kept junk dmd ++ l <:+ rest ++ l := by
      obtain ⟨t, ht⟩ := hk
      exact ⟨t, by rw [← List.append_assoc, ht]⟩
    rw [consume_rest ngroupsUmax (fun hmem => hfree.1 (hsuffix.subset hmem)), Prod.mk.injEq,
      Prod.mk.injEq] at hconsume
    obtain ⟨huser', rfl, hkept⟩ := hconsume
    refine ⟨huser'.symm, .inr ⟨by rwa [List.append_nil], by simp [hproc, hp, huser'], ?_⟩⟩
    rw [← hkept, hfree.2]
    exact hsuffix

/-- Nothing delivered yet. -/
theorem Fed.start {dmd : DmData} (hok : BufOk junk dmd) (hkept : kept junk dmd = []) :
    Fed ngroupsUmax junk dmd dmd [] := by
  have hnil : packetsOf [] = ([], []) := packetsOf_rest (by simp)
  refine ⟨hok, by rw [hnil]; rfl, .inl ⟨by simp [hnil], rfl, fun _ => ?_⟩⟩
  rw [hkept, hnil]

/-- **Turns go on with the stream.** -/
theorem Fed.turns {start dmd dmd' : DmData} {text : List UInt8} {reads : List ReadResult}
    (hfed : Fed ngroupsUmax junk start dmd text) (hnul : NulFree (delivered reads))
    (heof : EofOnlyLast (packetsOf (text ++ delivered reads)).1)
    (h : turns ngroupsUmax junk dmd reads = some dmd') :
    Fed ngroupsUmax junk start dmd' (text ++ delivered reads) := by
  induction reads generalizing dmd text with
  | nil =>
    obtain rfl := Option.some.inj h
    simpa [delivered] using hfed
  | cons r reads ih =>
    have hcons : delivered (r :: reads) = r.data ++ delivered reads := List.flatMap_cons
    rw [hcons, ← List.append_assoc] at heof ⊢
    rw [hcons] at hnul
    obtain ⟨hnulr, hnul⟩ := NulFree.of_append hnul
    rw [Dtlogin.turns] at h
    split at h
    · exact nomatch h
    rename_i hopen
    split at h
    · exact nomatch h
    rename_i d ret hturn
    have heofr : EofOnlyLast (packetsOf (text ++ r.data)).1 := by
      rw [packetsOf_append (text ++ r.data)] at heof
      exact heof.of_append
    exact ih (hfed.turn (by simpa using hopen) hnulr heofr hturn) hnul heof h

/-- What was processed follows from the complete packets. -/
theorem Fed.processed {start dmd : DmData} {text : List UInt8}
    (hfed : Fed ngroupsUmax junk start dmd text) :
    dmd.processed = start.processed ++
      (if (packetsOf text).1.any isEof then
        [storePairs ngroupsUmax start.user (pairsOfAll (packetsOf text).1)] else []) := by
  rw [← hfed.user]
  rcases hfed.record with ⟨hno, hp, -⟩ | ⟨⟨init, last, heq, hlast, -⟩, hp, -⟩
  · rw [if_neg, hp, List.append_nil]
    simpa using hno
  · rw [if_pos, hp]
    simp [heq, hlast]

/-- Room for the bytes of a read and the terminator. -/
theorem turn_room {dmd : DmData} {r : ReadResult} (hok : BufOk junk dmd) (hnul : NulFree r.data)
    {next : DmData × Bool} (h : turn ngroupsUmax junk dmd r = some next) :
    (kept junk dmd ++ r.data).length < (growBuf junk (openBuf junk dmd)).length := by
  by_cases hdata : r.data = []
  · obtain ⟨-, -, -, hroom⟩ := growBuf_spec junk hok
    rw [hdata, List.append_nil]
    omega
  · cases r with
    | bytes l => exact (turn_bytes ngroupsUmax junk hok hnul hdata h).1
    | _ => exact absurd rfl hdata

/-- The state after the first reads of a stream. -/
theorem fed_init {reads : List ReadResult} {stream more : List UInt8} {dmd : DmData}
    (hnul : NulFree stream) (heof : EofLast (packetsOf stream).1)
    (hstream : stream = delivered reads ++ more)
    (h : turns ngroupsUmax junk .init reads = some dmd) :
    Fed ngroupsUmax junk .init dmd (delivered reads) := by
  rw [hstream] at hnul heof
  obtain ⟨hok, hkept⟩ : BufOk junk .init ∧ kept junk .init = [] := bufOk_of_none junk rfl
  have hfirst : EofOnlyLast (packetsOf (delivered reads)).1 := by
    rw [packetsOf_append] at heof
    exact heof.onlyLast.of_append
  exact (Fed.start hok hkept).turns (NulFree.of_append hnul).1 hfirst h

/-- The user of a stream. -/
theorem processed_stream {stream : List UInt8} (hnul : NulFree stream)
    (heof : EofLast (packetsOf stream).1) {notes : List (List ReadResult)}
    (hstream : delivered notes.flatten = stream) {dmd : DmData}
    (run : notify ngroupsUmax junk .init notes = some dmd) :
    dmd.processed = [storePairs ngroupsUmax .init (pairsOfAll (packetsOf stream).1)] := by
  have hfed := fed_init hnul heof (by rw [hstream, List.append_nil])
    (notify_turns ngroupsUmax junk run)
  rw [hfed.processed, hstream, if_pos]
  · rfl
  · obtain ⟨init, last, heq, hlast, -⟩ := heof
    simp [heq, hlast]

/-- **Fragmentation does not matter.** A stream is delivered in two ways, cut into reads and
notifications: `dtlogin_process` is called with the same user. At any time of such a run, the user
is the one of the packets whose `;` has arrived, `dtlogin_process` has been called only if one of
them ends the record, and the buffer has room for the text kept, also with the bytes of the next
read. -/
theorem fragmentation_independence {stream : List UInt8} (hnul : NulFree stream)
    (heof : EofLast (packetsOf stream).1) {junk₁ junk₂ : Nat → UInt8}
    {notes₁ notes₂ : List (List ReadResult)} (h₁ : delivered notes₁.flatten = stream)
    (h₂ : delivered notes₂.flatten = stream) {dmd₁ dmd₂ : DmData}
    (run₁ : notify ngroupsUmax junk₁ .init notes₁ = some dmd₁)
    (run₂ : notify ngroupsUmax junk₂ .init notes₂ = some dmd₂) :
    (∃ user, dmd₁.processed = [user] ∧ dmd₂.processed = [user]) ∧
    ∀ reads rest, notes₁.flatten = reads ++ rest →
      ∃ dmd, turns ngroupsUmax junk₁ .init reads = some dmd ∧
        turns ngroupsUmax junk₁ dmd rest = some dmd₁ ∧
        dmd.user = storePairs ngroupsUmax .init (pairsOfAll (packetsOf (delivered reads)).1) ∧
        dmd.processed =
          (if (packetsOf (delivered reads)).1.any isEof then [dmd.user] else []) ∧
        (kept junk₁ dmd).length < (openBuf junk₁ dmd).length ∧
        ∀ r rest', rest = r :: rest' →
          (kept junk₁ dmd ++ r.data).length < (growBuf junk₁ (openBuf junk₁ dmd)).length := by
  refine ⟨⟨_, processed_stream hnul heof h₁ run₁, processed_stream hnul heof h₂ run₂⟩, ?_⟩
  intro reads rest hsplit
  have hturns := notify_turns ngroupsUmax junk₁ run₁
  rw [hsplit, turns_append, Option.bind_eq_some_iff] at hturns
  obtain ⟨dmd, hreads, hrest⟩ := hturns
  have hstream : stream = delivered reads ++ delivered rest := by
    rw [← h₁, hsplit]
    exact List.flatMap_append
  have hfed := fed_init hnul heof hstream hreads
  refine ⟨dmd, hreads, hrest, hfed.user, ?_, hfed.bufOk.2, ?_⟩
  · rw [hfed.processed, hfed.user]
    rfl
  · rintro r rest' rfl
    have hdata : NulFree r.data := by
      rw [hstream] at hnul
      have h := (NulFree.of_append hnul).2
      rw [delivered, List.flatMap_cons] at h
      exact (NulFree.of_append h).1
    rw [turns] at hrest
    split at hrest
    · exact nomatch hrest
    · split at hrest
      · exact nomatch hrest
      · rename_i hturn
        exact turn_room hfed.bufOk hdata hturn

/-- A record in one read, and cut inside a key and a value with an interrupted read between. -/
theorem fragmentation_independence_login :
    ∃ user, ((notify 16 (fun _ => 0) .init
        [[.bytes (chars "UID=\"10\";EOF=\"\";")]]).map DmData.processed) = some [user] ∧
      ((notify 16 (fun _ => 7) .init [[.bytes (chars "U"), .eintr, .bytes (chars "ID=\"1"), .eagain],
        [.bytes (chars "0\";EOF=\"\";")]]).map DmData.processed) = some [user] := by
  have hnul : NulFree (chars "UID=\"10\";EOF=\"\";") := by
    unfold NulFree
    decide
  have heof : EofLast (packetsOf (chars "UID=\"10\";EOF=\"\";")).1 :=
    ⟨[chars "UID=\"10\""], chars "EOF=\"\"", by decide +kernel, by decide +kernel,
      by decide +kernel⟩
  obtain ⟨dmd₁, run₁⟩ := Option.isSome_iff_exists.1 (show (notify 16 (fun _ => 0) .init
    [[.bytes (chars "UID=\"10\";EOF=\"\";")]]).isSome by decide +kernel)
  obtain ⟨dmd₂, run₂⟩ := Option.isSome_iff_exists.1 (show (notify 16 (fun _ => 7) .init
    [[.bytes (chars "U"), .eintr, .bytes (chars "ID=\"1"), .eagain],
      [.bytes (chars "0\";EOF=\"\";")]]).isSome by decide +kernel)
  obtain ⟨⟨user, hp₁, hp₂⟩, -⟩ := fragmentation_independence hnul heof rfl (by decide) run₁ run₂
  exact ⟨user, by rw [run₁, ← hp₁]; rfl, by rw [run₂, ← hp₂]; rfl⟩

end Dtlogin
