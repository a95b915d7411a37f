import SolarisXorg.Xserver.Dtlogin

/-!
# What the parser makes of a text

The parser works in the buffer it parses. Here is the same on texts: `pairsOf` are the pairs of a
packet up to an `EOF` pair, `consume` what the packets of a text do to the user. `parsePacket_spec`
and `parsePackets_spec` say that the buffer does not matter: the parser does to the user what the
text between the NULs does, and leaves what follows the text as it was. `turn_bytes` is the turn of
the receive loop: the text it keeps, the user and the calls of `dtlogin_process` depend on the text
kept so far and the bytes read.
-/

namespace Dtlogin

open Lib

/-! ## Pairs of a packet -/

/-- A text up to the first `c`, and what follows it. -/
def cutAt (c : UInt8) (t : List UInt8) : Option (List UInt8 × List UInt8) :=
  if c ∈ t then some (t.takeWhile (· ≠ c), (t.dropWhile (· ≠ c)).tail) else none

theorem cutAt_append {x : List UInt8} {c : UInt8} (hx : c ∉ x) (y : List UInt8) :
    cutAt c (x ++ c :: y) = some (x, y) := by
  have hpos : ∀ d ∈ x, (decide (d ≠ c)) = true := by
    intro d hd
    simp only [ne_eq, decide_eq_true_eq]
    rintro rfl
    exact hx hd
  rw [cutAt, if_pos (by simp), List.takeWhile_append_of_pos hpos, List.dropWhile_append_of_pos hpos]
  simp

theorem cutAt_eq_none {t : List UInt8} {c : UInt8} (h : c ∉ t) : cutAt c t = none := if_neg h

theorem cutAt_eq_some {t x y : List UInt8} {c : UInt8} (h : cutAt c t = some (x, y)) :
    t = x ++ c :: y ∧ c ∉ x := by
  by_cases hc : c ∈ t
  · obtain ⟨x', y', rfl, hx⟩ := List.eq_append_cons_of_mem hc
    rw [cutAt_append hx] at h
    obtain ⟨rfl, rfl⟩ := Prod.mk.inj (Option.some.inj h)
    exact ⟨rfl, hx⟩
  · rw [cutAt_eq_none hc] at h
    exact nomatch h

/-- The pairs of a packet before an `EOF` pair, and whether there is one. Text that is not a pair
ends the packet. -/
def pairsOf (pkt : List UInt8) : List (List UInt8 × List UInt8) × Bool :=
  match _hk : cutAt 0x3d (pkt.dropWhile isspace) with
  | none => ([], false)
  | some (key, rest) =>
    if rest.head? ≠ some 0x22 then ([], false)
    else
      match _hv : cutAt 0x22 rest.tail with
      | none => ([], false)
      | some (value, more) =>
        if key = chars "EOF" then ([], true)
        else ((key, value) :: (pairsOf more).1, (pairsOf more).2)
termination_by pkt.length
decreasing_by
  all_goals
    have hlen := congrArg List.length (cutAt_eq_some _hk).1
    have hmore := congrArg List.length (cutAt_eq_some _hv).1
    have hle := (List.dropWhile_sublist isspace (l := pkt)).length_le
    simp only [List.length_append, List.length_cons, List.length_tail] at hlen hmore
    omega

theorem pairsOf_eq_nil {pkt : List UInt8} (h : 0x3d ∉ pkt.dropWhile isspace) :
    pairsOf pkt = ([], false) := by
  rw [pairsOf, cutAt_eq_none h]

theorem pairsOf_key {pkt key rest : List UInt8}
    (hk : pkt.dropWhile isspace = key ++ 0x3d :: rest) (hkey : 0x3d ∉ key) :
    pairsOf pkt =
      if rest.head? ≠ some 0x22 then ([], false)
      else
        match cutAt 0x22 rest.tail with
        | none => ([], false)
        | some (value, more) =>
          if key = chars "EOF" then ([], true)
          else ((key, value) :: (pairsOf more).1, (pairsOf more).2) := by
  rw [pairsOf, hk, cutAt_append hkey]
  dsimp only
  split
  · rfl
  · split <;> rename_i h <;> rw [h]

variable (ngroupsUmax : Nat)

/-- Storing pairs one after the other. -/
def storePairs (user : DmUser) (pairs : List (List UInt8 × List UInt8)) : DmUser :=
  pairs.foldl (fun user pair => storePair ngroupsUmax user pair.1 pair.2) user

/-- The parser's equation, without the termination argument's equations. -/
theorem parsePacket_eq {buf : List UInt8} {s k : Nat} (hs : s < buf.length)
    (hk : s + ((strAt buf s).takeWhile isspace).length = k) (user : DmUser) :
    parsePacket ngroupsUmax buf user s =
      if buf.getD k 0 = 0 then (buf, user, false)
      else
        match strchr buf k 0x3d with
        | none => (buf, user, false)
        | some p =>
          if (buf.set p 0).getD (p + 1) 0 ≠ 0x22 then (buf.set p 0, user, false)
          else
            match strchr (buf.set p 0) (p + 2) 0x22 with
            | none => (buf.set p 0, user, false)
            | some q =>
              let cut := (buf.set p 0).set q 0
              if strAt cut k = chars "EOF" then (cut, user, true)
              else parsePacket ngroupsUmax cut
                (storePair ngroupsUmax user (strAt cut k) (strAt cut (p + 2))) (q + 1) := by
  rw [parsePacket, if_pos hs]
  simp only [hk]
  split
  · rfl
  · split
    · rename_i h
      rw [hk] at h
      rw [h]
    · rename_i p h
      rw [hk] at h
      rw [h]
      dsimp only
      split
      · rfl
      · split
        · rename_i h
          rw [h]
        · rename_i q h
          rw [h]

/-- The parser at a text that starts with a key. -/
theorem parsePacket_key (a ws : List UInt8) {key rest : List UInt8} (hkey : 0x3d ∉ key)
    (hws : (ws ++ (key ++ 0x3d :: rest)).takeWhile isspace = ws)
    (hfree : NulFree (ws ++ (key ++ 0x3d :: rest))) (r : List UInt8) (user : DmUser) :
    parsePacket ngroupsUmax (a ++ (ws ++ (key ++ 0x3d :: rest) ++ 0 :: r)) user a.length =
      if rest.head? ≠ some 0x22 then (a ++ (ws ++ (key ++ 0 :: rest) ++ 0 :: r), user, false)
      else
        match cutAt 0x22 rest.tail with
        | none => (a ++ (ws ++ (key ++ 0 :: rest) ++ 0 :: r), user, false)
        | some (value, more) =>
          let cut := a ++ ws ++ key ++ 0 :: 0x22 :: value ++ [0]
          if key = chars "EOF" then (cut ++ (more ++ 0 :: r), user, true)
          else parsePacket ngroupsUmax (cut ++ (more ++ 0 :: r))
            (storePair ngroupsUmax user key value) cut.length := by
  have hlt : a.length < (a ++ (ws ++ (key ++ 0x3d :: rest) ++ 0 :: r)).length := by
    rw [List.length_append, List.length_append, List.length_cons]
    omega
  have hbuf : a ++ (ws ++ (key ++ 0x3d :: rest) ++ 0 :: r) =
      (a ++ ws) ++ (key ++ 0x3d :: rest ++ 0 :: r) := by
    simp only [List.append_assoc]
  have hk : a.length + ((strAt (a ++ (ws ++ (key ++ 0x3d :: rest) ++ 0 :: r)) a.length).takeWhile
      isspace).length = (a ++ ws).length := by
    rw [strAt_append a hfree, hws, List.length_append]
  have htext := (NulFree.of_append hfree).2
  obtain ⟨hkfree, hrest⟩ := NulFree.of_append htext
  have hhead : ((a ++ ws) ++ (key ++ 0x3d :: rest ++ 0 :: r)).getD (a ++ ws).length 0 ≠ 0 := by
    cases key with
    | nil => simp
    | cons c key =>
      have hc : c ≠ 0 := fun h => hkfree (by rw [h]; exact .head _)
      simpa using hc
  have hp := strchr_append (a ++ ws) hkey htext r
  obtain ⟨w, hw⟩ : ∃ w, w = a ++ ws ++ key := ⟨_, rfl⟩
  have hwlen : (a ++ ws).length + key.length = w.length := by
    rw [hw]
    exact List.length_append.symm
  have hset : ((a ++ ws) ++ (key ++ 0x3d :: rest ++ 0 :: r)).set w.length 0 =
      w ++ 0 :: (rest ++ 0 :: r) := by
    rw [← set_append w _ 0x3d 0, hw]
    simp only [List.append_assoc, List.cons_append]
  have hkeyed : a ++ (ws ++ (key ++ 0 :: rest) ++ 0 :: r) = w ++ 0 :: (rest ++ 0 :: r) := by
    simp only [hw, List.append_assoc, List.cons_append]
  rw [parsePacket_eq ngroupsUmax hlt hk, hbuf, if_neg hhead, hp]
  simp only [hwlen, hset, hkeyed]
  cases rest with
  | nil =>
    rw [if_pos (by simp), if_pos (by simp)]
  | cons c v =>
    by_cases hc : c = 0x22
    case neg =>
      rw [if_pos (by simpa using hc), if_pos (by simpa using hc)]
    subst hc
    have hvfree : NulFree v := (NulFree.of_append (s := [0x3d, 0x22]) hrest).2
    rw [if_neg (by simp), if_neg (by simp)]
    have hquoted : w ++ 0 :: (0x22 :: v ++ 0 :: r) = (w ++ [0, 0x22]) ++ (v ++ 0 :: r) := by simp
    have hv : w.length + 2 = (w ++ [0, 0x22]).length := by simp
    rw [hquoted, hv, List.tail_cons]
    by_cases hmem : 0x22 ∈ v
    · obtain ⟨value, more, rfl, hvalue⟩ := List.eq_append_cons_of_mem hmem
      have hq := strchr_append (w ++ [0, 0x22]) hvalue hvfree r
      obtain ⟨hvalfree, -⟩ := NulFree.of_append hvfree
      have hcut : ((w ++ [0, 0x22]) ++ (value ++ 0x22 :: more ++ 0 :: r)).set
          ((w ++ [0, 0x22]).length + value.length) 0 =
          w ++ 0 :: 0x22 :: value ++ [0] ++ (more ++ 0 :: r) := by
        have h : (w ++ [0, 0x22]) ++ (value ++ 0x22 :: more ++ 0 :: r) =
            (w ++ [0, 0x22] ++ value) ++ 0x22 :: (more ++ 0 :: r) := by simp
        rw [h, ← List.length_append, set_append]
        simp
      have hkeyAt : strAt (w ++ 0 :: 0x22 :: value ++ [0] ++ (more ++ 0 :: r)) (a ++ ws).length =
          key := by
        have h := strAt_append (a ++ ws) hkfree (0x22 :: value ++ [0] ++ (more ++ 0 :: r))
        simpa [hw] using h
      have hvalueAt : strAt (w ++ 0 :: 0x22 :: value ++ [0] ++ (more ++ 0 :: r))
          (w ++ [0, 0x22]).length = value := by
        have h := strAt_append (w ++ [0, 0x22]) hvalfree (more ++ 0 :: r)
        simpa using h
      have hend : (w ++ [0, 0x22]).length + value.length + 1 =
          (w ++ 0 :: 0x22 :: value ++ [0]).length := by
        simp only [List.length_append, List.length_cons, List.length_nil]
        omega
      rw [hq, cutAt_append hvalue]
      simp only [hcut, hkeyAt, hvalueAt, hend, ← hw]
    · rw [strchr_eq_none _ hmem hvfree, cutAt_eq_none hmem]

/-- The parser at a text without a key. -/
theorem parsePacket_unkeyed (a : List UInt8) {pkt : List UInt8} (hpkt : NulFree pkt)
    (h : 0x3d ∉ pkt.dropWhile isspace) (r : List UInt8) (user : DmUser) :
    parsePacket ngroupsUmax (a ++ (pkt ++ 0 :: r)) user a.length =
      (a ++ (pkt ++ 0 :: r), user, false) := by
  obtain ⟨ws, k, hws, hk⟩ : ∃ ws k, pkt.takeWhile isspace = ws ∧ pkt.dropWhile isspace = k :=
    ⟨_, _, rfl, rfl⟩
  have hlt : a.length < (a ++ (pkt ++ 0 :: r)).length := by
    rw [List.length_append, List.length_append, List.length_cons]
    omega
  have hstart : a.length + ((strAt (a ++ (pkt ++ 0 :: r)) a.length).takeWhile isspace).length =
      (a ++ ws).length := by
    rw [strAt_append a hpkt, hws, List.length_append]
  have hbuf : a ++ (pkt ++ 0 :: r) = (a ++ ws) ++ (k ++ 0 :: r) := by
    rw [← List.takeWhile_append_dropWhile (p := isspace) (l := pkt), hws, hk]
    simp only [List.append_assoc]
  have hkfree : NulFree k := by
    rw [← List.takeWhile_append_dropWhile (p := isspace) (l := pkt), hk] at hpkt
    exact (NulFree.of_append hpkt).2
  rw [parsePacket_eq ngroupsUmax hlt hstart, hbuf, strchr_eq_none _ (hk ▸ h) hkfree]
  split <;> rfl

/-- **One packet.** The text of the packet decides, whatever else is in the buffer. -/
theorem parsePacket_spec (a : List UInt8) {pkt : List UInt8} (hpkt : NulFree pkt)
    (r : List UInt8) (user : DmUser) : ∃ b, b.length = a.length + pkt.length ∧
      parsePacket ngroupsUmax (a ++ (pkt ++ 0 :: r)) user a.length =
        (b ++ 0 :: r, storePairs ngroupsUmax user (pairsOf pkt).1, (pairsOf pkt).2) := by
  induction hn : pkt.length using Nat.strong_induction_on generalizing a pkt user with
  | _ n ih =>
    obtain ⟨ws, k, hws, hk⟩ : ∃ ws k, ws = pkt.takeWhile isspace ∧ k = pkt.dropWhile isspace :=
      ⟨_, _, rfl, rfl⟩
    have hsplit : pkt = ws ++ k := by rw [hws, hk, List.takeWhile_append_dropWhile]
    by_cases heq : 0x3d ∈ k
    case neg =>
      rw [pairsOf_eq_nil (hk ▸ heq), parsePacket_unkeyed ngroupsUmax a hpkt (hk ▸ heq)]
      exact ⟨a ++ pkt, by simp [hn], by simp; rfl⟩
    obtain ⟨key, rest, rfl, hkey⟩ := List.eq_append_cons_of_mem heq
    have hpairs := pairsOf_key hk.symm hkey
    rw [hpairs]
    subst hsplit
    rw [parsePacket_key ngroupsUmax a ws hkey hws.symm hpkt]
    by_cases hhead : rest.head? ≠ some 0x22
    · rw [if_pos hhead, if_pos hhead]
      exact ⟨a ++ (ws ++ (key ++ 0 :: rest)), by simp [← hn], by simp; rfl⟩
    obtain ⟨v, rfl⟩ := List.head?_eq_some_iff.1 (not_not.1 hhead)
    rw [if_neg hhead, if_neg hhead]
    cases hcut : cutAt 0x22 v with
    | none => exact ⟨a ++ (ws ++ (key ++ 0 :: 0x22 :: v)), by simp [← hn], by simp [hcut]; rfl⟩
    | some cut =>
      obtain ⟨value, more⟩ := cut
      obtain ⟨rfl, hvalue⟩ := cutAt_eq_some hcut
      rw [List.tail_cons, hcut]
      dsimp only
      obtain ⟨c, hc⟩ : ∃ c, c = a ++ ws ++ key ++ 0 :: 0x22 :: value ++ [0] := ⟨_, rfl⟩
      have hclen : c.length + more.length = a.length + n := by
        rw [hc, ← hn]
        simp only [List.length_append, List.length_cons, List.length_nil]
        omega
      rw [← hc]
      by_cases heof : key = chars "EOF"
      · rw [if_pos heof, if_pos heof]
        refine ⟨c ++ more, by rw [List.length_append, hclen], by simp; rfl⟩
      · have hlt : more.length < n := by
          rw [← hn]
          simp only [List.length_append, List.length_cons]
          omega
        have hmore : NulFree more := fun h => hpkt (by simp [h])
        obtain ⟨b, hb, hparse⟩ :=
          ih more.length hlt c hmore (storePair ngroupsUmax user key value) rfl
        rw [if_neg heof, if_neg heof, hparse]
        exact ⟨b, hb.trans hclen, rfl⟩

/-! ## Packets of a text -/

/-- What the packets of a text do to the user: whether one of them ends the record, which is then the
last one looked at, and the text after the last packet otherwise. -/
def consume (user : DmUser) (text : List UInt8) : DmUser × Bool × List UInt8 :=
  match _h : cutAt 0x3b text with
  | none => (user, false, text)
  | some (pkt, more) =>
    let user := storePairs ngroupsUmax user (pairsOf pkt).1
    if (pairsOf pkt).2 then (user, true, []) else consume user more
termination_by text.length
decreasing_by
  have hlen := congrArg List.length (cutAt_eq_some _h).1
  simp only [List.length_append, List.length_cons] at hlen
  omega

theorem consume_rest {user : DmUser} {text : List UInt8} (h : 0x3b ∉ text) :
    consume ngroupsUmax user text = (user, false, text) := by
  rw [consume, cutAt_eq_none h]

theorem consume_packet {user : DmUser} {pkt : List UInt8} (hpkt : 0x3b ∉ pkt) (more : List UInt8) :
    consume ngroupsUmax user (pkt ++ 0x3b :: more) =
      if (pairsOf pkt).2 then (storePairs ngroupsUmax user (pairsOf pkt).1, true, [])
      else consume ngroupsUmax (storePairs ngroupsUmax user (pairsOf pkt).1) more := by
  rw [consume, cutAt_append hpkt]

theorem consume_nulFree {user : DmUser} {text : List UInt8} (h : NulFree text) :
    NulFree (consume ngroupsUmax user text).2.2 := by
  fun_induction consume ngroupsUmax user text with
  | case1 => exact h
  | case2 => exact List.not_mem_nil
  | case3 user text pkt more hcut user' heof ih =>
    refine ih fun hmore => h ?_
    rw [(cutAt_eq_some hcut).1]
    simp [hmore]

/-- The loop does not keep what follows the end of a record. -/
theorem consume_done {user : DmUser} {text : List UInt8}
    (h : (consume ngroupsUmax user text).2.1 = true) : (consume ngroupsUmax user text).2.2 = [] := by
  fun_induction consume ngroupsUmax user text with
  | case1 => exact nomatch h
  | case2 => rfl
  | case3 user text pkt more hcut user' heof ih => exact ih h

/-- **The complete packets.** The loop does to the user what the text does, and the text left is
where the loop stops, at the same distance from the end. -/
theorem parsePackets_spec (a : List UInt8) {text : List UInt8} (htext : NulFree text)
    (r : List UInt8) {user user' : DmUser} {done : Bool} {rest : List UInt8}
    (h : consume ngroupsUmax user text = (user', done, rest)) :
    ∃ b p, parsePackets ngroupsUmax (a ++ (text ++ 0 :: r)) user a.length =
        (b ++ (rest ++ 0 :: r), user', done, p) ∧
      b.length + rest.length = a.length + text.length ∧ (done = false → p = b.length) := by
  induction hn : text.length using Nat.strong_induction_on generalizing a text user with
  | _ n ih =>
    rw [parsePackets]
    by_cases hmem : 0x3b ∈ text
    case neg =>
      rw [consume_rest ngroupsUmax hmem] at h
      cases h
      rw [strchr_eq_none a hmem htext]
      exact ⟨a, a.length, rfl, by rw [hn], fun _ => rfl⟩
    obtain ⟨pkt, more, rfl, hpkt⟩ := List.eq_append_cons_of_mem hmem
    obtain ⟨hpktfree, hmorefree⟩ := NulFree.of_append htext
    have hset : (a ++ (pkt ++ 0x3b :: more ++ 0 :: r)).set (a.length + pkt.length) 0 =
        a ++ (pkt ++ 0 :: (more ++ 0 :: r)) := by
      have hbuf : a ++ (pkt ++ 0x3b :: more ++ 0 :: r) = (a ++ pkt) ++ 0x3b :: (more ++ 0 :: r) := by
        simp
      rw [hbuf, ← List.length_append, set_append, List.append_assoc]
    obtain ⟨b, hb, hparse⟩ :=
      parsePacket_spec ngroupsUmax a hpktfree (more ++ 0 :: r) user
    rw [consume_packet ngroupsUmax hpkt] at h
    rw [strchr_append a hpkt htext]
    dsimp only
    rw [hset, hparse]
    dsimp only
    by_cases heof : (pairsOf pkt).2
    · rw [if_pos heof] at h ⊢
      cases h
      refine ⟨b ++ 0 :: more, a.length, by simp, ?_, by simp⟩
      rw [← hn]
      simp only [List.length_append, List.length_cons, List.length_nil]
      omega
    · rw [if_neg heof] at h ⊢
      have hlt : more.length < n := by
        rw [← hn]
        simp only [List.length_append, List.length_cons]
        omega
      have hstart : a.length + pkt.length + 1 = (b ++ [0]).length := by simp [hb]
      have hbuf : b ++ 0 :: (more ++ 0 :: r) = (b ++ [0]) ++ (more ++ 0 :: r) := by simp
      obtain ⟨b', p, hrec, hlen, hp⟩ :=
        ih more.length hlt (b ++ [0]) (NulFree.of_append (s := [0x3b]) hmorefree).2 h rfl
      refine ⟨b', p, by rw [hbuf, hstart, hrec], ?_, hp⟩
      rw [hlen, ← hn, ← hstart]
      simp only [List.length_append, List.length_cons]
      omega

/-! ## A turn of the receive loop -/

variable (junk : Nat → UInt8)

/-- The text kept for the next read. -/
def kept (dmd : DmData) : List UInt8 := strAt (openBuf junk dmd) 0

/-- The buffer is an allocated one and holds the text kept with its terminator. -/
def BufOk (dmd : DmData) : Prop :=
  bufLen ≤ (openBuf junk dmd).length ∧ (kept junk dmd).length < (openBuf junk dmd).length

theorem bufOk_of_none {dmd : DmData} (h : dmd.buf = none) : BufOk junk dmd ∧ kept junk dmd = [] := by
  have hlen : (openBuf junk dmd).length = bufLen := by simp [openBuf, h, fresh]
  obtain ⟨c, m, hm⟩ : ∃ c m, fresh junk bufLen = c :: m :=
    List.exists_cons_of_length_pos (by simp [fresh, bufLen])
  have hopen : openBuf junk dmd = 0 :: m := by
    rw [openBuf, h]
    dsimp only
    rw [hm, List.set_cons_zero]
  have hkept : kept junk dmd = [] := by
    rw [kept, hopen]
    rfl
  refine ⟨⟨hlen.ge, ?_⟩, hkept⟩
  rw [hkept, hlen]
  decide

theorem bufOk_of_some {dmd : DmData} {text r : List UInt8} (h : dmd.buf = some (text ++ 0 :: r))
    (htext : NulFree text) (hlen : bufLen ≤ (text ++ 0 :: r).length) :
    BufOk junk dmd ∧ kept junk dmd = text := by
  have hopen : openBuf junk dmd = text ++ 0 :: r := by rw [openBuf, h]
  have hkept : kept junk dmd = text := by
    rw [kept, hopen]
    exact strAt_append [] htext r
  refine ⟨⟨hopen ▸ hlen, ?_⟩, hkept⟩
  rw [hkept, hopen]
  simp

/-- Growing keeps the text and leaves room to read into. -/
theorem growBuf_spec {dmd : DmData} (h : BufOk junk dmd) :
    ∃ r, growBuf junk (openBuf junk dmd) = kept junk dmd ++ 0 :: r ∧
      bufLen ≤ (growBuf junk (openBuf junk dmd)).length ∧
      (kept junk dmd).length + 1 < (growBuf junk (openBuf junk dmd)).length := by
  obtain ⟨hmin, hlt⟩ := h
  obtain ⟨r, hr⟩ := eq_strAt_append hlt
  have hkept : strAt (openBuf junk dmd) 0 = kept junk dmd := rfl
  rw [hkept] at hr
  rw [growBuf, hkept]
  have hfresh : (fresh junk bufLen).length = bufLen := by simp [fresh]
  split
  · refine ⟨r ++ fresh junk bufLen, ?_, ?_, ?_⟩
    · rw [← List.cons_append, ← List.append_assoc, ← hr]
    all_goals
      rw [List.length_append, hfresh]
      simp only [bufLen] at *
      omega
  · refine ⟨r, hr, hmin, ?_⟩
    simp only [bufLen] at *
    omega

/-- Saving the rest moves it to the front of the buffer. -/
theorem save_rest {b rest r : List UInt8} {done : Bool} {p n : Nat} (hrest : NulFree rest)
    (hn : b.length + rest.length = n) (hp : done = false → p = b.length)
    (hdone : done = true → rest = []) :
    ∃ t, (if !done ∧ p < n then strcpy (b ++ (rest ++ 0 :: r)) (strAt (b ++ (rest ++ 0 :: r)) p)
        else (b ++ (rest ++ 0 :: r)).set 0 0) = rest ++ 0 :: t ∧
      (rest ++ 0 :: t).length = (b ++ (rest ++ 0 :: r)).length := by
  split
  · rename_i h
    have hd : done = false := by simpa using h.1
    rw [hp hd, strAt_append b hrest]
    refine ⟨_, rfl, ?_⟩
    simp only [List.length_append, List.length_cons, List.length_drop]
    omega
  · rename_i h
    have hnil : rest = [] := by
      cases done with
      | true => exact hdone rfl
      | false =>
        rw [hp rfl] at h
        simp only [Bool.not_false, true_and] at h
        exact List.length_eq_zero_iff.1 (by omega)
    subst hnil
    obtain ⟨c, m, hm⟩ := List.exists_cons_of_length_pos (l := b ++ ([] ++ 0 :: r)) (by
      rw [List.length_append, List.length_append, List.length_cons]
      omega)
    rw [hm]
    exact ⟨m, rfl, rfl⟩

/-- **A read that delivers bytes.** -/
theorem turn_bytes {dmd dmd' : DmData} {l : List UInt8} {ret : Bool} (hbuf : BufOk junk dmd)
    (hl : NulFree l) (hne : l ≠ [])
    (h : turn ngroupsUmax junk dmd (.bytes l) = some (dmd', ret)) :
    (kept junk dmd ++ l).length < (growBuf junk (openBuf junk dmd)).length ∧ BufOk junk dmd' ∧
      dmd'.closed = false ∧
      consume ngroupsUmax dmd.user (kept junk dmd ++ l) = (dmd'.user, ret, kept junk dmd') ∧
      dmd'.processed = dmd.processed ++ (if ret then [dmd'.user] else []) := by
  obtain ⟨r, hgrow, hmin, hroom⟩ := growBuf_spec junk hbuf
  have hkfree : NulFree (kept junk dmd) := strAt_nulFree _ _
  obtain ⟨buf, hbufeq⟩ : ∃ buf, growBuf junk (openBuf junk dmd) = buf := ⟨_, rfl⟩
  rw [hbufeq] at hgrow hmin hroom ⊢
  have hstr : strAt buf 0 = kept junk dmd := by
    rw [hgrow]
    exact strAt_append [] hkfree r
  simp only [turn, hbufeq, hstr, if_neg hne] at h
  by_cases hfit : buf.length - (kept junk dmd).length - 1 < l.length
  · rw [if_pos hfit] at h
    exact nomatch h
  rw [if_neg hfit] at h
  obtain ⟨r', hr'⟩ : ∃ r', buf.drop ((kept junk dmd).length + l.length + 1) = r' := ⟨_, rfl⟩
  have htake : buf.take (kept junk dmd).length = kept junk dmd := by rw [hgrow, List.take_left]
  have hlen : (kept junk dmd ++ l ++ 0 :: r').length = buf.length := by
    rw [← hr']
    simp only [List.length_append, List.length_cons, List.length_drop]
    omega
  obtain ⟨user, done, rest, hconsume⟩ : ∃ user done rest,
      consume ngroupsUmax dmd.user (kept junk dmd ++ l) = (user, done, rest) := ⟨_, _, _, rfl⟩
  obtain ⟨b, p, hparse, hblen, hp⟩ :=
    parsePackets_spec ngroupsUmax [] (hkfree.append hl) r' hconsume
  rw [List.nil_append, List.length_nil] at hparse
  rw [htake, hr', hparse] at h
  dsimp only at h
  obtain ⟨hdmd, rfl⟩ := Prod.mk.inj (Option.some.inj h)
  have hrest : NulFree rest := by
    have h : NulFree (consume ngroupsUmax dmd.user (kept junk dmd ++ l)).2.2 :=
      consume_nulFree ngroupsUmax (hkfree.append hl)
    rwa [hconsume] at h
  have hlen' : (b ++ (rest ++ 0 :: r')).length = buf.length := by
    rw [← hlen, List.length_append, List.length_append, List.length_append, ← Nat.add_assoc, hblen]
    simp
  have hdone : done = true → rest = [] := by
    intro h
    have hnil : (consume ngroupsUmax dmd.user (kept junk dmd ++ l)).2.2 = [] :=
      consume_done ngroupsUmax (by rw [hconsume, h])
    rwa [hconsume] at hnil
  have hn : b.length + rest.length = (kept junk dmd).length + l.length := by
    simpa using hblen
  obtain ⟨t, ht, htlen⟩ := save_rest (r := r') hrest hn hp hdone
  have hbuf' : dmd'.buf = some (rest ++ 0 :: t) := by rw [← hdmd, ← ht]
  obtain ⟨hok, hkept⟩ := bufOk_of_some junk hbuf' hrest (by rw [htlen, hlen']; exact hmin)
  refine ⟨?_, hok, ?_, ?_, ?_⟩
  · simp only [List.length_append, List.length_cons] at hlen ⊢
    omega
  · rw [← hdmd]
  · rw [hkept, hconsume, ← hdmd]
  · rw [← hdmd]
    cases done <;> simp

end Dtlogin
