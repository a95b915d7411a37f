import Mathlib.Algebra.Group.Nat.Defs
import SolarisXorg.Xserver.Proof.DtloginStream

/-!
# What a login record says

`loginRecord` is the record of a login as the comment at `dtlogin_parse_packet` shows it. The parser
reads back the pairs of a packet (`pairsOf_packet`) and their numbers (`numeric_number`), so of a
record that is cut into its own packets `dtlogin_process` gets the user (`storePairs_login`). But
the packets are cut at every `;`, also between quotes: whatever the stream is, no `;` gets into a
home directory (`turns_homes`). So the user comes back exactly when the home directory has no `;`
(`login_record_iff`).
-/

namespace Dtlogin

open Lib

/-! ## Records -/

/-- `KEY="value"` -/
def quoted (key value : List UInt8) : List UInt8 := key ++ 0x3d :: 0x22 :: value ++ [0x22]

/-- Pairs with spaces between them. -/
def packet : List (List UInt8 × List UInt8) → List UInt8
  | [] => []
  | [pair] => quoted pair.1 pair.2
  | pair :: pairs => quoted pair.1 pair.2 ++ 0x20 :: packet pairs

/-- A decimal number. -/
def number (n : Nat) : List UInt8 := chars (toString n)

/-- The group list's pairs. -/
def groupPairs (groups : List Nat) : List (List UInt8 × List UInt8) :=
  groups.map fun g => (chars "G_LIST_ID", number g)

/-- `UID="uid" GID="gid"; G_LIST_ID="…" …; HOME="home" EOF="";` -/
def loginRecord (uid gid : Nat) (groups : List Nat) (home : List UInt8) : List UInt8 :=
  packet [(chars "UID", number uid), (chars "GID", number gid)] ++ 0x3b ::
  (0x20 :: packet (groupPairs groups) ++ 0x3b ::
  (0x20 :: packet [(chars "HOME", home), (chars "EOF", [])] ++ [0x3b]))

example : loginRecord 100 10 [10, 14] (chars "/u") =
    chars "UID=\"100\" GID=\"10\"; G_LIST_ID=\"10\" G_LIST_ID=\"14\"; HOME=\"/u\" EOF=\"\";" := by
  decide +kernel

/-! ## The pairs of a packet -/

/-- A pair the parser can take apart. -/
structure IsPair (pair : List UInt8 × List UInt8) : Prop where
  key : 0x3d ∉ pair.1
  start : ∃ b t, pair.1 = b :: t ∧ isspace b = false
  value : 0x22 ∉ pair.2

theorem pairsOf_space (pkt : List UInt8) : pairsOf (0x20 :: pkt) = pairsOf pkt := by
  have hdrop : (0x20 :: pkt).dropWhile isspace = pkt.dropWhile isspace :=
    List.dropWhile_cons_of_pos rfl
  by_cases h : 0x3d ∈ pkt.dropWhile isspace
  · obtain ⟨key, rest, hk, hkey⟩ := List.eq_append_cons_of_mem h
    rw [pairsOf_key hk hkey, pairsOf_key (hdrop.trans hk) hkey]
  · rw [pairsOf_eq_nil h, pairsOf_eq_nil (hdrop ▸ h)]

theorem pairsOf_quoted {pair : List UInt8 × List UInt8} (h : IsPair pair) (more : List UInt8) :
    pairsOf (quoted pair.1 pair.2 ++ more) =
      if pair.1 = chars "EOF" then ([], true)
      else (pair :: (pairsOf more).1, (pairsOf more).2) := by
  obtain ⟨b, t, hstart, hb⟩ := h.start
  have htext : quoted pair.1 pair.2 ++ more =
      pair.1 ++ 0x3d :: 0x22 :: (pair.2 ++ 0x22 :: more) := by
    simp [quoted]
  have hdrop : (pair.1 ++ 0x3d :: 0x22 :: (pair.2 ++ 0x22 :: more)).dropWhile isspace =
      pair.1 ++ 0x3d :: 0x22 :: (pair.2 ++ 0x22 :: more) := by
    rw [hstart, List.cons_append, List.dropWhile_cons_of_neg (by simp [hb])]
  rw [htext, pairsOf_key hdrop h.key, List.head?_cons, if_neg (by simp), List.tail_cons,
    cutAt_append h.value]

/-- **A packet's pairs are read back**, up to an `EOF` pair. -/
theorem pairsOf_packet {pairs : List (List UInt8 × List UInt8)} (h : ∀ pair ∈ pairs, IsPair pair) :
    pairsOf (packet pairs) =
      (pairs.takeWhile (·.1 ≠ chars "EOF"), pairs.any (·.1 = chars "EOF")) := by
  fun_induction packet pairs with
  | case1 =>
    rw [pairsOf_eq_nil List.not_mem_nil]
    rfl
  | case2 pair =>
    have hpair := pairsOf_quoted (h pair (.head _)) []
    rw [List.append_nil] at hpair
    rw [hpair, pairsOf_eq_nil List.not_mem_nil]
    split <;> rename_i heof <;> simp [heof]
  | case3 pair pairs hne ih =>
    rw [pairsOf_quoted (h pair (.head _)), pairsOf_space, ih fun q hq => h q (.tail _ hq)]
    split <;> rename_i heof <;> simp [heof]

theorem not_mem_packet {c : UInt8} (hc : c ≠ 0x3d ∧ c ≠ 0x22 ∧ c ≠ 0x20)
    {pairs : List (List UInt8 × List UInt8)} (h : ∀ pair ∈ pairs, c ∉ pair.1 ∧ c ∉ pair.2) :
    c ∉ packet pairs := by
  obtain ⟨heq, hquote, hspace⟩ := hc
  have hquoted (pair : List UInt8 × List UInt8) (hpair : c ∉ pair.1 ∧ c ∉ pair.2) :
      c ∉ quoted pair.1 pair.2 := by
    simp [quoted, hpair, heq, hquote]
  fun_induction packet pairs with
  | case1 => exact List.not_mem_nil
  | case2 pair => exact hquoted pair (h pair (.head _))
  | case3 pair pairs hne ih =>
    rw [List.mem_append, List.mem_cons]
    rintro (hmem | rfl | hmem)
    · exact hquoted pair (h pair (.head _)) hmem
    · exact hspace rfl
    · exact ih (fun q hq => h q (.tail _ hq)) hmem

/-! ## The user of a record -/

theorem not_mem_number {c : UInt8} (hc : c < 0x30 ∨ 0x39 < c) (n : Nat) : c ∉ number n := by
  intro h
  obtain ⟨hlow, hhigh⟩ := digit_of_mem_toString h
  rcases hc with hc | hc
  · exact absurd hlow (UInt8.not_le.2 hc)
  · exact absurd hhigh (UInt8.not_le.2 hc)

theorem numeric_number {n : Nat} (hn : n < 2 ^ 31) : numeric (number n) = some (.ofNat n) := by
  have hstr : strtol (number n) = ((n : Int), false) :=
    strtol_toString (by simp only [longMax]; omega)
  simp only [numeric, hstr]
  rw [if_neg, if_neg (by simp)]
  · have hmod : ((n : Int) % 2 ^ 32).toNat = n := by omega
    rw [UInt32.ofInt, hmod]
  · rintro ⟨hzero, hne⟩
    obtain rfl : n = 0 := by omega
    exact hne rfl

variable {ngroupsUmax : Nat}

theorem storePairs_groups {groups : List Nat} (hgroups : ∀ g ∈ groups, g < 2 ^ 31) (user : DmUser)
    (hlen : user.groupids.length + groups.length ≤ ngroupsUmax) :
    storePairs ngroupsUmax user (groupPairs groups) =
      { user with groupids := user.groupids ++ groups.map .ofNat } := by
  induction groups generalizing user with
  | nil => rw [List.map_nil, List.append_nil]; rfl
  | cons g groups ih =>
    rw [List.length_cons] at hlen
    have hstep : storePairs ngroupsUmax user (groupPairs (g :: groups)) =
        storePairs ngroupsUmax (storePair ngroupsUmax user (chars "G_LIST_ID") (number g))
          (groupPairs groups) := rfl
    have hpair : storePair ngroupsUmax user (chars "G_LIST_ID") (number g) =
        { user with groupids := user.groupids ++ [.ofNat g] } := by
      rw [storePair, if_neg (by decide), if_neg (by decide), if_neg (by decide), if_pos rfl,
        numeric_number (hgroups g (.head _))]
      exact if_pos (by omega)
    rw [hstep, hpair, ih (fun x hx => hgroups x (.tail _ hx))]
    · simp only [List.append_assoc, List.singleton_append, List.map_cons]
    · rw [List.length_append, List.length_singleton]
      omega

/-- The pairs of a record. -/
def loginPairs (uid gid : Nat) (groups : List Nat) (home : List UInt8) :
    List (List UInt8 × List UInt8) :=
  [(chars "UID", number uid), (chars "GID", number gid)] ++ groupPairs groups ++
    [(chars "HOME", home)]

/-- **The pairs of a record make its user.** -/
theorem storePairs_login {uid gid : Nat} {groups : List Nat} {home : List UInt8}
    (huid : uid < 2 ^ 31) (hgid : gid < 2 ^ 31) (hgroups : ∀ g ∈ groups, g < 2 ^ 31)
    (hlen : groups.length ≤ ngroupsUmax) :
    storePairs ngroupsUmax .init (loginPairs uid gid groups home) =
      ⟨.ofNat uid, .ofNat gid, some home, -1, groups.map .ofNat⟩ := by
  have hids : storePairs ngroupsUmax .init
      [(chars "UID", number uid), (chars "GID", number gid)] =
      { DmUser.init with uid := .ofNat uid, gid := .ofNat gid } := by
    simp only [storePairs, List.foldl_cons, List.foldl_nil, storePair, numeric_number huid,
      numeric_number hgid]
    rfl
  rw [loginPairs, storePairs_append, storePairs_append, hids,
    storePairs_groups hgroups _ (by simpa [DmUser.init] using hlen)]
  rfl

/-! ## Packets of a record -/

theorem isPair {key : String} {value : List UInt8} (hkey : 0x3d ∉ chars key)
    (hstart : ((chars key).head?.map isspace) = some false) (hvalue : 0x22 ∉ value) :
    IsPair (chars key, value) := by
  refine ⟨hkey, ?_, hvalue⟩
  cases h : chars key with
  | nil => simp [h] at hstart
  | cons b t => exact ⟨b, t, rfl, by simpa [h] using hstart⟩

theorem isPair_ids (uid gid : Nat) : ∀ pair ∈
    [(chars "UID", number uid), (chars "GID", number gid)], IsPair pair := by
  intro pair hpair
  simp only [List.mem_cons, List.not_mem_nil, or_false] at hpair
  rcases hpair with rfl | rfl
  · exact isPair (by decide) (by decide) (not_mem_number (by decide) uid)
  · exact isPair (by decide) (by decide) (not_mem_number (by decide) gid)

theorem isPair_groups (groups : List Nat) : ∀ pair ∈ groupPairs groups, IsPair pair := by
  intro pair hpair
  obtain ⟨g, -, rfl⟩ := List.mem_map.1 hpair
  exact isPair (by decide) (by decide) (not_mem_number (by decide) g)

theorem isPair_home {home : List UInt8} (hquote : 0x22 ∉ home) : ∀ pair ∈
    [(chars "HOME", home), (chars "EOF", [])], IsPair pair := by
  intro pair hpair
  simp only [List.mem_cons, List.not_mem_nil, or_false] at hpair
  rcases hpair with rfl | rfl
  · exact isPair (by decide) (by decide) hquote
  · exact isPair (by decide) (by decide) List.not_mem_nil

/-- A NUL and a `;` can only be in the home directory. -/
theorem not_mem_packets {c : UInt8} (hc : c = 0 ∨ c = 0x3b) (uid gid : Nat) (groups : List Nat)
    {home : List UInt8} (hhome : c ∉ home) :
    c ∉ packet [(chars "UID", number uid), (chars "GID", number gid)] ∧
    c ∉ 0x20 :: packet (groupPairs groups) ∧
    c ∉ 0x20 :: packet [(chars "HOME", home), (chars "EOF", [])] := by
  have hne : c ≠ 0x3d ∧ c ≠ 0x22 ∧ c ≠ 0x20 := by
    rcases hc with rfl | rfl <;> decide
  have hnumber (n : Nat) : c ∉ number n := by
    rcases hc with rfl | rfl <;> exact not_mem_number (by decide) n
  have hkey : c ∉ chars "UID" ∧ c ∉ chars "GID" ∧ c ∉ chars "G_LIST_ID" ∧ c ∉ chars "HOME" ∧
      c ∉ chars "EOF" := by
    rcases hc with rfl | rfl <;> decide
  obtain ⟨huid, hgid, hgroup, hhomeKey, heof⟩ := hkey
  refine ⟨not_mem_packet hne ?_, ?_, ?_⟩
  · simp [huid, hgid, hnumber]
  · rw [List.mem_cons, not_or]
    refine ⟨hne.2.2, not_mem_packet hne fun pair hpair => ?_⟩
    obtain ⟨g, -, rfl⟩ := List.mem_map.1 hpair
    exact ⟨hgroup, hnumber g⟩
  · rw [List.mem_cons, not_or]
    exact ⟨hne.2.2, not_mem_packet hne (by simp [hhomeKey, heof, hhome])⟩

theorem loginRecord_nulFree (uid gid : Nat) (groups : List Nat) {home : List UInt8}
    (hnul : 0 ∉ home) : NulFree (loginRecord uid gid groups home) := by
  obtain ⟨hids, hlist, hlast⟩ := not_mem_packets (.inl rfl) uid gid groups hnul
  have hsemi {t : List UInt8} (ht : NulFree t) : NulFree (0x3b :: t) :=
    NulFree.append (s := [0x3b]) (by unfold NulFree; decide) ht
  exact NulFree.append hids (hsemi (NulFree.append hlist (hsemi (NulFree.append hlast
    (hsemi List.not_mem_nil)))))

theorem packetsOf_loginRecord (uid gid : Nat) (groups : List Nat) {home : List UInt8}
    (hsemi : 0x3b ∉ home) :
    packetsOf (loginRecord uid gid groups home) =
      ([packet [(chars "UID", number uid), (chars "GID", number gid)],
        0x20 :: packet (groupPairs groups),
        0x20 :: packet [(chars "HOME", home), (chars "EOF", [])]], []) := by
  obtain ⟨hids, hlist, hlast⟩ := not_mem_packets (.inr rfl) uid gid groups hsemi
  rw [loginRecord, packetsOf_packet hids, packetsOf_packet hlist, packetsOf_packet hlast,
    packetsOf_rest List.not_mem_nil]

/-- A record that is cut into its own packets. -/
theorem loginRecord_pairs (uid gid : Nat) (groups : List Nat) {home : List UInt8}
    (hquote : 0x22 ∉ home) (hsemi : 0x3b ∉ home) :
    EofLast (packetsOf (loginRecord uid gid groups home)).1 ∧
      pairsOfAll (packetsOf (loginRecord uid gid groups home)).1 =
        loginPairs uid gid groups home := by
  have hids := pairsOf_packet (isPair_ids uid gid)
  have hlist := (pairsOf_space _).trans (pairsOf_packet (isPair_groups groups))
  have hlast := (pairsOf_space _).trans (pairsOf_packet (isPair_home hquote))
  have hgroups : (groupPairs groups).takeWhile (·.1 ≠ chars "EOF") = groupPairs groups ∧
      (groupPairs groups).any (·.1 = chars "EOF") = false := by
    have hkey : ∀ pair ∈ groupPairs groups, pair.1 ≠ chars "EOF" := by
      intro pair hpair
      obtain ⟨g, -, rfl⟩ := List.mem_map.1 hpair
      show chars "G_LIST_ID" ≠ chars "EOF"
      decide
    exact ⟨List.takeWhile_eq_self_iff.2 fun p hp => by simpa using hkey p hp,
      by simpa using hkey⟩
  rw [hgroups.1, hgroups.2] at hlist
  have heof : chars "EOF" ≠ chars "UID" ∧ chars "EOF" ≠ chars "GID" ∧
      chars "EOF" ≠ chars "HOME" := by decide
  rw [packetsOf_loginRecord uid gid groups hsemi]
  constructor
  · refine ⟨[_, _], _, rfl, ?_, ?_⟩
    · rw [isEof, hlast]
      simp
    · simp only [List.mem_cons, List.not_mem_nil, or_false, isEof]
      rintro pkt (rfl | rfl)
      · rw [hids]
        simp [heof.1.symm, heof.2.1.symm]
      · rw [hlist]
  · simp only [pairsOfAll, List.flatMap_cons, List.flatMap_nil, hids, hlist, hlast, loginPairs]
    simp [heof.1.symm, heof.2.1.symm, heof.2.2.symm]

/-! ## No `;` gets into a home directory -/

/-- A user whose home directory has no `;`. -/
def HomeCut (user : DmUser) : Prop := ∀ home, user.homedir = some home → 0x3b ∉ home

theorem mem_of_pairsOf {pkt : List UInt8} {pair : List UInt8 × List UInt8}
    (h : pair ∈ (pairsOf pkt).1) {c : UInt8} (hc : c ∈ pair.2) : c ∈ pkt := by
  fun_induction pairsOf pkt with
  | case1 => exact absurd h List.not_mem_nil
  | case2 => exact absurd h List.not_mem_nil
  | case3 => exact absurd h List.not_mem_nil
  | case4 => exact absurd h List.not_mem_nil
  | case5 pkt key rest hk hquote value more hv hkey ih =>
    have hrest : c ∈ rest := by
      apply List.mem_of_mem_tail
      rw [(cutAt_eq_some hv).1, List.mem_append, List.mem_cons]
      rcases List.mem_cons.1 h with rfl | h
      · exact .inl hc
      · exact .inr (.inr (ih h))
    apply (List.dropWhile_sublist isspace).subset
    rw [(cutAt_eq_some hk).1]
    exact List.mem_append_right _ (.tail _ hrest)

theorem storePair_homeCut {user : DmUser} {key value : List UInt8} (h : HomeCut user)
    (hvalue : 0x3b ∉ value) : HomeCut (storePair ngroupsUmax user key value) := by
  rw [storePair]
  split
  · rintro home hhome
    obtain rfl := Option.some.inj hhome
    exact hvalue
  · split
    · split <;> exact h
    · split
      · split <;> exact h
      · split
        · split
          · exact h
          · split <;> exact h
        · exact h

theorem storePairs_homeCut {user : DmUser} {pairs : List (List UInt8 × List UInt8)}
    (h : HomeCut user) (hpairs : ∀ pair ∈ pairs, 0x3b ∉ pair.2) :
    HomeCut (storePairs ngroupsUmax user pairs) := by
  induction pairs generalizing user with
  | nil => exact h
  | cons pair pairs ih =>
    exact ih (storePair_homeCut h (hpairs pair (.head _))) fun p hp => hpairs p (.tail _ hp)

theorem consume_homeCut {user : DmUser} {text : List UInt8} (h : HomeCut user) :
    HomeCut (consume ngroupsUmax user text).1 := by
  have hpacket {user : DmUser} {text pkt more : List UInt8} (h : HomeCut user)
      (hcut : cutAt 0x3b text = some (pkt, more)) :
      HomeCut (storePairs ngroupsUmax user (pairsOf pkt).1) :=
    storePairs_homeCut h fun pair hpair hmem =>
      (cutAt_eq_some hcut).2 (mem_of_pairsOf hpair hmem)
  fun_induction consume ngroupsUmax user text with
  | case1 => exact h
  | case2 user text pkt more hcut user' heof => exact hpacket h hcut
  | case3 user text pkt more hcut user' heof ih => exact ih (hpacket h hcut)

variable (junk : Nat → UInt8)

/-- The users of the structure and of the calls have no `;` in their home directories. -/
structure Homes (dmd : DmData) : Prop where
  bufOk : BufOk junk dmd
  user : HomeCut dmd.user
  processed : ∀ user ∈ dmd.processed, HomeCut user

variable {junk}

theorem turn_homes {dmd dmd' : DmData} {r : ReadResult} {ret : Bool} (hnul : NulFree r.data)
    (h : Homes junk dmd) (hturn : turn ngroupsUmax junk dmd r = some (dmd', ret)) :
    Homes junk dmd' := by
  by_cases hdata : r.data = []
  · obtain ⟨hok, huser, hproc, -, -⟩ := turn_noBytes h.bufOk hdata hturn
    exact ⟨hok, huser ▸ h.user, hproc ▸ h.processed⟩
  · obtain ⟨l, rfl⟩ : ∃ l, r = .bytes l := by
      cases r with
      | bytes l => exact ⟨l, rfl⟩
      | _ => exact absurd rfl hdata
    obtain ⟨-, hok, -, hconsume, hproc⟩ := turn_bytes ngroupsUmax junk h.bufOk hnul hdata hturn
    have huser : HomeCut dmd'.user := by
      have hcut : HomeCut (consume ngroupsUmax dmd.user (kept junk dmd ++ l)).1 :=
        consume_homeCut h.user
      have hl : (ReadResult.bytes l).data = l := rfl
      rwa [← hl, hconsume] at hcut
    refine ⟨hok, huser, fun user hmem => ?_⟩
    rw [hproc, List.mem_append] at hmem
    rcases hmem with hmem | hmem
    · exact h.processed user hmem
    · split at hmem
      · rw [List.mem_singleton.1 hmem]
        exact huser
      · exact absurd hmem List.not_mem_nil

/-- **No `;` gets into a home directory**, whatever is delivered. -/
theorem turns_homes {dmd dmd' : DmData} {reads : List ReadResult}
    (hnul : NulFree (delivered reads)) (h : Homes junk dmd)
    (hturns : turns ngroupsUmax junk dmd reads = some dmd') : Homes junk dmd' := by
  induction reads generalizing dmd with
  | nil =>
    obtain rfl := Option.some.inj hturns
    exact h
  | cons r reads ih =>
    have hcons : delivered (r :: reads) = r.data ++ delivered reads := List.flatMap_cons
    rw [hcons] at hnul
    obtain ⟨hnulr, hnul⟩ := NulFree.of_append hnul
    rw [turns] at hturns
    split at hturns
    · cases hturns
    · split at hturns
      · cases hturns
      · rename_i hturn
        exact ih hnul (turn_homes hnulr h hturn) hturns

/-! ## Feeding a stream -/

variable (ngroupsUmax) in
/-- The pipe is readable and holds one byte. -/
theorem receive_byte {dmd : DmData} (hok : BufOk junk dmd) {b : UInt8} (hb : b ≠ 0) :
    ∃ reads dmd', delivered reads = [b] ∧
      receivePacket ngroupsUmax junk dmd reads = some dmd' ∧ BufOk junk dmd' ∧
      dmd'.closed = false := by
  obtain ⟨r, hgrow, -, hroom⟩ := growBuf_spec junk hok
  have hnul : NulFree [b] := by simpa [NulFree] using hb.symm
  have hstr : strAt (growBuf junk (openBuf junk dmd)) 0 = kept junk dmd := by
    rw [hgrow]
    exact strAt_append [] (strAt_nulFree _ _) r
  cases hturn : turn ngroupsUmax junk dmd (.bytes [b]) with
  | none =>
    simp [turn, hstr] at hturn
    omega
  | some next =>
    obtain ⟨d, ret⟩ := next
    obtain ⟨-, hok', hclosed, -, -⟩ :=
      turn_bytes ngroupsUmax junk hok hnul (List.cons_ne_nil _ _) hturn
    cases ret with
    | true => exact ⟨[.bytes [b]], d, rfl, by simp [receivePacket, hturn], hok', hclosed⟩
    | false =>
      -- The loop goes on, and the pipe is empty.
      obtain ⟨d', hagain⟩ : ∃ d', turn ngroupsUmax junk d .eagain = some (d', true) := ⟨_, rfl⟩
      obtain ⟨hok'', -, -, -, -⟩ := turn_noBytes hok' rfl hagain
      refine ⟨[.bytes [b], .eagain], d', rfl, by simp [receivePacket, hturn, hagain], hok'', ?_⟩
      obtain ⟨rfl, -⟩ := Prod.mk.inj (Option.some.inj hagain)
      exact hclosed

variable (ngroupsUmax) in
/-- Every stream can be fed, for example a byte at a time. -/
theorem exists_feed {dmd : DmData} (hok : BufOk junk dmd) (hopen : dmd.closed = false)
    {stream : List UInt8} (hnul : NulFree stream) :
    ∃ notes dmd', delivered notes.flatten = stream ∧
      notify ngroupsUmax junk dmd notes = some dmd' := by
  induction stream generalizing dmd with
  | nil => exact ⟨[], dmd, rfl, rfl⟩
  | cons b stream ih =>
    have hb : b ≠ 0 := fun h => hnul (by rw [h]; exact .head _)
    obtain ⟨reads, d, hreads, hreceive, hok', hopen'⟩ := receive_byte ngroupsUmax hok hb
    obtain ⟨notes, d', hnotes, hrun⟩ := ih hok' hopen' fun h => hnul (.tail _ h)
    refine ⟨reads :: notes, d', ?_, by simp [notify, hopen, hreceive, hrun]⟩
    rw [List.flatten_cons, delivered, List.flatMap_append]
    exact congrArg₂ (· ++ ·) hreads hnotes

variable (junk) in
/-- **A login record comes back exactly when its home directory has no `;`.** It can be fed, and
however it is, `dtlogin_process` is called once, with the user of the record, just when its home
directory has no `;`. -/
theorem login_record_iff {uid gid : Nat} {groups : List Nat} {home : List UInt8}
    (huid : uid < 2 ^ 31) (hgid : gid < 2 ^ 31) (hgroups : ∀ g ∈ groups, g < 2 ^ 31)
    (hlen : groups.length ≤ ngroupsUmax) (hnul : 0 ∉ home) (hquote : 0x22 ∉ home) :
    (∃ notes dmd, delivered notes.flatten = loginRecord uid gid groups home ∧
      notify ngroupsUmax junk .init notes = some dmd) ∧
    ∀ notes dmd, delivered notes.flatten = loginRecord uid gid groups home →
      notify ngroupsUmax junk .init notes = some dmd →
      (dmd.processed = [⟨.ofNat uid, .ofNat gid, some home, -1, groups.map .ofNat⟩] ↔
        0x3b ∉ home) := by
  have hfree := loginRecord_nulFree uid gid groups hnul
  obtain ⟨hok, -⟩ : BufOk junk .init ∧ kept junk .init = [] := bufOk_of_none junk rfl
  refine ⟨exists_feed ngroupsUmax hok rfl hfree, fun notes dmd hfed hrun => ⟨?_, fun hsemi => ?_⟩⟩
  · intro hproc
    have hinit : Homes junk .init :=
      ⟨hok, fun home h => by simp [DmData.init, DmUser.init] at h, by simp [DmData.init]⟩
    have hhomes := turns_homes (hfed ▸ hfree) hinit (notify_turns ngroupsUmax junk hrun)
    exact hhomes.processed _ (by rw [hproc]; exact .head _) home rfl
  · obtain ⟨heof, hpairs⟩ := loginRecord_pairs uid gid groups hquote hsemi
    rw [processed_stream hfree heof hfed hrun, hpairs,
      storePairs_login huid hgid hgroups hlen]

/-- A record in two reads. -/
theorem login_record_user : (0x3b ∉ chars "/home/u") ∧
    ∃ dmd, notify 16 (fun _ => 0) .init [[.bytes (chars "UID=\"100\" GID=\"10\"; G_LIST_I"),
      .bytes (chars "D=\"14\"; HOME=\"/home/u\" EOF=\"\";")]] = some dmd ∧
      dmd.processed = [⟨100, 10, some (chars "/home/u"), -1, [14]⟩] := by
  have hsemi : 0x3b ∉ chars "/home/u" := by decide
  obtain ⟨dmd, hrun⟩ := Option.isSome_iff_exists.1 (show (notify 16 (fun _ => 0) .init
    [[.bytes (chars "UID=\"100\" GID=\"10\"; G_LIST_I"),
      .bytes (chars "D=\"14\"; HOME=\"/home/u\" EOF=\"\";")]]).isSome by decide +kernel)
  refine ⟨hsemi, dmd, hrun, ?_⟩
  have h := @login_record_iff 16 (fun _ => 0) 100 10 [14] (chars "/home/u") (by decide)
    (by decide) (by decide) (by decide) (by decide) (by decide)
  exact (h.2 _ dmd (by decide +kernel) hrun).2 hsemi

/-- The home directory `/a;b`: the record ends, and `dtlogin_process` is not called. -/
theorem login_record_lost : 0 ∉ chars "/a;b" ∧ 0x22 ∉ chars "/a;b" ∧
    (notify 16 (fun _ => 0) .init
      [[.bytes (loginRecord 100 10 [14] (chars "/a;b")), .eagain]]).map DmData.processed =
      some [] := by
  refine ⟨by decide, by decide, ?_⟩
  decide +kernel

end Dtlogin
