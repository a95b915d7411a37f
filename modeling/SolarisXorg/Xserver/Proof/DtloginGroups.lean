import Mathlib.Data.List.Forall2
import SolarisXorg.Xserver.Proof.DtloginStream

/-!
# Group lists of successive logins

The user structure lives as long as the pipe. A record overwrites its user, group and home directory,
but the group list is only ever appended to, so the list `dtlogin_process` passes to `setgroups` is
the one of all the records so far (`usersOf_groupids`). It is the one of the record itself exactly
when the records before it have no groups, or when its own list is full and repeats theirs
(`setgroups_own_iff`).
-/

namespace Dtlogin

open Lib

/-! ## Groups of a record -/

/-- The group of a pair. -/
def groupOf (pair : List UInt8 × List UInt8) : Option UInt32 :=
  if pair.1 = chars "G_LIST_ID" then numeric pair.2 else none

/-- The groups of a record, as they come. -/
def groupsOf (record : List UInt8) : List UInt32 :=
  (pairsOfAll (packetsOf record).1).filterMap groupOf

/-- The arguments of the `setgroups` calls. -/
def setgroupsArgs (calls : List SysCall) : List (List UInt32) :=
  calls.filterMap fun
    | .setgroups gids => some gids
    | _ => none

theorem setgroupsArgs_append (xs ys : List SysCall) :
    setgroupsArgs (xs ++ ys) = setgroupsArgs xs ++ setgroupsArgs ys := List.filterMap_append

/-- `dtlogin_process` sets the groups once. -/
theorem setgroupsArgs_process (env : ProcessEnv) (user : DmUser) (userLoggedIn : Bool) :
    setgroupsArgs (process env user userLoggedIn) = [user.groupids] := by
  have hif (p : Prop) [Decidable p] (xs ys : List SysCall) : setgroupsArgs (if p then xs else ys) =
      if p then setgroupsArgs xs else setgroupsArgs ys := apply_ite ..
  have hchown (file : Option (List UInt8)) : setgroupsArgs
      (file.map fun file => SysCall.chown file user.uid user.gid).toList = [] := by
    cases file <;> rfl
  have hproject (name : Option (List UInt8)) : setgroupsArgs
      (name.bind fun name => (env.getdefaultproj name).map fun proj =>
        SysCall.setproject proj name).toList = [] := by
    cases name with
    | none => rfl
    | some name => cases h : env.getdefaultproj name <;> simp [h, setgroupsArgs]
  simp only [process, setgroupsArgs_append, hif, hchown, hproject]
  cases user.homedir <;> simp [setgroupsArgs]

variable (ngroupsUmax : Nat)

theorem storePair_groupids (user : DmUser) (pair : List UInt8 × List UInt8)
    (h : user.groupids.length ≤ ngroupsUmax) :
    (storePair ngroupsUmax user pair.1 pair.2).groupids =
      (user.groupids ++ (groupOf pair).toList).take ngroupsUmax := by
  have hsame : user.groupids = (user.groupids ++ []).take ngroupsUmax := by
    rw [List.append_nil, List.take_of_length_le h]
  obtain ⟨key, value⟩ := pair
  simp only [storePair, groupOf]
  by_cases hkey : key = chars "G_LIST_ID"
  · subst hkey
    rw [if_neg (by decide), if_neg (by decide), if_neg (by decide), if_pos rfl, if_pos rfl]
    cases numeric value with
    | none => exact hsame
    | some val =>
      dsimp only
      split
      · rw [List.take_of_length_le (by simp; omega)]
        rfl
      · rw [List.take_append_of_le_length (by omega), List.take_of_length_le h]
  · rw [if_neg hkey, if_neg hkey]
    split
    · exact hsame
    · split
      · split <;> exact hsame
      · split
        · split <;> exact hsame
        · exact hsame

theorem take_take_append {α : Type} (n : Nat) (xs ys : List α) :
    (xs.take n ++ ys).take n = (xs ++ ys).take n := by
  rw [List.take_append, List.take_append, List.take_take, Nat.min_self]
  by_cases h : n ≤ xs.length
  · rw [List.length_take]
    congr 2
    omega
  · rw [List.take_of_length_le (by omega)]

/-- Storing pairs appends their groups, up to the limit. -/
theorem storePairs_groupids (user : DmUser) (pairs : List (List UInt8 × List UInt8))
    (h : user.groupids.length ≤ ngroupsUmax) :
    (storePairs ngroupsUmax user pairs).groupids =
      (user.groupids ++ pairs.filterMap groupOf).take ngroupsUmax := by
  induction pairs generalizing user with
  | nil =>
    rw [List.filterMap_nil, List.append_nil, List.take_of_length_le h]
    rfl
  | cons pair pairs ih =>
    have hpair := storePair_groupids ngroupsUmax user pair h
    have hle : (storePair ngroupsUmax user pair.1 pair.2).groupids.length ≤ ngroupsUmax := by
      rw [hpair, List.length_take]
      omega
    have hcons : (pair :: pairs).filterMap groupOf =
        (groupOf pair).toList ++ pairs.filterMap groupOf := by
      cases hg : groupOf pair <;> simp [hg]
    have hstep : storePairs ngroupsUmax user (pair :: pairs) =
        storePairs ngroupsUmax (storePair ngroupsUmax user pair.1 pair.2) pairs := rfl
    rw [hstep, ih _ hle, hpair, hcons, ← List.append_assoc, take_take_append]

/-! ## Records one after the other -/

/-- A login record: its last packet ends it, and nothing follows that packet. -/
structure IsRecord (record : List UInt8) : Prop where
  nulFree : NulFree record
  eofLast : EofLast (packetsOf record).1
  complete : (packetsOf record).2 = []

/-- A record and the notifications in which it is read. -/
structure Session where
  record : List UInt8
  notes : List (List ReadResult)

/-- The users `dtlogin_process` is called with for records one after the other. -/
def usersOf (user : DmUser) : List (List UInt8) → List DmUser
  | [] => []
  | record :: records =>
    let user := storePairs ngroupsUmax user (pairsOfAll (packetsOf record).1)
    user :: usersOf user records

variable (junk : Nat → UInt8)

theorem notify_append (dmd : DmData) (xs ys : List (List ReadResult)) :
    notify ngroupsUmax junk dmd (xs ++ ys) =
      (notify ngroupsUmax junk dmd xs).bind fun dmd => notify ngroupsUmax junk dmd ys := by
  induction xs generalizing dmd with
  | nil => rfl
  | cons reads xs ih =>
    rw [List.cons_append, notify, notify]
    split
    · rfl
    · split
      · rfl
      · exact ih _

variable {ngroupsUmax junk}

/-- **One record.** Its user is processed and nothing stays in the buffer. -/
theorem notify_record {dmd dmd' : DmData} {session : Session} (hok : BufOk junk dmd)
    (hkept : kept junk dmd = []) (hrecord : IsRecord session.record)
    (hread : delivered session.notes.flatten = session.record)
    (h : notify ngroupsUmax junk dmd session.notes = some dmd') :
    BufOk junk dmd' ∧ kept junk dmd' = [] ∧
      dmd'.user = storePairs ngroupsUmax dmd.user (pairsOfAll (packetsOf session.record).1) ∧
      dmd'.processed = dmd.processed ++ [dmd'.user] := by
  have hfed := (Fed.start hok hkept).turns (hread ▸ hrecord.nulFree)
    (by rw [List.nil_append, hread]; exact hrecord.eofLast.onlyLast)
    (notify_turns ngroupsUmax junk h)
  rw [List.nil_append, hread] at hfed
  obtain ⟨init, last, heq, hlast, -⟩ := hrecord.eofLast
  rcases hfed.record with ⟨hno, -, -⟩ | ⟨-, hp, hk⟩
  · rw [hno last (by simp [heq])] at hlast
    exact nomatch hlast
  · rw [hrecord.complete] at hk
    exact ⟨hfed.bufOk, List.suffix_nil.1 hk, hfed.user, hp⟩

/-- **Records one after the other**, each in reads of its own. -/
theorem notify_sessions {dmd dmd' : DmData} {sessions : List Session} (hok : BufOk junk dmd)
    (hkept : kept junk dmd = [])
    (hsessions : ∀ session ∈ sessions, IsRecord session.record ∧
      delivered session.notes.flatten = session.record)
    (h : notify ngroupsUmax junk dmd (sessions.flatMap Session.notes) = some dmd') :
    dmd'.processed =
      dmd.processed ++ usersOf ngroupsUmax dmd.user (sessions.map Session.record) := by
  induction sessions generalizing dmd with
  | nil =>
    obtain rfl := Option.some.inj h
    simp [usersOf]
  | cons session sessions ih =>
    obtain ⟨hrecord, hread⟩ := hsessions session (.head _)
    rw [List.flatMap_cons, notify_append, Option.bind_eq_some_iff] at h
    obtain ⟨d, hfirst, hrest⟩ := h
    obtain ⟨hok', hkept', huser, hproc⟩ := notify_record hok hkept hrecord hread hfirst
    rw [ih hok' hkept' (fun s hs => hsessions s (.tail _ hs)) hrest, hproc, huser,
      List.append_assoc]
    rfl

/-- The `k`-th user has the groups of the first `k` records. -/
theorem usersOf_groupids {user : DmUser} (records : List (List UInt8))
    (h : user.groupids.length ≤ ngroupsUmax) (earlier : List (List UInt8)) {record : List UInt8}
    {later : List (List UInt8)} (hsplit : records = earlier ++ record :: later) :
    ((usersOf ngroupsUmax user records)[earlier.length]?).map DmUser.groupids =
      some ((user.groupids ++ earlier.flatMap groupsOf ++ groupsOf record).take ngroupsUmax) := by
  subst hsplit
  induction earlier generalizing user with
  | nil =>
    rw [List.nil_append, List.flatMap_nil, List.append_nil]
    simp only [usersOf, List.length_nil, List.getElem?_cons_zero, Option.map_some]
    rw [storePairs_groupids ngroupsUmax user _ h]
    rfl
  | cons first earlier ih =>
    have hgroups := storePairs_groupids ngroupsUmax user (pairsOfAll (packetsOf first).1) h
    have hle : (storePairs ngroupsUmax user (pairsOfAll (packetsOf first).1)).groupids.length ≤
        ngroupsUmax := by
      rw [hgroups, List.length_take]
      omega
    rw [List.cons_append, usersOf, List.length_cons, List.getElem?_cons_succ, ih hle, hgroups,
      List.append_assoc, take_take_append, List.flatMap_cons]
    simp only [List.append_assoc]
    rfl

theorem usersOf_length (user : DmUser) (records : List (List UInt8)) :
    (usersOf ngroupsUmax user records).length = records.length := by
  induction records generalizing user with
  | nil => rfl
  | cons record records ih => rw [usersOf, List.length_cons, List.length_cons, ih]

/-! ## When the groups are the record's own -/

/-- There are no earlier groups, or the record has at least `ngroupsUmax` groups, the first
`ngroupsUmax` of which are the earlier groups over and over. -/
def KeepsGroups (ngroupsUmax : Nat) (earlier groups : List UInt32) : Prop :=
  earlier = [] ∨ (ngroupsUmax ≤ groups.length ∧ ∀ i < ngroupsUmax,
    groups[i]? = if i < earlier.length then earlier[i]? else groups[i - earlier.length]?)

theorem keepsGroups_iff (earlier groups : List UInt32) :
    (earlier ++ groups).take ngroupsUmax = groups.take ngroupsUmax ↔
      KeepsGroups ngroupsUmax earlier groups := by
  have hget : (earlier ++ groups).take ngroupsUmax = groups.take ngroupsUmax ↔
      ∀ i < ngroupsUmax, (earlier ++ groups)[i]? = groups[i]? := by
    constructor
    · intro h i hi
      have hi' := congrArg (·[i]?) h
      simpa only [List.getElem?_take_of_lt hi] using hi'
    · intro h
      apply List.ext_getElem?
      intro i
      rw [List.getElem?_take, List.getElem?_take]
      split
      · exact h i ‹_›
      · rfl
  rw [hget]
  constructor
  · intro h
    by_cases hnil : earlier = []
    · exact .inl hnil
    · refine .inr ⟨?_, fun i hi => ?_⟩
      · -- A list that is not full would be longer with the earlier groups in front.
        by_contra hlt
        have hpos := List.length_pos_iff.2 hnil
        have hend := h groups.length (by omega)
        rw [List.getElem?_eq_none (Nat.le_refl groups.length), List.getElem?_eq_none_iff,
          List.length_append] at hend
        omega
      · rw [← h i hi, List.getElem?_append]
  · rintro (rfl | ⟨-, h⟩) i hi
    · rw [List.nil_append]
    · rw [h i hi, List.getElem?_append]

/-- **The groups of a login are its own** for every record of a run, each in reads of its own,
exactly when every record keeps its groups after the ones before it. -/
theorem setgroups_own_iff {sessions : List Session} (hsessions : ∀ session ∈ sessions,
      IsRecord session.record ∧ delivered session.notes.flatten = session.record)
    {dmd : DmData}
    (run : notify ngroupsUmax junk .init (sessions.flatMap Session.notes) = some dmd) :
    List.Forall₂ (fun session user => ∀ env userLoggedIn,
        setgroupsArgs (process env user userLoggedIn) =
          [(groupsOf session.record).take ngroupsUmax]) sessions dmd.processed ↔
      ∀ earlier session later, sessions = earlier ++ session :: later →
        KeepsGroups ngroupsUmax (earlier.flatMap fun session => groupsOf session.record)
          (groupsOf session.record) := by
  obtain ⟨hok, hkept⟩ : BufOk junk .init ∧ kept junk .init = [] := bufOk_of_none junk rfl
  have hprocessed : dmd.processed = usersOf ngroupsUmax .init (sessions.map Session.record) :=
    notify_sessions hok hkept hsessions run
  have hlen : sessions.length = dmd.processed.length := by
    rw [hprocessed, usersOf_length, List.length_map]
  have hgroups (earlier later : List Session) (session : Session)
      (hsplit : sessions = earlier ++ session :: later) :
      (dmd.processed[earlier.length]?).map DmUser.groupids =
        some ((earlier.flatMap (fun session => groupsOf session.record) ++
          groupsOf session.record).take ngroupsUmax) := by
    have hinit : DmUser.init.groupids.length ≤ ngroupsUmax := Nat.zero_le _
    have h := usersOf_groupids (sessions.map Session.record) hinit
      (earlier.map Session.record) (by rw [hsplit, List.map_append, List.map_cons])
    rwa [List.length_map, List.flatMap_map, ← hprocessed] at h
  rw [List.forall₂_iff_get]
  constructor
  · rintro ⟨-, hown⟩ earlier session later hsplit
    have hlt : earlier.length < sessions.length := by simp [hsplit]
    have h := hgroups earlier later session hsplit
    have hcall := hown earlier.length hlt (hlen ▸ hlt) ⟨0, none, fun _ => none, fun _ => none, false⟩
      true
    rw [setgroupsArgs_process] at hcall
    have hget : sessions.get ⟨earlier.length, hlt⟩ = session := by simp [hsplit]
    rw [List.getElem?_eq_getElem (hlen ▸ hlt), Option.map_some, Option.some.injEq] at h
    rw [hget, List.get_eq_getElem, List.singleton_inj, h] at hcall
    exact (keepsGroups_iff _ _).1 hcall
  · intro hkeep
    refine ⟨hlen, fun i hi hi' env userLoggedIn => ?_⟩
    have hsplit : sessions = sessions.take i ++ sessions[i] :: sessions.drop (i + 1) := by
      rw [← List.drop_eq_getElem_cons, List.take_append_drop]
    have h := hgroups _ _ _ hsplit
    rw [List.length_take, Nat.min_eq_left (Nat.le_of_lt hi), List.getElem?_eq_getElem hi',
      Option.map_some, Option.some.injEq] at h
    rw [setgroupsArgs_process, List.get_eq_getElem, h, (keepsGroups_iff _ _).2 (hkeep _ _ _ hsplit)]
    rfl

/-- A record read at once. -/
def Session.ofString (text : String) : Session := ⟨chars text, [[.bytes (chars text)]]⟩

/-- The login screen's user, without groups, and a user in group 10. -/
theorem setgroups_own_login :
    ∃ dmd, notify 16 (fun _ => 0) .init ([Session.ofString "UID=\"50\";EOF=\"\";",
        Session.ofString "UID=\"100\" G_LIST_ID=\"10\";EOF=\"\";"].flatMap Session.notes) =
        some dmd ∧
      List.Forall₂ (fun session user => ∀ env userLoggedIn,
          setgroupsArgs (process env user userLoggedIn) = [(groupsOf session.record).take 16])
        [Session.ofString "UID=\"50\";EOF=\"\";",
          Session.ofString "UID=\"100\" G_LIST_ID=\"10\";EOF=\"\";"] dmd.processed := by
  obtain ⟨dmd, run⟩ := Option.isSome_iff_exists.1 (show (notify 16 (fun _ => 0) .init
    ([Session.ofString "UID=\"50\";EOF=\"\";",
      Session.ofString "UID=\"100\" G_LIST_ID=\"10\";EOF=\"\";"].flatMap
        Session.notes)).isSome by decide +kernel)
  refine ⟨dmd, run, (setgroups_own_iff ?_ run).2 ?_⟩
  · intro session hsession
    simp only [List.mem_cons, List.not_mem_nil, or_false] at hsession
    rcases hsession with rfl | rfl
    · exact ⟨⟨by unfold NulFree; decide,
        ⟨[chars "UID=\"50\""], chars "EOF=\"\"", by decide +kernel, by decide +kernel,
          by decide +kernel⟩, by decide +kernel⟩, by decide⟩
    · exact ⟨⟨by unfold NulFree; decide,
        ⟨[chars "UID=\"100\" G_LIST_ID=\"10\""], chars "EOF=\"\"", by decide +kernel,
          by decide +kernel, by decide +kernel⟩, by decide +kernel⟩, by decide⟩
  · intro earlier session later hsplit
    left
    rcases earlier with _ | ⟨first, _ | ⟨second, earlier⟩⟩
    · rfl
    · obtain ⟨rfl, -⟩ := List.cons_eq_cons.1 hsplit
      decide +kernel
    · simp at hsplit

/-- The login screen's user is in group 50, and so is the user of the next login, whose record has
group 10 only. -/
theorem setgroups_stale_group :
    ∃ dmd, notify 16 (fun _ => 0) .init
        ([Session.ofString "UID=\"50\" G_LIST_ID=\"50\";EOF=\"\";",
          Session.ofString "UID=\"100\" G_LIST_ID=\"10\";EOF=\"\";"].flatMap Session.notes) =
        some dmd ∧
      ¬ List.Forall₂ (fun session user => ∀ env userLoggedIn,
          setgroupsArgs (process env user userLoggedIn) = [(groupsOf session.record).take 16])
        [Session.ofString "UID=\"50\" G_LIST_ID=\"50\";EOF=\"\";",
          Session.ofString "UID=\"100\" G_LIST_ID=\"10\";EOF=\"\";"] dmd.processed := by
  have hrun : ((notify 16 (fun _ => 0) .init
      ([Session.ofString "UID=\"50\" G_LIST_ID=\"50\";EOF=\"\";",
        Session.ofString "UID=\"100\" G_LIST_ID=\"10\";EOF=\"\";"].flatMap Session.notes)).map
      fun dmd => dmd.processed.map DmUser.groupids) = some [[50], [50, 10]] := by decide +kernel
  obtain ⟨dmd, run, hgroups⟩ := Option.map_eq_some_iff.1 hrun
  obtain ⟨user₁, rest, hrest, -, hgroups⟩ := List.map_eq_cons_iff.1 hgroups
  obtain ⟨user₂, rest, rfl, hgroups, -⟩ := List.map_eq_cons_iff.1 hgroups
  refine ⟨dmd, run, fun hown => ?_⟩
  rw [hrest] at hown
  obtain ⟨-, hsecond⟩ := List.forall₂_cons.1 hown
  obtain ⟨hcall, -⟩ := List.forall₂_cons.1 hsecond
  have hargs := hcall ⟨0, none, fun _ => none, fun _ => none, false⟩ true
  rw [setgroupsArgs_process, hgroups] at hargs
  exact absurd hargs (by decide +kernel)

end Dtlogin
