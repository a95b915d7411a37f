import SolarisXorg.Xserver.DtloginCred

/-!
# When the server's own credentials come back

`processCred_euid`, `processCred_egid` and `processCred_groups` say what `dtlogin_process` makes of
the credentials; for logins one after the other that is `logins_egid` and `logins_last`.
`DtloginInit` notes the groups but not how many they are (`dtloginInit_boot`), and `DtloginCloseDown`
looks at the uid only: so it brings the credentials back exactly under `LoginsUndone`
(`credentials_restored_iff`).
-/

namespace Dtlogin

open Lib

/-! ## `dtlogin_process` -/

section Process

variable (env : ProcessEnv) (user : DmUser) (userLoggedIn : Bool) (c : Cred)

theorem foldl_chown (file : Option (List UInt8)) (uid gid : UInt32) :
    (file.map fun file => SysCall.chown file uid gid).toList.foldl SysCall.apply c = c := by
  cases file <;> rfl

theorem foldl_project (p : Prop) [Decidable p] (projid : UInt32) (name : Option (List UInt8)) :
    (if p then [.settaskid projid]
      else (name.bind fun name => (env.getdefaultproj name).map fun proj =>
        SysCall.setproject proj name).toList).foldl SysCall.apply c = c := by
  split
  · rfl
  · cases name with
    | none => rfl
    | some name =>
      rw [Option.bind_some]
      cases env.getdefaultproj name <;> rfl

theorem foldl_console (p : Prop) [Decidable p] (loggedIn : Bool) :
    (if p then [SysCall.setDispLogin loggedIn] else []).foldl SysCall.apply c = c := by
  split <;> rfl

theorem foldl_ite (p : Prop) [Decidable p] (xs ys : List SysCall) :
    (if p then xs else ys).foldl SysCall.apply c =
      if p then xs.foldl SysCall.apply c else ys.foldl SysCall.apply c := by
  split <;> rfl

/-- The credentials after `dtlogin_process`: the calls that change them, one after the other. -/
theorem processCred_eq : processCred env user userLoggedIn c =
    let c := if c.euid ≠ 0 then SysCall.apply c (.seteuid 0) else c
    let c := if user.gid ≠ -1 then SysCall.apply (SysCall.apply c (.setregid user.gid 0))
      (.setegid user.gid) else c
    let c := SysCall.apply c (.setgroups user.groupids)
    if user.uid ≠ -1 then SysCall.apply (SysCall.apply c (.setreuid user.uid (-1)))
      (.setreuid (-1) user.uid) else c := by
  simp only [processCred, process, List.foldl_append, foldl_console, foldl_project,
    foldl_chown]
  simp only [foldl_ite, List.foldl_cons, List.foldl_nil]
  cases user.homedir <;> rfl

/-- The effective uid is the user's, or root's. -/
theorem processCred_euid : (processCred env user userLoggedIn c).euid = loginEuid user := by
  rw [processCred_eq, loginEuid]
  simp only [apply_ite Cred.euid, SysCall.apply, ne_eq, ite_not, ite_self, if_true]
  by_cases huid : user.uid = -1
  · simp only [if_pos huid]
    split
    · assumption
    · rfl
  · simp only [if_neg huid]

/-- The effective gid is the user's, if it has one. -/
theorem processCred_egid : (processCred env user userLoggedIn c).egid =
    if user.gid ≠ -1 then user.gid else c.egid := by
  rw [processCred_eq]
  simp only [apply_ite Cred.egid, SysCall.apply, ite_self]

/-- The groups are the user's. -/
theorem processCred_groups : (processCred env user userLoggedIn c).groups = user.groupids := by
  rw [processCred_eq]
  simp only [apply_ite Cred.groups, SysCall.apply, ite_self]

end Process

/-! ## Logins -/

/-- Nothing but the credentials changes in logins. -/
theorem logins_frame (s : Server) (logins : List Login) :
    (logins.foldl Server.login s).pipe = s.pipe ∧
      (logins.foldl Server.login s).originalUser = s.originalUser := by
  induction logins generalizing s with
  | nil => exact ⟨rfl, rfl⟩
  | cons l logins ih =>
    have hl : (s.login l).pipe = s.pipe ∧ (s.login l).originalUser = s.originalUser := by
      unfold Server.login
      split
      · exact ⟨rfl, rfl⟩
      · exact ⟨rfl, rfl⟩
    rw [List.foldl_cons, (ih (s.login l)).1, (ih (s.login l)).2]
    exact hl

theorem login_cred {s : Server} (hpipe : s.pipe = true) (l : Login) :
    (s.login l).cred = processCred l.env l.user true s.cred := by
  rw [Server.login, if_pos hpipe]

theorem logins_egid {s : Server} (hpipe : s.pipe = true) (logins : List Login) :
    (logins.foldl Server.login s).cred.egid = loginsEgid s.cred.egid logins := by
  induction logins generalizing s with
  | nil => rfl
  | cons l logins ih =>
    have hl : (s.login l).pipe = true := (logins_frame s [l]).1.trans hpipe
    rw [List.foldl_cons, ih hl, login_cred hpipe, processCred_egid]
    rfl

/-- The last login decides about the effective uid and the groups. -/
theorem logins_last {s : Server} (hpipe : s.pipe = true) {logins : List Login} {l : Login}
    (hlast : logins.getLast? = some l) :
    (logins.foldl Server.login s).cred.euid = loginEuid l.user ∧
      (logins.foldl Server.login s).cred.groups = l.user.groupids := by
  obtain ⟨init, rfl⟩ := List.getLast?_eq_some_iff.1 hlast
  have hinit : (init.foldl Server.login s).pipe = true := (logins_frame s init).1.trans hpipe
  rw [List.foldl_append, List.foldl_cons, List.foldl_nil, login_cred hinit, processCred_euid,
    processCred_groups]
  exact ⟨rfl, rfl⟩

/-! ## From `DtloginInit` to `DtloginCloseDown` -/

/-- The server after `DtloginInit` as root: the groups are noted, their number is not. -/
theorem dtloginInit_boot {initEnv : InitEnv} (hgen : initEnv.serverGeneration = 1)
    (hcreate : initEnv.createPipe = true) (ngroupsUmax : Nat) {c₀ : Cred} (hroot : c₀.ruid = 0) :
    (dtloginInit initEnv (.boot ngroupsUmax c₀)).cred = c₀ ∧
      (dtloginInit initEnv (.boot ngroupsUmax c₀)).pipe = true ∧
      (dtloginInit initEnv (.boot ngroupsUmax c₀)).originalUser.user =
        ⟨c₀.euid, c₀.egid, initEnv.getcwd, initEnv.getprojid, []⟩ := by
  have hno : ¬ (Server.boot ngroupsUmax c₀).cred.ruid ≠ 0 := not_not.2 hroot
  simp only [dtloginInit, if_neg (not_not.2 hgen), if_neg hno]
  exact ⟨rfl, hcreate, rfl⟩

/-- It is called for every screen and at exit; only the first call does something. -/
theorem dtloginCloseDown_again {s : Server} (huid : s.originalUser.uid ≠ -1)
    (env env' : ProcessEnv) :
    dtloginCloseDown env' (dtloginCloseDown env s) = dtloginCloseDown env s := by
  have heuid : (dtloginCloseDown env s).cred.euid = s.originalUser.uid := by
    unfold dtloginCloseDown
    by_cases hsame : s.cred.euid ≠ s.originalUser.uid
    · rw [if_pos hsame]
      exact (processCred_euid env _ false s.cred).trans (if_pos huid)
    · rw [if_neg hsame]
      exact not_not.1 hsame
  have hframe : (dtloginCloseDown env s).originalUser = s.originalUser ∧
      (dtloginCloseDown env s).pipe = false := by
    unfold dtloginCloseDown
    split
    · exact ⟨rfl, rfl⟩
    · exact ⟨rfl, rfl⟩
  generalize dtloginCloseDown env s = t at heuid hframe ⊢
  have hno : ¬ t.cred.euid ≠ t.originalUser.uid := not_not.2 (by rw [heuid, hframe.1])
  rw [dtloginCloseDown, if_neg hno, ← hframe.2]

/-- **The server's own credentials come back** exactly if there has been no login, or the last login
is for the server's own uid and the logins have left gid and groups as they were, or it is for
another uid and the server has no groups. -/
theorem credentials_restored_iff {initEnv : InitEnv} (hgen : initEnv.serverGeneration = 1)
    (hcreate : initEnv.createPipe = true) (ngroupsUmax : Nat) {c₀ : Cred} (hroot : c₀.ruid = 0)
    (hvalid : c₀.Valid) (logins : List Login) (env : ProcessEnv) :
    c₀.Restored (dtloginCloseDown env
        (logins.foldl Server.login (dtloginInit initEnv (.boot ngroupsUmax c₀)))).cred ↔
      LoginsUndone c₀ logins := by
  obtain ⟨hcred, hpipe, huser⟩ := dtloginInit_boot hgen hcreate ngroupsUmax hroot
  generalize dtloginInit initEnv (.boot ngroupsUmax c₀) = s at hcred hpipe huser ⊢
  have horig : (logins.foldl Server.login s).originalUser = s.originalUser :=
    (logins_frame s logins).2
  have huid : s.originalUser.uid = c₀.euid := congrArg DmUser.uid huser
  have hegid := logins_egid hpipe logins
  simp only [dtloginCloseDown, horig, huid, huser]
  rw [hcred] at hegid
  unfold LoginsUndone
  cases hlast : logins.getLast? with
  | none =>
    rw [List.getLast?_eq_none_iff] at hlast
    subst hlast
    have heuid : ¬ s.cred.euid ≠ c₀.euid := not_not.2 (by rw [hcred])
    rw [List.foldl_nil, if_neg heuid, hcred]
    exact iff_of_true ⟨rfl, rfl, rfl⟩ fun l hl => by cases hl
  | some l =>
    obtain ⟨heuid, hgroups⟩ := logins_last hpipe hlast
    simp only [Option.some.injEq, forall_eq', heuid]
    generalize (logins.foldl Server.login s) = t at heuid hgroups hegid ⊢
    by_cases hown : loginEuid l.user = c₀.euid
    · rw [if_neg (not_not.2 hown), if_pos hown, ← hegid, ← hgroups]
      exact ⟨fun h => ⟨h.egid, h.groups⟩, fun h => ⟨heuid.trans hown, h.1, h.2⟩⟩
    · rw [if_pos hown, if_neg hown]
      constructor
      · intro h
        rw [← h.groups]
        exact processCred_groups env _ false t.cred
      · intro hnone
        refine ⟨?_, ?_, ?_⟩
        · exact (processCred_euid env _ false t.cred).trans (if_pos hvalid.euid)
        · exact (processCred_egid env _ false t.cred).trans (if_pos hvalid.egid)
        · exact (processCred_groups env _ false t.cred).trans hnone.symm

/-- Root without supplementary groups. -/
def bareRoot : Cred := ⟨0, 0, 0, 0, 0, 0, []⟩

/-- A system that knows nobody. -/
def emptySystem : ProcessEnv := ⟨0, none, fun _ => none, fun _ => none, false⟩

/-- The login of a user in group 10. -/
def userLogin : Login := ⟨emptySystem, ⟨100, 10, none, -1, [10]⟩⟩

/-- The login of a user and the way back, for root without groups. -/
theorem credentials_restored_user :
    bareRoot.Restored (dtloginCloseDown emptySystem ([userLogin].foldl Server.login
      (dtloginInit ⟨1, none, 3, true⟩ (.boot 16 bareRoot)))).cred := by
  refine (credentials_restored_iff rfl rfl 16 rfl ⟨by decide, by decide⟩ [userLogin]
    emptySystem).2 ?_
  rintro l hl
  cases hl
  exact rfl

/-- Root in the groups 0 and 1: after the same login they are gone. -/
theorem credentials_lose_groups : ∃ c : Cred,
    (dtloginCloseDown emptySystem ([userLogin].foldl Server.login (dtloginInit ⟨1, none, 3, true⟩
      (.boot 16 { bareRoot with groups := [0, 1] })))).cred = c ∧
    c.euid = 0 ∧ c.egid = 0 ∧ c.groups = [] ∧
      ¬ Cred.Restored { bareRoot with groups := [0, 1] } c := by
  refine ⟨_, rfl, by decide, by decide, by decide, fun h => ?_⟩
  exact absurd h.groups (by decide)

end Dtlogin
