import FileDrive.Proofs.SessionCalls
import Mathlib.Data.List.DropRight

/-!
# Stored groups

The names of a user's groups are kept in one text. What is read off that text are the names that
could be stored, trimmed, and nothing else (`splitGroups_joinGroups`). The identity behind a session
is therefore a member of a group just when the identity provider has last sent a name that is that
of the group but for blanks around it, whatever else was sent (`membership_as_sent`).
-/

namespace FileDrive

open FileDrive.DriveM FileDrive.Text

namespace Text

/-- A trimmed text does not start with a blank. -/
theorem trimStart_trim (s : List Char) : trimStart (trim s) = trim s := by
  have hfront : trim s <+: trimStart s := List.rdropWhile_prefix _ _
  refine List.dropWhile_eq_self_iff.2 fun hlength => ?_
  rw [hfront.getElem hlength]
  exact List.dropWhile_get_zero_not isBlank s (hlength.trans_le hfront.length_le)

theorem trim_trim (s : List Char) : trim (trim s) = trim s := by
  have hend : trimEnd (trim s) = trim s := List.rdropWhile_idempotent _ _
  rw [trim, trimStart_trim, hend]

@[simp] theorem toList_trimmed (s : String) : (trimmed s).toList = trim s.toList :=
  String.toList_ofList

theorem trimmed_trimmed (s : String) : trimmed (trimmed s) = trimmed s := by
  rw [trimmed, toList_trimmed, trim_trim]
  rfl

/-- Joined texts are cut where they were joined, when none of them has the separator. -/
theorem pieces_intercalate {sep : Char} {parts : List (List Char)} (hne : parts ≠ [])
    (h : ∀ part ∈ parts, sep ∉ part) : pieces sep ([sep].intercalate parts) = parts := by
  induction parts with
  | nil => exact absurd rfl hne
  | cons part parts ih =>
    obtain ⟨hpart, hparts⟩ := List.forall_mem_cons.1 h
    cases parts with
    | nil => simp [List.intercalate, pieces_of_notMem hpart]
    | cons next parts =>
      have hjoin : [sep].intercalate (part :: next :: parts) =
          part ++ sep :: [sep].intercalate (next :: parts) := by
        simp [List.intercalate]
      rw [hjoin, pieces_append_sep, pieces_of_notMem hpart, ih (List.cons_ne_nil _ _) hparts]
      rfl

end Text

/-! ## There and back -/

theorem mem_storableGroups {groups : List String} {name : String} :
    name ∈ storableGroups groups ↔
      ∃ sent ∈ groups, trimmed sent = name ∧ name ≠ "" ∧ ',' ∉ name.toList := by
  unfold storableGroups
  rw [List.mem_filter, List.mem_map]
  simp only [ne_eq, List.contains_eq_mem, Bool.and_eq_true, decide_eq_true_eq, Bool.not_eq_true',
    decide_eq_false_iff_not]
  constructor
  · rintro ⟨⟨sent, hsent, hname⟩, hrest⟩
    exact ⟨sent, hsent, hname, hrest⟩
  · rintro ⟨sent, hsent, hname, hrest⟩
    exact ⟨⟨sent, hsent, hname⟩, hrest⟩

/-- What is read off the text that names are stored in are those that could be stored. -/
theorem splitGroups_joinGroups (groups : List String) :
    splitGroups (joinGroups groups) = storableGroups groups := by
  have hstorable : ∀ name ∈ storableGroups groups,
      trimmed name = name ∧ name ≠ "" ∧ ',' ∉ name.toList := by
    intro name hname
    obtain ⟨sent, -, rfl, hrest⟩ := mem_storableGroups.1 hname
    exact ⟨trimmed_trimmed sent, hrest⟩
  unfold splitGroups joinGroups
  generalize storableGroups groups = names at hstorable
  rw [String.toList_intercalate]
  -- No name at all is stored as the empty text, which has one piece.
  by_cases hne : names = []
  · rw [hne]
    rfl
  · have hcut : pieces ',' ([','].intercalate (names.map String.toList)) =
        names.map String.toList := by
      refine pieces_intercalate (by simpa using hne) fun part hpart => ?_
      obtain ⟨name, hname, rfl⟩ := List.mem_map.1 hpart
      exact (hstorable name hname).2.2
    have hread : (names.map String.toList).map (fun piece => String.ofList (trim piece)) =
        names := by
      rw [List.map_map]
      exact (List.map_congr_left fun name hname => (hstorable name hname).1).trans (List.map_id _)
    rw [show ",".toList = [','] from rfl, hcut, hread, List.filter_eq_self]
    intro name hname
    exact decide_eq_true (hstorable name hname).2.1

/-! ## Users that are vouched for -/

namespace Login

/-- The user that a call about sessions vouches for. A start whose session cannot be given a time
fails before it comes to the user. -/
def vouched? : LoginCall → Except DriveError LoginReply → Option User
  | .start _ _, .error (.config _) => none
  | .start user _, _ => some user
  | .identity _, _ | .finish _, _ | .purge, _ => none

theorem vouched?_start {user : User} {tokens : ProviderTokens} {reply : Except DriveError LoginReply}
    (h : ∀ detail, reply ≠ .error (.config detail)) :
    vouched? (.start user tokens) reply = some user := by
  rcases reply with e | answer
  · cases e
    case config detail => exact absurd rfl (h detail)
    all_goals rfl
  · rfl

/-- The tables of users and of sessions are there, and of every user the groups are stored that were
vouched for last. -/
def GroupsKept (users : List User) (db : Database) : Prop :=
  ∃ rows sessions, db.Holds rows sessions ∧ ∀ id,
    (rows.find? (·.id = id)).map (·.groupNames) =
      (users.reverse.find? (·.id = id)).map fun user => joinGroups user.groups

variable {σ : Type} {login : Login} {drive : Drive σ} {users : List User} {db : Database}

theorem groupsKept_empty : GroupsKept [] Database.empty := ⟨[], [], ⟨rfl, rfl, rfl⟩, fun _ => rfl⟩

theorem GroupsKept.vouch (h : GroupsKept users db) (user : User) :
    ∃ after, db.putUser user = .ok after ∧ GroupsKept (users ++ [user]) after := by
  obtain ⟨rows, sessions, hholds, hgroups⟩ := h
  obtain ⟨rows', hput, hsame, hother⟩ := hholds.putUser user
  refine ⟨_, hput, rows', sessions, hholds.withUsers rows', fun id => ?_⟩
  rw [List.reverse_append, List.reverse_singleton, List.singleton_append]
  by_cases hid : user.id = id
  · subst hid
    rw [hsame, List.find?_cons_of_pos (by simp)]
    rfl
  · rw [hother id hid, List.find?_cons_of_neg (by simpa using hid), hgroups]

/-- The only failures on the way to the time at which a session is over are of the settings. -/
theorem expiry_config_ends (login : Login) (drive : Drive σ) :
    login.expiry.Ends drive fun result after =>
      after.db = drive.db ∧ ∀ e, result = .error e → ∃ detail, e = .config detail := by
  unfold expiry
  apply Ends.guard
  · intro _
    exact ⟨rfl, fun e h => ⟨_, (Except.error.inj h).symm⟩⟩
  · intro _
    apply Ends.now_bind
    generalize drive.clock.next = clock
    split
    · exact ⟨rfl, fun _ h => nomatch h⟩
    · exact ⟨rfl, fun e h => ⟨_, (Except.error.inj h).symm⟩⟩

/-- Adding a session does not fail for the settings, and leaves the users. -/
theorem GroupsKept.createSession (h : GroupsKept users db) (session : Session) :
    (∀ found after, db.createSession session = .ok (found, after) → GroupsKept users after) ∧
      ∀ detail, db.createSession session ≠ .error (.config detail) := by
  obtain ⟨rows, sessions, hholds, hgroups⟩ := h
  by_cases hfresh : ∀ row ∈ sessions, row.id ≠ session.id
  · rw [hholds.createSession session hfresh]
    refine ⟨fun found after hok => ?_, nofun⟩
    obtain ⟨-, rfl⟩ := Prod.mk.inj (Except.ok.inj hok)
    exact ⟨rows, _, hholds.withSessions _, hgroups⟩
  · have htaken : sessions.any (fun row => decide (session.id = row.id)) = true := by
      push Not at hfresh
      obtain ⟨row, hrow, hid⟩ := hfresh
      exact List.any_eq_true.2 ⟨row, hrow, decide_eq_true hid.symm⟩
    have hrefused : db.createSession session = .error (Database.keyTaken .sessions) := by
      unfold Database.createSession Database.insertSessionRow
      rw [hholds.sessionRows]
      dsimp only [bind, Except.bind]
      unfold Database.inserted
      rw [if_pos (by exact htaken)]
    rw [hrefused]
    exact ⟨nofun, nofun⟩

/-- A start vouches for its user unless it fails for the settings. -/
theorem GroupsKept.start (h : GroupsKept users drive.db) (user : User) (tokens : ProviderTokens) :
    (login.serve (.start user tokens)).Ends drive fun reply after =>
      GroupsKept (users ++ (vouched? (.start user tokens) reply).toList) after.db := by
  refine Ends.map ?_
  unfold Login.start
  refine Ends.bind ((expiry_config_ends login drive).mono fun result mid hmid => ?_)
  obtain ⟨hdb, hconfig⟩ := hmid
  rw [← hdb] at h
  cases result with
  | error e =>
    obtain ⟨detail, rfl⟩ := hconfig e rfl
    change GroupsKept (users ++ []) mid.db
    rwa [List.append_nil]
  | ok expiry =>
    obtain ⟨db, hput, hkept⟩ := h.vouch user
    refine Ends.change_bind (fun e hrefused => ?_) fun found hfound => ?_
    · rw [hput] at hrefused
      cases hrefused
    obtain rfl := Except.ok.inj (hput.symm.trans hfound)
    refine Ends.draw_bind ?_
    obtain ⟨hcreated, hother⟩ := hkept.createSession
      ⟨login.sessionIds mid.drawn, user.id, tokens.accessToken, tokens.refreshToken,
        tokens.idToken, expiry⟩
    refine Ends.query_bind (fun e hrefused => ?_) fun answer hanswer => ?_
    · have hvouched : vouched? (.start user tokens) ((Except.error e).map .session) = some user :=
        vouched?_start fun detail he => hother detail (hrefused.trans (by cases he; rfl))
      rw [hvouched]
      exact hkept
    · exact hcreated answer.1 answer.2 hanswer

/-- Every other call leaves the users as they are. -/
theorem GroupsKept.serve (h : GroupsKept users drive.db) (login : Login) (call : LoginCall) :
    (login.serve call).Ends drive fun reply after =>
      GroupsKept (users ++ (vouched? call reply).toList) after.db := by
  cases call with
  | start user tokens => exact h.start user tokens
  | finish id =>
    obtain ⟨rows, sessions, hholds, hgroups⟩ := h
    unfold DriveM.Ends Login.serve
    rw [on_map, finish_on hholds]
    exact ⟨rows, _, hholds.withSessions _, by simpa [vouched?] using hgroups⟩
  | purge =>
    obtain ⟨rows, sessions, hholds, hgroups⟩ := h
    obtain ⟨count, hpurged⟩ := purge_on hholds
    unfold DriveM.Ends Login.serve
    rw [on_map, hpurged]
    exact ⟨rows, _, hholds.withSessions _, by simpa [vouched?] using hgroups⟩
  | identity id =>
    obtain ⟨rows, sessions, hholds, hgroups⟩ := h
    unfold DriveM.Ends Login.serve
    rw [on_map, identity_on hholds]
    simp only [vouched?, Option.toList_none, List.append_nil]
    split
    · exact ⟨rows, _, hholds, hgroups⟩
    · split_ifs
      · exact ⟨rows, _, hholds.withSessions _, hgroups⟩
      · split
        · exact ⟨rows, _, hholds, hgroups⟩
        · exact ⟨rows, _, hholds.withSessions _, hgroups⟩

/-- The identity behind a session has the groups of its user that were vouched for last. -/
theorem GroupsKept.identity (h : GroupsKept users drive.db) {id : String} {who : Identity}
    {after : Drive σ} (hon : (Login.identity id).on drive = (.ok who, after)) :
    ∃ user, users.reverse.find? (·.id = who.subject) = some user ∧
      who.groups = storableGroups user.groups := by
  obtain ⟨rows, sessions, hholds, hgroups⟩ := h
  rw [identity_on hholds] at hon
  split at hon
  · cases hon
  · next session _ =>
    split_ifs at hon
    · cases hon
    · split at hon
      · next row hrow =>
        obtain ⟨hwho, -⟩ := Prod.mk.inj hon
        obtain rfl := Except.ok.inj hwho
        have hid : row.id = session.userId := by simpa using List.find?_some hrow
        have hstored := hgroups row.id
        rw [hid, hrow, ← hid] at hstored
        obtain ⟨user, huser, hnames⟩ := Option.map_eq_some_iff.1 hstored.symm
        refine ⟨user, huser, ?_⟩
        dsimp only at hnames
        change splitGroups row.groupNames = _
        rw [← hnames, splitGroups_joinGroups]
      · cases hon

end Login

/-! ## Runs -/

namespace Service

open FileDrive.Time

variable {σ : Type} {service : Service σ} {stores : ObjectStore σ → Prop} {start drive : Drive σ}
  {users : List User}

/-- A drive comes from where it starts by requests to the file service and by calls about sessions,
whatever the settings of sessions and the clock are each time. The users are those that were vouched
for, first to last. -/
inductive Vouches (service : Service σ) (stores : ObjectStore σ → Prop) (start : Drive σ) :
    List User → Drive σ → Prop where
  | start : Vouches service stores start [] start
  | serve {users : List User} {drive after : Drive σ} {clock : Timestamp} {store : ObjectStore σ}
      {identity : Identity} {request : Request} {reply : Except DriveError Reply}
      (vouches : Vouches service stores start users drive) (offered : stores store)
      (served : ((service.withStore store).serve identity request).on { drive with clock } =
        (reply, after)) :
      Vouches service stores start users after
  | login {users : List User} {drive after : Drive σ} {clock : Timestamp} {login : Login}
      {call : LoginCall} {reply : Except DriveError LoginReply}
      (vouches : Vouches service stores start users drive)
      (answered : (login.serve call).on { drive with clock } = (reply, after)) :
      Vouches service stores start (users ++ (Login.vouched? call reply).toList) after

/-- A request leaves the users as they are. -/
theorem Served.groupsKept {identity : Identity} {request : Request}
    {reply : Except DriveError Reply} {after : Drive σ}
    (served : Served service identity drive request reply after)
    (h : Login.GroupsKept users drive.db) : Login.GroupsKept users after.db := by
  refine served.preserves (fun {db mid} hchanges hkept => ?_) (fun hkept => ?_) h
  · obtain ⟨rows, sessions, hholds, hgroups⟩ := hkept
    obtain ⟨files, touched, hbecomes⟩ := hchanges.becomes
    refine ⟨rows, sessions, ⟨?_, ?_, ?_⟩, hgroups⟩
    · exact (congrArg Database.isOpen hbecomes.rest).trans hholds.isOpen
    · exact (congrArg Database.users hbecomes.rest).trans hholds.users
    · exact (congrArg Database.sessions hbecomes.rest).trans hholds.sessions
  · obtain ⟨rows, sessions, hholds, hgroups⟩ := hkept
    exact ⟨rows, sessions, ⟨hholds.isOpen, hholds.users, hholds.sessions⟩, hgroups⟩

theorem Vouches.groupsKept {objects : σ} {clock : Timestamp}
    (h : service.Vouches stores (Drive.fresh objects clock) users drive) :
    drive.db.Keyed ∧ Login.GroupsKept users drive.db := by
  induction h with
  | start => exact ⟨Database.keyed_empty, Login.groupsKept_empty⟩
  | @serve users drive after clock store identity request reply vouches offered served ih =>
    have hkeyed : ({ drive with clock } : Drive σ).db.Keyed := ih.1
    have hserved : Served (service.withStore store) identity { drive with clock } request reply
        after := (serve_ends (service.withStore store) identity request hkeyed).of_on served
    exact ⟨hserved.preserves Database.Changes.keyed id ih.1, hserved.groupsKept ih.2⟩
  | @login users drive after clock login call reply vouches answered ih =>
    have hkept : Login.GroupsKept users ({ drive with clock } : Drive σ).db := ih.2
    have haside : Login.Aside { drive with clock } after :=
      (Login.serve_ends login call _).of_on answered
    exact ⟨haside.1.keyed ih.1, (hkept.serve login call).of_on answered⟩

/-- Whoever has a session is a member of the groups whose names were sent last, but for blanks around
them. -/
theorem Vouches.inGroup_iff {objects : σ} {clock now : Timestamp} {id : String} {who : Identity}
    {after : Drive σ} (h : service.Vouches stores (Drive.fresh objects clock) users drive)
    (hon : (Login.identity id).on { drive with clock := now } = (.ok who, after)) :
    ∃ user, users.reverse.find? (·.id = who.subject) = some user ∧ ∀ group,
      who.inGroup group = true ↔
        ∃ sent ∈ user.groups, trimmed sent = group ∧ group ≠ "" ∧ ',' ∉ group.toList := by
  obtain ⟨-, hkept⟩ := h.groupsKept
  have hnow : Login.GroupsKept users ({ drive with clock := now } : Drive σ).db := hkept
  obtain ⟨user, huser, hgroups⟩ := hnow.identity hon
  refine ⟨user, huser, fun group => ?_⟩
  rw [Identity.inGroup, hgroups, List.contains_iff_mem, mem_storableGroups]

/-- Reading names back gives just those that could be stored. So a session makes its user a member of
the groups whose names the identity provider sent last, but for blanks around them, and no name that
was sent makes anybody a member of a group with another name. -/
theorem membership_as_sent (service : Service σ) (stores : ObjectStore σ → Prop) :
    (∀ groups, splitGroups (joinGroups groups) =
      (groups.filter fun sent => trimmed sent ≠ "" ∧ ',' ∉ (trimmed sent).toList).map trimmed) ∧
    ∀ objects clock users drive now id who after,
      service.Vouches stores (Drive.fresh objects clock) users drive →
      (Login.identity id).on { drive with clock := now } = (.ok who, after) →
      ∃ user, users.reverse.find? (·.id = who.subject) = some user ∧
        (∀ group, who.inGroup group = true ↔
          ∃ sent ∈ user.groups, trimmed sent = group ∧ group ≠ "" ∧ ',' ∉ group.toList) ∧
        ∀ before sent more group, user.groups = before ++ sent :: more → group ≠ trimmed sent →
          (who.inGroup group = true ↔ group ∈ splitGroups (joinGroups (before ++ more))) := by
  constructor
  · intro groups
    rw [splitGroups_joinGroups, storableGroups, List.filter_map]
    congr 1
    refine List.filter_congr fun sent _ => ?_
    simp
  · intro objects clock users drive now id who after h hon
    obtain ⟨user, huser, hmember⟩ := h.inGroup_iff hon
    refine ⟨user, huser, hmember, fun before sent more group hsplit hother => ?_⟩
    rw [hmember, splitGroups_joinGroups, mem_storableGroups, hsplit]
    simp only [List.mem_append, List.mem_cons]
    constructor
    · rintro ⟨found, hbefore | rfl | hmore, hname, hrest⟩
      · exact ⟨found, Or.inl hbefore, hname, hrest⟩
      · exact absurd hname.symm hother
      · exact ⟨found, Or.inr hmore, hname, hrest⟩
    · rintro ⟨found, hbefore | hmore, hname, hrest⟩
      · exact ⟨found, Or.inl hbefore, hname, hrest⟩
      · exact ⟨found, Or.inr (Or.inr hmore), hname, hrest⟩

/-- A name with a comma makes nobody an administrator, and neither does a blank one. The name of
one's own group counts without the blanks around it. -/
theorem membership_as_sent_with_commas :
    let login : Login := ⟨3600, fun _ => "s"⟩
    let ann : User := ⟨"u", "ann", ["staff,admin", " staff\t", "admin ,", "\u00a0"], "", "/"⟩
    let service : Service Tree := ⟨Directory.store, .enforcing "admin", 0, toString, fun _ => none⟩
    let begun := (login.serve (.start ann ⟨"", "", ""⟩)).on (Drive.fresh Tree.empty ⟨0, 0⟩)
    let used := (Login.identity "s").on { begun.2 with clock := ⟨60, 0⟩ }
    service.Vouches (· = Directory.store) (Drive.fresh Tree.empty ⟨0, 0⟩) [ann] begun.2 ∧
      ∃ who, used.1 = .ok who ∧ who.subject = "u" ∧ who.inGroup "staff" = true ∧
        service.resolver.isAdmin who = false := by
  intro login ann service begun used
  have hstart : service.Vouches (· = Directory.store) (Drive.fresh Tree.empty ⟨0, 0⟩) []
      (Drive.fresh Tree.empty ⟨0, 0⟩) := .start
  have hbegun : service.Vouches (· = Directory.store) (Drive.fresh Tree.empty ⟨0, 0⟩)
      ([] ++ (Login.vouched? (.start ann ⟨"", "", ""⟩) begun.1).toList) begun.2 :=
    .login hstart (show (login.serve (.start ann ⟨"", "", ""⟩)).on
      { Drive.fresh Tree.empty ⟨0, 0⟩ with clock := ⟨0, 0⟩ } = begun from rfl)
  have hvouched : (Login.vouched? (.start ann ⟨"", "", ""⟩) begun.1).toList = [ann] := by
    decide +kernel
  rw [List.nil_append, hvouched] at hbegun
  refine ⟨hbegun, ?_⟩
  obtain ⟨who, hwho, hsubject⟩ := of_toOption_map (x := used.1) (f := (·.subject)) (b := "u")
    (by decide +kernel)
  refine ⟨who, hwho, hsubject, ?_⟩
  obtain ⟨-, hsent⟩ := membership_as_sent service (· = Directory.store)
  obtain ⟨user, huser, hmember, -⟩ := hsent _ _ _ _ _ _ who used.2 hbegun (Prod.ext hwho rfl)
  rw [hsubject] at huser
  obtain rfl : ann = user := Option.some.inj huser
  refine ⟨(hmember "staff").2 (by decide +kernel), ?_⟩
  have hadmin := (hmember "admin").not.2 (by decide +kernel)
  exact Bool.not_eq_true _ ▸ hadmin

end Service

end FileDrive
