import FileDrive.Proofs.SessionLogs

/-!
# What calls about sessions do to the tables

Where the tables of users and of sessions are there, each call is told by their rows: what it
answers and which rows come and go. From this, one call keeps what a log says of the tables
(`Kept.serve`).
-/

namespace FileDrive

open FileDrive.DriveM FileDrive.Time

namespace Database

variable {db : Database} {users : List UserRow} {sessions : List SessionRow}

/-- The tables of users and of sessions are there and have the given rows. -/
structure Holds (db : Database) (users : List UserRow) (sessions : List SessionRow) : Prop where
  isOpen : db.isOpen = true
  users : db.users = some users
  sessions : db.sessions = some sessions

theorem Holds.userRows (h : db.Holds users sessions) : db.userRows = .ok users :=
  rowsOf_eq_ok.2 ⟨h.isOpen, h.users⟩

theorem Holds.sessionRows (h : db.Holds users sessions) : db.sessionRows = .ok sessions :=
  rowsOf_eq_ok.2 ⟨h.isOpen, h.sessions⟩

theorem Holds.session (h : db.Holds users sessions) (id : String) :
    db.session id = match sessions.find? (·.id = id) with
      | some row => .ok row.session
      | none => .error .sessionNotFound := by
  unfold Database.session
  rw [h.sessionRows]
  rfl

theorem Holds.user (h : db.Holds users sessions) (id : String) :
    db.user id = match users.find? (·.id = id) with
      | some row => .ok row.user
      | none => .error (.userNotFound id) := user_of_userRows h.userRows id

theorem Holds.withSessions (h : db.Holds users sessions) (rows : List SessionRow) :
    ({ db with sessions := some rows } : Database).Holds users rows := ⟨h.isOpen, h.users, rfl⟩

theorem Holds.withUsers (h : db.Holds users sessions) (rows : List UserRow) :
    ({ db with users := some rows } : Database).Holds rows sessions := ⟨h.isOpen, rfl, h.sessions⟩

theorem Holds.deleteSession (h : db.Holds users sessions) (id : String) :
    db.deleteSession id = .ok { db with sessions := some (sessions.filter (·.id ≠ id)) } := by
  unfold Database.deleteSession
  rw [h.sessionRows]
  rfl

theorem Holds.deleteExpired (h : db.Holds users sessions) (now : Timestamp) :
    db.deleteExpired now =
      .ok (sessions.countP fun row => decide (row.expiry ≤ now.stored),
        { db with sessions := some (sessions.filter fun row =>
          !decide (row.expiry ≤ now.stored)) }) :=
  bind_eq_ok.2 ⟨_, h.sessionRows, rfl⟩

/-- A session with a new id is added, and read back as it is stored. -/
theorem Holds.createSession (h : db.Holds users sessions) (session : Session)
    (hfresh : ∀ row ∈ sessions, row.id ≠ session.id) :
    db.createSession session = .ok ((SessionRow.ofSession session).session,
      { db with sessions := some (sessions ++ [SessionRow.ofSession session]) }) := by
  have hfree : ¬ sessions.any (fun row => decide (session.id = row.id)) = true := by
    rw [List.any_eq_true]
    rintro ⟨row, hrow, hsame⟩
    exact hfresh row hrow (of_decide_eq_true hsame).symm
  have hinserted : db.insertSessionRow (SessionRow.ofSession session) =
      .ok { db with sessions := some (sessions ++ [SessionRow.ofSession session]) } :=
    bind_eq_ok.2 ⟨_, h.sessionRows, bind_eq_ok.2 ⟨_, if_neg hfree, rfl⟩⟩
  have hfound : (sessions ++ [SessionRow.ofSession session]).find? (·.id = session.id) =
      some (SessionRow.ofSession session) := by
    rw [List.find?_append, List.find?_eq_none.2 (by simpa using hfresh)]
    simp [SessionRow.ofSession]
  have hread := (h.withSessions (sessions ++ [SessionRow.ofSession session])).session session.id
  rw [hfound] at hread
  exact bind_eq_ok.2 ⟨_, hinserted, bind_eq_ok.2 ⟨_, hread, rfl⟩⟩

/-- A user's row brought up to date, if it is that of the user. -/
def upToDate (user : User) (row : UserRow) : UserRow :=
  if row.id = user.id then
    { row with
      username := user.username
      groupNames := joinGroups user.groups
      email := user.email }
  else row

theorem id_upToDate (user : User) (row : UserRow) : (upToDate user row).id = row.id := by
  unfold upToDate
  split <;> rfl

theorem find?_upToDate (user : User) (id : String) :
    (users.map (upToDate user)).find? (·.id = id) =
      (users.find? (·.id = id)).map (upToDate user) := by
  rw [List.find?_map]
  simp only [Function.comp_def, id_upToDate]

/-- A user is brought up to date, except for the home directory, or added. -/
theorem Holds.putUser (h : db.Holds users sessions) (user : User) :
    ∃ rows, db.putUser user = .ok { db with users := some rows } ∧
      rows.find? (·.id = user.id) =
        some ⟨user.id, user.username, joinGroups user.groups, user.email,
          ((users.find? (·.id = user.id)).map (·.home)).getD user.home⟩ ∧
      ∀ id, user.id ≠ id → rows.find? (·.id = id) = users.find? (·.id = id) := by
  refine ⟨if users.any (·.id = user.id) then users.map (upToDate user)
    else users ++ [⟨user.id, user.username, joinGroups user.groups, user.email, user.home⟩],
    bind_eq_ok.2 ⟨_, h.userRows, rfl⟩, ?_, ?_⟩
  · rcases hfound : users.find? (·.id = user.id) with _ | row
    · have hnone : ¬ users.any (·.id = user.id) = true := by
        rw [List.any_eq_true]
        rintro ⟨row, hrow, hid⟩
        exact List.find?_eq_none.1 hfound row hrow hid
      rw [if_neg hnone, List.find?_append, hfound]
      simp
    · have hid := List.find?_some hfound
      have hsome : users.any (·.id = user.id) = true :=
        List.any_eq_true.2 ⟨row, List.mem_of_find?_eq_some hfound, hid⟩
      rw [if_pos hsome, find?_upToDate, hfound, Option.map_some]
      unfold upToDate
      rw [if_pos (of_decide_eq_true hid)]
      simp [of_decide_eq_true hid]
  · intro id hne
    split
    · rw [find?_upToDate]
      rcases hfound : users.find? (·.id = id) with _ | row
      · rw [hfound, Option.map_none]
      · have hid := List.find?_some hfound
        rw [hfound, Option.map_some]
        unfold upToDate
        rw [if_neg (by rw [of_decide_eq_true hid]; exact Ne.symm hne)]
    · rw [List.find?_append]
      simp [hne]

end Database

namespace Login

variable {σ : Type} {login : Login} {drive : Drive σ} {users : List UserRow}
  {sessions : List SessionRow}

/-! ## The calls -/

theorem finish_on (h : drive.db.Holds users sessions) (id : String) :
    (finish id).on drive = (.ok (), { drive with db :=
      { drive.db with sessions := some (sessions.filter (·.id ≠ id)) } }) := by
  unfold finish change
  rw [on_bind, on_query, h.deleteSession]
  rfl

theorem purge_on (h : drive.db.Holds users sessions) :
    ∃ count, purge.on drive = (.ok count, { drive with
      clock := drive.clock.next
      db := { drive.db with sessions := some (sessions.filter fun row =>
        !decide (row.expiry ≤ drive.clock.next.stored)) } }) := by
  unfold purge
  rw [on_bind, on_now]
  generalize drive.clock.next = now
  dsimp only
  rw [on_bind, on_query]
  dsimp only
  rw [h.deleteExpired]
  exact ⟨_, rfl⟩

theorem finish_throw_on (h : drive.db.Holds users sessions) (id : String) (e : DriveError) :
    (do finish id; throw e : DriveM σ Identity).on drive = (.error e, { drive with db :=
      { drive.db with sessions := some (sessions.filter (·.id ≠ id)) } }) := by
  rw [on_bind, finish_on h]
  rfl

/-- A session that is found and not over gives the identity of its user, where that is known. -/
theorem identity_on (h : drive.db.Holds users sessions) (id : String) :
    (identity id).on drive =
      match sessions.find? (·.id = id) with
      | none => (.error .sessionNotFound, drive)
      | some row =>
        if Timestamp.ofStored row.expiry ≤ drive.clock.next then
          (.error .sessionNotFound, { drive with
            clock := drive.clock.next
            db := { drive.db with sessions := some (sessions.filter (·.id ≠ id)) } })
        else match users.find? (·.id = row.userId) with
          | some user => (.ok user.user.identity, { drive with clock := drive.clock.next })
          | none => (.error .sessionNotFound, { drive with
            clock := drive.clock.next
            db := { drive.db with sessions := some (sessions.filter (·.id ≠ id)) } }) := by
  unfold identity
  rw [on_bind, on_query, h.session]
  cases sessions.find? (·.id = id) with
  | none => rfl
  | some row =>
    dsimp only
    rw [on_bind, on_now]
    generalize drive.clock.next = now
    dsimp only
    have hdb : ({ drive with clock := now } : Drive σ).db.Holds users sessions := h
    by_cases hover : Timestamp.ofStored row.expiry ≤ now
    · have hexpired : row.session.isExpired now = true := decide_eq_true hover
      rw [if_pos hexpired, if_pos hover]
      exact finish_throw_on hdb id _
    · have hnot : ¬ row.session.isExpired now = true := fun e => hover (of_decide_eq_true e)
      rw [if_neg hnot, if_neg hover, on_bind, on_get]
      dsimp only
      rw [h.user, show row.session.userId = row.userId from rfl]
      cases users.find? (·.id = row.userId) with
      | some user => rfl
      | none => exact finish_throw_on hdb id _

/-- The session that a start makes: its id is the next one, and it is over after the lifetime. -/
def newSession (login : Login) (drawn : Nat) (user : User) (tokens : ProviderTokens)
    (t : Timestamp) : Session :=
  ⟨login.sessionIds drawn, user.id, tokens.accessToken, tokens.refreshToken, tokens.idToken,
    login.due t⟩

theorem expiry_on (hlifetime : login.lifetime ≤ longestLifetime) (drive : Drive σ) :
    login.expiry.on drive =
      (if yearLimits.1 ≤ (login.due drive.clock.next).year ∧
          (login.due drive.clock.next).year ≤ yearLimits.2 then
        .ok (login.due drive.clock.next)
      else .error (.config "session lifetime is out of range"),
        { drive with clock := drive.clock.next }) := by
  unfold expiry
  dsimp only
  rw [if_neg (by omega), on_bind, on_now]
  generalize drive.clock.next = now
  dsimp only
  rw [show now.after? login.lifetime =
    if yearLimits.1 ≤ (login.due now).year ∧ (login.due now).year ≤ yearLimits.2 then
      some (login.due now) else none from rfl]
  split_ifs <;> rfl

/-- A start fails when its session would be over beyond the years that times can lie in. -/
theorem start_refused (drive : Drive σ) (user : User) (tokens : ProviderTokens)
    (hlifetime : login.lifetime ≤ longestLifetime)
    (hlate : ¬ (yearLimits.1 ≤ (login.due drive.clock.next).year ∧
      (login.due drive.clock.next).year ≤ yearLimits.2)) :
    (login.start user tokens).on drive = (.error (.config "session lifetime is out of range"),
      { drive with clock := drive.clock.next }) := by
  unfold start
  rw [on_bind, expiry_on hlifetime, if_neg hlate]

/-- Any other start whose id is new brings its user up to date and adds its session. -/
theorem start_begins (h : drive.db.Holds users sessions) (user : User) (tokens : ProviderTokens)
    (hlifetime : login.lifetime ≤ longestLifetime)
    (hlimits : yearLimits.1 ≤ (login.due drive.clock.next).year ∧
      (login.due drive.clock.next).year ≤ yearLimits.2)
    (hfresh : ∀ row ∈ sessions, row.id ≠ login.sessionIds drive.drawn) :
    ∃ rows, (login.start user tokens).on drive =
        (.ok (SessionRow.ofSession
          (login.newSession drive.drawn user tokens drive.clock.next)).session,
          { drive with
            clock := drive.clock.next
            drawn := drive.drawn + 1
            db := { drive.db with
              users := some rows
              sessions := some (sessions ++ [SessionRow.ofSession
                (login.newSession drive.drawn user tokens drive.clock.next)]) } }) ∧
      rows.find? (·.id = user.id) =
        some ⟨user.id, user.username, joinGroups user.groups, user.email,
          ((users.find? (·.id = user.id)).map (·.home)).getD user.home⟩ ∧
      ∀ id, user.id ≠ id → rows.find? (·.id = id) = users.find? (·.id = id) := by
  obtain ⟨rows, hput, hsame, hother⟩ := h.putUser user
  refine ⟨rows, ?_, hsame, hother⟩
  unfold start
  rw [on_bind, expiry_on hlifetime, if_pos hlimits]
  generalize drive.clock.next = now
  dsimp only
  have hcreated := (h.withUsers rows).createSession
    (login.newSession drive.drawn user tokens now) hfresh
  unfold change
  rw [on_bind, on_bind, on_query]
  dsimp only
  rw [hput]
  dsimp only
  rw [on_commit]
  dsimp only
  rw [on_bind, on_draw]
  dsimp only
  rw [on_bind, on_query]
  dsimp only
  unfold newSession at hcreated
  rw [hcreated]
  rfl

/-! ## When sessions are over -/

section Due

variable {t now : Timestamp}

theorem due_onClock (login : Login) (h : t.OnClock) : (login.due t).OnClock := by
  refine ⟨h.nanos, le_trans h.year (Timestamp.year_mono ?_)⟩
  show t.seconds ≤ t.seconds + login.lifetime
  omega

/-- A session that is over in a year of more than four digits begins after 1970. -/
theorem epoch_le_of_late (hlifetime : login.lifetime ≤ Settings.longestSession)
    (hlate : 9999 < (login.due t).year) (hlt : t < now) : Timestamp.epoch ≤ now := by
  rintro (hbefore | ⟨-, hnanos⟩)
  · change now.seconds < 0 at hbefore
    have hearly : t.seconds ≤ now.seconds := by
      change t.seconds < now.seconds ∨ (t.seconds = now.seconds ∧ _) at hlt
      omega
    have hdue : (login.due t).seconds ≤ 31536000 := by
      unfold Settings.longestSession at hlifetime
      show t.seconds + login.lifetime ≤ 31536000
      omega
    have hyear := Timestamp.year_mono (u := ⟨31536000, 0⟩) hdue
    rw [show Timestamp.year ⟨31536000, 0⟩ = 1971 by decide] at hyear
    omega
  · exact Nat.not_lt_zero _ hnanos

/-- A session that began on the clock is not over by what is stored of it exactly until its time has
come, when that is in a year of four digits. -/
theorem lt_ofStored_due_iff (hlifetime : login.lifetime ≤ Settings.longestSession)
    (ht : t.OnClock) (hlt : t < now) :
    now < Timestamp.ofStored (login.due t).stored ↔
      now < (login.due t).truncated ∧ (login.due t).year ≤ 9999 := by
  by_cases hyear : (login.due t).year ≤ 9999
  · rw [Timestamp.ofStored_stored ((due_onClock login ht).storable hyear)]
    simp [hyear]
  · have hlate : 9999 < (login.due t).year := by omega
    rw [Timestamp.ofStored_stored_of_late hlate]
    constructor
    · intro hnow
      exact absurd hnow (epoch_le_of_late hlifetime hlate hlt)
    · rintro ⟨-, hnot⟩
      exact absurd hnot hyear

/-- What a sweep takes out is over. -/
theorem ofStored_le_of_stored_le (hlifetime : login.lifetime ≤ Settings.longestSession)
    (ht : t.OnClock) (hlt : t < now) (hnow : now.OnClock)
    (h : (login.due t).stored ≤ now.stored) :
    Timestamp.ofStored (login.due t).stored ≤ now := by
  intro hstands
  obtain ⟨hbefore, hyear⟩ := (lt_ofStored_due_iff hlifetime ht hlt).1 hstands
  exact (due_onClock login ht).truncated_le_of_stored_le hyear hnow h hbefore

end Due

/-! ## What a call keeps -/

variable {log : List LoginEvent}

/-- The tables of users and of sessions agree with a log. -/
def Kept (login : Login) (log : List LoginEvent) (drive : Drive σ) : Prop :=
  ∃ users sessions, drive.db.Holds users sessions ∧ Agrees login log users sessions drive.drawn

theorem kept_fresh (login : Login) (objects : σ) (clock : Timestamp) :
    Kept login [] (Drive.fresh objects clock) := ⟨[], [], ⟨rfl, rfl, rfl⟩, agrees_nil login⟩

section Serve

variable {clock : Timestamp} (h : Kept login log drive)
  (hids : Function.Injective login.sessionIds)
  (hlifetime : login.lifetime ≤ Settings.longestSession)
  (hclock : ∀ event ∈ log, event.time.OnClock) (hnow : clock.next.OnClock)
  (hlater : ∀ event ∈ log, event.time < clock.next)

include h in
theorem Kept.serve_finish (id : String) :
    Kept login (log ++ [⟨clock.next, .finish id,
        ((login.serve (.finish id)).on { drive with clock }).1⟩])
      ((login.serve (.finish id)).on { drive with clock }).2 := by
  obtain ⟨users, sessions, hholds, hagrees⟩ := h
  have hdb : ({ drive with clock } : Drive σ).db.Holds users sessions := hholds
  unfold Login.serve
  rw [on_map, finish_on hdb]
  exact ⟨users, _, hholds.withSessions _, hagrees.finish rfl⟩

include h hids hlifetime hclock hnow hlater in
theorem Kept.serve_purge :
    Kept login (log ++ [⟨clock.next, .purge, ((login.serve .purge).on { drive with clock }).1⟩])
      ((login.serve .purge).on { drive with clock }).2 := by
  obtain ⟨users, sessions, hholds, hagrees⟩ := h
  have hdb : ({ drive with clock } : Drive σ).db.Holds users sessions := hholds
  obtain ⟨count, hpurged⟩ := purge_on hdb
  unfold Login.serve
  rw [on_map, hpurged]
  refine ⟨users, _, hholds.withSessions _, hagrees.drop hids rfl ?_ _ ?_⟩
  · intro id hfinish
    cases hfinish
  intro row hrow hgone
  obtain ⟨b, hb, -, -, hexpiry⟩ := hagrees.kept.sound row hrow
  obtain ⟨begun, hbegun, htime⟩ := time_of_mem hb.mem
  have hpast := hlater begun hbegun
  have hcivil := hclock begun hbegun
  rw [htime] at hpast hcivil
  have hswept : row.expiry ≤ clock.next.stored := by simpa using hgone
  rw [hexpiry] at hswept ⊢
  show Timestamp.ofStored (login.due b.time).stored ≤ clock.next
  exact ofStored_le_of_stored_le hlifetime hcivil hpast hnow hswept

variable (clock) in
include h hids hlater in
/-- A session that stands and is not over by what is stored of it gives the identity that its user
is known by, and any other one fails. Sessions that are found to be over lose their rows. -/
theorem Kept.identity_ends (id : String) :
    ((∃ b row, Standing log b ∧ b.id = id ∧
          clock.next < Timestamp.ofStored (login.due b.time).stored ∧
          knownAs log b.user.id = some row ∧
          ((identity id).on { drive with clock }).1 = .ok row.user.identity) ∨
        (∀ b, Standing log b → b.id = id →
          Timestamp.ofStored (login.due b.time).stored ≤ clock.next) ∧
          ((identity id).on { drive with clock }).1 = .error .sessionNotFound) ∧
      ∀ reply, Kept login (log ++ [⟨clock.next, .identity id, reply⟩])
        ((identity id).on { drive with clock }).2 := by
  obtain ⟨users, sessions, hholds, hagrees⟩ := h
  have hdb : ({ drive with clock } : Drive σ).db.Holds users sessions := hholds
  have hdistinct := hagrees.distinct hids
  have hcall : ∀ reply other, (⟨clock.next, .identity id, reply⟩ : LoginEvent).call ≠
      .finish other := by
    intro reply other hfinish
    cases hfinish
  rw [identity_on hdb]
  rcases hfound : sessions.find? (·.id = id) with _ | row
  · rw [hfound]
    refine ⟨Or.inr ⟨fun b hb hid => ?_, rfl⟩, fun reply => ⟨users, sessions, hholds, ?_⟩⟩
    · obtain ⟨row, hrow, hsame⟩ | ⟨event, hevent, hover⟩ := hagrees.kept.complete b hb
      · exact absurd (hsame.trans hid) (by simpa using List.find?_eq_none.1 hfound row hrow)
      · exact Timestamp.le_of_le_of_lt hover (hlater event hevent)
    · exact hagrees.stay hids rfl (hcall reply)
  · have hrow := List.mem_of_find?_eq_some hfound
    have hid := List.find?_some hfound
    rw [decide_eq_true_eq] at hid
    obtain ⟨b, hb, hsame, huser, hexpiry⟩ := hagrees.kept.sound row hrow
    have hall : ∀ c, Standing log c → c.id = id → c = b := fun c hc hcid =>
      hdistinct.eq hc.mem hb.mem (by rw [hcid, hsame, hid])
    rw [hfound]
    dsimp only
    rw [hexpiry]
    by_cases hover : Timestamp.ofStored (login.due b.time).stored ≤ clock.next
    · rw [if_pos hover]
      refine ⟨Or.inr ⟨fun c hc hcid => ?_, rfl⟩, fun reply =>
        ⟨users, _, hholds.withSessions _, hagrees.drop hids rfl (hcall reply) _ ?_⟩⟩
      · rw [hall c hc hcid]
        exact hover
      · intro other hother hgone
        obtain ⟨c, hc, hcsame, -, hcexpiry⟩ := hagrees.kept.sound other hother
        have hcid : other.id = id := by simpa using hgone
        rw [hcexpiry, hall c hc (hcsame.trans hcid)]
        exact hover
    · rw [if_neg hover, huser, hagrees.known]
      obtain ⟨first, hfirst⟩ := exists_first hb.mem
      obtain ⟨latest, -, hknown⟩ := knownAs_of_first hfirst
      rw [hknown]
      exact ⟨Or.inl ⟨b, _, hb, hsame.trans hid, Classical.not_not.1 hover, hknown, rfl⟩,
        fun reply => ⟨users, sessions, hholds, hagrees.stay hids rfl (hcall reply)⟩⟩

variable (clock) in
include h hids hlifetime in
/-- A start is refused, or it begins a session with the next id. Whether it does depends on the
time, and what it answers on how many sessions have begun. -/
theorem Kept.start_ends (user : User) (tokens : ProviderTokens) :
    ((login.start user tokens).on { drive with clock }).1 =
        (if yearLimits.1 ≤ (login.due clock.next).year ∧
            (login.due clock.next).year ≤ yearLimits.2 then
          .ok (SessionRow.ofSession
            (login.newSession (beginnings log).length user tokens clock.next)).session
        else .error (.config "session lifetime is out of range")) ∧
      Kept login (log ++ [⟨clock.next, .start user tokens,
          (((login.start user tokens).on { drive with clock }).1).map .session⟩])
        ((login.start user tokens).on { drive with clock }).2 := by
  obtain ⟨users, sessions, hholds, hagrees⟩ := h
  have hdb : ({ drive with clock } : Drive σ).db.Holds users sessions := hholds
  have hlong : login.lifetime ≤ longestLifetime :=
    le_trans hlifetime (by unfold Settings.longestSession longestLifetime; omega)
  have hdrawn : (beginnings log).length = drive.drawn := by
    have hlength := congrArg List.length hagrees.ids
    simpa using hlength
  have hbegins := start_begins hdb user tokens hlong
  have hrefused := start_refused { drive with clock } user tokens hlong
  rw [hdrawn]
  dsimp only at hbegins hrefused
  generalize clock.next = now at *
  by_cases hlimits : yearLimits.1 ≤ (login.due now).year ∧ (login.due now).year ≤ yearLimits.2
  · obtain ⟨rows, hstart, hsame, hother⟩ := hbegins hlimits (hagrees.fresh hids)
    rw [hstart, if_pos hlimits]
    refine ⟨rfl, rows, _, (hholds.withUsers rows).withSessions _, ?_⟩
    exact hagrees.begin (b := ⟨login.sessionIds drive.drawn, user, now⟩) rfl rfl rfl rfl rfl
      hsame hother
  · rw [hrefused hlimits, if_neg hlimits]
    refine ⟨rfl, users, sessions, hholds, hagrees.stay hids rfl ?_⟩
    intro id hfinish
    cases hfinish

include h hids hlifetime hclock in
/-- Every call keeps what the log says. -/
theorem Kept.serve {time : Timestamp} (ticks : clock.next = time) (hnow : time.OnClock)
    (hlater : ∀ event ∈ log, event.time < time) (call : LoginCall) :
    Kept login (log ++ [⟨time, call, ((login.serve call).on { drive with clock }).1⟩])
      ((login.serve call).on { drive with clock }).2 := by
  rw [← ticks] at hnow hlater ⊢
  cases call with
  | start user tokens =>
    unfold Login.serve
    rw [on_map]
    exact (h.start_ends clock hids hlifetime user tokens).2
  | identity id =>
    unfold Login.serve
    rw [on_map]
    exact (h.identity_ends clock hids hlater id).2 _
  | finish id => exact h.serve_finish id
  | purge => exact h.serve_purge hids hlifetime hclock hnow hlater

end Serve

end Login

end FileDrive
