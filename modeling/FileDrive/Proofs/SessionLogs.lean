import FileDrive.Proofs.Logins
import FileDrive.Proofs.StoredTimes
import FileDrive.Settings

/-!
# Logs of calls about sessions

A log has the calls about sessions that a drive has answered, each with its time and its answer.
From the log alone one can tell which sessions stand (`Standing`) and as whom every user is known
(`knownAs`), and the rows of the tables agree with that (`Agrees`), except that sessions that are
over may have lost theirs.
-/

namespace FileDrive

open FileDrive.DriveM FileDrive.Time

/-- A call about sessions with its time and its answer. -/
structure LoginEvent where
  time : Timestamp
  call : LoginCall
  reply : Except DriveError LoginReply

/-- The beginning of a session: the id that it was given, its user and its time. -/
structure Beginning where
  id : String
  user : User
  time : Timestamp
  deriving DecidableEq

namespace LoginEvent

/-- The session that begins with an event. One begins with every start that goes well. -/
def beginning? (event : LoginEvent) : Option Beginning :=
  match event.call, event.reply with
  | .start user _, .ok (.session session) => some ⟨session.id, user, event.time⟩
  | _, _ => none

/-- What was asked for, and when. -/
def asked (event : LoginEvent) : Timestamp × LoginCall := (event.time, event.call)

/-- Whether an event is anything but a sweep of the sessions that are over. -/
def lasts (event : LoginEvent) : Bool :=
  match event.call with
  | .purge => false
  | .start _ _ | .identity _ | .finish _ => true

end LoginEvent

namespace Login

/-- The sessions that begin in a log, first to last. -/
def beginnings (log : List LoginEvent) : List Beginning := log.filterMap (·.beginning?)

/-- The users whose sessions begin in a log, first to last. -/
def users (log : List LoginEvent) : List User := (beginnings log).map (·.user)

/-- A session begins in a log and is not ended later on. -/
def Standing (log : List LoginEvent) (b : Beginning) : Prop :=
  ∃ before event after, log = before ++ event :: after ∧ event.beginning? = some b ∧
    ∀ later ∈ after, later.call ≠ .finish b.id

/-- What is known of a user after a log: the home directory of the user's first start, and all else
from the latest one. -/
def knownAs (log : List LoginEvent) (id : String) : Option UserRow := do
  let first ← (users log).find? (·.id = id)
  let latest ← (users log).reverse.find? (·.id = id)
  return ⟨id, latest.username, joinGroups latest.groups, latest.email, first.home⟩

/-- The time at which a session that begins at a time is over. -/
def due (login : Login) (t : Timestamp) : Timestamp := ⟨t.seconds + login.lifetime, t.nanos⟩

/-- A drive answers calls one after the other, each at a later time than those before, and has then
the given log. The clock can stand anywhere when a call comes. -/
inductive Logs {σ : Type} (login : Login) (start : Drive σ) : List LoginEvent → Drive σ → Prop where
  | start : Logs login start [] start
  | answer {log : List LoginEvent} {drive after : Drive σ} {clock time : Timestamp}
      {call : LoginCall} {reply : Except DriveError LoginReply}
      (logs : Logs login start log drive) (ticks : clock.next = time)
      (later : ∀ event ∈ log, event.time < time)
      (answered : (login.serve call).on { drive with clock } = (reply, after)) :
      Logs login start (log ++ [⟨time, call, reply⟩]) after

/-! ## What a log says -/

variable {log : List LoginEvent} {event : LoginEvent} {b c : Beginning}

theorem beginnings_append (log log' : List LoginEvent) :
    beginnings (log ++ log') = beginnings log ++ beginnings log' := List.filterMap_append

theorem beginnings_snoc_none (h : event.beginning? = none) :
    beginnings (log ++ [event]) = beginnings log := by
  rw [beginnings_append]
  unfold beginnings
  rw [List.filterMap_cons_none h, List.filterMap_nil, List.append_nil]

theorem beginnings_snoc_some (h : event.beginning? = some b) :
    beginnings (log ++ [event]) = beginnings log ++ [b] := by
  rw [beginnings_append]
  unfold beginnings
  rw [List.filterMap_cons_some h, List.filterMap_nil]

theorem beginning?_eq_some (h : event.beginning? = some b) : ∃ tokens session,
    event.call = .start b.user tokens ∧ event.reply = .ok (.session session) ∧
      session.id = b.id ∧ event.time = b.time := by
  unfold LoginEvent.beginning? at h
  split at h
  · next user tokens session hcall hreply =>
    obtain rfl := Option.some.inj h
    exact ⟨tokens, session, hcall, hreply, rfl, rfl⟩
  · cases h

theorem time_of_mem (h : b ∈ beginnings log) : ∃ event ∈ log, event.time = b.time := by
  obtain ⟨event, hevent, hbegins⟩ := List.mem_filterMap.1 h
  obtain ⟨-, -, -, -, -, htime⟩ := beginning?_eq_some hbegins
  exact ⟨event, hevent, htime⟩

theorem Standing.mem (h : Standing log b) : b ∈ beginnings log := by
  obtain ⟨before, event, after, rfl, hbegins, -⟩ := h
  exact List.mem_filterMap.2 ⟨event, List.mem_append_right _ List.mem_cons_self, hbegins⟩

theorem not_standing_nil : ¬ Standing [] b := fun h => nomatch h.mem

theorem standing_snoc : Standing (log ++ [event]) b ↔
    event.beginning? = some b ∨ Standing log b ∧ event.call ≠ .finish b.id := by
  constructor
  · rintro ⟨before, found, after, hlog, hbegins, hlast⟩
    rcases List.eq_nil_or_concat after with rfl | ⟨rest, last, rfl⟩
    · obtain ⟨-, hevent⟩ := List.append_inj' hlog rfl
      obtain rfl := List.head_eq_of_cons_eq hevent
      exact Or.inl hbegins
    · rw [List.concat_eq_append, ← List.cons_append, ← List.append_assoc] at hlog
      obtain ⟨rfl, hevent⟩ := List.append_inj' hlog rfl
      obtain rfl := List.head_eq_of_cons_eq hevent
      rw [List.concat_eq_append] at hlast
      refine Or.inr ⟨⟨before, found, rest, rfl, hbegins, fun later hlater => ?_⟩, ?_⟩
      · exact hlast later (List.mem_append_left _ hlater)
      · exact hlast event (List.mem_append_right _ List.mem_cons_self)
  · rintro (hbegins | ⟨⟨before, found, after, rfl, hbegins, hlast⟩, hevent⟩)
    · exact ⟨log, event, [], rfl, hbegins, nofun⟩
    · refine ⟨before, found, after ++ [event], by simp, hbegins, fun later hlater => ?_⟩
      rw [List.mem_append, List.mem_singleton] at hlater
      obtain hlater | rfl := hlater
      · exact hlast later hlater
      · exact hevent

theorem knownAs_snoc_none (h : event.beginning? = none) (id : String) :
    knownAs (log ++ [event]) id = knownAs log id := by
  unfold knownAs users
  rw [beginnings_snoc_none h]

theorem knownAs_snoc_other (h : event.beginning? = some b) {id : String} (hid : b.user.id ≠ id) :
    knownAs (log ++ [event]) id = knownAs log id := by
  unfold knownAs users
  rw [beginnings_snoc_some h]
  simp [hid]

/-- Whoever has started a session is known, with the home directory of the first start. -/
theorem knownAs_of_first {id : String} {first : User}
    (h : (users log).find? (·.id = id) = some first) :
    ∃ latest, (users log).reverse.find? (·.id = id) = some latest ∧ knownAs log id =
      some ⟨id, latest.username, joinGroups latest.groups, latest.email, first.home⟩ := by
  obtain ⟨latest, hlatest⟩ : ∃ latest, (users log).reverse.find? (·.id = id) = some latest := by
    have hid := List.find?_some h
    rw [← Option.isSome_iff_exists, List.find?_isSome]
    exact ⟨first, List.mem_reverse.2 (List.mem_of_find?_eq_some h), hid⟩
  refine ⟨latest, hlatest, ?_⟩
  unfold knownAs
  rw [h, hlatest]
  rfl

theorem knownAs_snoc_same (h : event.beginning? = some b) :
    knownAs (log ++ [event]) b.user.id =
      some ⟨b.user.id, b.user.username, joinGroups b.user.groups, b.user.email,
        ((knownAs log b.user.id).map (·.home)).getD b.user.home⟩ := by
  have husers : users (log ++ [event]) = users log ++ [b.user] := by
    unfold users
    rw [beginnings_snoc_some h, List.map_append, List.map_singleton]
  rcases hfirst : (users log).find? (·.id = b.user.id) with _ | first
  · have hnone : knownAs log b.user.id = none := by
      unfold knownAs
      rw [hfirst]
      rfl
    rw [hnone]
    unfold knownAs
    rw [husers, List.find?_append, hfirst]
    simp
  · obtain ⟨latest, -, hknown⟩ := knownAs_of_first hfirst
    rw [hknown]
    unfold knownAs
    rw [husers, List.find?_append, hfirst]
    simp

theorem exists_first (h : b ∈ beginnings log) :
    ∃ first, (users log).find? (·.id = b.user.id) = some first := by
  rw [← Option.isSome_iff_exists, List.find?_isSome]
  exact ⟨b.user, List.mem_map_of_mem h, by simp⟩

/-! ## What the tables keep -/

variable {login : Login} {rows : List SessionRow}

/-- Every row of a session is of one that stands, and whatever session stands has a row unless it
was over at one of the times of the log. -/
structure SessionsKept (login : Login) (log : List LoginEvent) (rows : List SessionRow) : Prop where
  sound : ∀ row ∈ rows, ∃ b, Standing log b ∧ b.id = row.id ∧ row.userId = b.user.id ∧
    row.expiry = (login.due b.time).stored
  complete : ∀ b, Standing log b → (∃ row ∈ rows, row.id = b.id) ∨
    ∃ event ∈ log, Timestamp.ofStored (login.due b.time).stored ≤ event.time

/-- No two sessions of a log have one id. -/
def Distinct (log : List LoginEvent) : Prop := ((beginnings log).map (·.id)).Nodup

theorem Distinct.of_append {log' : List LoginEvent} (h : Distinct (log ++ log')) :
    Distinct log := by
  unfold Distinct at h ⊢
  rw [beginnings_append, List.map_append] at h
  exact (List.nodup_append.1 h).1

theorem Distinct.eq (h : Distinct log) (hb : b ∈ beginnings log) (hc : c ∈ beginnings log)
    (hid : b.id = c.id) : b = c := List.inj_on_of_nodup_map h hb hc hid

/-- Rows of sessions that are over can go. -/
theorem SessionsKept.drop (h : SessionsKept login log rows) (hdistinct : Distinct log)
    (hbegins : event.beginning? = none) (hcall : ∀ id, event.call ≠ .finish id)
    (keep : SessionRow → Bool)
    (hover : ∀ row ∈ rows, keep row = false → Timestamp.ofStored row.expiry ≤ event.time) :
    SessionsKept login (log ++ [event]) (rows.filter keep) := by
  have hstanding : ∀ b, Standing (log ++ [event]) b ↔ Standing log b := by
    intro b
    rw [standing_snoc, hbegins]
    simp [hcall]
  constructor
  · intro row hrow
    obtain ⟨b, hb, hrest⟩ := h.sound row (List.mem_of_mem_filter hrow)
    exact ⟨b, (hstanding b).2 hb, hrest⟩
  · intro b hb
    have hb := (hstanding b).1 hb
    obtain ⟨row, hrow, hid⟩ | ⟨earlier, hearlier, hlast⟩ := h.complete b hb
    · cases hkeep : keep row with
      | true => exact Or.inl ⟨row, List.mem_filter.2 ⟨hrow, hkeep⟩, hid⟩
      | false =>
        obtain ⟨c, hc, hid', -, hexpiry⟩ := h.sound row hrow
        obtain rfl := hdistinct.eq hc.mem hb.mem (hid'.trans hid)
        have hlast := hover row hrow hkeep
        rw [hexpiry] at hlast
        exact Or.inr ⟨event, List.mem_append_right _ List.mem_cons_self, hlast⟩
    · exact Or.inr ⟨earlier, List.mem_append_left _ hearlier, hlast⟩

/-- The row of a session that is ended goes. -/
theorem SessionsKept.finish {id : String} (h : SessionsKept login log rows)
    (hcall : event.call = .finish id) :
    SessionsKept login (log ++ [event]) (rows.filter (·.id ≠ id)) := by
  have hbegins : event.beginning? = none := by
    unfold LoginEvent.beginning?
    rw [hcall]
  have hstanding : ∀ b, Standing (log ++ [event]) b ↔ Standing log b ∧ b.id ≠ id := by
    intro b
    rw [standing_snoc, hbegins, hcall]
    simp [eq_comm]
  constructor
  · intro row hrow
    rw [List.mem_filter, decide_eq_true_eq] at hrow
    obtain ⟨b, hb, hid, hrest⟩ := h.sound row hrow.1
    exact ⟨b, (hstanding b).2 ⟨hb, hid ▸ hrow.2⟩, hid, hrest⟩
  · intro b hb
    obtain ⟨hb, hne⟩ := (hstanding b).1 hb
    obtain ⟨row, hrow, hid⟩ | ⟨earlier, hearlier, hlast⟩ := h.complete b hb
    · left
      refine ⟨row, List.mem_filter.2 ⟨hrow, ?_⟩, hid⟩
      rw [decide_eq_true_eq, hid]
      exact hne
    · exact Or.inr ⟨earlier, List.mem_append_left _ hearlier, hlast⟩

/-- The row of a session that begins comes. -/
theorem SessionsKept.begin {row : SessionRow} (h : SessionsKept login log rows)
    (hbegins : event.beginning? = some b) (hid : row.id = b.id) (huser : row.userId = b.user.id)
    (hexpiry : row.expiry = (login.due b.time).stored) :
    SessionsKept login (log ++ [event]) (rows ++ [row]) := by
  obtain ⟨tokens, session, hstart, -, -, -⟩ := beginning?_eq_some hbegins
  have hcall : ∀ id, event.call ≠ .finish id := by
    intro id hfinish
    rw [hstart] at hfinish
    cases hfinish
  have hstanding : ∀ c, Standing (log ++ [event]) c ↔ b = c ∨ Standing log c := by
    intro c
    rw [standing_snoc, hbegins, Option.some_inj]
    simp [hcall]
  constructor
  · intro other hother
    rw [List.mem_append, List.mem_singleton] at hother
    obtain hother | rfl := hother
    · obtain ⟨c, hc, hrest⟩ := h.sound other hother
      exact ⟨c, (hstanding c).2 (Or.inr hc), hrest⟩
    · exact ⟨b, (hstanding b).2 (Or.inl rfl), hid.symm, huser, hexpiry⟩
  · intro c hc
    obtain rfl | hc := (hstanding c).1 hc
    · exact Or.inl ⟨row, List.mem_append_right _ List.mem_cons_self, hid⟩
    · obtain ⟨other, hother, hsame⟩ | ⟨earlier, hearlier, hlast⟩ := h.complete c hc
      · exact Or.inl ⟨other, List.mem_append_left _ hother, hsame⟩
      · exact Or.inr ⟨earlier, List.mem_append_left _ hearlier, hlast⟩

/-! ## Tables that agree with a log -/

variable {known : List UserRow} {drawn : Nat}

/-- The rows of users and of sessions agree with a log: users are known as the log has it, sessions
are kept, and the ids of sessions are those that were drawn, one after the other. -/
structure Agrees (login : Login) (log : List LoginEvent) (known : List UserRow)
    (rows : List SessionRow) (drawn : Nat) : Prop where
  known : ∀ id, known.find? (·.id = id) = knownAs log id
  kept : SessionsKept login log rows
  ids : (beginnings log).map (·.id) = (List.range drawn).map login.sessionIds

theorem agrees_nil (login : Login) : Agrees login [] [] [] 0 := by
  refine ⟨fun _ => rfl, ⟨nofun, fun b hb => ?_⟩, rfl⟩
  exact absurd hb not_standing_nil

theorem Agrees.distinct (h : Agrees login log known rows drawn)
    (hids : Function.Injective login.sessionIds) : Distinct log := by
  unfold Distinct
  rw [h.ids]
  exact List.nodup_range.map hids

/-- The next id is new. -/
theorem Agrees.fresh (h : Agrees login log known rows drawn)
    (hids : Function.Injective login.sessionIds) :
    ∀ row ∈ rows, row.id ≠ login.sessionIds drawn := by
  intro row hrow hid
  obtain ⟨b, hb, hsame, -⟩ := h.kept.sound row hrow
  have hdrawn : b.id ∈ (beginnings log).map (·.id) := List.mem_map_of_mem hb.mem
  rw [h.ids, hsame, hid] at hdrawn
  obtain ⟨n, hn, heq⟩ := List.mem_map.1 hdrawn
  rw [hids heq, List.mem_range] at hn
  exact Nat.lt_irrefl _ hn

theorem Agrees.drop (h : Agrees login log known rows drawn)
    (hids : Function.Injective login.sessionIds) (hbegins : event.beginning? = none)
    (hcall : ∀ id, event.call ≠ .finish id) (keep : SessionRow → Bool)
    (hover : ∀ row ∈ rows, keep row = false → Timestamp.ofStored row.expiry ≤ event.time) :
    Agrees login (log ++ [event]) known (rows.filter keep) drawn where
  known id := by rw [knownAs_snoc_none hbegins, h.known]
  kept := h.kept.drop (h.distinct hids) hbegins hcall keep hover
  ids := by rw [beginnings_snoc_none hbegins, h.ids]

theorem Agrees.stay (h : Agrees login log known rows drawn)
    (hids : Function.Injective login.sessionIds) (hbegins : event.beginning? = none)
    (hcall : ∀ id, event.call ≠ .finish id) : Agrees login (log ++ [event]) known rows drawn := by
  have hall := h.drop hids hbegins hcall (fun _ => true) nofun
  rwa [List.filter_true] at hall

theorem Agrees.finish {id : String} (h : Agrees login log known rows drawn)
    (hcall : event.call = .finish id) :
    Agrees login (log ++ [event]) known (rows.filter (·.id ≠ id)) drawn := by
  have hbegins : event.beginning? = none := by
    unfold LoginEvent.beginning?
    rw [hcall]
  refine ⟨fun id => ?_, h.kept.finish hcall, ?_⟩
  · rw [knownAs_snoc_none hbegins, h.known]
  · rw [beginnings_snoc_none hbegins, h.ids]

theorem Agrees.begin {row : SessionRow} {known' : List UserRow}
    (h : Agrees login log known rows drawn) (hbegins : event.beginning? = some b)
    (hid : row.id = b.id) (huser : row.userId = b.user.id)
    (hexpiry : row.expiry = (login.due b.time).stored) (hdrawn : b.id = login.sessionIds drawn)
    (hsame : known'.find? (·.id = b.user.id) =
      some ⟨b.user.id, b.user.username, joinGroups b.user.groups, b.user.email,
        ((known.find? (·.id = b.user.id)).map (·.home)).getD b.user.home⟩)
    (hother : ∀ id, b.user.id ≠ id → known'.find? (·.id = id) = known.find? (·.id = id)) :
    Agrees login (log ++ [event]) known' (rows ++ [row]) (drawn + 1) := by
  refine ⟨fun id => ?_, h.kept.begin hbegins hid huser hexpiry, ?_⟩
  · by_cases hne : b.user.id = id
    · subst hne
      rw [hsame, knownAs_snoc_same hbegins, h.known]
    · rw [hother id hne, knownAs_snoc_other hbegins hne, h.known]
  · rw [beginnings_snoc_some hbegins, List.map_append, h.ids, List.range_succ, List.map_append]
    simp [hdrawn]

end Login

end FileDrive
