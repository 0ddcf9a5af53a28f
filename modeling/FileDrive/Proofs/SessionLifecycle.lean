import FileDrive.Proofs.SessionCalls

/-!
# The life of a session

A session lives from its start until it is ended or its lifetime has passed (`Live`). While it
lives, and at no other time, it gives an identity, and that is the one that its user is known by
(`Logs.session_lifecycle`). When it is over is decided in two ways, by the time that is read back
when it is used and by comparing stored texts when sessions are swept. The two agree for years of
four digits, and for a session that is over in a later year both take it to be over all along
(`year_beyond_four_digits`); so sweeps make no difference.
-/

namespace FileDrive.Login

open FileDrive.DriveM FileDrive.Time

variable {σ : Type} {login : Login} {start drive drive' : Drive σ} {objects objects' : σ}
  {clock clock' time : Timestamp} {log log' : List LoginEvent} {b c : Beginning}

/-- A session with an id stands in a log and is not over at a time. It is over when its lifetime has
passed since its beginning, in whole microseconds. When that would be in a year of more than four
digits, it is over all along. -/
structure Live (login : Login) (log : List LoginEvent) (id : String) (now : Timestamp)
    (b : Beginning) : Prop where
  standing : Standing log b
  id : b.id = id
  before : now < (login.due b.time).truncated
  year : (login.due b.time).year ≤ 9999

/-- The identity of a user after a log: the home directory of the user's first start, and all else
from the latest one, with the groups as they are stored. -/
def IdentityIn (log : List LoginEvent) (id : String) (identity : Identity) : Prop :=
  ∃ first latest, (users log).find? (·.id = id) = some first ∧
    (users log).reverse.find? (·.id = id) = some latest ∧
    identity = ⟨id, latest.username, splitGroups (joinGroups latest.groups), latest.email,
      first.home, false⟩

/-! ## Runs -/

/-- The tables agree with the log all along. -/
theorem Logs.kept (h : login.Logs (Drive.fresh objects clock) log drive)
    (hids : Function.Injective login.sessionIds)
    (hlifetime : login.lifetime ≤ Settings.longestSession)
    (hclock : ∀ event ∈ log, event.time.OnClock) : Kept login log drive := by
  induction h with
  | start => exact kept_fresh login objects clock
  | @answer log drive after clock time call reply _ ticks later answered ih =>
    have hearlier : ∀ event ∈ log, event.time.OnClock := fun event hevent =>
      hclock event (List.mem_append_left _ hevent)
    have hnow : time.OnClock := hclock _ (List.mem_append_right _ List.mem_cons_self)
    have hserved := (ih hearlier).serve hids hlifetime hearlier ticks hnow later call
    rwa [answered] at hserved

theorem Logs.next (h : login.Logs start log drive) (ticks : clock.next = time)
    (later : ∀ event ∈ log, event.time < time) (call : LoginCall) :
    login.Logs start
      (log ++ [⟨time, call, ((login.serve call).on { drive with clock }).1⟩])
      ((login.serve call).on { drive with clock }).2 := .answer h ticks later rfl

/-- The call of an event in a log was answered after those before it. -/
theorem Logs.split {before after : List LoginEvent} {event : LoginEvent}
    (h : login.Logs start (before ++ event :: after) drive) :
    ∃ mid clock, login.Logs start before mid ∧ clock.next = event.time ∧
      (∀ earlier ∈ before, earlier.time < event.time) ∧
      ((login.serve event.call).on { mid with clock }).1 = event.reply := by
  generalize hlog : before ++ event :: after = log at h
  induction h generalizing after with
  | start => exact absurd hlog (by simp)
  | @answer log drive last clock time call reply logs ticks later answered ih =>
    rcases List.eq_nil_or_concat after with rfl | ⟨rest, final, rfl⟩
    · obtain ⟨rfl, hevent⟩ := List.append_inj' hlog rfl
      obtain rfl := List.head_eq_of_cons_eq hevent
      exact ⟨drive, clock, logs, ticks, later, by rw [answered]⟩
    · rw [List.concat_eq_append, ← List.cons_append, ← List.append_assoc] at hlog
      exact ih (List.append_inj' hlog rfl).1

/-! ## What sweeps leave -/

theorem eq_purge_of_not_lasts {event : LoginEvent} (h : event.lasts = false) :
    event.call = .purge := by
  unfold LoginEvent.lasts at h
  split at h
  · next hcall => exact hcall
  · cases h
  · cases h
  · cases h

theorem beginning?_of_not_lasts {event : LoginEvent} (h : event.lasts = false) :
    event.beginning? = none := by
  unfold LoginEvent.beginning?
  rw [eq_purge_of_not_lasts h]

theorem filter_lasts_snoc {event : LoginEvent} (h : event.lasts = true) :
    (log ++ [event]).filter (·.lasts) = log.filter (·.lasts) ++ [event] := by
  rw [List.filter_append, List.filter_cons_of_pos h, List.filter_nil]

theorem filter_lasts_sweep {event : LoginEvent} (h : event.lasts = false) :
    (log ++ [event]).filter (·.lasts) = log.filter (·.lasts) := by
  rw [List.filter_append, List.filter_cons_of_neg (by rw [h]; exact Bool.false_ne_true),
    List.filter_nil, List.append_nil]

/-- Sweeps begin no sessions. -/
theorem beginnings_filter (log : List LoginEvent) :
    beginnings (log.filter (·.lasts)) = beginnings log := by
  induction log using List.reverseRecOn with
  | nil => rfl
  | append_singleton log event ih =>
    cases hlasts : event.lasts with
    | true => rw [filter_lasts_snoc hlasts, beginnings_append, ih, ← beginnings_append]
    | false =>
      rw [filter_lasts_sweep hlasts, ih, beginnings_snoc_none (beginning?_of_not_lasts hlasts)]

/-- Sweeps end no sessions. -/
theorem standing_filter (log : List LoginEvent) (b : Beginning) :
    Standing (log.filter (·.lasts)) b ↔ Standing log b := by
  induction log using List.reverseRecOn with
  | nil => exact Iff.rfl
  | append_singleton log event ih =>
    cases hlasts : event.lasts with
    | true => rw [filter_lasts_snoc hlasts, standing_snoc, standing_snoc, ih]
    | false =>
      rw [filter_lasts_sweep hlasts, ih, standing_snoc, beginning?_of_not_lasts hlasts,
        eq_purge_of_not_lasts hlasts]
      simp

/-- What a call other than a sweep answers does not depend on the sweeps before it. -/
theorem Kept.serve_congr {time : Timestamp} {call : LoginCall} (h : Kept login log drive)
    (h' : Kept login log' drive') (hids : Function.Injective login.sessionIds)
    (hlifetime : login.lifetime ≤ Settings.longestSession)
    (hsame : log.filter (·.lasts) = log'.filter (·.lasts)) (ticks : clock.next = time)
    (ticks' : clock'.next = time) (hlater : ∀ event ∈ log, event.time < time)
    (hlater' : ∀ event ∈ log', event.time < time) (hcall : call ≠ .purge) :
    ((login.serve call).on { drive with clock }).1 =
      ((login.serve call).on { drive' with clock := clock' }).1 := by
  have hbegins : beginnings log = beginnings log' := by
    rw [← beginnings_filter log, hsame, beginnings_filter]
  have hstanding : ∀ b, Standing log b ↔ Standing log' b := by
    intro b
    rw [← standing_filter log, hsame, standing_filter]
  have hknown : ∀ id, knownAs log id = knownAs log' id := by
    intro id
    unfold knownAs users
    rw [hbegins]
  cases call with
  | start user tokens =>
    have hone := (h.start_ends clock hids hlifetime user tokens).1
    have htwo := (h'.start_ends clock' hids hlifetime user tokens).1
    rw [ticks] at hone
    rw [ticks'] at htwo
    unfold Login.serve
    rw [on_map, on_map, hone, htwo, hbegins]
  | identity id =>
    have hone := (h.identity_ends clock hids (by rwa [ticks]) id).1
    have htwo := (h'.identity_ends clock' hids (by rwa [ticks']) id).1
    rw [ticks] at hone
    rw [ticks'] at htwo
    unfold Login.serve
    rw [on_map, on_map]
    have hdistinct : Distinct log := by
      obtain ⟨_, _, -, hagrees⟩ := h
      exact hagrees.distinct hids
    obtain ⟨b, row, hb, hid, hlive, hrow, hone⟩ | ⟨hover, hone⟩ := hone <;>
      obtain ⟨c, row', hc, hid', hlive', hrow', htwo⟩ | ⟨hover', htwo⟩ := htwo
    · obtain rfl := hdistinct.eq hb.mem ((hstanding c).2 hc).mem (hid.trans hid'.symm)
      rw [hknown, hrow'] at hrow
      rw [hone, htwo, Option.some.inj hrow]
    · exact absurd hlive (hover' b ((hstanding b).1 hb) hid)
    · exact absurd hlive' (hover c ((hstanding c).2 hc) hid')
    · rw [hone, htwo]
  | finish id =>
    obtain ⟨_, _, hholds, -⟩ := h
    obtain ⟨_, _, hholds', -⟩ := h'
    have hone : ({ drive with clock } : Drive σ).db.Holds _ _ := hholds
    have htwo : ({ drive' with clock := clock' } : Drive σ).db.Holds _ _ := hholds'
    unfold Login.serve
    rw [on_map, on_map, finish_on hone, finish_on htwo]
  | purge => exact absurd rfl hcall

/-- Runs that differ in sweeps only have the same log but for those. -/
theorem Logs.filter_lasts_eq (h : login.Logs (Drive.fresh objects clock) log drive)
    (hids : Function.Injective login.sessionIds)
    (hlifetime : login.lifetime ≤ Settings.longestSession)
    (hclock : ∀ event ∈ log, event.time.OnClock)
    (h' : login.Logs (Drive.fresh objects' clock') log' drive')
    (hclock' : ∀ event ∈ log', event.time.OnClock)
    (hasked : (log.filter (·.lasts)).map (·.asked) = (log'.filter (·.lasts)).map (·.asked)) :
    log.filter (·.lasts) = log'.filter (·.lasts) := by
  induction h generalizing log' drive' with
  | start => exact (List.map_eq_nil_iff.1 hasked.symm).symm
  | @answer log drive after clock time call reply logs ticks later answered ih =>
    have hearlier : ∀ event ∈ log, event.time.OnClock := fun event hevent =>
      hclock event (List.mem_append_left _ hevent)
    cases hlasts : (⟨time, call, reply⟩ : LoginEvent).lasts with
    | false =>
      rw [filter_lasts_sweep hlasts] at hasked ⊢
      exact ih hearlier h' hclock' hasked
    | true =>
      rw [filter_lasts_snoc hlasts] at hasked ⊢
      -- The call is the last but sweeps in the other run as well.
      induction h' with
      | start =>
        rw [List.map_append] at hasked
        exact absurd hasked (by simp)
      | @answer log' drive' after' clock' time' call' reply' logs' ticks' later' answered' ih' =>
        have hearlier' : ∀ event ∈ log', event.time.OnClock := fun event hevent =>
          hclock' event (List.mem_append_left _ hevent)
        cases hlasts' : (⟨time', call', reply'⟩ : LoginEvent).lasts with
        | false =>
          rw [filter_lasts_sweep hlasts'] at hasked ⊢
          exact ih' hearlier' hasked
        | true =>
          rw [filter_lasts_snoc hlasts'] at hasked ⊢
          rw [List.map_append, List.map_append] at hasked
          obtain ⟨hbefore, hlast⟩ := List.append_inj' hasked rfl
          obtain ⟨rfl, rfl⟩ : time = time' ∧ call = call' :=
            Prod.mk.inj (List.head_eq_of_cons_eq hlast)
          have hcall : call ≠ .purge := by
            rintro rfl
            cases hlasts
          have hsame := ih hearlier logs' hearlier' hbefore
          have hreply := (logs.kept hids hlifetime hearlier).serve_congr
            (logs'.kept hids hlifetime hearlier') hids hlifetime hsame ticks ticks' later later'
            hcall
          rw [answered, answered'] at hreply
          obtain rfl : reply = reply' := hreply
          rw [hsame]

/-! ## What is answered -/

/-- A session that begins before some calls and stands after them stands before them. -/
theorem Standing.of_append {before more : List LoginEvent} (h : Standing (before ++ more) b)
    (hdistinct : Distinct (before ++ more)) (hb : b ∈ beginnings before) : Standing before b := by
  induction more using List.reverseRecOn with
  | nil => rwa [List.append_nil] at h
  | append_singleton more event ih =>
    rw [← List.append_assoc] at h hdistinct
    obtain hbegins | ⟨hstanding, -⟩ := standing_snoc.1 h
    · unfold Distinct at hdistinct
      rw [beginnings_snoc_some hbegins, List.map_append, List.nodup_append] at hdistinct
      have hmem : b ∈ beginnings (before ++ more) := by
        rw [beginnings_append]
        exact List.mem_append_left _ hb
      exact absurd rfl (hdistinct.2.2 b.id (List.mem_map_of_mem hmem) b.id (by simp))
    · exact ih hstanding hdistinct.of_append

variable {before between after : List LoginEvent} {id : String} {time' : Timestamp}
  {reply reply' : Except DriveError LoginReply}

/-- What is answered for a session: an identity while it lives, and an error at any other time. -/
theorem Logs.identity_reply
    (h : login.Logs (Drive.fresh objects clock)
      (before ++ ⟨time, .identity id, reply⟩ :: after) drive)
    (hids : Function.Injective login.sessionIds)
    (hlifetime : login.lifetime ≤ Settings.longestSession)
    (hclock : ∀ event ∈ before ++ ⟨time, .identity id, reply⟩ :: after, event.time.OnClock) :
    (∃ b identity, Live login before id time b ∧ IdentityIn before b.user.id identity ∧
        reply = .ok (.identity identity)) ∨
      (¬ ∃ b, Live login before id time b) ∧ reply = .error .sessionNotFound := by
  obtain ⟨mid, clock, hmid, ticks, hlater, hreply⟩ := h.split
  dsimp only at ticks hlater hreply
  have hearlier : ∀ event ∈ before, event.time.OnClock := fun event hevent =>
    hclock event (List.mem_append_left _ hevent)
  have hover : ∀ b, Standing before b →
      (time < Timestamp.ofStored (login.due b.time).stored ↔
        time < (login.due b.time).truncated ∧ (login.due b.time).year ≤ 9999) := by
    intro b hb
    obtain ⟨begun, hbegun, htime⟩ := time_of_mem hb.mem
    rw [← htime]
    exact lt_ofStored_due_iff hlifetime (hearlier begun hbegun) (hlater begun hbegun)
  have hends := ((hmid.kept hids hlifetime hearlier).identity_ends clock hids
    (by rwa [ticks]) id).1
  rw [ticks] at hends
  unfold Login.serve at hreply
  rw [on_map] at hreply
  obtain ⟨b, row, hb, hid, hlive, hrow, hone⟩ | ⟨hnone, hone⟩ := hends
  · left
    obtain ⟨first, hfirst⟩ := exists_first hb.mem
    obtain ⟨latest, hlatest, hknown⟩ := knownAs_of_first hfirst
    rw [hknown] at hrow
    obtain rfl := Option.some.inj hrow
    obtain ⟨hbefore, hyear⟩ := (hover b hb).1 hlive
    rw [hone] at hreply
    exact ⟨b, _, ⟨hb, hid, hbefore, hyear⟩, ⟨first, latest, hfirst, hlatest, rfl⟩, hreply.symm⟩
  · right
    rw [hone] at hreply
    refine ⟨?_, hreply.symm⟩
    rintro ⟨b, hb, hid, hbefore, hyear⟩
    exact hnone b hb hid ((hover b hb).2 ⟨hbefore, hyear⟩)

theorem Logs.distinct (h : login.Logs (Drive.fresh objects clock) log drive)
    (hids : Function.Injective login.sessionIds)
    (hlifetime : login.lifetime ≤ Settings.longestSession)
    (hclock : ∀ event ∈ log, event.time.OnClock) : Distinct log := by
  obtain ⟨_, _, -, hagrees⟩ := h.kept hids hlifetime hclock
  exact hagrees.distinct hids

/-- A session that does not live once it has begun never lives again. -/
theorem Live.of_later {event : LoginEvent} (h : Live login (before ++ event :: between) id time' b)
    (hdistinct : Distinct (before ++ event :: between))
    (hissued : id ∈ (beginnings before).map (·.id)) (hlater : time < time') :
    Live login before id time b := by
  obtain ⟨c, hc, hid⟩ := List.mem_map.1 hissued
  have hboth : c ∈ beginnings (before ++ event :: between) := by
    rw [beginnings_append]
    exact List.mem_append_left _ hc
  obtain rfl := hdistinct.eq hboth h.standing.mem (hid.trans h.id.symm)
  exact ⟨h.standing.of_append hdistinct hc, h.id, Timestamp.lt_trans hlater h.before, h.year⟩

theorem Live.eq (h : Live login log id time b) (h' : Live login log id time' c)
    (hdistinct : Distinct log) : b = c :=
  hdistinct.eq h.standing.mem h'.standing.mem (h.id.trans h'.id.symm)

/-- With ids that are new, a clock that goes on, and lifetimes of at most a year, a session gives an
identity exactly while it lives, and that identity is what is known of its user by then. Once it has
given none, it never does again. Sweeps make no difference to what any other call is answered. -/
theorem Logs.session_lifecycle (h : login.Logs (Drive.fresh objects clock) log drive)
    (hids : Function.Injective login.sessionIds)
    (hlifetime : login.lifetime ≤ Settings.longestSession)
    (hclock : ∀ event ∈ log, event.time.OnClock) :
    (∀ before time id reply after, log = before ++ ⟨time, .identity id, reply⟩ :: after →
      ((∃ identity, reply = .ok (.identity identity)) ↔ ∃ b, Live login before id time b) ∧
        (∀ b identity, Live login before id time b → reply = .ok (.identity identity) →
          IdentityIn before b.user.id identity) ∧
        (id ∈ (beginnings before).map (·.id) → (∃ e, reply = .error e) →
          ∀ later ∈ after, later.call = .identity id → ∃ e, later.reply = .error e)) ∧
      ∀ (objects' : σ) clock' log' drive', login.Logs (Drive.fresh objects' clock') log' drive' →
        (∀ event ∈ log', event.time.OnClock) →
        (log.filter (·.lasts)).map (·.asked) = (log'.filter (·.lasts)).map (·.asked) →
          log.filter (·.lasts) = log'.filter (·.lasts) := by
  refine ⟨?_, fun objects' clock' log' drive' h' => h.filter_lasts_eq hids hlifetime hclock h'⟩
  rintro before time id reply after rfl
  have hreply := h.identity_reply hids hlifetime hclock
  have hdistinct := h.distinct hids hlifetime hclock
  refine ⟨⟨?_, ?_⟩, ?_, ?_⟩
  · rintro ⟨identity, hok⟩
    obtain ⟨b, -, hlive, -⟩ | ⟨-, herror⟩ := hreply
    · exact ⟨b, hlive⟩
    · rw [hok] at herror
      cases herror
  · rintro ⟨b, hlive⟩
    obtain ⟨-, identity, -, -, hok⟩ | ⟨hnone, -⟩ := hreply
    · exact ⟨identity, hok⟩
    · exact absurd ⟨b, hlive⟩ hnone
  · intro b identity hlive hok
    obtain ⟨c, found, hlive', hidentity, hok'⟩ | ⟨-, herror⟩ := hreply
    · obtain rfl := hlive.eq hlive' hdistinct.of_append
      rw [hok'] at hok
      cases hok
      exact hidentity
    · rw [hok] at herror
      cases herror
  · rintro hissued ⟨e, herror⟩ later hlater hcall
    obtain ⟨between, rest, rfl⟩ := List.append_of_mem hlater
    obtain ⟨time', call, reply'⟩ := later
    dsimp only at hcall
    subst hcall
    rw [← List.cons_append, ← List.append_assoc] at h hclock hdistinct
    obtain ⟨-, -, -, -, hbefore, -⟩ := h.split
    obtain ⟨b, -, hlive, -⟩ | ⟨-, hnone⟩ := h.identity_reply hids hlifetime hclock
    · have hpast := hbefore _ (List.mem_append_right _ List.mem_cons_self)
      have hlived := hlive.of_later hdistinct.of_append hissued hpast
      obtain ⟨-, identity, -, -, hok⟩ | ⟨hdead, -⟩ := hreply
      · rw [hok] at herror
        cases herror
      · exact absurd ⟨b, hlived⟩ hdead
    · exact ⟨_, hnone⟩

/-- Ann starts a session of an hour, which outlives a sweep. -/
theorem session_lifecycle_of_hour :
    let login : Login := ⟨3600, fun n => String.ofList (List.replicate (n + 1) 's')⟩
    let ann : User := ⟨"u", "ann", ["staff"], "ann@mail", "/home/ann"⟩
    let begun := (login.serve (.start ann ⟨"", "", ""⟩)).on (Drive.fresh () ⟨0, 0⟩)
    let swept := (login.serve .purge).on { begun.2 with clock := ⟨60, 0⟩ }
    let used := (login.serve (.identity "s")).on { swept.2 with clock := ⟨120, 0⟩ }
    login.Logs (Drive.fresh () ⟨0, 0⟩) [⟨⟨0, 1000⟩, .start ann ⟨"", "", ""⟩, begun.1⟩,
        ⟨⟨60, 1000⟩, .purge, swept.1⟩, ⟨⟨120, 1000⟩, .identity "s", used.1⟩] used.2 ∧
      ∃ identity, used.1 = .ok (.identity identity) := by
  intro login ann begun swept used
  have hstart : login.Logs (Drive.fresh () ⟨0, 0⟩) [] (Drive.fresh () ⟨0, 0⟩) := .start
  have hbegun := hstart.next (show Timestamp.next ⟨0, 0⟩ = ⟨0, 1000⟩ by decide) nofun
    (.start ann ⟨"", "", ""⟩)
  have hswept := hbegun.next (show Timestamp.next ⟨60, 0⟩ = ⟨60, 1000⟩ by decide)
    (by decide +kernel) .purge
  have hused := hswept.next (show Timestamp.next ⟨120, 0⟩ = ⟨120, 1000⟩ by decide)
    (by decide +kernel) (.identity "s")
  have hids : Function.Injective login.sessionIds := by
    intro n m h
    have hlength := congrArg String.length h
    simpa [login] using hlength
  have htimes : ∀ time ∈ [(⟨0, 1000⟩ : Timestamp), ⟨60, 1000⟩, ⟨120, 1000⟩],
      time.nanos < nanosPerSecond ∧ 0 ≤ time.year := by decide
  have hclock : ∀ event ∈ [(⟨⟨0, 1000⟩, .start ann ⟨"", "", ""⟩, begun.1⟩ : LoginEvent),
      ⟨⟨60, 1000⟩, .purge, swept.1⟩, ⟨⟨120, 1000⟩, .identity "s", used.1⟩],
      event.time.OnClock := by
    intro event hevent
    obtain ⟨hnanos, hyear⟩ := htimes event.time (List.mem_map_of_mem hevent)
    exact ⟨hnanos, hyear⟩
  refine ⟨hused, ?_⟩
  obtain ⟨holds, -⟩ := Logs.session_lifecycle hused hids (by decide) hclock
  obtain ⟨hlives, -⟩ := holds [⟨⟨0, 1000⟩, .start ann ⟨"", "", ""⟩, begun.1⟩,
    ⟨⟨60, 1000⟩, .purge, swept.1⟩] _ _ _ [] rfl
  have hbegins : (⟨⟨0, 1000⟩, .start ann ⟨"", "", ""⟩, begun.1⟩ : LoginEvent).beginning? =
      some ⟨"s", ann, ⟨0, 1000⟩⟩ := by decide +kernel
  refine hlives.2 ⟨⟨"s", ann, ⟨0, 1000⟩⟩, ⟨[], _, _, rfl, hbegins, ?_⟩, rfl, by decide, by decide⟩
  intro later hlater
  rw [List.mem_singleton.1 hlater]
  exact nofun

/-- Where a year has not four digits, what is stored of a session is not read back. A session that
is over in the year 10000 gives no identity before that, and one that was over in the year -1 gives
one after that. -/
theorem year_beyond_four_digits :
    let login : Login := ⟨3600, fun n => String.ofList (List.replicate (n + 1) 's')⟩
    let ann : User := ⟨"u", "ann", ["staff"], "ann@mail", "/home/ann"⟩
    let begun (seconds : Int) :=
      (login.serve (.start ann ⟨"", "", ""⟩)).on (Drive.fresh () ⟨seconds, 0⟩)
    let used (seconds later : Int) :=
      (login.serve (.identity "s")).on { (begun seconds).2 with clock := ⟨later, 0⟩ }
    let first (seconds : Int) : LoginEvent :=
      ⟨⟨seconds, 1000⟩, .start ann ⟨"", "", ""⟩, (begun seconds).1⟩
    let last (seconds later : Int) : LoginEvent :=
      ⟨⟨later, 1000⟩, .identity "s", (used seconds later).1⟩
    (login.Logs (Drive.fresh () ⟨253402300740, 0⟩)
        [first 253402300740, last 253402300740 253402300770] (used 253402300740 253402300770).2 ∧
      Standing [first 253402300740] ⟨"s", ann, ⟨253402300740, 1000⟩⟩ ∧
      (⟨253402300770, 1000⟩ : Timestamp) < (login.due ⟨253402300740, 1000⟩).truncated ∧
      (used 253402300740 253402300770).1.toOption.isNone = true) ∧
    login.Logs (Drive.fresh () ⟨-62167305600, 0⟩)
        [first (-62167305600), last (-62167305600) (-62167298400)]
        (used (-62167305600) (-62167298400)).2 ∧
      Standing [first (-62167305600)] ⟨"s", ann, ⟨-62167305600, 1000⟩⟩ ∧
      (login.due ⟨-62167305600, 1000⟩).truncated ≤ (⟨-62167298400, 1000⟩ : Timestamp) ∧
      (used (-62167305600) (-62167298400)).1.toOption.isSome = true := by
  intro login ann begun used first last
  have hlogs : ∀ seconds later : Int, Timestamp.next ⟨seconds, 0⟩ = ⟨seconds, 1000⟩ →
      Timestamp.next ⟨later, 0⟩ = ⟨later, 1000⟩ → seconds < later →
        login.Logs (Drive.fresh () ⟨seconds, 0⟩) [first seconds, last seconds later]
          (used seconds later).2 := by
    intro seconds later hticks hticks' hlater
    have hstart : login.Logs _ [] (Drive.fresh () ⟨seconds, 0⟩) := .start
    have hbegun : login.Logs _ ([] ++ [first seconds]) (begun seconds).2 :=
      hstart.next hticks nofun (.start ann ⟨"", "", ""⟩)
    have hpast : ∀ event ∈ [first seconds], event.time < ⟨later, 1000⟩ := by
      intro event hevent
      rw [List.mem_singleton.1 hevent]
      exact Or.inl hlater
    exact hbegun.next hticks' hpast (.identity "s")
  have hstanding : ∀ seconds, (first seconds).beginning? = some ⟨"s", ann, ⟨seconds, 1000⟩⟩ →
      Standing [first seconds] ⟨"s", ann, ⟨seconds, 1000⟩⟩ := fun seconds hbegins =>
    ⟨[], _, [], rfl, hbegins, nofun⟩
  refine ⟨⟨hlogs _ _ ?_ ?_ ?_, hstanding _ ?_, ?_, ?_⟩, hlogs _ _ ?_ ?_ ?_, hstanding _ ?_, ?_, ?_⟩
  all_goals decide +kernel

end FileDrive.Login
