import FileDrive.Login
import FileDrive.Proofs.TreeShape

/-!
# Runs with logins

Beside the requests to the file service there are the calls that begin, use, end and sweep sessions.
Through them users come to be known. They leave files, records, shares and objects alone
(`Database.Beside`), so what requests keep in order stays in order in runs with both
(`Service.Evolves`).
-/

namespace FileDrive

open FileDrive.DriveM FileDrive.Time

/-- What can be asked of logins. -/
inductive LoginCall where
  | start (user : User) (tokens : ProviderTokens)
  | identity (id : String)
  | finish (id : String)
  | purge

/-- What a call that went well is answered with. -/
inductive LoginReply where
  | session (session : Session)
  | identity (identity : Identity)
  | done
  | purged (count : Nat)

/-- Carries out a call. -/
def Login.serve {σ : Type} (login : Login) : LoginCall → DriveM σ LoginReply
  | .start user tokens => .session <$> login.start user tokens
  | .identity id => .identity <$> Login.identity id
  | .finish id => (fun _ => .done) <$> finish id
  | .purge => .purged <$> purge

namespace Database

/-- `after` is `db` with other users and other sessions. -/
structure Beside (db after : Database) : Prop where
  rest : after = { db with users := after.users, sessions := after.sessions }
  whole : db.Whole → after.Whole

variable {db mid after : Database}

theorem Beside.refl (db : Database) : db.Beside db := ⟨rfl, id⟩

theorem Beside.trans (h : db.Beside mid) (k : mid.Beside after) : db.Beside after := by
  refine ⟨?_, k.whole ∘ h.whole⟩
  rw [k.rest, h.rest]

theorem Beside.rowAt (h : db.Beside after) : after.rowAt = db.rowAt := by rw [h.rest]; rfl

theorem Beside.keyed (h : db.Beside after) (hk : db.Keyed) : after.Keyed := by rw [h.rest]; exact hk

theorem Beside.legible (h : db.Beside after) (hl : db.Legible) : after.Legible := by
  rw [h.rest]
  exact hl

theorem Beside.share (h : db.Beside after) (id : String) : after.share id = db.share id := by
  rw [h.rest]
  rfl

theorem putUser_beside {user : User} (h : db.putUser user = .ok after) : db.Beside after := by
  obtain ⟨rows, -, h⟩ := bind_eq_ok.1 h
  obtain rfl := Except.ok.inj h
  exact ⟨rfl, fun hw => hw.withUsers _⟩

theorem createSession_beside {session found : Session}
    (h : db.createSession session = .ok (found, after)) : db.Beside after := by
  obtain ⟨mid, hmid, h⟩ := bind_eq_ok.1 h
  obtain ⟨_, -, h⟩ := bind_eq_ok.1 h
  obtain ⟨-, rfl⟩ := Prod.mk.inj (Except.ok.inj h)
  obtain ⟨rows, -, hmid⟩ := bind_eq_ok.1 hmid
  obtain ⟨rows', -, hmid⟩ := bind_eq_ok.1 hmid
  obtain rfl := Except.ok.inj hmid
  exact ⟨rfl, fun hw => hw.withSessions _⟩

theorem deleteSession_beside {id : String} (h : db.deleteSession id = .ok after) :
    db.Beside after := by
  obtain ⟨rows, -, h⟩ := bind_eq_ok.1 h
  obtain rfl := Except.ok.inj h
  exact ⟨rfl, fun hw => hw.withSessions _⟩

theorem deleteExpired_beside {now : Timestamp} {count : Nat}
    (h : db.deleteExpired now = .ok (count, after)) : db.Beside after := by
  obtain ⟨rows, -, h⟩ := bind_eq_ok.1 h
  obtain ⟨-, rfl⟩ := Prod.mk.inj (Except.ok.inj h)
  exact ⟨rfl, fun hw => hw.withSessions _⟩

end Database

namespace Login

variable {σ : Type} {login : Login} {drive : Drive σ}

/-- A call leaves the objects, and of the metadata all but users and sessions. -/
def Aside (drive after : Drive σ) : Prop :=
  drive.db.Beside after.db ∧ after.objects = drive.objects

theorem Aside.refl (drive : Drive σ) : Aside drive drive := ⟨.refl _, rfl⟩

theorem Aside.trans {mid after : Drive σ} (h : Aside drive mid) (k : Aside mid after) :
    Aside drive after := ⟨h.1.trans k.1, k.2.trans h.2⟩

/-- The clock goes on. -/
theorem Aside.tick (drive : Drive σ) (clock : Timestamp) : Aside drive { drive with clock } :=
  ⟨.refl _, rfl⟩

theorem Aside.commit {db : Database} (h : drive.db.Beside db) (clock : Timestamp) (drawn : Nat) :
    Aside drive { drive with db, clock, drawn } := ⟨h, rfl⟩

theorem finish_ends (id : String) (drive : Drive σ) :
    (finish id : DriveM σ Unit).Ends drive fun _ after => Aside drive after := by
  unfold finish DriveM.change
  refine Ends.query_bind (fun e _ => .refl drive) fun db hprepared => ?_
  exact ⟨Database.deleteSession_beside hprepared, rfl⟩

theorem expiry_ends (login : Login) (drive : Drive σ) :
    login.expiry.Ends drive fun _ after => ∃ clock, after = { drive with clock } := by
  unfold expiry
  apply Ends.guard
  · intro _
    exact ⟨drive.clock, rfl⟩
  · intro _
    apply Ends.now_bind
    generalize drive.clock.next = clock
    split <;> exact ⟨clock, rfl⟩

theorem start_ends (login : Login) (user : User) (tokens : ProviderTokens) (drive : Drive σ) :
    (login.start user tokens).Ends drive fun _ after => Aside drive after := by
  unfold start
  refine Ends.bind ((expiry_ends login drive).mono fun result after hafter => ?_)
  obtain ⟨clock, rfl⟩ := hafter
  cases result with
  | error e => exact .tick drive clock
  | ok expiry =>
    refine Ends.change_bind (fun e _ => .tick drive clock) fun db hprepared => ?_
    have hput := Database.putUser_beside hprepared
    apply Ends.draw_bind
    apply Ends.query_bind
    · intro e _
      exact .commit hput clock (drive.drawn + 1)
    · intro found hfound
      exact .commit (hput.trans (Database.createSession_beside hfound)) clock (drive.drawn + 1)

theorem identity_ends (id : String) (drive : Drive σ) :
    (identity id).Ends drive fun _ after => Aside drive after := by
  unfold identity
  refine Ends.query_bind (fun e _ => .refl drive) fun session _ => Ends.now_bind ?_
  generalize drive.clock.next = clock
  -- Whatever the reason, taking the session out is all that is done.
  have hfinished : ∀ e : DriveError, (do finish id; throw e : DriveM σ Identity).Ends
      { drive with clock } fun _ after => Aside drive after := by
    intro e
    refine Ends.bind ((finish_ends id _).mono fun result last hlast => ?_)
    cases result <;> exact (Aside.tick drive clock).trans hlast
  by_cases hexpired : session.isExpired clock = true
  · rw [if_pos hexpired]
    exact hfinished _
  · rw [if_neg hexpired]
    refine Ends.get_bind ?_
    dsimp only
    split
    · exact .tick drive clock
    · exact hfinished _
    · exact .tick drive clock

theorem purge_ends (drive : Drive σ) :
    (purge : DriveM σ Nat).Ends drive fun _ after => Aside drive after := by
  unfold purge
  refine Ends.now_bind ?_
  generalize drive.clock.next = clock
  refine Ends.query_bind (fun e _ => .tick drive clock) fun found hfound => ?_
  exact ⟨Database.deleteExpired_beside hfound, rfl⟩

theorem serve_ends (login : Login) (call : LoginCall) (drive : Drive σ) :
    (login.serve call).Ends drive fun _ after => Aside drive after := by
  cases call with
  | start user tokens => exact Ends.map (start_ends login user tokens drive)
  | identity id => exact Ends.map (identity_ends id drive)
  | finish id => exact Ends.map (finish_ends id drive)
  | purge => exact Ends.map (purge_ends drive)

end Login

namespace Service

variable {σ : Type} {service : Service σ} {stores : ObjectStore σ → Prop} {start drive : Drive σ}
  {history : List Event}

/-- A drive comes from where it starts by requests to the file service, each of which finds one of
some stores, and by calls about sessions. The history has the requests. -/
inductive Evolves (service : Service σ) (stores : ObjectStore σ → Prop) (start : Drive σ) :
    List Event → Drive σ → Prop where
  | start : Evolves service stores start [] start
  | serve {history : List Event} {drive after : Drive σ} {store : ObjectStore σ}
      {identity : Identity} {request : Request} {reply : Except DriveError Reply}
      (evolved : Evolves service stores start history drive) (offered : stores store)
      (served : ((service.withStore store).serve identity request).on drive = (reply, after)) :
      Evolves service stores start (history ++ [⟨identity, request, reply⟩]) after
  | login {history : List Event} {drive after : Drive σ} {login : Login} {call : LoginCall}
      {reply : Except DriveError LoginReply}
      (evolved : Evolves service stores start history drive)
      (answered : (login.serve call).on drive = (reply, after)) :
      Evolves service stores start history after

theorem Evolves.next {store : ObjectStore σ} (evolved : service.Evolves stores start history drive)
    (offered : stores store) (identity : Identity) (request : Request) :
    service.Evolves stores start
      (history ++
        [⟨identity, request, (((service.withStore store).serve identity request).on drive).1⟩])
      (((service.withStore store).serve identity request).on drive).2 :=
  .serve evolved offered rfl

theorem Evolves.asked (evolved : service.Evolves stores start history drive) (login : Login)
    (call : LoginCall) :
    service.Evolves stores start history ((login.serve call).on drive).2 := .login evolved rfl

/-- What holds at the start, after every request and after every call holds all along. -/
theorem Evolves.invariant {I : List Event → Drive σ → Prop}
    (h : service.Evolves stores start history drive) (hkeyed : start.db.Keyed) (hstart : I [] start)
    (serve : ∀ {history drive store identity request reply after}, stores store → drive.db.Keyed →
      I history drive → Served (service.withStore store) identity drive request reply after →
        I (history ++ [⟨identity, request, reply⟩]) after)
    (call : ∀ {history drive after}, I history drive → Login.Aside drive after →
      I history after) :
    drive.db.Keyed ∧ I history drive := by
  induction h with
  | start => exact ⟨hkeyed, hstart⟩
  | @serve history drive after store identity request reply evolved offered served ih =>
    obtain ⟨hk, hinv⟩ := ih
    have hserved : Served (service.withStore store) identity drive request reply after :=
      (serve_ends (service.withStore store) identity request hk).of_on served
    exact ⟨hserved.preserves Database.Changes.keyed id hk, serve offered hk hinv hserved⟩
  | @login history drive after login asked reply evolved answered ih =>
    have haside : Login.Aside drive after := (Login.serve_ends login asked drive).of_on answered
    obtain ⟨hk, hinv⟩ := ih
    exact ⟨haside.1.keyed hk, call hinv haside⟩

/-- What is in order about the metadata of every state of a drive: every table is there, paths are
keys, records are legible, and files fit together. -/
structure Ordered (db : Database) : Prop where
  whole : db.Whole
  keyed : db.Keyed
  legible : db.Legible
  shaped : Shaped (fun _ => True) db.rowAt

theorem Ordered.served {identity : Identity} {request : Request} {reply : Except DriveError Reply}
    {after : Drive σ} (h : Ordered drive.db)
    (served : Served service identity drive request reply after) : Ordered after.db where
  whole := served.preserves Database.Changes.whole (fun hw => hw.withShares _) h.whole
  keyed := served.preserves Database.Changes.keyed id h.keyed
  legible := served.preserves Database.Changes.legible id h.legible
  shaped := served.shaped h.shaped fun _ _ _ _ => trivial

theorem Ordered.aside {after : Drive σ} (h : Ordered drive.db) (aside : Login.Aside drive after) :
    Ordered after.db where
  whole := aside.1.whole h.whole
  keyed := aside.1.keyed h.keyed
  legible := aside.1.legible h.legible
  shaped := aside.1.rowAt ▸ h.shaped

theorem ordered_empty : Ordered Database.empty :=
  ⟨Database.whole_empty, Database.keyed_empty, Database.legible_empty,
    Database.rowAt_empty ▸ Shaped.empty⟩

theorem Evolves.ordered_of (h : service.Evolves stores start history drive)
    (hstart : Ordered start.db) : Ordered drive.db := by
  refine (h.invariant hstart.keyed (I := fun _ drive => Ordered drive.db) hstart ?_ ?_).2
  · intro history drive store identity request reply after _ _ ih hserved
    exact ih.served hserved
  · intro history drive after ih haside
    exact ih.aside haside

theorem Evolves.ordered {objects : σ} {clock : Timestamp}
    (h : service.Evolves stores (Drive.fresh objects clock) history drive) : Ordered drive.db :=
  h.ordered_of ordered_empty

/-- Stored paths have no other characters than the paths in requests. -/
theorem Evolves.shaped {objects : σ} {clock : Timestamp} {allowed : Char → Prop}
    (h : service.Evolves stores (Drive.fresh objects clock) history drive)
    (hchars : ∀ event ∈ history, ∀ path ∈ event.request.paths, ∀ c ∈ path.toList, allowed c) :
    Shaped allowed drive.db.rowAt := by
  refine (h.invariant Database.keyed_empty
    (I := fun history drive =>
      (∀ event ∈ history, ∀ path ∈ event.request.paths, ∀ c ∈ path.toList, allowed c) →
        Shaped allowed drive.db.rowAt) (fun _ => ?_) ?_ ?_).2 hchars
  · exact Database.rowAt_empty ▸ Shaped.empty
  · intro history drive store identity request reply after _ _ ih hserved hall
    refine hserved.shaped (ih fun event hevent => hall event (List.mem_append_left _ hevent)) ?_
    exact hall _ (List.mem_append_right _ List.mem_cons_self)
  · intro history drive after ih haside hall
    exact haside.1.rowAt ▸ ih hall

end Service

end FileDrive
