import FileDrive.Proofs.ClockProgress
import FileDrive.Proofs.Consistency
import FileDrive.Proofs.OrderedMetadata
import Mathlib.Data.Option.Basic

/-!
# The lives of files

From what requests were answered with it can be told which file is where: one begins when it is
created, and goes on through overwriting, changes and moves until it is deleted (`Event.trace`).
What is known of a file that began at some time, and stays known when its row is revised at a later
one, is known all its life (`Lasting`, `Lasts.traced`).
-/

namespace FileDrive

open FileDrive.DriveM FileDrive.Time

variable {α : Type}

/-! ## Following files -/

/-- What is known of files when the file at one path has been changed and is at another. -/
def carried (change : α → α) (files : String → Option α) (source target : String) :
    String → Option α :=
  Function.update (Function.update files source none) target ((files source).map change)

/-- What is known of the file at each path after an event. Of a file that is created it is what was
`born`, and of one that was there it is what `change` makes of what was known before. -/
def Event.trace (born : Identity → File → α) (change : α → α) (files : String → Option α)
    (event : Event) : String → Option α :=
  match event.request, event.reply with
  | .create request, .ok (.file file) =>
    let path := Path.normalize request.path
    Function.update files path (some (((files path).map change).getD (born event.identity file)))
  | .update path request, .ok _ =>
    carried change files (Path.normalize path) (request.target (Path.normalize path))
  | .move source target _, .ok (.report report) =>
    report.succeeded.foldl (fun files path => carried change files
      ((Path.rebase path (Path.normalize target) (Path.normalize source)).getD path) path) files
  | .delete _ _, .ok (.report report) =>
    report.succeeded.foldl (fun files path => Function.update files path none) files
  | _, _ => files

theorem Event.trace_of_reads {request : Request} (h : request.reads = true)
    (born : Identity → File → α) (change : α → α) (identity : Identity)
    (reply : Except DriveError Reply) (files : String → Option α) :
    trace born change files ⟨identity, request, reply⟩ = files := by
  cases request with
  | effective | list | download | recordsAt | openShare | downloadShared | listShares => rfl
  | create | update | move | delete | setRecords | createShare | deleteShare => cases h

/-- Where a file is known there is a row, of which `R` is so, and nowhere else. -/
def Known (R : α → FileRow → Prop) (files : String → Option α) (rows : String → Option FileRow) :
    Prop := ∀ path, Option.Rel R (files path) (rows path)

namespace Known

variable {R S : α → FileRow → Prop} {files : String → Option α} {rows : String → Option FileRow}
  {path : String} {row : FileRow} {known : α}

theorem none : Known R (fun _ => none) fun _ => none := fun _ => .none

theorem mono (h : Known R files rows) (le : ∀ known row, R known row → S known row) :
    Known S files rows := by
  intro path
  have hrel := h path
  generalize files path = file at hrel
  generalize rows path = row at hrel
  cases hrel with
  | some hrow => exact .some (le _ _ hrow)
  | none => exact .none

theorem put (h : Known R files rows) (path : String) (hrow : R known row) :
    Known R (Function.update files path (some known)) (Function.update rows path (some row)) := by
  intro other
  by_cases he : other = path
  · rw [he, Function.update_self, Function.update_self]
    exact .some hrow
  · rw [Function.update_of_ne he, Function.update_of_ne he]
    exact h other

theorem erase (h : Known R files rows) (path : String) :
    Known R (Function.update files path .none) (Function.update rows path .none) := by
  intro other
  by_cases he : other = path
  · rw [he, Function.update_self, Function.update_self]
    exact .none
  · rw [Function.update_of_ne he, Function.update_of_ne he]
    exact h other

theorem of_row (h : Known R files rows) (hrow : rows path = some row) :
    ∃ known, files path = some known ∧ R known row := by
  have hrel := h path
  rw [hrow] at hrel
  generalize hfile : files path = file at hrel
  cases hrel with
  | some hknown => exact ⟨_, rfl, hknown⟩

theorem of_none (h : Known R files rows) (hrow : rows path = .none) : files path = .none := by
  have hrel := h path
  rw [hrow] at hrel
  generalize hfile : files path = file at hrel
  cases hrel with
  | none => rfl

end Known

/-! ## What lasts -/

/-- A row as it is revised at some time: it keeps its owner and the time it was created. -/
structure FileRow.Revised (now : Timestamp) (row after : FileRow) : Prop where
  owner : after.ownerId = row.ownerId
  created : after.createdAt = row.createdAt
  updated : after.updatedAt = now.stored

/-- A row as it is created at some time for an owner, when the file is what is answered. -/
structure FileRow.Begun (now : Timestamp) (owner : String) (file : File) (row : FileRow) :
    Prop where
  owner : row.ownerId = owner
  created : row.createdAt = now.stored
  updated : row.updatedAt = now.stored
  answered : file.createdAt = Timestamp.ofStored row.createdAt

theorem FileRow.createdAt_file (row : FileRow) (users : List UserRow) :
    (row.file users).createdAt = Timestamp.ofStored row.createdAt := rfl

/-- What is known of a file by some time is known of it from its beginning, which is not before the
first time there is, through every change, for good. -/
structure Lasting (first : Timestamp) (R : Timestamp → α → FileRow → Prop)
    (born : Identity → File → α) (change : α → α) : Prop where
  later : ∀ {t u known row}, t.Precedes u → R t known row → R u known row
  begun : ∀ {t identity file row}, first.Precedes t → row.Begun t identity.subject file →
    R t (born identity file) row
  revised : ∀ {t u known row after}, t.Ticks u → row.Revised u after → R t known row →
    R u (change known) after

namespace Database

variable {db after : Database} {now : Timestamp} {new : NewFile} {file : File}

theorem file_of_createFile (h : db.createFile now new = .ok (file, after)) :
    after.file new.path = .ok file := by
  obtain ⟨rows, -, h⟩ := bind_eq_ok.1 h
  dsimp only at h
  split at h
  case isTrue => exact absurd h throw_bind_ne_ok
  case isFalse =>
    obtain ⟨found, hfound, h⟩ := bind_eq_ok.1 h
    obtain ⟨rfl, rfl⟩ := Prod.mk.inj (Except.ok.inj h)
    exact hfound

theorem file_of_putFile (h : db.putFile now new = .ok (file, after)) :
    after.file new.path = .ok file := by
  obtain ⟨rows, -, h⟩ := bind_eq_ok.1 h
  obtain ⟨found, hfound, h⟩ := bind_eq_ok.1 h
  obtain ⟨rfl, rfl⟩ := Prod.mk.inj (Except.ok.inj h)
  exact hfound

theorem begun_ofNew (users : List UserRow) :
    (FileRow.ofNew new now).Begun now new.ownerId ((FileRow.ofNew new now).file users) := by
  constructor
  · rfl
  · rfl
  · rfl
  · exact FileRow.createdAt_file _ _

theorem begun_of_createFile (h : db.createFile now new = .ok (file, after)) :
    (FileRow.ofNew new now).Begun now new.ownerId file := by
  obtain ⟨users, row, -, hrow, rfl⟩ := file_eq_ok (file_of_createFile h)
  rw [(createFile_becomes h).2.rowAt, Function.update_self] at hrow
  obtain rfl := Option.some.inj hrow
  exact begun_ofNew users

theorem begun_of_putFile (h : db.putFile now new = .ok (file, after))
    (hfree : db.rowAt new.path = none) : (FileRow.ofNew new now).Begun now new.ownerId file := by
  obtain ⟨users, row, -, hrow, rfl⟩ := file_eq_ok (file_of_putFile h)
  rw [(putFile_becomes h).rowAt, Function.update_self, hfree] at hrow
  obtain rfl := Option.some.inj hrow
  exact begun_ofNew users

theorem revised_replacedRow (row : FileRow) : row.Revised now (replacedRow new now row) :=
  ⟨rfl, rfl, rfl⟩

theorem revised_updatedRow {newPath contentType description : String} {size : Int} (row : FileRow) :
    row.Revised now (updatedRow now newPath size contentType description row) := by
  obtain ⟨howner, hcreated⟩ := updatedRow_keeps
  refine ⟨howner, hcreated, ?_⟩
  unfold updatedRow
  split_ifs
  · rfl
  · rfl

theorem revised_movedRow (newPath : String) (row : FileRow) :
    row.Revised now (movedRow now newPath row) := ⟨rfl, rfl, rfl⟩

end Database

namespace Service

variable {σ : Type} {service : Service σ} {identity : Identity} {drive after : Drive σ}
  {first : Timestamp} {R : Timestamp → α → FileRow → Prop} {born : Identity → File → α}
  {change : α → α} {files : String → Option α} {path source target : String}

/-- Creating puts a row at the path that has begun now, or revises the one that is there. -/
theorem row_of_prepared {request : CreateRequest} {contentType : String} {now : Timestamp}
    {file : File} {db after : Database}
    (h : (if request.overwrite then db.putFile now (newFile identity request contentType)
      else db.createFile now (newFile identity request contentType)) = .ok (file, after)) :
    ∃ row,
      after.rowAt = Function.update db.rowAt (Path.normalize request.path) (some row) ∧
        ((db.rowAt (Path.normalize request.path) = none ∧ row.Begun now identity.subject file) ∨
          ∃ old, db.rowAt (Path.normalize request.path) = some old ∧ old.Revised now row) := by
  split at h
  case isTrue =>
    have hbecomes := Database.putFile_becomes h
    have hbegun := Database.begun_of_putFile h
    refine ⟨_, hbecomes.rowAt, ?_⟩
    change db.rowAt (Path.normalize request.path) = none → _ at hbegun
    change (_ ∧ FileRow.Begun _ _ _ (((db.rowAt (Path.normalize request.path)).map _).getD _)) ∨
      ∃ old, _ ∧ FileRow.Revised _ _ (((db.rowAt (Path.normalize request.path)).map _).getD _)
    cases hrow : db.rowAt (Path.normalize request.path) with
    | none => exact Or.inl ⟨rfl, hbegun hrow⟩
    | some old => exact Or.inr ⟨old, rfl, Database.revised_replacedRow old⟩
  case isFalse =>
    obtain ⟨hfree, hbecomes⟩ := Database.createFile_becomes h
    exact ⟨_, hbecomes.rowAt, Or.inl ⟨hfree, Database.begun_of_createFile h⟩⟩

/-- What is known of the files of a drive by the time that its clock shows. -/
structure Traced (first : Timestamp) (R : Timestamp → α → FileRow → Prop)
    (files : String → Option α) (drive : Drive σ) : Prop where
  clock : first.Precedes drive.clock
  known : Known (R drive.clock) files drive.db.rowAt

theorem Traced.later (hR : Lasting first R born change) (h : Traced first R files drive)
    (hclock : drive.clock.Precedes after.clock) (hrows : after.db.rowAt = drive.db.rowAt) :
    Traced first R files after := by
  refine ⟨h.clock.trans hclock, ?_⟩
  rw [hrows]
  exact h.known.mono fun _ _ => hR.later hclock

theorem traced_of_created (hR : Lasting first R born change) {request : CreateRequest}
    {result : Except DriveError File} (h : Created service identity request drive result after)
    (hclock : drive.clock.Precedes after.clock) (ht : Traced first R files drive) :
    Traced first R (Event.trace born change files ⟨identity, .create request, result.map .file⟩)
      after := by
  have hticks := Timestamp.Ticks.next drive.clock
  cases h with
  | refused e clock => exact ht.later hR hclock rfl
  | unstored =>
    generalize drive.clock.next = now at *
    exact ht.later hR hclock rfl
  | @stored _ _ file db objects _ _ _ _ _ prepared _ =>
    generalize drive.clock.next = now at *
    obtain ⟨row, hrows, hcase⟩ := row_of_prepared prepared
    have hnow := ht.clock.trans hclock
    refine ⟨hnow, ?_⟩
    show Known (R now) (Function.update files (Path.normalize request.path) (some
      (((files (Path.normalize request.path)).map change).getD (born identity file)))) db.rowAt
    rw [hrows]
    apply (ht.known.mono fun _ _ => hR.later hclock).put
    obtain ⟨hfree, hbegun⟩ | ⟨old, hold, hrevised⟩ := hcase
    · rw [ht.known.of_none hfree]
      exact hR.begun hnow hbegun
    · obtain ⟨known, hfile, hR'⟩ := ht.known.of_row hold
      rw [hfile]
      exact hR.revised hticks hrevised hR'

/-- A file is revised and carried to another path. -/
theorem Traced.carry (hR : Lasting first R born change) (h : Traced first R files drive)
    {row new : FileRow} {now : Timestamp} (hticks : drive.clock.Ticks now)
    (hrow : drive.db.rowAt source = some row) (hrevised : row.Revised now new) (target : String) :
    Known (R now) (carried change files source target)
      (Function.update (Function.update drive.db.rowAt source none) target (some new)) := by
  have hknown := h.known.mono fun _ _ => hR.later hticks.toPrecedes
  obtain ⟨known, hfile, hR'⟩ := h.known.of_row hrow
  unfold carried
  rw [hfile]
  apply (hknown.erase source).put
  exact hR.revised hticks hrevised hR'

theorem traced_of_updated (hR : Lasting first R born change) {request : UpdateRequest}
    {result : Except DriveError File}
    (h : Updated service identity (Path.normalize path) request drive result after)
    (hclock : drive.clock.Precedes after.clock) (ht : Traced first R files drive) :
    Traced first R
      (Event.trace born change files ⟨identity, .update path request, result.map .file⟩) after := by
  have hticks := Timestamp.Ticks.next drive.clock
  cases h with
  | refused e clock => exact ht.later hR hclock rfl
  | uncarried =>
    generalize drive.clock.next = now at *
    exact ht.later hR hclock rfl
  | changed _ _ _ _ prepared _ =>
    generalize drive.clock.next = now at *
    obtain ⟨row, hrow, -, hbecomes⟩ := Database.updateFile_becomes prepared
    refine ⟨ht.clock.trans hclock, ?_⟩
    dsimp only
    rw [hbecomes.rowAt]
    exact ht.carry hR hticks hrow (Database.revised_updatedRow row) _

theorem traced_of_moved (hR : Lasting first R born change) {granted : Prop}
    {result : Except DriveError Unit} (h : Moved service granted source target drive result after)
    (hclock : drive.clock.Precedes after.clock) (ht : Traced first R files drive) :
    Traced first R
      (match result with
        | .ok _ => carried change files source target
        | .error _ => files) after := by
  have hticks := Timestamp.Ticks.next drive.clock
  cases h with
  | refused e clock => exact ht.later hR hclock rfl
  | unmoved =>
    dsimp only at hclock ⊢
    generalize drive.clock.next = now at hticks hclock ⊢
    exact ht.later hR hclock rfl
  | moved _ _ prepared _ =>
    dsimp only at hclock ⊢
    generalize drive.clock.next = now at hticks hclock prepared ⊢
    obtain ⟨row, hrow, -, hbecomes⟩ := Database.moveFile_becomes prepared
    refine ⟨ht.clock.trans hclock, ?_⟩
    dsimp only
    rw [hbecomes.rowAt]
    exact ht.carry hR hticks hrow (Database.revised_movedRow target row) _

theorem traced_of_removed (hR : Lasting first R born change) {granted : Prop}
    {result : Except DriveError Unit} (h : Removed service granted path drive result after)
    (ht : Traced first R files drive) :
    Traced first R
      (match result with
        | .ok _ => Function.update files path none
        | .error _ => files) after := by
  cases h with
  | refused => exact ht
  | undeleted => exact ht.later hR (.refl _) rfl
  | removed _ prepared _ _ =>
    obtain ⟨-, hbecomes⟩ := Database.deleteFile_becomes prepared
    refine ⟨ht.clock, ?_⟩
    dsimp only
    rw [hbecomes.rowAt]
    exact ht.known.erase path

/-! ## Many files -/

theorem movePath_traced (hR : Lasting first R born change) (hordered : Ordered drive.db)
    (names : Option (List String)) (ht : Traced first R files drive) :
    (service.movePath identity source target names).Ends drive fun result after =>
      Traced first R
        (Event.trace born change files ⟨identity, .move source target names, result.map .report⟩)
        after := by
  have hcanonical := Path.canonical_normalize source
  have hcanonical' := Path.canonical_normalize target
  have hitem : ∀ item (drive : Drive σ), (service.moveItem item).Ends drive fun result after =>
      Moved service (item.heldSource.has .update = true ∧ item.heldTarget.has .create = true)
        item.source item.target drive result after ∧ drive.clock.Precedes after.clock :=
    fun item drive => ⟨moveItem_ends item, service.moveItem_advances item drive⟩
  apply Ends.movePath names hordered.keyed hitem
  · intro e
    exact ht
  · intro _ _
    have hone : (service.moveOne identity (Path.normalize source) (Path.normalize target)).Ends
        drive fun result after =>
          Moved service
            (service.resolver.Permits drive.db identity .update (Path.normalize source) ∧
              service.resolver.Permits drive.db identity .create (Path.normalize target))
            (Path.normalize source) (Path.normalize target) drive result after ∧
              drive.clock.Precedes after.clock :=
      ⟨moveOne_ends _ _, service.moveOne_advances identity _ _ drive⟩
    refine hone.mono fun result after hafter => ?_
    have hmoved := traced_of_moved hR hafter.1 hafter.2 ht
    cases result with
    | error e => exact hmoved
    | ok _ =>
      dsimp only [Event.trace, Except.map, List.foldl]
      rwa [Path.rebase_self, Option.getD_some]
  · intro items report after _ hoffered _ hbatch
    refine hbatch.tracks (I := Traced first R) (fun item hitem c drive mid hc hone => ?_)
      (fun item _ c drive mid e hc hone => ?_) ht
    · obtain ⟨row, hrow⟩ := (hoffered item hitem).row
      have hadmissible := hordered.shaped.admissible _ row hrow
      rw [(hoffered item hitem).rebase_back hadmissible hcanonical hcanonical', Option.getD_some]
      exact traced_of_moved hR hone.1 hone.2 hc
    · exact traced_of_moved hR hone.1 hone.2 hc

theorem traced_of_pathDeleted (hR : Lasting first R born change) {names : Option (List String)}
    {result : Except DriveError BatchReport}
    (h : PathDeleted service identity (Path.normalize path) drive result after)
    (ht : Traced first R files drive) :
    Traced first R
      (Event.trace born change files ⟨identity, .delete path names, result.map .report⟩) after := by
  cases h with
  | refused => exact ht
  | @single result _ removed =>
    have hremoved := traced_of_removed hR removed ht
    cases result with
    | error e => exact hremoved
    | ok _ => exact hremoved
  | batch _ batch =>
    refine batch.tracks (I := Traced first R) (fun item _ c drive mid hc hone => ?_)
      (fun item _ c drive mid e hc hone => ?_) ht
    · exact traced_of_removed hR hone hc
    · exact traced_of_removed hR hone hc

/-! ## Runs -/

/-- Requests that move nothing go on with what is known. -/
theorem Served.traced (hR : Lasting first R born change) {request : Request}
    {reply : Except DriveError Reply} (h : Served service identity drive request reply after)
    (hstays : ∀ source target names, request ≠ .move source target names)
    (hclock : drive.clock.Precedes after.clock) (ht : Traced first R files drive) :
    Traced first R (Event.trace born change files ⟨identity, request, reply⟩) after := by
  cases h with
  | looked looks looked =>
    rw [Event.trace_of_reads looks]
    cases looked with
    | unasked => exact ht
    | asked => exact ht.later hR hclock rfl
  | created created => exact traced_of_created hR created hclock ht
  | updated updated => exact traced_of_updated hR updated hclock ht
  | moved => exact absurd rfl (hstays _ _ _)
  | deleted deleted => exact traced_of_pathDeleted hR deleted ht
  | recordsSet set =>
    cases set with
    | refused => exact ht
    | replaced _ prepared =>
      exact ht.later hR hclock (Database.replaceRecords_becomes prepared).rowAt
  | shareIssued issued =>
    cases issued with
    | refused => exact ht.later hR hclock rfl
    | issued _ _ prepared =>
      obtain rfl := Database.createShare_eq_ok prepared
      exact ht.later hR hclock rfl
  | shareTaken taken =>
    cases taken with
    | refused => exact ht
    | taken prepared =>
      obtain rfl := Database.deleteShare_eq_ok prepared
      exact ht.later hR hclock rfl

theorem serve_traced (service : Service σ) (identity : Identity) (request : Request)
    (hR : Lasting first R born change) (hordered : Ordered drive.db)
    (ht : Traced first R files drive) :
    (service.serve identity request).Ends drive fun reply after =>
      Traced first R (Event.trace born change files ⟨identity, request, reply⟩) after := by
  by_cases hmoves : ∃ source target names, request = .move source target names
  · obtain ⟨source, target, names, rfl⟩ := hmoves
    exact Ends.map (movePath_traced hR hordered names ht)
  · have hserved := serve_ends service identity request hordered.keyed
    refine hserved.traced hR ?_ (service.serve_advances identity request drive) ht
    intro source target names hmove
    exact hmoves ⟨source, target, names, hmove⟩

/-- A drive comes from where it starts while time goes by, by requests to the file service, each of
which finds a store of its own, and by calls about sessions. The history has the requests. -/
inductive Lasts (service : Service σ) (start : Drive σ) : List Event → Drive σ → Prop where
  | start : Lasts service start [] start
  | serve {history : List Event} {drive after : Drive σ} {store : ObjectStore σ}
      {identity : Identity} {request : Request} {reply : Except DriveError Reply}
      (lasted : Lasts service start history drive)
      (served : ((service.withStore store).serve identity request).on drive = (reply, after)) :
      Lasts service start (history ++ [⟨identity, request, reply⟩]) after
  | login {history : List Event} {drive after : Drive σ} {login : Login} {call : LoginCall}
      {reply : Except DriveError LoginReply} (lasted : Lasts service start history drive)
      (answered : (login.serve call).on drive = (reply, after)) :
      Lasts service start history after
  | wait {history : List Event} {drive : Drive σ} {clock : Timestamp}
      (lasted : Lasts service start history drive) (later : drive.clock.Precedes clock) :
      Lasts service start history { drive with clock }

variable {start : Drive σ} {history : List Event}

theorem Lasts.next (lasted : service.Lasts start history drive) (store : ObjectStore σ)
    (identity : Identity) (request : Request) :
    service.Lasts start
      (history ++
        [⟨identity, request, (((service.withStore store).serve identity request).on drive).1⟩])
      (((service.withStore store).serve identity request).on drive).2 :=
  .serve lasted rfl

theorem Lasts.ordered (h : service.Lasts start history drive) (hstart : Ordered start.db) :
    Ordered drive.db := by
  induction h with
  | start => exact hstart
  | @serve _ drive after store identity request reply _ served ih =>
    exact ih.served ((serve_ends (service.withStore store) identity request ih.keyed).of_on served)
  | @login _ drive after login call _ _ answered ih =>
    exact ih.aside ((Login.serve_ends login call drive).of_on answered)
  | wait _ _ ih => exact ih

theorem Lasts.precedes (h : service.Lasts start history drive) :
    start.clock.Precedes drive.clock := by
  induction h with
  | start => exact .refl _
  | @serve _ drive after store identity request reply _ served ih =>
    have hclock := (service.withStore store).serve_advances identity request drive
    exact ih.trans (hclock.of_on served)
  | @login _ drive after login call _ _ answered ih =>
    exact ih.trans ((login.serve_advances call drive).of_on answered)
  | wait _ later ih => exact ih.trans later

/-- What lasts is known of the files of a drive all along, by following its history. -/
theorem Lasts.traced (hR : Lasting first R born change) (h : service.Lasts start history drive)
    (hstart : Ordered start.db) (ht : Traced first R files start) :
    Traced first R (history.foldl (Event.trace born change) files) drive := by
  induction h with
  | start => exact ht
  | @serve history drive after store identity request reply lasted served ih =>
    have hends :=
      serve_traced (service.withStore store) identity request hR (lasted.ordered hstart) ih
    rw [List.foldl_append]
    exact hends.of_on served
  | @login _ drive after login call _ _ answered ih =>
    have haside := (Login.serve_ends login call drive).of_on answered
    have hclock := login.serve_advances call drive
    exact ih.later hR (hclock.of_on answered) haside.1.rowAt
  | wait _ later ih => exact ih.later hR later rfl

end Service

end FileDrive
