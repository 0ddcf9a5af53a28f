import FileDrive.Proofs.RecordTable

/-!
# Replacing records

The tables of files and records change by requests and by calls of their own (`TableCall`). Whatever
is called in whatever order, no two records are ever about one principal on one path
(`Handles.tabled`). Records on a path are replaced by others on that path only, and what becomes of
them is told by the list that was sent (`replacement_last_counts`).
-/

namespace FileDrive

open FileDrive.DriveM FileDrive.Time

/-- A call on the tables of files and records. -/
inductive TableCall where
  | putRecord (record : PermissionRecord)
  | deleteRecord (path : String) (kind : PrincipalKind) (principal : String)
  | deleteRecordsAt (path : String)
  | deleteRecordsFor (kind : PrincipalKind) (principal : String)
  | replaceRecords (path : String) (records : List PermissionRecord)
  | createFile (new : NewFile)
  | putFile (new : NewFile)
  | rename (way : Rename) (source target : String)
  | deleteFile (path : String)

namespace TableCall

variable {σ : Type} {db after : Database} {now : Timestamp}

/-- The metadata that a call prepares. -/
def prepare (now : Timestamp) (db : Database) : TableCall → Except DriveError Database
  | putRecord record => db.putRecord record
  | deleteRecord path kind principal => do return (← db.deleteRecord path kind principal).2
  | deleteRecordsAt path => do return (← db.deleteRecordsAt path).2
  | deleteRecordsFor kind principal => do return (← db.deleteRecordsFor kind principal).2
  | replaceRecords path records => db.replaceRecords path records
  | createFile new => do return (← db.createFile now new).2
  | putFile new => do return (← db.putFile now new).2
  | rename way source target => way.prepare now source target db
  | deleteFile path => db.deleteFile path

/-- Prepares a call, and puts it into effect if it is to be committed. -/
def transaction (call : TableCall) (committed : Bool) : DriveM σ Unit := do
  let now ← DriveM.now
  let db ← query (call.prepare now)
  if committed then commit db

theorem transaction_ends (call : TableCall) (committed : Bool) (drive : Drive σ) :
    (call.transaction committed).Ends drive fun _ after =>
      after.db = drive.db ∨ ∃ now, call.prepare now drive.db = .ok after.db := by
  unfold transaction
  refine Ends.now_bind ?_
  generalize drive.clock.next = now
  refine Ends.query_bind (fun e _ => Or.inl rfl) fun db hprepared => ?_
  cases committed with
  | true => exact Or.inr ⟨_, hprepared⟩
  | false => exact Or.inl rfl

end TableCall

/-- The tables are there, paths are keys of files, and paths with principals those of records. -/
structure Tabled (db : Database) : Prop where
  whole : db.Whole
  keyed : db.Keyed
  each : db.OneRecordEach

namespace Tabled

variable {db after : Database} {now : Timestamp}

theorem empty : Tabled Database.empty :=
  ⟨Database.whole_empty, Database.keyed_empty, Database.oneRecordEach_empty⟩

theorem changes (h : Tabled db) (hchanges : db.Changes after) : Tabled after :=
  ⟨hchanges.whole h.whole, hchanges.keyed h.keyed, hchanges.oneRecordEach h.each⟩

theorem permissionRows (h : Tabled db) :
    db.permissionRows = .ok (db.permissions.getD []) := by
  have hthere := h.whole.has .permissions
  obtain ⟨rows, hrows⟩ := Option.isSome_iff_exists.1 hthere
  rw [hrows]
  exact Database.permissionRows_eq_ok.2 ⟨h.whole.isOpen, hrows⟩

theorem withPermissions (h : Tabled db) {rows : List PermissionRow} (hrows : OnePerPrincipal rows) :
    Tabled (db.withPermissions rows) := ⟨h.whole.withPermissions rows, h.keyed, hrows⟩

theorem deleteRecordsWhere {test : PermissionRow → Bool} (h : Tabled db)
    (hafter : (do return (← db.deleteRecordsWhere test).2 : Except DriveError Database) =
      .ok after) : Tabled after := by
  unfold Database.deleteRecordsWhere at hafter
  rw [h.permissionRows] at hafter
  obtain rfl := Except.ok.inj hafter
  exact h.withPermissions (h.each.filter _)

theorem prepare (h : Tabled db) {call : TableCall} (hafter : call.prepare now db = .ok after) :
    Tabled after := by
  cases call with
  | putRecord record =>
    unfold TableCall.prepare Database.putRecord at hafter
    dsimp only at hafter
    rw [h.permissionRows] at hafter
    obtain rfl := Except.ok.inj hafter
    exact h.withPermissions (h.each.withRecord record)
  | deleteRecord path kind principal => exact h.deleteRecordsWhere hafter
  | deleteRecordsAt path => exact h.deleteRecordsWhere hafter
  | deleteRecordsFor kind principal => exact h.deleteRecordsWhere hafter
  | replaceRecords path records => exact h.changes (.replaced hafter)
  | createFile new =>
    obtain ⟨⟨file, found⟩, hcreated, hafter⟩ := bind_eq_ok.1 hafter
    obtain rfl := Except.ok.inj hafter
    exact h.changes (.created hcreated)
  | putFile new =>
    obtain ⟨⟨file, found⟩, hput, hafter⟩ := bind_eq_ok.1 hafter
    obtain rfl := Except.ok.inj hafter
    exact h.changes (.put hput)
  | rename way source target =>
    cases way with
    | move => exact h.changes (.moved hafter)
    | update size contentType description => exact h.changes (.updated hafter)
  | deleteFile path => exact h.changes (.deleted hafter)

end Tabled

namespace Service

variable {σ : Type} {service : Service σ} {stores : ObjectStore σ → Prop} {start drive : Drive σ}

/-- A drive comes from where it starts by requests to the file service, by calls about sessions and
by calls on the tables, some of which fail or are not committed. -/
inductive Handles (service : Service σ) (stores : ObjectStore σ → Prop) (start : Drive σ) :
    Drive σ → Prop where
  | start : Handles service stores start start
  | serve {drive after : Drive σ} {store : ObjectStore σ} {identity : Identity} {request : Request}
      {reply : Except DriveError Reply} (handles : Handles service stores start drive)
      (offered : stores store)
      (served : ((service.withStore store).serve identity request).on drive = (reply, after)) :
      Handles service stores start after
  | login {drive after : Drive σ} {login : Login} {call : LoginCall}
      {reply : Except DriveError LoginReply} (handles : Handles service stores start drive)
      (answered : (login.serve call).on drive = (reply, after)) :
      Handles service stores start after
  | call {drive after : Drive σ} {call : TableCall} {committed : Bool}
      {reply : Except DriveError Unit} (handles : Handles service stores start drive)
      (carriedOut : (call.transaction committed).on drive = (reply, after)) :
      Handles service stores start after

theorem Handles.tabled {objects : σ} {clock : Timestamp}
    (h : service.Handles stores (Drive.fresh objects clock) drive) : Tabled drive.db := by
  induction h with
  | start => exact .empty
  | @serve drive after store identity request reply _ _ served ih =>
    have hserved : Served (service.withStore store) identity drive request reply after :=
      (serve_ends (service.withStore store) identity request ih.keyed).of_on served
    exact hserved.preserves (fun hchanges h => h.changes hchanges)
      (fun h => ⟨h.whole.withShares _, h.keyed, h.each⟩) ih
  | @login drive after login call reply _ answered ih =>
    have haside : Login.Aside drive after := (Login.serve_ends login call drive).of_on answered
    refine ⟨haside.1.whole ih.whole, haside.1.keyed ih.keyed, ?_⟩
    rw [haside.1.rest]
    exact ih.each
  | @call drive after call committed reply _ carriedOut ih =>
    obtain hsame | ⟨now, hprepared⟩ := (call.transaction_ends committed drive).of_on carriedOut
    · rwa [hsame]
    · exact ih.prepare hprepared

/-! ## Replacing the records on a path -/

theorem authorize_of_permits {identity : Identity} {needed : Capability} {path : String}
    (h : service.resolver.Permits drive.db identity needed path) :
    (service.authorize identity needed path).on drive = (.ok (), drive) := by
  obtain ⟨held, hheld, hhas⟩ := h
  unfold authorize Service.held
  rw [on_bind, on_query, hheld]
  dsimp only
  rw [on_lift, require, if_pos hhas]

/-- Whoever may update permissions replaces the records and is answered with those that are there
then. -/
theorem setPermissions_on {identity : Identity} {path : String} (records : List PermissionRecord)
    (h : service.resolver.Permits drive.db identity .updatePermissions (Path.normalize path)) :
    (service.setPermissions identity path records).on drive =
      match drive.db.replaceRecords (Path.normalize path)
        (records.map fun record => { record with path := Path.normalize record.path }) with
      | .error e => (.error e, drive)
      | .ok db => (db.recordsAt (Path.normalize path), { drive with db }) := by
  unfold setPermissions DriveM.change
  dsimp only
  rw [on_bind, authorize_of_permits h]
  dsimp only
  rw [on_bind, on_bind, on_query]
  rcases drive.db.replaceRecords _ _ with e | db
  · rfl
  · dsimp only
    rw [on_commit]
    dsimp only
    rw [on_query]

/-- Records that all belong on a path replace those there. -/
theorem setPermissions_replaced {identity : Identity} {path : String}
    {records : List PermissionRecord} (h : Tabled drive.db)
    (hpermits : service.resolver.Permits drive.db identity .updatePermissions
      (Path.normalize path))
    (hbelong : ∀ record ∈ records, Path.normalize record.path = Path.normalize path) :
    ∃ returned rows, (service.setPermissions identity path records).on drive =
        (.ok returned, { drive with db := drive.db.withPermissions rows }) ∧
      (drive.db.withPermissions rows).recordsAt (Path.normalize path) = .ok returned ∧
      (returned.Pairwise fun a b =>
        a.kind.name < b.kind.name ∨ a.kind = b.kind ∧ a.principal < b.principal) ∧
      (∀ entry, entry ∈ returned ↔ ∃ record,
        records.reverse.find? (·.sharesPrincipal entry) = some record ∧ entry = record.stored) ∧
      ∀ other, other ≠ Path.normalize path →
        (drive.db.withPermissions rows).recordsAt other = drive.db.recordsAt other := by
  have hrows := h.permissionRows
  generalize drive.db.permissions.getD [] = rows at hrows
  generalize hsent : records.map (fun record =>
    { record with path := Path.normalize record.path }) = sent
  have hsame : ∀ record ∈ sent, record.path = Path.normalize path := by
    intro record hrecord
    rw [← hsent] at hrecord
    obtain ⟨old, hold, rfl⟩ := List.mem_map.1 hrecord
    exact hbelong old hold
  have hkept : ∀ row ∈ rows.filter (·.path ≠ Path.normalize path),
      row.path ≠ Path.normalize path := fun row hrow => of_decide_eq_true (List.mem_filter.1 hrow).2
  have hreplaced := Database.replaceRecords_of_rows hrows (Path.normalize path) sent
  rw [List.find?_eq_none.2 fun record hrecord => by simp [hsame record hrecord]] at hreplaced
  dsimp only at hreplaced
  have heach := ((h.each.of_rows hrows).filter (·.path ≠ Path.normalize path)).foldl_withRecord sent
  obtain ⟨returned, hreturned⟩ := Database.recordsAt_of_replaceRecords hreplaced
  have hafter := (h.withPermissions heach).permissionRows
  have hread := (Database.recordsAt_of_rows hafter _).symm.trans hreturned
  refine ⟨returned, _, ?_, hreturned, ?_, fun entry => ?_, fun other hother => ?_⟩
  · rw [setPermissions_on records hpermits, hsent, hreplaced]
    dsimp only
    rw [hreturned]
  · exact recordsOf_ordered hread (fun row hrow => of_decide_eq_true (List.mem_filter.1 hrow).2)
      (heach.filter _).unique
  · rw [Database.mem_of_replaceRecords hsame hkept hread, ← hsent, ← List.map_reverse,
      List.find?_map]
    constructor
    · rintro ⟨record, hlast, hentry⟩
      obtain ⟨old, hold, rfl⟩ := Option.map_eq_some_iff.1 hlast
      exact ⟨old, hold, hentry⟩
    · rintro ⟨old, hold, hentry⟩
      exact ⟨_, Option.map_eq_some_iff.2 ⟨old, hold, rfl⟩, hentry⟩
  · have hstray : ∀ record ∈ sent, record.path ≠ other :=
      fun record hrecord e => hother (e.symm.trans (hsame record hrecord))
    rw [Database.recordsAt_of_rows hafter, Database.recordsAt_of_rows hrows]
    congr 1
    refine (Database.filter_path_foldl_withRecord hstray).trans ?_
    rw [List.filter_filter]
    refine List.filter_congr fun row _ => ?_
    by_cases hat : row.path = other
    · simp [hat, hother]
    · simp [hat]

/-- However the tables have come about, no two records in them are about one principal on one path,
and everyone is one principal. Replacing the records on a path fails, and changes nothing, when one
of them belongs elsewhere. Otherwise there is then one record for each principal that the list names,
the last one about it, they are answered in the order of the principals, and nothing else changes. -/
theorem Handles.replacement_last_counts {objects : σ} {clock : Timestamp}
    (h : service.Handles stores (Drive.fresh objects clock) drive) :
    ((drive.db.permissions.getD []).map (·.key)).Nodup ∧
    (∀ row ∈ drive.db.permissions.getD [], row.kind = "everyone" → row.principal = "") ∧
    ∀ identity path (records : List PermissionRecord),
      service.resolver.Permits drive.db identity .updatePermissions (Path.normalize path) →
      (∀ stray, records.find? (Path.normalize ·.path ≠ Path.normalize path) = some stray →
        (service.setPermissions identity path records).on drive =
          (.error (.validation ("record for " ++ Path.normalize stray.path ++
            " does not belong to " ++ Path.normalize path)), drive)) ∧
      ((∀ record ∈ records, Path.normalize record.path = Path.normalize path) →
        ∃ returned rows, (service.setPermissions identity path records).on drive =
            (.ok returned, { drive with db := drive.db.withPermissions rows }) ∧
          (drive.db.withPermissions rows).recordsAt (Path.normalize path) = .ok returned ∧
          (returned.Pairwise fun a b =>
            a.kind.name < b.kind.name ∨ a.kind = b.kind ∧ a.principal < b.principal) ∧
          (∀ entry, entry ∈ returned ↔ ∃ record,
            records.reverse.find? (·.sharesPrincipal entry) = some record ∧
              entry = record.stored) ∧
          ∀ other, other ≠ Path.normalize path →
            (drive.db.withPermissions rows).recordsAt other = drive.db.recordsAt other) := by
  have htabled := h.tabled
  refine ⟨htabled.each.unique, htabled.each.everyone, fun identity path records hpermits =>
    ⟨fun stray hstray => ?_, setPermissions_replaced htabled hpermits⟩⟩
  rw [setPermissions_on records hpermits,
    Database.replaceRecords_of_rows htabled.permissionRows, List.find?_map, Function.comp_def]
  rw [hstray]
  rfl

/-- Everyone is named twice, under two names and two spellings of the path, and the second record
counts. -/
theorem replacement_last_counts_for_everyone :
    let reads : Permissions := .single .read
    let admin : Identity := ⟨"ann", "ann", ["admin"], "", "/", false⟩
    let records : List PermissionRecord := [⟨"/a", reads, .none, .everyone, "x"⟩,
      ⟨"/a", reads, .none, .user, "bob"⟩, ⟨"//a/.", .none, reads, .everyone, "y"⟩]
    let service : Service Tree := ⟨Directory.store, .enforcing "admin", 0, toString, fun _ => none⟩
    let call : TableCall := .putRecord ⟨"/a", reads, .none, .group, "staff"⟩
    let put := (call.transaction true).on (Drive.fresh Tree.empty .epoch)
    let replaced := (service.setPermissions admin "/a/" records).on put.2
    service.Handles (· = Directory.store) (Drive.fresh Tree.empty .epoch) put.2 ∧
      service.resolver.Permits put.2.db admin .updatePermissions (Path.normalize "/a/") ∧
      (∀ record ∈ records, Path.normalize record.path = Path.normalize "/a/") ∧
      ∃ returned, replaced.1 = .ok returned ∧
        ⟨"/a", .none, reads, .everyone, ""⟩ ∈ returned ∧
        ⟨"/a", reads, .none, .everyone, ""⟩ ∉ returned := by
  intro reads admin records service call put replaced
  have hstart : service.Handles (· = Directory.store) (Drive.fresh Tree.empty .epoch)
      (Drive.fresh Tree.empty .epoch) := .start
  have hput : service.Handles (· = Directory.store) (Drive.fresh Tree.empty .epoch) put.2 :=
    .call hstart (show (call.transaction true).on _ = (put.1, put.2) from rfl)
  have hpermits : service.resolver.Permits put.2.db admin .updatePermissions
      (Path.normalize "/a/") := by
    unfold Resolver.Permits
    refine of_toOption_map (x := service.resolver.onPath put.2.db (Path.normalize "/a/") admin)
      (f := fun held => held.has .updatePermissions) ?_
    decide +kernel
  have hbelong : ∀ record ∈ records, Path.normalize record.path = Path.normalize "/a/" := by
    decide +kernel
  obtain ⟨-, -, hsets⟩ := hput.replacement_last_counts
  obtain ⟨-, hreplaced⟩ := hsets admin "/a/" records hpermits
  obtain ⟨returned, rows, hon, -, -, hmem, -⟩ := hreplaced hbelong
  refine ⟨hput, hpermits, hbelong, returned, congrArg Prod.fst hon, ?_, ?_⟩
  · exact (hmem _).2 ⟨⟨"//a/.", .none, reads, .everyone, "y"⟩, by decide +kernel, by decide +kernel⟩
  · rw [hmem]
    rintro ⟨record, hlast, hentry⟩
    have hfound : records.reverse.find? (·.sharesPrincipal ⟨"/a", reads, .none, .everyone, ""⟩) =
        some ⟨"//a/.", .none, reads, .everyone, "y"⟩ := by decide +kernel
    obtain rfl := Option.some.inj (hfound.symm.trans hlast)
    exact absurd hentry (by decide +kernel)

end Service

end FileDrive
