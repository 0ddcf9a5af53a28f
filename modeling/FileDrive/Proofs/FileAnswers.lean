import FileDrive.Proofs.HiddenFiles
import FileDrive.Proofs.Resolution
import FileDrive.Web.Router

/-!
# Answers to requests for a path

A request for a path is answered with the file there, if the caller may read it, and otherwise with
the listing of the path (`getPath_answer`). Whatever keeps the metadata from telling which of the
two it is keeps them from making the listing too (`list_of_unheld`, `list_of_unknown`), and the
answer does not tell one failure of the metadata from another.
-/

namespace FileDrive

open FileDrive.DriveM

/-! ## Failures of the metadata -/

/-- A reading of the metadata that fails only as the database does. -/
def FailsAsDatabase {α : Type} (result : Except DriveError α) : Prop :=
  ∀ e, result = .error e → ∃ detail, e = .database detail

namespace FailsAsDatabase

variable {α β : Type}

theorem ok (a : α) : FailsAsDatabase (.ok a) := nofun

theorem database (detail : String) : FailsAsDatabase (.error (.database detail) : Except _ α) := by
  rintro e ⟨⟩
  exact ⟨detail, rfl⟩

theorem bind {result : Except DriveError α} {next : α → Except DriveError β}
    (h : FailsAsDatabase result) (hnext : ∀ a, FailsAsDatabase (next a)) :
    FailsAsDatabase (result >>= next) := by
  cases result with
  | ok a => exact hnext a
  | error e =>
    rintro e' ⟨⟩
    exact h e rfl

end FailsAsDatabase

namespace Database

theorem rowsOf_fails {α : Type} (db : Database) (table : Table) (rows : Option (List α)) :
    FailsAsDatabase (db.rowsOf table rows) := by
  unfold rowsOf
  split
  · split
    · exact .ok _
    · exact .database _
  · exact .database _

theorem file?_fails (db : Database) (path : String) : FailsAsDatabase (db.file? path) :=
  .bind (.bind (db.rowsOf_fails _ _) fun _ => .bind (db.rowsOf_fails _ _) fun _ => .ok _)
    fun _ => .ok _

theorem filesAt_fails (db : Database) (path : String) : FailsAsDatabase (db.filesAt path) := by
  refine .bind (db.file?_fails path) fun found => ?_
  cases found with
  | some file => exact .ok _
  | none =>
    exact .bind (.bind (db.rowsOf_fails _ _) fun _ => .bind (db.rowsOf_fails _ _) fun _ => .ok _)
      fun _ => .ok _

theorem recordsOf_fails (rows : List PermissionRow) : FailsAsDatabase (recordsOf rows) := by
  unfold recordsOf
  cases (rows.mergeSort rowOrder).mapM PermissionRow.record with
  | ok records => exact .ok _
  | error detail => exact .database _

theorem recordsOn_fails (db : Database) (paths : List String) :
    FailsAsDatabase (db.recordsOn paths) := by
  unfold recordsOn
  split
  · exact .ok _
  · exact .bind (db.rowsOf_fails _ _) fun _ => recordsOf_fails _

end Database

namespace Resolver

variable (resolver : Resolver) (db : Database) (identity : Identity)

theorem onPath_fails (path : String) : FailsAsDatabase (resolver.onPath db path identity) := by
  unfold onPath
  split
  · exact .ok _
  · refine .bind (.bind (db.rowsOf_fails _ _) fun _ => .ok _) fun owner => ?_
    split
    · exact .ok _
    · exact .bind (db.recordsOn_fails _) fun _ => .ok _

theorem onFiles_fails (files : List File) :
    FailsAsDatabase (resolver.onFiles db files identity) := by
  unfold onFiles
  split
  · exact .ok _
  · exact .bind (db.recordsOn_fails _) fun _ => .ok _

end Resolver

/-! ## What a listing reads -/

/-- The chain of a directory is part of that of each path stored below it. -/
theorem Path.ancestors_of_isStoredBelow {path dir : String}
    (h : Database.isStoredBelow path dir = true) : ∀ a ∈ ancestors dir, a ∈ ancestors path := by
  have hsegments : segments dir <+: segments path := by
    unfold Database.isStoredBelow stem at h
    rw [Bool.and_eq_true, List.isPrefixOf_iff_prefix] at h
    obtain ⟨-, tail, htail⟩ := h
    split at htail
    · next hroot =>
      subst hroot
      exact List.nil_prefix
    · rw [String.toList_append] at htail
      unfold segments
      rw [← htail, List.append_assoc]
      show _ <+: List.filter _ (Text.pieces '/' (dir.toList ++ '/' :: tail))
      rw [Text.pieces_append_sep, List.filter_append]
      exact List.prefix_append _ _
  intro a ha
  obtain ⟨pre, hpre, rfl⟩ := mem_ancestors.1 ha
  exact mem_ancestors.2 ⟨pre, hpre.trans hsegments, rfl⟩

/-- Each file that is found for a path has the chain of the path in its own. -/
theorem Database.ancestors_of_filesAt {db : Database} {path : String} {files : List File}
    (h : db.filesAt path = .ok files) :
    ∀ file ∈ files, ∀ a ∈ Path.ancestors path, a ∈ Path.ancestors file.path := by
  intro file hfile
  obtain ⟨users, -, ⟨row, hrow, rfl⟩ | ⟨-, hperm⟩⟩ := filesAt_eq_ok h
  · obtain rfl := List.mem_singleton.1 hfile
    rw [FileRow.path_file, path_of_rowAt hrow]
    exact fun a ha => ha
  · obtain ⟨row, hrow, rfl⟩ := List.mem_map.1 (hperm.mem_iff.1 hfile)
    rw [FileRow.path_file]
    exact Path.ancestors_of_isStoredBelow (List.mem_filter.1 hrow).2

/-- When what is held on the files found for a path can be read, so can what is held on the path. -/
theorem Resolver.exists_onPath {resolver : Resolver} {db : Database} {identity : Identity}
    {path : String} {files : List File} {permitted : List (File × Permissions)}
    (hfiles : db.filesAt path = .ok files) (hne : files ≠ [])
    (h : resolver.onFiles db files identity = .ok permitted) :
    ∃ held, resolver.onPath db path identity = .ok held := by
  by_cases hadmin : resolver.isAdmin identity = true
  · exact ⟨.all, onPath_of_admin hadmin⟩
  · unfold onFiles at h
    rw [if_neg hadmin] at h
    obtain ⟨records, hrecords, -⟩ := bind_eq_ok.1 h
    obtain ⟨file, hfile⟩ := List.exists_mem_of_ne_nil files hne
    have hsub : ∀ a ∈ Path.ancestors path, a ∈ chains (files.map (·.path)) := fun a ha =>
      mem_chains.2 ⟨file.path, List.mem_map_of_mem hfile,
        Database.ancestors_of_filesAt hfiles file hfile a ha⟩
    have hchains : chains (files.map (·.path)) ≠ [] :=
      List.ne_nil_of_mem (hsub Path.root (Path.root_mem_ancestors path))
    obtain ⟨found, hfound, -⟩ :=
      Database.recordsOn_of_subset hchains (ancestors_ne_nil path) hsub hrecords
    obtain ⟨rows, hrows⟩ := Database.fileRows_of_filesAt hfiles
    exact ⟨_, onPath_eq hrows hfound⟩

namespace Service

variable {σ : Type} {service : Service σ} {drive : Drive σ} {identity : Identity} {path : String}

theorem list_normalize (service : Service σ) (identity : Identity) (path : String) :
    service.list identity (Path.normalize path) = service.list identity path := by
  unfold list
  rw [Path.normalize_normalize]

/-- A path is not listed when it cannot be told what the caller holds on it. -/
theorem list_of_unheld {e : DriveError} (hroot : Path.normalize path ≠ Path.root)
    (h : service.resolver.onPath drive.db (Path.normalize path) identity = .error e) :
    ∃ detail, (service.list identity path).on drive = (.error (.database detail), drive) := by
  unfold list
  rw [on_bind, on_query]
  cases hfiles : drive.db.filesAt (Path.normalize path) with
  | error e' =>
    obtain ⟨detail, rfl⟩ := drive.db.filesAt_fails _ e' hfiles
    exact ⟨detail, rfl⟩
  | ok files =>
    dsimp only
    cases files with
    | nil =>
      obtain ⟨detail, rfl⟩ := service.resolver.onPath_fails _ _ _ e h
      rw [if_pos ⟨rfl, hroot⟩]
      unfold authorize held
      rw [on_bind, on_bind, on_query, h]
      exact ⟨detail, rfl⟩
    | cons file files =>
      rw [if_neg (by simp), on_bind, on_query]
      cases hpermitted : service.resolver.onFiles drive.db (file :: files) identity with
      | error e' =>
        obtain ⟨detail, rfl⟩ := service.resolver.onFiles_fails _ _ _ e' hpermitted
        exact ⟨detail, rfl⟩
      | ok permitted =>
        obtain ⟨held, hheld⟩ := Resolver.exists_onPath hfiles (List.cons_ne_nil _ _) hpermitted
        rw [hheld] at h
        cases h

/-- A path is not listed when it cannot be told whether there is a file. -/
theorem list_of_unknown (service : Service σ) (identity : Identity) {e : DriveError}
    (h : drive.db.file? (Path.normalize path) = .error e) :
    ∃ detail, (service.list identity path).on drive = (.error (.database detail), drive) := by
  obtain ⟨detail, rfl⟩ := drive.db.file?_fails _ e h
  have hfiles : drive.db.filesAt (Path.normalize path) = .error (.database detail) := by
    unfold Database.filesAt
    rw [h]
    rfl
  unfold list
  rw [on_bind, on_query, hfiles]
  exact ⟨detail, rfl⟩

/-- A file is stored at a path, and somebody may read it. -/
def MayRead (service : Service σ) (identity : Identity) (db : Database) (path : String)
    (file : File) : Prop :=
  service.resolver.Permits db identity .read path ∧ db.file path = .ok file

/-- Why somebody does not get to the file at a path. -/
inductive Missed (service : Service σ) (identity : Identity) (drive : Drive σ) (path : String) :
    DriveError → Prop where
  | missing : Missed service identity drive path (.fileNotFound path)
  | denied : Missed service identity drive path (.unauthorized path .read)
  /-- The metadata fail, and fail the listing of the path too. -/
  | broken {detail other : String}
      (unlisted : (service.list identity path).on drive = (.error (.database other), drive)) :
      Missed service identity drive path (.database detail)

theorem Missed.of_file {e : DriveError} (h : drive.db.file (Path.normalize path) = .error e) :
    Missed service identity drive (Path.normalize path) e := by
  unfold Database.file at h
  cases hfound : drive.db.file? (Path.normalize path) with
  | error e' =>
    obtain ⟨other, hother⟩ := service.list_of_unknown identity hfound
    obtain ⟨detail, rfl⟩ := drive.db.file?_fails _ e' hfound
    rw [hfound] at h
    cases h
    rw [← list_normalize] at hother
    exact .broken hother
  | ok found =>
    rw [hfound] at h
    cases found with
    | some file => cases h
    | none =>
      cases h
      exact .missing

/-- A download of a path opens the file that the caller may read there, or there is none. -/
theorem download_cases (service : Service σ) (identity : Identity) (drive : Drive σ)
    (hroot : Path.normalize path ≠ Path.root) (header : Option String) :
    (∃ file, service.MayRead identity drive.db (Path.normalize path) file ∧
      (service.download identity path header).on drive = (service.openFile file header).on drive) ∨
    (¬ ∃ file, service.MayRead identity drive.db (Path.normalize path) file) ∧
      ∃ e, Missed service identity drive (Path.normalize path) e ∧
        (service.download identity path header).on drive = (.error e, drive) := by
  have hpath : filePath path = .ok (Path.normalize path) := if_neg hroot
  rw [download_on, hpath]
  dsimp only
  cases hheld : service.resolver.onPath drive.db (Path.normalize path) identity with
  | error e =>
    obtain ⟨detail, rfl⟩ := service.resolver.onPath_fails _ _ _ e hheld
    obtain ⟨other, hother⟩ := list_of_unheld hroot hheld
    rw [← list_normalize] at hother
    refine Or.inr ⟨?_, _, .broken hother, rfl⟩
    rintro ⟨file, ⟨held, h, -⟩, -⟩
    rw [hheld] at h
    cases h
  | ok held =>
    dsimp only
    by_cases hread : held.has .read = true
    · rw [if_pos hread]
      cases hfile : drive.db.file (Path.normalize path) with
      | ok file => exact Or.inl ⟨file, ⟨⟨held, hheld, hread⟩, hfile⟩, rfl⟩
      | error e =>
        refine Or.inr ⟨?_, e, .of_file hfile, rfl⟩
        rintro ⟨file, -, h⟩
        rw [hfile] at h
        cases h
    · rw [if_neg hread]
      refine Or.inr ⟨?_, _, .denied, rfl⟩
      rintro ⟨file, ⟨held', h, hhas⟩, -⟩
      obtain rfl := Except.ok.inj (hheld.symm.trans h)
      exact hread hhas

end Service

/-! ## Answers -/

namespace Web

variable {σ α β : Type} {site : Site σ} {request : Request} {drive ready : Drive σ}
  {identity : Identity} {part path : String} {query : GetQuery}

/-- What answering comes to on a drive. -/
def outcome (action : WebM σ α) (drive : Drive σ) : Except Rejection α × Drive σ :=
  action.run.run drive

theorem outcome_bind (action : WebM σ α) (next : α → WebM σ β) (drive : Drive σ) :
    outcome (action >>= next) drive =
      match outcome action drive with
      | (.ok value, after) => outcome (next value) after
      | (.error rejection, after) => (.error rejection, after) := by
  rw [outcome, ExceptT.run_bind, StateT.run_bind]
  rcases h : action.run.run drive with ⟨result, after⟩
  cases result with
  | ok value => simp only [outcome, h]; rfl
  | error e => simp only [outcome, h]; rfl

@[simp] theorem outcome_read (result : Except Rejection α) (drive : Drive σ) :
    outcome (read result : WebM σ α) drive = (result, drive) := rfl

@[simp] theorem outcome_ask (action : DriveM σ α) (drive : Drive σ) :
    outcome (ask action) drive =
      ((action.on drive).1.mapError fun e => .api (.ofDrive e), (action.on drive).2) := rfl

/-- The answer that lists a path. -/
def showListing (site : Site σ) (identity : Identity) (path : String) : WebM σ Response := do
  let listing ← ask (site.service.list identity path)
  return .ofData 200 listing.toJson

/-- The answer that sends a file. -/
def sendFile (site : Site σ) (file : File) (attachment : Bool) : WebM σ Response := do
  let download ← ask (site.service.openFile file none)
  read (downloadResponse download attachment)

theorem listRoot_answer
    (hidentity : outcome (site.identity request) drive = (.ok identity, ready)) :
    outcome (listRoot site request) drive =
      outcome (showListing site identity Path.root) ready := by
  unfold listRoot
  rw [outcome_bind, hidentity]
  rfl

/-- With the flag for it, a request for a path is answered with the listing of the path. -/
theorem getPath_listed (hpart : Route.decoded part = .ok path)
    (hquery : GetQuery.ofQuery? request.query = some query) (hlist : query.list = true)
    (hidentity : outcome (site.identity request) drive = (.ok identity, ready)) :
    outcome (getPath site request part) drive =
      outcome (showListing site identity (Path.normalize path)) ready := by
  unfold getPath
  rw [outcome_bind, hidentity]
  dsimp only
  rw [hpart, outcome_bind, outcome_read]
  dsimp only
  unfold readQuery
  rw [hquery, outcome_bind, Option.elim_some, outcome_read]
  dsimp only
  rw [hlist, if_neg (by decide), showListing, Service.list_normalize]

/-- Without that flag and without a range, a request for a path is answered by what a download of
the path comes to. -/
theorem getPath_opened (hpart : Route.decoded part = .ok path)
    (hquery : GetQuery.ofQuery? request.query = some query) (hlist : query.list = false)
    (hrange : request.header? "range" = none)
    (hidentity : outcome (site.identity request) drive = (.ok identity, ready)) :
    outcome (getPath site request part) drive =
      match (site.service.download identity path none).on ready with
      | (attempt, after) =>
        match openOrList attempt with
        | .ok (some download) => (downloadResponse download query.download, after)
        | .ok none => outcome (showListing site identity (Path.normalize path)) after
        | .error rejection => (.error rejection, after) := by
  unfold getPath
  rw [outcome_bind, hidentity]
  dsimp only
  rw [hpart, outcome_bind, outcome_read]
  dsimp only
  unfold readQuery rangeHeader
  rw [hquery, outcome_bind, Option.elim_some, outcome_read]
  dsimp only
  rw [hlist, if_pos (by decide), outcome_bind, hrange]
  have hattempt : (attempt (site.service.download identity path none)).on ready =
      (.ok ((site.service.download identity path none).on ready).1,
        ((site.service.download identity path none).on ready).2) := rfl
  rw [outcome_read]
  dsimp only
  rw [outcome_bind, outcome_ask, hattempt]
  dsimp only [Except.mapError]
  rw [outcome_bind, outcome_read, showListing, Service.list_normalize]
  rcases openOrList ((site.service.download identity path none).on ready).1 with
    rejection | _ | download
  · rfl
  · rfl
  · rfl

/-- A store that fails is not passed over for a listing. -/
theorem openOrList_ofStorage (cause : StorageError) :
    openOrList (.error (.ofStorage cause)) = .error (.api (.ofDrive (.ofStorage cause))) := by
  cases cause <;> rfl

theorem openFile_whole (service : Service σ) (file : File) (drive : Drive σ) :
    (service.openFile file none).on drive =
      (((service.store.get file.path none drive.objects).1.map (⟨file, none, ·⟩)).mapError
          .ofStorage,
        { drive with objects := (service.store.get file.path none drive.objects).2 }) := by
  unfold Service.openFile
  show (object (service.store.get file.path none) >>= _).on drive = _
  rw [on_bind, on_object]
  cases (service.store.get file.path none drive.objects).1 <;> rfl

/-- On every drive and whoever asks, a request for a path without a flag for a listing and without a
range is answered by the canonical spelling of the path. The answer sends the file there, if there
is one and the caller may read it; else it is the answer that lists the path, whether that fails or
not. The root alone is neither sent nor listed: where a path leads to it, the request is refused. -/
theorem getPath_answer (hpart : Route.decoded part = .ok path)
    (hquery : GetQuery.ofQuery? request.query = some query) (hlist : query.list = false)
    (hrange : request.header? "range" = none)
    (hidentity : outcome (site.identity request) drive = (.ok identity, ready)) :
    let canonical := Path.normalize path
    let answer := outcome (getPath site request part) drive
    (canonical = Path.root →
      answer = (.error (.api (.ofDrive (.validation "the root cannot be a file"))), ready)) ∧
    (canonical ≠ Path.root → ∀ file, site.service.MayRead identity ready.db canonical file →
      answer = outcome (sendFile site file query.download) ready) ∧
    (canonical ≠ Path.root → (¬ ∃ file, site.service.MayRead identity ready.db canonical file) →
      answer = outcome (showListing site identity canonical) ready) := by
  intro canonical answer
  have hanswer : answer = _ := getPath_opened hpart hquery hlist hrange hidentity
  refine ⟨fun hroot => ?_, fun hroot file hfile => ?_, fun hroot hnone => ?_⟩
  · have hpath : Service.filePath path = .error (.validation "the root cannot be a file") :=
      if_pos hroot
    rw [hanswer, Service.download_on, hpath]
    rfl
  · obtain ⟨file', ⟨-, hfile'⟩, hdownload⟩ | ⟨hnone, -⟩ :=
      site.service.download_cases identity ready hroot none
    · obtain rfl : file' = file := Except.ok.inj (hfile'.symm.trans hfile.2)
      rw [hanswer, hdownload, openFile_whole, sendFile, outcome_bind, outcome_ask, openFile_whole]
      cases (site.service.store.get file'.path none ready.objects).1 with
      | error cause =>
        dsimp only [Except.map, Except.mapError]
        rw [openOrList_ofStorage]
      | ok body => rfl
    · exact absurd ⟨file, hfile⟩ hnone
  · obtain ⟨file, hread, -⟩ | ⟨-, e, hmissed, hdownload⟩ :=
      site.service.download_cases identity ready hroot none
    · exact absurd ⟨file, hread⟩ hnone
    · rw [hanswer, hdownload]
      cases hmissed with
      | missing => rfl
      | denied => rfl
      | broken unlisted =>
        rw [showListing, outcome_bind, outcome_ask, unlisted]
        rfl

/-- A guest asks for a directory and for a file in it, each in a spelling of its own. -/
theorem getPath_answer_odd_spelling :
    let guest : Identity := .guest "guests"
    let site : Site Tree :=
      ⟨⟨Directory.store, .enforcing "admins", 0, toString, fun _ => none⟩,
        ⟨3600, toString⟩, "guests", toString⟩
    let request : Request := ⟨"GET", "", "download=true", [], .empty⟩
    let file : FileRow := ⟨"/d/a", 0, "text/plain", "", "root", "", ""⟩
    let record : PermissionRow := .ofRecord (.everyone "/d" (.single .read) .none)
    let drive : Drive Tree :=
      ⟨(Database.empty.withFiles [file]).withPermissions [record], Tree.empty, .epoch, 0⟩
    outcome (getPath site request "d//./x/..") drive = outcome (showListing site guest "/d") drive ∧
      outcome (getPath site request "x/../d/%61") drive =
        outcome (sendFile site (file.file []) true) drive := by
  intro guest site request file record drive
  have hquery : GetQuery.ofQuery? request.query = some ⟨true, false⟩ := by cbv
  have hidentity : outcome (site.identity request) drive = (.ok guest, drive) := rfl
  constructor
  · have hpart : Route.decoded "d//./x/.." = .ok "d//./x/.." := by cbv
    have hpath : Path.normalize "d//./x/.." = "/d" := by decide
    obtain ⟨-, -, hlisted⟩ := getPath_answer hpart hquery rfl rfl hidentity
    rw [hpath] at hlisted
    refine hlisted (by decide) ?_
    rintro ⟨found, -, hfound⟩
    have hmissing : drive.db.file "/d" = .error (.fileNotFound "/d") := by rfl
    rw [hmissing] at hfound
    cases hfound
  · have hpart : Route.decoded "x/../d/%61" = .ok "x/../d/a" := by cbv
    have hpath : Path.normalize "x/../d/a" = "/d/a" := by decide
    obtain ⟨-, hsent, -⟩ := getPath_answer hpart hquery rfl rfl hidentity
    rw [hpath] at hsent
    have hfound : drive.db.file "/d/a" = .ok (file.file []) := by rfl
    exact hsent (by decide) (file.file []) ⟨⟨.single .read, by cbv, by decide⟩, hfound⟩

/-- The root is listed under its own address, and under that of a path with the flag for it, but not
under the address of a path that leads to it. -/
theorem getPath_refuses_root :
    let site : Site Tree :=
      ⟨⟨Directory.store, .enforcing "admins", 0, toString, fun _ => none⟩,
        ⟨3600, toString⟩, "guests", toString⟩
    let status (path query : String) : Nat :=
      ((site.respond ⟨"GET", path, query, [], .empty⟩ "id").run
        (Drive.fresh Tree.empty .epoch)).1.status
    Route.ofPath? "/files/." = some (.files ".") ∧ Path.normalize "." = Path.root ∧
      status "/files/." "" = 400 ∧ status "/files/." "list=true" = 200 ∧
        status "/files" "" = 200 := by
  decide +kernel

end Web

end FileDrive
