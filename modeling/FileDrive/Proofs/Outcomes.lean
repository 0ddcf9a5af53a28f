import FileDrive.Proofs.CanonicalPath
import FileDrive.Proofs.EffectivePermissions
import FileDrive.Proofs.Requests

/-!
# What requests come to

For each request that can change a drive, what it can come to: the result together with the drive
afterwards, and what has been checked on the way there. The cases follow the object store, because
the metadata change only after it has done its part. Everything that holds of all requests is proved
by going through these cases; how the checks are arranged in a request shows in this module only.
-/

namespace FileDrive.Service

open FileDrive.DriveM FileDrive.Time

variable {σ α : Type} {service : Service σ} {identity : Identity} {drive : Drive σ}
  {P : Except DriveError α → Drive σ → Prop}

/-! ## Checks -/

theorem require_eq_ok {held : Permissions} {needed : Capability} {path : String}
    (h : require held needed path = .ok ()) : held.has needed = true := by
  unfold require at h
  split at h
  case isTrue hhas => exact hhas
  case isFalse => cases h

theorem filePath_eq_ok {path found : String} (h : filePath path = .ok found) :
    found = Path.normalize path ∧ Path.normalize path ≠ Path.root := by
  unfold filePath at h
  split at h
  case isTrue => cases h
  case isFalse hroot => exact ⟨(Except.ok.inj h).symm, hroot⟩

theorem checkSize_eq_ok {size : Nat} (h : service.checkSize size = .ok ())
    (hlimit : 0 < service.maxFileSize) : size ≤ service.maxFileSize := by
  unfold checkSize at h
  split at h
  case isTrue => cases h
  case isFalse hfits => exact Nat.not_lt.1 fun hlt => hfits ⟨hlimit, hlt⟩

theorem requireNoFile_eq_ok {db : Database} {paths : List String}
    (h : requireNoFile db paths = .ok ()) : ∀ path ∈ paths, db.rowAt path = none := by
  induction paths with
  | nil => simp
  | cons first paths ih =>
    obtain ⟨owner, howner, h⟩ := bind_eq_ok.1 h
    dsimp only at h
    split at h
    case isTrue => exact absurd h throw_bind_ne_ok
    case isFalse hnone =>
      intro path hpath
      rcases List.mem_cons.1 hpath with rfl | hpath
      · rw [Database.ownerOf_eq_ok howner] at hnone
        simpa using hnone
      · exact ih h path hpath

/-- Where a file may be placed, no directory above is a file, and nothing is stored below unless
there is a file already. -/
theorem checkPlacement_eq_ok {db : Database} {path : String}
    (h : checkPlacement path db = .ok ()) :
    (∀ above ∈ (Path.ancestors path).tail.dropLast, db.rowAt above = none) ∧
      (db.rowAt path = none →
        ∀ row ∈ db.files.getD [], Database.isStoredBelow row.path path = false) := by
  obtain ⟨_, habove, h⟩ := bind_eq_ok.1 h
  obtain ⟨files, hfiles, h⟩ := bind_eq_ok.1 h
  refine ⟨requireNoFile_eq_ok habove, fun hfree row hrow => ?_⟩
  obtain ⟨users, -, ⟨other, hother, -⟩ | ⟨-, hperm⟩⟩ := Database.filesAt_eq_ok hfiles
  · rw [hfree] at hother
    cases hother
  · split at h
    case isTrue => cases h
    case isFalse hnone =>
      rw [← Bool.not_eq_true]
      intro hbelow
      have hmem : row.file users ∈ files := hperm.mem_iff.2
        (List.mem_map_of_mem (List.mem_filter.2 ⟨hrow, hbelow⟩))
      have hpath : row.path = path := by
        by_contra hne
        exact hnone (List.any_eq_true.2 ⟨_, hmem, decide_eq_true hne⟩)
      have hpresent : ∃ found, db.rowAt path = some found :=
        Database.any_path_iff.1 (List.any_eq_true.2 ⟨row, hrow, by simpa using hpath⟩)
      rw [hfree] at hpresent
      obtain ⟨_, hfound⟩ := hpresent
      cases hfound

/-- What follows a check of the caller's permissions follows when they suffice. -/
theorem Ends.authorize_bind {needed : Capability} {path : String} {next : Unit → DriveM σ α}
    (refused : ∀ e, P (.error e) drive)
    (held : service.resolver.Permits drive.db identity needed path → (next ()).Ends drive P) :
    (service.authorize identity needed path >>= next).Ends drive P := by
  refine Ends.bind (Ends.query_bind (fun e _ => refused e) fun found hfound => ?_)
  unfold Ends
  rw [on_lift]
  rcases h : require found needed path with e | _
  · exact refused e
  · exact held ⟨found, hfound, require_eq_ok h⟩

/-! ## Creating a file -/

/-- The row that a request to create a file asks for. -/
def newFile (identity : Identity) (request : CreateRequest) (contentType : String) : NewFile where
  path := Path.normalize request.path
  size := Text.signed64 request.upload.size
  contentType := contentType
  description := request.description
  ownerId := identity.subject

/-- What creating a file comes to. -/
inductive Created (service : Service σ) (identity : Identity) (request : CreateRequest)
    (drive : Drive σ) : Except DriveError File → Drive σ → Prop where
  /-- The store is not called, and the metadata stay. -/
  | refused (e : DriveError) (clock : Timestamp) :
      Created service identity request drive (.error e) { drive with clock }
  | unstored {contentType : String} {e : StorageError} {objects : σ}
      (put : service.store.put (Path.normalize request.path) request.upload.size
        request.upload.stream contentType drive.objects = (.error e, objects)) :
      Created service identity request drive (.error (.ofStorage e))
        { drive with objects, clock := drive.clock.next }
  | stored {contentType : String} {found : Option File} {file : File} {db : Database} {objects : σ}
      (notRoot : Path.normalize request.path ≠ Path.root)
      (fits : service.checkSize request.upload.size = .ok ())
      (placed : checkPlacement (Path.normalize request.path) drive.db = .ok ())
      (found_eq : drive.db.file? (Path.normalize request.path) = .ok found)
      (permitted : service.resolver.Permits drive.db identity
        (if found.isSome ∧ request.overwrite then .update else .create)
        (Path.normalize request.path))
      (prepared :
        (if request.overwrite then
          drive.db.putFile drive.clock.next (newFile identity request contentType)
        else drive.db.createFile drive.clock.next (newFile identity request contentType)) =
          .ok (file, db))
      (put : service.store.put (Path.normalize request.path) request.upload.size
        request.upload.stream contentType drive.objects = (.ok (), objects)) :
      Created service identity request drive (.ok file)
        { drive with db, objects, clock := drive.clock.next }

/-- Creating puts a row of the declared size at the path, and only overwriting replaces one. -/
theorem becomes_of_prepared {request : CreateRequest} {contentType : String} {now : Timestamp}
    {file : File} {db after : Database}
    (h : (if request.overwrite then db.putFile now (newFile identity request contentType)
      else db.createFile now (newFile identity request contentType)) = .ok (file, after)) :
    ∃ row, db.Becomes after (Function.update db.rowAt (Path.normalize request.path) (some row)) [] ∧
      row.size = (newFile identity request contentType).size ∧
      (request.overwrite = false → db.rowAt (Path.normalize request.path) = none) := by
  split at h
  case isTrue hover =>
    refine ⟨_, Database.putFile_becomes h, ?_, fun hno => ?_⟩
    · rcases db.rowAt (newFile identity request contentType).path with _ | row
      · rw [Option.map_none, Option.getD_none, FileRow.size_ofNew]
      · rw [Option.map_some, Option.getD_some, Database.size_replacedRow]
    · rw [hover] at hno
      cases hno
  case isFalse =>
    obtain ⟨hfree, hbecomes⟩ := Database.createFile_becomes h
    exact ⟨_, hbecomes, FileRow.size_ofNew _ _, fun _ => hfree⟩

theorem create_ends (service : Service σ) (identity : Identity) (request : CreateRequest)
    (drive : Drive σ) :
    (service.create identity request).Ends drive (Created service identity request drive) := by
  have refused : ∀ e, Created service identity request drive (.error e) drive := fun e =>
    .refused e drive.clock
  unfold create
  refine Ends.lift_bind (fun e _ => refused e) fun path hpath => ?_
  obtain ⟨rfl, hroot⟩ := filePath_eq_ok hpath
  refine Ends.lift_bind (fun e _ => refused e) fun _ hfits => ?_
  refine Ends.query_bind (fun e _ => refused e) fun _ hplaced => ?_
  refine Ends.query_bind (fun e _ => refused e) fun found hfound => ?_
  refine Ends.authorize_bind refused fun hpermitted => ?_
  refine Ends.now_bind ?_
  refine Ends.query_bind (fun e _ => .refused e drive.clock.next) fun prepared hprepared => ?_
  obtain ⟨file, db⟩ := prepared
  refine Ends.object_bind (fun e objects hput => ?_) fun _ objects hput => ?_
  · dsimp only at hput ⊢
    exact Created.unstored hput
  refine Ends.commit_bind (Ends.pure ?_)
  dsimp only at hput hprepared ⊢
  exact Created.stored hroot hfits hplaced hfound hpermitted hprepared hput

/-! ## Changing a file -/

/-- Without new content a file keeps its size; the size of new content has been checked. -/
theorem newContent_eq_ok {existing : File} {newPath contentType : String} {content : Option Upload}
    {size : Int} (h : service.newContent existing newPath content = .ok (size, contentType)) :
    (content = none ∧ size = 0) ∨ ∃ upload, content = some upload ∧ upload.size ≠ 0 ∧
      service.checkSize upload.size = .ok () ∧ size = Text.signed64 upload.size := by
  rcases content with _ | upload
  · left
    exact ⟨rfl, (congrArg Prod.fst (Except.ok.inj h)).symm⟩
  · right
    unfold newContent at h
    dsimp only at h
    split at h
    · exact absurd h throw_bind_ne_ok
    · next hsize =>
      obtain ⟨_, hfits, h⟩ := bind_eq_ok.1 h
      obtain ⟨rfl, -⟩ := Prod.mk.inj (Except.ok.inj h)
      exact ⟨upload, rfl, hsize, hfits, rfl⟩

/-- What the store does for a change of a file, and what it comes to: nothing when only the
description changes, a move when the path does, and with new content a store call for the new object
and one that takes out the old one. -/
inductive Carried (store : ObjectStore σ) (path newPath contentType : String) (objects : σ) :
    Option Upload → Except DriveError Unit → σ → Prop where
  | kept (same : newPath = path) :
      Carried store path newPath contentType objects none (.ok ()) objects
  | moved {after : σ} (renamed : newPath ≠ path)
      (move : store.move path newPath objects = (.ok (), after)) :
      Carried store path newPath contentType objects none (.ok ()) after
  | unmoved {e : StorageError} {after : σ} (renamed : newPath ≠ path)
      (move : store.move path newPath objects = (.error e, after)) :
      Carried store path newPath contentType objects none (.error (.ofStorage e)) after
  | unput {upload : Upload} {e : StorageError} {after : σ}
      (put : store.put newPath upload.size upload.stream contentType objects = (.error e, after)) :
      Carried store path newPath contentType objects (some upload) (.error (.ofStorage e)) after
  | put {upload : Upload} {after : σ} (same : newPath = path)
      (put : store.put newPath upload.size upload.stream contentType objects = (.ok (), after)) :
      Carried store path newPath contentType objects (some upload) (.ok ()) after
  | replaced {upload : Upload} {mid after : σ} (renamed : newPath ≠ path)
      (put : store.put newPath upload.size upload.stream contentType objects = (.ok (), mid))
      (delete : store.delete path mid = (.ok (), after)) :
      Carried store path newPath contentType objects (some upload) (.ok ()) after
  /-- The new object is taken out again when the old one cannot be. -/
  | undone {upload : Upload} {e : StorageError} {result : Except StorageError Unit}
      {mid between after : σ} (renamed : newPath ≠ path)
      (put : store.put newPath upload.size upload.stream contentType objects = (.ok (), mid))
      (delete : store.delete path mid = (.error e, between))
      (undo : store.delete newPath between = (result, after)) :
      Carried store path newPath contentType objects (some upload) (.error (.ofStorage e)) after

theorem replaceContent_ends (path newPath : String) (upload : Upload) (contentType : String)
    (drive : Drive σ) :
    (service.replaceContent path newPath upload contentType).Ends drive fun result after =>
      ∃ objects, after = { drive with objects } ∧
        Carried service.store path newPath contentType drive.objects (some upload) result
          objects := by
  unfold replaceContent
  refine Ends.object_bind (fun e objects hput => ⟨objects, rfl, .unput hput⟩) fun _ mid hput => ?_
  by_cases hsame : path ≠ newPath
  · rw [if_pos hsame]
    refine Ends.attempt_bind (Ends.object (fun e between hdelete => ?_) fun _ after hdelete => ?_)
    · refine Ends.bind (Ends.map (Ends.attempt ?_))
      refine Ends.object (fun e' after hundo => ?_) fun _ after hundo => ?_
      · exact ⟨after, rfl, .undone (Ne.symm hsame) hput hdelete hundo⟩
      · exact ⟨after, rfl, .undone (Ne.symm hsame) hput hdelete hundo⟩
    · exact ⟨after, rfl, .replaced (Ne.symm hsame) hput hdelete⟩
  · rw [if_neg hsame]
    exact ⟨mid, rfl, .put (not_ne_iff.1 hsame).symm hput⟩

/-- What changing a file comes to. -/
inductive Updated (service : Service σ) (identity : Identity) (path : String)
    (request : UpdateRequest) (drive : Drive σ) : Except DriveError File → Drive σ → Prop where
  | refused (e : DriveError) (clock : Timestamp) :
      Updated service identity path request drive (.error e) { drive with clock }
  | uncarried {size : Int} {contentType description : String} {e : DriveError} {db : Database}
      {objects : σ}
      (prepared : drive.db.updateFile drive.clock.next path (request.target path) size contentType
        description = .ok db)
      (carried : Carried service.store path (request.target path) contentType drive.objects
        request.content (.error e) objects) :
      Updated service identity path request drive (.error e)
        { drive with objects, clock := drive.clock.next }
  | changed {existing : File} {size : Int} {contentType description : String} {file : File}
      {db : Database} {objects : σ} (notRoot : request.target path ≠ Path.root)
      (permitted : service.resolver.Permits drive.db identity .update path)
      (placed : request.target path ≠ path →
        checkPlacement (request.target path) drive.db = .ok () ∧
          service.resolver.Permits drive.db identity .create (request.target path))
      (content : service.newContent existing (request.target path) request.content =
        .ok (size, contentType))
      (prepared : drive.db.updateFile drive.clock.next path (request.target path) size contentType
        description = .ok db)
      (carried : Carried service.store path (request.target path) contentType drive.objects
        request.content (.ok ()) objects) :
      Updated service identity path request drive (.ok file)
        { drive with db, objects, clock := drive.clock.next }

theorem canonical_target {path : String} (request : UpdateRequest) (h : Path.Canonical path) :
    Path.Canonical (request.target path) := by
  unfold UpdateRequest.target
  rcases request.newPath with _ | newPath
  · exact h
  · exact Path.canonical_normalize newPath

/-- The path that a file is to have is the root neither before nor after. -/
theorem Ends.target_bind {request : UpdateRequest} {path : String} {next : String → DriveM σ α}
    (hpath : path ≠ Path.root) (refused : ∀ e, P (.error e) drive)
    (passed : request.target path ≠ Path.root → (next (request.target path)).Ends drive P) :
    (match request.newPath with
      | some newPath => (liftM (filePath newPath) : DriveM σ String) >>= next
      | none => (pure path : DriveM σ String) >>= next).Ends drive P := by
  unfold UpdateRequest.target at passed
  rcases hnew : request.newPath with _ | newPath
  · rw [hnew] at passed
    exact Ends.bind (passed hpath)
  · rw [hnew] at passed
    refine Ends.lift_bind (fun e _ => refused e) fun found hfound => ?_
    obtain ⟨rfl, hroot⟩ := filePath_eq_ok hfound
    exact passed hroot

/-- At a new path a file may be placed, and the caller may create there. -/
theorem Ends.placed_bind {path newPath : String} {next : Unit → DriveM σ α}
    (refused : ∀ e, P (.error e) drive)
    (passed : (newPath ≠ path → checkPlacement newPath drive.db = .ok () ∧
      service.resolver.Permits drive.db identity .create newPath) → (next ()).Ends drive P) :
    (if newPath ≠ path then do
      DriveM.query (checkPlacement newPath)
      let passed ← service.authorize identity .create newPath
      next passed
    else next ()).Ends drive P := by
  by_cases hsame : newPath ≠ path
  · rw [if_pos hsame]
    refine Ends.query_bind (fun e _ => refused e) fun _ hplaced => ?_
    exact Ends.authorize_bind refused fun hpermitted => passed fun _ => ⟨hplaced, hpermitted⟩
  · rw [if_neg hsame]
    exact passed fun hne => absurd hne hsame

/-- The store does its part. -/
theorem Ends.carry_bind {path newPath contentType : String} {content : Option Upload}
    {next : Unit → DriveM σ α}
    (failed : ∀ e objects,
      Carried service.store path newPath contentType drive.objects content (.error e) objects →
        P (.error e) { drive with objects })
    (done : ∀ objects,
      Carried service.store path newPath contentType drive.objects content (.ok ()) objects →
        (next ()).Ends { drive with objects } P) :
    (match content with
      | some upload => service.replaceContent path newPath upload contentType >>= next
      | none =>
        if newPath ≠ path then do
          let moved ← DriveM.object (service.store.move path newPath)
          next moved
        else next ()).Ends drive P := by
  rcases content with _ | upload
  · by_cases hsame : newPath ≠ path
    · dsimp only
      rw [if_pos hsame]
      refine Ends.object_bind (fun e objects hmove => ?_) fun _ objects hmove => ?_
      · exact failed _ _ (.unmoved hsame hmove)
      · exact done _ (.moved hsame hmove)
    · dsimp only
      rw [if_neg hsame]
      exact done _ (.kept (not_ne_iff.1 hsame))
  · refine Ends.bind ((replaceContent_ends path newPath upload contentType drive).mono ?_)
    rintro (e | _) after ⟨objects, rfl, hcarried⟩
    · exact failed e objects hcarried
    · exact done objects hcarried

theorem update_ends (service : Service σ) (identity : Identity) (path : String)
    (request : UpdateRequest) (drive : Drive σ) :
    (service.update identity path request).Ends drive fun result after =>
      Updated service identity (Path.normalize path) request drive result after := by
  have refused : ∀ e,
      Updated service identity (Path.normalize path) request drive (.error e) drive := fun e =>
    .refused e drive.clock
  unfold update
  refine Ends.lift_bind (fun e _ => refused e) fun found hpath => ?_
  obtain ⟨rfl, hroot⟩ := filePath_eq_ok hpath
  refine Ends.query_bind (fun e _ => refused e) fun existing hexisting => ?_
  refine Ends.authorize_bind refused fun hpermitted => ?_
  refine Ends.target_bind hroot refused fun htarget => ?_
  refine Ends.placed_bind refused fun hplaced => ?_
  refine Ends.lift_bind (fun e _ => refused e) fun content hcontent => ?_
  obtain ⟨size, contentType⟩ := content
  refine Ends.now_bind ?_
  refine Ends.query_bind (fun e _ => .refused e drive.clock.next) fun db hprepared => ?_
  refine Ends.carry_bind (fun e objects hcarried => ?_) fun objects hcarried => ?_
  · dsimp only at hcarried ⊢
    exact .uncarried hprepared hcarried
  · obtain ⟨row, -, -, hbecomes⟩ := Database.updateFile_becomes hprepared
    obtain ⟨file, hfile⟩ := hbecomes.file_eq_ok hexisting (Function.update_self _ _ _)
    refine Ends.commit_bind (Ends.query ?_)
    dsimp only at hcarried ⊢
    rw [hfile]
    exact .changed htarget hpermitted hplaced hcontent hprepared hcarried

end FileDrive.Service
