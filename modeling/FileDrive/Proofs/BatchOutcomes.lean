import FileDrive.Proofs.CanonicalPath
import FileDrive.Proofs.Outcomes

/-!
# What moving and deleting come to

A single file is moved or deleted when the caller holds what that takes on its path. The files below
a directory are looked at all at once, together with what the caller holds on each, and then taken
one by one, each finding the drive as the ones before left it (`Batch`). What the look has shown of
each file (`MoveItem.Offered`, `Offered`) is about the drive before the first of them.
-/

namespace FileDrive.Service

open FileDrive.DriveM FileDrive.Time

variable {σ α : Type} {service : Service σ} {identity : Identity} {drive : Drive σ}

/-! ## One file -/

/-- What moving a file comes to that is moved only if `allowed`. -/
inductive Moved (service : Service σ) (allowed : Prop) (source target : String) (drive : Drive σ) :
    Except DriveError Unit → Drive σ → Prop where
  | refused (e : DriveError) (clock : Timestamp) :
      Moved service allowed source target drive (.error e) { drive with clock }
  | unmoved {e : StorageError} {objects : σ}
      (move : service.store.move source target drive.objects = (.error e, objects)) :
      Moved service allowed source target drive (.error (.ofStorage e))
        { drive with objects, clock := drive.clock.next }
  | moved {db : Database} {objects : σ} (granted : allowed)
      (placed : checkPlacement target drive.db = .ok ())
      (prepared : drive.db.moveFile drive.clock.next source target = .ok db)
      (move : service.store.move source target drive.objects = (.ok (), objects)) :
      Moved service allowed source target drive (.ok ())
        { drive with db, objects, clock := drive.clock.next }

/-- The row of a file is taken from one path to another that was free, and records between the
two. -/
def Shifts (before after : Database) (source target : String) : Prop :=
  ∃ old new, before.rowAt source = some old ∧ before.rowAt target = none ∧
    new.ownerId = old.ownerId ∧ new.createdAt = old.createdAt ∧
    before.Becomes after
      (Function.update (Function.update before.rowAt source none) target (some new))
      [source, target]

theorem Moved.shifts {allowed : Prop} {source target : String} {result : Except DriveError Unit}
    {after : Drive σ} (h : Moved service allowed source target drive result after)
    (apart : source ≠ target) :
    after.db = drive.db ∨ (allowed ∧ checkPlacement target drive.db = .ok () ∧
      Shifts drive.db after.db source target) := by
  cases h with
  | refused => exact Or.inl rfl
  | unmoved => exact Or.inl rfl
  | moved granted placed prepared move =>
    obtain ⟨row, hrow, hfree, hbecomes⟩ := Database.moveFile_becomes prepared
    exact Or.inr ⟨granted, placed, row, Database.movedRow drive.clock.next target row, hrow,
      hfree apart, rfl, rfl, hbecomes⟩

theorem relocate_ends {allowed : Prop} {source target : String} (granted : allowed)
    (placed : checkPlacement target drive.db = .ok ()) :
    (service.relocate source target).Ends drive (Moved service allowed source target drive) := by
  unfold relocate
  refine Ends.now_bind ?_
  refine Ends.query_bind (fun e _ => .refused e drive.clock.next) fun db hprepared => ?_
  refine Ends.object_bind (fun e objects hmove => ?_) fun _ objects hmove => ?_
  · dsimp only at hmove ⊢
    exact .unmoved hmove
  · refine Ends.commit_bind (Ends.pure ?_)
    dsimp only at hprepared hmove ⊢
    exact .moved granted placed hprepared hmove

theorem moveOne_ends (source target : String) :
    (service.moveOne identity source target).Ends drive
      (Moved service
        (service.resolver.Permits drive.db identity .update source ∧
          service.resolver.Permits drive.db identity .create target)
        source target drive) := by
  have refused : ∀ e, Moved service
      (service.resolver.Permits drive.db identity .update source ∧
        service.resolver.Permits drive.db identity .create target)
      source target drive (.error e) drive := fun e => .refused e drive.clock
  unfold moveOne
  refine Ends.authorize_bind refused fun hupdate => ?_
  refine Ends.query_bind (fun e _ => refused e) fun _ hplaced => ?_
  exact Ends.authorize_bind refused fun hcreate => relocate_ends ⟨hupdate, hcreate⟩ hplaced

theorem moveItem_ends (item : MoveItem) :
    (service.moveItem item).Ends drive
      (Moved service
        (item.heldSource.has .update = true ∧ item.heldTarget.has .create = true)
        item.source item.target drive) := by
  have refused : ∀ e, Moved service
      (item.heldSource.has .update = true ∧ item.heldTarget.has .create = true)
      item.source item.target drive (.error e) drive := fun e => .refused e drive.clock
  unfold moveItem
  refine Ends.lift_bind (fun e _ => refused e) fun _ hupdate => ?_
  refine Ends.lift_bind (fun e _ => refused e) fun _ hcreate => ?_
  refine Ends.query_bind (fun e _ => refused e) fun _ hplaced => ?_
  exact relocate_ends ⟨require_eq_ok hupdate, require_eq_ok hcreate⟩ hplaced

/-- What deleting a file comes to that is deleted only if `allowed`. -/
inductive Removed (service : Service σ) (allowed : Prop) (path : String) (drive : Drive σ) :
    Except DriveError Unit → Drive σ → Prop where
  | refused (e : DriveError) : Removed service allowed path drive (.error e) drive
  | undeleted {e : StorageError} {objects : σ}
      (delete : service.store.delete path drive.objects = (.error e, objects)) :
      Removed service allowed path drive (.error (.ofStorage e)) { drive with objects }
  | removed {db : Database} {result : Except StorageError Unit} {objects : σ} (granted : allowed)
      (prepared : drive.db.deleteFile path = .ok db)
      (delete : service.store.delete path drive.objects = (result, objects))
      (gone : result = .ok () ∨ ∃ missing, result = .error (.notFound missing)) :
      Removed service allowed path drive (.ok ()) { drive with db, objects }

/-- Deleting a file, when it goes well, takes out its row. -/
theorem Removed.clears {allowed : Prop} {path : String} {result : Except DriveError Unit}
    {after : Drive σ} (h : Removed service allowed path drive result after) :
    after.db = drive.db ∨ ∃ row, allowed ∧ drive.db.rowAt path = some row ∧
      drive.db.Becomes after.db (Function.update drive.db.rowAt path none) [path] := by
  cases h with
  | refused => exact Or.inl rfl
  | undeleted => exact Or.inl rfl
  | removed granted prepared =>
    obtain ⟨⟨row, hrow⟩, hbecomes⟩ := Database.deleteFile_becomes prepared
    exact Or.inr ⟨row, granted, hrow, hbecomes⟩

theorem remove_ends {allowed : Prop} {path : String} (granted : allowed) :
    (service.remove path).Ends drive (Removed service allowed path drive) := by
  unfold remove
  refine Ends.query_bind (fun e _ => .refused e) fun db hprepared => ?_
  refine Ends.attempt_bind (Ends.object (fun e objects hdelete => ?_) fun _ objects hdelete => ?_)
  · cases e with
    | notFound missing => exact .removed granted hprepared hdelete (Or.inr ⟨missing, rfl⟩)
    | _ => exact .undeleted hdelete
  · exact .removed granted hprepared hdelete (Or.inl rfl)

/-! ## Many files -/

/-- Doing something with items one by one, given what it comes to for each: every item finds the
drive as the ones before left it. -/
inductive Batch (comes : α → Drive σ → Except DriveError Unit → Drive σ → Prop)
    (path result : α → String) : List α → Drive σ → BatchReport → Drive σ → Prop where
  | nil {drive : Drive σ} : Batch comes path result [] drive ⟨[], []⟩ drive
  | done {item : α} {rest : List α} {drive mid after : Drive σ} {report : BatchReport}
      (one : comes item drive (.ok ()) mid)
      (others : Batch comes path result rest mid report after) :
      Batch comes path result (item :: rest) drive
        { report with succeeded := result item :: report.succeeded } after
  | failed {item : α} {rest : List α} {drive mid after : Drive σ} {report : BatchReport}
      {e : DriveError} (one : comes item drive (.error e) mid)
      (others : Batch comes path result rest mid report after) :
      Batch comes path result (item :: rest) drive
        { report with warnings := ⟨path item, e.message⟩ :: report.warnings } after

theorem each_ends {comes : α → Drive σ → Except DriveError Unit → Drive σ → Prop}
    {act : α → DriveM σ Unit} (path result : α → String)
    (h : ∀ item drive, (act item).Ends drive (comes item drive)) (items : List α)
    (drive : Drive σ) :
    (each act path result items).Ends drive fun outcome after =>
      ∃ report, outcome = .ok report ∧ Batch comes path result items drive report after := by
  induction items generalizing drive with
  | nil => exact ⟨_, rfl, .nil⟩
  | cons item rest ih =>
    refine Ends.attempt_bind ((h item drive).mono fun outcome mid hone => ?_)
    refine Ends.bind ((ih mid).mono ?_)
    rintro _ after ⟨report, rfl, hothers⟩
    cases outcome with
    | ok _ => exact ⟨_, rfl, .done hone hothers⟩
    | error e => exact ⟨_, rfl, .failed hone hothers⟩

/-- One item by itself is a batch. -/
theorem Batch.single (comes : α → Drive σ → Except DriveError Unit → Drive σ → Prop) (item : α)
    (path result : α → String) {outcome : Except DriveError Unit} {after : Drive σ}
    (h : comes item drive outcome after) :
    ∃ report, Batch comes path result [item] drive report after := by
  cases outcome with
  | ok _ => exact ⟨_, .done h .nil⟩
  | error e => exact ⟨_, .failed h .nil⟩

/-- What every item leaves in place is in place afterwards. -/
theorem Batch.preserves {comes : α → Drive σ → Except DriveError Unit → Drive σ → Prop}
    {path result : α → String} {I : Drive σ → Prop} {items : List α} {drive after : Drive σ}
    {report : BatchReport} (h : Batch comes path result items drive report after)
    (step : ∀ item ∈ items, ∀ drive outcome mid, I drive → comes item drive outcome mid → I mid)
    (start : I drive) : I after := by
  induction h with
  | nil => exact start
  | done one others ih =>
    exact ih (fun item hitem => step item (List.mem_cons_of_mem _ hitem))
      (step _ List.mem_cons_self _ _ _ start one)
  | failed one others ih =>
    exact ih (fun item hitem => step item (List.mem_cons_of_mem _ hitem))
      (step _ List.mem_cons_self _ _ _ start one)

/-- What is kept track of with every item that is done is kept track of through all of them. -/
theorem Batch.tracks {γ : Type} {comes : α → Drive σ → Except DriveError Unit → Drive σ → Prop}
    {path result : α → String} {I : γ → Drive σ → Prop} {track : γ → String → γ} {items : List α}
    {drive after : Drive σ} {report : BatchReport} {start : γ}
    (h : Batch comes path result items drive report after)
    (done : ∀ item ∈ items, ∀ c drive mid, I c drive → comes item drive (.ok ()) mid →
      I (track c (result item)) mid)
    (failed : ∀ item ∈ items, ∀ c drive mid e, I c drive → comes item drive (.error e) mid →
      I c mid)
    (hstart : I start drive) : I (report.succeeded.foldl track start) after := by
  induction h generalizing start with
  | nil => exact hstart
  | done one others ih =>
    exact ih (fun item hitem => done item (List.mem_cons_of_mem _ hitem))
      (fun item hitem => failed item (List.mem_cons_of_mem _ hitem))
      (done _ List.mem_cons_self _ _ _ hstart one)
  | failed one others ih =>
    exact ih (fun item hitem => done item (List.mem_cons_of_mem _ hitem))
      (fun item hitem => failed item (List.mem_cons_of_mem _ hitem))
      (failed _ List.mem_cons_self _ _ _ _ hstart one)

theorem select_sublist (files : List File) (dir : String) (names : Option (List String)) :
    (select files dir names).Sublist files := by
  unfold select
  split
  · exact List.Sublist.refl files
  · exact List.Sublist.refl files
  · exact List.filter_sublist

/-- Files that are found for a path, but not at it, are stored below it, each at a path of its
own. -/
theorem filesAt_below {dir : String} {found : List File} (hkeyed : drive.db.Keyed)
    (h : drive.db.filesAt dir = .ok found) (hsingle : ¬ isSingle found dir = true) :
    (∀ file ∈ found, Database.isStoredBelow file.path dir = true ∧
      ∃ row, drive.db.rowAt file.path = some row ∧ row.ownerId = file.ownerId) ∧
      (found.map (·.path)).Nodup := by
  obtain ⟨users, -, ⟨row, hrow, rfl⟩ | ⟨-, hperm⟩⟩ := Database.filesAt_eq_ok h
  · have hpath : row.path = dir := Database.path_of_rowAt hrow
    have hone : isSingle [row.file users] dir = true := decide_eq_true hpath
    exact absurd hone hsingle
  · constructor
    · intro file hfile
      obtain ⟨row, hrow, rfl⟩ := List.mem_map.1 (hperm.mem_iff.1 hfile)
      rw [List.mem_filter] at hrow
      exact ⟨hrow.2, row, hkeyed.rowAt_of_mem hrow.1, rfl⟩
    · rw [(hperm.map (·.path)).nodup_iff, List.map_map]
      exact hkeyed.sublist (List.filter_sublist.map _)

/-- What is known of a file below `dir` that has been looked at together with others. -/
structure Offered (service : Service σ) (identity : Identity) (db : Database) (dir path : String)
    (held : Permissions) : Prop where
  below : Database.isStoredBelow path dir = true
  row : ∃ row, db.rowAt path = some row
  held : service.resolver.onPath db path identity = .ok held

theorem select_offered {dir : String} {names : Option (List String)} {found : List File}
    {permitted : List (File × Permissions)} (hkeyed : drive.db.Keyed)
    (hfound : drive.db.filesAt dir = .ok found) (hsingle : ¬ isSingle found dir = true)
    (h : service.resolver.onFiles drive.db (select found dir names) identity = .ok permitted) :
    permitted.map (·.1) = select found dir names ∧
      (∀ item ∈ permitted, Offered service identity drive.db dir item.1.path item.2) ∧
      ((select found dir names).map (·.path)).Nodup := by
  obtain ⟨hbelow, hnodup⟩ := filesAt_below hkeyed hfound hsingle
  obtain ⟨rows, hrows⟩ := Database.fileRows_of_filesAt hfound
  have hsub := select_sublist found dir names
  obtain ⟨hfiles, hheld⟩ := Resolver.onPath_of_onFiles hrows h fun file hfile => by
    obtain ⟨-, row, hrow, howner⟩ := hbelow file (hsub.subset hfile)
    rw [hrow, Option.map_some, howner]
  refine ⟨hfiles, fun item hitem => ?_, hnodup.sublist (hsub.map _)⟩
  have hfile : item.1 ∈ select found dir names := by
    rw [← hfiles]
    exact List.mem_map_of_mem hitem
  obtain ⟨hstored, row, hrow, -⟩ := hbelow item.1 (hsub.subset hfile)
  exact ⟨hstored, ⟨row, hrow⟩, hheld item hitem⟩

/-! ## Moving -/

/-- What is known of a file below `source` that is to be moved to `target` with it. -/
structure MoveItem.Offered (service : Service σ) (identity : Identity) (db : Database)
    (source target : String) (item : MoveItem) : Prop
    extends Service.Offered service identity db source item.source item.heldSource where
  target_eq : item.target = (Path.rebase item.source source target).getD item.source
  heldTarget : db.rowAt item.target = none →
    service.resolver.onPath db item.target identity = .ok item.heldTarget

theorem isBelow_of_stored {path dir : String} (h : Database.isStoredBelow path dir = true)
    (hne : path ≠ dir) : Path.isBelow path dir = true := by
  unfold Database.isStoredBelow at h
  rw [Bool.and_eq_true] at h
  rw [Path.isBelow, Bool.and_eq_true]
  exact ⟨decide_eq_true hne, h.2⟩

/-- What is found below a directory can be rebased. -/
theorem rebase_of_stored {path dir : String} (h : Database.isStoredBelow path dir = true)
    (newDir : String) : ∃ moved, Path.rebase path dir newDir = some moved := by
  by_cases hsame : path = dir
  · exact ⟨newDir, by rw [hsame, Path.rebase_self]⟩
  · exact ⟨_, by rw [Path.rebase, if_neg hsame, if_pos (isBelow_of_stored h hsame)]⟩

theorem MoveItem.Offered.rebase_eq {db : Database} {source target : String} {item : MoveItem}
    (h : item.Offered service identity db source target) :
    Path.rebase item.source source target = some item.target := by
  obtain ⟨moved, hmoved⟩ := rebase_of_stored h.below target
  rw [hmoved, h.target_eq, hmoved, Option.getD_some]

theorem MoveItem.Offered.apart {db : Database} {source target : String} {item : MoveItem}
    (h : item.Offered service identity db source target) (hs : Path.Canonical source)
    (ht : Path.Canonical target) (hne : source ≠ target) : item.source ≠ item.target :=
  fun e => Path.rebase_ne hs ht hne h.rebase_eq e.symm

/-- What moving a path comes to. -/
inductive PathMoved (service : Service σ) (identity : Identity) (source target : String)
    (drive : Drive σ) : Except DriveError BatchReport → Drive σ → Prop where
  | refused (e : DriveError) : PathMoved service identity source target drive (.error e) drive
  | single {result : Except DriveError Unit} {after : Drive σ}
      (apart : ¬ (source = target ∨ Path.isBelow target source = true))
      (notRoot : target ≠ Path.root)
      (moved : Moved service
        (service.resolver.Permits drive.db identity .update source ∧
          service.resolver.Permits drive.db identity .create target)
        source target drive result after) :
      PathMoved service identity source target drive (result.map fun _ => ⟨[target], []⟩) after
  | batch {items : List MoveItem} {report : BatchReport} {after : Drive σ}
      (apart : ¬ (source = target ∨ Path.isBelow target source = true))
      (offered : ∀ item ∈ items, item.Offered service identity drive.db source target)
      (distinct : (items.map (·.source)).Nodup)
      (batch : Batch
        (fun item => Moved service
          (item.heldSource.has .update = true ∧ item.heldTarget.has .create = true)
          item.source item.target)
        (·.source) (·.target) items drive report after) :
      PathMoved service identity source target drive (.ok report) after

/-- The items of a batch go through the files and their new paths side by side. -/
theorem zipWith_items {files : List File} {rebased : File → String}
    {sources : List (File × Permissions)} {targets : List (String × Permissions)}
    (hsources : sources.map (·.1) = files) (htargets : targets.map (·.1) = files.map rebased) :
    let items := sources.zipWith
      (fun (file, held) (target, heldTarget) => MoveItem.mk file.path target held heldTarget)
      targets
    items.map (·.source) = files.map (·.path) ∧
      ∀ item ∈ items, ∃ s ∈ sources, ∃ t ∈ targets,
        t.1 = rebased s.1 ∧ item = ⟨s.1.path, t.1, s.2, t.2⟩ := by
  induction sources generalizing files targets with
  | nil =>
    subst hsources
    simp
  | cons s sources ih =>
    subst hsources
    cases targets with
    | nil => simp at htargets
    | cons t targets =>
      rw [List.map_cons, List.map_cons, List.map_cons, List.cons.injEq] at htargets
      obtain ⟨hpaths, hitems⟩ := ih rfl htargets.2
      refine ⟨congrArg (s.1.path :: ·) hpaths, fun item hitem => ?_⟩
      rcases List.mem_cons.1 hitem with rfl | hitem
      · exact ⟨s, List.mem_cons_self, t, List.mem_cons_self, htargets.1, rfl⟩
      · obtain ⟨s', hs, t', ht, hrebased, hmk⟩ := hitems item hitem
        exact ⟨s', List.mem_cons_of_mem _ hs, t', List.mem_cons_of_mem _ ht, hrebased, hmk⟩

/-- Moving a path ends as moving one file by itself does, or as a batch of what moving one file below
it comes to. -/
theorem Ends.movePath {moves : MoveItem → Drive σ → Except DriveError Unit → Drive σ → Prop}
    {P : Except DriveError BatchReport → Drive σ → Prop} {source target : String}
    (names : Option (List String)) (hkeyed : drive.db.Keyed)
    (item_ends : ∀ item drive, (service.moveItem item).Ends drive (moves item drive))
    (refused : ∀ e, P (.error e) drive)
    (single : ¬ (Path.normalize source = Path.normalize target ∨
        Path.isBelow (Path.normalize target) (Path.normalize source) = true) →
      Path.normalize target ≠ Path.root →
        (service.moveOne identity (Path.normalize source) (Path.normalize target)).Ends drive
          fun result after => P (result.map fun _ => ⟨[Path.normalize target], []⟩) after)
    (batch : ∀ items report after, ¬ (Path.normalize source = Path.normalize target ∨
        Path.isBelow (Path.normalize target) (Path.normalize source) = true) →
      (∀ item ∈ items, MoveItem.Offered service identity drive.db (Path.normalize source)
        (Path.normalize target) item) → (items.map (·.source)).Nodup →
        Batch moves (·.source) (·.target) items drive report after → P (.ok report) after) :
    (service.movePath identity source target names).Ends drive P := by
  unfold Service.movePath
  refine Ends.guard (fun _ => refused _) fun hapart => ?_
  refine Ends.query_bind (fun e _ => refused e) fun found hfound => ?_
  by_cases hsingle : isSingle found (Path.normalize source) = true
  · rw [if_pos hsingle]
    refine Ends.lift_bind (fun e _ => refused e) fun path hpath => ?_
    obtain ⟨rfl, hroot⟩ := filePath_eq_ok hpath
    rw [Path.normalize_normalize] at hroot ⊢
    refine Ends.bind ((single hapart hroot).mono ?_)
    rintro (e | _) after hmoved
    · exact hmoved
    · exact hmoved
  · rw [if_neg hsingle]
    refine Ends.guard (fun _ => refused _) fun _ => ?_
    refine Ends.query_bind (fun e _ => refused e) fun sources hsources => ?_
    refine Ends.query_bind (fun e _ => refused e) fun targets htargets => ?_
    obtain ⟨hfiles, hoffered, hnodup⟩ := select_offered hkeyed hfound hsingle hsources
    obtain ⟨rows, hrows⟩ := Database.fileRows_of_filesAt hfound
    obtain ⟨hpaths, hheld⟩ := Resolver.onPath_of_onPaths hrows htargets
    obtain ⟨hitems, hmem⟩ := zipWith_items hfiles hpaths
    refine (each_ends _ _ item_ends _ drive).mono ?_
    rintro _ after ⟨report, rfl, hbatch⟩
    refine batch _ report after hapart (fun item hitem => ?_) ?_ hbatch
    · obtain ⟨s, hs, t, ht, htarget, rfl⟩ := hmem item hitem
      exact ⟨hoffered s hs, htarget, hheld t ht⟩
    · rw [hitems]
      exact hnodup

theorem movePath_ends (service : Service σ) (identity : Identity) (source target : String)
    (names : Option (List String)) (hkeyed : drive.db.Keyed) :
    (service.movePath identity source target names).Ends drive
      (PathMoved service identity (Path.normalize source) (Path.normalize target) drive) := by
  apply Ends.movePath names hkeyed fun item drive => moveItem_ends item
  · exact .refused
  · intro hapart hroot
    exact (moveOne_ends _ _).mono fun result after hmoved => .single hapart hroot hmoved
  · intro items report after hapart hoffered hdistinct hbatch
    exact .batch hapart hoffered hdistinct hbatch

/-! ## Deleting -/

/-- What deleting a path comes to. -/
inductive PathDeleted (service : Service σ) (identity : Identity) (path : String)
    (drive : Drive σ) : Except DriveError BatchReport → Drive σ → Prop where
  | refused (e : DriveError) : PathDeleted service identity path drive (.error e) drive
  | single {result : Except DriveError Unit} {after : Drive σ}
      (removed : Removed service (service.resolver.Permits drive.db identity .delete path) path
        drive result after) :
      PathDeleted service identity path drive (result.map fun _ => ⟨[path], []⟩) after
  | batch {items : List (File × Permissions)} {report : BatchReport} {after : Drive σ}
      (offered : ∀ item ∈ items, Offered service identity drive.db path item.1.path item.2)
      (batch : Batch (fun item => Removed service (item.2.has .delete = true) item.1.path)
        (·.1.path) (·.1.path) items drive report after) :
      PathDeleted service identity path drive (.ok report) after

theorem deleteItem_ends (item : File × Permissions) :
    (service.deleteItem item).Ends drive
      (Removed service (item.2.has .delete = true) item.1.path drive) := by
  unfold deleteItem
  refine Ends.lift_bind (fun e _ => .refused e) fun _ hdelete => ?_
  exact remove_ends (require_eq_ok hdelete)

theorem deletePath_ends (service : Service σ) (identity : Identity) (path : String)
    (names : Option (List String)) (hkeyed : drive.db.Keyed) :
    (service.deletePath identity path names).Ends drive
      (PathDeleted service identity (Path.normalize path) drive) := by
  unfold deletePath
  refine Ends.guard (fun _ => .refused _) fun _ => ?_
  refine Ends.query_bind (fun e _ => .refused e) fun found hfound => ?_
  by_cases hsingle : isSingle found (Path.normalize path) = true
  · rw [if_pos hsingle]
    refine Ends.authorize_bind .refused fun hdelete => ?_
    refine Ends.bind ((remove_ends hdelete).mono ?_)
    rintro (e | _) after hremoved
    · exact .single hremoved
    · exact .single hremoved
  · rw [if_neg hsingle]
    refine Ends.guard (fun _ => .refused _) fun _ => ?_
    refine Ends.query_bind (fun e _ => .refused e) fun permitted hpermitted => ?_
    obtain ⟨-, hoffered, -⟩ := select_offered hkeyed hfound hsingle hpermitted
    refine (each_ends _ _ (fun item drive => deleteItem_ends item) permitted drive).mono ?_
    rintro _ after ⟨report, rfl, hbatch⟩
    exact .batch hoffered hbatch

end FileDrive.Service
