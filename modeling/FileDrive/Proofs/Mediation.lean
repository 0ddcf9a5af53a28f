import FileDrive.Proofs.Serving
import FileDrive.Storage.Directory

/-!
# Every write is mediated

Whatever a request changes in the metadata, its caller was permitted to change before the request
began (`serve_mediated`). For a request on one file this is the check that the request makes. For a
batch it needs an argument, because what the caller holds is looked up for all files before the
first one is moved, and the files move into each other's places: a path that a batch changes is that
of a file it was given, or one that was free when it began (`Shifted`).
-/

namespace FileDrive.Service

open FileDrive.DriveM FileDrive.Time

variable {σ α : Type} {service : Service σ} {identity : Identity} {drive after : Drive σ}

/-- A request takes a file, if there is one, from one path to another. -/
def Takes : Request → String → String → Prop
  | .update path request, source, target =>
    source = Path.normalize path ∧ target = request.target source
  | .move dir newDir _, source, target =>
    Path.rebase source (Path.normalize dir) (Path.normalize newDir) = some target
  | _, _, _ => False

/-- The file at a path has gone to another one. It keeps its owner and its time of creation. -/
def Went (before after : Database) (source target : String) : Prop :=
  ∃ old new, before.rowAt source = some old ∧ after.rowAt target = some new ∧
    new.ownerId = old.ownerId ∧ new.createdAt = old.createdAt

/-- A request has taken a file from one path to another. -/
structure Relocated (request : Request) (before after : Database) (source target : String) :
    Prop where
  takes : Takes request source target
  apart : source ≠ target
  went : Went before after source target

/-- What a request of a caller changes in the metadata, the caller was permitted to change. -/
structure Mediated (resolver : Resolver) (identity : Identity) (request : Request)
    (before after : Database) : Prop where
  /-- The row of a file is changed or taken out by those who may delete or update the file. -/
  changed : ∀ path row, before.rowAt path = some row → after.rowAt path ≠ some row →
    resolver.Permits before identity (if request.deletes then .delete else .update) path
  /-- A row is added by those who may create at its path. -/
  added : ∀ path row, before.rowAt path = none → after.rowAt path = some row →
    resolver.Permits before identity .create path
  /-- Records are replaced by those who may update permissions, or go with their file. -/
  records : ∀ path, after.recordRowsAt path ≠ before.recordRowsAt path →
    (∃ named records, request = .setRecords named records ∧ path = Path.normalize named ∧
        resolver.Permits before identity .updatePermissions path) ∨
      (request.deletes = true ∧ (∃ row, before.rowAt path = some row) ∧
        after.rowAt path = none) ∨
      ∃ source target, Relocated request before after source target ∧
        (path = source ∨ path = target)
  /-- A share is issued by those who may share and hold what it gives. -/
  shares : ∀ row ∈ after.shareTable, row ∉ before.shareTable →
    identity.isGuest = false ∧ resolver.Permits before identity .share row.path ∧
      ∀ c, (Permissions.ofMask row.mask).has c = true → resolver.Permits before identity c row.path

variable {resolver : Resolver} {request : Request} {before db : Database}

/-- To change nothing is to change nothing without permission. -/
theorem Mediated.of_same : Mediated resolver identity request before before where
  changed _ _ hrow hne := absurd hrow hne
  added path row hnone hrow := by
    rw [hnone] at hrow
    cases hrow
  records _ hne := absurd rfl hne
  shares row hmem hnew := absurd hmem hnew

/-! ## Relocating -/

/-- What moving items one by one does to a path. -/
inductive Shifted (allowed : α → Prop) (source target : α → String) (items : List α)
    (before after : Database) (path : String) : Prop where
  | kept (row : after.rowAt path = before.rowAt path)
      (records : after.recordRowsAt path = before.recordRowsAt path)
  | source {item : α} (mem : item ∈ items) (at_source : path = source item) (granted : allowed item)
      (went : Went before after (source item) (target item))
  | target {item : α} (mem : item ∈ items) (at_target : path = target item)
      (free : before.rowAt path = none) (granted : allowed item)
      (went : Went before after (source item) (target item))

/-- Items stand for different files, and none is to stay where it is. -/
structure Distinct (source target : α → String) (items : List α) (db : Database) : Prop where
  nodup : (items.map source).Nodup
  apart : ∀ item ∈ items, source item ≠ target item
  row : ∀ item ∈ items, ∃ row, db.rowAt (source item) = some row

theorem Distinct.tail {source target : α → String} {item : α} {rest : List α} {db : Database}
    (h : Distinct source target (item :: rest) db) : Distinct source target rest db where
  nodup := (List.nodup_cons.1 h.nodup).2
  apart other hother := h.apart other (List.mem_cons_of_mem _ hother)
  row other hother := h.row other (List.mem_cons_of_mem _ hother)

/-- When the first item has been moved, the rows of the others are where they were. -/
theorem Distinct.rowAt_rest {source target : α → String} {item other : α} {rest : List α}
    {touched : List String} {row : FileRow} (h : Distinct source target (item :: rest) before)
    (hbecomes : before.Becomes db
      (Function.update (Function.update before.rowAt (source item) none) (target item) (some row))
      touched)
    (hfree : before.rowAt (target item) = none) (hother : other ∈ rest) :
    db.rowAt (source other) = before.rowAt (source other) := by
  obtain ⟨found, hfound⟩ := h.row other (List.mem_cons_of_mem _ hother)
  have hsource : source other ≠ source item := fun e =>
    (List.nodup_cons.1 h.nodup).1 (e ▸ List.mem_map_of_mem hother)
  have htarget : source other ≠ target item := by
    intro e
    rw [e, hfree] at hfound
    cases hfound
  rw [hbecomes.rowAt, Function.update_of_ne htarget, Function.update_of_ne hsource]

/-- A file that the first item has brought to a path stays there: the others neither start from that
path nor find it free. -/
theorem Distinct.stays {allowed : α → Prop} {source target : α → String} {item : α} {rest : List α}
    {mid : Database} {new : FileRow} (h : Distinct source target (item :: rest) before)
    (hfree : before.rowAt (target item) = none) (harrived : mid.rowAt (target item) = some new)
    (hrest : Shifted allowed source target rest mid db (target item)) :
    db.rowAt (target item) = some new := by
  cases hrest with
  | kept hkept _ => exact hkept.trans harrived
  | source hmem hat _ _ =>
    obtain ⟨found, hfound⟩ := h.row _ (List.mem_cons_of_mem _ hmem)
    rw [← hat, hfree] at hfound
    cases hfound
  | target _ _ hnone _ _ =>
    rw [harrived] at hnone
    cases hnone

/-- What the first item of some does and what the others do then, put together. -/
theorem shift_cons {allowed : α → Prop} {source target : α → String} {item : α} {rest : List α}
    {mid : Database} (hdistinct : Distinct source target (item :: rest) before)
    (hone : mid = before ∨ (allowed item ∧ Shifts before mid (source item) (target item)))
    (hrest : Distinct source target rest mid →
      ∀ path, Shifted allowed source target rest mid db path) (path : String) :
    Shifted allowed source target (item :: rest) before db path := by
  rcases hone with rfl | ⟨hgranted, old, new, hold, hfree, howner, hcreated, hbecomes⟩
  · cases hrest hdistinct.tail path with
    | kept hkept hrecords => exact .kept hkept hrecords
    | source hmem hat hgranted hwent =>
      exact .source (List.mem_cons_of_mem _ hmem) hat hgranted hwent
    | target hmem hat hfree hgranted hwent =>
      exact .target (List.mem_cons_of_mem _ hmem) hat hfree hgranted hwent
  · have hrows : ∀ other ∈ rest, mid.rowAt (source other) = before.rowAt (source other) :=
      fun other hother => hdistinct.rowAt_rest hbecomes hfree hother
    have htail : Distinct source target rest mid :=
      { hdistinct.tail with
        row := fun other hother => by
          rw [hrows other hother]
          exact hdistinct.row other (List.mem_cons_of_mem _ hother) }
    have hwents : ∀ other ∈ rest, Went mid db (source other) (target other) →
        Went before db (source other) (target other) := by
      rintro other hother ⟨found, moved, hfound, hmoved⟩
      exact ⟨found, moved, by rw [← hrows other hother]; exact hfound, hmoved⟩
    have harrived : mid.rowAt (target item) = some new := by
      rw [hbecomes.rowAt, Function.update_self]
    have hstays : db.rowAt (target item) = some new :=
      hdistinct.stays hfree harrived (hrest htail (target item))
    have hwent : Went before db (source item) (target item) :=
      ⟨old, new, hold, hstays, howner, hcreated⟩
    -- A path is the source of the first item, its target, or left to the others.
    by_cases hs : path = source item
    · exact .source List.mem_cons_self hs hgranted hwent
    · by_cases ht : path = target item
      · exact .target List.mem_cons_self ht (ht ▸ hfree) hgranted hwent
      · have hsame : mid.rowAt path = before.rowAt path := by
          rw [hbecomes.rowAt, Function.update_of_ne ht, Function.update_of_ne hs]
        cases hrest htail path with
        | kept hkept hrecords =>
          refine .kept (hkept.trans hsame) (hrecords.trans (hbecomes.records path ?_))
          simp [hs, ht]
        | source hmem hat hgranted hwent =>
          exact .source (List.mem_cons_of_mem _ hmem) hat hgranted (hwents _ hmem hwent)
        | target hmem hat hnone hgranted hwent =>
          exact .target (List.mem_cons_of_mem _ hmem) hat (hsame ▸ hnone) hgranted
            (hwents _ hmem hwent)

theorem shift_batch {allowed : α → Prop} {source target path result : α → String} {items : List α}
    {report : BatchReport}
    (h : Batch (fun item => Moved service (allowed item) (source item) (target item)) path result
      items drive report after)
    (hdistinct : Distinct source target items drive.db) (p : String) :
    Shifted allowed source target items drive.db after.db p := by
  induction h generalizing p with
  | nil => exact .kept rfl rfl
  | done one others ih =>
    have hone := one.shifts (hdistinct.apart _ List.mem_cons_self)
    exact shift_cons hdistinct (hone.imp_right fun h => ⟨h.1, h.2.2⟩) ih p
  | failed one others ih =>
    have hone := one.shifts (hdistinct.apart _ List.mem_cons_self)
    exact shift_cons hdistinct (hone.imp_right fun h => ⟨h.1, h.2.2⟩) ih p

/-- Moving and deleting leave everything but files and records alone. -/
theorem Batch.rest_eq {comes : α → Drive σ → Except DriveError Unit → Drive σ → Prop}
    {path result : α → String} {items : List α} {report : BatchReport}
    (h : Batch comes path result items drive report after)
    (one : ∀ item drive outcome mid, comes item drive outcome mid → mid.db.rest = drive.db.rest) :
    after.db.rest = drive.db.rest :=
  h.preserves (I := fun mid => mid.db.rest = drive.db.rest)
    (fun item _ drive outcome mid hinv hcomes => (one item drive outcome mid hcomes).trans hinv) rfl

/-- When all items of a batch are moved by those who may move them, the batch is mediated. -/
theorem Mediated.of_shifted {allowed : α → Prop} {source target : α → String} {items : List α}
    (h : ∀ path, Shifted allowed source target items before db path)
    (hrest : db.rest = before.rest)
    (hpermitted : ∀ item ∈ items, allowed item →
      resolver.Permits before identity .update (source item) ∧
        (before.rowAt (target item) = none →
          resolver.Permits before identity .create (target item)))
    (htakes : ∀ item ∈ items, Takes request (source item) (target item))
    (hapart : ∀ item ∈ items, source item ≠ target item) (hdeletes : request.deletes = false) :
    Mediated resolver identity request before db where
  changed path row hrow hne := by
    rw [hdeletes]
    cases h path with
    | kept hkept _ => exact absurd (hkept.trans hrow) hne
    | source hmem hat hgranted _ =>
      rw [hat]
      exact (hpermitted _ hmem hgranted).1
    | target _ _ hfree _ _ =>
      rw [hrow] at hfree
      cases hfree
  added path row hnone hrow := by
    cases h path with
    | kept hkept _ =>
      rw [hkept, hnone] at hrow
      cases hrow
    | source _ hat _ hwent =>
      obtain ⟨_, _, hfound, -⟩ := hwent
      rw [← hat, hnone] at hfound
      cases hfound
    | target hmem hat hfree hgranted _ =>
      subst hat
      exact (hpermitted _ hmem hgranted).2 hfree
  records path hne := by
    have relocated : ∀ item ∈ items, Went before db (source item) (target item) →
        Relocated request before db (source item) (target item) := fun item hmem hwent =>
      ⟨htakes item hmem, hapart item hmem, hwent⟩
    cases h path with
    | kept _ hkept => exact absurd hkept hne
    | source hmem hat _ hwent =>
      exact Or.inr (Or.inr ⟨_, _, relocated _ hmem hwent, Or.inl hat⟩)
    | target hmem hat _ _ hwent =>
      exact Or.inr (Or.inr ⟨_, _, relocated _ hmem hwent, Or.inr hat⟩)
  shares row hmem hnew := by
    rw [Database.shareTable_of_rest hrest] at hmem
    exact absurd hmem hnew

/-- One file is moved by somebody who may move it. -/
theorem Mediated.of_shift {source target : String} (h : Shifts before db source target)
    (hupdate : resolver.Permits before identity .update source)
    (hcreate : resolver.Permits before identity .create target)
    (htakes : Takes request source target) (hapart : source ≠ target)
    (hdeletes : request.deletes = false) : Mediated resolver identity request before db := by
  have hdistinct : Distinct (fun _ : Unit => source) (fun _ => target) [()] before :=
    ⟨List.nodup_singleton _, fun _ _ => hapart, fun _ _ => ⟨h.choose, h.choose_spec.choose_spec.1⟩⟩
  have hrest : db.rest = before.rest := by
    obtain ⟨_, _, -, -, -, -, hbecomes⟩ := h
    exact hbecomes.rest
  have hshifted : ∀ path, Shifted (fun _ : Unit => True) (fun _ => source) (fun _ => target) [()]
      before db path :=
    shift_cons hdistinct (Or.inr ⟨trivial, h⟩) fun _ _ => .kept rfl rfl
  exact .of_shifted hshifted hrest (fun _ _ _ => ⟨hupdate, fun _ => hcreate⟩) (fun _ _ => htakes)
    (fun _ _ => hapart) hdeletes

theorem rest_of_moved {allowed : Prop} {source target : String} {result : Except DriveError Unit}
    (h : Moved service allowed source target drive result after) :
    after.db.rest = drive.db.rest := by
  cases h with
  | refused => rfl
  | unmoved => rfl
  | moved _ _ prepared _ =>
    obtain ⟨_, -, -, hbecomes⟩ := Database.moveFile_becomes prepared
    exact hbecomes.rest

theorem mediated_of_moved {dir newDir : String} {names : Option (List String)}
    {result : Except DriveError BatchReport}
    (h : PathMoved service identity (Path.normalize dir) (Path.normalize newDir) drive result
      after) :
    Mediated service.resolver identity (.move dir newDir names) drive.db after.db := by
  cases h with
  | refused => exact .of_same
  | @single result _ apart _ moved =>
    have hne : Path.normalize dir ≠ Path.normalize newDir := fun e => apart (Or.inl e)
    have htakes : Takes (.move dir newDir names) (Path.normalize dir) (Path.normalize newDir) :=
      Path.rebase_self _ _
    rcases moved.shifts hne with hsame | ⟨⟨hupdate, hcreate⟩, -, hshifts⟩
    · rw [hsame]
      exact .of_same
    · exact .of_shift hshifts hupdate hcreate htakes hne rfl
  | @batch items report _ apart offered distinct batch =>
    have htakes : ∀ item ∈ items, Takes (.move dir newDir names) item.source item.target :=
      fun item hitem => (offered item hitem).rebase_eq
    have hapart : ∀ item ∈ items, item.source ≠ item.target := fun item hitem =>
      (offered item hitem).apart (Path.canonical_normalize dir) (Path.canonical_normalize newDir)
        fun hsame => apart (Or.inl hsame)
    refine .of_shifted
      (shift_batch batch ⟨distinct, hapart, fun item hitem => (offered item hitem).row⟩)
      (batch.rest_eq fun _ _ _ _ => rest_of_moved) (fun item hitem hallowed => ?_) htakes hapart rfl
    exact ⟨⟨_, (offered item hitem).held, hallowed.1⟩, fun hfree =>
      ⟨_, (offered item hitem).heldTarget hfree, hallowed.2⟩⟩

/-! ## Deleting -/

/-- What deleting items one by one does to a path. -/
inductive Cleared (allowed : α → Prop) (place : α → String) (items : List α)
    (before after : Database) (path : String) : Prop where
  | kept (row : after.rowAt path = before.rowAt path)
      (records : after.recordRowsAt path = before.recordRowsAt path)
  | cleared {item : α} {row : FileRow} (mem : item ∈ items) (path_eq : path = place item)
      (granted : allowed item) (row : before.rowAt path = some row) (gone : after.rowAt path = none)

theorem clear_cons {allowed : α → Prop} {place : α → String} {item : α} {rest : List α}
    {mid : Database}
    (hone : mid = before ∨ ∃ row, allowed item ∧ before.rowAt (place item) = some row ∧
      before.Becomes mid (Function.update before.rowAt (place item) none) [place item])
    (hrest : ∀ path, Cleared allowed place rest mid db path) (path : String) :
    Cleared allowed place (item :: rest) before db path := by
  rcases hone with rfl | ⟨row, hgranted, hrow, hbecomes⟩
  · cases hrest path with
    | kept hkept hrecords => exact .kept hkept hrecords
    | cleared hmem hat hgranted hrow hgone =>
      exact .cleared (List.mem_cons_of_mem _ hmem) hat hgranted hrow hgone
  · by_cases hp : path = place item
    · subst hp
      have hnone : mid.rowAt (place item) = none := by
        rw [hbecomes.rowAt, Function.update_self]
      cases hrest (place item) with
      | kept hkept _ => exact .cleared List.mem_cons_self rfl hgranted hrow (hkept.trans hnone)
      | cleared _ _ _ hfound _ =>
        rw [hnone] at hfound
        cases hfound
    · have hsame : mid.rowAt path = before.rowAt path := by
        rw [hbecomes.rowAt, Function.update_of_ne hp]
      cases hrest path with
      | kept hkept hrecords =>
        refine .kept (hkept.trans hsame) (hrecords.trans (hbecomes.records path ?_))
        simpa using hp
      | cleared hmem hat hgranted hrow hgone =>
        exact .cleared (List.mem_cons_of_mem _ hmem) hat hgranted (hsame ▸ hrow) hgone

theorem clear_batch {allowed : α → Prop} {place path result : α → String} {items : List α}
    {report : BatchReport}
    (h : Batch (fun item => Removed service (allowed item) (place item)) path result items drive
      report after) (p : String) : Cleared allowed place items drive.db after.db p := by
  induction h generalizing p with
  | nil => exact .kept rfl rfl
  | done one others ih => exact clear_cons one.clears ih p
  | failed one others ih => exact clear_cons one.clears ih p

theorem rest_of_removed {allowed : Prop} {path : String} {result : Except DriveError Unit}
    (h : Removed service allowed path drive result after) : after.db.rest = drive.db.rest := by
  rcases h.clears with hsame | ⟨_, -, -, hbecomes⟩
  · rw [hsame]
  · exact hbecomes.rest

theorem Mediated.of_cleared {allowed : α → Prop} {place : α → String} {items : List α}
    (h : ∀ path, Cleared allowed place items before db path) (hrest : db.rest = before.rest)
    (hpermitted : ∀ item ∈ items, allowed item →
      resolver.Permits before identity .delete (place item))
    (hdeletes : request.deletes = true) : Mediated resolver identity request before db where
  changed path row hrow hne := by
    rw [hdeletes]
    cases h path with
    | kept hkept _ => exact absurd (hkept.trans hrow) hne
    | cleared hmem hat hgranted _ _ =>
      rw [hat]
      exact hpermitted _ hmem hgranted
  added path row hnone hrow := by
    cases h path with
    | kept hkept _ =>
      rw [hkept, hnone] at hrow
      cases hrow
    | cleared _ _ _ hfound _ =>
      rw [hnone] at hfound
      cases hfound
  records path hne := by
    cases h path with
    | kept _ hkept => exact absurd hkept hne
    | cleared _ _ _ hrow hgone => exact Or.inr (Or.inl ⟨hdeletes, ⟨_, hrow⟩, hgone⟩)
  shares row hmem hnew := by
    rw [Database.shareTable_of_rest hrest] at hmem
    exact absurd hmem hnew

theorem mediated_of_deleted {path : String} {names : Option (List String)}
    {result : Except DriveError BatchReport}
    (h : PathDeleted service identity (Path.normalize path) drive result after) :
    Mediated service.resolver identity (.delete path names) drive.db after.db := by
  cases h with
  | refused => exact .of_same
  | single removed =>
    obtain ⟨report, hbatch⟩ :=
      Batch.single (fun _ : Unit => Removed service _ (Path.normalize path)) () (fun _ => "")
        (fun _ => "") removed
    exact .of_cleared (clear_batch hbatch) (rest_of_removed removed) (fun _ _ h => h) rfl
  | batch offered batch =>
    exact .of_cleared (clear_batch batch) (batch.rest_eq fun _ _ _ _ => rest_of_removed)
      (fun item hitem hheld => ⟨_, (offered item hitem).held, hheld⟩) rfl

/-! ## Creating and changing -/

/-- A row is put at a path by those who may update or create there. -/
theorem Mediated.of_put {path : String} {row : FileRow}
    (h : before.Becomes db (Function.update before.rowAt path (some row)) [])
    (hupdate : ∀ old, before.rowAt path = some old → resolver.Permits before identity .update path)
    (hcreate : before.rowAt path = none → resolver.Permits before identity .create path)
    (hdeletes : request.deletes = false) : Mediated resolver identity request before db where
  changed p old hold hne := by
    rw [hdeletes]
    by_cases hp : p = path
    · subst hp
      exact hupdate old hold
    · rw [h.rowAt, Function.update_of_ne hp] at hne
      exact absurd hold hne
  added p new hnone hnew := by
    by_cases hp : p = path
    · subst hp
      exact hcreate hnone
    · rw [h.rowAt, Function.update_of_ne hp, hnone] at hnew
      cases hnew
  records p hne := absurd (h.records p List.not_mem_nil) hne
  shares row hmem hnew := by
    rw [Database.shareTable_of_rest h.rest] at hmem
    exact absurd hmem hnew

theorem mediated_of_created {request : CreateRequest} {result : Except DriveError File}
    (h : Created service identity request drive result after) :
    Mediated service.resolver identity (.create request) drive.db after.db := by
  cases h with
  | refused => exact .of_same
  | unstored => exact .of_same
  | stored _ _ _ found_eq permitted prepared _ =>
    obtain ⟨row, hbecomes, -, hvacant⟩ := becomes_of_prepared prepared
    obtain ⟨users, -, rfl⟩ := Database.file?_eq_ok found_eq
    refine .of_put hbecomes (fun old hold => ?_) (fun hnone => ?_) rfl
    · have hover : request.overwrite = true := by
        by_contra hover
        rw [hvacant (by simpa using hover)] at hold
        cases hold
      rwa [hold, Option.map_some, if_pos ⟨rfl, hover⟩] at permitted
    · rwa [hnone, Option.map_none, if_neg fun h => Bool.false_ne_true h.1] at permitted

theorem mediated_of_updated {path : String} {request : UpdateRequest}
    {result : Except DriveError File}
    (h : Updated service identity (Path.normalize path) request drive result after) :
    Mediated service.resolver identity (.update path request) drive.db after.db := by
  cases h with
  | refused => exact .of_same
  | uncarried => exact .of_same
  | changed notRoot permitted placed content prepared carried =>
    obtain ⟨row, hrow, hfree, hbecomes⟩ := Database.updateFile_becomes prepared
    by_cases hsame : Path.normalize path = request.target (Path.normalize path)
    · rw [if_pos hsame, ← hsame, Function.update_idem] at hbecomes
      refine .of_put hbecomes (fun _ _ => permitted) (fun hnone => ?_) rfl
      rw [hrow] at hnone
      cases hnone
    · rw [if_neg hsame] at hbecomes
      obtain ⟨howner, hcreated⟩ := Database.updatedRow_keeps
      exact .of_shift ⟨row, _, hrow, hfree hsame, howner, hcreated, hbecomes⟩ permitted
        (placed (Ne.symm hsame)).2 ⟨rfl, rfl⟩ hsame rfl

/-! ## Records and shares -/

theorem mediated_of_recordsSet {path : String} {records : List PermissionRecord}
    {result : Except DriveError (List PermissionRecord)}
    (h : RecordsSet service identity (Path.normalize path) records drive result after) :
    Mediated service.resolver identity (.setRecords path records) drive.db after.db := by
  cases h with
  | refused => exact .of_same
  | replaced permitted prepared =>
    have hbecomes := Database.replaceRecords_becomes prepared
    constructor
    case changed =>
      intro p row hrow hne
      rw [hbecomes.rowAt] at hne
      exact absurd hrow hne
    case added =>
      intro p row hnone hrow
      rw [hbecomes.rowAt, hnone] at hrow
      cases hrow
    case records =>
      intro p hne
      have hp : p = Path.normalize path := by
        by_contra hother
        exact hne (hbecomes.records p (by simpa using hother))
      exact Or.inl ⟨path, records, rfl, hp, hp ▸ permitted⟩
    case shares =>
      intro row hmem hnew
      rw [Database.shareTable_of_rest hbecomes.rest] at hmem
      exact absurd hmem hnew

/-- Where files and records stay, only a new share needs a permission. -/
theorem Mediated.of_shares (hrows : db.rowAt = before.rowAt)
    (hrecords : db.recordRowsAt = before.recordRowsAt)
    (hshares : ∀ row ∈ db.shareTable, row ∉ before.shareTable →
      identity.isGuest = false ∧ resolver.Permits before identity .share row.path ∧
        ∀ c, (Permissions.ofMask row.mask).has c = true →
          resolver.Permits before identity c row.path) :
    Mediated resolver identity request before db where
  changed path row hrow hne := by
    rw [hrows] at hne
    exact absurd hrow hne
  added path row hnone hrow := by
    rw [hrows, hnone] at hrow
    cases hrow
  records path hne := by
    rw [hrecords] at hne
    exact absurd rfl hne
  shares := hshares

theorem mediated_of_shareIssued {path : String} {permissions : Permissions}
    {result : Except DriveError Share}
    (h : ShareIssued service identity (Path.normalize path) permissions drive result after) :
    Mediated service.resolver identity (.createShare path permissions) drive.db after.db := by
  cases h with
  | refused => exact .of_same
  | issued member covered prepared =>
    obtain rfl := Database.createShare_eq_ok prepared
    refine .of_shares rfl rfl fun row hmem hnew => ?_
    rw [Database.shareTable, Option.getD_some, List.mem_append, List.mem_singleton] at hmem
    obtain rfl := hmem.resolve_left hnew
    refine ⟨member, covered .share (Or.inl rfl), fun c hc => covered c (Or.inr ?_)⟩
    rwa [Permissions.ofMask_mask] at hc

theorem mediated_of_shareTaken {id : String} {result : Except DriveError Unit}
    (h : ShareTaken id drive result after) :
    Mediated resolver identity (.deleteShare id) drive.db after.db := by
  cases h with
  | refused => exact .of_same
  | taken prepared =>
    obtain rfl := Database.deleteShare_eq_ok prepared
    refine .of_shares rfl rfl fun row hmem hnew => ?_
    rw [Database.shareTable, Option.getD_some] at hmem
    exact absurd (List.mem_of_mem_filter hmem) hnew

/-! ## All requests -/

/-- In every state of a drive in which no two files have the same path, a request changes only what
its caller is permitted to change in that state. -/
theorem serve_mediated (service : Service σ) (identity : Identity) (request : Request)
    (drive : Drive σ) (hkeyed : drive.db.Keyed) :
    Mediated service.resolver identity request drive.db
      ((service.serve identity request).on drive).2.db := by
  have hserved : Served service identity drive request _ _ :=
    serve_ends service identity request hkeyed
  generalize ((service.serve identity request).on drive).2 = after at hserved ⊢
  generalize ((service.serve identity request).on drive).1 = reply at hserved
  cases hserved with
  | looked _ looked =>
    cases looked with
    | unasked => exact .of_same
    | asked => exact .of_same
  | created created => exact mediated_of_created created
  | updated updated => exact mediated_of_updated updated
  | moved moved => exact mediated_of_moved moved
  | deleted deleted => exact mediated_of_deleted deleted
  | recordsSet set => exact mediated_of_recordsSet set
  | shareIssued issued => exact mediated_of_shareIssued issued
  | shareTaken taken => exact mediated_of_shareTaken taken

/-- Ann deletes a file of hers. -/
theorem mediated_deletion_by_owner :
    let ann : Identity := ⟨"ann", "ann", [], "", "", false⟩
    let before := Database.empty.withFiles [⟨"/a", 1, "text/plain", "", "ann", "", ""⟩]
    let service : Service Tree := ⟨Directory.store, .enforcing "admins", 0, toString, fun _ => none⟩
    let deletion := (service.serve ann (.delete "/a" none)).on ⟨before, Tree.empty, .epoch, 0⟩
    before.Keyed ∧ Mediated service.resolver ann (.delete "/a" none) before deletion.2.db := by
  intro ann before service deletion
  have hkeyed : before.Keyed := List.nodup_singleton _
  exact ⟨hkeyed, serve_mediated service ann _ ⟨before, Tree.empty, .epoch, 0⟩ hkeyed⟩

end FileDrive.Service
