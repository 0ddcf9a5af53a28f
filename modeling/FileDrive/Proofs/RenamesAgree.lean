import FileDrive.Proofs.AlikeDrives
import FileDrive.Proofs.RenamedRecords

/-!
# Two ways to rename a file

A file gets another path by a move, or by an update that brings nothing else. When the paths differ,
the two come to the same on all metadata, but for the time that they write down
(`prepare_undated_of_ne`). When they are one path, the update looks at no record. But the move finds
that each record on the path stands in the way of one about the same principal, which is that record
itself, and takes all of them out (`move_self`). So the two agree except on a file that is renamed to
its own path and has records there.
-/

namespace FileDrive.Rename

open FileDrive.Time

variable {db : Database} {one two : Rename} {now later : Timestamp} {path newPath : String}
  {contentType description : String} {files : List FileRow} {row : FileRow}

/-- What is known of the file at a path stays, but for the path and the time of its change. -/
def OnlyPath (rename : Rename) (db : Database) (path : String) : Prop :=
  ∀ now row, row ∈ db.files.getD [] → row.path = path →
    (rename.change now row).undated = row.undated

theorem onlyPath_move (db : Database) (path : String) : move.OnlyPath db path := fun _ _ _ _ => rfl

/-- An update that brings no content and the description that is there brings nothing. -/
theorem onlyPath_update (hkeyed : db.Keyed)
    (hdescription : ∀ row, db.rowAt path = some row → description = row.description) :
    (update 0 contentType description).OnlyPath db path := by
  intro now row hrow hpath
  rw [hdescription row (hpath ▸ hkeyed.rowAt_of_mem hrow)]
  rfl

/-- To another path, two renames that bring nothing else come to the same. -/
theorem prepare_undated_of_ne (hone : one.OnlyPath db path) (htwo : two.OnlyPath db path)
    (hne : path ≠ newPath) (now later : Timestamp) :
    (one.prepare now path newPath db).map Database.undated =
      (two.prepare later path newPath db).map Database.undated := by
  rw [one.prepare_eq now hne, two.prepare_eq later hne]
  apply Database.bind_repointRecords_undated
  apply Database.reviseFile_undated rfl
  intro row hrow old hold hsame hpath
  have hat : old.path = path := (congrArg FileRow.path hsame :).symm.trans hpath
  show ({ (one.change now row).undated with path := newPath } : FileRow) =
    { (two.change later old).undated with path := newPath }
  rw [hone now row hrow hpath, htwo later old hold hat, hsame]

/-! ## To the same path -/

/-- The row of a file that gets the path it has stays, but for the time. -/
theorem reviseFile_self (hrename : one.OnlyPath db path) (hfiles : db.fileRows = .ok files)
    (hrow : db.rowAt path = some row) (now : Timestamp) :
    ∃ mid, db.reviseFile path path (one.change now) = .ok mid ∧ mid.undated = db.undated ∧
      mid.permissionRows = db.permissionRows := by
  have hrevised := Database.reviseFile_of_rows hfiles path path (one.change now)
  rw [hrow, if_neg (by simp), if_neg fun h => h.1 rfl] at hrevised
  refine ⟨_, hrevised, ?_, rfl⟩
  have hstored : db.files = some files := (Database.fileRows_eq_ok.1 hfiles).2
  have hrows : (files.map fun row => if row.path = path then
      { one.change now row with path := path } else row).map FileRow.undated =
        files.map FileRow.undated := by
    rw [List.map_map]
    refine List.map_congr_left fun row hmem => ?_
    rw [Function.comp_apply]
    by_cases hat : row.path = path
    · rw [if_pos hat]
      show ({ (one.change now row).undated with path := path } : FileRow) = row.undated
      rw [hrename now row (by rwa [hstored]) hat, ← hat]
      rfl
    · rw [if_neg hat]
  have hsame : db.undated.withFiles (files.map FileRow.undated) = db.undated := by
    rw [Database.undated, hstored]
    rfl
  exact (congrArg db.undated.withFiles hrows).trans hsame

/-- All rows on a path stand in their own way. -/
theorem repointedRows_self (rows : List PermissionRow) (path : String) :
    Database.repointedRows rows path path = rows.filter (·.path ≠ path) := by
  have hunreplaced : Database.unreplaced rows path path = rows.filter (·.path ≠ path) := by
    refine List.filter_congr fun row hrow => ?_
    have hitself : row.path = path → (rows.any fun other => other.path = path &&
        other.kind = row.kind && other.principal = row.principal) = true :=
      fun hat => List.any_eq_true.2 ⟨row, hrow, by simp [hat]⟩
    by_cases hat : row.path = path
    · simp [hat, hitself hat]
    · simp [hat]
  rw [Database.repointedRows, hunreplaced]
  refine (List.map_congr_left fun row hrow => ?_).trans (List.map_id _)
  rw [if_neg (by simpa using (List.mem_filter.1 hrow).2), id]

/-- A move of a file to its own path takes out the records there. -/
theorem move_self (hfiles : db.fileRows = .ok files) (hrow : db.rowAt path = some row)
    (now : Timestamp) :
    (move.prepare now path path db).map Database.undated =
      db.permissionRows.map fun rows =>
        db.undated.withPermissions (rows.filter (·.path ≠ path)) := by
  obtain ⟨mid, hmid, hundated, hrecords⟩ := reviseFile_self (onlyPath_move db path) hfiles hrow now
  show ((db.reviseFile path path (move.change now)) >>= fun mid =>
    mid.repointRecords path path).map _ = _
  rw [hmid]
  show (mid.repointRecords path path).map _ = _
  rcases hrows : db.permissionRows with e | rows
  · unfold Database.repointRecords
    rw [hrecords, hrows]
    rfl
  · rw [Database.repointRecords_of_rows (hrecords.trans hrows), repointedRows_self]
    show Except.ok (mid.undated.withPermissions _) = _
    rw [hundated]
    rfl

/-- An update of a file that brings nothing and keeps its path leaves the records there. -/
theorem update_self (hupdate : (update 0 contentType description).OnlyPath db path)
    (hfiles : db.fileRows = .ok files) (hrow : db.rowAt path = some row) (now : Timestamp) :
    ((update 0 contentType description).prepare now path path db).map Database.undated =
      .ok db.undated := by
  obtain ⟨mid, hmid, hundated, -⟩ := reviseFile_self hupdate hfiles hrow now
  show ((db.reviseFile path path ((update 0 contentType description).change now)) >>= fun mid =>
    if path = path then pure mid else mid.repointRecords path path).map _ = _
  rw [hmid]
  show (if path = path then Except.ok mid else mid.repointRecords path path).map _ = _
  rw [if_pos rfl]
  exact congrArg Except.ok hundated

/-! ## When the two ways agree -/

/-- What fails on the row of the file fails in both ways. -/
theorem prepare_of_error {e : DriveError} (rename : Rename) (now : Timestamp)
    (hfails : ∀ change, db.reviseFile path newPath change = .error e) :
    rename.prepare now path newPath db = .error e := by
  cases rename with
  | move =>
    show (db.reviseFile path newPath (move.change now) >>= fun mid =>
      mid.repointRecords path newPath) = _
    rw [hfails]
    rfl
  | update size contentType description =>
    show (db.reviseFile path newPath ((update size contentType description).change now) >>=
      fun mid => if path = newPath then pure mid else mid.repointRecords path newPath) = _
    rw [hfails]
    rfl

/-- A file that is not there cannot be renamed in either way. -/
theorem reviseFile_of_missing (newPath : String)
    (hmissing : ∀ files, db.fileRows = .ok files → db.rowAt path = none) :
    ∃ e, ∀ change, db.reviseFile path newPath change = .error e := by
  rcases hfiles : db.fileRows with e | files
  · refine ⟨e, fun change => ?_⟩
    unfold Database.reviseFile
    rw [hfiles]
    rfl
  · refine ⟨.fileNotFound path, fun change => ?_⟩
    rw [Database.reviseFile_of_rows hfiles, hmissing files hfiles]
    rfl

/-- Taking out the records on a path changes nothing where there are none, and there only. -/
theorem withPermissions_eq_self {rows : List PermissionRow} (hrows : db.permissionRows = .ok rows)
    (path : String) :
    db.undated.withPermissions (rows.filter (·.path ≠ path)) = db.undated ↔
      ∀ record ∈ rows, record.path ≠ path := by
  have hstored : db.permissions = some rows := (Database.permissionRows_eq_ok.1 hrows).2
  have hkept : rows.filter (·.path ≠ path) = rows ↔ ∀ record ∈ rows, record.path ≠ path := by
    simp [List.filter_eq_self]
  rw [← hkept]
  constructor
  · intro hsame
    have hpermissions : some (rows.filter (·.path ≠ path)) = db.permissions :=
      congrArg Database.permissions hsame
    exact Option.some.inj (hpermissions.trans hstored)
  · intro hsame
    rw [hsame, Database.withPermissions, ← hstored]
    rfl

/-- A move and an update that brings nothing but the new path fail alike, or leave the same metadata
but for the time of the change, unless a file is renamed to its own path. Then the update leaves
everything and the move takes out the records on the path, so they agree only where there are
none. -/
theorem renames_agree_iff (hkeyed : db.Keyed) (now later : Timestamp)
    (path newPath contentType other : String) :
    let description := ((db.rowAt path).map (·.description)).getD other
    let moved := (move.prepare now path newPath db).map Database.undated
    let updated :=
      ((update 0 contentType description).prepare later path newPath db).map Database.undated
    (moved = updated ↔ (path = newPath → ∀ files row, db.fileRows = .ok files →
        db.rowAt path = some row →
          ∃ rows, db.permissionRows = .ok rows ∧ ∀ record ∈ rows, record.path ≠ path)) ∧
      (path = newPath → ∀ files row, db.fileRows = .ok files → db.rowAt path = some row →
        moved = db.permissionRows.map (fun rows =>
          db.undated.withPermissions (rows.filter (·.path ≠ path))) ∧
        updated = .ok db.undated) := by
  intro description moved updated
  have hupdate : (update 0 contentType description).OnlyPath db path :=
    onlyPath_update hkeyed fun row hrow => by simp [description, hrow]
  by_cases hne : path ≠ newPath
  · have hsame : moved = updated :=
      prepare_undated_of_ne (onlyPath_move db path) hupdate hne now later
    exact ⟨⟨fun _ h => absurd h hne, fun _ => hsame⟩, fun h => absurd h hne⟩
  obtain rfl := not_ne_iff.1 hne
  have hself : ∀ files row, db.fileRows = .ok files → db.rowAt path = some row →
      moved = db.permissionRows.map (fun rows =>
        db.undated.withPermissions (rows.filter (·.path ≠ path))) ∧ updated = .ok db.undated :=
    fun files row hfiles hrow => ⟨move_self hfiles hrow now, update_self hupdate hfiles hrow later⟩
  refine ⟨⟨fun hsame _ files row hfiles hrow => ?_, fun hclear => ?_⟩, fun _ => hself⟩
  · obtain ⟨hmoved, hupdated⟩ := hself files row hfiles hrow
    rw [hmoved, hupdated] at hsame
    rcases hrows : db.permissionRows with e | rows
    · rw [hrows] at hsame
      cases hsame
    · rw [hrows] at hsame
      exact ⟨rows, rfl, (withPermissions_eq_self hrows path).1 (Except.ok.inj hsame)⟩
  · by_cases hthere : ∃ files row, db.fileRows = .ok files ∧ db.rowAt path = some row
    · obtain ⟨files, row, hfiles, hrow⟩ := hthere
      obtain ⟨hmoved, hupdated⟩ := hself files row hfiles hrow
      obtain ⟨rows, hrows, hnone⟩ := hclear rfl files row hfiles hrow
      rw [hmoved, hupdated, hrows]
      exact congrArg Except.ok ((withPermissions_eq_self hrows path).2 hnone)
    · have hmissing : ∀ files, db.fileRows = .ok files → db.rowAt path = none := by
        intro files hfiles
        by_contra hrow
        obtain ⟨row, hrow⟩ := Option.ne_none_iff_exists'.1 hrow
        exact hthere ⟨files, row, hfiles, hrow⟩
      obtain ⟨e, hfails⟩ := reviseFile_of_missing path hmissing
      exact congrArg (Except.map _) ((prepare_of_error move now hfails).trans
        (prepare_of_error _ later hfails).symm)

/-- A file with a record goes to where there is a record about the same principal. -/
theorem renames_agree_iff_on_taken_record :
    let file : FileRow := ⟨"/a", 1, "text/plain", "notes", "ann", "", ""⟩
    let db := (Database.empty.withFiles [file]).withPermissions
      [⟨"/a", 1, 0, "user", "eve"⟩, ⟨"/b", 0, 1, "user", "eve"⟩]
    db.Keyed ∧
      (move.prepare .epoch "/a" "/b" db).map Database.undated =
        ((update 0 "text/html" "notes").prepare (.next .epoch) "/a" "/b" db).map
          Database.undated := by
  intro file db
  have hkeyed : db.Keyed := List.nodup_singleton _
  have hiff := (renames_agree_iff hkeyed .epoch (.next .epoch) "/a" "/b" "text/html" "").1
  exact ⟨hkeyed, hiff.2 fun heq => absurd heq (by decide)⟩

/-- A file is renamed to its own path: the move takes out its record, and the update does not. -/
theorem renames_differ_on_own_path :
    let file : FileRow := ⟨"/a", 1, "text/plain", "", "ann", "", ""⟩
    let record : PermissionRow := ⟨"/a", 1, 0, "user", "eve"⟩
    let db := (Database.empty.withFiles [file]).withPermissions [record]
    let moved := move.prepare .epoch "/a" "/a" db
    let updated := (update 0 "text/plain" file.description).prepare .epoch "/a" "/a" db
    db.Keyed ∧ db.rowAt "/a" = some file ∧
      moved.map (·.permissions) = .ok (some []) ∧
      updated.map (·.permissions) = .ok (some [record]) := by
  intro file record db moved updated
  exact ⟨List.nodup_singleton _, by decide, by rfl, by rfl⟩

end FileDrive.Rename
