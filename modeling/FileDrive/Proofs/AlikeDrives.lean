import FileDrive.Proofs.BatchOutcomes

/-!
# Drives that are alike but for times

Two ways to bring files to where they belong need not look at the clock equally often, and so leave
drives that differ in when their files changed. `Alike` drives are the same but for that. To move a
file comes to the same on both (`Alike.moveItem`), since no check looks at the times.
-/

namespace FileDrive

open FileDrive.DriveM FileDrive.Time

/-- The row without the time of its last change. -/
def FileRow.undated (row : FileRow) : FileRow := { row with updatedAt := "" }

namespace Database

variable {db other : Database} {path newPath : String}

/-- The metadata without the times at which files last changed. -/
def undated (db : Database) : Database := { db with files := db.files.map (·.map FileRow.undated) }

theorem undated_undated (db : Database) : db.undated.undated = db.undated := by
  unfold undated
  cases db.files with
  | none => rfl
  | some rows => simp [FileRow.undated]

theorem fileRows_undated (db : Database) :
    db.undated.fileRows = db.fileRows.map (·.map FileRow.undated) := by
  unfold fileRows rowsOf undated
  cases db.isOpen with
  | false => rfl
  | true => cases db.files <;> rfl

theorem ownerOf_undated (db : Database) (path : String) :
    db.undated.ownerOf path = db.ownerOf path := by
  unfold ownerOf
  rw [fileRows_undated]
  rcases db.fileRows with e | rows
  · rfl
  · show Except.ok (Option.map _ (List.find? _ (rows.map FileRow.undated))) = _
    rw [List.find?_map, Option.map_map]
    rfl

theorem paths_of_allFiles_undated (db : Database) :
    db.undated.allFiles.map (·.map File.path) = db.allFiles.map (·.map File.path) := by
  unfold allFiles
  rw [fileRows_undated, show db.undated.userRows = db.userRows from rfl]
  rcases db.fileRows with e | rows
  · rfl
  · rcases db.userRows with e | users
    · rfl
    · show Except.ok (List.map _ _) = Except.ok (List.map _ _)
      rw [List.map_map, List.map_map, List.map_map]
      rfl

/-- The paths of what is found for a path, given those of all files. -/
def pathsFound (path : String) (paths : List String) : List String :=
  if path ∈ paths then [path]
  else (paths.filter (isStoredBelow · path)).mergeSort fun a b => a ≤ b

theorem paths_of_filesAt (db : Database) (path : String) :
    (db.filesAt path).map (·.map File.path) =
      (db.allFiles.map (·.map File.path)).map (pathsFound path) := by
  unfold filesAt file?
  rcases db.allFiles with e | files
  · rfl
  dsimp only [bind, Except.bind, pure, Except.pure, Except.map]
  rcases hfound : files.find? (·.path = path) with _ | file
  · have hnone : path ∉ files.map File.path := by
      intro hmem
      obtain ⟨file, hfile, hat⟩ := List.mem_map.1 hmem
      exact List.find?_eq_none.1 hfound file hfile (decide_eq_true hat)
    rw [hfound, pathsFound, if_neg hnone, List.filter_map]
    show Except.ok ((byPath _).map File.path) = _
    rw [byPath, List.map_mergeSort (f := File.path) (s := fun a b => a ≤ b) fun _ _ _ _ => rfl]
    rfl
  · have hat : file.path = path := of_decide_eq_true (List.find?_some hfound :)
    have hmem : path ∈ files.map File.path :=
      List.mem_map.2 ⟨file, List.mem_of_find?_eq_some hfound, hat⟩
    rw [hfound, pathsFound, if_pos hmem]
    exact congrArg (fun p => Except.ok [p]) hat

theorem paths_of_filesAt_undated (db : Database) (path : String) :
    (db.undated.filesAt path).map (·.map File.path) =
      (db.filesAt path).map (·.map File.path) := by
  rw [paths_of_filesAt, paths_of_filesAt, paths_of_allFiles_undated]

theorem repointRecords_undated (h : db.undated = other.undated) (source target : String) :
    (db.repointRecords source target).map undated =
      (other.repointRecords source target).map undated := by
  have hrows : db.permissionRows = other.permissionRows :=
    show db.undated.permissionRows = other.undated.permissionRows from h ▸ rfl
  have hwith : ∀ rows, (db.withPermissions rows).undated = (other.withPermissions rows).undated :=
    fun rows => congrArg (·.withPermissions rows) h
  unfold repointRecords
  rw [hrows]
  rcases other.permissionRows with e | rows
  · rfl
  · exact congrArg Except.ok (hwith _)

/-- What is alike but for times stays so when records are moved. -/
theorem bind_repointRecords_undated {one two : Except DriveError Database}
    (h : one.map undated = two.map undated) (source target : String) :
    (one >>= fun db => db.repointRecords source target).map undated =
      (two >>= fun db => db.repointRecords source target).map undated := by
  rcases one with e | db
  · rcases two with e' | other
    · exact congrArg Except.error (Except.error.inj h)
    · cases h
  · rcases two with e' | other
    · cases h
    · exact repointRecords_undated (Except.ok.inj h) source target

theorem map_undated_congr {rows others : List FileRow} {f g : FileRow → FileRow}
    (h : rows.map FileRow.undated = others.map FileRow.undated)
    (hcongr : ∀ row ∈ rows, ∀ other ∈ others, row.undated = other.undated →
      (f row).undated = (g other).undated) :
    (rows.map f).map FileRow.undated = (others.map g).map FileRow.undated := by
  induction rows generalizing others with
  | nil =>
    obtain rfl := List.map_eq_nil_iff.1 h.symm
    rfl
  | cons row rows ih =>
    rcases others with _ | ⟨other, others⟩
    · cases h
    · obtain ⟨hhead, htail⟩ := List.cons.inj h
      rw [List.map_cons, List.map_cons, List.map_cons, List.map_cons,
        hcongr row List.mem_cons_self other List.mem_cons_self hhead,
        ih htail fun row hrow other hother =>
          hcongr row (List.mem_cons_of_mem _ hrow) other (List.mem_cons_of_mem _ hother)]

/-- Two ways to change the row of a file that differ in times at most come to the same on metadata
that do. -/
theorem reviseFile_undated {change change' : FileRow → FileRow} (h : db.undated = other.undated)
    (hchange : ∀ row ∈ db.files.getD [], ∀ old ∈ other.files.getD [], row.undated = old.undated →
      row.path = path → ({ change row with path := newPath } : FileRow).undated =
        ({ change' old with path := newPath } : FileRow).undated) :
    (db.reviseFile path newPath change).map undated =
      (other.reviseFile path newPath change').map undated := by
  have hfiles : db.fileRows.map (·.map FileRow.undated) =
      other.fileRows.map (·.map FileRow.undated) := by
    rw [← fileRows_undated, h, fileRows_undated]
  unfold reviseFile
  rcases hrows : db.fileRows with e | rows
  · rcases holds : other.fileRows with e' | olds
    · rw [hrows, holds] at hfiles
      exact congrArg Except.error (Except.error.inj hfiles)
    · rw [hrows, holds] at hfiles
      cases hfiles
  rcases holds : other.fileRows with e' | olds
  · rw [hrows, holds] at hfiles
    cases hfiles
  rw [hrows, holds] at hfiles
  have hsame : rows.map FileRow.undated = olds.map FileRow.undated := Except.ok.inj hfiles
  have hany : ∀ p, rows.any (·.path = p) = olds.any (·.path = p) := fun p => by
    have hundated := congrArg (List.any · (·.path = p)) hsame
    rwa [List.any_map, List.any_map] at hundated
  have hbefore : db.files.getD [] = rows := by
    rw [(fileRows_eq_ok.1 hrows).2, Option.getD_some]
  have hother : other.files.getD [] = olds := by
    rw [(fileRows_eq_ok.1 holds).2, Option.getD_some]
  rw [hbefore, hother] at hchange
  dsimp only [bind, Except.bind]
  rw [hany, hany]
  by_cases hmissing : (!olds.any (·.path = path)) = true
  · rw [if_pos hmissing, if_pos hmissing]
    rfl
  rw [if_neg hmissing, if_neg hmissing]
  by_cases htaken : path ≠ newPath ∧ olds.any (·.path = newPath) = true
  · rw [if_pos htaken, if_pos htaken]
    rfl
  rw [if_neg htaken, if_neg htaken]
  have hrevised := map_undated_congr hsame fun row hrow old hold heq => show
      (if row.path = path then { change row with path := newPath } else row).undated =
        (if old.path = path then { change' old with path := newPath } else old).undated by
    have hpath : row.path = old.path := (congrArg FileRow.path heq :)
    by_cases hat : row.path = path
    · rw [if_pos hat, if_pos (hpath.symm.trans hat)]
      exact hchange row hrow old hold heq hat
    · rw [if_neg hat, if_neg fun e => hat (hpath.trans e), heq]
  show Except.ok (db.undated.withFiles _) = Except.ok (other.undated.withFiles _)
  rw [h]
  exact congrArg (fun rows => Except.ok (other.undated.withFiles rows)) hrevised

/-- To move a file is the same without times, whatever the time is. -/
theorem moveFile_undated (db : Database) (now later : Timestamp) (path newPath : String) :
    (db.moveFile now path newPath).map undated =
      (db.undated.moveFile later path newPath).map undated := by
  apply bind_repointRecords_undated
  apply reviseFile_undated
  · exact db.undated_undated.symm
  · intro row _ old _ heq _
    exact congrArg (fun row : FileRow => { row with path := newPath }) heq

end Database

theorem Service.checkPlacement_undated (db : Database) (path : String) :
    checkPlacement path db.undated = checkPlacement path db := by
  have hnone : ∀ paths, requireNoFile db.undated paths = requireNoFile db paths := by
    intro paths
    induction paths with
    | nil => rfl
    | cons first rest ih =>
      unfold requireNoFile
      rw [Database.ownerOf_undated, ih]
  have hfound := Database.paths_of_filesAt_undated db path
  unfold checkPlacement
  rw [hnone]
  rcases requireNoFile db _ with e | _
  · rfl
  rcases hone : db.undated.filesAt path with e | files
  · rcases htwo : db.filesAt path with e' | others
    · rw [hone, htwo] at hfound
      rw [Except.error.inj hfound]
    · rw [hone, htwo] at hfound
      cases hfound
  · rcases htwo : db.filesAt path with e' | others
    · rw [hone, htwo] at hfound
      cases hfound
    · rw [hone, htwo] at hfound
      have hany : ∀ l : List File, l.any (·.path ≠ path) = (l.map File.path).any (· ≠ path) := by
        intro l
        rw [List.any_map]
        rfl
      show (if _ then _ else _) = if _ then _ else _
      rw [hany files, hany others, show files.map File.path = _ from Except.ok.inj hfound]

/-! ## Drives -/

variable {σ α β : Type}

/-- Drives that are the same but for the times at which files last changed, and for the clock. -/
structure Alike (one two : Drive σ) : Prop where
  db : one.db.undated = two.db.undated
  objects : one.objects = two.objects

theorem Alike.refl (drive : Drive σ) : Alike drive drive := ⟨rfl, rfl⟩

theorem Alike.symm {one two : Drive σ} (h : Alike one two) : Alike two one :=
  ⟨h.db.symm, h.objects.symm⟩

theorem Alike.trans {one two three : Drive σ} (h : Alike one two) (k : Alike two three) :
    Alike one three :=
  ⟨h.db.trans k.db, h.objects.trans k.objects⟩

/-- Two calls that both go well or both fail, and leave drives that are alike. -/
structure Agree (one : Except DriveError α × Drive σ) (two : Except DriveError β × Drive σ) :
    Prop where
  isOk : one.1.isOk = two.1.isOk
  alike : Alike one.2 two.2

theorem Agree.trans {γ : Type} {one : Except DriveError α × Drive σ}
    {two : Except DriveError β × Drive σ} {three : Except DriveError γ × Drive σ}
    (h : Agree one two) (k : Agree two three) : Agree one three :=
  ⟨h.isOk.trans k.isOk, h.alike.trans k.alike⟩

namespace Service

variable {service : Service σ} {one two drive : Drive σ} {source target : String}

/-- What it comes to when a file is moved. -/
theorem relocate_on (service : Service σ) (source target : String) (drive : Drive σ) :
    (service.relocate source target).on drive =
      match drive.db.moveFile drive.clock.next source target with
      | .error e => (.error e, { drive with clock := drive.clock.next })
      | .ok db =>
        match service.store.move source target drive.objects with
        | (.error e, objects) =>
          (.error (.ofStorage e), { drive with objects, clock := drive.clock.next })
        | (.ok _, objects) => (.ok (), { drive with db, objects, clock := drive.clock.next }) := by
  unfold relocate
  rw [on_bind, on_now]
  dsimp only
  rw [on_bind, on_query]
  dsimp only
  rcases drive.db.moveFile drive.clock.next source target with e | db
  · rfl
  dsimp only
  rw [on_bind, on_object]
  dsimp only
  rcases hmove : service.store.move source target drive.objects with ⟨result, objects⟩
  cases result with
  | error e => rfl
  | ok _ =>
    dsimp only [Except.mapError]
    rw [on_commit]

theorem Alike.relocate (h : Alike one two) (service : Service σ) (source target : String) :
    Agree ((service.relocate source target).on one) ((service.relocate source target).on two) := by
  have hmove := (Database.moveFile_undated one.db one.clock.next .epoch source target).trans
    (h.db ▸ (Database.moveFile_undated two.db two.clock.next .epoch source target).symm)
  rw [relocate_on, relocate_on, h.objects]
  rcases hone : one.db.moveFile one.clock.next source target with e | db
  · rcases htwo : two.db.moveFile two.clock.next source target with e' | db'
    · exact ⟨rfl, h.db, rfl⟩
    · rw [hone, htwo] at hmove
      cases hmove
  · rcases htwo : two.db.moveFile two.clock.next source target with e' | db'
    · rw [hone, htwo] at hmove
      cases hmove
    · rw [hone, htwo] at hmove
      dsimp only
      rcases service.store.move source target two.objects with ⟨e | _, objects⟩
      · exact ⟨rfl, h.db, rfl⟩
      · exact ⟨rfl, Except.ok.inj hmove, rfl⟩

/-- What it comes to when a file is moved, provided that some checks are passed. -/
def relocateIf (service : Service σ) (checks : Except DriveError Unit) (source target : String)
    (drive : Drive σ) : Except DriveError Unit × Drive σ :=
  match checks with
  | .error e => (.error e, drive)
  | .ok _ => (service.relocate source target).on drive

theorem Alike.relocateIf (h : Alike one two) {checks others : Except DriveError Unit}
    (hchecks : checks.isOk = others.isOk) (service : Service σ) (source target : String) :
    Agree (service.relocateIf checks source target one)
      (service.relocateIf others source target two) := by
  rcases checks with e | _
  · rcases others with e' | _
    · exact ⟨rfl, h⟩
    · cases hchecks
  · rcases others with e' | _
    · cases hchecks
    · exact Alike.relocate h service source target

/-- An item of a batch is checked for its permissions and its place, then it is moved. -/
theorem moveItem_on (service : Service σ) (item : MoveItem) (drive : Drive σ) :
    (service.moveItem item).on drive =
      service.relocateIf (do
        require item.heldSource .update item.source
        require item.heldTarget .create item.target
        checkPlacement item.target drive.db) item.source item.target drive := by
  unfold moveItem
  rw [on_bind, on_lift]
  rcases require item.heldSource .update item.source with e | _
  · rfl
  dsimp only
  rw [on_bind, on_lift]
  rcases require item.heldTarget .create item.target with e | _
  · rfl
  dsimp only
  rw [on_bind, on_query]
  show _ = service.relocateIf (checkPlacement item.target drive.db) item.source item.target drive
  rcases checkPlacement item.target drive.db with e | _
  · rfl
  · rfl

/-- The checks of an item do not look at times. -/
theorem Alike.moveItem (h : Alike one two) (service : Service σ) (item : MoveItem) :
    Agree ((service.moveItem item).on one) ((service.moveItem item).on two) := by
  have hplaced : checkPlacement item.target one.db = checkPlacement item.target two.db := by
    rw [← checkPlacement_undated, h.db, checkPlacement_undated]
  rw [moveItem_on, moveItem_on, hplaced]
  exact Alike.relocateIf h rfl service item.source item.target

/-- A file is not moved to where there is one, whatever the checks, and all is left alike. -/
theorem relocateIf_of_occupied (service : Service σ) {row : FileRow} (hne : source ≠ target)
    (hrow : drive.db.rowAt target = some row) (checks : Except DriveError Unit) :
    ∃ e after, service.relocateIf checks source target drive = (.error e, after) ∧
      Alike drive after := by
  rcases checks with e | _
  · exact ⟨e, drive, rfl, .refl drive⟩
  show ∃ e after, (service.relocate source target).on drive = (.error e, after) ∧ Alike drive after
  rw [relocate_on]
  rcases hmoved : drive.db.moveFile drive.clock.next source target with e | db
  · exact ⟨e, _, rfl, rfl, rfl⟩
  · obtain ⟨_, -, hfree, -⟩ := Database.moveFile_becomes hmoved
    rw [hfree hne] at hrow
    cases hrow

end Service

end FileDrive
