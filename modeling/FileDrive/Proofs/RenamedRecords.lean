import FileDrive.Proofs.MovedFiles

/-!
# Records of renamed files

There are two ways to give a file another path (`Rename`), and both take the records on exactly its
path along. A record has a key, and no two have the same one. The records that stand in the way are
taken out before the others get their new path, so whichever of them comes first, none finds its key
taken (`Waiting.run`). What is left at the new path is a merge of what was at the two paths, in which
the records that come go before those that are there (`RecordsCarried`).
-/

namespace FileDrive

open FileDrive.DriveM FileDrive.Time

/-- What no two records have in common: the path and the principal. -/
def PermissionRow.key (row : PermissionRow) : String × String × String :=
  (row.path, row.kind, row.principal)

namespace Database

variable {source target path newPath : String} {row : PermissionRow}
  {rows todo : List PermissionRow} {db after : Database}

/-! ## One record at a time -/

/-- A row after one of the rows has been given another path. -/
def shifted (target : String) (row other : PermissionRow) : PermissionRow :=
  if other.key = row.key then { other with path := target } else other

theorem key_shifted (target : String) (row other : PermissionRow) :
    (shifted target row other).key =
      if other.key = row.key then (target, row.kind, row.principal) else other.key := by
  unfold shifted
  by_cases h : other.key = row.key
  · rw [if_pos h, if_pos h]
    exact congrArg (fun key => (target, key.2.1, key.2.2)) h
  · rw [if_neg h, if_neg h]

/-- Gives one row another path, and fails when there is a row with the key that it is to have. -/
def repointRow (target : String) (rows : List PermissionRow) (row : PermissionRow) :
    Except DriveError (List PermissionRow) :=
  if rows.any (·.key = (target, row.kind, row.principal)) then .error (keyTaken .permissions)
  else .ok (rows.map (shifted target row))

/-- Some rows of a table are to go from one path to another, and nothing stands in their way. -/
structure Waiting (source target : String) (todo rows : List PermissionRow) : Prop where
  unique : (rows.map (·.key)).Nodup
  distinct : (todo.map (·.key)).Nodup
  there : ∀ row ∈ todo, row ∈ rows
  source_eq : ∀ row ∈ todo, row.path = source
  free : ∀ row ∈ todo, ∀ other ∈ rows, other.key ≠ (target, row.kind, row.principal)

/-- The row that is next goes, and the others wait as before. -/
theorem Waiting.step (h : Waiting source target (row :: todo) rows) :
    repointRow target rows row = .ok (rows.map (shifted target row)) ∧
      Waiting source target todo (rows.map (shifted target row)) := by
  have hrow : row ∈ rows := h.there row List.mem_cons_self
  have hfree := h.free row List.mem_cons_self
  have hothers : ∀ other ∈ todo, other.key ≠ row.key := fun other hother heq =>
    (List.nodup_cons.1 h.distinct).1 (List.mem_map.2 ⟨other, hother, heq⟩)
  have hclear : rows.any (·.key = (target, row.kind, row.principal)) = false :=
    List.any_eq_false.2 fun other hother heq => hfree other hother (of_decide_eq_true heq)
  refine ⟨by rw [repointRow, hclear]; rfl, ?_, (List.nodup_cons.1 h.distinct).2, ?_,
    fun other hother => h.source_eq other (List.mem_cons_of_mem _ hother), ?_⟩
  · rw [List.map_map]
    refine List.Nodup.map_on (fun a ha b hb heq => List.inj_on_of_nodup_map h.unique ha hb ?_)
      h.unique.of_map
    rw [Function.comp_apply, Function.comp_apply, key_shifted, key_shifted] at heq
    split_ifs at heq with hat hbt hbt
    · rw [hat, hbt]
    · exact absurd heq.symm (hfree b hb)
    · exact absurd heq (hfree a ha)
    · exact heq
  · intro other hother
    refine List.mem_map.2 ⟨other, h.there other (List.mem_cons_of_mem _ hother), ?_⟩
    rw [shifted, if_neg (hothers other hother)]
  · intro other hother there hthere heq
    obtain ⟨old, hold, rfl⟩ := List.mem_map.1 hthere
    rw [key_shifted] at heq
    split_ifs at heq with hmoved
    · -- Two rows at one path that are about the same principal have one key.
      have hpath : other.path = row.path :=
        (h.source_eq other (List.mem_cons_of_mem _ hother)).trans
          (h.source_eq row List.mem_cons_self).symm
      refine hothers other hother ?_
      rw [PermissionRow.key, PermissionRow.key, hpath]
      exact congrArg (row.path, ·) (Prod.mk.inj heq).2.symm
    · exact h.free other (List.mem_cons_of_mem _ hother) old hold heq

/-- All of them go, whichever is first, and no key is taken at any time. -/
theorem Waiting.run (h : Waiting source target todo rows) (hne : source ≠ target) :
    todo.foldlM (repointRow target) rows = .ok (rows.map fun row =>
        if row.key ∈ todo.map (·.key) then { row with path := target } else row) ∧
      ((rows.map fun row =>
        if row.key ∈ todo.map (·.key) then { row with path := target } else row).map
          (·.key)).Nodup := by
  induction todo generalizing rows with
  | nil => exact ⟨by simp [pure, Except.pure], by simpa using h.unique⟩
  | cons row todo ih =>
    obtain ⟨hstep, hnext⟩ := h.step
    have hrest : ∀ key ∈ todo.map (·.key), key.1 = source := by
      intro key hkey
      obtain ⟨other, hother, rfl⟩ := List.mem_map.1 hkey
      exact h.source_eq other (List.mem_cons_of_mem _ hother)
    have hboth : (rows.map (shifted target row)).map (fun other =>
          if other.key ∈ todo.map (·.key) then { other with path := target } else other) =
        rows.map fun other => if other.key ∈ (row :: todo).map (·.key) then
          { other with path := target } else other := by
      rw [List.map_map]
      refine List.map_congr_left fun other _ => ?_
      rw [Function.comp_apply, key_shifted, List.map_cons]
      by_cases hmoved : other.key = row.key
      · have hgone : (target, row.kind, row.principal) ∉ todo.map (·.key) :=
          fun hmem => hne (hrest _ hmem).symm
        rw [if_pos hmoved, if_neg hgone, if_pos (List.mem_cons.2 (Or.inl hmoved)), shifted,
          if_pos hmoved]
      · rw [if_neg hmoved, shifted, if_neg hmoved]
        by_cases hlater : other.key ∈ todo.map (·.key)
        · rw [if_pos hlater, if_pos (List.mem_cons_of_mem _ hlater)]
        · rw [if_neg hlater, if_neg fun hmem => hlater ((List.mem_cons.1 hmem).resolve_left hmoved)]
    rw [List.foldlM_cons, hstep, ← hboth]
    exact ih hnext

/-! ## All the records on a path -/

/-- The rows without those at `target` that rows at `source` are to take the place of. -/
def unreplaced (rows : List PermissionRow) (source target : String) : List PermissionRow :=
  rows.filter fun row => !(row.path = target && rows.any fun other =>
    other.path = source && other.kind = row.kind && other.principal = row.principal)

theorem mem_unreplaced_of_ne (hrow : row ∈ rows) (hne : row.path ≠ target) :
    row ∈ unreplaced rows source target := List.mem_filter.2 ⟨hrow, by simp [hne]⟩

theorem waiting_unreplaced (hunique : (rows.map (·.key)).Nodup) (hne : source ≠ target)
    (htodo : todo.Perm (rows.filter (·.path = source))) :
    Waiting source target todo (unreplaced rows source target) := by
  have hmem : ∀ row ∈ todo, row ∈ rows ∧ row.path = source := fun row hrow => by
    simpa using htodo.mem_iff.1 hrow
  refine ⟨hunique.sublist (List.filter_sublist.map _), ?_, fun row hrow => ?_,
    fun row hrow => (hmem row hrow).2, fun row hrow other hother heq => ?_⟩
  · exact (htodo.map _).nodup_iff.2 (hunique.sublist (List.filter_sublist.map _))
  · obtain ⟨hrow, hsource⟩ := hmem row hrow
    exact mem_unreplaced_of_ne hrow (hsource ▸ hne)
  · obtain ⟨hpath, hkind, hprincipal⟩ : other.path = target ∧ other.kind = row.kind ∧
        other.principal = row.principal := by simpa [PermissionRow.key] using heq
    obtain ⟨hrow, hsource⟩ := hmem row hrow
    have hreplaced : rows.any (fun moved => moved.path = source && moved.kind = other.kind &&
        moved.principal = other.principal) = true :=
      List.any_eq_true.2 ⟨row, hrow, by simp [hsource, hkind, hprincipal]⟩
    have hkept := (List.mem_filter.1 hother).2
    simp [hpath, hreplaced] at hkept

/-- The rows of records after those on one path have been moved to another. -/
def repointedRows (rows : List PermissionRow) (source target : String) : List PermissionRow :=
  (unreplaced rows source target).map fun row =>
    if row.path = source then { row with path := target } else row

theorem repointRecords_of_rows (hrows : db.permissionRows = .ok rows) (source target : String) :
    db.repointRecords source target =
      .ok (db.withPermissions (repointedRows rows source target)) := by
  unfold repointRecords
  rw [hrows]
  rfl

/-- The rows can be moved one by one, in any order. -/
theorem foldlM_unreplaced (hunique : (rows.map (·.key)).Nodup) (hne : source ≠ target)
    (htodo : todo.Perm (rows.filter (·.path = source))) :
    todo.foldlM (repointRow target) (unreplaced rows source target) =
        .ok (repointedRows rows source target) ∧
      ((repointedRows rows source target).map (·.key)).Nodup := by
  have hsame : (unreplaced rows source target).map (fun row =>
      if row.key ∈ todo.map (·.key) then { row with path := target } else row) =
        repointedRows rows source target := by
    refine List.map_congr_left fun row hrow => ?_
    have hmem : row.key ∈ todo.map (·.key) ↔ row.path = source := by
      constructor
      · intro hkey
        obtain ⟨other, hother, heq⟩ := List.mem_map.1 hkey
        have hsource : other.path = source := by
          simpa using (List.mem_filter.1 (htodo.mem_iff.1 hother)).2
        exact (congrArg Prod.fst heq).symm.trans hsource
      · intro hsource
        exact List.mem_map_of_mem (htodo.mem_iff.2 (List.mem_filter.2
          ⟨(List.mem_filter.1 hrow).1, decide_eq_true hsource⟩))
    by_cases hsource : row.path = source
    · rw [if_pos (hmem.2 hsource), if_pos hsource]
    · rw [if_neg fun hkey => hsource (hmem.1 hkey), if_neg hsource]
  rw [← hsame]
  exact (waiting_unreplaced hunique hne htodo).run hne

/-- What is left of the records when those on one path have been taken to another. -/
structure RecordsCarried (db after : Database) (path newPath : String) : Prop where
  /-- At the new path are those that were at the old one, and of those that were at the new one each
  that is about a principal the old path had no record for. -/
  arrived : ∀ row, row ∈ after.recordRowsAt newPath ↔
    (∃ moved ∈ db.recordRowsAt path, row = { moved with path := newPath }) ∨
      (row ∈ db.recordRowsAt newPath ∧ ∀ moved ∈ db.recordRowsAt path,
        ¬ (moved.kind = row.kind ∧ moved.principal = row.principal))
  left : after.recordRowsAt path = []
  elsewhere : ∀ other, other ≠ path → other ≠ newPath →
    after.recordRowsAt other = db.recordRowsAt other
  unique : ((after.permissions.getD []).map (·.key)).Nodup
  /-- They may be taken there one by one in any order, and none finds its key taken. -/
  oneByOne : ∀ order : List PermissionRow, order.Perm (db.recordRowsAt path) →
    order.foldlM (repointRow newPath) (unreplaced (db.permissions.getD []) path newPath) =
      .ok (after.permissions.getD [])

theorem recordsCarried_of_rows (hrows : db.permissionRows = .ok rows)
    (hunique : (rows.map (·.key)).Nodup) (hne : path ≠ newPath) (files : List FileRow) :
    RecordsCarried db ((db.withFiles files).withPermissions (repointedRows rows path newPath))
      path newPath := by
  have hmid : (db.withFiles files).permissionRows = .ok rows := hrows
  have hrepointed := repointRecords_of_rows hmid path newPath
  obtain ⟨hleft, harrived⟩ := repointRecords_records hrepointed hne
  have hbecomes := repointRecords_becomes hrepointed
  have hbefore : db.permissions.getD [] = rows := by
    rw [(permissionRows_eq_ok.1 hrows).2, Option.getD_some]
  refine ⟨harrived, hleft, fun other hpath hnew => ?_, ?_, fun order horder => ?_⟩
  · exact hbecomes.records other (by simp [hpath, hnew])
  · exact (foldlM_unreplaced hunique hne (List.Perm.refl _)).2
  · rw [recordRowsAt, hbefore] at horder
    rw [hbefore]
    exact (foldlM_unreplaced hunique hne horder).1

/-! ## Renaming a file -/

/-- A file gets another path unless there is a file already. -/
theorem reviseFile_of_rows {files : List FileRow} (hfiles : db.fileRows = .ok files)
    (path newPath : String) (change : FileRow → FileRow) :
    db.reviseFile path newPath change =
      if (db.rowAt path).isNone then .error (.fileNotFound path)
      else if path ≠ newPath ∧ (db.rowAt newPath).isSome then .error (.fileAlreadyExists newPath)
      else .ok (db.withFiles (files.map fun row =>
        if row.path = path then { change row with path := newPath } else row)) := by
  have hany : ∀ p, files.any (·.path = p) = (db.rowAt p).isSome := fun p => by
    rw [rowAt_of_files (fileRows_eq_ok.1 hfiles).2, List.isSome_find?]
  unfold reviseFile
  rw [hfiles]
  dsimp only [bind, Except.bind]
  rw [hany, hany]
  rcases db.rowAt path with _ | row
  · rfl
  have hthere : ¬(!(some row).isSome) = true := by simp
  have hthere' : ¬(some row).isNone = true := by simp
  rw [if_neg hthere, if_neg hthere']
  by_cases htaken : path ≠ newPath ∧ (db.rowAt newPath).isSome = true
  · rw [if_pos htaken, if_pos htaken]
    rfl
  · rw [if_neg htaken, if_neg htaken]
    rfl

end Database

/-- A way to give a file another path: alone, or together with other changes. -/
inductive Rename where
  | move
  | update (size : Int) (contentType description : String)

namespace Rename

variable {σ : Type} {db after : Database} {path newPath : String} {rows : List PermissionRow}
  {files : List FileRow}

/-- The metadata as they are to become. -/
def prepare (rename : Rename) (now : Timestamp) (path newPath : String) (db : Database) :
    Except DriveError Database :=
  match rename with
  | move => db.moveFile now path newPath
  | update size contentType description =>
    db.updateFile now path newPath size contentType description

/-- Prepares the change, and puts it into effect if it is to be committed. -/
def transaction (rename : Rename) (path newPath : String) (committed : Bool) : DriveM σ Unit := do
  let now ← DriveM.now
  let db ← query (rename.prepare now path newPath)
  if committed then commit db

/-- What becomes of the row of the file, but for its path. -/
def change (rename : Rename) (now : Timestamp) (row : FileRow) : FileRow :=
  match rename with
  | move => { row with updatedAt := now.stored }
  | update size contentType description =>
    if 0 < size then { row with size, contentType, description, updatedAt := now.stored }
    else { row with description, updatedAt := now.stored }

/-- To another path both ways take the row of the file, and then the records. -/
theorem prepare_eq (rename : Rename) (now : Timestamp) (hne : path ≠ newPath) (db : Database) :
    rename.prepare now path newPath db =
      db.reviseFile path newPath (rename.change now) >>= fun mid =>
        mid.repointRecords path newPath := by
  cases rename with
  | move => rfl
  | update size contentType description =>
    unfold prepare Database.updateFile
    simp only [if_neg hne]
    rfl

/-- A rename is prepared for a file, and to where there is none. -/
theorem prepare_of_rows (rename : Rename) (now : Timestamp) (hne : path ≠ newPath)
    (hfiles : db.fileRows = .ok files) (hrows : db.permissionRows = .ok rows) :
    rename.prepare now path newPath db =
      match db.rowAt path, db.rowAt newPath with
      | none, _ => .error (.fileNotFound path)
      | some _, some _ => .error (.fileAlreadyExists newPath)
      | some _, none =>
        let revised := files.map fun row =>
          if row.path = path then { rename.change now row with path := newPath } else row
        .ok ((db.withFiles revised).withPermissions (Database.repointedRows rows path newPath)) := by
  rw [rename.prepare_eq now hne, Database.reviseFile_of_rows hfiles]
  rcases db.rowAt path with _ | row
  · rfl
  rcases db.rowAt newPath with _ | other
  · rw [if_neg (by simp), if_neg (by simp)]
    generalize files.map _ = revised
    have hmid : (db.withFiles revised).permissionRows = .ok rows := hrows
    exact Database.repointRecords_of_rows hmid path newPath
  · rw [if_neg (by simp), if_pos ⟨hne, rfl⟩]
    rfl

theorem transaction_on (rename : Rename) (path newPath : String) (committed : Bool)
    (drive : Drive σ) :
    (rename.transaction path newPath committed).on drive =
      match rename.prepare drive.clock.next path newPath drive.db with
      | .error e => (.error e, { drive with clock := drive.clock.next })
      | .ok db => (.ok (),
          { drive with clock := drive.clock.next, db := if committed then db else drive.db }) := by
  unfold transaction
  rw [on_bind, on_now]
  dsimp only
  rw [on_bind, on_query]
  dsimp only
  rcases rename.prepare drive.clock.next path newPath drive.db with e | db
  · rfl
  dsimp only
  cases committed with
  | true => rw [if_pos rfl, if_pos rfl, on_commit]
  | false => rfl

/-- Renamed in either way to a path without a file, a file takes the records on exactly its path
along, and that never fails on their keys. When the change is not committed, or there is no file to
be renamed, or one where it would go, the metadata stay as they are. -/
theorem transaction_carries_records (rename : Rename) (drive : Drive σ) (hne : path ≠ newPath)
    (hfiles : drive.db.fileRows = .ok files) (hrows : drive.db.permissionRows = .ok rows)
    (hunique : (rows.map (·.key)).Nodup) :
    let renamed := fun committed => (rename.transaction path newPath committed).on drive
    (∀ committed, (renamed committed).1 =
      match drive.db.rowAt path, drive.db.rowAt newPath with
      | none, _ => .error (.fileNotFound path)
      | some _, some _ => .error (.fileAlreadyExists newPath)
      | some _, none => .ok ()) ∧
      ((renamed true).1 = .ok () →
        Database.RecordsCarried drive.db (renamed true).2.db path newPath) ∧
      (∀ committed, committed = false ∨ (renamed committed).1.isOk = false →
        (renamed committed).2.db = drive.db) := by
  intro renamed
  have hrenamed : ∀ committed, renamed committed = _ :=
    fun committed => rename.transaction_on path newPath committed drive
  refine ⟨fun committed => ?_, ?_, fun committed => ?_⟩
  · rw [hrenamed, rename.prepare_of_rows _ hne hfiles hrows]
    rcases drive.db.rowAt path with _ | row
    · rfl
    rcases drive.db.rowAt newPath with _ | other
    · rfl
    · rfl
  · rw [hrenamed, rename.prepare_of_rows _ hne hfiles hrows]
    rcases drive.db.rowAt path with _ | row
    · exact nofun
    rcases drive.db.rowAt newPath with _ | other
    · exact fun _ => Database.recordsCarried_of_rows hrows hunique hne _
    · exact nofun
  · rw [hrenamed]
    rcases rename.prepare drive.clock.next path newPath drive.db with e | after
    · exact fun _ => rfl
    · rintro (rfl | hfails)
      · rfl
      · cases hfails

/-- A file goes to where there are records about two principals, and has one about the first. -/
theorem transaction_carries_records_over_denials :
    let file : FileRow := ⟨"/a", 1, "text/plain", "", "ann", "", ""⟩
    let rows : List PermissionRow := [⟨"/", 1, 0, "everyone", ""⟩, ⟨"/a", 1, 0, "user", "ann"⟩,
      ⟨"/b", 0, 1, "user", "ann"⟩, ⟨"/b", 0, 1, "user", "eve"⟩]
    let drive : Drive Unit :=
      ⟨(Database.empty.withFiles [file]).withPermissions rows, (), .epoch, 0⟩
    let renamed := (move.transaction "/a" "/b" true).on drive
    "/a" ≠ "/b" ∧ drive.db.fileRows = .ok [file] ∧ drive.db.permissionRows = .ok rows ∧
      (rows.map (·.key)).Nodup ∧ renamed.1 = .ok () ∧
      renamed.2.db.recordRowsAt "/b" = [⟨"/b", 1, 0, "user", "ann"⟩, ⟨"/b", 0, 1, "user", "eve"⟩] ∧
      renamed.2.db.recordRowsAt "/a" = [] ∧
      renamed.2.db.recordRowsAt "/" = [⟨"/", 1, 0, "everyone", ""⟩] := by
  intro file rows drive renamed
  have hne : "/a" ≠ "/b" := by decide
  have hunique : (rows.map (·.key)).Nodup := by decide
  obtain ⟨hends, hcarries, -⟩ := move.transaction_carries_records drive hne
    (rfl : drive.db.fileRows = .ok [file]) rfl hunique
  have hok : renamed.1 = .ok () := hends true
  have hcarried := hcarries hok
  exact ⟨hne, rfl, rfl, hunique, hok, by decide +kernel, hcarried.left,
    (hcarried.elsewhere "/" (by decide) (by decide)).trans (by decide)⟩

end Rename

end FileDrive
