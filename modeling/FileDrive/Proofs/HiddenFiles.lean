import FileDrive.Proofs.PermissionAgreement

/-!
# Hidden files and downloads

Two drives look the same to somebody when users and records are the same and so are the files that
the caller may read, whatever else is stored (`SameToReader`). Since owning a file gives reading it,
a hidden file is owned by somebody else, and what the caller holds on a path is the same on both
(`SameToReader.onPath`). So a download ends the same way (`download_congr`).
-/

namespace FileDrive

open FileDrive.DriveM FileDrive.Time

/-- Two databases look the same to somebody: the users are the same, the records are, and so are the
files that the caller may read. -/
structure Database.SameToReader (resolver : Resolver) (identity : Identity) (one two : Database) :
    Prop where
  users : ∀ id, one.user id = two.user id
  records : ∀ paths, one.recordsOn paths = two.recordsOn paths
  readable : ∀ path row,
    one.rowAt path = some row ∧ resolver.Permits one identity .read path ↔
      two.rowAt path = some row ∧ resolver.Permits two identity .read path

namespace Database

variable {resolver : Resolver} {identity : Identity} {db one two : Database} {path : String}
  {row : FileRow}

theorem SameToReader.symm (h : one.SameToReader resolver identity two) :
    two.SameToReader resolver identity one where
  users id := (h.users id).symm
  records paths := (h.records paths).symm
  readable path row := (h.readable path row).symm

/-! ## Users -/

theorem username_of_userRows {rows : List UserRow} (h : db.userRows = .ok rows) (id : String) :
    (rows.find? (·.id = id)).map (·.username) = (db.user id).toOption.map (·.username) := by
  rw [user_of_userRows h]
  cases rows.find? (·.id = id) <;> rfl

theorem user_of_error {e : DriveError} (h : db.userRows = .error e) (id : String) :
    db.user id = .error e := by
  unfold user
  rw [h]
  rfl

theorem userRows_error {e : DriveError} (h : db.userRows = .error e) (id : String) :
    e ≠ .userNotFound id := by
  rintro rfl
  unfold userRows rowsOf at h
  split at h
  · split at h
    · cases h
    · exact absurd (Except.error.inj h) nofun
  · exact absurd (Except.error.inj h) nofun

/-- The same users are found by id, or their table cannot be read for the same reason. -/
theorem userRows_congr (h : ∀ id, one.user id = two.user id) :
    (∃ e, one.userRows = .error e ∧ two.userRows = .error e) ∨
      ∃ users users', one.userRows = .ok users ∧ two.userRows = .ok users' ∧
        ∀ row : FileRow, row.file users = row.file users' := by
  have hmixed : ∀ {a b : Database} {e rows}, (∀ id, a.user id = b.user id) →
      a.userRows = .error e → b.userRows ≠ .ok rows := by
    intro a b e rows hab ha hb
    have hsame := hab ""
    rw [user_of_error ha, user_of_userRows hb] at hsame
    split at hsame
    · cases hsame
    · exact userRows_error ha "" (Except.error.inj hsame)
  rcases hone : one.userRows with e | users <;> rcases htwo : two.userRows with e' | users'
  · have hsame := h ""
    rw [user_of_error hone, user_of_error htwo] at hsame
    obtain rfl := Except.error.inj hsame
    exact Or.inl ⟨e, rfl, rfl⟩
  · exact absurd htwo (hmixed h hone)
  · exact absurd hone (hmixed (fun id => (h id).symm) htwo)
  · refine Or.inr ⟨users, users', rfl, rfl, fun row => ?_⟩
    unfold FileRow.file
    rw [username_of_userRows hone, username_of_userRows htwo, h]

/-! ## Files -/

/-- What is answered for the file at a path depends on the row there and on its owner's name. -/
theorem file_eq (db : Database) (path : String) :
    db.file path = (db.fileRows >>= fun _ => db.userRows >>= fun users =>
      match db.rowAt path with
      | some row => .ok (row.file users)
      | none => .error (.fileNotFound path)) := by
  unfold file file? allFiles
  rcases hrows : db.fileRows with e | rows
  · rfl
  rcases husers : db.userRows with e | users
  · rfl
  rw [rowAt_of_files (fileRows_eq_ok.1 hrows).2]
  dsimp only [bind, Except.bind, pure, Except.pure]
  rw [find?_map_file]
  cases rows.find? (·.path = path) with
  | none => rfl
  | some row => rfl

/-- The tables of the files can be read, or fail to be for the same reason. -/
def FilesAlike (one two : Database) : Prop := ∀ e, one.fileRows = .error e ↔ two.fileRows = .error e

theorem FilesAlike.symm (h : one.FilesAlike two) : two.FilesAlike one := fun e => (h e).symm

theorem FilesAlike.cases (h : one.FilesAlike two) :
    (∃ e, one.fileRows = .error e ∧ two.fileRows = .error e) ∨
      ∃ rows rows', one.fileRows = .ok rows ∧ two.fileRows = .ok rows' := by
  rcases hone : one.fileRows with e | rows
  · exact Or.inl ⟨e, rfl, (h e).1 hone⟩
  · rcases htwo : two.fileRows with e | rows'
    · rw [(h e).2 htwo] at hone
      cases hone
    · exact Or.inr ⟨rows, rows', rfl, rfl⟩

theorem file_congr (hfiles : one.FilesAlike two) (husers : ∀ id, one.user id = two.user id)
    (hrow : one.rowAt path = two.rowAt path) : one.file path = two.file path := by
  rw [file_eq, file_eq, hrow]
  obtain ⟨e, hone, htwo⟩ | ⟨rows, rows', hone, htwo⟩ := hfiles.cases
  · rw [hone, htwo]
    rfl
  obtain ⟨e, hone', htwo'⟩ | ⟨users, users', hone', htwo', hsame⟩ := userRows_congr husers
  · rw [hone, htwo, hone', htwo']
    rfl
  rw [hone, htwo, hone', htwo']
  change (match two.rowAt path with
    | some row => Except.ok (row.file users)
    | none => .error (DriveError.fileNotFound path)) = match two.rowAt path with
    | some row => Except.ok (row.file users')
    | none => .error (DriveError.fileNotFound path)
  cases two.rowAt path with
  | none => rfl
  | some row => exact congrArg Except.ok (hsame row)

end Database

namespace Resolver

variable {resolver : Resolver} {identity : Identity} {db one two : Database} {path : String}

theorem onPath_of_owned {rows : List FileRow} (hrows : db.fileRows = .ok rows)
    (howns : ((db.rowAt path).map (·.ownerId)).any identity.owns = true) :
    resolver.onPath db path identity = .ok .all := by
  by_cases hadmin : resolver.isAdmin identity = true
  · exact onPath_of_admin hadmin
  · rw [onPath, if_neg hadmin, Database.ownerOf, hrows]
    change (if ((rows.find? (·.path = path)).map (·.ownerId)).any identity.owns = true then _
      else _) = _
    rw [← Database.rowAt_of_files (Database.fileRows_eq_ok.1 hrows).2, if_pos howns]
    rfl

theorem onPath_of_unowned {rows : List FileRow} (hrows : db.fileRows = .ok rows)
    (hadmin : ¬ resolver.isAdmin identity = true)
    (howns : ¬ ((db.rowAt path).map (·.ownerId)).any identity.owns = true) :
    resolver.onPath db path identity = do
      let records ← db.recordsOn (Path.ancestors path)
      return granted (Path.ancestors path) records identity := by
  rw [onPath, if_neg hadmin, Database.ownerOf, hrows]
  change (if ((rows.find? (·.path = path)).map (·.ownerId)).any identity.owns = true then _
    else _) = _
  rw [← Database.rowAt_of_files (Database.fileRows_eq_ok.1 hrows).2, if_neg howns]

theorem onPath_of_error {e : DriveError} (h : db.fileRows = .error e)
    (hadmin : ¬ resolver.isAdmin identity = true) :
    resolver.onPath db path identity = .error e := by
  rw [onPath, if_neg hadmin, Database.ownerOf, h]
  rfl

/-- What is held on a path depends on the records, and on whether the file there is the caller's. -/
theorem onPath_congr (hfiles : one.FilesAlike two)
    (hrecords : ∀ paths, one.recordsOn paths = two.recordsOn paths)
    (howns : ∀ rows rows', one.fileRows = .ok rows → two.fileRows = .ok rows' →
      (((one.rowAt path).map (·.ownerId)).any identity.owns = true ↔
        ((two.rowAt path).map (·.ownerId)).any identity.owns = true)) :
    resolver.onPath one path identity = resolver.onPath two path identity := by
  by_cases hadmin : resolver.isAdmin identity = true
  · rw [onPath_of_admin hadmin, onPath_of_admin hadmin]
  obtain ⟨e, hone, htwo⟩ | ⟨rows, rows', hone, htwo⟩ := hfiles.cases
  · rw [onPath_of_error hone hadmin, onPath_of_error htwo hadmin]
  have hiff := howns rows rows' hone htwo
  by_cases hown : ((one.rowAt path).map (·.ownerId)).any identity.owns = true
  · rw [onPath_of_owned hone hown, onPath_of_owned htwo (hiff.1 hown)]
  · rw [onPath_of_unowned hone hadmin hown, onPath_of_unowned htwo hadmin (mt hiff.2 hown),
      hrecords]

/-- A file of the caller's own is one that the caller may read. -/
theorem owned_of_same (h : one.SameToReader resolver identity two) {rows : List FileRow}
    (hrows : one.fileRows = .ok rows)
    (howns : ((one.rowAt path).map (·.ownerId)).any identity.owns = true) :
    ((two.rowAt path).map (·.ownerId)).any identity.owns = true := by
  obtain ⟨owner, howner, -⟩ := (Option.any_eq_true _ _).1 howns
  obtain ⟨row, hrow, -⟩ := Option.map_eq_some_iff.1 howner
  have hread : resolver.Permits one identity .read path :=
    ⟨.all, onPath_of_owned hrows howns, Permissions.has_all _⟩
  rw [((h.readable path row).1 ⟨hrow, hread⟩).1, ← hrow]
  exact howns

end Resolver

namespace Database.SameToReader

variable {resolver : Resolver} {identity : Identity} {one two : Database} {path : String}

/-- The caller holds the same on every path. -/
theorem onPath (h : one.SameToReader resolver identity two) (hfiles : one.FilesAlike two)
    (path : String) : resolver.onPath one path identity = resolver.onPath two path identity := by
  apply Resolver.onPath_congr hfiles h.records
  intro rows rows' hone htwo
  exact ⟨Resolver.owned_of_same h hone, Resolver.owned_of_same h.symm htwo⟩

theorem permits (h : one.SameToReader resolver identity two) (hfiles : one.FilesAlike two)
    (c : Capability) (path : String) :
    resolver.Permits one identity c path ↔ resolver.Permits two identity c path := by
  unfold Resolver.Permits
  rw [h.onPath hfiles]

/-- The same row is at a path that the caller may read. -/
theorem rowAt (h : one.SameToReader resolver identity two) (hfiles : one.FilesAlike two)
    (hread : resolver.Permits one identity .read path) : one.rowAt path = two.rowAt path := by
  have hread' := (h.permits hfiles .read path).1 hread
  apply Option.ext
  intro row
  have hiff := h.readable path row
  constructor
  · intro hrow
    exact (hiff.1 ⟨hrow, hread⟩).1
  · intro hrow
    exact (hiff.2 ⟨hrow, hread'⟩).1

end Database.SameToReader

/-- One more file looks the same to those who may not read it. -/
theorem Database.sameToReader_of_hidden {resolver : Resolver} {identity : Identity}
    {one two : Database} {path : String} {row : FileRow} (hfiles : one.FilesAlike two)
    (husers : ∀ id, one.user id = two.user id)
    (hrecords : ∀ paths, one.recordsOn paths = two.recordsOn paths)
    (hfree : one.rowAt path = none) (hrows : two.rowAt = Function.update one.rowAt path (some row))
    (hhidden : ¬ resolver.Permits two identity .read path) :
    one.SameToReader resolver identity two := by
  refine ⟨husers, hrecords, fun p found => ?_⟩
  by_cases hp : p = path
  · subst hp
    constructor
    · rintro ⟨hone, -⟩
      rw [hfree] at hone
      cases hone
    · rintro ⟨-, htwo⟩
      exact absurd htwo hhidden
  · have hrow : one.rowAt p = two.rowAt p := by rw [hrows, Function.update_of_ne hp]
    have hheld : resolver.onPath one p identity = resolver.onPath two p identity :=
      Resolver.onPath_congr hfiles hrecords fun _ _ _ _ => by rw [hrow]
    unfold Resolver.Permits
    rw [hrow, hheld]

namespace Service

variable {σ : Type} {service : Service σ} {identity : Identity} {one two drive : Drive σ}
  {path : String}

/-! ## Downloads -/

/-- A file whose object is the same in both drives opens the same way. -/
theorem openFile_congr {file : File}
    (h : ∀ range, (service.store.get file.path range one.objects).1 =
      (service.store.get file.path range two.objects).1)
    (rangeHeader : Option String) :
    ((service.openFile file rangeHeader).on one).1 =
      ((service.openFile file rangeHeader).on two).1 := by
  unfold openFile
  split
  · rfl
  · next range _ =>
    rw [on_bind, on_bind, on_object, on_object, h]
    cases (service.store.get file.path range two.objects).1 <;> rfl

/-- A download step by step: the path, what is held there, the file, the object. -/
theorem download_on (rangeHeader : Option String) (drive : Drive σ) :
    (service.download identity path rangeHeader).on drive =
      match filePath path with
      | .error e => (.error e, drive)
      | .ok path =>
        match service.resolver.onPath drive.db path identity with
        | .error e => (.error e, drive)
        | .ok held =>
          if held.has .read = true then
            match drive.db.file path with
            | .error e => (.error e, drive)
            | .ok file => (service.openFile file rangeHeader).on drive
          else (.error (.unauthorized path .read), drive) := by
  unfold download authorize Service.held
  rw [on_bind, on_lift]
  cases filePath path with
  | error e => rfl
  | ok path =>
    dsimp only
    rw [on_bind, on_bind, on_query]
    cases service.resolver.onPath drive.db path identity with
    | error e => rfl
    | ok held =>
      dsimp only
      rw [on_lift]
      unfold require
      by_cases hread : held.has .read = true
      · rw [if_pos hread, if_pos hread]
        dsimp only
        rw [on_bind, on_query]
        cases drive.db.file path with
        | error e => rfl
        | ok file => rfl
      · rw [if_neg hread, if_neg hread]

/-- Two drives look the same to somebody: their metadata do, and the files that the caller may read
have the same objects. -/
structure SameToReader (service : Service σ) (identity : Identity) (one two : Drive σ) : Prop where
  db : one.db.SameToReader service.resolver identity two.db
  files : one.db.FilesAlike two.db
  objects : ∀ path row, one.db.rowAt path = some row →
    service.resolver.Permits one.db identity .read path →
      ∀ range, (service.store.get path range one.objects).1 =
        (service.store.get path range two.objects).1

/-- A download tells nothing about files that the caller may not read: it ends the same way on every
two drives that look the same to the caller, whatever else is stored there. -/
theorem download_congr (h : service.SameToReader identity one two) (path : String)
    (rangeHeader : Option String) :
    ((service.download identity path rangeHeader).on one).1 =
      ((service.download identity path rangeHeader).on two).1 := by
  rw [download_on, download_on]
  cases filePath path with
  | error e => rfl
  | ok path =>
    dsimp only
    rw [← h.db.onPath h.files path]
    rcases hheld : service.resolver.onPath one.db path identity with e | held
    · rfl
    dsimp only
    by_cases hread : held.has .read = true
    · rw [if_pos hread, if_pos hread]
      have hpermits : service.resolver.Permits one.db identity .read path := ⟨held, hheld, hread⟩
      rw [← Database.file_congr h.files h.db.users (h.db.rowAt h.files hpermits)]
      rcases hfile : one.db.file path with e | file
      · rfl
      · obtain ⟨users, row, -, hrow, rfl⟩ := Database.file_eq_ok hfile
        refine openFile_congr ?_ rangeHeader
        rw [FileRow.path_file, Database.path_of_rowAt hrow]
        exact h.objects path row hrow hpermits
    · rw [if_neg hread, if_neg hread]

/-- A directory with a file of Ann's, without and with a file of Bob's beside it. -/
theorem download_congr_beside_hidden_file :
    let ann : Identity := ⟨"ann", "ann", [], "", "", false⟩
    let service : Service Tree := ⟨Directory.store, .enforcing "admins", 0, toString, fun _ => none⟩
    let mine : FileRow := ⟨"/d/a", 1, "text/plain", "", "ann", "", ""⟩
    let other : FileRow := ⟨"/d/b", 2, "text/plain", "", "bob", "", ""⟩
    let entries : List (Place × Entry) := [(["d"], .directory), (["d", "a"], .file ⟨#[65]⟩)]
    let one : Drive Tree := ⟨Database.empty.withFiles [mine], ⟨entries⟩, .epoch, 0⟩
    let two : Drive Tree := ⟨Database.empty.withFiles ([mine] ++ [other]),
      ⟨entries ++ [(["d", "b"], .file ⟨#[66, 67]⟩)]⟩, .epoch, 0⟩
    service.SameToReader ann one two ∧
      ((service.download ann "/d/b" none).on one).1 =
        ((service.download ann "/d/b" none).on two).1 := by
  intro ann service mine other entries one two
  have hfiles : one.db.FilesAlike two.db := fun e => ⟨nofun, nofun⟩
  have hfree : one.db.rowAt "/d/b" = none := by decide +kernel
  have hsame : service.SameToReader ann one two := by
    refine ⟨?_, hfiles, ?_⟩
    · refine Database.sameToReader_of_hidden hfiles (fun _ => rfl) (fun _ => rfl) hfree
        (Database.find?_path_append (r := other) hfree) ?_
      rintro ⟨held, hheld, hread⟩
      have hnone : service.resolver.onPath two.db "/d/b" ann = .ok .none := by cbv
      obtain rfl := Except.ok.inj (hheld.symm.trans hnone)
      rw [Permissions.has_none] at hread
      cases hread
    · intro path row hrow _ range
      obtain rfl : row = mine := List.mem_singleton.1 (Database.mem_of_rowAt hrow)
      obtain rfl : mine.path = path := Database.path_of_rowAt hrow
      cbv
  exact ⟨hsame, download_congr hsame "/d/b" none⟩

end Service

end FileDrive
