import FileDrive.Proofs.Logins
import FileDrive.Proofs.PermissionAgreement

/-!
# Reading in every state of a drive

Where the metadata are in order, nothing that is only read fails: what is held on a path and what is
found for it can always be told. What is found is then simply what is stored at the path or below,
because there is nothing below a file (`Ordered.mem_filesAt`).
-/

namespace FileDrive

open FileDrive.DriveM FileDrive.Time

/-- A file is found for a path: it is stored there or below. -/
def Database.FoundAt (db : Database) (path : String) (row : FileRow) : Prop :=
  db.rowAt row.path = some row ∧ (row.path = path ∨ isStoredBelow row.path path = true)

namespace Service

variable {db : Database} {path : String}

/-- In an ordered database there is nothing below a file. -/
theorem Ordered.alone (h : Ordered db) {row other : FileRow} (hrow : db.rowAt path = some row)
    (hother : db.rowAt other.path = some other)
    (hstored : Database.isStoredBelow other.path path = true) : other = row := by
  by_cases hat : other.path = path
  · rw [hat, hrow] at hother
    exact (Option.some.inj hother).symm
  · have hbelow := isBelow_of_stored hstored hat
    have hnul := h.shaped.apart other.path path other row hother hrow hbelow
    -- What is below a path with a NUL in it is not found.
    rw [Database.isStoredBelow, Bool.and_eq_true, Path.stem_all_ne_nul] at hstored
    exact absurd hnul hstored.1

theorem Ordered.tables (h : Ordered db) :
    ∃ rows users, db.fileRows = .ok rows ∧ db.userRows = .ok users := by
  obtain ⟨rows, hrows⟩ := Option.isSome_iff_exists.1 (h.whole.has .files)
  obtain ⟨users, husers⟩ := Option.isSome_iff_exists.1 (h.whole.has .users)
  exact ⟨rows, users, Database.fileRows_eq_ok.2 ⟨h.whole.isOpen, hrows⟩,
    Database.rowsOf_eq_ok.2 ⟨h.whole.isOpen, husers⟩⟩

theorem Ordered.records (h : Ordered db) : ∃ records, db.allRecords = .ok records := by
  obtain ⟨rows, hrows⟩ := Option.isSome_iff_exists.1 (h.whole.has .permissions)
  exact h.legible.allRecords (Database.permissionRows_eq_ok.2 ⟨h.whole.isOpen, hrows⟩)

theorem Ordered.onPath (h : Ordered db) (resolver : Resolver) (identity : Identity)
    (path : String) : ∃ held, resolver.onPath db path identity = .ok held := by
  obtain ⟨rows, -, hrows, -⟩ := h.tables
  obtain ⟨records, hrecords⟩ := h.records
  exact ⟨_, Resolver.onPath_eq_resolve hrows hrecords path⟩

theorem Ordered.exists_filesAt (h : Ordered db) (path : String) :
    ∃ files, db.filesAt path = .ok files := by
  obtain ⟨rows, users, hrows, husers⟩ := h.tables
  unfold Database.filesAt Database.file? Database.allFiles
  rw [hrows, husers]
  dsimp only [bind, Except.bind, pure, Except.pure]
  cases (rows.map (·.file users)).find? (·.path = path) with
  | none => exact ⟨_, rfl⟩
  | some file => exact ⟨_, rfl⟩

/-- What is found for a path is what is stored there or below. -/
theorem Ordered.mem_filesAt (h : Ordered db) {files : List File} {users : List UserRow}
    (hfiles : db.filesAt path = .ok files) (husers : db.userRows = .ok users) (file : File) :
    file ∈ files ↔ ∃ row, db.FoundAt path row ∧ file = row.file users := by
  obtain ⟨-, husers⟩ := Database.rowsOf_eq_ok.1 husers
  obtain ⟨users', husers', hcases⟩ := Database.filesAt_eq_ok hfiles
  obtain rfl : users = users' := Option.some.inj (husers.symm.trans husers')
  rcases hcases with ⟨row, hrow, rfl⟩ | ⟨hfree, hperm⟩
  · have hpath := Database.path_of_rowAt hrow
    rw [List.mem_singleton]
    constructor
    · rintro rfl
      exact ⟨row, ⟨by rw [hpath, hrow], Or.inl hpath⟩, rfl⟩
    · rintro ⟨other, ⟨hother, hat | hstored⟩, rfl⟩
      · rw [hat, hrow] at hother
        rw [Option.some.inj hother]
      · rw [h.alone hrow hother hstored]
  · rw [hperm.mem_iff, List.mem_map]
    constructor
    · rintro ⟨row, hrow, rfl⟩
      rw [List.mem_filter] at hrow
      exact ⟨row, ⟨h.keyed.rowAt_of_mem hrow.1, Or.inr hrow.2⟩, rfl⟩
    · rintro ⟨row, ⟨hrow, hat | hstored⟩, rfl⟩
      · rw [hat, hfree] at hrow
        cases hrow
      · exact ⟨row, List.mem_filter.2 ⟨Database.mem_of_rowAt hrow, hstored⟩, rfl⟩

end Service

end FileDrive
