import Mathlib.Data.List.Find
import Mathlib.Data.List.Nodup
import Mathlib.Logic.Function.Basic
import FileDrive.Metadata.Files
import FileDrive.Metadata.Records
import FileDrive.Metadata.Shares
import FileDrive.Metadata.Users

/-!
# Tables by path

The metadata seen as functions of a path: the row of the file there (`rowAt`) and the rows of the
records there (`recordRowsAt`). A change of the metadata that is granted is described by what it
makes of the rows, by the paths whose records it touches, and by everything else staying as it is
(`Becomes`); no proof outside this module looks at how a table is written.
-/

namespace FileDrive

/-- An action that may fail gives an answer when each of its steps does. -/
theorem bind_eq_ok {ε α β : Type} {x : Except ε α} {f : α → Except ε β} {b : β} :
    x >>= f = .ok b ↔ ∃ a, x = .ok a ∧ f a = .ok b := by
  cases x with
  | error e => simp [bind, Except.bind]
  | ok a => simp [bind, Except.bind]

/-- What can be read off an answer shows that there is one. -/
theorem of_toOption_map {ε α β : Type} {x : Except ε α} {f : α → β} {b : β}
    (h : x.toOption.map f = some b) : ∃ a, x = .ok a ∧ f a = b := by
  cases x with
  | error e => cases h
  | ok a => exact ⟨a, rfl, Option.some.inj h⟩

/-- Without the entries under a key, what is found under the others stays. -/
theorem lookup_filter_key {κ ν : Type} [BEq κ] [LawfulBEq κ] [DecidableEq κ] (l : List (κ × ν))
    (key q : κ) :
    (l.filter (·.1 ≠ key)).lookup q = if q = key then none else l.lookup q := by
  induction l with
  | nil => simp
  | cons x l ih =>
    by_cases hx : x.1 = key
    · rw [List.filter_cons_of_neg (by simpa using hx), ih, List.lookup_cons, hx]
      by_cases hq : q = key
      · simp [hq]
      · simp [hq, beq_eq_false_iff_ne.2 hq]
    · rw [List.filter_cons_of_pos (by simpa using hx), List.lookup_cons, List.lookup_cons, ih]
      by_cases hq : q = key
      · have hqx : (q == x.1) = false := by simpa [hq] using Ne.symm hx
        simp [hq, hq ▸ hqx]
      · simp [hq]

/-- Among entries with different keys each one is found under its key. -/
theorem find?_key_of_mem {α κ : Type} [DecidableEq κ] {l : List α} {key : α → κ} {a : α}
    (h : (l.map key).Nodup) (hm : a ∈ l) : l.find? (key · = key a) = some a := by
  induction l with
  | nil => exact absurd hm List.not_mem_nil
  | cons first l ih =>
    rw [List.map_cons, List.nodup_cons] at h
    rcases List.mem_cons.1 hm with rfl | hm
    · simp
    · have hne : key first ≠ key a := fun e => h.1 (List.mem_map.2 ⟨a, hm, e.symm⟩)
      rw [List.find?_cons_of_neg (by simpa using hne), ih h.2 hm]

/-- Keys stay different when an entry with a new one is added. -/
theorem nodup_key_append {α κ : Type} {l : List α} {key : α → κ} {a : α}
    (hfresh : ∀ b ∈ l, key b ≠ key a) (h : (l.map key).Nodup) : ((l ++ [a]).map key).Nodup := by
  rw [List.map_append, List.map_singleton, List.nodup_append]
  refine ⟨h, List.nodup_singleton _, fun k hk k' hk' => ?_⟩
  obtain ⟨b, hb, rfl⟩ := List.mem_map.1 hk
  rw [List.mem_singleton.1 hk']
  exact hfresh b hb

/-- What is sorted by ranks is in their order. -/
theorem pairwise_mergeSort_of_rank {α β : Type} [LinearOrder β] {le : α → α → Bool} {rank : α → β}
    (h : ∀ a b, le a b = true ↔ rank a ≤ rank b) (l : List α) :
    (l.mergeSort le).Pairwise fun a b => rank a ≤ rank b := by
  refine (List.pairwise_mergeSort (fun a b c hab hbc => ?_) (fun a b => ?_) l).imp (h _ _).1
  · rw [h] at hab hbc ⊢
    exact hab.trans hbc
  · rw [Bool.or_eq_true, h, h]
    exact le_total _ _

@[simp] theorem FileRow.path_file (row : FileRow) (users : List UserRow) :
    (row.file users).path = row.path := rfl

@[simp] theorem FileRow.size_ofNew (new : NewFile) (now : Time.Timestamp) :
    (FileRow.ofNew new now).size = new.size := rfl

@[simp] theorem throw_bind_ne_ok {ε α β : Type} {e : ε} {f : α → Except ε β} {b : β} :
    ((throw e : Except ε α) >>= f) ≠ .ok b := by
  intro h
  cases h

namespace Database

open FileDrive.Time

/-- The row of the file at a path. -/
def rowAt (db : Database) (path : String) : Option FileRow :=
  (db.files.getD []).find? (·.path = path)

/-- The rows of the records on a path. -/
def recordRowsAt (db : Database) (path : String) : List PermissionRow :=
  (db.permissions.getD []).filter (·.path = path)

/-- The rows of the shares. -/
def shareTable (db : Database) : List ShareRow := db.shares.getD []

/-- No two files have the same path. -/
def Keyed (db : Database) : Prop := ((db.files.getD []).map (·.path)).Nodup

/-- Every row of a record stands for one. -/
def Legible (db : Database) : Prop :=
  ∀ row ∈ db.permissions.getD [], ∃ record, row.record = .ok record

/-- The database without its files and records. -/
def rest (db : Database) : Database := { db with files := none, permissions := none }

/-- `after` is `db` with other files, those of `files`, and with other records on the `touched`
paths at most. -/
structure Becomes (db after : Database) (files : String → Option FileRow) (touched : List String) :
    Prop where
  rowAt : after.rowAt = files
  records : ∀ path, path ∉ touched → after.recordRowsAt path = db.recordRowsAt path
  rest : after.rest = db.rest
  keyed : db.Keyed → after.Keyed
  legible : db.Legible → after.Legible

variable {db after : Database} {path newPath : String} {now : Timestamp} {new : NewFile}
  {row : FileRow}

theorem shareTable_of_rest (h : after.rest = db.rest) : after.shareTable = db.shareTable := by
  have hs : after.rest.shares = db.rest.shares := by rw [h]
  rw [shareTable, shareTable, show after.shares = db.shares from hs]

theorem files_empty : empty.files = some [] := rfl

@[simp] theorem rowAt_empty : empty.rowAt = fun _ => none := by
  funext path
  rw [rowAt, files_empty, Option.getD_some, List.find?_nil]

theorem legible_empty : empty.Legible := by
  have hnone : empty.permissions.getD [] = [] := rfl
  intro row hrow
  rw [hnone] at hrow
  cases hrow

theorem keyed_empty : empty.Keyed := by
  rw [Keyed, files_empty]
  exact List.nodup_nil

/-! ## Reading -/

theorem rowsOf_eq_ok {α : Type} {table : Table} {rows : Option (List α)} {found : List α} :
    db.rowsOf table rows = .ok found ↔ db.isOpen = true ∧ rows = some found := by
  unfold rowsOf
  cases db.isOpen <;> cases rows <;> simp

theorem fileRows_eq_ok {rows : List FileRow} :
    db.fileRows = .ok rows ↔ db.isOpen = true ∧ db.files = some rows := rowsOf_eq_ok

theorem permissionRows_eq_ok {rows : List PermissionRow} :
    db.permissionRows = .ok rows ↔ db.isOpen = true ∧ db.permissions = some rows := rowsOf_eq_ok

theorem rowAt_of_files {rows : List FileRow} (h : db.files = some rows) (path : String) :
    db.rowAt path = rows.find? (·.path = path) := by
  rw [rowAt, h, Option.getD_some]

theorem path_of_rowAt (h : db.rowAt path = some row) : row.path = path := by
  simpa using List.find?_some h

theorem mem_of_rowAt (h : db.rowAt path = some row) : row ∈ db.files.getD [] :=
  List.mem_of_find?_eq_some h

theorem find?_path_eq_none {rows : List FileRow} :
    rows.find? (·.path = path) = none ↔ rows.any (·.path = path) = false := by
  simp [List.find?_eq_none]

theorem any_path_iff {rows : List FileRow} :
    rows.any (·.path = path) = true ↔ ∃ row, rows.find? (·.path = path) = some row := by
  rw [← Option.isSome_iff_exists, List.find?_isSome, List.any_eq_true]

theorem Keyed.rowAt_of_mem (h : db.Keyed) (hm : row ∈ db.files.getD []) :
    db.rowAt row.path = some row := find?_key_of_mem h hm

theorem allFiles_eq_ok {files : List File} (h : db.allFiles = .ok files) :
    ∃ rows users, db.files = some rows ∧ db.users = some users ∧ db.isOpen = true ∧
      files = rows.map (·.file users) := by
  obtain ⟨rows, hrows, h⟩ := bind_eq_ok.1 h
  obtain ⟨users, husers, h⟩ := bind_eq_ok.1 h
  obtain ⟨hopen, hrows⟩ := fileRows_eq_ok.1 hrows
  obtain ⟨-, husers⟩ := rowsOf_eq_ok.1 husers
  exact ⟨rows, users, hrows, husers, hopen, (Except.ok.inj h).symm⟩

theorem find?_map_file {rows : List FileRow} {users : List UserRow} :
    (rows.map (·.file users)).find? (·.path = path) =
      (rows.find? (·.path = path)).map (·.file users) := by
  rw [List.find?_map]
  rfl

theorem file?_eq_ok {found : Option File} (h : db.file? path = .ok found) :
    ∃ users, db.users = some users ∧ found = (db.rowAt path).map (·.file users) := by
  obtain ⟨files, hfiles, h⟩ := bind_eq_ok.1 h
  obtain ⟨rows, users, hrows, husers, -, rfl⟩ := allFiles_eq_ok hfiles
  refine ⟨users, husers, ?_⟩
  rw [rowAt_of_files hrows, ← find?_map_file, ← Except.ok.inj h]

theorem file_eq_ok {file : File} (h : db.file path = .ok file) :
    ∃ users row, db.users = some users ∧ db.rowAt path = some row ∧ file = row.file users := by
  obtain ⟨found, hfound, h⟩ := bind_eq_ok.1 h
  obtain ⟨users, husers, rfl⟩ := file?_eq_ok hfound
  rcases hrow : db.rowAt path with _ | row
  · rw [hrow] at h
    exact absurd h (by simp [throw, throwThe, MonadExceptOf.throw])
  · rw [hrow] at h
    exact ⟨users, row, husers, rfl, (Except.ok.inj h).symm⟩

/-- The user with an id is the first one in the table that has it. -/
theorem user_of_userRows {rows : List UserRow} (h : db.userRows = .ok rows) (id : String) :
    db.user id = match rows.find? (·.id = id) with
      | some row => .ok row.user
      | none => .error (.userNotFound id) := by
  unfold user
  rw [h]
  rfl

theorem ownerOf_eq_ok {owner : Option String} (h : db.ownerOf path = .ok owner) :
    owner = (db.rowAt path).map (·.ownerId) := by
  obtain ⟨rows, hrows, h⟩ := bind_eq_ok.1 h
  rw [rowAt_of_files (fileRows_eq_ok.1 hrows).2, ← Except.ok.inj h]

/-- What is found for a path: the file there, or else what is stored below it. -/
theorem filesAt_eq_ok {files : List File} (h : db.filesAt path = .ok files) :
    ∃ users, db.users = some users ∧
      ((∃ row, db.rowAt path = some row ∧ files = [row.file users]) ∨
        (db.rowAt path = none ∧
          files.Perm (((db.files.getD []).filter fun row => isStoredBelow row.path path).map
            (·.file users)))) := by
  obtain ⟨found, hfound, h⟩ := bind_eq_ok.1 h
  obtain ⟨users, husers, rfl⟩ := file?_eq_ok hfound
  refine ⟨users, husers, ?_⟩
  rcases hrow : db.rowAt path with _ | row
  · rw [hrow] at h
    obtain ⟨all, hall, h⟩ := bind_eq_ok.1 h
    obtain ⟨rows, users', hrows, husers', -, rfl⟩ := allFiles_eq_ok hall
    obtain rfl : users = users' := Option.some.inj (husers.symm.trans husers')
    have hperm : files.Perm ((rows.map (·.file users)).filter fun file =>
        isStoredBelow file.path path) := by
      rw [← Except.ok.inj h]
      exact List.mergeSort_perm _ _
    rw [List.filter_map] at hperm
    rw [hrows]
    exact Or.inr ⟨rfl, hperm⟩
  · rw [hrow] at h
    exact Or.inl ⟨row, rfl, (Except.ok.inj h).symm⟩

theorem fileRows_of_file {file : File} (h : db.file path = .ok file) :
    ∃ rows, db.fileRows = .ok rows := by
  obtain ⟨_, hfound, -⟩ := bind_eq_ok.1 h
  obtain ⟨_, hall, -⟩ := bind_eq_ok.1 hfound
  obtain ⟨rows, hrows, -⟩ := bind_eq_ok.1 hall
  exact ⟨rows, hrows⟩

theorem fileRows_of_filesAt {files : List File} (h : db.filesAt path = .ok files) :
    ∃ rows, db.fileRows = .ok rows := by
  obtain ⟨_, hfound, -⟩ := bind_eq_ok.1 h
  obtain ⟨_, hall, -⟩ := bind_eq_ok.1 hfound
  obtain ⟨rows, hrows, -⟩ := bind_eq_ok.1 hall
  exact ⟨rows, hrows⟩

/-! ## Changing files -/

/-- What is stored can be read back, users being known. -/
theorem file_of_rowAt {rows : List FileRow} {users : List UserRow} (hopen : db.isOpen = true)
    (hrows : db.files = some rows) (husers : db.users = some users)
    (hrow : db.rowAt path = some row) : db.file path = .ok (row.file users) := by
  have hall : db.allFiles = .ok (rows.map (·.file users)) := by
    rw [allFiles, fileRows_eq_ok.2 ⟨hopen, hrows⟩, userRows, rowsOf_eq_ok.2 ⟨hopen, husers⟩]
    rfl
  have hfound : db.file? path = .ok (some (row.file users)) := by
    rw [rowAt_of_files hrows] at hrow
    rw [file?, hall]
    change Except.ok (List.find? _ _) = _
    rw [find?_map_file, hrow]
    rfl
  rw [file, hfound]
  rfl

/-- A file that is stored by a change can be read back when one could be read before. -/
theorem Becomes.file_eq_ok {files : String → Option FileRow} {touched : List String} {file : File}
    (h : db.Becomes after files touched) (hfile : db.file path = .ok file)
    (hrow : files newPath = some row) : ∃ file, after.file newPath = .ok file := by
  obtain ⟨_, hfound, -⟩ := bind_eq_ok.1 hfile
  obtain ⟨_, hall, -⟩ := bind_eq_ok.1 hfound
  obtain ⟨-, users, -, husers, hopen, -⟩ := allFiles_eq_ok hall
  have hopen' : after.rest.isOpen = true := by rw [h.rest]; exact hopen
  have husers' : after.rest.users = some users := by rw [h.rest]; exact husers
  rw [← h.rowAt] at hrow
  rcases hrows : after.files with _ | rows
  · rw [Database.rowAt, hrows] at hrow
    cases hrow
  · exact ⟨_, file_of_rowAt hopen' hrows husers' hrow⟩

theorem find?_path_append {rows : List FileRow} {r : FileRow}
    (h : rows.find? (·.path = r.path) = none) :
    (fun path => (rows ++ [r]).find? (·.path = path)) =
      Function.update (fun path => rows.find? (·.path = path)) r.path (some r) := by
  funext path
  rw [List.find?_append]
  by_cases hp : path = r.path
  · subst hp
    simp [h]
  · have hr : [r].find? (·.path = path) = none := by simp [Ne.symm hp]
    rw [Function.update_of_ne hp, hr, Option.or_none]

theorem nodup_path_append {rows : List FileRow} {r : FileRow}
    (hfree : rows.find? (·.path = r.path) = none) (h : (rows.map (·.path)).Nodup) :
    ((rows ++ [r]).map (·.path)).Nodup := by
  refine nodup_key_append (fun row hrow e => ?_) h
  have hnone := List.find?_eq_none.1 hfree row hrow
  exact hnone (by simpa using e)

/-- Giving the row at one path another content and another path, which has no row, changes the rows
at these two paths. -/
theorem find?_path_map {rows : List FileRow} {change : FileRow → FileRow}
    (hrow : rows.find? (·.path = path) = some row)
    (hchange : ∀ row, row.path = path → (change row).path = newPath)
    (hfree : path ≠ newPath → rows.find? (·.path = newPath) = none) :
    (fun p =>
        (rows.map fun row => if row.path = path then change row else row).find? (·.path = p)) =
      Function.update (Function.update (fun p => rows.find? (·.path = p)) path none) newPath
        (some (change row)) := by
  have hat : row.path = path := by simpa using List.find?_some hrow
  funext p
  rw [List.find?_map]
  -- The path looked up is the new one, the old one, or one that no change concerns.
  by_cases hp : p = newPath
  · subst hp
    have hpick : rows.find? ((fun row => decide (row.path = p)) ∘
        fun row => if row.path = path then change row else row) = some row := by
      rw [← hrow]
      refine List.find?_congr fun other hother => ?_
      by_cases ho : other.path = path
      · simp [ho, hchange other ho]
      · have hne : other.path ≠ p := fun e => by
          have hnone := List.find?_eq_none.1 (hfree fun hpp => ho (e.trans hpp.symm)) other hother
          exact hnone (by simpa using e)
        simp [ho, hne]
    rw [hpick, Function.update_self, Option.map_some, if_pos hat]
  · rw [Function.update_of_ne hp]
    by_cases hpath : p = path
    · subst hpath
      rw [Function.update_self, Option.map_eq_none_iff, List.find?_eq_none]
      intro other _
      by_cases ho : other.path = p
      · simp [ho, hchange other ho, Ne.symm hp]
      · simp [ho]
    · rw [Function.update_of_ne hpath]
      have hpick : rows.find? ((fun row => decide (row.path = p)) ∘
          fun row => if row.path = path then change row else row) = rows.find? (·.path = p) := by
        refine List.find?_congr fun other _ => ?_
        by_cases ho : other.path = path
        · simp [ho, hchange other ho, Ne.symm hp, Ne.symm hpath]
        · simp [ho]
      rcases hfound : rows.find? (·.path = p) with _ | other
      · rw [hpick, hfound, Option.map_none]
      · have ho : other.path = p := by simpa using List.find?_some hfound
        rw [hpick, hfound, Option.map_some, if_neg fun e => hpath (ho.symm.trans e)]

theorem nodup_path_map {rows : List FileRow} {change : FileRow → FileRow}
    (hchange : ∀ row, row.path = path → (change row).path = newPath)
    (hfree : path ≠ newPath → rows.find? (·.path = newPath) = none)
    (h : (rows.map (·.path)).Nodup) :
    ((rows.map fun row => if row.path = path then change row else row).map (·.path)).Nodup := by
  have hpaths : (rows.map fun row => if row.path = path then change row else row).map (·.path) =
      (rows.map (·.path)).map fun p => if p = path then newPath else p := by
    rw [List.map_map, List.map_map]
    refine List.map_congr_left fun row _ => ?_
    by_cases hr : row.path = path
    · simp [hr, hchange row hr]
    · simp [hr]
  rw [hpaths]
  refine List.Nodup.map_on (fun a ha b hb hab => ?_) h
  have hnew : ∀ p ∈ rows.map (·.path), path ≠ newPath → p ≠ newPath := by
    intro p hp hne
    obtain ⟨row, hrow, rfl⟩ := List.mem_map.1 hp
    simpa using List.find?_eq_none.1 (hfree hne) row hrow
  -- Two rows could meet only at the new path, and no other row is there.
  by_cases hpa : a = path <;> by_cases hpb : b = path
  · rw [hpa, hpb]
  · rw [if_pos hpa, if_neg hpb] at hab
    exact absurd hab.symm (hnew b hb fun e => hpb (hab.symm.trans e.symm))
  · rw [if_neg hpa, if_pos hpb] at hab
    exact absurd hab (hnew a ha fun e => hpa (hab.trans e.symm))
  · rwa [if_neg hpa, if_neg hpb] at hab

theorem createFile_becomes {file : File} (h : db.createFile now new = .ok (file, after)) :
    db.rowAt new.path = none ∧
      db.Becomes after (Function.update db.rowAt new.path (some (.ofNew new now))) [] := by
  obtain ⟨rows, hrows, h⟩ := bind_eq_ok.1 h
  obtain ⟨-, hrows⟩ := fileRows_eq_ok.1 hrows
  have hat : db.rowAt = fun p => rows.find? (·.path = p) := funext (rowAt_of_files hrows)
  dsimp only at h
  split at h
  case isTrue => exact absurd h throw_bind_ne_ok
  case isFalse htaken =>
    obtain ⟨_, -, h⟩ := bind_eq_ok.1 h
    obtain ⟨-, rfl⟩ := Prod.mk.inj (Except.ok.inj h)
    have hfree : rows.find? (·.path = new.path) = none :=
      find?_path_eq_none.2 (by simpa using htaken)
    refine ⟨by rw [hat]; exact hfree, ?_, fun _ _ => rfl, rfl, fun hk => ?_, id⟩
    · rw [hat]
      exact find?_path_append (r := .ofNew new now) hfree
    · rw [Keyed, hrows] at hk
      exact nodup_path_append (r := .ofNew new now) hfree hk

/-- The row of a file whose content and description are replaced. -/
def replacedRow (new : NewFile) (now : Timestamp) (row : FileRow) : FileRow :=
  { row with
    size := new.size, contentType := new.contentType, description := new.description,
    updatedAt := now.stored }

@[simp] theorem size_replacedRow : (replacedRow new now row).size = new.size := rfl

theorem putFile_becomes {file : File} (h : db.putFile now new = .ok (file, after)) :
    db.Becomes after
      (Function.update db.rowAt new.path
        (some (((db.rowAt new.path).map (replacedRow new now)).getD (.ofNew new now)))) [] := by
  obtain ⟨rows, hrows, h⟩ := bind_eq_ok.1 h
  obtain ⟨-, hrows⟩ := fileRows_eq_ok.1 hrows
  have hat : db.rowAt = fun p => rows.find? (·.path = p) := funext (rowAt_of_files hrows)
  obtain ⟨_, -, h⟩ := bind_eq_ok.1 h
  obtain ⟨-, rfl⟩ := Prod.mk.inj (Except.ok.inj h)
  rcases hrow : db.rowAt new.path with _ | row
  · rw [rowAt_of_files hrows] at hrow
    have htaken : ¬ rows.any (·.path = new.path) = true := by
      rw [find?_path_eq_none.1 hrow]
      exact Bool.false_ne_true
    rw [if_neg htaken]
    refine ⟨?_, fun _ _ => rfl, rfl, fun hk => ?_, id⟩
    · rw [hat]
      exact find?_path_append (r := .ofNew new now) hrow
    · rw [Keyed, hrows] at hk
      exact nodup_path_append (r := .ofNew new now) hrow hk
  · rw [rowAt_of_files hrows] at hrow
    have htaken : rows.any (·.path = new.path) = true := any_path_iff.2 ⟨row, hrow⟩
    rw [if_pos htaken]
    have hchange : ∀ row : FileRow, row.path = new.path →
        (replacedRow new now row).path = new.path := fun _ hr => hr
    have hfree : new.path ≠ new.path → rows.find? (·.path = new.path) = none :=
      fun hne => absurd rfl hne
    refine ⟨?_, fun _ _ => rfl, rfl, fun hk => ?_, id⟩
    · have hmap := find?_path_map hrow hchange hfree
      rw [Function.update_idem] at hmap
      rw [hat]
      exact hmap
    · rw [Keyed, hrows] at hk
      exact nodup_path_map hchange hfree hk

theorem reviseFile_becomes {change : FileRow → FileRow}
    (h : db.reviseFile path newPath change = .ok after) :
    ∃ row, db.rowAt path = some row ∧ (path ≠ newPath → db.rowAt newPath = none) ∧
      db.Becomes after
        (Function.update (Function.update db.rowAt path none) newPath
          (some { change row with path := newPath })) [] := by
  obtain ⟨rows, hrows, h⟩ := bind_eq_ok.1 h
  obtain ⟨-, hrows⟩ := fileRows_eq_ok.1 hrows
  have hat : db.rowAt = fun p => rows.find? (·.path = p) := funext (rowAt_of_files hrows)
  dsimp only at h
  split at h
  case isTrue => exact absurd h throw_bind_ne_ok
  case isFalse hmissing =>
    split at h
    case isTrue => exact absurd h throw_bind_ne_ok
    case isFalse htaken =>
      obtain rfl := Except.ok.inj h
      obtain ⟨row, hrow⟩ : ∃ row, rows.find? (·.path = path) = some row :=
        any_path_iff.1 (by simpa using hmissing)
      have hfree : path ≠ newPath → rows.find? (·.path = newPath) = none := fun hne =>
        find?_path_eq_none.2 (by simpa [hne] using htaken)
      have hchange : ∀ row : FileRow, row.path = path →
          ({ change row with path := newPath } : FileRow).path = newPath := fun _ _ => rfl
      refine ⟨row, by rw [hat]; exact hrow, by rw [hat]; exact hfree, ?_, fun _ _ => rfl, rfl,
        fun hk => ?_, id⟩
      · rw [hat]
        exact find?_path_map hrow hchange hfree
      · rw [Keyed, hrows] at hk
        exact nodup_path_map hchange hfree hk

/-- Dropping and changing rows at other paths leaves those at a path as they are. -/
theorem filter_path_map_filter {keep : PermissionRow → Bool}
    {change : PermissionRow → PermissionRow} (rows : List PermissionRow)
    (hkeep : ∀ row : PermissionRow, row.path = path → keep row = true)
    (hchange : ∀ row : PermissionRow, row.path = path → change row = row)
    (hback : ∀ row, (change row).path = path → row.path = path) :
    ((rows.filter keep).map change).filter (·.path = path) = rows.filter (·.path = path) := by
  induction rows with
  | nil => rfl
  | cons row rows ih =>
    by_cases hr : row.path = path
    · rw [List.filter_cons_of_pos (hkeep row hr), List.map_cons, hchange row hr,
        List.filter_cons_of_pos (by simpa using hr), List.filter_cons_of_pos (by simpa using hr),
        ih]
    · by_cases hk : keep row = true
      · have hstill : ¬ (change row).path = path := fun e => hr (hback row e)
        rw [List.filter_cons_of_pos hk, List.map_cons,
          List.filter_cons_of_neg (by simpa using hstill),
          List.filter_cons_of_neg (by simpa using hr), ih]
      · rw [List.filter_cons_of_neg hk, List.filter_cons_of_neg (by simpa using hr), ih]

theorem record_of_kind {row other : PermissionRow} (h : ∃ record, row.record = .ok record)
    (hkind : other.kind = row.kind) : ∃ record, other.record = .ok record := by
  obtain ⟨record, hrecord⟩ := h
  obtain ⟨kind, hk, -⟩ := bind_eq_ok.1 hrecord
  rw [← hkind] at hk
  exact ⟨_, by rw [PermissionRow.record, hk]; rfl⟩

/-- Rows stay legible when they keep their kind of principal. -/
theorem legible_map {rows : List PermissionRow} {change : PermissionRow → PermissionRow}
    (h : ∀ row ∈ rows, ∃ record, row.record = .ok record)
    (hkind : ∀ row, (change row).kind = row.kind) :
    ∀ row ∈ rows.map change, ∃ record, row.record = .ok record := by
  intro row hrow
  obtain ⟨old, hold, rfl⟩ := List.mem_map.1 hrow
  exact record_of_kind (h old hold) (hkind old)

/-- Records are moved between two paths only. -/
theorem repointRecords_becomes (h : db.repointRecords path newPath = .ok after) :
    db.Becomes after db.rowAt [path, newPath] := by
  obtain ⟨rows, hrows, h⟩ := bind_eq_ok.1 h
  obtain ⟨-, hrows⟩ := permissionRows_eq_ok.1 hrows
  obtain rfl := Except.ok.inj h
  refine ⟨rfl, fun p hp => ?_, rfl, id, fun h => ?_⟩
  · obtain ⟨hpath, hnew⟩ : p ≠ path ∧ p ≠ newPath := by simpa using hp
    rw [recordRowsAt, recordRowsAt, hrows]
    refine filter_path_map_filter rows (fun row hr => ?_) (fun row hr => ?_) fun row hr => ?_
    · simp [hr, hnew]
    · rw [if_neg fun e => hpath (hr.symm.trans e)]
    · by_cases he : row.path = path
      · rw [if_pos he] at hr
        exact absurd hr.symm hnew
      · rwa [if_neg he] at hr
  · rw [Legible, hrows] at h
    exact legible_map (fun row hrow => h row (List.mem_of_mem_filter hrow)) fun row => by
      split_ifs <;> rfl

theorem Becomes.trans {db mid after : Database} {files files' : String → Option FileRow}
    {touched touched' : List String} (h : db.Becomes mid files touched)
    (k : mid.Becomes after files' touched') : db.Becomes after files' (touched ++ touched') where
  rowAt := k.rowAt
  records p hp := by
    rw [List.mem_append, not_or] at hp
    rw [k.records p hp.2, h.records p hp.1]
  rest := k.rest.trans h.rest
  keyed hk := k.keyed (h.keyed hk)
  legible hl := k.legible (h.legible hl)

/-- The row of a file under a new path and description, and with new content where there is any. -/
def updatedRow (now : Timestamp) (newPath : String) (size : Int) (contentType description : String)
    (row : FileRow) : FileRow :=
  if 0 < size then
    { row with path := newPath, size, contentType, description, updatedAt := now.stored }
  else { row with path := newPath, description, updatedAt := now.stored }

theorem updatedRow_keeps {size : Int} {contentType description : String} :
    (updatedRow now newPath size contentType description row).ownerId = row.ownerId ∧
      (updatedRow now newPath size contentType description row).createdAt = row.createdAt := by
  unfold updatedRow
  split_ifs
  · exact ⟨rfl, rfl⟩
  · exact ⟨rfl, rfl⟩

theorem updateFile_becomes {size : Int} {contentType description : String}
    (h : db.updateFile now path newPath size contentType description = .ok after) :
    ∃ row, db.rowAt path = some row ∧ (path ≠ newPath → db.rowAt newPath = none) ∧
      db.Becomes after
        (Function.update (Function.update db.rowAt path none) newPath
          (some (updatedRow now newPath size contentType description row)))
        (if path = newPath then [] else [path, newPath]) := by
  obtain ⟨mid, hmid, h⟩ := bind_eq_ok.1 h
  obtain ⟨row, hrow, hfree, hbecomes⟩ := reviseFile_becomes hmid
  refine ⟨row, hrow, hfree, ?_⟩
  have hnew : ({ (if 0 < size then
        { row with size, contentType, description, updatedAt := now.stored }
      else { row with description, updatedAt := now.stored }) with path := newPath } : FileRow) =
      updatedRow now newPath size contentType description row := by
    unfold updatedRow
    split_ifs <;> rfl
  rw [hnew] at hbecomes
  split at h
  case isTrue hsame =>
    obtain rfl := Except.ok.inj h
    rw [if_pos hsame]
    exact hbecomes
  case isFalse hmoved =>
    rw [if_neg hmoved]
    have htrans := hbecomes.trans (repointRecords_becomes h)
    rwa [hbecomes.rowAt, List.nil_append] at htrans

/-- The row of a file under a new path. -/
def movedRow (now : Timestamp) (newPath : String) (row : FileRow) : FileRow :=
  { row with path := newPath, updatedAt := now.stored }

theorem moveFile_becomes (h : db.moveFile now path newPath = .ok after) :
    ∃ row, db.rowAt path = some row ∧ (path ≠ newPath → db.rowAt newPath = none) ∧
      db.Becomes after
        (Function.update (Function.update db.rowAt path none) newPath
          (some (movedRow now newPath row))) [path, newPath] := by
  obtain ⟨mid, hmid, h⟩ := bind_eq_ok.1 h
  obtain ⟨row, hrow, hfree, hbecomes⟩ := reviseFile_becomes hmid
  have htrans := hbecomes.trans (repointRecords_becomes h)
  rw [hbecomes.rowAt, List.nil_append] at htrans
  exact ⟨row, hrow, hfree, htrans⟩

theorem deleteFile_becomes (h : db.deleteFile path = .ok after) :
    (∃ row, db.rowAt path = some row) ∧
      db.Becomes after (Function.update db.rowAt path none) [path] := by
  obtain ⟨rows, hrows, h⟩ := bind_eq_ok.1 h
  obtain ⟨-, hrows⟩ := fileRows_eq_ok.1 hrows
  have hat : db.rowAt = fun p => rows.find? (·.path = p) := funext (rowAt_of_files hrows)
  dsimp only at h
  split at h
  case isTrue => exact absurd h throw_bind_ne_ok
  case isFalse hmissing =>
    obtain ⟨records, hrecords, h⟩ := bind_eq_ok.1 h
    obtain ⟨-, hrecords⟩ := permissionRows_eq_ok.1 hrecords
    obtain rfl := Except.ok.inj h
    refine ⟨?_, ?_, fun p hp => ?_, rfl, fun hk => ?_, fun hl row hrow => ?_⟩
    · rw [hat]
      exact any_path_iff.1 (by simpa using hmissing)
    · rw [hat]
      funext p
      change List.find? _ (List.filter _ rows) = _
      rw [List.find?_filter]
      by_cases hp : p = path
      · subst hp
        rw [Function.update_self, List.find?_eq_none]
        intro row _
        simp
      · rw [Function.update_of_ne hp]
        refine List.find?_congr fun row _ => ?_
        by_cases hr : row.path = p
        · simp [hr, hp]
        · simp [hr]
    · rw [recordRowsAt, recordRowsAt, hrecords]
      change List.filter _ (List.filter _ records) = List.filter _ records
      rw [List.filter_filter]
      refine List.filter_congr fun row _ => ?_
      by_cases hr : row.path = p
      · simpa [hr] using hp
      · simp [hr]
    · rw [Keyed, hrows] at hk
      exact hk.sublist (List.filter_sublist.map _)
    · rw [Legible, hrecords] at hl
      exact hl row (List.mem_of_mem_filter hrow)

/-! ## Records and shares -/

/-- A record is put among the rows at its own path. -/
theorem filter_path_withRecord {record : PermissionRecord} (rows : List PermissionRow)
    (h : record.path ≠ path) :
    (withRecord rows record).filter (·.path = path) = rows.filter (·.path = path) := by
  have hnew : ¬ (PermissionRow.ofRecord record).path = path := h
  unfold withRecord
  dsimp only
  split
  case isFalse =>
    rw [List.filter_append, List.filter_cons_of_neg (by simpa using hnew), List.filter_nil,
      List.append_nil]
  case isTrue =>
    have hkey : ∀ row : PermissionRow, (PermissionRow.ofRecord record).sameKey row = true →
        row.path ≠ path := by
      intro row hrow e
      simp only [PermissionRow.sameKey, Bool.and_eq_true, decide_eq_true_eq] at hrow
      exact hnew (hrow.1.1.trans e)
    have hmap := @filter_path_map_filter path (fun _ => true)
      (fun row => if (PermissionRow.ofRecord record).sameKey row then .ofRecord record else row)
      rows (fun _ _ => rfl)
      (fun row hr => if_neg fun hk => hkey row hk hr) fun row hr => by
        by_cases hk : (PermissionRow.ofRecord record).sameKey row = true
        · rw [if_pos hk] at hr
          exact absurd hr hnew
        · rwa [if_neg hk] at hr
    rwa [List.filter_true] at hmap

theorem filter_path_foldl_withRecord {records : List PermissionRecord} {rows : List PermissionRow}
    (h : ∀ record ∈ records, record.path ≠ path) :
    (records.foldl withRecord rows).filter (·.path = path) = rows.filter (·.path = path) := by
  induction records generalizing rows with
  | nil => rfl
  | cons record records ih =>
    rw [List.forall_mem_cons] at h
    rw [List.foldl_cons, ih h.2, filter_path_withRecord rows h.1]

theorem record_ofRecord (record : PermissionRecord) :
    ∃ found, (PermissionRow.ofRecord record).record = .ok found := by
  have hkind : PrincipalKind.ofName record.kind.name = .ok record.kind := by
    rw [PrincipalKind.ofName, PrincipalKind.ofName?_name]
  exact ⟨_, by rw [PermissionRow.record, PermissionRow.ofRecord, hkind]; rfl⟩

/-- Each row is one that was there or the row of a record. -/
theorem mem_foldl_withRecord {records : List PermissionRecord} {rows : List PermissionRow}
    {row : PermissionRow} (h : row ∈ records.foldl withRecord rows) :
    row ∈ rows ∨ ∃ record, row = .ofRecord record := by
  induction records generalizing rows with
  | nil => exact Or.inl h
  | cons record records ih =>
    rcases ih h with hrow | hnew
    · unfold withRecord at hrow
      dsimp only at hrow
      split at hrow
      · obtain ⟨old, hold, rfl⟩ := List.mem_map.1 hrow
        split_ifs
        · exact Or.inr ⟨record, rfl⟩
        · exact Or.inl hold
      · rcases List.mem_append.1 hrow with hold | hnew
        · exact Or.inl hold
        · exact Or.inr ⟨record, List.mem_singleton.1 hnew⟩
    · exact Or.inr hnew

/-- Records are replaced on one path only. -/
theorem replaceRecords_becomes {records : List PermissionRecord}
    (h : db.replaceRecords path records = .ok after) : db.Becomes after db.rowAt [path] := by
  unfold replaceRecords at h
  split at h
  case h_1 => cases h
  case h_2 hnone =>
    obtain ⟨rows, hrows, h⟩ := bind_eq_ok.1 h
    obtain ⟨-, hrows⟩ := permissionRows_eq_ok.1 hrows
    obtain rfl := Except.ok.inj h
    refine ⟨rfl, fun p hp => ?_, rfl, id, fun h => ?_⟩
    · rw [List.mem_singleton] at hp
      have hnamed : ∀ record ∈ records, record.path ≠ p := fun record hrecord e => by
        have hsame := List.find?_eq_none.1 hnone record hrecord
        exact hp (e.symm.trans (by simpa using hsame))
      rw [recordRowsAt, recordRowsAt, hrows]
      change List.filter _ (List.foldl _ _ _) = List.filter _ rows
      rw [filter_path_foldl_withRecord hnamed, List.filter_filter]
      refine List.filter_congr fun row _ => ?_
      by_cases hr : row.path = p
      · simpa [hr] using hp
      · simp [hr]
    · rw [Legible, hrows] at h
      intro row hrow
      rcases mem_foldl_withRecord hrow with hold | ⟨record, rfl⟩
      · exact h row (List.mem_of_mem_filter hold)
      · exact record_ofRecord record

theorem createShare_eq_ok {id userId : String} {permissions : Permissions} {share : Share}
    (h : db.createShare now id path permissions userId = .ok (share, after)) :
    after = { db with shares := some (db.shareTable ++
      [⟨id, path, permissions.mask, userId, now.stored⟩]) } := by
  obtain ⟨rows, hrows, h⟩ := bind_eq_ok.1 h
  obtain ⟨-, hrows⟩ := rowsOf_eq_ok.1 hrows
  dsimp only at h
  split at h
  case isTrue => exact absurd h throw_bind_ne_ok
  case isFalse =>
    obtain ⟨_, -, h⟩ := bind_eq_ok.1 h
    obtain ⟨-, rfl⟩ := Prod.mk.inj (Except.ok.inj h)
    rw [shareTable, hrows, Option.getD_some]

/-- A new share is what its id is answered with. -/
theorem share_of_createShare {id userId : String} {permissions : Permissions} {share : Share}
    (h : db.createShare now id path permissions userId = .ok (share, after)) :
    after.share share.id = .ok share ∧ share.path = path ∧ share.permissions = permissions := by
  obtain ⟨rows, hrows, h⟩ := bind_eq_ok.1 h
  dsimp only at h
  split at h
  case isTrue => exact absurd h throw_bind_ne_ok
  case isFalse hfree =>
    obtain ⟨found, hfound, h⟩ := bind_eq_ok.1 h
    obtain ⟨rfl, rfl⟩ := Prod.mk.inj (Except.ok.inj h)
    have hnone : rows.find? (·.id = id) = none := by
      rw [List.find?_eq_none]
      intro row hrow
      simpa using fun e => hfree (List.any_eq_true.2 ⟨row, hrow, decide_eq_true e⟩)
    obtain ⟨rows', hrows', h⟩ := bind_eq_ok.1 hfound
    obtain ⟨-, hrows'⟩ := rowsOf_eq_ok.1 hrows'
    obtain rfl := Option.some.inj hrows'
    rw [List.find?_append, hnone, Option.none_or, List.find?_cons_of_pos (by simp)] at h
    obtain rfl := Except.ok.inj h
    exact ⟨hfound, rfl, Permissions.ofMask_mask permissions⟩

theorem deleteShare_eq_ok {id : String} (h : db.deleteShare id = .ok after) :
    after = { db with shares := some (db.shareTable.filter (·.id ≠ id)) } := by
  obtain ⟨rows, hrows, h⟩ := bind_eq_ok.1 h
  obtain ⟨-, hrows⟩ := rowsOf_eq_ok.1 hrows
  split at h
  case isTrue =>
    obtain rfl := Except.ok.inj h
    rw [shareTable, hrows, Option.getD_some]
  case isFalse => cases h

/-! ## Changes of files and records -/

/-- A change of files or records that the metadata grant. -/
inductive Changes (db : Database) : Database → Prop where
  | created {now : Timestamp} {new : NewFile} {file : File} {after : Database}
      (h : db.createFile now new = .ok (file, after)) : Changes db after
  | put {now : Timestamp} {new : NewFile} {file : File} {after : Database}
      (h : db.putFile now new = .ok (file, after)) : Changes db after
  | updated {now : Timestamp} {path newPath : String} {size : Int}
      {contentType description : String} {after : Database}
      (h : db.updateFile now path newPath size contentType description = .ok after) :
      Changes db after
  | moved {now : Timestamp} {path newPath : String} {after : Database}
      (h : db.moveFile now path newPath = .ok after) : Changes db after
  | deleted {path : String} {after : Database} (h : db.deleteFile path = .ok after) :
      Changes db after
  | replaced {path : String} {records : List PermissionRecord} {after : Database}
      (h : db.replaceRecords path records = .ok after) : Changes db after

theorem Changes.becomes (h : db.Changes after) :
    ∃ files touched, db.Becomes after files touched := by
  cases h with
  | created h => exact ⟨_, _, (createFile_becomes h).2⟩
  | put h => exact ⟨_, _, putFile_becomes h⟩
  | updated h =>
    obtain ⟨row, -, -, hbecomes⟩ := updateFile_becomes h
    exact ⟨_, _, hbecomes⟩
  | moved h =>
    obtain ⟨row, -, -, hbecomes⟩ := moveFile_becomes h
    exact ⟨_, _, hbecomes⟩
  | deleted h => exact ⟨_, _, (deleteFile_becomes h).2⟩
  | replaced h => exact ⟨_, _, replaceRecords_becomes h⟩

theorem Changes.keyed (h : db.Changes after) (hk : db.Keyed) : after.Keyed := by
  obtain ⟨files, touched, hbecomes⟩ := h.becomes
  exact hbecomes.keyed hk

theorem Changes.legible (h : db.Changes after) (hl : db.Legible) : after.Legible := by
  obtain ⟨files, touched, hbecomes⟩ := h.becomes
  exact hbecomes.legible hl

/-- The database is open and no table is missing. -/
structure Whole (db : Database) : Prop where
  isOpen : db.isOpen = true
  has : ∀ table, db.has table = true

theorem whole_empty : empty.Whole := ⟨rfl, fun table => by cases table <;> rfl⟩

theorem Whole.withFiles (h : db.Whole) (rows : List FileRow) : (db.withFiles rows).Whole := by
  refine ⟨h.isOpen, fun table => ?_⟩
  have hhas := h.has table
  cases table <;> first | rfl | exact hhas

theorem Whole.withPermissions (h : db.Whole) (rows : List PermissionRow) :
    (db.withPermissions rows).Whole := by
  refine ⟨h.isOpen, fun table => ?_⟩
  have hhas := h.has table
  cases table <;> first | rfl | exact hhas

theorem Whole.withShares (h : db.Whole) (rows : List ShareRow) :
    ({ db with shares := some rows } : Database).Whole := by
  refine ⟨h.isOpen, fun table => ?_⟩
  have hhas := h.has table
  cases table <;> first | rfl | exact hhas

theorem Whole.withUsers (h : db.Whole) (rows : List UserRow) :
    ({ db with users := some rows } : Database).Whole := by
  refine ⟨h.isOpen, fun table => ?_⟩
  have hhas := h.has table
  cases table <;> first | rfl | exact hhas

theorem Whole.withSessions (h : db.Whole) (rows : List SessionRow) :
    ({ db with sessions := some rows } : Database).Whole := by
  refine ⟨h.isOpen, fun table => ?_⟩
  have hhas := h.has table
  cases table <;> first | rfl | exact hhas

theorem whole_of_reviseFile {change : FileRow → FileRow} (hw : db.Whole)
    (h : db.reviseFile path newPath change = .ok after) : after.Whole := by
  obtain ⟨rows, -, h⟩ := bind_eq_ok.1 h
  dsimp only at h
  split at h
  case isTrue => exact absurd h throw_bind_ne_ok
  case isFalse =>
    split at h
    case isTrue => exact absurd h throw_bind_ne_ok
    case isFalse =>
      obtain rfl := Except.ok.inj h
      exact hw.withFiles _

theorem whole_of_repointRecords (hw : db.Whole) (h : db.repointRecords path newPath = .ok after) :
    after.Whole := by
  obtain ⟨rows, -, h⟩ := bind_eq_ok.1 h
  obtain rfl := Except.ok.inj h
  exact hw.withPermissions _

theorem createFile_eq_ok {file : File} (h : db.createFile now new = .ok (file, after)) :
    ∃ old rows, db.fileRows = .ok old ∧ after = db.withFiles rows := by
  obtain ⟨old, hold, h⟩ := bind_eq_ok.1 h
  dsimp only at h
  split at h
  case isTrue => exact absurd h throw_bind_ne_ok
  case isFalse =>
    obtain ⟨_, -, h⟩ := bind_eq_ok.1 h
    obtain ⟨-, rfl⟩ := Prod.mk.inj (Except.ok.inj h)
    exact ⟨old, _, hold, rfl⟩

theorem putFile_eq_ok {file : File} (h : db.putFile now new = .ok (file, after)) :
    ∃ old rows, db.fileRows = .ok old ∧ after = db.withFiles rows := by
  obtain ⟨old, hold, h⟩ := bind_eq_ok.1 h
  obtain ⟨_, -, h⟩ := bind_eq_ok.1 h
  obtain ⟨-, rfl⟩ := Prod.mk.inj (Except.ok.inj h)
  exact ⟨old, _, hold, rfl⟩

theorem Changes.whole (h : db.Changes after) (hw : db.Whole) : after.Whole := by
  cases h with
  | created h =>
    obtain ⟨_, rows, -, rfl⟩ := createFile_eq_ok h
    exact hw.withFiles rows
  | put h =>
    obtain ⟨_, rows, -, rfl⟩ := putFile_eq_ok h
    exact hw.withFiles rows
  | updated h =>
    obtain ⟨mid, hmid, h⟩ := bind_eq_ok.1 h
    have hw' := whole_of_reviseFile hw hmid
    split at h
    · obtain rfl := Except.ok.inj h
      exact hw'
    · exact whole_of_repointRecords hw' h
  | moved h =>
    obtain ⟨mid, hmid, h⟩ := bind_eq_ok.1 h
    exact whole_of_repointRecords (whole_of_reviseFile hw hmid) h
  | deleted h =>
    obtain ⟨rows, -, h⟩ := bind_eq_ok.1 h
    dsimp only at h
    split at h
    case isTrue => exact absurd h throw_bind_ne_ok
    case isFalse =>
      obtain ⟨records, -, h⟩ := bind_eq_ok.1 h
      obtain rfl := Except.ok.inj h
      exact (hw.withFiles _).withPermissions _
  | replaced h =>
    unfold replaceRecords at h
    split at h
    · cases h
    · obtain ⟨rows, -, h⟩ := bind_eq_ok.1 h
      obtain rfl := Except.ok.inj h
      exact hw.withPermissions _

end Database

end FileDrive
