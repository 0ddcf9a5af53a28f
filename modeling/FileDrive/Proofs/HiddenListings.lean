import FileDrive.Proofs.DirectoryRequests
import FileDrive.Proofs.HiddenFiles
import FileDrive.Proofs.OrderedMetadata
import FileDrive.Proofs.ShareReach

/-!
# Hidden files and listings

In every state of a drive a listing shows what is found for a path and may be read, in the order of
the paths (`Ordered.reads`). So it shows the same in two states that look the same to the caller. It
differs in one thing: a path that the caller may know about, and below which the caller may read
nothing, is denied when there are files, and answered as it is when there are none (`list_congr`).
-/

namespace FileDrive

open FileDrive.DriveM FileDrive.Time

namespace Service

variable {σ : Type} {service : Service σ} {identity : Identity} {one two drive : Drive σ}
  {path : String} {db : Database}

/-- What is listed of files, given what is held on each: those that may be read. -/
def readableOf (permitted : List (File × Permissions)) : List FileEntry :=
  permitted.filterMap fun (file, permissions) =>
    if permissions.has .read then some (FileEntry.mk file permissions) else none

/-- An entry of a listing: a file that is found and may be read, with what is held on it. -/
def Shows (service : Service σ) (identity : Identity) (db : Database) (path : String)
    (users : List UserRow) (entry : FileEntry) : Prop :=
  ∃ row, db.FoundAt path row ∧ entry.file = row.file users ∧
    service.resolver.onPath db row.path identity = .ok entry.permissions ∧
    entry.permissions.has .read = true

theorem mem_readableOf {permitted : List (File × Permissions)} {entry : FileEntry} :
    entry ∈ readableOf permitted ↔
      (entry.file, entry.permissions) ∈ permitted ∧ entry.permissions.has .read = true := by
  unfold readableOf
  simp only [List.mem_filterMap, Option.ite_none_right_eq_some, Option.some.injEq]
  constructor
  · rintro ⟨item, hitem, hread, rfl⟩
    exact ⟨hitem, hread⟩
  · rintro ⟨hitem, hread⟩
    exact ⟨_, hitem, hread, rfl⟩

theorem pairwise_readableOf {permitted : List (File × Permissions)}
    (h : permitted.Pairwise fun a b => a.1.path < b.1.path) :
    (readableOf permitted).Pairwise fun a b => a.file.path < b.file.path := by
  unfold readableOf
  rw [List.pairwise_filterMap]
  refine h.imp fun {a b} hab entry hentry other hother => ?_
  rw [Option.ite_none_right_eq_some, Option.some.injEq] at hentry hother
  rw [← hentry.2, ← hother.2]
  exact hab

/-- What is read for a listing of a path: the files that are found, what is held on each of them,
and what is held on the path. -/
structure Reads (service : Service σ) (identity : Identity) (users : List UserRow) (db : Database)
    (path : String) (files : List File) (permitted : List (File × Permissions))
    (held : Permissions) : Prop where
  filesAt : db.filesAt path = .ok files
  onFiles : service.resolver.onFiles db files identity = .ok permitted
  onPath : service.resolver.onPath db path identity = .ok held
  free : files = [] ↔ ∀ row, ¬ db.FoundAt path row
  sorted : (readableOf permitted).Pairwise fun a b => a.file.path < b.file.path
  mem : ∀ entry, entry ∈ readableOf permitted ↔ Shows service identity db path users entry

theorem Ordered.reads (h : Ordered db) (service : Service σ) (identity : Identity)
    {users : List UserRow} (husers : db.userRows = .ok users) (path : String) :
    ∃ files permitted held, Reads service identity users db path files permitted held := by
  obtain ⟨files, hfiles⟩ := h.exists_filesAt path
  obtain ⟨rows, -, hrows, -⟩ := h.tables
  obtain ⟨records, hrecords⟩ := h.records
  obtain ⟨held, hheld⟩ := h.onPath service.resolver identity path
  have hmem := h.mem_filesAt hfiles husers
  have hpermitted : service.resolver.onFiles db files identity = _ :=
    Resolver.onFiles_eq_resolve hrecords files
  obtain ⟨hmap, honFiles⟩ := Resolver.onPath_of_onFiles hrows hpermitted fun file hfile => by
    obtain ⟨row, ⟨hrow, -⟩, rfl⟩ := (hmem file).1 hfile
    rw [FileRow.path_file, hrow]
    rfl
  refine ⟨files, _, held, hfiles, hpermitted, hheld, ?_, ?_, fun entry => ?_⟩
  · rw [List.eq_nil_iff_forall_not_mem]
    constructor
    · intro hnone row hrow
      exact hnone _ ((hmem _).2 ⟨row, hrow, rfl⟩)
    · intro hnone file hfile
      obtain ⟨row, hrow, -⟩ := (hmem file).1 hfile
      exact hnone row hrow
  · apply pairwise_readableOf
    rw [List.pairwise_map]
    exact List.pairwise_map.1 (h.keyed.filesAt_ordered hfiles)
  · rw [mem_readableOf]
    constructor
    · rintro ⟨hitem, hread⟩
      have hfile : entry.file ∈ files := by
        rw [← hmap]
        exact List.mem_map_of_mem (f := Prod.fst) hitem
      obtain ⟨row, hrow, hat⟩ := (hmem _).1 hfile
      have honPath := honFiles _ hitem
      rw [hat, FileRow.path_file] at honPath
      exact ⟨row, hrow, hat, honPath, hread⟩
    · rintro ⟨row, hrow, hat, honPath, hread⟩
      have hfile : entry.file ∈ files := (hmem _).2 ⟨row, hrow, hat⟩
      rw [← hmap] at hfile
      obtain ⟨⟨file, shown⟩, hitem, rfl : file = entry.file⟩ := List.mem_map.1 hfile
      have hsame := honFiles _ hitem
      rw [hat, FileRow.path_file, honPath] at hsame
      obtain rfl : shown = entry.permissions := (Except.ok.inj hsame).symm
      exact ⟨hitem, hread⟩

/-- What a listing says of a path that is not the root and has no files. -/
def unstored (held : Permissions) (path : String) : Except DriveError Listing :=
  if held.has .read then .error (.fileNotFound path) else .error (.unauthorized path .read)

@[simp] theorem summarize_nil (dir : String) : DirEntry.summarize dir [] = [] := by
  simp [DirEntry.summarize, DirEntry.names]

variable {users : List UserRow} {files : List File} {permitted : List (File × Permissions)}
  {held : Permissions}

theorem Reads.list_on
    (h : Reads service identity users drive.db (Path.normalize path) files permitted held) :
    ((service.list identity path).on drive).1 =
      if files = [] ∧ Path.normalize path ≠ Path.root then unstored held (Path.normalize path)
      else if files ≠ [] ∧ readableOf permitted = [] then
        .error (.unauthorized (Path.normalize path) .read)
      else .ok ⟨Path.normalize path,
        DirEntry.summarize (Path.normalize path) ((readableOf permitted).map (·.file)),
        readableOf permitted⟩ := by
  unfold list
  rw [on_bind, on_query, h.filesAt]
  dsimp only
  by_cases hmissing : files = [] ∧ Path.normalize path ≠ Path.root
  · rw [if_pos hmissing, if_pos (by simpa using hmissing)]
    unfold authorize Service.held unstored
    rw [on_bind, on_bind, on_query, h.onPath]
    dsimp only
    rw [on_lift, require]
    by_cases hread : held.has .read = true
    · rw [if_pos hread, if_pos hread]
      rfl
    · rw [if_neg hread, if_neg hread]
  · rw [if_neg hmissing, if_neg (by simpa using hmissing), on_bind, on_query, h.onFiles]
    dsimp only
    by_cases hdenied : files ≠ [] ∧ readableOf permitted = []
    · rw [if_pos hdenied, if_pos]
      · rfl
      · simpa [readableOf] using hdenied
    · rw [if_neg hdenied, if_neg]
      · rfl
      · simpa [readableOf] using hdenied

/-- Nothing that is found may be read when nothing is shown. -/
theorem Reads.unreadable (h : Reads service identity users db path files permitted held)
    (hnone : readableOf permitted = []) {row : FileRow} (hrow : db.FoundAt path row) :
    ¬ service.resolver.Permits db identity .read row.path := by
  rintro ⟨shown, hshown, hread⟩
  have hmem := (h.mem ⟨row.file users, shown⟩).2 ⟨row, hrow, rfl, hshown, hread⟩
  rw [hnone] at hmem
  exact List.not_mem_nil hmem

/-- A path is denied to those who may read nothing that is found for it. -/
theorem Ordered.list_of_hidden (h : Ordered drive.db)
    (hidden : ∃ row, drive.db.FoundAt (Path.normalize path) row)
    (unreadable : ∀ row, drive.db.FoundAt (Path.normalize path) row →
      ¬ service.resolver.Permits drive.db identity .read row.path) :
    ((service.list identity path).on drive).1 =
      .error (.unauthorized (Path.normalize path) .read) := by
  obtain ⟨-, users, -, husers⟩ := h.tables
  obtain ⟨files, permitted, held, hreads⟩ :=
    h.reads service identity husers (Path.normalize path)
  have hsome : files ≠ [] := by
    intro hnone
    obtain ⟨row, hrow⟩ := hidden
    exact hreads.free.1 hnone row hrow
  have hnone : readableOf permitted = [] := by
    apply List.eq_nil_iff_forall_not_mem.2
    intro entry hentry
    obtain ⟨row, hrow, -, hheld, hread⟩ := (hreads.mem entry).1 hentry
    exact unreadable row hrow ⟨_, hheld, hread⟩
  rw [hreads.list_on, if_neg (fun h => hsome h.1), if_pos ⟨hsome, hnone⟩]

/-- One drive hides from the caller the files at and below a path, all of them, and the other one
has none there. The first one denies the path, and the second one answers as to all who may know
about the path: to everybody for the root, which is always there, and to those who may read it for
any other. -/
structure Bares (service : Service σ) (identity : Identity) (path : String)
    (filled bare : Drive σ) : Prop where
  told : Path.normalize path = Path.root ∨
    service.resolver.Permits bare.db identity .read (Path.normalize path)
  hidden : ∃ row, filled.db.FoundAt (Path.normalize path) row
  unreadable : ∀ row, filled.db.FoundAt (Path.normalize path) row →
    ¬ service.resolver.Permits filled.db identity .read row.path
  free : ∀ row, ¬ bare.db.FoundAt (Path.normalize path) row
  denied : ((service.list identity path).on filled).1 =
    .error (.unauthorized (Path.normalize path) .read)
  answered : ((service.list identity path).on bare).1 =
    if Path.normalize path = Path.root then .ok ⟨Path.root, [], []⟩
    else .error (.fileNotFound (Path.normalize path))

/-- The same files show in both. -/
theorem shows_congr {two : Database} {users' : List UserRow} {entry : FileEntry}
    (hsame : db.SameToReader service.resolver identity two) (hfiles : db.FilesAlike two)
    (husers : ∀ row : FileRow, row.file users = row.file users')
    (h : Shows service identity db path users entry) :
    Shows service identity two path users' entry := by
  obtain ⟨row, ⟨hrow, hfound⟩, hfile, honPath, hread⟩ := h
  have hpermits : service.resolver.Permits db identity .read row.path := ⟨_, honPath, hread⟩
  refine ⟨row, ⟨?_, hfound⟩, ?_, ?_, hread⟩
  · rw [← hsame.rowAt hfiles hpermits, hrow]
  · rw [hfile, husers]
  · rw [← hsame.onPath hfiles, honPath]

/-- Lists in the order of the paths that have the same entries are the same. -/
theorem eq_of_ordered {shown shown' : List FileEntry}
    (h : shown.Pairwise fun a b => a.file.path < b.file.path)
    (h' : shown'.Pairwise fun a b => a.file.path < b.file.path)
    (hmem : ∀ entry, entry ∈ shown ↔ entry ∈ shown') : shown = shown' := by
  have hnodup : ∀ l : List FileEntry, (l.Pairwise fun a b => a.file.path < b.file.path) →
      l.Nodup := by
    intro l hl
    refine hl.imp fun {a b} hab e => ?_
    rw [e] at hab
    exact lt_irrefl _ hab
  have hperm := (List.perm_ext_iff_of_nodup (hnodup _ h) (hnodup _ h')).2 hmem
  exact hperm.eq_of_pairwise (fun a b _ _ hab hba => absurd hab (lt_asymm hba)) h h'

/-- Where one drive hides all that is found and the other one has nothing, the answers are the same
unless the caller may know about the path. -/
theorem Reads.bares {users' : List UserRow} {permitted' : List (File × Permissions)}
    (h : Reads service identity users one.db (Path.normalize path) files permitted held)
    (h' : Reads service identity users' two.db (Path.normalize path) [] permitted' held)
    (hsome : files ≠ []) (hnone : readableOf permitted = []) (hnone' : readableOf permitted' = []) :
    ((service.list identity path).on one).1 = ((service.list identity path).on two).1 ∨
      Bares service identity path one two := by
  have hone := h.list_on
  have htwo := h'.list_on
  rw [if_neg (fun h => hsome h.1), if_pos ⟨hsome, hnone⟩] at hone
  have hidden : ∃ row, one.db.FoundAt (Path.normalize path) row := by
    by_contra hno
    exact hsome (h.free.2 fun row hrow => hno ⟨row, hrow⟩)
  have free := h'.free.1 rfl
  by_cases hroot : Path.normalize path = Path.root
  · right
    refine ⟨Or.inl hroot, hidden, fun row hrow => h.unreadable hnone hrow, free, hone, ?_⟩
    rw [htwo, if_neg (fun h => h.2 hroot), if_neg (fun h => h.1 rfl), if_pos hroot, hnone', hroot,
      List.map_nil, summarize_nil]
  · rw [if_pos ⟨rfl, hroot⟩, unstored] at htwo
    by_cases hread : held.has .read = true
    · right
      refine ⟨Or.inr ⟨held, h'.onPath, hread⟩, hidden, fun row hrow => h.unreadable hnone hrow,
        free, hone, ?_⟩
      rw [htwo, if_pos hread, if_neg hroot]
    · left
      rw [hone, htwo, if_neg hread]

theorem Ordered.filesAlike {other : Database} (h : Ordered db) (k : Ordered other) :
    db.FilesAlike other := by
  obtain ⟨rows, -, hrows, -⟩ := h.tables
  obtain ⟨rows', -, hrows', -⟩ := k.tables
  intro e
  rw [hrows, hrows']
  exact ⟨nofun, nofun⟩

/-- A listing tells of files that the caller may not read only whether there are any, and only of a
path below which the caller may read nothing but which the caller may know about: in any two states
of a drive that look the same to the caller it is the same, unless in one of them all that is found
for the path is hidden, and in the other one nothing is found there (`Bares`). This is for databases
that take as many paths in one query as there are on the ways to the files that are found. -/
theorem list_congr {stores stores' : ObjectStore σ → Prop} {objects objects' : σ}
    {clock clock' : Timestamp} {history history' : List Event}
    (hone : service.Evolves stores (Drive.fresh objects clock) history one)
    (htwo : service.Evolves stores' (Drive.fresh objects' clock') history' two)
    (hsame : one.db.SameToReader service.resolver identity two.db) (path : String) :
    ((service.list identity path).on one).1 = ((service.list identity path).on two).1 ∨
      Bares service identity path one two ∨ Bares service identity path two one := by
  have halike := hone.ordered.filesAlike htwo.ordered
  obtain ⟨e, hclosed, -⟩ | ⟨users, users', husers, husers', hnames⟩ :=
    Database.userRows_congr hsame.users
  · obtain ⟨_, _, -, husers⟩ := hone.ordered.tables
    rw [hclosed] at husers
    cases husers
  obtain ⟨files, permitted, held, h⟩ :=
    hone.ordered.reads service identity husers (Path.normalize path)
  obtain ⟨files', permitted', held', h'⟩ :=
    htwo.ordered.reads service identity husers' (Path.normalize path)
  obtain rfl : held = held' := by
    have hheld := hsame.onPath halike (Path.normalize path)
    rw [h.onPath, h'.onPath] at hheld
    exact Except.ok.inj hheld
  have hshown : readableOf permitted = readableOf permitted' := by
    apply eq_of_ordered h.sorted h'.sorted
    intro entry
    rw [h.mem, h'.mem]
    constructor
    · exact shows_congr hsame halike hnames
    · exact shows_congr hsame.symm halike.symm fun row => (hnames row).symm
  have hempty : ∀ {permitted : List (File × Permissions)} {files db users},
      Reads service identity users db (Path.normalize path) files permitted held → files = [] →
        readableOf permitted = [] := by
    rintro permitted files db users hr rfl
    apply List.eq_nil_iff_forall_not_mem.2
    intro entry hentry
    obtain ⟨row, hrow, -⟩ := (hr.mem entry).1 hentry
    exact hr.free.1 rfl row hrow
  by_cases hone : files = [] <;> by_cases htwo : files' = []
  · left
    rw [h.list_on, h'.list_on, hshown, hone, htwo]
  · subst hone
    have hnone := hempty h rfl
    have hbares := h'.bares h htwo (hshown ▸ hnone) hnone
    rcases hbares with heq | hbares
    · exact Or.inl heq.symm
    · exact Or.inr (Or.inr hbares)
  · subst htwo
    have hnone := hempty h' rfl
    rcases h.bares h' hone (hshown ▸ hnone) hnone with heq | hbares
    · exact Or.inl heq
    · exact Or.inr (Or.inl hbares)
  · left
    rw [h.list_on, h'.list_on, hshown]
    simp only [hone, htwo, false_and, if_false, ne_eq, not_false_eq_true, true_and]

/-- A new file looks the same to those who may not read it. -/
theorem sameToReader_of_created {creator : Identity} {request : CreateRequest} {file : File}
    {after : Drive σ} (h : (service.create creator request).on drive = (.ok file, after))
    (hfree : drive.db.rowAt (Path.normalize request.path) = none)
    (hhidden : ¬ service.resolver.Permits after.db identity .read (Path.normalize request.path)) :
    drive.db.SameToReader service.resolver identity after.db := by
  have hends := create_ends service creator request drive
  unfold Ends at hends
  rw [h] at hends
  generalize hresult : (Except.ok file : Except DriveError File) = result at hends
  cases hends with
  | refused => cases hresult
  | unstored => cases hresult
  | stored _ _ _ _ _ prepared _ =>
    obtain ⟨row, hbecomes, -⟩ := becomes_of_prepared prepared
    obtain ⟨old, rows, hold, rfl⟩ : ∃ old rows, drive.db.fileRows = .ok old ∧
        _ = drive.db.withFiles rows := by
      split at prepared
      · exact Database.putFile_eq_ok prepared
      · exact Database.createFile_eq_ok prepared
    have hrows : (drive.db.withFiles rows).fileRows = .ok rows :=
      Database.fileRows_eq_ok.2 ⟨(Database.fileRows_eq_ok.1 hold).1, rfl⟩
    refine Database.sameToReader_of_hidden (fun e => ?_) (fun _ => rfl) (fun _ => rfl) hfree
      hbecomes.rowAt hhidden
    show drive.db.fileRows = .error e ↔ (drive.db.withFiles rows).fileRows = .error e
    rw [hold, hrows]
    exact ⟨nofun, nofun⟩

/-- Somebody creates a file in a directory that Ann may not read. -/
theorem list_congr_beside_hidden_file :
    let ann : Identity := ⟨"ann", "ann", [], "", "", false⟩
    let admin : Identity := ⟨"root", "root", ["admins"], "", "", false⟩
    let service : Service Tree := ⟨Directory.store, .enforcing "admins", 0, toString, fun _ => none⟩
    let creation : CreateRequest := ⟨"/d/b", "", false, ⟨0, "text/plain", .empty⟩⟩
    let one : Drive Tree := Drive.fresh Tree.empty .epoch
    let two := ((service.serve admin (.create creation)).on one).2
    service.Evolves (· = service.store) (Drive.fresh Tree.empty .epoch) [] one ∧
      (∃ history,
        service.Evolves (· = service.store) (Drive.fresh Tree.empty .epoch) history two) ∧
      one.db.SameToReader service.resolver ann two.db ∧
      ((service.list ann "/d").on one).1 = ((service.list ann "/d").on two).1 := by
  intro ann admin service creation one two
  have hone : service.Evolves (· = service.store) (Drive.fresh Tree.empty .epoch) [] one := .start
  have htwo := hone.next rfl admin (.create creation)
  obtain ⟨file, hfile, -⟩ := of_toOption_map
    (x := ((service.create admin creation).on one).1) (f := File.path) (b := "/d/b")
    (by decide +kernel)
  have hafter : two = ((service.create admin creation).on one).2 := congrArg Prod.snd (on_map _ _ _)
  have hsame : one.db.SameToReader service.resolver ann two.db := by
    refine sameToReader_of_created (Prod.ext hfile hafter.symm) (by decide +kernel) ?_
    exact Resolver.not_permits_of_held (by decide +kernel)
  have hdenied : ¬ service.resolver.Permits one.db ann .read "/d" :=
    Resolver.not_permits_of_held (by decide +kernel)
  have hdenied' : ¬ service.resolver.Permits two.db ann .read "/d" :=
    Resolver.not_permits_of_held (by decide +kernel)
  have hpath : Path.normalize "/d" = "/d" := by decide +kernel
  refine ⟨hone, ⟨_, htwo⟩, hsame, ?_⟩
  rcases list_congr hone htwo hsame "/d" with heq | hbares | hbares
  · exact heq
  · have htold := hbares.told
    rw [hpath] at htold
    exact absurd (htold.resolve_left (by decide)) hdenied'
  · have htold := hbares.told
    rw [hpath] at htold
    exact absurd (htold.resolve_left (by decide)) hdenied

/-- Ann may read a directory, but not the one file that somebody creates there: the listings of the
directory and of the root tell her that there is one now. -/
theorem list_tells_hidden_from_none :
    let ann : Identity := ⟨"ann", "ann", [], "", "", false⟩
    let admin : Identity := ⟨"root", "root", ["admins"], "", "", false⟩
    let service : Service Tree := ⟨Directory.store, .enforcing "admins", 0, toString, fun _ => none⟩
    let opened : Request := .setRecords "/d" [.everyone "/d" (.single .read) .none]
    let closed : Request := .setRecords "/d/b" [.everyone "/d/b" .none (.single .read)]
    let creation : CreateRequest := ⟨"/d/b", "", false, ⟨0, "text/plain", .empty⟩⟩
    let mid := ((service.serve admin opened).on (Drive.fresh Tree.empty .epoch)).2
    let one := ((service.serve admin closed).on mid).2
    let two := ((service.serve admin (.create creation)).on one).2
    (∃ history,
        service.Evolves (· = service.store) (Drive.fresh Tree.empty .epoch) history one) ∧
      (∃ history,
        service.Evolves (· = service.store) (Drive.fresh Tree.empty .epoch) history two) ∧
      one.db.SameToReader service.resolver ann two.db ∧
      ((service.list ann "/d").on one).1 ≠ ((service.list ann "/d").on two).1 ∧
      ((service.list ann "/").on one).1 ≠ ((service.list ann "/").on two).1 := by
  intro ann admin service opened closed creation mid one two
  have hstart : service.Evolves (· = service.store) _ [] (Drive.fresh Tree.empty .epoch) := .start
  have hone : service.Evolves _ _ _ one := (hstart.next rfl admin opened).next rfl admin closed
  have htwo : service.Evolves _ _ _ two := hone.next rfl admin (.create creation)
  obtain ⟨file, hfile, -⟩ := of_toOption_map
    (x := ((service.create admin creation).on one).1) (f := File.path) (b := "/d/b")
    (by decide +kernel)
  have hafter : two = ((service.create admin creation).on one).2 := congrArg Prod.snd (on_map _ _ _)
  have hhidden : ¬ service.resolver.Permits two.db ann .read "/d/b" := by
    have hrow : PermissionRow.ofRecord (.everyone "/d/b" .none (.single .read)) ∈
        two.db.permissions.getD [] := by decide +kernel
    exact Resolver.not_permits_of_denied (by decide) (by decide +kernel) hrow (by decide +kernel)
      (r := .everyone "/d/b" .none (.single .read)) rfl rfl (by decide)
  have hsame : one.db.SameToReader service.resolver ann two.db :=
    sameToReader_of_created (Prod.ext hfile hafter.symm) (by decide +kernel)
      (show Path.normalize creation.path = "/d/b" by decide +kernel ▸ hhidden)
  -- The file is the only one, so nothing that is found may be read.
  have hdenied : ∀ path ∈ ["/d", "/"], ((service.list ann path).on two).1 =
      .error (.unauthorized (Path.normalize path) .read) := by
    intro path hpath
    have hrows : two.db.files.map (·.map (·.path)) = some ["/d/b"] := by decide +kernel
    obtain ⟨rows, hfiles, hpaths⟩ := Option.map_eq_some_iff.1 hrows
    obtain ⟨row, hrow⟩ : ∃ row, two.db.rowAt "/d/b" = some row :=
      Option.isSome_iff_exists.1 (by decide +kernel)
    have hat : row.path = "/d/b" := Database.path_of_rowAt hrow
    apply htwo.ordered.list_of_hidden
    · refine ⟨row, by rw [hat]; exact hrow, Or.inr ?_⟩
      rw [hat]
      revert hpath path
      decide +kernel
    · intro row hfound
      have hmem := List.mem_map_of_mem (f := FileRow.path) (Database.mem_of_rowAt hfound.1)
      rw [show two.db.files.getD [] = rows by rw [hfiles]; rfl, hpaths,
        List.mem_singleton] at hmem
      rw [hmem]
      exact hhidden
  have hanswered : ∀ path ∈ ["/d", "/"], ((service.list ann path).on one).1.map (·.path) ≠
      .error (.unauthorized (Path.normalize path) .read) := by decide +kernel
  have htold : ∀ path ∈ ["/d", "/"],
      ((service.list ann path).on one).1 ≠ ((service.list ann path).on two).1 := by
    intro path hpath heq
    apply hanswered path hpath
    rw [heq, hdenied path hpath]
    rfl
  exact ⟨⟨_, hone⟩, ⟨_, htwo⟩, hsame, htold "/d" (by decide), htold "/" (by decide)⟩

end Service

end FileDrive
