import FileDrive.Proofs.HiddenFiles
import FileDrive.Proofs.OrderedMetadata
import FileDrive.Storage.Bucket

/-!
# What a share opens and how long

Opening a share and downloading through it look the files up in two ways: one finds everything below
the share's path by the text that paths below it start with, the other looks at the one path that is
asked for. In every state of a drive they agree (`opens_iff_listed`), because there is nothing below
a file. Only a path with a NUL in it, below which nothing is found, has files that can be downloaded
and are not listed (`download_past_nul`).

A share stays what it is, through requests and logins, until somebody who may takes it back
(`Evolves.share_stays`).
-/

namespace FileDrive

open FileDrive.DriveM FileDrive.Time

namespace Database

variable {db after : Database} {id : String} {share : Share}

theorem share_eq_ok :
    db.share id = .ok share ↔ db.isOpen = true ∧ ∃ rows, db.shares = some rows ∧
      ∃ row, rows.find? (·.id = id) = some row ∧ row.share = share := by
  unfold Database.share
  rw [bind_eq_ok]
  constructor
  · rintro ⟨rows, hrows, h⟩
    obtain ⟨hopen, hrows⟩ := rowsOf_eq_ok.1 hrows
    rcases hrow : rows.find? (·.id = id) with _ | row
    · rw [hrow] at h
      cases h
    · rw [hrow] at h
      exact ⟨hopen, rows, hrows, row, hrow, Except.ok.inj h⟩
  · rintro ⟨hopen, rows, hrows, row, hrow, rfl⟩
    refine ⟨rows, rowsOf_eq_ok.2 ⟨hopen, hrows⟩, ?_⟩
    rw [hrow]
    rfl

/-- Shares do not change with files and records. -/
theorem Changes.share_stays (h : db.Changes after) (hshare : db.share id = .ok share) :
    after.share id = .ok share := by
  obtain ⟨files, touched, hbecomes⟩ := h.becomes
  have hopen : after.rest.isOpen = db.rest.isOpen := by rw [hbecomes.rest]
  have hshares : after.rest.shares = db.rest.shares := by rw [hbecomes.rest]
  rw [share_eq_ok] at hshare ⊢
  change after.isOpen = db.isOpen at hopen
  change after.shares = db.shares at hshares
  rwa [hopen, hshares]

theorem share_of_append {row : ShareRow} (hshare : db.share id = .ok share) :
    ({ db with shares := some (db.shareTable ++ [row]) } : Database).share id = .ok share := by
  rw [share_eq_ok] at hshare ⊢
  obtain ⟨hopen, rows, hrows, found, hfound, hat⟩ := hshare
  refine ⟨hopen, _, rfl, found, ?_, hat⟩
  rw [shareTable, hrows, Option.getD_some, List.find?_append, hfound, Option.some_or]

theorem share_of_filter {other : String} (hne : id ≠ other) (hshare : db.share id = .ok share) :
    ({ db with shares := some (db.shareTable.filter (·.id ≠ other)) } : Database).share id =
      .ok share := by
  rw [share_eq_ok] at hshare ⊢
  obtain ⟨hopen, rows, hrows, found, hfound, hat⟩ := hshare
  refine ⟨hopen, _, rfl, found, ?_, hat⟩
  rw [shareTable, hrows, Option.getD_some, List.find?_filter, ← hfound]
  apply List.find?_congr
  intro row _
  by_cases hrow : row.id = id
  · simp [hrow, hne]
  · simp [hrow]

end Database

namespace Service

variable {σ : Type} {service : Service σ} {drive : Drive σ} {id path : String} {share : Share}
  {file : File}

/-! ## What is opened -/

/-- Whoever has the id of a share gets to opening a file by a path through it: whatever the store
answers then, it is what opening the file comes to. -/
def Opens (service : Service σ) (drive : Drive σ) (id path : String) (file : File) : Prop :=
  ∀ store rangeHeader, ((service.withStore store).downloadShared id path rangeHeader).on drive =
    ((service.withStore store).openFile file rangeHeader).on drive

/-- A download through a share step by step: the share, the path, the file, the object. -/
theorem downloadShared_on (service : Service σ) (path : String) (rangeHeader : Option String)
    (hshare : drive.db.share id = .ok share) :
    (service.downloadShared id path rangeHeader).on drive =
      if share.permissions.has .read = true then
        if Path.normalize path = share.path ∨
            Path.isBelow (Path.normalize path) share.path = true then
          match drive.db.file (Path.normalize path) with
          | .error e => (.error e, drive)
          | .ok file => (service.openFile file rangeHeader).on drive
        else (.error (.fileNotFound (Path.normalize path)), drive)
      else (.error (.unauthorized (Path.normalize path) .read), drive) := by
  unfold downloadShared
  rw [on_bind, on_query, hshare]
  dsimp only
  rw [on_bind, on_lift, require]
  by_cases hread : share.permissions.has .read = true
  · rw [if_pos hread, if_pos hread]
    dsimp only
    by_cases hcovered : Path.normalize path = share.path ∨
        Path.isBelow (Path.normalize path) share.path = true
    · rw [if_pos hcovered, if_neg (by simpa [or_iff_not_imp_left] using hcovered), on_bind,
        on_query]
      cases drive.db.file (Path.normalize path) <;> rfl
    · rw [if_neg hcovered, if_pos (by simpa [or_iff_not_imp_left] using hcovered)]
      rfl
  · rw [if_neg hread, if_neg hread]

/-- A store that opens whatever it is asked for. -/
def obliging (σ : Type) : ObjectStore σ where
  get _ _ objects := (.ok .empty, objects)
  put _ _ _ _ objects := (.ok (), objects)
  move _ _ objects := (.ok (), objects)
  delete _ objects := (.ok (), objects)

/-- A file that opens at all is told by what is opened. -/
theorem openFile_obliging (service : Service σ) (file : File) (drive : Drive σ) :
    (((service.withStore (obliging σ)).openFile file none).on drive).1 =
      .ok ⟨file, none, .empty⟩ := rfl

/-- What is opened through a share is the file at the path that is asked for, in the scope of the
share. -/
theorem opens_iff (hshare : drive.db.share id = .ok share) :
    Opens service drive id path file ↔ share.permissions.has .read = true ∧
      (Path.normalize path = share.path ∨ Path.isBelow (Path.normalize path) share.path = true) ∧
      drive.db.file (Path.normalize path) = .ok file := by
  constructor
  · intro h
    have hopened := congrArg Prod.fst (h (obliging σ) none)
    rw [openFile_obliging, downloadShared_on _ path none hshare] at hopened
    by_cases hread : share.permissions.has .read = true
    · rw [if_pos hread] at hopened
      by_cases hcovered : Path.normalize path = share.path ∨
          Path.isBelow (Path.normalize path) share.path = true
      · rw [if_pos hcovered] at hopened
        rcases hfile : drive.db.file (Path.normalize path) with e | found
        · rw [hfile] at hopened
          cases hopened
        · rw [hfile] at hopened
          dsimp only at hopened
          rw [openFile_obliging] at hopened
          obtain rfl : found = file := congrArg Download.file (Except.ok.inj hopened)
          exact ⟨hread, hcovered, rfl⟩
      · rw [if_neg hcovered] at hopened
        cases hopened
    · rw [if_neg hread] at hopened
      cases hopened
  · rintro ⟨hread, hcovered, hfile⟩ store rangeHeader
    rw [downloadShared_on _ path rangeHeader hshare, if_pos hread, if_pos hcovered, hfile]

theorem Ordered.file_eq_ok {db : Database} {users : List UserRow} (h : Ordered db)
    (husers : db.userRows = .ok users) :
    db.file path = .ok file ↔ ∃ row, db.rowAt path = some row ∧ file = row.file users := by
  obtain ⟨hopen, husers⟩ := Database.rowsOf_eq_ok.1 husers
  obtain ⟨rows, -, hrows, -⟩ := h.tables
  constructor
  · intro hfile
    obtain ⟨users', row, husers', hrow, hat⟩ := Database.file_eq_ok hfile
    obtain rfl : users = users' := Option.some.inj (husers.symm.trans husers')
    exact ⟨row, hrow, hat⟩
  · rintro ⟨row, hrow, rfl⟩
    exact Database.file_of_rowAt hopen (Database.fileRows_eq_ok.1 hrows).2 husers hrow

/-- The file at a path is there or missing, and nothing else goes wrong. -/
theorem Ordered.file_cases {db : Database} (h : Ordered db) (path : String) :
    (∃ file, db.file path = .ok file) ∨ db.file path = .error (.fileNotFound path) := by
  obtain ⟨rows, users, hrows, husers⟩ := h.tables
  rw [Database.file_eq, hrows, husers]
  cases db.rowAt path with
  | none => exact Or.inr rfl
  | some row => exact Or.inl ⟨_, rfl⟩

/-- What is found for a path lies at the path or below it. -/
theorem Ordered.in_scope {db : Database} {row : FileRow} (h : Ordered db)
    (hfound : db.FoundAt path row) : row.path = path ∨ Path.isBelow row.path path = true := by
  obtain ⟨hrow, hat | hstored⟩ := hfound
  · exact Or.inl hat
  · have hroot := (h.shaped.admissible row.path row hrow).notRoot
    exact Or.inr (isBelow_of_stored hstored (ne_of_stored hstored hroot))

/-- A share that gives reading lists files that can be opened through it, all of those that can be
when its path has no NUL. -/
theorem opens_iff_listed (service : Service σ) (h : Ordered drive.db)
    (hshare : drive.db.share id = .ok share) (hread : share.permissions.has .read = true) :
    ∃ files, (openShare id).on drive = (.ok ⟨share, files⟩, drive) ∧
      (∀ file ∈ files, Opens service drive id file.path file) ∧
      ('\x00' ∉ share.path.toList → ∀ path file,
        Opens service drive id path file ↔ file ∈ files ∧ file.path = Path.normalize path) := by
  obtain ⟨-, users, -, husers⟩ := h.tables
  obtain ⟨files, hfiles⟩ := h.exists_filesAt share.path
  have hmem := h.mem_filesAt hfiles husers
  have hlisted : ∀ file ∈ files, Opens service drive id file.path file := by
    intro file hfile
    obtain ⟨row, hfound, rfl⟩ := (hmem file).1 hfile
    have hrow := (h.shaped.admissible row.path row hfound.1).canonical
    have hsame : Path.normalize row.path = row.path := Path.canonical_iff.1 hrow
    rw [opens_iff hshare, FileRow.path_file, hsame]
    exact ⟨hread, h.in_scope hfound, (h.file_eq_ok husers).2 ⟨row, hfound.1, rfl⟩⟩
  refine ⟨files, ?_, hlisted, fun hnul path file => ?_⟩
  · unfold openShare
    rw [on_bind, on_query, hshare]
    dsimp only
    rw [if_pos hread, on_bind, on_query, hfiles]
    rfl
  · constructor
    · intro hopens
      obtain ⟨-, hcovered, hfile⟩ := (opens_iff hshare).1 hopens
      obtain ⟨row, hrow, rfl⟩ := (h.file_eq_ok husers).1 hfile
      have hat : row.path = Path.normalize path := Database.path_of_rowAt hrow
      refine ⟨(hmem _).2 ⟨row, ⟨by rw [hat, hrow], ?_⟩, rfl⟩, hat⟩
      rw [hat]
      exact hcovered.imp_right fun hbelow => Database.isStoredBelow_of_isBelow hbelow hnul
    · rintro ⟨hfile, hat⟩
      have hopens := hlisted file hfile
      rw [opens_iff hshare] at hopens ⊢
      rwa [hat, Path.normalize_normalize] at hopens

/-! ## How long a share stays -/

/-- A request leaves a share as it is, unless it takes the share back. -/
theorem Served.share_stays {identity : Identity} {request : Request}
    {reply : Except DriveError Reply} {after : Drive σ}
    (h : Served service identity drive request reply after)
    (hshare : drive.db.share id = .ok share) :
    after.db.share id = .ok share ∨ (request = .deleteShare id ∧ reply = .ok .done) := by
  have changes : ∀ {db mid : Database}, db.Changes mid → db.share id = .ok share →
      mid.share id = .ok share := fun hc => hc.share_stays
  cases h with
  | looked _ looked => cases looked <;> exact Or.inl hshare
  | created created =>
    exact Or.inl (created.preserves (I := fun db => db.share id = .ok share) changes hshare)
  | updated updated =>
    exact Or.inl (updated.preserves (I := fun db => db.share id = .ok share) changes hshare)
  | moved moved =>
    exact Or.inl (moved.preserves (I := fun db => db.share id = .ok share) changes hshare)
  | deleted deleted =>
    exact Or.inl (deleted.preserves (I := fun db => db.share id = .ok share) changes hshare)
  | recordsSet set =>
    cases set with
    | refused => exact Or.inl hshare
    | replaced _ prepared => exact Or.inl (changes (.replaced prepared) hshare)
  | shareIssued issued =>
    cases issued with
    | refused => exact Or.inl hshare
    | issued _ _ prepared =>
      obtain rfl := Database.createShare_eq_ok prepared
      exact Or.inl (Database.share_of_append hshare)
  | @shareTaken other _ _ taken =>
    cases taken with
    | refused => exact Or.inl hshare
    | taken prepared =>
      obtain rfl := Database.deleteShare_eq_ok prepared
      by_cases hsame : id = other
      · exact Or.inr ⟨by rw [hsame], rfl⟩
      · exact Or.inl (Database.share_of_filter hsame hshare)

/-- A share is taken back by its issuer or by those who hold everything. -/
theorem may_deleteShare {identity : Identity} (service : Service σ)
    (hshare : drive.db.share id = .ok share)
    (hok : ((service.deleteShare identity id).on drive).1 = .ok ()) :
    identity.subject = share.userId ∨ service.resolver.isAdmin identity = true := by
  unfold deleteShare at hok
  rw [on_bind, on_query, hshare] at hok
  dsimp only at hok
  by_cases hmay : share.userId ≠ identity.subject ∧ (!service.resolver.isAdmin identity) = true
  · rw [if_pos hmay] at hok
    cases hok
  · by_contra hnot
    rw [not_or] at hnot
    exact hmay ⟨Ne.symm hnot.1, by simpa using hnot.2⟩

/-- In a history the share with an id is taken back, by its issuer or by somebody who holds
everything. -/
def TakenBack (service : Service σ) (id : String) (share : Share) (history : List Event) : Prop :=
  ∃ event ∈ history, event.request = .deleteShare id ∧ event.reply = .ok .done ∧
    (event.identity.subject = share.userId ∨ service.resolver.isAdmin event.identity = true)

/-- A share stays as it is however the drive goes on, until it is taken back. -/
theorem Evolves.share_stays {stores : ObjectStore σ → Prop} {later : Drive σ}
    {history : List Event} (h : service.Evolves stores drive history later)
    (hordered : Ordered drive.db) (hshare : drive.db.share id = .ok share) :
    later.db.share id = .ok share ∨ TakenBack service id share history := by
  induction h with
  | start => exact Or.inl hshare
  | @serve history mid after store identity request reply evolved _ served ih =>
    rcases ih with hmid | ⟨event, hevent, htaken⟩
    · have hserved : Served (service.withStore store) identity mid request reply after := by
        have hends := serve_ends (service.withStore store) identity request
          (evolved.ordered_of hordered).keyed
        unfold Ends at hends
        rwa [served] at hends
      rcases hserved.share_stays hmid with hstays | ⟨rfl, rfl⟩
      · exact Or.inl hstays
      · refine Or.inr ⟨_, List.mem_append_right _ List.mem_cons_self, rfl, rfl, ?_⟩
        apply may_deleteShare (service.withStore store) hmid
        unfold Service.serve at served
        rw [on_map] at served
        cases hresult : (((service.withStore store).deleteShare identity id).on mid).1 with
        | ok _ => rfl
        | error e =>
          rw [hresult] at served
          cases (Prod.mk.inj served).1
    · exact Or.inr ⟨event, List.mem_append_left _ hevent, htaken⟩
  | @login history mid after login asked reply evolved answered ih =>
    have haside := Login.serve_ends login asked mid
    unfold Ends at haside
    rw [answered] at haside
    exact ih.imp_left fun hmid => (haside.1.share id).trans hmid

/-- In every state of a drive, a share that gives reading lists files at and below its path, and
what is opened through it is the listed file at the path that is asked for, whatever the spelling;
for a path with a NUL in it there may be files to open below it that are not listed. A share that
gives no reading lists and opens nothing. As the drive goes on, a share stays what it is until its
issuer, or somebody who holds everything, takes it back. -/
theorem Evolves.share_scope {stores : ObjectStore σ → Prop} {objects : σ} {clock : Timestamp}
    {history : List Event}
    (h : service.Evolves stores (Drive.fresh objects clock) history drive)
    (hshare : drive.db.share id = .ok share) :
    (share.permissions.has .read = true →
      ∃ files, (openShare id).on drive = (.ok ⟨share, files⟩, drive) ∧
        (∀ file ∈ files, Opens service drive id file.path file) ∧
        (∀ path file, Opens service drive id path file → file.path = Path.normalize path ∧
          (file.path = share.path ∨ Path.isBelow file.path share.path = true)) ∧
        ('\x00' ∉ share.path.toList → ∀ path file,
          Opens service drive id path file ↔ file ∈ files ∧ file.path = Path.normalize path) ∧
        ∀ path, (∀ file, ¬ Opens service drive id path file) → ∀ store rangeHeader,
          ((service.withStore store).downloadShared id path rangeHeader).on drive =
            (.error (.fileNotFound (Path.normalize path)), drive)) ∧
      (share.permissions.has .read = false →
        (openShare id).on drive = (.ok ⟨share, []⟩, drive) ∧
          ∀ store path rangeHeader,
            ((service.withStore store).downloadShared id path rangeHeader).on drive =
              (.error (.unauthorized (Path.normalize path) .read), drive)) ∧
      ∀ {stores' more later}, service.Evolves stores' drive more later →
        later.db.share id = .ok share ∨ TakenBack service id share more := by
  have hordered := h.ordered
  refine ⟨fun hread => ?_, fun hread => ?_, fun hmore => hmore.share_stays hordered hshare⟩
  · obtain ⟨files, hopened, hlisted, hiff⟩ := opens_iff_listed service hordered hshare hread
    refine ⟨files, hopened, hlisted, fun path file hopens => ?_, hiff, fun path hnone => ?_⟩
    · obtain ⟨-, hcovered, hfile⟩ := (opens_iff hshare).1 hopens
      obtain ⟨users, row, -, hrow, rfl⟩ := Database.file_eq_ok hfile
      have hat : row.path = Path.normalize path := Database.path_of_rowAt hrow
      rw [FileRow.path_file, hat]
      exact ⟨rfl, hcovered⟩
    · intro store rangeHeader
      rw [downloadShared_on _ path rangeHeader hshare, if_pos hread]
      by_cases hcovered : Path.normalize path = share.path ∨
          Path.isBelow (Path.normalize path) share.path = true
      · rw [if_pos hcovered]
        rcases hordered.file_cases (Path.normalize path) with ⟨file, hfile⟩ | hmissing
        · exact absurd ((opens_iff hshare).2 ⟨hread, hcovered, hfile⟩) (hnone file)
        · rw [hmissing]
      · rw [if_neg hcovered]
  · have hnot : ¬ share.permissions.has .read = true := by rw [hread]; exact Bool.false_ne_true
    constructor
    · unfold openShare
      rw [on_bind, on_query, hshare]
      dsimp only
      rw [if_neg hnot]
      rfl
    · intro store path rangeHeader
      rw [downloadShared_on _ path rangeHeader hshare, if_neg hnot]

/-- Who holds everything shares a directory with one file in it, which is what can be opened. -/
theorem share_scope_of_directory :
    let root : Identity := ⟨"root", "root", ["admins"], "", "", false⟩
    let service : Service Tree := ⟨Directory.store, .enforcing "admins", 0, toString, fun _ => none⟩
    let creation : CreateRequest := ⟨"/d/a", "", false, ⟨0, "text/plain", .empty⟩⟩
    let created := ((service.serve root (.create creation)).on (Drive.fresh Tree.empty .epoch)).2
    let drive := ((service.serve root (.createShare "/d" (.single .read))).on created).2
    ∃ share files, drive.db.share "0" = .ok share ∧ share.path = "/d" ∧
      share.permissions.has .read = true ∧
      (openShare "0").on drive = (.ok ⟨share, files⟩, drive) ∧
      ∀ path file, Opens service drive "0" path file ↔
        file ∈ files ∧ file.path = Path.normalize path := by
  intro root service creation created drive
  have hstart : service.Evolves (· = service.store) _ [] (Drive.fresh Tree.empty .epoch) := .start
  have hdrive := (hstart.next rfl root (.create creation)).next rfl root
    (.createShare "/d" (.single .read))
  obtain ⟨share, hshare, hlooks⟩ := of_toOption_map (x := drive.db.share "0")
    (f := fun share => (share.path, share.permissions.has .read)) (b := ("/d", true))
    (by decide +kernel)
  obtain ⟨hpath, hread⟩ := Prod.mk.inj hlooks
  obtain ⟨hscope, -, -⟩ := Evolves.share_scope hdrive hshare
  obtain ⟨files, hopened, -, -, hiff, -⟩ := hscope hread
  exact ⟨share, files, hshare, hpath, hread, hopened, hiff (by rw [hpath]; decide)⟩

/-- A file can lie below another one where the path of that one has a NUL in it and the store takes
such paths. Of the two a share on the upper one lists that one only, but both can be opened. -/
theorem download_past_nul :
    let root : Identity := ⟨"root", "root", ["admins"], "", "", false⟩
    let service : Service Bucket.Server :=
      ⟨Bucket.store, .enforcing "admins", 0, toString, fun _ => none⟩
    let server : Bucket.Server :=
      ⟨true, "drive", ["drive"], [], [], 0, fun _ _ => none, fun _ _ _ => none, []⟩
    let lower : CreateRequest := ⟨"/a\x00/b", "", false, ⟨0, "text/plain", .empty⟩⟩
    let upper : CreateRequest := ⟨"/a\x00", "", false, ⟨0, "text/plain", .empty⟩⟩
    let one := ((service.serve root (.create lower)).on (Drive.fresh server .epoch)).2
    let two := ((service.serve root (.create upper)).on one).2
    let drive := ((service.serve root (.createShare "/a\x00" (.single .read))).on two).2
    (∃ history, service.Evolves (· = service.store) (Drive.fresh server .epoch) history drive) ∧
      ∃ share files file, drive.db.share "0" = .ok share ∧ share.permissions.has .read = true ∧
        (openShare "0").on drive = (.ok ⟨share, files⟩, drive) ∧
        Opens service drive "0" "/a\x00/b" file ∧
        ¬ ∃ listed ∈ files, listed.path = Path.normalize "/a\x00/b" := by
  intro root service server lower upper one two drive
  have hstart : service.Evolves (· = service.store) _ [] (Drive.fresh server .epoch) := .start
  have hone : service.Evolves _ _ _ one := hstart.next rfl root (.create lower)
  have htwo : service.Evolves _ _ _ two := hone.next rfl root (.create upper)
  have hdrive : service.Evolves _ _ _ drive :=
    htwo.next rfl root (.createShare "/a\x00" (.single .read))
  obtain ⟨share, hshare, hlooks⟩ := of_toOption_map (x := drive.db.share "0")
    (f := fun share => (share.path, share.permissions.has .read)) (b := ("/a\x00", true))
    (by decide +kernel)
  obtain ⟨hpath, hread⟩ := Prod.mk.inj hlooks
  obtain ⟨shared, hshared, hlisted⟩ := of_toOption_map (x := ((openShare "0").on drive).1)
    (f := fun shared => shared.files.map (·.path)) (b := ["/a\x00"]) (by decide +kernel)
  obtain ⟨file, hfile, -⟩ := of_toOption_map (x := drive.db.file (Path.normalize "/a\x00/b"))
    (f := File.path) (b := "/a\x00/b") (by decide +kernel)
  obtain ⟨files, hopened, -⟩ := opens_iff_listed service hdrive.ordered hshare hread
  rw [hopened] at hshared
  obtain rfl := Except.ok.inj hshared
  refine ⟨⟨_, hdrive⟩, share, files, file, hshare, hread, hopened, ?_, ?_⟩
  · rw [opens_iff hshare, hpath]
    exact ⟨hread, by decide +kernel, hfile⟩
  · rintro ⟨listed, hmem, hat⟩
    have hin := List.mem_map_of_mem (f := (·.path)) hmem
    rw [hlisted, hat] at hin
    exact absurd hin (by decide +kernel)

end Service

end FileDrive
