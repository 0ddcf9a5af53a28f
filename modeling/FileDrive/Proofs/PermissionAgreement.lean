import Mathlib
import FileDrive.Proofs.CanonicalPath
import FileDrive.Proofs.Logins
import FileDrive.Proofs.Outcomes
import FileDrive.Service.Download
import FileDrive.Service.Listing
import FileDrive.Storage.Directory

/-!
# The ways to ask for permissions agree

What is held on a path can be asked for one path, for many files at once and for many paths without
a file. All three give what the whole table of records resolves to (`onPath_eq_resolve`,
`onFiles_eq_resolve`, `onPaths_eq_resolve`), since of the records that are read for one path or for
many only those on its own chain count.

So a listing shows of the files found for a path just those that a download is not refused for, with
the permissions that are held on each (`mem_list_iff`). What is found for a path is the file at it
or else the files below it: below a file nothing is looked for (`listing_stops_at_file`). In a drive
that requests and logins can lead to, all files at a path or below it are found, as long as the path
has no NUL in it (`Evolves.covered`).
-/

namespace FileDrive

open FileDrive.DriveM

variable {resolver : Resolver} {db : Database} {identity : Identity} {path : String}
  {records : List PermissionRecord} {stored : List File} {file : File}

namespace Database

/-- When every record can be read, so can those on some paths, and they are the same. -/
theorem recordsOn_of_allRecords (h : db.allRecords = .ok records) (paths : List String) :
    ∃ found, db.recordsOn paths = .ok found ∧
      ∀ r : PermissionRecord, r.path ∈ paths → (r ∈ records ↔ r ∈ found) := by
  obtain ⟨rows, hrows, h⟩ := bind_eq_ok.1 h
  obtain ⟨hall, hmem⟩ := recordsOf_eq_ok h
  obtain ⟨found, hfound⟩ := exists_recordsOf_eq_ok (l := rows.filter (paths.contains ·.path))
    fun row hrow => hall row (List.mem_of_mem_filter hrow)
  obtain ⟨-, hmem'⟩ := recordsOf_eq_ok hfound
  by_cases hnone : paths.isEmpty = true
  · refine ⟨[], by rw [recordsOn, if_pos hnone], fun r hr => ?_⟩
    rw [List.isEmpty_iff.1 hnone] at hr
    exact absurd hr List.not_mem_nil
  · refine ⟨found, by rw [recordsOn, if_neg hnone, hrows]; exact hfound, fun r hr => ?_⟩
    rw [hmem, hmem']
    simp only [List.mem_filter, List.contains_iff_mem, and_assoc]
    constructor
    · rintro ⟨row, hrow, hrec⟩
      exact ⟨row, hrow, path_of_record hrec ▸ hr, hrec⟩
    · rintro ⟨row, hrow, -, hrec⟩
      exact ⟨row, hrow, hrec⟩

theorem Legible.allRecords {rows : List PermissionRow} (h : db.Legible)
    (hrows : db.permissionRows = .ok rows) : ∃ records, db.allRecords = .ok records := by
  obtain ⟨-, hsome⟩ := permissionRows_eq_ok.1 hrows
  rw [Legible, hsome, Option.getD_some] at h
  rw [Database.allRecords, hrows]
  exact exists_recordsOf_eq_ok h

theorem fileRows_of_allFiles (h : db.allFiles = .ok stored) : ∃ rows, db.fileRows = .ok rows := by
  obtain ⟨rows, hrows, -⟩ := bind_eq_ok.1 h
  exact ⟨rows, hrows⟩

/-- A stored file is that of the row at its path. -/
theorem Keyed.owner_of_stored (hkeyed : db.Keyed) (h : db.allFiles = .ok stored)
    (hfile : file ∈ stored) : (db.rowAt file.path).map (·.ownerId) = some file.ownerId := by
  obtain ⟨rows, users, hrows, -, -, rfl⟩ := allFiles_eq_ok h
  obtain ⟨row, hrow, rfl⟩ := List.mem_map.1 hfile
  have hmem : row ∈ db.files.getD [] := by rwa [hrows]
  rw [FileRow.path_file, hkeyed.rowAt_of_mem hmem]
  rfl

/-- Where no stored file is, there is no row. -/
theorem rowAt_of_unstored (h : db.allFiles = .ok stored)
    (hfree : ∀ file ∈ stored, file.path ≠ path) : db.rowAt path = none := by
  obtain ⟨rows, users, hrows, -, -, rfl⟩ := allFiles_eq_ok h
  rw [rowAt_of_files hrows, List.find?_eq_none]
  intro row hrow
  simpa using hfree _ (List.mem_map_of_mem hrow)

end Database

namespace Resolver

/-! ## Against the whole table -/

theorem onPath_eq_resolve {rows : List FileRow} (hrows : db.fileRows = .ok rows)
    (hrecords : db.allRecords = .ok records) (path : String) :
    resolver.onPath db path identity =
      .ok (resolver.resolve path identity ((db.rowAt path).map (·.ownerId)) records) := by
  obtain ⟨found, hfound, hsame⟩ := Database.recordsOn_of_allRecords hrecords (Path.ancestors path)
  rw [onPath_eq hrows hfound, resolve_congr hsame]

/-- A record that is read for the chain of one path counts on no other chain. -/
theorem resolve_of_chains {found : List PermissionRecord} {paths : List String}
    (hpath : path ∈ paths)
    (hsame : ∀ r : PermissionRecord, r.path ∈ chains paths → (r ∈ records ↔ r ∈ found))
    (owner : Option String) :
    resolver.resolve path identity owner found = resolver.resolve path identity owner records :=
  resolve_congr fun r hr => (hsame r (mem_chains.2 ⟨path, hpath, hr⟩)).symm

theorem onFiles_eq_resolve (hrecords : db.allRecords = .ok records) (files : List File) :
    resolver.onFiles db files identity = .ok (files.map fun file =>
      (file, resolver.resolve file.path identity (some file.ownerId) records)) := by
  unfold onFiles
  by_cases hadmin : resolver.isAdmin identity = true
  · rw [if_pos hadmin]
    simp only [resolve, if_pos hadmin]
  · rw [if_neg hadmin]
    obtain ⟨found, hfound, hsame⟩ :=
      Database.recordsOn_of_allRecords hrecords (chains (files.map (·.path)))
    rw [hfound]
    refine congrArg Except.ok (List.map_congr_left fun file hfile => ?_)
    rw [resolve_of_chains (List.mem_map_of_mem hfile) hsame]

theorem onPaths_eq_resolve (hrecords : db.allRecords = .ok records) (paths : List String) :
    resolver.onPaths db paths identity = .ok (paths.map fun path =>
      (path, resolver.resolve path identity none records)) := by
  unfold onPaths
  by_cases hadmin : resolver.isAdmin identity = true
  · rw [if_pos hadmin]
    simp only [resolve, if_pos hadmin]
  · rw [if_neg hadmin]
    obtain ⟨found, hfound, hsame⟩ := Database.recordsOn_of_allRecords hrecords (chains paths)
    rw [hfound]
    refine congrArg Except.ok (List.map_congr_left fun path hpath => ?_)
    rw [resolve_of_chains hpath hsame]

end Resolver

namespace Service

variable {σ α : Type} {service : Service σ} {drive after : Drive σ} {listing : Listing}

/-- Somebody is refused for want of a capability. -/
def Refused (result : Except DriveError α) : Prop :=
  ∃ path needed, result = .error (.unauthorized path needed)

/-! ## Listings and downloads -/

theorem openFile_not_refused (file : File) (rangeHeader : Option String) :
    ¬ Refused ((service.openFile file rangeHeader).on drive).1 := by
  have hends : (service.openFile file rangeHeader).Ends drive fun result _ => ¬ Refused result := by
    unfold openFile
    split
    · exact Ends.throw (by rintro ⟨_, _, h⟩; cases h)
    · refine Ends.object_bind (fun e objects _ => ?_) fun body objects _ => ?_
      · rintro ⟨_, _, h⟩
        have hcause := Except.error.inj h
        unfold DriveError.ofStorage at hcause
        split at hcause <;> cases hcause
      · exact Ends.pure (by rintro ⟨_, _, h⟩; cases h)
  exact hends

/-- A download of a stored file is refused to those who do not hold what reading it takes. -/
theorem download_refused_iff {held : Permissions} (hpath : Path.Canonical file.path)
    (hroot : file.path ≠ Path.root) (hfile : drive.db.file file.path = .ok file)
    (hheld : service.resolver.onPath drive.db file.path identity = .ok held)
    (rangeHeader : Option String) :
    Refused ((service.download identity file.path rangeHeader).on drive).1 ↔
      held.has .read = false := by
  have hfilePath : filePath file.path = .ok file.path := by
    rw [filePath, Path.canonical_iff.1 hpath, if_neg hroot]
  have hauthorized : (service.authorize identity .read file.path).on drive =
      (require held .read file.path, drive) := by
    unfold authorize Service.held
    rw [on_bind, on_query, hheld]
    rfl
  unfold download
  rw [hfilePath, on_bind, on_lift]
  dsimp only
  rw [on_bind, hauthorized, require]
  by_cases hread : held.has .read = true
  · rw [if_pos hread, hread]
    dsimp only
    rw [on_bind, on_query, hfile]
    exact iff_of_false (openFile_not_refused file rangeHeader) Bool.true_eq_false.mp
  · rw [if_neg hread]
    exact iff_of_true ⟨file.path, .read, rfl⟩ (by simpa using hread)

/-- What a listing shows of the files that are found for a path. -/
theorem list_eq_ok (h : (service.list identity path).on drive = (.ok listing, after)) :
    ∃ files permitted, drive.db.filesAt (Path.normalize path) = .ok files ∧
      service.resolver.onFiles drive.db files identity = .ok permitted ∧
      (files = [] → Path.normalize path = Path.root) ∧ (files ≠ [] → listing.files ≠ []) ∧
      ∀ entry, entry ∈ listing.files ↔
        (entry.file, entry.permissions) ∈ permitted ∧ entry.permissions.has .read = true := by
  apply Ends.of_ok _ h
  unfold list
  refine Ends.query_bind (fun e _ _ h => nomatch h) fun files hfiles => ?_
  by_cases hmissing : files.isEmpty = true ∧ Path.normalize path ≠ Path.root
  · rw [if_pos hmissing]
    exact Ends.authorize_bind (fun _ _ h => nomatch h) fun _ => Ends.throw_bind fun _ h => nomatch h
  · rw [if_neg hmissing]
    refine Ends.query_bind (fun e _ _ h => nomatch h) fun permitted hpermitted => ?_
    refine Ends.guard (fun _ _ h => nomatch h) fun hsome => Ends.pure fun listing h => ?_
    obtain rfl := Except.ok.inj h
    refine ⟨files, permitted, hfiles, hpermitted, fun hnone => ?_, fun hne hnone => ?_,
      fun entry => ?_⟩
    · by_contra hroot
      exact hmissing ⟨by simpa using hnone, hroot⟩
    · exact hsome ⟨by simpa using hne, by simpa using hnone⟩
    · simp only [List.mem_filterMap, Option.ite_none_right_eq_some, Option.some.injEq]
      constructor
      · rintro ⟨item, hitem, hread, rfl⟩
        exact ⟨hitem, hread⟩
      · rintro ⟨hitem, hread⟩
        exact ⟨_, hitem, hread, rfl⟩

/-- A file that a listing can show: the one at the path, or one below a path without a file. -/
def Covered (db : Database) (path : String) (file : File) : Prop :=
  file.path = path ∨ (db.rowAt path = none ∧ Path.isBelow file.path path = true)

theorem owner_of_found {files : List File} (hkeyed : drive.db.Keyed)
    (h : drive.db.filesAt path = .ok files) (hfile : file ∈ files) :
    (drive.db.rowAt file.path).map (·.ownerId) = some file.ownerId := by
  obtain ⟨users, -, ⟨row, hrow, rfl⟩ | ⟨-, hperm⟩⟩ := Database.filesAt_eq_ok h
  · obtain rfl := List.mem_singleton.1 hfile
    rw [FileRow.path_file, Database.path_of_rowAt hrow, hrow]
    rfl
  · obtain ⟨row, hrow, rfl⟩ := List.mem_map.1 (hperm.mem_iff.1 hfile)
    rw [FileRow.path_file, hkeyed.rowAt_of_mem (List.mem_of_mem_filter hrow)]
    rfl

/-- Every covered file is found, when anything is found below a path that is not the root. -/
theorem found_of_covered {files : List File} (h : drive.db.filesAt path = .ok files)
    (hsome : files = [] → path = Path.root) (hfile : drive.db.file file.path = .ok file)
    (hcovered : Covered drive.db path file) : file ∈ files := by
  obtain ⟨users, row, husers, hrow, hfile⟩ := Database.file_eq_ok hfile
  obtain ⟨users', husers', hfound⟩ := Database.filesAt_eq_ok h
  obtain rfl : users = users' := Option.some.inj (husers.symm.trans husers')
  rcases hcovered with hat | ⟨hfree, hbelow⟩
  · rw [hat] at hrow
    rcases hfound with ⟨other, hother, rfl⟩ | ⟨hnone, -⟩
    · obtain rfl : row = other := Option.some.inj (hrow.symm.trans hother)
      rw [hfile, List.mem_singleton]
    · rw [hrow] at hnone
      cases hnone
  · rcases hfound with ⟨other, hother, -⟩ | ⟨-, hperm⟩
    · rw [hfree] at hother
      cases hother
    rw [Path.isBelow, Bool.and_eq_true] at hbelow
    -- A stem with a NUL hides everything below, but then nothing was found.
    have hstem : (Path.stem path).toList.all (· ≠ '\x00') = true := by
      by_contra hnul
      have hnone : files = [] := by
        rw [← List.perm_nil, ← List.map_nil (f := (FileRow.file users ·))]
        refine hperm.trans (List.Perm.of_eq (congrArg _ (List.filter_eq_nil_iff.2 ?_)))
        intro other _ hstored
        rw [Database.isStoredBelow, Bool.and_eq_true] at hstored
        exact hnul hstored.1
      rw [hsome hnone] at hnul
      exact hnul rfl
    rw [hperm.mem_iff, hfile]
    refine List.mem_map_of_mem (List.mem_filter.2 ⟨Database.mem_of_rowAt hrow, ?_⟩)
    rw [Database.path_of_rowAt hrow, Database.isStoredBelow, hstem, hbelow.2]
    rfl

/-- A file that is at the path itself is found alone. -/
theorem found_alone {files : List File} (h : drive.db.filesAt file.path = .ok files)
    (hfile : drive.db.file file.path = .ok file) : files = [file] := by
  obtain ⟨users, row, husers, hrow, hfile⟩ := Database.file_eq_ok hfile
  obtain ⟨users', husers', ⟨other, hother, hone⟩ | ⟨hnone, -⟩⟩ := Database.filesAt_eq_ok h
  · obtain rfl : users = users' := Option.some.inj (husers.symm.trans husers')
    obtain rfl : row = other := Option.some.inj (hrow.symm.trans hother)
    rw [hone, ← hfile]
  · rw [hrow] at hnone
    cases hnone

theorem covered_root (hcanonical : Path.Canonical path) (hroot : file.path = Path.root)
    (h : Covered db path file) : path = file.path := by
  rcases h with hat | ⟨-, hbelow⟩
  · exact hat.symm
  · obtain ⟨segs, hsegs, rfl⟩ := hcanonical
    rw [hroot, ← Path.ofSegments_nil, Path.isBelow_ofSegments (by simp [Path.AreSegments]) hsegs,
      List.prefix_nil] at hbelow
    exact absurd hbelow.1 hbelow.2

/-- The root is no file to be downloaded, whatever the caller holds. -/
theorem download_root_not_refused (hpath : Path.normalize path = Path.root)
    (rangeHeader : Option String) :
    ¬ Refused ((service.download identity path rangeHeader).on drive).1 := by
  have hfilePath : filePath path = .error (.validation "the root cannot be a file") := by
    rw [filePath, if_pos hpath]
  unfold download
  rw [hfilePath, on_bind, on_lift]
  rintro ⟨_, _, h⟩
  cases h

/-- A listing shows of the files that it covers those that a download is not refused for, each with
what is effectively held on it. -/
theorem mem_list_iff (hkeyed : drive.db.Keyed)
    (h : (service.list identity path).on drive = (.ok listing, after))
    (hfile : drive.db.file file.path = .ok file) (hpath : Path.Canonical file.path)
    (hcovered : Covered drive.db (Path.normalize path) file) (rangeHeader : Option String) :
    ((∃ entry ∈ listing.files, entry.file = file) ↔
        ¬ Refused ((service.download identity file.path rangeHeader).on drive).1) ∧
      ∀ entry ∈ listing.files, entry.file = file →
        ((service.effectivePermissions identity file.path).on drive).1 = .ok entry.permissions := by
  obtain ⟨files, permitted, hfiles, hpermitted, hsome, hshown, hentries⟩ := list_eq_ok h
  obtain ⟨rows, hrows⟩ := Database.fileRows_of_filesAt hfiles
  obtain ⟨hmap, hheld⟩ := Resolver.onPath_of_onFiles hrows hpermitted fun file hfile =>
    owner_of_found hkeyed hfiles hfile
  have hfound : file ∈ permitted.map (·.1) := hmap ▸ found_of_covered hfiles hsome hfile hcovered
  obtain ⟨⟨found, held⟩, hitem, hat⟩ := List.mem_map.1 hfound
  obtain rfl : found = file := hat
  have honPath := hheld _ hitem
  -- Of one file only one thing can be held, so it is shown with that.
  have hsame : ∀ entry ∈ listing.files, entry.file = found → entry.permissions = held := by
    rintro entry hentry rfl
    exact Except.ok.inj ((hheld _ ((hentries entry).1 hentry).1).symm.trans honPath)
  have hread : (∃ entry ∈ listing.files, entry.file = found) ↔ held.has .read = true := by
    constructor
    · rintro ⟨entry, hentry, hat⟩
      rw [← hsame entry hentry hat]
      exact ((hentries entry).1 hentry).2
    · exact fun hread => ⟨⟨found, held⟩, (hentries _).2 ⟨hitem, hread⟩, rfl⟩
  refine ⟨?_, fun entry hentry hat => ?_⟩
  · by_cases hroot : found.path = Path.root
    -- Nobody downloads the root. A file that is stored there is all that its listing shows.
    · rw [covered_root (Path.canonical_normalize path) hroot hcovered] at hfiles
      have halone : files = [found] := found_alone hfiles hfile
      obtain ⟨entry, hentry⟩ := List.exists_mem_of_ne_nil _ (hshown (by simp [halone]))
      have hmem : entry.file ∈ permitted.map (·.1) :=
        List.mem_map_of_mem (f := Prod.fst) ((hentries entry).1 hentry).1
      rw [hmap, halone, List.mem_singleton] at hmem
      have hnormal : Path.normalize found.path = Path.root := by
        rw [Path.canonical_iff.1 hpath, hroot]
      exact iff_of_true ⟨entry, hentry, hmem⟩ (download_root_not_refused hnormal rangeHeader)
    · rw [hread, download_refused_iff hpath hroot hfile honPath, Bool.not_eq_false]
  · unfold effectivePermissions Service.held
    rw [on_query, Path.canonical_iff.1 hpath, honPath, hsame entry hentry hat]

/-- A listing of a path without a NUL covers all files there or below, and these have canonical
paths. -/
theorem Evolves.covered {stores : ObjectStore σ → Prop} {objects : σ} {clock : Time.Timestamp}
    {history : List Event}
    (hevolved : service.Evolves stores (Drive.fresh objects clock) history drive)
    (hnul : '\x00' ∉ path.toList) (hfile : drive.db.file file.path = .ok file)
    (hthere : file.path = Path.normalize path ∨
      Path.isBelow file.path (Path.normalize path) = true) :
    Path.Canonical file.path ∧ Covered drive.db (Path.normalize path) file := by
  have hshaped := hevolved.ordered.shaped
  obtain ⟨-, row, -, hrow, -⟩ := Database.file_eq_ok hfile
  refine ⟨(hshaped.admissible file.path row hrow).canonical, hthere.imp_right fun hbelow => ?_⟩
  refine ⟨?_, hbelow⟩
  rcases habove : drive.db.rowAt (Path.normalize path) with _ | above
  · rfl
  · have hmem := hshaped.apart file.path (Path.normalize path) row above hrow habove hbelow
    exact absurd hmem (Path.notMem_nul_normalize hnul)

/-- In all metadata that can be read, what is held on stored files, and on paths without a file, is
the same whether it is asked for one by one or all at once, and is what the whole table of records
resolves to. A listing shows of the files that it covers those that a download is not refused for,
each with what is effectively held on it. In a drive that requests and logins can lead to, the
listing of a path without a NUL covers all files there or below. -/
theorem permissions_agree (service : Service σ) (identity : Identity) (drive : Drive σ)
    (hkeyed : drive.db.Keyed) :
    (∀ stored records, drive.db.allFiles = .ok stored → drive.db.allRecords = .ok records →
      (∀ files, (∀ file ∈ files, file ∈ stored) →
        service.resolver.onFiles drive.db files identity = .ok (files.map fun file =>
            (file, service.resolver.resolve file.path identity (some file.ownerId) records)) ∧
          ∀ file ∈ files, service.resolver.onPath drive.db file.path identity =
            .ok (service.resolver.resolve file.path identity (some file.ownerId) records)) ∧
      ∀ paths, (∀ path ∈ paths, ∀ file ∈ stored, file.path ≠ path) →
        service.resolver.onPaths drive.db paths identity = .ok (paths.map fun path =>
            (path, service.resolver.resolve path identity none records)) ∧
          ∀ path ∈ paths, service.resolver.onPath drive.db path identity =
            .ok (service.resolver.resolve path identity none records)) ∧
    (∀ path listing after, (service.list identity path).on drive = (.ok listing, after) →
      ∀ file, drive.db.file file.path = .ok file → Path.Canonical file.path →
        Covered drive.db (Path.normalize path) file → ∀ rangeHeader,
          ((∃ entry ∈ listing.files, entry.file = file) ↔
              ¬ Refused ((service.download identity file.path rangeHeader).on drive).1) ∧
            ∀ entry ∈ listing.files, entry.file = file →
              ((service.effectivePermissions identity file.path).on drive).1 =
                .ok entry.permissions) ∧
    ∀ stores objects clock history,
      service.Evolves stores (Drive.fresh objects clock) history drive →
      ∀ path file, '\x00' ∉ path.toList → drive.db.file file.path = .ok file →
        (file.path = Path.normalize path ∨
          Path.isBelow file.path (Path.normalize path) = true) →
        Path.Canonical file.path ∧ Covered drive.db (Path.normalize path) file := by
  refine ⟨?_, ?_, ?_⟩
  · intro stored records hstored hrecords
    obtain ⟨rows, hrows⟩ := Database.fileRows_of_allFiles hstored
    constructor
    · intro files hfiles
      refine ⟨Resolver.onFiles_eq_resolve hrecords files, fun file hfile => ?_⟩
      rw [Resolver.onPath_eq_resolve hrows hrecords,
        hkeyed.owner_of_stored hstored (hfiles file hfile)]
    · intro paths hfree
      refine ⟨Resolver.onPaths_eq_resolve hrecords paths, fun path hpath => ?_⟩
      rw [Resolver.onPath_eq_resolve hrows hrecords,
        Database.rowAt_of_unstored hstored (hfree path hpath), Option.map_none]
  · intro path listing after hlist file hfile hpath hcovered rangeHeader
    exact mem_list_iff hkeyed hlist hfile hpath hcovered rangeHeader
  · intro stores objects clock history hevolved path file hnul hfile hthere
    exact hevolved.covered hnul hfile hthere

/-- Ann sees of a directory the file that is hers, and may not read the one beside it. -/
theorem permissions_agree_beside_hidden_file :
    let ann : Identity := ⟨"ann", "ann", [], "", "", false⟩
    let service : Service Tree := ⟨Directory.store, .enforcing "admins", 0, toString, fun _ => none⟩
    let drive : Drive Tree :=
      ⟨Database.empty.withFiles [⟨"/d/b", 1, "text/plain", "", "bob", "", ""⟩,
        ⟨"/d/a", 1, "text/plain", "", "ann", "", ""⟩], Tree.empty, .epoch, 0⟩
    drive.db.Keyed ∧ ∃ listing mine other, ((service.list ann "/d").on drive).1 = .ok listing ∧
      drive.db.file "/d/a" = .ok mine ∧ drive.db.file "/d/b" = .ok other ∧
      (∃ entry ∈ listing.files, entry.file = mine) ∧
      ¬ Refused ((service.download ann mine.path none).on drive).1 ∧
      (¬ ∃ entry ∈ listing.files, entry.file = other) ∧
      Refused ((service.download ann other.path none).on drive).1 := by
  intro ann service drive
  have hkeyed : drive.db.Keyed := by
    unfold Database.Keyed
    decide +kernel
  obtain ⟨listing, hlisting, -⟩ := of_toOption_map (x := ((service.list ann "/d").on drive).1)
    (f := fun l => l.files.map (·.file.path)) (b := ["/d/a"]) (by cbv)
  obtain ⟨mine, hmine, hminePath⟩ := of_toOption_map (x := drive.db.file "/d/a") (f := File.path)
    (b := "/d/a") (by decide +kernel)
  obtain ⟨other, hother, hotherPath⟩ := of_toOption_map (x := drive.db.file "/d/b")
    (f := File.path) (b := "/d/b") (by decide +kernel)
  have hagree := (permissions_agree service ann drive hkeyed).2.1 "/d" listing _
    (Prod.ext hlisting rfl)
  obtain ⟨hmineIff, -⟩ := hagree mine (by rw [hminePath, hmine])
    (Path.canonical_iff.2 (hminePath ▸ by decide +kernel))
    (Or.inr ⟨by decide +kernel, hminePath ▸ by decide +kernel⟩) none
  obtain ⟨hotherIff, -⟩ := hagree other (by rw [hotherPath, hother])
    (Path.canonical_iff.2 (hotherPath ▸ by decide +kernel))
    (Or.inr ⟨by decide +kernel, hotherPath ▸ by decide +kernel⟩) none
  have hopened : ¬ Refused ((service.download ann mine.path none).on drive).1 := by
    rw [hminePath]
    rintro ⟨path, needed, h⟩
    have hmessage : ((service.download ann "/d/a" none).on drive).1 =
        .error (.storage (.notFound "/d/a")) := by rfl
    rw [hmessage] at h
    cases h
  have hrefused : Refused ((service.download ann other.path none).on drive).1 := by
    rw [hotherPath]
    exact ⟨"/d/b", .read, by cbv⟩
  exact ⟨hkeyed, listing, mine, other, hlisting, hmine, hother, hmineIff.2 hopened, hopened,
    fun hshown => hotherIff.1 hshown hrefused, hrefused⟩

/-- A drive with a file below another one and a file at a path that is not canonical: the file below
is not listed with the one above it, though it can be downloaded, and the root's listing shows the
file at the odd path, though its download is refused. -/
theorem listing_stops_at_file :
    let ann : Identity := ⟨"ann", "ann", [], "", "", false⟩
    let service : Service Tree := ⟨Directory.store, .enforcing "admins", 0, toString, fun _ => none⟩
    let row : String → FileRow := fun path => ⟨path, 1, "text/plain", "", "ann", "", ""⟩
    let drive : Drive Tree :=
      ⟨Database.empty.withFiles [row "/a", row "/a/b", row "//c"], Tree.empty, .epoch, 0⟩
    drive.db.Keyed ∧
      (∃ listing file, ((service.list ann "/a").on drive).1 = .ok listing ∧
        drive.db.file "/a/b" = .ok file ∧ Path.isBelow file.path "/a" = true ∧
        ¬ Refused ((service.download ann file.path none).on drive).1 ∧
        ¬ ∃ entry ∈ listing.files, entry.file = file) ∧
      ∃ listing file, ((service.list ann "/").on drive).1 = .ok listing ∧
        drive.db.file "//c" = .ok file ∧ Path.isBelow file.path "/" = true ∧
        Refused ((service.download ann file.path none).on drive).1 ∧
        ∃ entry ∈ listing.files, entry.file = file := by
  intro ann service row drive
  refine ⟨by unfold Database.Keyed; decide +kernel, ?_, ?_⟩
  · obtain ⟨listing, hlisting, hshown⟩ := of_toOption_map
      (x := ((service.list ann "/a").on drive).1) (f := fun l => l.files.map (·.file.path))
      (b := ["/a"]) (by cbv)
    obtain ⟨file, hfile, hpath⟩ := of_toOption_map (x := drive.db.file "/a/b") (f := File.path)
      (b := "/a/b") (by decide +kernel)
    refine ⟨listing, file, hlisting, hfile, hpath ▸ by decide +kernel, ?_, ?_⟩
    · rw [hpath]
      rintro ⟨path, needed, h⟩
      have hmessage : ((service.download ann "/a/b" none).on drive).1 =
          .error (.storage (.notFound "/a/b")) := by cbv
      rw [hmessage] at h
      cases h
    · rintro ⟨entry, hentry, rfl⟩
      have hmem := List.mem_map_of_mem (f := fun entry : FileEntry => entry.file.path) hentry
      rw [hshown, hpath] at hmem
      revert hmem
      decide
  · obtain ⟨listing, hlisting, hshown⟩ := of_toOption_map
      (x := ((service.list ann "/").on drive).1)
      (f := fun l => l.files.map fun entry => some entry.file)
      (b := [(drive.db.file "//c").toOption, (drive.db.file "/a").toOption,
        (drive.db.file "/a/b").toOption]) (by cbv)
    obtain ⟨file, hfile, hpath⟩ := of_toOption_map (x := drive.db.file "//c") (f := File.path)
      (b := "//c") (by decide +kernel)
    refine ⟨listing, file, hlisting, hfile, hpath ▸ by decide +kernel, ?_, ?_⟩
    · rw [hpath]
      exact ⟨"/c", .read, by cbv⟩
    · have hmem : some file ∈ listing.files.map fun entry => some entry.file := by
        rw [hshown, hfile]
        exact List.mem_cons_self
      obtain ⟨entry, hentry, hat⟩ := List.mem_map.1 hmem
      exact ⟨entry, hentry, Option.some.inj hat⟩

end Service

end FileDrive
