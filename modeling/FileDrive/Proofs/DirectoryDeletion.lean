import FileDrive.Proofs.DirectoryRequests
import FileDrive.Proofs.Resolution
import FileDrive.Proofs.StoredPaths
import FileDrive.Storage.Bucket

/-!
# Deleting a directory is deleting its files

What the caller holds on the files of a directory is looked up once, before the first of them is
deleted, and each deletion takes records away. Still every file is dealt with as if it had been
asked for by itself (`Evolves.directory_deletion`): the records that go with a deleted file are on
its own path, and as long as no file lies below another one, that path is on no other file's chain
(`Awaiting.removed`). Below a path with a NUL a file can lie, and there it makes a difference
(`directory_deletion_past_nul`).
-/

namespace FileDrive

open FileDrive.DriveM FileDrive.Time

namespace Database

variable {db after : Database} {path : String} {row : FileRow}

theorem permissionRows_of_deleteFile (h : db.deleteFile path = .ok after) :
    ∃ records, after.permissionRows = .ok records := by
  obtain ⟨rows, hrows, h⟩ := bind_eq_ok.1 h
  dsimp only at h
  split at h
  · exact absurd h throw_bind_ne_ok
  · obtain ⟨records, hrecords, h⟩ := bind_eq_ok.1 h
    obtain rfl := Except.ok.inj h
    exact ⟨_, permissionRows_eq_ok.2 ⟨(permissionRows_eq_ok.1 hrecords).1, rfl⟩⟩

end Database

namespace Service

variable {σ : Type} {service : Service σ} {identity : Identity} {drive after : Drive σ}
  {path : String} {names : Option (List String)}

/-- Asked to delete a file by its path, the service deletes it if the caller may. -/
theorem deletePath_file {item : File × Permissions} {row : FileRow}
    (hreadable : drive.db.Readable) (hpath : Path.Canonical item.1.path)
    (hroot : item.1.path ≠ Path.root) (hrow : drive.db.rowAt item.1.path = some row)
    (hheld : service.resolver.onPath drive.db item.1.path identity = .ok item.2) :
    (service.deletePath identity item.1.path names).on drive =
      (((service.deleteItem item).on drive).1.map fun _ => ⟨[item.1.path], []⟩,
        ((service.deleteItem item).on drive).2) := by
  obtain ⟨file, hfiles, hat⟩ := hreadable.filesAt hrow
  have hsingle : isSingle [file] item.1.path = true := decide_eq_true hat
  have hauthorized : (service.authorize identity .delete item.1.path).on drive =
      (require item.2 .delete item.1.path, drive) := by
    unfold authorize held
    rw [on_bind, on_query, hheld]
    rfl
  unfold deletePath deleteItem
  rw [Path.canonical_iff.1 hpath]
  dsimp only
  rw [if_neg fun h => hroot h.1, on_bind, on_query, hfiles]
  dsimp only
  rw [if_pos hsingle, on_bind, hauthorized, on_bind, on_lift]
  rcases require item.2 .delete item.1.path with e | _
  · rfl
  · dsimp only
    rw [on_bind]
    rcases (service.remove item.1.path).on drive with ⟨e | _, after⟩
    · rfl
    · rfl

/-- Files that are still to be deleted, with what the caller holds on each: none lies below another
one, and all is as it was when it was looked up. -/
structure Awaiting (service : Service σ) (identity : Identity) (items : List (File × Permissions))
    (drive : Drive σ) : Prop where
  readable : drive.db.Readable
  canonical : ∀ item ∈ items, Path.Canonical item.1.path
  notRoot : ∀ item ∈ items, item.1.path ≠ Path.root
  row : ∀ item ∈ items, ∃ row, drive.db.rowAt item.1.path = some row
  held : ∀ item ∈ items, service.resolver.onPath drive.db item.1.path identity = .ok item.2
  distinct : (items.map (·.1.path)).Nodup
  apart : ∀ item ∈ items, ∀ other ∈ items, Path.isBelow item.1.path other.1.path = false

/-- The files that are left still await their deletion when one of them is gone. -/
theorem Awaiting.removed {item : File × Permissions} {rest : List (File × Permissions)}
    {granted : Prop} {result : Except DriveError Unit}
    (h : Awaiting service identity (item :: rest) drive)
    (hremoved : Removed service granted item.1.path drive result after) :
    Awaiting service identity rest after := by
  have hsub : ∀ other ∈ rest, other ∈ item :: rest := fun other => List.mem_cons_of_mem item
  have hnodup := h.distinct
  rw [List.map_cons, List.nodup_cons] at hnodup
  have hne : ∀ other ∈ rest, other.1.path ≠ item.1.path := fun other hother e =>
    hnodup.1 (List.mem_map.2 ⟨other, hother, e⟩)
  have hkept : after.db = drive.db → Awaiting service identity rest after := fun hsame =>
    ⟨hsame ▸ h.readable, fun other hother => h.canonical other (hsub other hother),
      fun other hother => h.notRoot other (hsub other hother),
      fun other hother => hsame ▸ h.row other (hsub other hother),
      fun other hother => hsame ▸ h.held other (hsub other hother), hnodup.2,
      fun other hother another hanother => h.apart other (hsub other hother) another
        (hsub another hanother)⟩
  cases hremoved with
  | refused => exact hkept rfl
  | undeleted => exact hkept rfl
  | @removed db _ objects _ prepared _ _ =>
    obtain ⟨-, hbecomes⟩ := Database.deleteFile_becomes prepared
    obtain ⟨records, hrecords⟩ := Database.permissionRows_of_deleteFile prepared
    have hreadable : db.Readable := h.readable.of_rest hbecomes.rest
    have hrow : ∀ other ∈ rest, db.rowAt other.1.path = drive.db.rowAt other.1.path := by
      intro other hother
      rw [hbecomes.rowAt, Function.update_of_ne (hne other hother)]
    refine ⟨hreadable, fun other hother => h.canonical other (hsub other hother),
      fun other hother => h.notRoot other (hsub other hother), fun other hother => ?_,
      fun other hother => ?_, hnodup.2, fun other hother another hanother =>
        h.apart other (hsub other hother) another (hsub another hanother)⟩
    · rw [hrow other hother]
      exact h.row other (hsub other hother)
    · obtain ⟨row, hthere⟩ := h.row other (hsub other hother)
      rw [← hrow other hother] at hthere
      obtain ⟨rows, hrows⟩ := hreadable.fileRows hthere
      refine onPath_of_same hrows hrecords (by rw [hrow other hother]) (fun a ha => ?_)
        (h.held other (hsub other hother))
      -- The deleted file is not on the chain of another one, so its records count for none.
      refine hbecomes.records a fun hmem => ?_
      rw [List.mem_singleton] at hmem
      subst hmem
      rcases Path.eq_or_isBelow_of_mem_ancestors (h.canonical other (hsub other hother)) ha with
        e | hbelow
      · exact hne other hother e.symm
      · rw [h.apart other (hsub other hother) item List.mem_cons_self] at hbelow
        cases hbelow

/-- Files that await their deletion are deleted, or not, as they are when each is asked for by
itself. -/
theorem Awaiting.inTurn {items : List (File × Permissions)}
    (h : Awaiting service identity items drive) :
    List.Forall₂ (fun one two => one.1 = two.1 ∧ two.2 = one.2.map fun _ => ⟨[one.1.1.path], []⟩)
        (inTurn service.deleteItem items drive).1
        (inTurn (fun item => service.deletePath identity item.1.path none) items drive).1 ∧
      (inTurn service.deleteItem items drive).2 =
        (inTurn (fun item => service.deletePath identity item.1.path none) items drive).2 := by
  have hstep : ∀ item rest (drive drive' : Drive σ),
      drive = drive' ∧ Awaiting service identity (item :: rest) drive →
        ((service.deletePath identity item.1.path none).on drive').1 =
            ((service.deleteItem item).on drive).1.map (fun _ => ⟨[item.1.path], []⟩) ∧
          ((service.deleteItem item).on drive).2 =
              ((service.deletePath identity item.1.path none).on drive').2 ∧
            Awaiting service identity rest ((service.deleteItem item).on drive).2 := by
    rintro item rest drive _ ⟨rfl, hawaiting⟩
    have hmem : item ∈ item :: rest := List.mem_cons_self
    obtain ⟨row, hrow⟩ := hawaiting.row item hmem
    rw [deletePath_file hawaiting.readable (hawaiting.canonical item hmem)
      (hawaiting.notRoot item hmem) hrow (hawaiting.held item hmem)]
    exact ⟨rfl, rfl, hawaiting.removed (deleteItem_ends item)⟩
  obtain ⟨hcalls, hend, -⟩ := inTurn_related service.deleteItem
    (fun item => service.deletePath identity item.1.path none)
    (fun items drive drive' => drive = drive' ∧ Awaiting service identity items drive)
    (fun item one two => two = one.map fun _ => ⟨[item.1.path], []⟩) ⟨rfl, h⟩ hstep
  exact ⟨hcalls, hend⟩

/-! ## What is left alone -/

/-- What deleting files of some paths leaves alone: the rows and records of other paths and whatever
is no concern of the metadata of files, and of the objects all that stays when objects at such paths
are taken out. -/
structure Spared (store : ObjectStore σ) (picked : String → Prop) (drive after : Drive σ) :
    Prop where
  row : ∀ path, ¬ picked path → after.db.rowAt path = drive.db.rowAt path
  records : ∀ path, ¬ picked path → after.db.recordRowsAt path = drive.db.recordRowsAt path
  rest : after.db.rest = drive.db.rest
  objects : ∀ I : σ → Prop,
    (∀ path objects, picked path → I objects → I (store.delete path objects).2) →
      I drive.objects → I after.objects
  clock : after.clock = drive.clock
  drawn : after.drawn = drive.drawn

theorem Spared.refl (store : ObjectStore σ) (picked : String → Prop) (drive : Drive σ) :
    Spared store picked drive drive :=
  ⟨fun _ _ => rfl, fun _ _ => rfl, rfl, fun _ _ h => h, rfl, rfl⟩

theorem Spared.trans {store : ObjectStore σ} {picked : String → Prop} {drive mid after : Drive σ}
    (h : Spared store picked drive mid) (k : Spared store picked mid after) :
    Spared store picked drive after where
  row path hpath := (k.row path hpath).trans (h.row path hpath)
  records path hpath := (k.records path hpath).trans (h.records path hpath)
  rest := k.rest.trans h.rest
  objects I hkeeps hstart := k.objects I hkeeps (h.objects I hkeeps hstart)
  clock := k.clock.trans h.clock
  drawn := k.drawn.trans h.drawn

theorem Removed.spared {granted : Prop} {result : Except DriveError Unit}
    {picked : String → Prop} (h : Removed service granted path drive result after)
    (hpath : picked path) : Spared service.store picked drive after := by
  cases h with
  | refused => exact .refl _ _ _
  | @undeleted e objects delete =>
    have hobjects : (service.store.delete path drive.objects).2 = objects :=
      congrArg Prod.snd delete
    exact ⟨fun _ _ => rfl, fun _ _ => rfl, rfl,
      fun I hkeeps hstart => hobjects ▸ hkeeps path _ hpath hstart, rfl, rfl⟩
  | @removed db result objects _ prepared delete _ =>
    have hobjects : (service.store.delete path drive.objects).2 = objects :=
      congrArg Prod.snd delete
    obtain ⟨-, hbecomes⟩ := Database.deleteFile_becomes prepared
    have hne : ∀ other, ¬ picked other → other ≠ path := fun other hother e => hother (e ▸ hpath)
    refine ⟨fun other hother => ?_, fun other hother => ?_, hbecomes.rest,
      fun I hkeeps hstart => hobjects ▸ hkeeps path _ hpath hstart, rfl, rfl⟩
    · dsimp only
      rw [hbecomes.rowAt, Function.update_of_ne (hne other hother)]
    · exact hbecomes.records other (by simpa using hne other hother)

theorem inTurn_spared {picked : String → Prop} {items : List (File × Permissions)}
    (hpicked : ∀ item ∈ items, picked item.1.path) (drive : Drive σ) :
    Spared service.store picked drive (inTurn service.deleteItem items drive).2 := by
  induction items generalizing drive with
  | nil => exact .refl _ _ _
  | cons item rest ih =>
    rw [List.forall_mem_cons] at hpicked
    exact (Removed.spared (deleteItem_ends item) hpicked.1).trans (ih hpicked.2 _)

/-! ## Directories -/

/-- Without names of entries the root is not deleted from. -/
theorem deletePath_root (hroot : Path.normalize path = Path.root)
    (hnames : names.all (·.isEmpty) = true) (identity : Identity) (drive : Drive σ) :
    (service.deletePath identity path names).on drive =
      (.error (.validation "deleting from the root needs a list of names"), drive) := by
  unfold deletePath
  dsimp only
  rw [if_pos ⟨hroot, hnames⟩]
  rfl

/-- What has been looked up of the files of a directory awaits their deletion. -/
theorem awaiting_of_permitted {found : List File} {permitted : List (File × Permissions)}
    (hkeyed : drive.db.Keyed) (hshaped : Shaped (fun _ => True) drive.db.rowAt)
    (hfound : drive.db.filesAt path = .ok found) (hsingle : ¬ isSingle found path = true)
    (hpermitted : service.resolver.onFiles drive.db (select found path names) identity =
      .ok permitted)
    (hapart : ∀ item ∈ permitted, '\x00' ∈ item.1.path.toList →
      ∀ other ∈ permitted, Path.isBelow other.1.path item.1.path = false) :
    Awaiting service identity permitted drive := by
  obtain ⟨hfiles, hoffered, hnodup⟩ := select_offered hkeyed hfound hsingle hpermitted
  have hadmissible : ∀ item ∈ permitted, Path.Admissible (fun _ => True) item.1.path := by
    intro item hitem
    obtain ⟨row, hrow⟩ := (hoffered item hitem).row
    exact hshaped.admissible item.1.path row hrow
  refine ⟨Database.readable_of_filesAt hfound, fun item hitem => (hadmissible item hitem).canonical,
    fun item hitem => (hadmissible item hitem).notRoot, fun item hitem => (hoffered item hitem).row,
    fun item hitem => (hoffered item hitem).held, ?_, fun item hitem other hother => ?_⟩
  · rw [← hfiles, List.map_map] at hnodup
    exact hnodup
  · rw [← Bool.not_eq_true]
    intro hbelow
    obtain ⟨row, hrow⟩ := (hoffered item hitem).row
    obtain ⟨above, habove⟩ := (hoffered other hother).row
    have hnul := hshaped.apart _ _ row above hrow habove hbelow
    exact Bool.false_ne_true ((hapart other hother hnul item hitem).symm.trans hbelow)

/-- In every drive that requests and logins can lead to, whichever calls of the store fail, to
delete the files of a directory deals with those that are picked and spares all else. It is to
delete each of them by itself, in the order of their paths: the drive is the same afterwards, and
the report names the paths of the calls that went well and the errors of the others. This supposes
that none of them has a path with a NUL in it and another one below, as none has in a store that
keeps nothing at such paths (`Evolves.nulFree`). The root is not deleted from without names. -/
theorem Evolves.directory_deletion {stores : ObjectStore σ → Prop} {objects : σ}
    {clock : Timestamp} {history : List Event}
    (hevolved : service.Evolves stores (Drive.fresh objects clock) history drive)
    (identity : Identity) (path : String) (names : Option (List String)) :
    (Path.normalize path = Path.root → names.all (·.isEmpty) = true →
      (service.deletePath identity path names).on drive =
        (.error (.validation "deleting from the root needs a list of names"), drive)) ∧
    ∀ report after, (service.deletePath identity path names).on drive = (.ok report, after) →
      drive.db.rowAt (Path.normalize path) = none →
      ∃ picked : List String, picked.Pairwise (· < ·) ∧
        (∀ p, p ∈ picked ↔ (∃ row, drive.db.rowAt p = some row) ∧
          Path.Picked (Path.normalize path) names p) ∧
        Spared service.store (Path.Picked (Path.normalize path) names) drive after ∧
        ((∀ p ∈ picked, '\x00' ∈ p.toList → ∀ q ∈ picked, Path.isBelow q p = false) →
          let singles := inTurn (fun p => service.deletePath identity p none) picked drive
          report = .ofCalls id id singles.1 ∧ after = singles.2) := by
  constructor
  · intro hroot hnames
    exact deletePath_root hroot hnames identity drive
  intro report after haccepted hfree
  obtain ⟨-, hkeyed, -, hshaped⟩ := hevolved.ordered
  obtain ⟨found, permitted, hfound, hsome, hpermitted, rfl, rfl⟩ :=
    deletePath_directory haccepted hfree
  obtain ⟨hordered, hpicked⟩ := picked_spec hkeyed hshaped (Path.canonical_normalize path)
    hfree hfound hsome
  have hsingle := not_isSingle hfound hfree
  obtain ⟨hfiles, -, -⟩ := select_offered hkeyed hfound hsingle hpermitted
  have hpaths : permitted.map (·.1.path) =
      (select found (Path.normalize path) names).map (·.path) := by
    rw [← hfiles, List.map_map]
    rfl
  rw [← hpaths] at hordered hpicked
  refine ⟨permitted.map (·.1.path), hordered, hpicked,
    inTurn_spared (fun item hitem => ?_) drive, fun hapart => ?_⟩
  · exact ((hpicked item.1.path).1 (List.mem_map_of_mem hitem)).2
  · obtain ⟨hcalls, hend⟩ := (awaiting_of_permitted hkeyed hshaped hfound hsingle hpermitted
      fun item hitem hnul other hother => hapart _ (List.mem_map_of_mem hitem) hnul _
        (List.mem_map_of_mem hother)).inTurn
    rw [inTurn_map]
    dsimp only
    rw [BatchReport.ofCalls_map fun item : File × Permissions => item.1.path]
    refine ⟨BatchReport.ofCalls_congr (hcalls.imp fun one two hone => ?_), hend⟩
    exact ⟨hone.1, _, hone.2⟩

/-- Of two files in a directory that she may delete from, one cannot be taken out of the store. -/
theorem directory_deletion_but_stuck_object :
    let root : Identity := ⟨"root", "root", ["admin"], "", "", false⟩
    let ann : Identity := ⟨"ann", "ann", [], "", "", false⟩
    let stuck : StoreFaults := { StoreFaults.none with delete := fun path => path = "/d/b" }
    let service : Service Tree :=
      ⟨Directory.store.withFaults stuck, .enforcing "admin", 0, toString, fun _ => none⟩
    let one := (service.serve root (.create ⟨"/d/a", "", false, ⟨0, "", .empty⟩⟩)).on
      (Drive.fresh Tree.empty .epoch)
    let two := (service.serve root (.create ⟨"/d/b", "", false, ⟨0, "", .empty⟩⟩)).on one.2
    let allowed := (service.serve root (.setRecords "/d"
      [.user "/d" "ann" (.single .delete) .none])).on two.2
    let deleted := (service.deletePath ann "/d" none).on allowed.2
    deleted.1 = .ok ⟨["/d/a"],
        [⟨"/d/b", "storage error: storage backend error: injected delete failure"⟩]⟩ ∧
      ∃ picked : List String, picked.Pairwise (· < ·) ∧ "/d/b" ∈ picked ∧
        let singles := inTurn (fun p => service.deletePath ann p none) picked allowed.2
        deleted.1 = .ok (.ofCalls id id singles.1) ∧ deleted.2 = singles.2 := by
  intro root ann stuck service one two allowed deleted
  have hstart : service.Evolves (· = service.store) _ [] (Drive.fresh Tree.empty .epoch) := .start
  have hone := hstart.next rfl root (.create ⟨"/d/a", "", false, ⟨0, "", .empty⟩⟩)
  have htwo := hone.next rfl root (.create ⟨"/d/b", "", false, ⟨0, "", .empty⟩⟩)
  have hallowed := htwo.next rfl root (.setRecords "/d" [.user "/d" "ann" (.single .delete) .none])
  have hrows : allowed.2.db.files = some
      [⟨"/d/a", 0, "application/octet-stream", "", "root", "1970-01-01T00:00:00.000001Z",
        "1970-01-01T00:00:00.000001Z"⟩,
      ⟨"/d/b", 0, "application/octet-stream", "", "root", "1970-01-01T00:00:00.000002Z",
        "1970-01-01T00:00:00.000002Z"⟩] := by decide +kernel
  have hfree : allowed.2.db.rowAt "/d" = none := by decide +kernel
  have husers : allowed.2.db.users = some [] := by decide +kernel
  have hfound := Database.filesAt_of_rows (by decide +kernel) hrows husers hfree (by decide)
  obtain ⟨report, hreport, rfl⟩ : ∃ report, deleted.1 = .ok report ∧ report =
      ⟨["/d/a"], [⟨"/d/b", "storage error: storage backend error: injected delete failure"⟩]⟩ := by
    refine of_toOption_map (f := id) ?_
    show ((service.deletePath ann "/d" none).on allowed.2).1.toOption.map id = _
    unfold deletePath
    rw [show Path.normalize "/d" = "/d" by decide]
    dsimp only
    rw [if_neg (by decide), on_bind, on_query, hfound]
    decide +kernel
  have hends : (service.deletePath ann "/d" none).on allowed.2 = (.ok _, deleted.2) :=
    Prod.ext hreport rfl
  obtain ⟨picked, hordered, hpicked, -, hsingly⟩ :=
    (hallowed.directory_deletion ann "/d" none).2 _ _ hends hfree
  have hmem : "/d/b" ∈ picked := by
    rw [hpicked]
    refine ⟨?_, ['b'], [], by decide +kernel, Or.inl rfl⟩
    exact Option.isSome_iff_exists.1 (by decide +kernel)
  -- The directory takes no object to a path with a NUL in it, so no file is there.
  have hnulFree := hallowed.nulFree
    (Or.inl fun store hstore => hstore ▸ Directory.refusesNul stuck)
  obtain ⟨hsame, hend⟩ := hsingly fun p hp hnul => by
    obtain ⟨row, hrow⟩ := ((hpicked p).1 hp).1
    exact absurd hnul (hnulFree p row hrow)
  exact ⟨hreport, picked, hordered, hmem, hreport.trans (congrArg Except.ok hsame), hend⟩

/-- The record on a file lets the caller delete the one below it as well. When both are deleted at
once, this is what was looked up before. When they are deleted singly, the record has gone with its
file, and the lower one stays. -/
theorem directory_deletion_past_nul :
    let root : Identity := ⟨"root", "root", ["admins"], "", "", false⟩
    let ann : Identity := ⟨"ann", "ann", [], "", "", false⟩
    let service : Service Bucket.Server :=
      ⟨Bucket.store, .enforcing "admins", 0, toString, fun _ => none⟩
    let server : Bucket.Server :=
      ⟨true, "drive", ["drive"], [], [], 0, fun _ _ => none, fun _ _ _ => none, []⟩
    let lower : CreateRequest := ⟨"/a\x00/b", "", false, ⟨0, "text/plain", .empty⟩⟩
    let upper : CreateRequest := ⟨"/a\x00", "", false, ⟨0, "text/plain", .empty⟩⟩
    let one := ((service.serve root (.create lower)).on (Drive.fresh server .epoch)).2
    let two := ((service.serve root (.create upper)).on one).2
    let drive := ((service.serve root (.setRecords "/a\x00"
      [.user "/a\x00" "ann" (.single .delete) .none])).on two).2
    let batched := (service.deletePath ann "/" (some ["a\x00"])).on drive
    let first := (service.deletePath ann "/a\x00" none).on drive
    let second := (service.deletePath ann "/a\x00/b" none).on first.2
    (∃ history, service.Evolves (· = service.store) (Drive.fresh server .epoch) history drive) ∧
      batched.1 = .ok ⟨["/a\x00", "/a\x00/b"], []⟩ ∧ first.1 = .ok ⟨["/a\x00"], []⟩ ∧
      second.1 = .error (.unauthorized "/a\x00/b" .delete) ∧
      batched.2.db.rowAt "/a\x00/b" = none ∧ (second.2.db.rowAt "/a\x00/b").isSome = true := by
  intro root ann service server lower upper one two drive batched first second
  have hstart : service.Evolves (· = service.store) _ [] (Drive.fresh server .epoch) := .start
  have hone : service.Evolves _ _ _ one := hstart.next rfl root (.create lower)
  have htwo : service.Evolves _ _ _ two := hone.next rfl root (.create upper)
  have hdrive : service.Evolves _ _ _ drive := htwo.next rfl root (.setRecords "/a\x00"
    [.user "/a\x00" "ann" (.single .delete) .none])
  have hrows : drive.db.files = some
      [⟨"/a\x00/b", 0, "text/plain", "", "root", "1970-01-01T00:00:00.000001Z",
        "1970-01-01T00:00:00.000001Z"⟩,
      ⟨"/a\x00", 0, "text/plain", "", "root", "1970-01-01T00:00:00.000002Z",
        "1970-01-01T00:00:00.000002Z"⟩] := by decide +kernel
  have hfree : drive.db.rowAt "/" = none := by decide +kernel
  have husers : drive.db.users = some [] := by decide +kernel
  have hfound := Database.filesAt_eq_byPath (by decide +kernel) hrows husers hfree
  rw [List.filter_eq_self.2 (by decide), List.map_cons, List.map_cons, List.map_nil,
    Database.byPath_pair (by decide)] at hfound
  have hbatched : batched.1 = .ok ⟨["/a\x00", "/a\x00/b"], []⟩ ∧
      batched.2.db.rowAt "/a\x00/b" = none := by
    show ((service.deletePath ann "/" (some ["a\x00"])).on drive).1 = _ ∧
      ((service.deletePath ann "/" (some ["a\x00"])).on drive).2.db.rowAt _ = _
    unfold deletePath
    rw [show Path.normalize "/" = "/" by decide]
    dsimp only
    rw [if_neg (by decide), on_bind, on_query, hfound]
    decide +kernel
  have hsingles : first.1 = .ok ⟨["/a\x00"], []⟩ ∧
      second.1 = .error (.unauthorized "/a\x00/b" .delete) ∧
      (second.2.db.rowAt "/a\x00/b").isSome = true := by decide +kernel
  exact ⟨⟨_, hdrive⟩, hbatched.1, hsingles.1, hsingles.2.1, hbatched.2, hsingles.2.2⟩

end Service

end FileDrive
