import FileDrive.Proofs.Logins
import FileDrive.Storage.Directory

/-!
# How far a share reaches

A share is issued on the strength of what its issuer holds at its path, and then gives away every
file at or below it. What the issuer holds at the path carries down to these files, because the
records on the chain of the path are on their chains as well, except where a record on the way down
takes it away (`permits_below_iff`). So a share can reach a file that its issuer may not read
(`share_reaches_denied`), but only past such a record (`createShare_reach`).
-/

namespace FileDrive

open FileDrive.DriveM FileDrive.Time

namespace Path

/-- Of two paths on one chain, the one that is not on the chain of the other lies below it. -/
theorem isBelow_of_mem_ancestors {path dir a : String} (hpath : Canonical path)
    (hdir : Canonical dir) (hbelow : isBelow path dir = true) (ha : a ∈ ancestors path)
    (hoff : a ∉ ancestors dir) : isBelow a dir = true := by
  obtain ⟨segs, hsegs, rfl⟩ := hpath
  obtain ⟨above, habove, rfl⟩ := hdir
  obtain ⟨pre, hpre, rfl⟩ := (mem_ancestors_ofSegments hsegs).1 ha
  have hsegments : AreSegments pre := AreSegments.of_prefix hsegs hpre
  obtain ⟨hstart, -⟩ := (isBelow_ofSegments hsegs habove).1 hbelow
  have hnot : ¬ pre <+: above := fun h => hoff ((mem_ancestors_ofSegments habove).2 ⟨pre, h, rfl⟩)
  refine (isBelow_ofSegments hsegments habove).2 ⟨?_, ?_⟩
  · exact (List.prefix_or_prefix_of_prefix hpre hstart).resolve_left hnot
  · rintro rfl
    exact hnot (List.prefix_refl _)

theorem ancestors_subset {path dir : String} (hpath : Canonical path) (hdir : Canonical dir)
    (hbelow : isBelow path dir = true) : ∀ a ∈ ancestors dir, a ∈ ancestors path := by
  obtain ⟨segs, hsegs, rfl⟩ := hpath
  obtain ⟨above, habove, rfl⟩ := hdir
  obtain ⟨hstart, -⟩ := (isBelow_ofSegments hsegs habove).1 hbelow
  intro a ha
  obtain ⟨pre, hpre, rfl⟩ := (mem_ancestors_ofSegments habove).1 ha
  exact (mem_ancestors_ofSegments hsegs).2 ⟨pre, hpre.trans hstart, rfl⟩

end Path

namespace Resolver

variable {resolver : Resolver} {db : Database} {identity : Identity} {c : Capability}
  {path dir : String}

/-- On the way down from a directory to a path, a record about the caller denies a capability. -/
def DeniedBelow (db : Database) (identity : Identity) (c : Capability) (dir path : String) : Prop :=
  ∃ records, db.recordsOn (Path.ancestors path) = .ok records ∧
    ∃ r ∈ records, r.appliesTo identity = true ∧ Path.isBelow r.path dir = true ∧
      r.deny.has c = true

/-- No record on the chain of a path lies below it. -/
theorem not_deniedBelow_self (hpath : Path.Canonical path) :
    ¬ DeniedBelow db identity c path path := by
  rintro ⟨records, hrecords, r, hr, -, hbelow, -⟩
  have hchain := Database.path_mem_of_recordsOn (ancestors_ne_nil path) hrecords hr
  obtain ⟨segs, hsegs, rfl⟩ := hpath
  obtain ⟨pre, hpre, hat⟩ := (Path.mem_ancestors_ofSegments hsegs).1 hchain
  have hsegments : Path.AreSegments pre := Path.AreSegments.of_prefix hsegs hpre
  rw [hat] at hbelow
  obtain ⟨hstart, hshort⟩ := (Path.isBelow_ofSegments hsegments hsegs).1 hbelow
  exact hshort (hstart.eq_of_length_le hpre.length_le)

theorem recordsOn_of_legible {rows : List PermissionRow} (hlegible : db.Legible)
    (hopen : db.isOpen = true) (hrows : db.permissions = some rows) (paths : List String) :
    ∃ records, db.recordsOn paths = .ok records := by
  by_cases hnone : paths.isEmpty = true
  · exact ⟨[], by rw [Database.recordsOn, if_pos hnone]⟩
  · rw [Database.Legible, hrows] at hlegible
    obtain ⟨records, hrecords⟩ := Database.exists_recordsOf_eq_ok
      (l := rows.filter (paths.contains ·.path)) fun row hrow =>
        hlegible row (List.mem_of_mem_filter hrow)
    refine ⟨records, ?_⟩
    rw [Database.recordsOn, if_neg hnone, Database.permissionRows_eq_ok.2 ⟨hopen, hrows⟩]
    exact hrecords

/-- Those who neither hold everything nor own the file hold what the records give. -/
theorem held_of_onPath {held : Permissions} (hadmin : ¬ resolver.isAdmin identity = true)
    (howns : ¬ ((db.rowAt path).map (·.ownerId)).any identity.owns = true)
    (h : resolver.onPath db path identity = .ok held) :
    ∃ records, db.recordsOn (Path.ancestors path) = .ok records ∧
      held = granted (Path.ancestors path) records identity := by
  rw [onPath, if_neg hadmin] at h
  obtain ⟨owner, howner, h⟩ := bind_eq_ok.1 h
  rw [Database.ownerOf_eq_ok howner, if_neg howns] at h
  obtain ⟨records, hrecords, h⟩ := bind_eq_ok.1 h
  exact ⟨records, hrecords, (Except.ok.inj h).symm⟩

/-- They do not hold what a record on the chain denies, whatever other records allow. -/
theorem not_permits_of_denied {row : PermissionRow} {r : PermissionRecord}
    (hadmin : ¬ resolver.isAdmin identity = true)
    (howns : ¬ ((db.rowAt path).map (·.ownerId)).any identity.owns = true)
    (hrow : row ∈ db.permissions.getD []) (hon : row.path ∈ Path.ancestors path)
    (hrecord : row.record = .ok r) (happlies : r.appliesTo identity = true)
    (hdeny : r.deny.has c = true) : ¬ resolver.Permits db identity c path := by
  rintro ⟨held, hheld, hhas⟩
  obtain ⟨records, hrecords, rfl⟩ := held_of_onPath hadmin howns hheld
  obtain ⟨-, rows, hrows, -, hmem⟩ := Database.recordsOn_eq_ok (ancestors_ne_nil path) hrecords
  rw [hrows] at hrow
  have hr : r ∈ records := (hmem r).2 ⟨row, hrow, hon, hrecord⟩
  rw [(has_granted.1 hhas).2 r hr ⟨Database.path_of_record hrecord ▸ hon, happlies⟩] at hdeny
  exact Bool.false_ne_true hdeny

/-- What records give on a path, beyond what they give on a directory above it, is decided by the
records on the way down. -/
theorem has_granted_below {above records : List PermissionRecord} (hpath : Path.Canonical path)
    (hdir : Path.Canonical dir) (hbelow : Path.isBelow path dir = true)
    (hsame : ∀ r : PermissionRecord, r.path ∈ Path.ancestors dir → (r ∈ records ↔ r ∈ above))
    (hchain : ∀ r ∈ records, r.path ∈ Path.ancestors path)
    (h : (granted (Path.ancestors dir) above identity).has c = true) :
    (granted (Path.ancestors path) records identity).has c = true ↔
      ∀ r ∈ records, r.appliesTo identity = true → Path.isBelow r.path dir = true →
        r.deny.has c = false := by
  obtain ⟨⟨r, hr, hcounts, hallow⟩, hnone⟩ := has_granted.1 h
  rw [has_granted]
  constructor
  · rintro ⟨-, hopen⟩ d hd happlies -
    exact hopen d hd ⟨hchain d hd, happlies⟩
  · intro hopen
    refine ⟨⟨r, (hsame r hcounts.1).2 hr, ⟨?_, hcounts.2⟩, hallow⟩, fun d hd hcountsOn => ?_⟩
    · exact Path.ancestors_subset hpath hdir hbelow r.path hcounts.1
    -- A record that counts stands on the chain of the directory, or else on the way down from it.
    · by_cases hon : d.path ∈ Path.ancestors dir
      · exact hnone d ((hsame d hon).1 hd) ⟨hon, hcountsOn.2⟩
      · have hlies := Path.isBelow_of_mem_ancestors hpath hdir hbelow hcountsOn.1 hon
        exact hopen d hd hcountsOn.2 hlies

theorem not_deniedBelow_iff {records : List PermissionRecord}
    (h : db.recordsOn (Path.ancestors path) = .ok records) :
    ¬ DeniedBelow db identity c dir path ↔
      ∀ r ∈ records, r.appliesTo identity = true → Path.isBelow r.path dir = true →
        r.deny.has c = false := by
  constructor
  · intro hnot r hr happlies hbelow
    rw [← Bool.not_eq_true]
    intro hdeny
    exact hnot ⟨records, h, r, hr, happlies, hbelow, hdeny⟩
  · rintro hopen ⟨others, hothers, r, hr, happlies, hbelow, hdeny⟩
    obtain rfl : records = others := Except.ok.inj (h.symm.trans hothers)
    rw [hopen r hr happlies hbelow] at hdeny
    exact Bool.false_ne_true hdeny

/-- Below a directory that is not a file of the caller's, the caller holds what is held there,
except where a record on the way down denies it. -/
theorem permits_below_iff {rows : List FileRow} (hrows : db.fileRows = .ok rows)
    (hlegible : db.Legible) (hpath : Path.Canonical path) (hdir : Path.Canonical dir)
    (hbelow : Path.isBelow path dir = true)
    (hunowned : ¬ ((db.rowAt dir).map (·.ownerId)).any identity.owns = true)
    (h : resolver.Permits db identity c dir) :
    resolver.Permits db identity c path ↔
      resolver.isAdmin identity = true ∨
        ((db.rowAt path).map (·.ownerId)).any identity.owns = true ∨
        ¬ DeniedBelow db identity c dir path := by
  by_cases hadmin : resolver.isAdmin identity = true
  · exact ⟨fun _ => Or.inl hadmin, fun _ => ⟨.all, onPath_of_admin hadmin, Permissions.has_all c⟩⟩
  obtain ⟨held, hheld, hhas⟩ := h
  obtain ⟨above, habove, rfl⟩ := held_of_onPath hadmin hunowned hheld
  obtain ⟨hopen, precords, hprecords, -, -⟩ :=
    Database.recordsOn_eq_ok (ancestors_ne_nil dir) habove
  obtain ⟨records, hrecords⟩ := recordsOn_of_legible hlegible hopen hprecords (Path.ancestors path)
  obtain ⟨found, hfound, hsame⟩ := Database.recordsOn_of_subset (ancestors_ne_nil path)
    (ancestors_ne_nil dir) (Path.ancestors_subset hpath hdir hbelow) hrecords
  obtain rfl : above = found := Except.ok.inj (habove.symm.trans hfound)
  have honPath : resolver.onPath db path identity = _ := onPath_eq hrows hrecords
  rw [resolve, if_neg hadmin] at honPath
  by_cases howns : ((db.rowAt path).map (·.ownerId)).any identity.owns = true
  · rw [if_pos howns] at honPath
    exact ⟨fun _ => Or.inr (Or.inl howns), fun _ => ⟨.all, honPath, Permissions.has_all c⟩⟩
  rw [if_neg howns] at honPath
  have hgranted := has_granted_below hpath hdir hbelow hsame
    (fun r hr => Database.path_mem_of_recordsOn (ancestors_ne_nil path) hrecords hr) hhas
  constructor
  · rintro ⟨held, hheld, hhas⟩
    obtain rfl := Except.ok.inj (hheld.symm.trans honPath)
    exact Or.inr (Or.inr ((not_deniedBelow_iff hrecords).2 (hgranted.1 hhas)))
  · intro hopenWay
    have hnot := (hopenWay.resolve_left hadmin).resolve_left howns
    exact ⟨_, honPath, hgranted.2 ((not_deniedBelow_iff hrecords).1 hnot)⟩

end Resolver

namespace Service

variable {σ : Type} {service : Service σ} {identity : Identity} {drive after : Drive σ}

/-- A share gives away a file: somebody who has its id opens the file, or finds it listed. -/
inductive Gives (service : Service σ) (drive : Drive σ) (id : String) (file : File) : Prop where
  | opened {store : ObjectStore σ} {path : String} {rangeHeader : Option String}
      {download : Download} {after : Drive σ}
      (answered : ((service.withStore store).downloadShared id path rangeHeader).on drive =
        (.ok download, after))
      (file_eq : download.file = file)
  | listed {shared : SharedFiles} {after : Drive σ}
      (answered : (openShare id).on drive = (.ok shared, after)) (mem : file ∈ shared.files)

/-- What a share gives away is stored at its path or below. -/
theorem Gives.stored {share : Share} {file : File} (h : Gives service drive share.id file)
    (hshare : drive.db.share share.id = .ok share) (hread : share.permissions.has .read = true)
    (hkeyed : drive.db.Keyed) (hshaped : Shaped (fun _ => True) drive.db.rowAt) :
    (∃ rows, drive.db.fileRows = .ok rows) ∧
      (∃ row, drive.db.rowAt file.path = some row ∧ row.ownerId = file.ownerId) ∧
      (file.path = share.path ∨ Path.isBelow file.path share.path = true) := by
  cases h with
  | @opened store path rangeHeader download after answered file_eq =>
    have hends :
        ((service.withStore store).downloadShared share.id path rangeHeader).Ends drive _ :=
      downloadShared_ends share.id path rangeHeader
    unfold Ends at hends
    rw [answered] at hends
    obtain ⟨found, hfound, -, hfile, hcovered⟩ := hends.1 download rfl
    obtain rfl := Except.ok.inj (hshare.symm.trans hfound)
    rw [file_eq] at hfile
    obtain ⟨users, row, -, hrow, rfl⟩ := Database.file_eq_ok hfile
    have hpath : row.path = Path.normalize path := Database.path_of_rowAt hrow
    rw [FileRow.path_file, hpath]
    exact ⟨Database.fileRows_of_file hfile, ⟨row, hrow, rfl⟩, hcovered⟩
  | @listed shared after answered mem =>
    have hends : (openShare share.id : DriveM σ SharedFiles).Ends drive _ := openShare_ends share.id
    unfold Ends at hends
    rw [answered] at hends
    obtain ⟨hfound, hfiles⟩ := hends.1 shared rfl
    obtain rfl := Except.ok.inj (hshare.symm.trans hfound)
    have hfiles := hfiles hread
    obtain ⟨users, -, ⟨row, hrow, hone⟩ | ⟨-, hperm⟩⟩ := Database.filesAt_eq_ok hfiles
    · rw [hone, List.mem_singleton] at mem
      subst mem
      have hpath : row.path = shared.share.path := Database.path_of_rowAt hrow
      rw [FileRow.path_file, hpath]
      exact ⟨Database.fileRows_of_filesAt hfiles, ⟨row, hrow, rfl⟩, Or.inl rfl⟩
    · obtain ⟨row, hrow, rfl⟩ := List.mem_map.1 (hperm.mem_iff.1 mem)
      rw [List.mem_filter] at hrow
      have hat := hkeyed.rowAt_of_mem hrow.1
      have hne := ne_of_stored hrow.2 (hshaped.admissible _ row hat).notRoot
      exact ⟨Database.fileRows_of_filesAt hfiles, ⟨row, hat, rfl⟩,
        Or.inr (isBelow_of_stored hrow.2 hne)⟩

/-- In every state of a drive, a share that gives reading reaches the files at and below its path,
and its issuer may read such a file exactly if the issuer holds everything or owns it, or no record
about the issuer on the way down to it denies reading. A path with a NUL that is itself a file of
the issuer's is left aside: what the issuer holds there comes from owning it. -/
theorem createShare_reach {stores : ObjectStore σ → Prop} {objects : σ} {clock : Timestamp}
    {history : List Event} {path : String} {permissions : Permissions} {share : Share} {file : File}
    (hevolved : service.Evolves stores (Drive.fresh objects clock) history drive)
    (hread : permissions.has .read = true)
    (hissued : (service.createShare identity path permissions).on drive = (.ok share, after))
    (hgives : Gives service after share.id file) :
    (file.path = Path.normalize path ∨ Path.isBelow file.path (Path.normalize path) = true) ∧
      (('\x00' ∈ (Path.normalize path).toList ∧ file.path ≠ Path.normalize path ∧
          ∃ row, after.db.rowAt (Path.normalize path) = some row ∧
            identity.owns row.ownerId = true) ∨
        (service.resolver.Permits after.db identity .read file.path ↔
          service.resolver.isAdmin identity = true ∨ identity.owns file.ownerId = true ∨
            ¬ Resolver.DeniedBelow after.db identity .read (Path.normalize path) file.path)) := by
  obtain ⟨-, hkeyed, hlegible, hshaped⟩ := hevolved.ordered
  have hends := createShare_ends service identity path permissions drive
  unfold Ends at hends
  rw [hissued] at hends
  generalize hresult : (Except.ok share : Except DriveError Share) = result at hends
  cases hends with
  | refused => cases hresult
  | issued member covered prepared =>
    obtain rfl := Except.ok.inj hresult
    obtain ⟨hshare, hpath, hset⟩ := Database.share_of_createShare prepared
    obtain rfl := Database.createShare_eq_ok prepared
    obtain ⟨⟨rows, hrows⟩, ⟨row, hrow, howner⟩, hcovered⟩ :=
      hgives.stored hshare (hset ▸ hread) hkeyed hshaped
    rw [hpath] at hcovered
    refine ⟨hcovered, ?_⟩
    have hheld := covered .read (Or.inr hread)
    rcases hcovered with hat | hbelow
    · refine Or.inr ⟨fun _ => Or.inr (Or.inr ?_), fun _ => ?_⟩
      · rw [hat]
        exact Resolver.not_deniedBelow_self (Path.canonical_normalize path)
      · rw [hat]
        exact hheld
    · by_cases howns :
          ((drive.db.rowAt (Path.normalize path)).map (·.ownerId)).any identity.owns = true
      -- A file of the issuer's can lie above another one only where a NUL hides what is below.
      · rcases hthere : drive.db.rowAt (Path.normalize path) with _ | above
        · rw [hthere] at howns
          exact absurd howns Bool.false_ne_true
        · rw [hthere] at howns
          have hnul := hshaped.apart _ _ row above hrow hthere hbelow
          refine Or.inl ⟨hnul, fun e => ?_, above, hthere, howns⟩
          rw [e, Path.isBelow_self] at hbelow
          exact Bool.false_ne_true hbelow
      · right
        have hfile := (hshaped.admissible file.path row hrow).canonical
        have hiff := Resolver.permits_below_iff hrows hlegible hfile (Path.canonical_normalize path)
          hbelow howns hheld
        rw [hrow, Option.map_some, Option.any_some, howner] at hiff
        exact hiff

/-- Ann logs in, and shares a directory in which nothing is kept from her. -/
theorem createShare_reach_open_directory :
    let root : Identity := ⟨"root", "root", ["admin"], "", "", false⟩
    let ann : Identity := ⟨"ann", "ann", [], "", "", false⟩
    let service : Service Tree := ⟨Directory.store, .enforcing "admin", 0, toString, fun _ => none⟩
    let login : Login := ⟨3600, toString⟩
    let read := Permissions.single .read
    let begun := (login.serve (.start ⟨"ann", "ann", [], "", ""⟩ ⟨"", "", ""⟩)).on
      (Drive.fresh Tree.empty .epoch)
    let created := (service.serve root (.create ⟨"/pub/open", "", false, ⟨0, "", .empty⟩⟩)).on
      begun.2
    let allowed := (service.serve root (.setRecords "/pub"
      [.user "/pub" "ann" (read.add (.single .share)) .none])).on created.2
    let issued := (service.createShare ann "/pub" read).on allowed.2
    ∃ share file, issued.1 = .ok share ∧ Gives service issued.2 share.id file ∧
      (file.path = Path.normalize "/pub" ∨ Path.isBelow file.path (Path.normalize "/pub") = true) ∧
      (('\x00' ∈ (Path.normalize "/pub").toList ∧ file.path ≠ Path.normalize "/pub" ∧
          ∃ row, issued.2.db.rowAt (Path.normalize "/pub") = some row ∧
            ann.owns row.ownerId = true) ∨
        (service.resolver.Permits issued.2.db ann .read file.path ↔
          service.resolver.isAdmin ann = true ∨ ann.owns file.ownerId = true ∨
            ¬ Resolver.DeniedBelow issued.2.db ann .read (Path.normalize "/pub") file.path)) := by
  intro root ann service login read begun created allowed issued
  have hstart : service.Evolves (· = service.store) _ [] (Drive.fresh Tree.empty .epoch) := .start
  have hbegun := hstart.asked login (.start ⟨"ann", "ann", [], "", ""⟩ ⟨"", "", ""⟩)
  have hcreated := hbegun.next rfl root (.create ⟨"/pub/open", "", false, ⟨0, "", .empty⟩⟩)
  have hallowed := hcreated.next rfl root (.setRecords "/pub"
    [.user "/pub" "ann" (read.add (.single .share)) .none])
  let opened := (service.downloadShared "1" "/pub/open" none).on issued.2
  obtain ⟨share, hshare, hid⟩ := of_toOption_map (f := Share.id) (x := issued.1) (b := "1")
    (by decide +kernel)
  obtain ⟨download, hdownload, -⟩ := of_toOption_map (f := fun d => d.file.path) (x := opened.1)
    (b := "/pub/open") (by decide +kernel)
  have hgives : Gives service issued.2 share.id download.file := by
    have hopened : opened = (.ok download, opened.2) := Prod.ext hdownload rfl
    rw [hid]
    exact .opened hopened rfl
  have hissued : issued = (.ok share, issued.2) := Prod.ext hshare rfl
  exact ⟨share, download.file, hshare, hgives,
    createShare_reach hallowed (Permissions.has_single .read .read) hissued hgives⟩

/-- A share that reaches a file which its issuer may not read: the issuer may share a directory, but
a record on a file in it denies the issuer reading. -/
theorem share_reaches_denied :
    let root : Identity := ⟨"root", "root", ["admin"], "", "", false⟩
    let ann : Identity := ⟨"ann", "ann", [], "", "", false⟩
    let service : Service Tree := ⟨Directory.store, .enforcing "admin", 0, toString, fun _ => none⟩
    let read := Permissions.single .read
    let created := (service.serve root (.create ⟨"/pub/secret", "", false, ⟨0, "", .empty⟩⟩)).on
      (Drive.fresh Tree.empty .epoch)
    let allowed := (service.serve root (.setRecords "/pub"
      [.user "/pub" "ann" (read.add (.single .share)) .none])).on created.2
    let denied := (service.serve root (.setRecords "/pub/secret"
      [.user "/pub/secret" "ann" .none read])).on allowed.2
    let issued := (service.createShare ann "/pub" read).on denied.2
    ∃ history share file,
      service.Evolves (· = service.store) (Drive.fresh Tree.empty .epoch) history denied.2 ∧
        read.has .read = true ∧
        issued.1 = .ok share ∧ Gives service issued.2 share.id file ∧
        ¬ service.resolver.Permits issued.2.db ann .read file.path := by
  intro root ann service read created allowed denied issued
  have hstart : service.Evolves (· = service.store) _ [] (Drive.fresh Tree.empty .epoch) := .start
  have hcreated := hstart.next rfl root (.create ⟨"/pub/secret", "", false, ⟨0, "", .empty⟩⟩)
  have hallowed := hcreated.next rfl root (.setRecords "/pub"
    [.user "/pub" "ann" (read.add (.single .share)) .none])
  have hdenied := hallowed.next rfl root (.setRecords "/pub/secret"
    [.user "/pub/secret" "ann" .none read])
  let opened := (service.downloadShared "0" "/pub/secret" none).on issued.2
  obtain ⟨share, hshare, hid⟩ := of_toOption_map (f := Share.id) (x := issued.1) (b := "0")
    (by decide +kernel)
  obtain ⟨download, hdownload, hpath⟩ := of_toOption_map (f := fun d => d.file.path) (x := opened.1)
    (b := "/pub/secret") (by decide +kernel)
  obtain ⟨row, hrow, hon, hdenial⟩ : ∃ row ∈ issued.2.db.permissions.getD [],
      row.path ∈ Path.ancestors "/pub/secret" ∧
        row.record.toOption.map (fun r => r.appliesTo ann && r.deny.has .read) = some true := by
    decide +kernel
  obtain ⟨r, hrecord, hdeny⟩ := of_toOption_map hdenial
  rw [Bool.and_eq_true] at hdeny
  refine ⟨_, share, download.file, hdenied, by decide, hshare, ?_, ?_⟩
  · have hopened : opened = (.ok download, opened.2) := Prod.ext hdownload rfl
    rw [hid]
    exact .opened hopened rfl
  · rw [hpath]
    exact Resolver.not_permits_of_denied (by decide +kernel) (by decide +kernel) hrow hon hrecord
      hdeny.1 hdeny.2

end Service

end FileDrive
