import FileDrive.Proofs.AlikeDrives
import FileDrive.Proofs.MovedFiles
import FileDrive.Proofs.PermissionAgreement
import FileDrive.Proofs.StoredPaths

/-!
# Moving a directory is moving its files, as permitted before

What the caller holds is looked up once for a whole directory, before the first file is moved, and
every move takes records along. On the chain of a file that is still to be moved nothing changes
(`Orderly.records_on_source`). On the chain of a new path where a file may be placed the records of
files that have left are missing, and nothing else changes (`Orderly.records_on_target`). So the
files go where they go when each of them is moved by itself, as long as the caller may create at the
new paths with or without the records of the files that have left (`Resolver.Unswayed`). Only files
that are moved upwards leave from such a chain at all (`Itemized.unswayed`). There it makes a
difference (`directory_move_unlike_single_moves`).
-/

namespace FileDrive

open FileDrive.DriveM FileDrive.Time

namespace Database

variable {db : Database} {records : List PermissionRecord}

theorem mem_allRecords (h : db.allRecords = .ok records) {r : PermissionRecord} :
    r ∈ records ↔ ∃ row ∈ db.recordRowsAt r.path, row.record = .ok r := by
  obtain ⟨rows, hrows, h⟩ := bind_eq_ok.1 h
  obtain ⟨-, hrows⟩ := permissionRows_eq_ok.1 hrows
  obtain ⟨-, hmem⟩ := recordsOf_eq_ok h
  rw [hmem, recordRowsAt, hrows, Option.getD_some]
  constructor
  · rintro ⟨row, hrow, hrecord⟩
    exact ⟨row, List.mem_filter.2 ⟨hrow, decide_eq_true (path_of_record hrecord).symm⟩, hrecord⟩
  · rintro ⟨row, hrow, hrecord⟩
    exact ⟨row, List.mem_of_mem_filter hrow, hrecord⟩

/-- The records of a table whose rows are stored in order are those of the rows as they come. -/
theorem allRecords_of_rows {db : Database} {rows : List PermissionRow} (hopen : db.isOpen = true)
    (hrows : db.permissions = some rows) (hordered : rows.Pairwise fun a b => rowOrder a b = true) :
    db.allRecords = (rows.mapM PermissionRow.record).mapError .database := by
  rw [allRecords, permissionRows_eq_ok.2 ⟨hopen, hrows⟩]
  show recordsOf rows = _
  rw [recordsOf, List.mergeSort_of_pairwise hordered]

end Database

namespace Resolver

variable {resolver : Resolver} {db : Database} {identity : Identity}

/-- Whoever is not exempt is told what paths hold only when the records can be read. -/
theorem permissionRows_of_onPaths {paths : List String} {permitted : List (String × Permissions)}
    {one : String × Permissions} (hadmin : ¬ resolver.isAdmin identity = true)
    (h : resolver.onPaths db paths identity = .ok permitted) (hone : one ∈ permitted) :
    ∃ rows, db.permissionRows = .ok rows := by
  unfold onPaths at h
  rw [if_neg hadmin] at h
  obtain ⟨records, hrecords, h⟩ := bind_eq_ok.1 h
  obtain rfl := Except.ok.inj h
  obtain ⟨path, hpath, -⟩ := List.mem_map.1 hone
  have hroot : Path.root ∈ chains paths := mem_chains.2 ⟨path, hpath, List.mem_cons_self⟩
  obtain ⟨hopen, rows, hrows, -⟩ := Database.recordsOn_eq_ok (List.ne_nil_of_mem hroot) hrecords
  exact ⟨rows, Database.permissionRows_eq_ok.2 ⟨hopen, hrows⟩⟩

/-- Whether a caller may create at a path is the same with and without the records on paths that
files have left. -/
def Unswayed (resolver : Resolver) (records : List PermissionRecord) (identity : Identity)
    (gone : List String) (path : String) : Prop :=
  (resolver.resolve path identity none (records.filter (·.path ∉ gone))).has .create =
    (resolver.resolve path identity none records).has .create

theorem Unswayed.congr {records : List PermissionRecord} {gone others : List String} {path : String}
    (h : resolver.Unswayed records identity gone path) (hsame : ∀ q, q ∈ others ↔ q ∈ gone) :
    resolver.Unswayed records identity others path := by
  unfold Unswayed at h ⊢
  simp only [hsame]
  exact h

/-- Records that are not on the chain of a path do not matter there. -/
theorem Unswayed.of_apart {records : List PermissionRecord} {gone : List String} {path : String}
    (h : ∀ r ∈ records, r.path ∈ gone → r.path ∉ Path.ancestors path) :
    resolver.Unswayed records identity gone path := by
  refine congrArg (·.has .create) (resolve_congr fun r hr => ?_)
  rw [List.mem_filter, decide_eq_true_eq]
  exact ⟨fun hleft => hleft.1, fun hrecord => ⟨hrecord, fun hgone => h r hrecord hgone hr⟩⟩

end Resolver

namespace Service

variable {σ : Type} {service : Service σ} {identity : Identity} {drive one two : Drive σ}
  {before db after : Database} {moves waiting : List MoveItem} {item : MoveItem} {a : String}

/-- What holds of each item of an accepted request to move a directory. -/
structure Movable (service : Service σ) (identity : Identity) (before : Database)
    (item : MoveItem) : Prop where
  source : Path.Canonical item.source
  target : Path.Admissible (fun _ => True) item.target
  into : Path.isBelow item.target item.source = false
  nul : service.store.RefusesNul ∨ '\x00' ∉ item.target.toList
  heldSource : service.resolver.onPath before item.source identity = .ok item.heldSource
  heldTarget : ∃ paths permitted, service.resolver.onPaths before paths identity = .ok permitted ∧
    (item.target, item.heldTarget) ∈ permitted

/-- What an accepted request moves can be moved, to paths that its target may have. -/
theorem Itemized.movable {source target : String} {names : Option (List String)}
    {items : List MoveItem} {newPath : String → String}
    (h : Itemized service identity db source target names items newPath)
    (hshaped : Shaped (fun _ => True) db.rowAt) (hnulFree : NulFree db.rowAt)
    (hs : Path.Canonical source) (ht : Path.Canonical target)
    (hkept : service.store.RefusesNul ∨ '\x00' ∉ target.toList) :
    ∀ item ∈ items, Movable service identity db item := by
  intro item hitem
  have hoffered := h.offered item hitem
  obtain ⟨row, hrow⟩ := hoffered.row
  have hsource := hshaped.admissible item.source row hrow
  have hne := ne_of_stored hoffered.below hsource.notRoot
  obtain ⟨paths, permitted, hpermitted, hmem⟩ := h.held
  refine ⟨hsource.canonical,
    hsource.rebase hs ht (fun _ _ => Or.inr trivial) hne hoffered.rebase_eq,
    Path.isBelow_of_rebase hsource.canonical hs ht hne h.into hoffered.rebase_eq,
    hkept.imp_right fun hnul hmem => ?_, hoffered.held,
    paths, permitted, hpermitted, hmem item hitem⟩
  have hclean : Path.Admissible (· ≠ '\x00') item.source := ⟨hsource.canonical, hsource.notRoot,
    fun c hc => Or.inr fun e => hnulFree item.source row hrow (e ▸ hc)⟩
  have hmoved := hclean.rebase hs ht (fun c hc => Or.inr fun e => hnul (e ▸ hc)) hne
    hoffered.rebase_eq
  rcases hmoved.chars _ hmem with e | hne
  · exact absurd e (by decide)
  · exact hne rfl

/-! ## Chains -/

/-- Rearranged metadata in which files still fit together. -/
structure Orderly (before : Database) (moves waiting : List MoveItem) (db : Database) : Prop
    extends Rearranged before moves waiting db where
  side : SideBySide before waiting
  shaped : Shaped (fun _ => True) db.rowAt
  nulFree : NulFree db.rowAt

theorem Orderly.failed (h : Orderly before moves (item :: waiting) db) :
    Orderly before moves waiting db :=
  ⟨h.toRearranged.failed, h.side.tail, h.shaped, h.nulFree⟩

theorem Orderly.moved {now : Timestamp} (h : Orderly before moves (item :: waiting) db)
    (hplaced : checkPlacement item.target db = .ok ())
    (htarget : Path.Admissible (fun _ => True) item.target) (hnul : '\x00' ∉ item.target.toList)
    (hmoved : db.moveFile now item.source item.target = .ok after) :
    Orderly before (moves ++ [item]) waiting after := by
  obtain ⟨row, hrow, hfree, hbecomes⟩ := Database.moveFile_becomes hmoved
  have hshifts : Shifts db after item.source item.target :=
    ⟨row, Database.movedRow now item.target row, hrow,
      hfree (h.side.apart item List.mem_cons_self), rfl, rfl, hbecomes⟩
  refine ⟨h.toRearranged.moved h.side hmoved, h.side.tail,
    shaped_of_shifts h.shaped hplaced hshifts htarget, ?_⟩
  rw [hbecomes.rowAt]
  exact (h.nulFree.erase item.source).put hnul

theorem Orderly.next {calls : List (MoveItem × Except DriveError Unit)} {granted : Prop}
    {result : Except DriveError Unit} {left : Drive σ}
    (h : Orderly before (movesOf calls) (item :: waiting) drive.db)
    (htarget : Path.Admissible (fun _ => True) item.target)
    (hnul : service.store.RefusesNul ∨ '\x00' ∉ item.target.toList)
    (hmoved : Moved service granted item.source item.target drive result left) :
    Orderly before (movesOf (calls ++ [(item, result)])) waiting left.db := by
  cases hmoved with
  | refused =>
    rw [movesOf_error]
    exact h.failed
  | unmoved =>
    rw [movesOf_error]
    exact h.failed
  | moved _ placed prepared move =>
    rw [movesOf_ok]
    exact h.moved placed htarget (hnul.elim (fun hrefuses => hrefuses.move move) id) prepared

/-- Where a file was moved to there is one. -/
theorem Orderly.row_at_target (h : Orderly before moves waiting db) (hitem : item ∈ moves) :
    ∃ row, db.rowAt item.target = some row := by
  obtain ⟨-, row, now, -, harrived⟩ := h.rows.arrived item hitem
  exact ⟨_, harrived⟩

/-- On the chain of a file that is still to be moved all records are as they were: no other file was
above it, and none has come to be. -/
theorem Orderly.records_on_source (h : Orderly before moves (item :: waiting) db)
    (hunnested : Unnested before.rowAt) (hsource : Path.Canonical item.source)
    (ha : a ∈ Path.ancestors item.source) :
    db.recordRowsAt a = before.recordRowsAt a := by
  have hnew := h.new item List.mem_cons_self
  obtain ⟨row, hrow⟩ := h.side.stored item List.mem_cons_self
  rw [h.records.elsewhere a fun other hother => ?_]
  · refine remaining_of_not_mem fun hgone => ?_
    obtain ⟨other, hother, rfl⟩ := List.mem_map.1 hgone
    rcases Path.eq_or_isBelow_of_mem_ancestors hsource ha with e | hbelow
    · exact (hnew.source other hother).1 e
    · obtain ⟨-, above, _, habove, -⟩ := h.rows.arrived other hother
      rw [hunnested _ _ row above hrow habove] at hbelow
      cases hbelow
  · rintro rfl
    rcases Path.eq_or_isBelow_of_mem_ancestors hsource ha with e | hbelow
    · exact (hnew.source other hother).2 e
    · obtain ⟨above, habove⟩ := h.row_at_target hother
      rw [← h.rows.source_eq hnew] at hrow
      rw [h.nulFree.unnested h.shaped _ _ row above hrow habove] at hbelow
      cases hbelow

/-- On the chain of a new path where a file may be placed those records are missing that were on
the paths of files that have left, and all others are as they were. -/
theorem Orderly.records_on_target (h : Orderly before moves waiting db)
    (hplaced : checkPlacement item.target db = .ok ()) (hfree : db.rowAt item.target = none)
    (htarget : Path.Canonical item.target) (ha : a ∈ Path.ancestors item.target) :
    db.recordRowsAt a = remaining [] (moves.map MoveItem.source) before.recordRowsAt a := by
  refine h.records.elsewhere a ?_
  rintro other hother rfl
  obtain ⟨row, hrow⟩ := h.row_at_target hother
  rcases Path.eq_or_isBelow_of_mem_ancestors htarget ha with e | hbelow
  · rw [e, hfree] at hrow
    cases hrow
  · rw [placed_above hplaced h.shaped htarget hrow] at hbelow
    cases hbelow

/-! ## What the caller holds meanwhile -/

theorem Orderly.held_source (h : Orderly before moves (item :: waiting) db)
    (hunnested : Unnested before.rowAt) (hreadable : before.Readable)
    (hitem : Movable service identity before item) :
    service.resolver.onPath db item.source identity = .ok item.heldSource := by
  have hsame := h.rows.source_eq (h.new item List.mem_cons_self)
  obtain ⟨row, hrow⟩ := h.side.stored item List.mem_cons_self
  by_cases hadmin : service.resolver.isAdmin identity = true
  · rw [Resolver.onPath_of_admin hadmin, ← hitem.heldSource, Resolver.onPath_of_admin hadmin]
  · obtain ⟨paths, permitted, hpermitted, hmem⟩ := hitem.heldTarget
    obtain ⟨_, hrows⟩ := Resolver.permissionRows_of_onPaths hadmin hpermitted hmem
    obtain ⟨_, hrecords⟩ := h.readable _ hrows
    obtain ⟨_, hfiles⟩ := (hreadable.of_rest h.rest).fileRows (hsame.trans hrow)
    exact onPath_of_same hfiles hrecords (by rw [hsame])
      (fun a ha => h.records_on_source hunnested hitem.source ha) hitem.heldSource

/-- At a free path where a file may be placed the caller may create as was looked up before, if the
records of files that have left do not matter to this. -/
theorem Orderly.held_target (h : Orderly before moves waiting db) (hlegible : before.Legible)
    (hfiles : ∃ rows, db.fileRows = .ok rows) (hitem : Movable service identity before item)
    (hunswayed : ∀ records, before.allRecords = .ok records →
      service.resolver.Unswayed records identity (moves.map MoveItem.source) item.target)
    (hplaced : checkPlacement item.target db = .ok ()) (hfree : db.rowAt item.target = none) :
    ∃ held, service.resolver.onPath db item.target identity = .ok held ∧
      held.has .create = item.heldTarget.has .create := by
  obtain ⟨paths, permitted, hpermitted, hmem⟩ := hitem.heldTarget
  by_cases hadmin : service.resolver.isAdmin identity = true
  · refine ⟨.all, Resolver.onPath_of_admin hadmin, ?_⟩
    rw [Resolver.onPaths, if_pos hadmin] at hpermitted
    obtain rfl := Except.ok.inj hpermitted
    obtain ⟨_, -, he⟩ := List.mem_map.1 hmem
    rw [show item.heldTarget = .all from (congrArg Prod.snd he).symm]
  obtain ⟨_, hrows⟩ := Resolver.permissionRows_of_onPaths hadmin hpermitted hmem
  obtain ⟨_, hlater⟩ := h.readable _ hrows
  obtain ⟨records, hrecords⟩ := hlegible.allRecords hrows
  obtain ⟨left, hleft⟩ := (h.legible hlegible).allRecords hlater
  obtain ⟨_, hfiles⟩ := hfiles
  rw [Resolver.onPaths_eq_resolve hrecords] at hpermitted
  obtain rfl := Except.ok.inj hpermitted
  obtain ⟨_, -, he⟩ := List.mem_map.1 hmem
  obtain ⟨rfl, hheld⟩ := Prod.mk.inj he
  refine ⟨_, Resolver.onPath_eq_resolve hfiles hleft item.target, ?_⟩
  have hsame : ∀ r : PermissionRecord, r.path ∈ Path.ancestors item.target →
      (r ∈ left ↔ r ∈ records.filter (·.path ∉ moves.map MoveItem.source)) := by
    intro r hr
    rw [List.mem_filter, decide_eq_true_eq, Database.mem_allRecords hleft,
      Database.mem_allRecords hrecords,
      h.records_on_target hplaced hfree hitem.target.canonical hr, remaining]
    split
    · next hgone => simp [hgone]
    · next hstays => simp [hstays]
  rw [hfree, Option.map_none, Resolver.resolve_congr hsame, hunswayed records hrecords, ← hheld]

/-! ## One file -/

/-- Asked to move a file by its path, the service moves it if the caller may. -/
theorem movePath_file {path target : String} {row : FileRow} (hreadable : drive.db.Readable)
    (hpath : Path.Canonical path) (htarget : Path.Canonical target) (hroot : target ≠ Path.root)
    (hne : path ≠ target) (hinto : Path.isBelow target path = false)
    (hrow : drive.db.rowAt path = some row) :
    (service.movePath identity path target none).on drive =
      (((service.moveOne identity path target).on drive).1.map fun _ => ⟨[target], []⟩,
        ((service.moveOne identity path target).on drive).2) := by
  obtain ⟨file, hfiles, hat⟩ := hreadable.filesAt hrow
  have hsingle : isSingle [file] path = true := decide_eq_true hat
  have hfilePath : filePath target = .ok target := by
    rw [filePath, Path.canonical_iff.1 htarget, if_neg hroot]
  have hallowed : ¬ (path = target ∨ Path.isBelow target path = true) := by
    rintro (e | hbelow)
    · exact hne e
    · rw [hinto] at hbelow
      cases hbelow
  unfold movePath
  rw [Path.canonical_iff.1 hpath, Path.canonical_iff.1 htarget]
  dsimp only
  rw [if_neg hallowed, on_bind, on_query, hfiles]
  dsimp only
  rw [if_pos hsingle, hfilePath, on_bind, on_lift]
  dsimp only
  rw [on_bind]
  rcases (service.moveOne identity path target).on drive with ⟨e | _, after⟩
  · rfl
  · rfl

/-- A file is checked for the permissions of the caller and its place, then it is moved. -/
theorem moveOne_on {source target : String} {held : Permissions}
    (hheld : service.resolver.onPath drive.db source identity = .ok held) :
    (service.moveOne identity source target).on drive =
      service.relocateIf (do
        require held .update source
        checkPlacement target drive.db
        let heldTarget ← service.resolver.onPath drive.db target identity
        require heldTarget .create target) source target drive := by
  have hupdate : (service.authorize identity .update source).on drive =
      (require held .update source, drive) := by
    unfold authorize Service.held
    rw [on_bind, on_query, hheld]
    rfl
  unfold moveOne
  rw [on_bind, hupdate]
  rcases require held .update source with e | _
  · rfl
  dsimp only
  rw [on_bind, on_query]
  rcases checkPlacement target drive.db with e | _
  · rfl
  dsimp only
  unfold authorize Service.held
  rw [on_bind, on_bind, on_query]
  rcases service.resolver.onPath drive.db target identity with e | heldTarget
  · rfl
  dsimp only
  rw [on_lift]
  show _ = service.relocateIf (require heldTarget .create target) source target drive
  rcases require heldTarget .create target with e | _
  · rfl
  · rfl

/-- A file is moved by its path if the caller may do what the records say. -/
theorem movePath_of_records {path target : String} {records : List PermissionRecord}
    (hread : drive.db.Readable) (hrecords : drive.db.allRecords = .ok records)
    (hpath : Path.Canonical path) (htarget : Path.Canonical target) (hroot : target ≠ Path.root)
    (hne : path ≠ target) (hinto : Path.isBelow target path = false)
    (hstored : (drive.db.rowAt path).isSome = true) :
    let held := fun p =>
      service.resolver.resolve p identity ((drive.db.rowAt p).map (·.ownerId)) records
    let moved := service.relocateIf (do
      require (held path) .update path
      checkPlacement target drive.db
      require (held target) .create target) path target drive
    (service.movePath identity path target none).on drive =
      (moved.1.map fun _ => ⟨[target], []⟩, moved.2) := by
  obtain ⟨row, hrow⟩ := Option.isSome_iff_exists.1 hstored
  obtain ⟨rows, hrows⟩ := hread.fileRows hrow
  rw [movePath_file hread hpath htarget hroot hne hinto hrow,
    moveOne_on (Resolver.onPath_eq_resolve hrows hrecords path),
    Resolver.onPath_eq_resolve hrows hrecords target]
  rfl

/-- To move an item of a batch agrees with moving its file by itself, when the caller holds now what
was looked up. -/
theorem moveItem_agrees (hne : item.source ≠ item.target)
    (hsource : service.resolver.onPath drive.db item.source identity = .ok item.heldSource)
    (htarget : checkPlacement item.target drive.db = .ok () → drive.db.rowAt item.target = none →
      ∃ held, service.resolver.onPath drive.db item.target identity = .ok held ∧
        held.has .create = item.heldTarget.has .create) :
    Agree ((service.moveItem item).on drive)
      ((service.moveOne identity item.source item.target).on drive) := by
  rw [moveItem_on, moveOne_on hsource]
  rcases hrow : drive.db.rowAt item.target with _ | row
  swap
  -- Where a file is, both fail, whatever is held there.
  · obtain ⟨_, one, hone, halike⟩ := service.relocateIf_of_occupied hne hrow _
    obtain ⟨_, two, htwo, halike'⟩ := service.relocateIf_of_occupied hne hrow _
    rw [hone, htwo]
    exact ⟨rfl, halike.symm.trans halike'⟩
  refine Alike.relocateIf (.refl drive) ?_ service item.source item.target
  rcases require item.heldSource .update item.source with e | _
  · rfl
  rcases hplaced : checkPlacement item.target drive.db with e | _
  · rcases require item.heldTarget .create item.target with e' | _
    · rfl
    · rfl
  obtain ⟨held, hheld, hsame⟩ := htarget hplaced hrow
  rw [hheld]
  show (require item.heldTarget .create item.target >>= fun _ => Except.ok ()).isOk =
    (require held .create item.target).isOk
  unfold require
  rw [hsame]
  split
  · rfl
  · rfl

/-! ## A whole directory -/

/-- A batch of moves and the same moves made singly, while both are under way: `calls` have been
made of all the calls of the batch, and the drives are alike. -/
structure InStep (service : Service σ) (drive : Drive σ)
    (all calls : List (MoveItem × Except DriveError Unit)) (waiting : List MoveItem)
    (one two : Drive σ) : Prop where
  made : calls ++ (inTurn service.moveItem waiting one).1 = all
  orderly : Orderly drive.db (movesOf calls) waiting two.db
  alike : Alike one two

/-- One more move, in the batch and singly: both are made or both fail. -/
theorem InStep.step {all calls : List (MoveItem × Except DriveError Unit)}
    (h : InStep service drive all calls (item :: waiting) one two)
    (hunnested : Unnested drive.db.rowAt) (hlegible : drive.db.Legible)
    (hreadable : drive.db.Readable) (hitem : Movable service identity drive.db item)
    (hunswayed : ∀ records, drive.db.allRecords = .ok records →
      service.resolver.Unswayed records identity ((movesOf calls).map MoveItem.source)
        item.target) :
    let batched := (service.moveItem item).on one
    let single := (service.movePath identity item.source item.target none).on two
    batched.1.isOk = single.1.isOk ∧
      InStep service drive all (calls ++ [(item, batched.1)]) waiting batched.2 single.2 := by
  intro batched single
  have hne : item.source ≠ item.target := h.orderly.side.apart item List.mem_cons_self
  have hsame := h.orderly.rows.source_eq (h.orderly.new item List.mem_cons_self)
  obtain ⟨row, hrow⟩ := h.orderly.side.stored item List.mem_cons_self
  rw [← hsame] at hrow
  have hread : two.db.Readable := hreadable.of_rest h.orderly.rest
  have hagree : Agree batched ((service.moveOne identity item.source item.target).on two) :=
    (Alike.moveItem h.alike service item).trans (moveItem_agrees hne
      (h.orderly.held_source hunnested hreadable hitem)
      (h.orderly.held_target hlegible (hread.fileRows hrow) hitem hunswayed))
  have hsingle : single = _ := movePath_file hread hitem.source hitem.target.canonical
    hitem.target.notRoot hne hitem.into hrow
  have hends : (service.moveOne identity item.source item.target).Ends two _ := moveOne_ends _ _
  unfold Ends at hends
  rw [hsingle]
  refine ⟨?_, ?_, ?_, hagree.alike⟩
  · rw [hagree.isOk]
    rcases ((service.moveOne identity item.source item.target).on two).1 with e | _
    · rfl
    · rfl
  · rw [← h.made, inTurn_cons, List.append_assoc]
    rfl
  · rw [movesOf_congr calls item hagree.isOk]
    exact h.orderly.next hitem.target hitem.nul hends

/-- The files that have left when it is the turn of an item are those before it that are reported at
their new paths in the end. -/
theorem mem_left_before {all calls later : List (MoveItem × Except DriveError Unit)}
    {result : Except DriveError Unit} {newPath : String → String} {q : String}
    (hmade : calls ++ (item, result) :: later = all)
    (hordered : (all.map fun one => one.1.source).Pairwise (· < ·))
    (htargets : (all.map fun one => one.1.target).Nodup)
    (htarget : ∀ one ∈ all, one.1.target = newPath one.1.source) :
    q ∈ (movesOf calls).map MoveItem.source ↔
      q ∈ all.map (fun one => one.1.source) ∧ q < item.source ∧
        newPath q ∈ (BatchReport.ofCalls MoveItem.source MoveItem.target all).succeeded := by
  subst hmade
  rw [List.map_append, List.map_cons, List.pairwise_append, List.pairwise_cons] at hordered
  obtain ⟨-, ⟨hlater, -⟩, hbefore⟩ := hordered
  rw [BatchReport.mem_succeeded]
  constructor
  · intro hq
    obtain ⟨_, hmove, rfl⟩ := List.mem_map.1 hq
    obtain ⟨one, hone, rfl⟩ := List.mem_map.1 hmove
    obtain ⟨hone, hok⟩ := List.mem_filter.1 hone
    have hall := List.mem_append_left ((item, result) :: later) hone
    exact ⟨List.mem_map_of_mem hall,
      hbefore _ (List.mem_map_of_mem hone) _ List.mem_cons_self, one, hall, hok, htarget one hall⟩
  · rintro ⟨hq, hlt, other, hother, hok, hat⟩
    obtain ⟨one, hone, rfl⟩ := List.mem_map.1 hq
    rw [← htarget one hone] at hat
    obtain rfl := List.inj_on_of_nodup_map htargets hother hone hat
    rcases List.mem_append.1 hone with hone | hone
    · exact List.mem_map_of_mem (List.mem_map_of_mem (List.mem_filter.2 ⟨hone, hok⟩))
    · rcases List.mem_cons.1 hone with rfl | hone
      · exact absurd hlt (lt_irrefl _)
      · exact absurd hlt (hlater _ (List.mem_map_of_mem hone)).asymm

/-- Files that are not moved upwards do not leave from the chains of the new paths. -/
theorem Itemized.unswayed {source target : String} {names : Option (List String)}
    {items : List MoveItem} {newPath : String → String} {records : List PermissionRecord}
    {gone : List String} {p : String}
    (h : Itemized service identity db source target names items newPath)
    (hshaped : Shaped (fun _ => True) db.rowAt) (hs : Path.Canonical source)
    (ht : Path.Canonical target) (hup : ¬ Path.isBelow source target = true)
    (hgone : ∀ q ∈ gone, q ∈ items.map MoveItem.source) (hp : p ∈ items.map MoveItem.source) :
    service.resolver.Unswayed records identity gone (newPath p) := by
  have hcanonical : ∀ q ∈ items.map MoveItem.source, Path.Canonical q := by
    intro q hq
    obtain ⟨row, hrow⟩ := ((h.picked q).1 hq).1
    exact (hshaped.admissible q row hrow).canonical
  have hbelow : ∀ q ∈ items.map MoveItem.source, Path.isBelow q source = true := fun q hq =>
    ((h.picked q).1 hq).2.isBelow (hcanonical q hq) hs
  have hne : p ≠ source := by
    rintro rfl
    have hself := hbelow _ hp
    rw [Path.isBelow_self] at hself
    cases hself
  have hmoved : p ≠ newPath p := by
    obtain ⟨item, hitem, rfl⟩ := List.mem_map.1 hp
    exact h.target_eq item hitem ▸ h.side.apart item hitem
  refine .of_apart fun r _ hr hchain => hup ?_
  exact Path.isBelow_of_mem_ancestors_rebase (hcanonical p hp) hs ht hne h.into (h.rebased p hp)
    hmoved hchain (hbelow r.path (hgone r.path hr))

/-- The items of a directory are moved in the batch as they are singly. -/
theorem Itemized.agree {source target : String} {names : Option (List String)}
    {items : List MoveItem} {newPath : String → String}
    (h : Itemized service identity drive.db source target names items newPath)
    (hmovable : ∀ item ∈ items, Movable service identity drive.db item)
    (hlegible : drive.db.Legible) (hshaped : Shaped (fun _ => True) drive.db.rowAt)
    (hnulFree : NulFree drive.db.rowAt)
    (hunswayed : ∀ records, drive.db.allRecords = .ok records → ∀ p ∈ items.map MoveItem.source,
      service.resolver.Unswayed records identity
        ((items.map MoveItem.source).filter fun q => q < p ∧ newPath q ∈
          (BatchReport.ofCalls MoveItem.source MoveItem.target
            (inTurn service.moveItem items drive).1).succeeded) (newPath p)) :
    List.Forall₂ (fun one two => one.1 = two.1 ∧ one.1.target = newPath one.1.source ∧
          one.2.isOk = two.2.isOk) (inTurn service.moveItem items drive).1
        (inTurn (fun item => service.movePath identity item.source (newPath item.source) none)
          items drive).1 ∧
      Alike (inTurn service.moveItem items drive).2
        (inTurn (fun item => service.movePath identity item.source (newPath item.source) none)
          items drive).2 := by
  have hfirst := map_fst_inTurn service.moveItem items drive
  have hsources := map_item_inTurn MoveItem.source service.moveItem items drive
  have htargets := map_item_inTurn MoveItem.target service.moveItem items drive
  have hrun := inTurn_related service.moveItem
    (fun item => service.movePath identity item.source (newPath item.source) none)
    (fun waiting one two => ∃ calls,
      InStep service drive (inTurn service.moveItem items drive).1 calls waiting one two)
    (fun item one two => item.target = newPath item.source ∧ one.isOk = two.isOk)
    ⟨[], rfl, ⟨Rearranged.refl _ _, h.side, hshaped, hnulFree⟩, .refl drive⟩ ?_
  · obtain ⟨hcalls, calls, hend⟩ := hrun
    exact ⟨hcalls, hend.alike⟩
  rintro item waiting one two ⟨calls, hstep⟩
  have hmade := hstep.made
  rw [inTurn_cons] at hmade
  have hitem : item ∈ items := by
    rw [← hfirst, ← hmade]
    exact List.mem_map_of_mem (List.mem_append_right calls List.mem_cons_self)
  have hnext := hstep.step (hnulFree.unnested hshaped) hlegible h.readable (hmovable item hitem) ?_
  · obtain ⟨hok, hnext⟩ := hnext
    rw [h.target_eq item hitem] at hok hnext
    exact ⟨⟨h.target_eq item hitem, hok⟩, _, hnext⟩
  intro records hrecords
  have hitems := hunswayed records hrecords item.source (List.mem_map_of_mem hitem)
  rw [← h.target_eq item hitem] at hitems
  refine hitems.congr fun q => ?_
  rw [mem_left_before hmade (hsources ▸ h.ordered) (htargets ▸ h.side.targets)
      fun one hone => h.target_eq one.1 (hfirst ▸ List.mem_map_of_mem hone),
    hsources, List.mem_filter, decide_eq_true_eq]

/-- In every drive that requests and logins can lead to, whichever calls of the store fail, to move
the files of a directory is to move each of those that are picked by itself, in the order of their
paths, to where it then lies from the new directory: the same files move, and the drives are the
same afterwards but for times. Where files are moved upwards, this supposes that whether the caller
may create at the new path of a file does not depend on the records of files that the request has
moved before it. -/
theorem Evolves.directory_move_singly {stores : ObjectStore σ → Prop} {objects : σ}
    {clock : Timestamp} {history : List Event} {source target : String}
    {names : Option (List String)} {report : BatchReport} {left : Drive σ}
    (hevolved : service.Evolves stores (Drive.fresh objects clock) history drive)
    (hnul : KeepsOutNul stores history)
    (hkept : service.store.RefusesNul ∨ '\x00' ∉ target.toList)
    (haccepted : (service.movePath identity source target names).on drive = (.ok report, left))
    (hfree : drive.db.rowAt (Path.normalize source) = none) :
    ∃ (picked : List String) (newPath : String → String), picked.Pairwise (· < ·) ∧
      (∀ p, p ∈ picked ↔ (∃ row, drive.db.rowAt p = some row) ∧
        Path.Picked (Path.normalize source) names p) ∧
      (∀ p ∈ picked, Path.rebase p (Path.normalize source) (Path.normalize target) =
        some (newPath p)) ∧
      ((Path.isBelow (Path.normalize source) (Path.normalize target) = true →
          ∀ records, drive.db.allRecords = .ok records → ∀ p ∈ picked,
            service.resolver.Unswayed records identity
              (picked.filter fun q => q < p ∧ newPath q ∈ report.succeeded) (newPath p)) →
        let singles := inTurn (fun p => service.movePath identity p (newPath p) none) picked drive
        report.succeeded = (BatchReport.ofCalls id newPath singles.1).succeeded ∧
          Alike left singles.2) := by
  have hordered : Ordered drive.db := hevolved.ordered
  have hshaped := hordered.shaped
  have hnulFree := hevolved.nulFree hnul
  obtain ⟨items, newPath, hitems, rfl, rfl⟩ := hordered.itemized haccepted hfree
  have hs := Path.canonical_normalize source
  have ht := Path.canonical_normalize target
  have hmovable := hitems.movable hshaped hnulFree hs ht
    (hkept.imp_right Path.notMem_nul_normalize)
  refine ⟨items.map MoveItem.source, newPath, hitems.ordered, hitems.picked, hitems.rebased,
    fun hunswayed => ?_⟩
  have hagree := hitems.agree hmovable hordered.legible hshaped hnulFree
    fun records hrecords p hp => ?_
  · obtain ⟨hcalls, halike⟩ := hagree
    rw [inTurn_map]
    dsimp only
    rw [BatchReport.ofCalls_map MoveItem.source]
    refine ⟨BatchReport.succeeded_congr (hcalls.imp fun one two hone => ?_), halike⟩
    obtain ⟨hitem, htarget, hok⟩ := hone
    exact ⟨by rw [htarget, hitem]; rfl, hok⟩
  by_cases hup : Path.isBelow (Path.normalize source) (Path.normalize target) = true
  · exact hunswayed hup records hrecords p hp
  · exact hitems.unswayed hshaped hs ht hup (fun q hq => List.mem_of_mem_filter hq) hp

/-- Of two files that are moved towards the root, the second one goes to where the first one was, be
they moved at once or singly. -/
theorem directory_move_singly_to_vacated :
    let root : Identity := ⟨"root", "root", ["admin"], "", "", false⟩
    let ann : Identity := ⟨"ann", "ann", [], "", "", false⟩
    let service : Service Tree :=
      ⟨Directory.store.withFaults .none, .enforcing "admin", 0, toString, fun _ => none⟩
    let one := (service.serve root (.create ⟨"/a/a/B", "", false, ⟨0, "", .empty⟩⟩)).on
      (Drive.fresh Tree.empty .epoch)
    let two := (service.serve root (.create ⟨"/a/a/a/B", "", false, ⟨0, "", .empty⟩⟩)).on one.2
    let drive := ((service.serve root (.setRecords "/"
      [.user "/" "ann" (.ofList [.create, .update]) .none])).on two.2).2
    let batched := (service.movePath ann "/a/a" "/a" none).on drive
    batched.1 = .ok ⟨["/a/B", "/a/a/B"], []⟩ ∧
      ∃ (picked : List String) (newPath : String → String), "/a/a/a/B" ∈ picked ∧
        let singles := inTurn (fun p => service.movePath ann p (newPath p) none) picked drive
        (BatchReport.ofCalls id newPath singles.1).succeeded = ["/a/B", "/a/a/B"] ∧
          Alike batched.2 singles.2 := by
  intro root ann service one two drive batched
  have hstart : service.Evolves (· = service.store) _ [] (Drive.fresh Tree.empty .epoch) := .start
  have hone := hstart.next rfl root (.create ⟨"/a/a/B", "", false, ⟨0, "", .empty⟩⟩)
  have htwo := hone.next rfl root (.create ⟨"/a/a/a/B", "", false, ⟨0, "", .empty⟩⟩)
  have hevolved : service.Evolves _ _ _ drive := htwo.next rfl root (.setRecords "/"
    [.user "/" "ann" (.ofList [.create, .update]) .none])
  have hnul := Directory.refusesNul StoreFaults.none
  have hopen : drive.db.isOpen = true := by decide +kernel
  have hrows : drive.db.files = some
      [⟨"/a/a/B", 0, "application/octet-stream", "", "root", "1970-01-01T00:00:00.000001Z",
        "1970-01-01T00:00:00.000001Z"⟩,
      ⟨"/a/a/a/B", 0, "application/octet-stream", "", "root", "1970-01-01T00:00:00.000002Z",
        "1970-01-01T00:00:00.000002Z"⟩] := by decide +kernel
  have husers : drive.db.users = some [] := by decide +kernel
  have hfree : drive.db.rowAt "/a/a" = none := by decide +kernel
  have hrecords : drive.db.allRecords =
      .ok [.user "/" "ann" (.ofList [.create, .update]) .none] := by decide +kernel
  have hfound := Database.filesAt_of_rows hopen hrows husers hfree (by decide)
  have hreport : batched.1 = .ok ⟨["/a/B", "/a/a/B"], []⟩ := by
    show ((service.movePath ann "/a/a" "/a" none).on drive).1 = _
    unfold movePath
    rw [show Path.normalize "/a/a" = "/a/a" by decide, show Path.normalize "/a" = "/a" by decide]
    dsimp only
    rw [if_neg (by decide), on_bind, on_query, hfound]
    decide +kernel
  have hends : (service.movePath ann "/a/a" "/a" none).on drive = (.ok _, batched.2) :=
    Prod.ext hreport rfl
  obtain ⟨picked, newPath, -, hpicked, -, hsingles⟩ := hevolved.directory_move_singly
    (Or.inl fun store hstore => hstore ▸ hnul) (Or.inl hnul) hends hfree
  have hroot : Path.root ∉ picked := fun h => by
    obtain ⟨row, hrow⟩ := ((hpicked _).1 h).1
    have hnone : drive.db.rowAt Path.root = none := by decide +kernel
    rw [hnone] at hrow
    cases hrow
  have hsingly := hsingles ?_
  · obtain ⟨hsame, halike⟩ := hsingly
    refine ⟨hreport, picked, newPath, ?_, hsame.symm, halike⟩
    exact (hpicked _).2 ⟨Option.isSome_iff_exists.1 (by decide +kernel),
      ['a'], [['B']], by decide +kernel, Or.inl rfl⟩
  -- The only record is on the root, and no file leaves from there.
  intro _ records hall p hp
  obtain rfl := Except.ok.inj (hrecords.symm.trans hall)
  refine .of_apart fun r hr hgone _ => ?_
  obtain rfl := List.mem_singleton.1 hr
  exact hroot (List.mem_of_mem_filter hgone)

/-- A file that is moved takes its record along, so the caller may no longer create where it was, as
the next file of the directory does all the same. -/
theorem directory_move_unlike_single_moves :
    let root : Identity := ⟨"root", "root", ["admin"], "", "", false⟩
    let ann : Identity := ⟨"ann", "ann", [], "", "", false⟩
    let service : Service Tree := ⟨Directory.store, .enforcing "admin", 0, toString, fun _ => none⟩
    let one := (service.serve root (.create ⟨"/a/a/B", "", false, ⟨0, "", .empty⟩⟩)).on
      (Drive.fresh Tree.empty .epoch)
    let two := (service.serve root (.create ⟨"/a/a/a/B", "", false, ⟨0, "", .empty⟩⟩)).on one.2
    let three := (service.serve root (.setRecords "/" [.user "/" "ann" (.single .update) .none])).on
      two.2
    let four := (service.serve root (.setRecords "/a/B"
      [.user "/a/B" "ann" (.single .create) .none])).on three.2
    let drive := ((service.serve root (.setRecords "/a/a/B"
      [.user "/a/a/B" "ann" (.single .create) .none])).on four.2).2
    let batched := (service.movePath ann "/a/a" "/a" none).on drive
    let first := (service.movePath ann "/a/a/B" "/a/B" none).on drive
    let second := (service.movePath ann "/a/a/a/B" "/a/a/B" none).on first.2
    batched.1 = .ok ⟨["/a/B", "/a/a/B"], []⟩ ∧ first.1 = .ok ⟨["/a/B"], []⟩ ∧
      second.1 = .error (.unauthorized "/a/a/B" .create) ∧
      batched.2.db.rowAt "/a/a/a/B" = none ∧ (second.2.db.rowAt "/a/a/a/B").isSome = true := by
  intro root ann service one two three four drive batched first second
  have hopen : drive.db.isOpen = true := by decide +kernel
  have hrows : drive.db.files = some
      [⟨"/a/a/B", 0, "application/octet-stream", "", "root", "1970-01-01T00:00:00.000001Z",
        "1970-01-01T00:00:00.000001Z"⟩,
      ⟨"/a/a/a/B", 0, "application/octet-stream", "", "root", "1970-01-01T00:00:00.000002Z",
        "1970-01-01T00:00:00.000002Z"⟩] := by decide +kernel
  have husers : drive.db.users = some [] := by decide +kernel
  have hperm : drive.db.permissions = some [⟨"/", 4, 0, "user", "ann"⟩,
      ⟨"/a/B", 2, 0, "user", "ann"⟩, ⟨"/a/a/B", 2, 0, "user", "ann"⟩] := by decide +kernel
  have hrecords := Database.allRecords_of_rows hopen hperm (by decide)
  have hfound := Database.filesAt_of_rows hopen hrows husers
    (by decide +kernel : drive.db.rowAt "/a/a" = none) (by decide)
  have hbatched : batched.1 = .ok ⟨["/a/B", "/a/a/B"], []⟩ ∧
      batched.2.db.rowAt "/a/a/a/B" = none := by
    show ((service.movePath ann "/a/a" "/a" none).on drive).1 = _ ∧
      ((service.movePath ann "/a/a" "/a" none).on drive).2.db.rowAt _ = _
    unfold movePath
    rw [show Path.normalize "/a/a" = "/a/a" by decide, show Path.normalize "/a" = "/a" by decide]
    dsimp only
    rw [if_neg (by decide), on_bind, on_query, hfound]
    dsimp only
    rw [if_neg (by decide), if_neg (by decide), on_bind, on_query,
      Resolver.onFiles_eq_resolve hrecords]
    dsimp only
    rw [on_bind, on_query, Resolver.onPaths_eq_resolve hrecords]
    decide +kernel
  have hfirst : first = _ := movePath_of_records ⟨hopen, by decide +kernel⟩ hrecords
    (Path.canonical_iff.2 (by decide)) (Path.canonical_iff.2 (by decide)) (by decide) (by decide)
    (by decide) (by decide +kernel)
  have hone : first.1 = .ok ⟨["/a/B"], []⟩ ∧ first.2.db.Readable ∧
      first.2.db.permissions = some [⟨"/", 4, 0, "user", "ann"⟩, ⟨"/a/B", 2, 0, "user", "ann"⟩] ∧
      (first.2.db.rowAt "/a/a/a/B").isSome = true := by
    rw [hfirst]
    unfold Database.Readable
    decide +kernel
  obtain ⟨hone, hread, hperm, hstored⟩ := hone
  have hsecond : second = _ := movePath_of_records hread
    (Database.allRecords_of_rows hread.1 hperm (by decide))
    (Path.canonical_iff.2 (by decide)) (Path.canonical_iff.2 (by decide)) (by decide) (by decide)
    (by decide) hstored
  refine ⟨hbatched.1, hone, ?_, hbatched.2, ?_⟩
  · rw [hsecond, hfirst]
    decide +kernel
  · rw [hsecond, hfirst]
    decide +kernel

end Service

end FileDrive
