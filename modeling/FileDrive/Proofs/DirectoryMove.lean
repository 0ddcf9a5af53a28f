import FileDrive.Proofs.FaithfulStores
import FileDrive.Proofs.MovedFiles

/-!
# Moving a directory loses nothing

Where files have been moved one after another, their objects have gone the way of their rows
(`Relocating`), as long as the calls of the store that fail change nothing.
`Evolves.directory_move` reads off this what has come of each file that was picked.
-/

namespace FileDrive

open FileDrive.DriveM FileDrive.Time

/-- The object of a moved file is what it was. -/
def ObjectArrives {β : Type} (_target : String) (old _there new : Option β) : Prop :=
  ∃ object, old = some object ∧ new = some object

/-! ## Moves in turn -/

namespace Service

variable {σ β : Type} {service : Service σ} {identity : Identity} {drive after before : Drive σ}
  {sound : σ → Prop} {kept : σ → String → Option β} {moves waiting items : List MoveItem}
  {item : MoveItem}

/-- A drive some of whose files have been moved, and others are still to be. -/
structure Relocating (sound : σ → Prop) (kept : σ → String → Option β) (before : Drive σ)
    (moves waiting : List MoveItem) (drive : Drive σ) : Prop
    extends Rearranged before.db moves waiting drive.db where
  objects : Taken none ObjectArrives moves (kept before.objects) (kept drive.objects)
  sound : sound drive.objects

/-- What could not be moved is where it was. -/
theorem Relocating.failed {granted : Prop} {e : DriveError}
    (h : Relocating sound kept before moves (item :: waiting) drive)
    (hstore : service.store.Faithful sound kept)
    (hmoved : Moved service granted item.source item.target drive (.error e) after) :
    Relocating sound kept before moves waiting after := by
  cases hmoved with
  | refused => exact ⟨h.toRearranged.failed, h.objects, h.sound⟩
  | unmoved move =>
    obtain ⟨hsound, hsame⟩ := hstore.move_error h.sound move
    exact ⟨h.toRearranged.failed, hsame ▸ h.objects, hsound⟩

/-- The object of a file that was moved has gone along. -/
theorem Relocating.moved {granted : Prop}
    (h : Relocating sound kept before moves (item :: waiting) drive)
    (hstore : service.store.Faithful sound kept)
    (hstocked : Stocked before.db.rowAt (kept before.objects))
    (hside : SideBySide before.db (item :: waiting))
    (hmoved : Moved service granted item.source item.target drive (.ok ()) after) :
    Relocating sound kept before (moves ++ [item]) waiting after := by
  have hnew : item.NewTo moves := h.new item List.mem_cons_self
  have hapart : item.source ≠ item.target := hside.apart item List.mem_cons_self
  cases hmoved with
  | @moved db objects _ placed prepared move =>
    obtain ⟨row, hrow⟩ := hside.stored item List.mem_cons_self
    obtain ⟨hsource, object, hobject⟩ := hstocked item.source row hrow
    rw [← h.objects.source_eq hnew] at hobject
    obtain ⟨hsound, hkept⟩ := hstore.move_ok h.sound hsource
      (hside.canonical item List.mem_cons_self) hobject move
    refine ⟨h.toRearranged.moved hside prepared, ?_, hsound⟩
    refine h.objects.step hnew hapart ⟨object, hobject, ?_⟩ ?_ ?_
    · show kept objects item.target = some object
      rw [hkept, Function.update_self]
    · show kept objects item.source = none
      rw [hkept, Function.update_of_ne hapart, Function.update_self]
    · intro path hs ht
      show kept objects path = kept drive.objects path
      rw [hkept, Function.update_of_ne (Ne.symm ht), Function.update_of_ne (Ne.symm hs)]

/-- All moves are made, or not, one after another. -/
theorem SideBySide.inTurn (h : SideBySide before.db items)
    (hstore : service.store.Faithful sound kept) (hsupplied : Supplied sound kept before) :
    Relocating sound kept before (movesOf (inTurn service.moveItem items before).1) []
      (inTurn service.moveItem items before).2 := by
  have hrun := inTurn_invariant service.moveItem
    (fun calls waiting drive => SideBySide before.db waiting ∧
      Relocating sound kept before (movesOf calls) waiting drive)
    ⟨h, Rearranged.refl before.db items, .refl _ _ _, hsupplied.sound⟩ ?_
  · exact hrun.2
  rintro calls item waiting drive ⟨hside, hrelocating⟩
  refine ⟨hside.tail, ?_⟩
  have hends : (service.moveItem item).Ends drive _ := moveItem_ends item
  unfold Ends at hends
  rcases hresult : ((service.moveItem item).on drive).1 with e | _
  · rw [hresult] at hends
    rw [movesOf_error]
    exact hrelocating.failed hstore hends
  · rw [hresult] at hends
    rw [movesOf_ok]
    exact hrelocating.moved hstore hsupplied.stocked hside hends

/-! ## Directories -/

/-- What has come of files that were picked to go to new paths. Those that have moved are there with
their objects and their records, and nothing is left where they were, unless another one has moved
there. Records about others that remained at the new path stay. All other files are what and where
they were, and nothing has come to be anywhere else. -/
structure Rehoused (kept : σ → String → Option β) (picked : List String) (newPath : String → String)
    (moved : String → Bool) (before after : Drive σ) : Prop where
  row : ∀ p ∈ picked, moved p = true → ∃ row now, before.db.rowAt p = some row ∧
    after.db.rowAt (newPath p) = some (Database.movedRow now (newPath p) row)
  object : ∀ p ∈ picked, moved p = true → ∃ object, kept before.objects p = some object ∧
    kept after.objects (newPath p) = some object
  records : ∀ p ∈ picked, moved p = true → RecordsArrive (newPath p) (before.db.recordRowsAt p)
    (remaining [] (picked.filter moved) before.db.recordRowsAt (newPath p))
    (after.db.recordRowsAt (newPath p))
  left : ∀ p ∈ picked, moved p = true → (∀ q ∈ picked, moved q = true → newPath q ≠ p) →
    after.db.rowAt p = none ∧ kept after.objects p = none ∧ after.db.recordRowsAt p = []
  others : ∀ p row, before.db.rowAt p = some row → ¬ (p ∈ picked ∧ moved p = true) →
    after.db.rowAt p = some row ∧ kept after.objects p = kept before.objects p ∧
      after.db.recordRowsAt p = before.db.recordRowsAt p
  vacant : ∀ p, before.db.rowAt p = none → (∀ q ∈ picked, moved q = true → newPath q ≠ p) →
    after.db.rowAt p = none ∧ kept after.objects p = kept before.objects p ∧
      after.db.recordRowsAt p = before.db.recordRowsAt p

/-- Where a file was taken away and none has arrived nothing is left. -/
theorem Relocating.left {p : String} (h : Relocating sound kept before moves waiting after)
    (hgone : p ∈ moves.map MoveItem.source) (haway : ∀ item ∈ moves, item.target ≠ p) :
    after.db.rowAt p = none ∧ kept after.objects p = none ∧ after.db.recordRowsAt p = [] := by
  rw [h.rows.elsewhere p haway, h.objects.elsewhere p haway, h.records.elsewhere p haway]
  exact ⟨remaining_of_mem hgone, remaining_of_mem hgone, remaining_of_mem hgone⟩

/-- Where no file was taken away and none has arrived everything is as before. -/
theorem Relocating.untouched {p : String} (h : Relocating sound kept before moves waiting after)
    (hstays : p ∉ moves.map MoveItem.source) (haway : ∀ item ∈ moves, item.target ≠ p) :
    after.db.rowAt p = before.db.rowAt p ∧ kept after.objects p = kept before.objects p ∧
      after.db.recordRowsAt p = before.db.recordRowsAt p := by
  rw [h.rows.elsewhere p haway, h.objects.elsewhere p haway, h.records.elsewhere p haway]
  exact ⟨remaining_of_not_mem hstays, remaining_of_not_mem hstays, remaining_of_not_mem hstays⟩

/-- The moves that have been made tell what has come of the files. -/
theorem Relocating.rehoused {items : List MoveItem} {newPath : String → String}
    {moved : String → Bool} (h : Relocating sound kept before moves [] after)
    (htarget : ∀ item ∈ items, item.target = newPath item.source)
    (hmoves : ∀ item, item ∈ moves ↔ item ∈ items ∧ moved item.source = true) :
    Rehoused kept (items.map MoveItem.source) newPath moved before after := by
  have hmade : ∀ p ∈ items.map MoveItem.source, moved p = true →
      ∃ item ∈ moves, item.source = p ∧ item.target = newPath p := by
    intro p hp hmoved
    obtain ⟨item, hitem, rfl⟩ := List.mem_map.1 hp
    exact ⟨item, (hmoves item).2 ⟨hitem, hmoved⟩, rfl, htarget item hitem⟩
  have hpicked : ∀ item ∈ moves, item.source ∈ items.map MoveItem.source ∧
      moved item.source = true ∧ item.target = newPath item.source := by
    intro item hitem
    obtain ⟨hitem, hmoved⟩ := (hmoves item).1 hitem
    exact ⟨List.mem_map_of_mem hitem, hmoved, htarget item hitem⟩
  have hgone : ∀ p, p ∈ moves.map MoveItem.source ↔
      p ∈ (items.map MoveItem.source).filter moved := by
    intro p
    rw [List.mem_filter]
    constructor
    · intro hp
      obtain ⟨item, hitem, rfl⟩ := List.mem_map.1 hp
      exact ⟨(hpicked item hitem).1, (hpicked item hitem).2.1⟩
    · rintro ⟨hp, hmoved⟩
      obtain ⟨item, hitem, rfl, -⟩ := hmade p hp hmoved
      exact List.mem_map_of_mem hitem
  have haway : ∀ p, (∀ q ∈ items.map MoveItem.source, moved q = true → newPath q ≠ p) →
      ∀ item ∈ moves, item.target ≠ p := by
    intro p hnone item hitem
    obtain ⟨hp, hmoved, hnew⟩ := hpicked item hitem
    exact hnew ▸ hnone item.source hp hmoved
  constructor
  · intro p hp hmoved
    obtain ⟨item, hitem, rfl, hnew⟩ := hmade p hp hmoved
    exact hnew ▸ (h.rows.arrived item hitem).2
  · intro p hp hmoved
    obtain ⟨item, hitem, rfl, hnew⟩ := hmade p hp hmoved
    exact hnew ▸ h.objects.arrived item hitem
  · intro p hp hmoved
    obtain ⟨item, hitem, rfl, hnew⟩ := hmade p hp hmoved
    rw [← hnew, ← remaining_congr hgone]
    exact h.records.arrived item hitem
  · intro p hp hmoved hnone
    exact h.left ((hgone p).2 (List.mem_filter.2 ⟨hp, hmoved⟩)) (haway p hnone)
  · intro p row hrow hstays
    have hsource : p ∉ moves.map MoveItem.source := fun hp =>
      hstays (List.mem_filter.1 ((hgone p).1 hp))
    refine hrow ▸ h.untouched hsource fun item hitem hat => ?_
    -- A file that has not moved was in the way of all others.
    have hfree := (h.rows.arrived item hitem).1
    rw [hat, remaining_of_not_mem hsource, hrow] at hfree
    cases hfree
  · intro p hnone hnew
    refine hnone ▸ h.untouched (fun hp => ?_) (haway p hnew)
    obtain ⟨item, hitem, rfl⟩ := List.mem_map.1 hp
    obtain ⟨-, row, now, hrow, -⟩ := h.rows.arrived item hitem
    rw [hnone] at hrow
    cases hrow

/-- In every drive that requests and logins can lead to, with stores whose failing calls change
nothing, moving the files of a directory loses and doubles none. The files that are moved are those
below the directory that the request is about. Each is reported once, in the order of their paths:
if it has moved, by its new path, and by its own path if it has not. -/
theorem Evolves.directory_move {stores : ObjectStore σ → Prop} {objects : σ} {clock : Timestamp}
    {history : List Event} {source target : String} {names : Option (List String)}
    {report : BatchReport}
    (hevolved : service.Evolves stores (Drive.fresh objects clock) history drive)
    (hstores : ∀ store, stores store → store.Faithful sound kept) (hsound : sound objects)
    (hstore : service.store.Faithful sound kept)
    (haccepted : (service.movePath identity source target names).on drive = (.ok report, after))
    (hfree : drive.db.rowAt (Path.normalize source) = none) :
    ∃ (picked : List String) (newPath : String → String) (moved : String → Bool),
      picked.Pairwise (· < ·) ∧
      (∀ p, p ∈ picked ↔ (∃ row, drive.db.rowAt p = some row) ∧
        Path.Picked (Path.normalize source) names p) ∧
      (∀ p ∈ picked, Path.rebase p (Path.normalize source) (Path.normalize target) =
        some (newPath p)) ∧
      (picked.map newPath).Nodup ∧
      report.succeeded = (picked.filter moved).map newPath ∧
      report.warnings.map (·.path) = picked.filter (fun p => !moved p) ∧
      Rehoused kept picked newPath moved drive after := by
  obtain ⟨items, newPath, hitems, rfl, rfl⟩ := hevolved.ordered.itemized haccepted hfree
  have hcalls := map_fst_inTurn service.moveItem items drive
  have hpaths := map_item_inTurn MoveItem.source service.moveItem items drive
  obtain ⟨moved, hmoved⟩ := exists_isOk MoveItem.source
    (hpaths ▸ hitems.side.sources : ((inTurn service.moveItem items drive).1.map _).Nodup)
  have hmoves : ∀ item, item ∈ movesOf (inTurn service.moveItem items drive).1 ↔
      item ∈ items ∧ moved item.source = true := by
    intro item
    rw [mem_movesOf hmoved, hcalls]
  obtain ⟨hsucceeded, hwarnings⟩ := BatchReport.ofCalls_paths hmoved fun one hone =>
    hitems.target_eq one.1 (hcalls ▸ List.mem_map_of_mem hone)
  rw [hpaths] at hsucceeded hwarnings
  refine ⟨items.map MoveItem.source, newPath, moved, hitems.ordered, hitems.picked,
    hitems.rebased, ?_, hsucceeded, hwarnings, (hitems.side.inTurn hstore
      (hevolved.supplied hstores hsound)).rehoused hitems.target_eq hmoves⟩
  rw [List.map_map]
  exact (List.map_congr_left hitems.target_eq : items.map MoveItem.target = _) ▸ hitems.side.targets

/-- Of two files that are moved towards the root, one is to go where the other one still is, as it
comes first in the order of the paths. -/
theorem directory_move_up_but_one :
    let root : Identity := ⟨"root", "root", ["admin"], "", "", false⟩
    let service : Service Tree :=
      ⟨Directory.store.withFaults .none, .enforcing "admin", 0, toString, fun _ => none⟩
    let one := (service.serve root (.create ⟨"/a/a/x", "", false, ⟨0, "", .empty⟩⟩)).on
      (Drive.fresh Tree.empty .epoch)
    let two := (service.serve root (.create ⟨"/a/x", "", false, ⟨0, "", .empty⟩⟩)).on one.2
    let moved := (service.movePath root "/a" "/" none).on two.2
    moved.1 = .ok ⟨["/x"], [⟨"/a/a/x", "file already exists: /a/x"⟩]⟩ ∧
      ∃ row, two.2.db.rowAt "/a/a/x" = some row ∧ moved.2.db.rowAt "/a/a/x" = some row := by
  intro root service one two moved
  have hstart : service.Evolves (· = service.store) _ [] (Drive.fresh Tree.empty .epoch) := .start
  have hone := hstart.next rfl root (.create ⟨"/a/a/x", "", false, ⟨0, "", .empty⟩⟩)
  have htwo := hone.next rfl root (.create ⟨"/a/x", "", false, ⟨0, "", .empty⟩⟩)
  have hrows : two.2.db.files = some
      [⟨"/a/a/x", 0, "application/octet-stream", "", "root", "1970-01-01T00:00:00.000001Z",
        "1970-01-01T00:00:00.000001Z"⟩,
      ⟨"/a/x", 0, "application/octet-stream", "", "root", "1970-01-01T00:00:00.000002Z",
        "1970-01-01T00:00:00.000002Z"⟩] := by decide +kernel
  have hfree : two.2.db.rowAt "/a" = none := by decide +kernel
  have husers : two.2.db.users = some [] := by decide +kernel
  have hfound := Database.filesAt_of_rows (by decide +kernel) hrows husers hfree (by decide)
  obtain ⟨report, hreport, rfl⟩ : ∃ report, moved.1 = .ok report ∧ report =
      ⟨["/x"], [⟨"/a/a/x", "file already exists: /a/x"⟩]⟩ := by
    refine of_toOption_map (f := id) ?_
    show ((service.movePath root "/a" "/" none).on two.2).1.toOption.map id = _
    unfold movePath
    rw [show Path.normalize "/a" = "/a" by decide, show Path.normalize "/" = "/" by decide]
    dsimp only
    rw [if_neg (by decide), on_bind, on_query, hfound]
    decide +kernel
  have hends : (service.movePath root "/a" "/" none).on two.2 = (.ok _, moved.2) :=
    Prod.ext hreport rfl
  have hfaithful := Directory.faithful StoreFaults.none
  obtain ⟨picked, newPath, went, -, hpicked, -, -, -, hwarnings, hrehoused⟩ :=
    htwo.directory_move (fun store hstore => hstore ▸ hfaithful) Tree.sound_empty hfaithful hends
      hfree
  have hwarned : "/a/a/x" ∈ picked.filter fun p => !went p := by
    rw [← hwarnings]
    exact List.mem_singleton.2 rfl
  obtain ⟨hmem, hnot⟩ := List.mem_filter.1 hwarned
  obtain ⟨row, hrow⟩ := ((hpicked _).1 hmem).1
  exact ⟨hreport, row, hrow, (hrehoused.others _ row hrow fun h => by simp [h.2] at hnot).1⟩

end Service

end FileDrive
