import FileDrive.Proofs.DirectoryRequests
import FileDrive.Proofs.Logins

/-!
# Metadata from which files have moved

The files of a directory are moved one after another, and the path that one of them is to have can
be the path of another one, of one that has left already or of one that has not. A file goes only
where none is, so what has been moved stays where it arrived, and what has not been moved stays
where it was. This is the same for the rows of the files, for their records and for their objects,
and is told once for all three: `Taken` says what is left of a table when entries have gone from the
sources of some moves to their targets, and `Taken.step` adds one move.

`Rearranged` says it of the metadata, with what is known of the moves that are still to come. Files
that can be moved side by side (`SideBySide`) have different sources and different targets; those of
a directory can (`sideBySide_of_offered`).
-/

namespace FileDrive

open FileDrive.DriveM FileDrive.Time

/-! ## Tables from which entries are taken -/

/-- What remains of a table when what was at some paths has been taken away. -/
def remaining {V : Type} (gone : V) (sources : List String) (before : String → V) (path : String) :
    V :=
  if path ∈ sources then gone else before path

section Remaining

variable {V : Type} {gone : V} {sources others : List String} {before : String → V}
  {source path : String}

theorem remaining_of_mem (h : path ∈ sources) : remaining gone sources before path = gone :=
  if_pos h

theorem remaining_of_not_mem (h : path ∉ sources) :
    remaining gone sources before path = before path := if_neg h

theorem remaining_concat (h : source ≠ path) :
    remaining gone (sources ++ [source]) before path = remaining gone sources before path := by
  simp [remaining, Ne.symm h]

theorem remaining_congr (h : ∀ q, q ∈ sources ↔ q ∈ others) :
    remaining gone sources before path = remaining gone others before path := by
  simp only [remaining, h]

end Remaining

/-- Entries of a table have been taken from the sources of some moves to their targets. Each has
arrived, with regard to what was at its source and to what remained at its target, and elsewhere is
what remains. -/
structure Taken {V : Type} (gone : V) (arrives : String → V → V → V → Prop)
    (moves : List Service.MoveItem) (before after : String → V) : Prop where
  arrived : ∀ item ∈ moves, arrives item.target (before item.source)
    (remaining gone (moves.map Service.MoveItem.source) before item.target) (after item.target)
  elsewhere : ∀ path, (∀ item ∈ moves, item.target ≠ path) →
    after path = remaining gone (moves.map Service.MoveItem.source) before path

/-- A move that is new with regard to those before: its source is neither a source nor a target of
theirs, and its target is none of theirs. -/
structure Service.MoveItem.NewTo (item : Service.MoveItem) (moves : List Service.MoveItem) :
    Prop where
  source : ∀ other ∈ moves, other.source ≠ item.source ∧ other.target ≠ item.source
  target : ∀ other ∈ moves, other.target ≠ item.target

theorem Service.MoveItem.NewTo.append {item made : Service.MoveItem}
    {moves : List Service.MoveItem} (h : item.NewTo moves) (hsource : made.source ≠ item.source)
    (hacross : made.target ≠ item.source) (htarget : made.target ≠ item.target) :
    item.NewTo (moves ++ [made]) :=
  ⟨List.forall_mem_append.2 ⟨h.source, List.forall_mem_singleton.2 ⟨hsource, hacross⟩⟩,
    List.forall_mem_append.2 ⟨h.target, List.forall_mem_singleton.2 htarget⟩⟩

namespace Taken

variable {V : Type} {gone : V} {arrives : String → V → V → V → Prop}
  {moves : List Service.MoveItem} {before mid after : String → V} {item : Service.MoveItem}

theorem refl (gone : V) (arrives : String → V → V → V → Prop) (before : String → V) :
    Taken gone arrives [] before before :=
  ⟨fun _ h => absurd h List.not_mem_nil,
    fun _ _ => (remaining_of_not_mem List.not_mem_nil).symm⟩

/-- What is at the source of a move is still what was there before all of them. -/
theorem source_eq (h : Taken gone arrives moves before mid) (hnew : item.NewTo moves) :
    mid item.source = before item.source := by
  rw [h.elsewhere item.source fun other hother => (hnew.source other hother).2]
  refine remaining_of_not_mem fun hgone => ?_
  obtain ⟨other, hother, hsame⟩ := List.mem_map.1 hgone
  exact (hnew.source other hother).1 hsame

/-- One more entry is taken. Where others have arrived it changes nothing, and it takes nothing
away from there. -/
theorem step (h : Taken gone arrives moves before mid) (hnew : item.NewTo moves)
    (hapart : item.source ≠ item.target)
    (harrived : arrives item.target (mid item.source) (mid item.target) (after item.target))
    (hleft : after item.source = gone)
    (helsewhere : ∀ path, item.source ≠ path → item.target ≠ path → after path = mid path) :
    Taken gone arrives (moves ++ [item]) before after := by
  rw [h.source_eq hnew, h.elsewhere item.target hnew.target] at harrived
  constructor
  · intro other hother
    rw [List.map_append, List.map_singleton]
    rcases List.mem_append.1 hother with hother | hother
    · have hacross : item.source ≠ other.target := fun e => (hnew.source other hother).2 e.symm
      have hdistinct : item.target ≠ other.target := fun e => hnew.target other hother e.symm
      rw [remaining_concat hacross, helsewhere other.target hacross hdistinct]
      exact h.arrived other hother
    · obtain rfl := List.mem_singleton.1 hother
      rw [remaining_concat hapart]
      exact harrived
  · intro path hpath
    rw [List.map_append, List.map_singleton]
    by_cases hsource : item.source = path
    · rw [← hsource, hleft, remaining_of_mem (List.mem_append_right _ List.mem_cons_self)]
    · have htarget := hpath item (List.mem_append_right _ List.mem_cons_self)
      rw [helsewhere path hsource htarget, remaining_concat hsource]
      exact h.elsewhere path fun other hother => hpath other (List.mem_append_left _ hother)

end Taken

/-- A file goes only where there is none, and its row is what it was, but for its path and the time
of its change. -/
def RowArrives (target : String) (old there new : Option FileRow) : Prop :=
  there = none ∧ ∃ row now, old = some row ∧ new = some (Database.movedRow now target row)

/-- The records of a moved file come along, and take the place of those about the same principals.
The others that are there stay. -/
def RecordsArrive (target : String) (old there new : List PermissionRow) : Prop :=
  ∀ row, row ∈ new ↔ (∃ moved ∈ old, row = { moved with path := target }) ∨
    (row ∈ there ∧ ∀ moved ∈ old, ¬ (moved.kind = row.kind ∧ moved.principal = row.principal))

/-- Records that come to a path take the place of those there about the same principals. -/
theorem Database.repointRecords_records {db after : Database} {path newPath : String}
    (h : db.repointRecords path newPath = .ok after) (hne : path ≠ newPath) :
    after.recordRowsAt path = [] ∧
      RecordsArrive newPath (db.recordRowsAt path) (db.recordRowsAt newPath)
        (after.recordRowsAt newPath) := by
  obtain ⟨rows, hrows, h⟩ := bind_eq_ok.1 h
  obtain ⟨-, hrows⟩ := permissionRows_eq_ok.1 hrows
  obtain rfl := Except.ok.inj h
  have hat : ∀ p, db.recordRowsAt p = rows.filter (·.path = p) := fun p => by
    rw [recordRowsAt, hrows, Option.getD_some]
  rw [hat, hat, recordRowsAt, recordRowsAt, withPermissions, Option.getD_some]
  refine ⟨List.filter_eq_nil_iff.2 fun row hrow => ?_, fun row => ⟨fun hrow => ?_, ?_⟩⟩
  · obtain ⟨old, -, rfl⟩ := List.mem_map.1 hrow
    by_cases hold : old.path = path
    · simp [hold, Ne.symm hne]
    · simp [hold]
  · obtain ⟨hrow, hon⟩ := List.mem_filter.1 hrow
    obtain ⟨old, hold, rfl⟩ := List.mem_map.1 hrow
    obtain ⟨hold, hkept⟩ := List.mem_filter.1 hold
    by_cases hpath : old.path = path
    · rw [if_pos hpath]
      exact Or.inl ⟨old, List.mem_filter.2 ⟨hold, decide_eq_true hpath⟩, rfl⟩
    · rw [if_neg hpath] at hon ⊢
      refine Or.inr ⟨List.mem_filter.2 ⟨hold, hon⟩, fun moved hmoved hsame => ?_⟩
      obtain ⟨hmoved, hfrom⟩ := List.mem_filter.1 hmoved
      have hreplaced : rows.any (fun other => other.path = path && other.kind = old.kind &&
          other.principal = old.principal) = true :=
        List.any_eq_true.2 ⟨moved, hmoved, by simp [of_decide_eq_true hfrom, hsame]⟩
      simp [of_decide_eq_true hon, hreplaced] at hkept
  · rintro (⟨moved, hmoved, rfl⟩ | ⟨hrow, hnone⟩)
    · obtain ⟨hmoved, hfrom⟩ := List.mem_filter.1 hmoved
      have hpath : moved.path = path := of_decide_eq_true hfrom
      refine List.mem_filter.2
        ⟨List.mem_map.2 ⟨moved, List.mem_filter.2 ⟨hmoved, ?_⟩, if_pos hpath⟩, decide_eq_true rfl⟩
      simp [hpath, hne]
    · obtain ⟨hrow, hon⟩ := List.mem_filter.1 hrow
      have hpath : ¬row.path = path := fun e => hne (e.symm.trans (of_decide_eq_true hon))
      refine List.mem_filter.2
        ⟨List.mem_map.2 ⟨row, List.mem_filter.2 ⟨hrow, ?_⟩, if_neg hpath⟩, hon⟩
      have hkept : rows.any (fun other => other.path = path && other.kind = row.kind &&
          other.principal = row.principal) = false := by
        refine List.any_eq_false.2 fun moved hmoved hsame => ?_
        obtain ⟨⟨hfrom, hkind⟩, hprincipal⟩ := by simpa using hsame
        exact hnone moved (List.mem_filter.2 ⟨hmoved, decide_eq_true hfrom⟩) ⟨hkind, hprincipal⟩
      simp [hkept]

/-- A moved file takes the records on its path along. -/
theorem Database.moveFile_records {db after : Database} {now : Timestamp} {path newPath : String}
    (h : db.moveFile now path newPath = .ok after) (hne : path ≠ newPath) :
    after.recordRowsAt path = [] ∧
      RecordsArrive newPath (db.recordRowsAt path) (db.recordRowsAt newPath)
        (after.recordRowsAt newPath) := by
  obtain ⟨mid, hmid, h⟩ := bind_eq_ok.1 h
  obtain ⟨_, -, -, hrevised⟩ := reviseFile_becomes hmid
  obtain ⟨hleft, harrived⟩ := repointRecords_records h hne
  rw [hrevised.records path List.not_mem_nil, hrevised.records newPath List.not_mem_nil] at harrived
  exact ⟨hleft, harrived⟩

theorem Database.permissionRows_of_moveFile {db after : Database} {now : Timestamp}
    {path newPath : String} (h : db.moveFile now path newPath = .ok after) :
    ∃ records, after.permissionRows = .ok records := by
  obtain ⟨mid, -, h⟩ := bind_eq_ok.1 h
  obtain ⟨rows, hrows, h⟩ := bind_eq_ok.1 h
  obtain rfl := Except.ok.inj h
  exact ⟨_, permissionRows_eq_ok.2 ⟨(permissionRows_eq_ok.1 hrows).1, rfl⟩⟩

/-! ## Moves in turn -/

namespace Service

variable {σ : Type} {service : Service σ} {identity : Identity} {before db after : Database}
  {moves waiting items : List MoveItem} {item : MoveItem}

/-- The moves that have been made by calls to move files. -/
def movesOf (calls : List (MoveItem × Except DriveError Unit)) : List MoveItem :=
  (calls.filter (·.2.isOk)).map (·.1)

theorem mem_movesOf {calls : List (MoveItem × Except DriveError Unit)} {moved : String → Bool}
    (h : ∀ one ∈ calls, moved one.1.source = one.2.isOk) :
    item ∈ movesOf calls ↔ item ∈ calls.map (·.1) ∧ moved item.source = true := by
  unfold movesOf
  constructor
  · intro hitem
    obtain ⟨one, hone, rfl⟩ := List.mem_map.1 hitem
    obtain ⟨hone, hok⟩ := List.mem_filter.1 hone
    exact ⟨List.mem_map_of_mem hone, (h one hone).trans hok⟩
  · rintro ⟨hitem, hmoved⟩
    obtain ⟨one, hone, rfl⟩ := List.mem_map.1 hitem
    exact List.mem_map_of_mem (List.mem_filter.2 ⟨hone, (h one hone).symm.trans hmoved⟩)

@[simp] theorem movesOf_ok (calls : List (MoveItem × Except DriveError Unit)) (item : MoveItem) :
    movesOf (calls ++ [(item, .ok ())]) = movesOf calls ++ [item] := by
  simp [movesOf, Except.isOk, Except.toBool]

@[simp] theorem movesOf_error (calls : List (MoveItem × Except DriveError Unit)) (item : MoveItem)
    (e : DriveError) : movesOf (calls ++ [(item, .error e)]) = movesOf calls := by
  simp [movesOf, Except.isOk, Except.toBool]

theorem movesOf_congr (calls : List (MoveItem × Except DriveError Unit)) (item : MoveItem)
    {result other : Except DriveError Unit} (h : result.isOk = other.isOk) :
    movesOf (calls ++ [(item, result)]) = movesOf (calls ++ [(item, other)]) := by
  cases result with
  | error e =>
    cases other with
    | error e' => rw [movesOf_error, movesOf_error]
    | ok _ => cases h
  | ok _ =>
    cases other with
    | error e' => cases h
    | ok _ => rfl

/-- The metadata when some moves have been made and others are still to come. What is to be moved
goes by none of the moves that have been made. -/
structure Rearranged (before : Database) (moves waiting : List MoveItem) (db : Database) :
    Prop where
  rows : Taken none RowArrives moves before.rowAt db.rowAt
  records : Taken [] RecordsArrive moves before.recordRowsAt db.recordRowsAt
  rest : db.rest = before.rest
  legible : before.Legible → db.Legible
  readable : ∀ rows, before.permissionRows = .ok rows → ∃ rows, db.permissionRows = .ok rows
  new : ∀ item ∈ waiting, item.NewTo moves

theorem Rearranged.refl (before : Database) (waiting : List MoveItem) :
    Rearranged before [] waiting before :=
  ⟨.refl _ _ _, .refl _ _ _, rfl, id, fun rows h => ⟨rows, h⟩,
    fun _ _ => ⟨fun _ h => absurd h List.not_mem_nil, fun _ h => absurd h List.not_mem_nil⟩⟩

/-- A file that could not be moved is where it was. -/
theorem Rearranged.failed (h : Rearranged before moves (item :: waiting) db) :
    Rearranged before moves waiting db :=
  ⟨h.rows, h.records, h.rest, h.legible, h.readable,
    fun other hother => h.new other (List.mem_cons_of_mem item hother)⟩

/-- Files that can be moved side by side: each is stored, and they have different paths and
different new paths. -/
structure SideBySide (before : Database) (items : List MoveItem) : Prop where
  stored : ∀ item ∈ items, ∃ row, before.rowAt item.source = some row
  canonical : ∀ item ∈ items, Path.Canonical item.target
  apart : ∀ item ∈ items, item.source ≠ item.target
  sources : (items.map MoveItem.source).Nodup
  targets : (items.map MoveItem.target).Nodup

theorem SideBySide.tail (h : SideBySide before (item :: waiting)) : SideBySide before waiting :=
  ⟨fun other hother => h.stored other (List.mem_cons_of_mem item hother),
    fun other hother => h.canonical other (List.mem_cons_of_mem item hother),
    fun other hother => h.apart other (List.mem_cons_of_mem item hother),
    (List.nodup_cons.1 h.sources).2, (List.nodup_cons.1 h.targets).2⟩

/-- A file that was moved has gone with its records, and only where there was no file at that
moment. -/
theorem Rearranged.moved {now : Timestamp} (h : Rearranged before moves (item :: waiting) db)
    (hside : SideBySide before (item :: waiting))
    (hmoved : db.moveFile now item.source item.target = .ok after) :
    Rearranged before (moves ++ [item]) waiting after := by
  have hnew : item.NewTo moves := h.new item List.mem_cons_self
  have hapart : item.source ≠ item.target := hside.apart item List.mem_cons_self
  obtain ⟨row, hrow, hfree, hbecomes⟩ := Database.moveFile_becomes hmoved
  obtain ⟨hleft, hrecords⟩ := Database.moveFile_records hmoved hapart
  have hvacant : db.rowAt item.target = none := hfree hapart
  refine ⟨?_, ?_, hbecomes.rest.trans h.rest, fun hl => hbecomes.legible (h.legible hl),
    fun _ _ => Database.permissionRows_of_moveFile hmoved, fun other hother => ?_⟩
  · refine h.rows.step hnew hapart ⟨hvacant, row, now, hrow, ?_⟩ ?_ ?_
    · rw [hbecomes.rowAt, Function.update_self]
    · rw [hbecomes.rowAt, Function.update_of_ne hapart, Function.update_self]
    · intro path hs ht
      rw [hbecomes.rowAt, Function.update_of_ne (Ne.symm ht), Function.update_of_ne (Ne.symm hs)]
  · refine h.records.step hnew hapart hrecords hleft fun path hs ht => ?_
    exact hbecomes.records path (by simp [Ne.symm hs, Ne.symm ht])
  · obtain ⟨there, hthere⟩ := hside.stored other (List.mem_cons_of_mem item hother)
    have hothers := h.new other (List.mem_cons_of_mem item hother)
    have hs : item.source ≠ other.source := fun e =>
      (List.nodup_cons.1 hside.sources).1 (e ▸ List.mem_map_of_mem hother)
    have ht : item.target ≠ other.target := fun e =>
      (List.nodup_cons.1 hside.targets).1 (e ▸ List.mem_map_of_mem hother)
    -- Where a file still waits there is one, so no other was moved there.
    have hacross : item.target ≠ other.source := by
      intro e
      rw [← h.rows.source_eq hothers, ← e, hvacant] at hthere
      cases hthere
    exact hothers.append hs hacross ht

/-- What was offered to be moved from one directory to another can be moved side by side. -/
theorem sideBySide_of_offered {source target : String} {items : List MoveItem}
    (hshaped : Shaped (fun _ => True) before.rowAt) (hs : Path.Canonical source)
    (ht : Path.Canonical target) (hne : source ≠ target)
    (hoffered : ∀ item ∈ items, item.Offered service identity before source target)
    (hsources : (items.map MoveItem.source).Nodup) : SideBySide before items := by
  have hback : ∀ item ∈ items, Path.rebase item.target target source = some item.source := by
    intro item hitem
    have hitem := hoffered item hitem
    obtain ⟨row, hrow⟩ := hitem.row
    have hadmissible := hshaped.admissible item.source row hrow
    exact Path.rebase_back hadmissible.canonical hs ht
      (ne_of_stored hitem.below hadmissible.notRoot) hitem.rebase_eq
  refine ⟨fun item hitem => (hoffered item hitem).row,
    fun item hitem => Path.canonical_of_rebase ht (hoffered item hitem).rebase_eq,
    fun item hitem => (hoffered item hitem).apart hs ht hne, hsources, ?_⟩
  apply List.Nodup.of_map fun path => Path.rebase path target source
  have hmap : (items.map MoveItem.target).map (fun path => Path.rebase path target source) =
      (items.map MoveItem.source).map some := by
    rw [List.map_map, List.map_map]
    exact List.map_congr_left hback
  rw [hmap]
  exact hsources.map fun _ _ e => Option.some.inj e

/-! ## The moves of a directory -/

/-- What an accepted request to move the files of a directory deals with: an item for each file that
it picks, in the order of their paths. -/
structure Itemized (service : Service σ) (identity : Identity) (db : Database)
    (source target : String) (names : Option (List String)) (items : List MoveItem)
    (newPath : String → String) : Prop where
  readable : db.Readable
  ordered : (items.map MoveItem.source).Pairwise (· < ·)
  picked : ∀ p, p ∈ items.map MoveItem.source ↔
    (∃ row, db.rowAt p = some row) ∧ Path.Picked source names p
  rebased : ∀ p ∈ items.map MoveItem.source, Path.rebase p source target = some (newPath p)
  target_eq : ∀ item ∈ items, item.target = newPath item.source
  side : SideBySide db items
  apart : source ≠ target
  into : Path.isBelow target source = false
  offered : ∀ item ∈ items, item.Offered service identity db source target
  held : ∃ paths permitted, service.resolver.onPaths db paths identity = .ok permitted ∧
    ∀ item ∈ items, (item.target, item.heldTarget) ∈ permitted

/-- In a drive in order, an accepted request to move a directory moves its items in turn. -/
theorem Ordered.itemized {drive left : Drive σ} {source target : String}
    {names : Option (List String)} {report : BatchReport} (hordered : Ordered drive.db)
    (haccepted : (service.movePath identity source target names).on drive = (.ok report, left))
    (hfree : drive.db.rowAt (Path.normalize source) = none) :
    ∃ items newPath, Itemized service identity drive.db (Path.normalize source)
        (Path.normalize target) names items newPath ∧
      report = .ofCalls MoveItem.source MoveItem.target (inTurn service.moveItem items drive).1 ∧
      left = (inTurn service.moveItem items drive).2 := by
  have hshaped := hordered.shaped
  have hs := Path.canonical_normalize source
  obtain ⟨found, items, paths, permitted, hfound, hsome, hinto, hitems, hpermitted, hoffered,
    hreport, hleft⟩ := movePath_directory hordered.keyed haccepted hfree
  obtain ⟨hpaths, hpicked⟩ := picked_spec hordered.keyed hshaped hs hfree hfound hsome
  rw [← hitems] at hpaths hpicked
  refine ⟨items, fun p => (Path.rebase p (Path.normalize source) (Path.normalize target)).getD p,
    ⟨Database.readable_of_filesAt hfound, hpaths, hpicked, fun p hp => ?_, fun item hitem => ?_,
      ?_, fun e => hinto (Or.inl e), ?_, fun item hitem => (hoffered item hitem).1,
      paths, permitted, hpermitted, fun item hitem => (hoffered item hitem).2⟩, hreport, hleft⟩
  · obtain ⟨item, hitem, rfl⟩ := List.mem_map.1 hp
    rw [(hoffered item hitem).1.rebase_eq, Option.getD_some]
  · exact (hoffered item hitem).1.target_eq
  · exact sideBySide_of_offered hshaped hs (Path.canonical_normalize target)
      (fun e => hinto (Or.inl e)) (fun item hitem => (hoffered item hitem).1)
      (hpaths.imp ne_of_lt)
  · rw [← Bool.not_eq_true]
    exact fun hbelow => hinto (Or.inr hbelow)

end Service

end FileDrive
