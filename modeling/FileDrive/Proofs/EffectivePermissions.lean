import FileDrive.Access
import FileDrive.Proofs.Tables

/-!
# Effective permissions

What the records give is a statement about sets: a capability is granted when a record that applies
allows it and none denies it (`has_granted`), so that the order of records, and records off the
chain, do not matter (`granted_congr`). From this the three ways to ask for effective permissions
agree: what is given for many files (`onPath_of_onFiles`) or for many paths without a file
(`onPath_of_onPaths`) is what is given for each path by itself.
-/

namespace FileDrive

variable {c : Capability} {identity : Identity} {chain : List String}
  {records others : List PermissionRecord}

theorem Permissions.has_union {ps : List Permissions} :
    (Permissions.union ps).has c = true ↔ ∃ p ∈ ps, p.has c = true := by
  induction ps with
  | nil => simp [Permissions.union]
  | cons p ps ih =>
    rw [show Permissions.union (p :: ps) = p.add (Permissions.union ps) from rfl,
      Permissions.has_add, Bool.or_eq_true, ih]
    simp

/-! ## Counting records -/

namespace Tally

/-- One more record adds what it allows and denies, to whichever part, if it is about the caller. -/
theorem count_has (identity : Identity) (tally : Tally) (record : PermissionRecord) :
    (tally.count identity record).allowed.has c =
        (tally.allowed.has c || record.appliesTo identity && record.allow.has c) ∧
      (tally.count identity record).denied.has c =
        (tally.denied.has c || record.appliesTo identity && record.deny.has c) := by
  unfold count PermissionRecord.appliesTo
  cases record.kind with
  | everyone => simp [allowed, denied, addGroup, Bool.or_right_comm]
  | group =>
    dsimp only
    split
    · next hin => simp [allowed, denied, addGroup, hin, Bool.or_right_comm]
    · next hout => simp [hout]
  | user =>
    dsimp only
    split
    · next hself => simp [allowed, denied, addUser, hself, Bool.or_assoc]
    · next hother => simp [hother]

theorem foldl_count_has (identity : Identity) (counted : List PermissionRecord) (tally : Tally) :
    (counted.foldl (count identity) tally).allowed.has c =
        (tally.allowed.has c || (Permissions.union
          ((counted.filter (·.appliesTo identity)).map (·.allow))).has c) ∧
      (counted.foldl (count identity) tally).denied.has c =
        (tally.denied.has c || (Permissions.union
          ((counted.filter (·.appliesTo identity)).map (·.deny))).has c) := by
  induction counted generalizing tally with
  | nil => simp [Permissions.union]
  | cons record counted ih =>
    obtain ⟨hallow, hdeny⟩ := count_has (c := c) identity tally record
    obtain ⟨hallowed, hdenied⟩ := ih (tally.count identity record)
    rw [List.foldl_cons, hallowed, hdenied, hallow, hdeny, List.filter_cons]
    split
    · next happlies => simp [Permissions.union, happlies, Bool.or_assoc]
    · next hnot => simp [hnot]

end Tally

/-- Counted together, the records give all that one of them allows, less all that one of them
denies. -/
theorem granted_eq_union :
    granted chain records identity =
      let applied := chain.flatMap fun level =>
        records.filter fun record => record.path = level && record.appliesTo identity
      (Permissions.union (applied.map (·.allow))).remove
        (Permissions.union (applied.map (·.deny))) := by
  dsimp only
  have happlied : (chain.flatMap fun level =>
      records.filter fun record => record.path = level && record.appliesTo identity) =
        (chain.flatMap fun level => records.filter (·.path = level)).filter
          (·.appliesTo identity) := by
    rw [List.filter_flatMap]
    simp only [List.filter_filter, Bool.and_comm]
  refine Permissions.ext fun c => ?_
  rw [granted, ← List.foldl_flatMap, happlied, Tally.result, Permissions.has_remove,
    Permissions.has_remove]
  obtain ⟨hallowed, hdenied⟩ := Tally.foldl_count_has (c := c) identity
    (chain.flatMap fun level => records.filter (·.path = level)) .zero
  rw [hallowed, hdenied]
  simp [Tally.zero, Tally.allowed, Tally.denied]

/-! ## Sets of records -/

/-- A record counts on a chain of paths for the caller. -/
def PermissionRecord.CountsOn (record : PermissionRecord) (chain : List String)
    (identity : Identity) : Prop :=
  record.path ∈ chain ∧ record.appliesTo identity = true

/-- Some record allows a capability, and none denies it. -/
theorem has_granted :
    (granted chain records identity).has c = true ↔
      (∃ r ∈ records, r.CountsOn chain identity ∧ r.allow.has c = true) ∧
        ∀ r ∈ records, r.CountsOn chain identity → r.deny.has c = false := by
  have happlied : ∀ r : PermissionRecord,
      r ∈ (chain.flatMap fun level =>
        records.filter fun record => record.path = level && record.appliesTo identity) ↔
        r ∈ records ∧ r.CountsOn chain identity := by
    intro r
    simp only [List.mem_flatMap, List.mem_filter, Bool.and_eq_true, decide_eq_true_eq,
      PermissionRecord.CountsOn]
    constructor
    · rintro ⟨level, hlevel, hr, rfl, ha⟩
      exact ⟨hr, hlevel, ha⟩
    · rintro ⟨hr, hlevel, ha⟩
      exact ⟨r.path, hlevel, hr, rfl, ha⟩
  rw [granted_eq_union, Permissions.has_remove, Bool.and_eq_true, Bool.not_eq_true', Permissions.has_union,
    ← Bool.not_eq_true, Permissions.has_union]
  simp only [List.mem_map, exists_exists_and_eq_and, happlied]
  constructor
  · rintro ⟨⟨r, ⟨hr, hc⟩, ha⟩, hnone⟩
    refine ⟨⟨r, hr, hc, ha⟩, fun r hr hc => ?_⟩
    rw [← Bool.not_eq_true]
    exact fun hd => hnone ⟨r, ⟨hr, hc⟩, hd⟩
  · rintro ⟨⟨r, hr, hc, ha⟩, hnone⟩
    refine ⟨⟨r, ⟨hr, hc⟩, ha⟩, ?_⟩
    rintro ⟨r, ⟨hr, hc⟩, hd⟩
    rw [hnone r hr hc] at hd
    exact Bool.false_ne_true hd

/-- Only the records on the chain matter, and not their order. -/
theorem granted_congr (h : ∀ r : PermissionRecord, r.path ∈ chain → (r ∈ records ↔ r ∈ others)) :
    granted chain records identity = granted chain others identity := by
  refine Permissions.ext fun c => ?_
  rw [Bool.eq_iff_iff, has_granted, has_granted]
  constructor
  · rintro ⟨⟨r, hr, hc, ha⟩, hnone⟩
    exact ⟨⟨r, (h r hc.1).1 hr, hc, ha⟩, fun r hr hc => hnone r ((h r hc.1).2 hr) hc⟩
  · rintro ⟨⟨r, hr, hc, ha⟩, hnone⟩
    exact ⟨⟨r, (h r hc.1).2 hr, hc, ha⟩, fun r hr hc => hnone r ((h r hc.1).1 hr) hc⟩

/-- A list of answers has the answer for each item and no other. -/
theorem mapM_eq_ok {ε α β : Type} {f : α → Except ε β} {items : List α} {answers : List β}
    (h : items.mapM f = .ok answers) :
    (∀ a ∈ items, ∃ b, f a = .ok b) ∧ ∀ b, b ∈ answers ↔ ∃ a ∈ items, f a = .ok b := by
  induction items generalizing answers with
  | nil =>
    rw [List.mapM_nil] at h
    obtain rfl := Except.ok.inj h
    simp
  | cons a items ih =>
    rw [List.mapM_cons] at h
    obtain ⟨b, hb, h⟩ := bind_eq_ok.1 h
    obtain ⟨bs, hbs, h⟩ := bind_eq_ok.1 h
    obtain rfl := Except.ok.inj h
    obtain ⟨hall, hmem⟩ := ih hbs
    refine ⟨fun x hx => ?_, fun y => ?_⟩
    · rcases List.mem_cons.1 hx with rfl | hx
      · exact ⟨b, hb⟩
      · exact hall x hx
    · rw [List.mem_cons, hmem]
      simp only [List.mem_cons, exists_eq_or_imp, hb, Except.ok.injEq]
      exact or_congr_left eq_comm

theorem exists_mapM_eq_ok {ε α β : Type} {f : α → Except ε β} {l : List α}
    (h : ∀ a ∈ l, ∃ b, f a = .ok b) : ∃ answers, l.mapM f = .ok answers := by
  induction l with
  | nil => exact ⟨[], by rw [List.mapM_nil]; rfl⟩
  | cons a l ih =>
    obtain ⟨b, hb⟩ := h a (by simp)
    obtain ⟨bs, hbs⟩ := ih fun x hx => h x (by simp [hx])
    exact ⟨b :: bs, by rw [List.mapM_cons, hb, hbs]; rfl⟩

namespace Database

variable {db : Database} {path : String} {paths : List String}

theorem recordsOf_eq_ok {rows : List PermissionRow} (h : recordsOf rows = .ok records) :
    (∀ row ∈ rows, ∃ r, row.record = .ok r) ∧
      ∀ r, r ∈ records ↔ ∃ row ∈ rows, row.record = .ok r := by
  rcases hm : (rows.mergeSort rowOrder).mapM PermissionRow.record with e | found
  · rw [recordsOf, hm] at h
    cases h
  · rw [recordsOf, hm] at h
    obtain rfl : found = records := Except.ok.inj h
    simpa only [(List.mergeSort_perm rows rowOrder).mem_iff] using mapM_eq_ok hm

theorem exists_recordsOf_eq_ok {l : List PermissionRow}
    (h : ∀ row ∈ l, ∃ r, row.record = .ok r) : ∃ records, recordsOf l = .ok records := by
  obtain ⟨found, hfound⟩ := exists_mapM_eq_ok (l := l.mergeSort rowOrder)
    fun row hrow => h row ((List.mergeSort_perm l rowOrder).mem_iff.1 hrow)
  exact ⟨found, by rw [recordsOf, hfound]; rfl⟩

/-- What has replaced the records on a path can be read back. -/
theorem recordsAt_of_replaceRecords {after : Database}
    (h : db.replaceRecords path records = .ok after) :
    ∃ found, after.recordsAt path = .ok found := by
  unfold replaceRecords at h
  split at h
  case h_1 => cases h
  case h_2 =>
    obtain ⟨rows, hrows, h⟩ := bind_eq_ok.1 h
    obtain ⟨hopen, -⟩ := permissionRows_eq_ok.1 hrows
    obtain rfl := Except.ok.inj h
    obtain ⟨found, hfound⟩ := exists_recordsOf_eq_ok
      (l := (records.foldl withRecord (rows.filter (·.path ≠ path))).filter (·.path = path))
      fun row hrow => by
        obtain ⟨hmem, hat⟩ := List.mem_filter.1 hrow
        rcases mem_foldl_withRecord hmem with hold | ⟨record, rfl⟩
        · exact absurd (of_decide_eq_true hat) (of_decide_eq_true (List.mem_filter.1 hold).2)
        · exact record_ofRecord record
    have hread : (db.withPermissions
        (records.foldl withRecord (rows.filter (·.path ≠ path)))).permissionRows = .ok _ :=
      permissionRows_eq_ok.2 ⟨hopen, rfl⟩
    exact ⟨found, by rw [recordsAt, hread]; exact hfound⟩

theorem path_of_record {row : PermissionRow} {r : PermissionRecord} (h : row.record = .ok r) :
    r.path = row.path := by
  obtain ⟨kind, -, h⟩ := bind_eq_ok.1 h
  rw [← Except.ok.inj h]

/-- The records on some paths are those that the rows on these paths stand for. -/
theorem recordsOn_eq_ok (hpaths : paths ≠ []) (h : db.recordsOn paths = .ok records) :
    db.isOpen = true ∧ ∃ rows, db.permissions = some rows ∧
      (∀ row ∈ rows, row.path ∈ paths → ∃ r, row.record = .ok r) ∧
      ∀ r, r ∈ records ↔ ∃ row ∈ rows, row.path ∈ paths ∧ row.record = .ok r := by
  rw [recordsOn, if_neg (by simpa using hpaths)] at h
  obtain ⟨rows, hrows, h⟩ := bind_eq_ok.1 h
  obtain ⟨hopen, hrows⟩ := permissionRows_eq_ok.1 hrows
  obtain ⟨hall, hmem⟩ := recordsOf_eq_ok h
  refine ⟨hopen, rows, hrows, fun row hrow hpath => ?_, fun r => ?_⟩
  · exact hall row (List.mem_filter.2 ⟨hrow, by simpa using hpath⟩)
  · rw [hmem]
    simp only [List.mem_filter, List.contains_iff_mem, and_assoc]

theorem path_mem_of_recordsOn {r : PermissionRecord} (hpaths : paths ≠ [])
    (h : db.recordsOn paths = .ok records) (hr : r ∈ records) : r.path ∈ paths := by
  obtain ⟨-, rows, -, -, hmem⟩ := recordsOn_eq_ok hpaths h
  obtain ⟨row, -, hon, hrecord⟩ := (hmem r).1 hr
  exact path_of_record hrecord ▸ hon

/-- When the records on some paths can be read, so can those on fewer paths, and they are the
same. -/
theorem recordsOn_of_subset {fewer : List String} (hpaths : paths ≠ []) (hfewer : fewer ≠ [])
    (hsub : ∀ p ∈ fewer, p ∈ paths) (h : db.recordsOn paths = .ok records) :
    ∃ found, db.recordsOn fewer = .ok found ∧
      ∀ r : PermissionRecord, r.path ∈ fewer → (r ∈ records ↔ r ∈ found) := by
  obtain ⟨hopen, rows, hrows, hall, hmem⟩ := recordsOn_eq_ok hpaths h
  obtain ⟨found, hfound⟩ := exists_recordsOf_eq_ok (l := rows.filter (fewer.contains ·.path))
    fun row hrow => by
      rw [List.mem_filter, List.contains_iff_mem] at hrow
      exact hall row hrow.1 (hsub _ hrow.2)
  have hread : db.recordsOn fewer = .ok found := by
    rw [recordsOn, if_neg (by simpa using hfewer), permissionRows_eq_ok.2 ⟨hopen, hrows⟩]
    exact hfound
  obtain ⟨-, rows', hrows', -, hmem'⟩ := recordsOn_eq_ok hfewer hread
  obtain rfl : rows = rows' := Option.some.inj (hrows.symm.trans hrows')
  refine ⟨found, hread, fun r hr => ?_⟩
  rw [hmem, hmem']
  constructor
  · rintro ⟨row, hrow, -, hrec⟩
    exact ⟨row, hrow, path_of_record hrec ▸ hr, hrec⟩
  · rintro ⟨row, hrow, hpath, hrec⟩
    exact ⟨row, hrow, hsub _ hpath, hrec⟩

end Database

namespace Resolver

variable {db : Database} {resolver : Resolver} {path : String} {held : Permissions}

/-- The caller effectively holds a capability on a path. -/
def Permits (resolver : Resolver) (db : Database) (identity : Identity) (c : Capability)
    (path : String) : Prop :=
  ∃ held, resolver.onPath db path identity = .ok held ∧ held.has c = true

theorem not_permits_of_held {c : Capability}
    (h : (resolver.onPath db path identity).toOption.map (·.has c) = some false) :
    ¬ resolver.Permits db identity c path := by
  rintro ⟨held, hheld, hhas⟩
  rw [hheld] at h
  have hnot : held.has c = false := Option.some.inj h
  rw [hnot] at hhas
  cases hhas

theorem ancestors_ne_nil (path : String) : Path.ancestors path ≠ [] := List.cons_ne_nil _ _

/-- What is held on a path follows from the owner of the file there and the records on its chain. -/
theorem onPath_eq {rows : List FileRow} (hrows : db.fileRows = .ok rows)
    (h : db.recordsOn (Path.ancestors path) = .ok records) :
    resolver.onPath db path identity =
      .ok (resolver.resolve path identity ((db.rowAt path).map (·.ownerId)) records) := by
  have howner : db.ownerOf path = .ok ((db.rowAt path).map (·.ownerId)) := by
    rw [Database.ownerOf, hrows, Database.rowAt_of_files (Database.fileRows_eq_ok.1 hrows).2]
    rfl
  unfold onPath resolve
  by_cases hadmin : resolver.isAdmin identity = true
  · rw [if_pos hadmin, if_pos hadmin]
  · rw [if_neg hadmin, if_neg hadmin, howner]
    by_cases howns : ((db.rowAt path).map (·.ownerId)).any identity.owns = true
    · rw [if_pos howns]
      change (if _ then _ else _) = _
      rw [if_pos howns]
      rfl
    · rw [if_neg howns]
      change (if _ then _ else _) = _
      rw [if_neg howns, h]
      rfl

theorem resolve_congr {owner : Option String}
    (h : ∀ r : PermissionRecord, r.path ∈ Path.ancestors path → (r ∈ records ↔ r ∈ others)) :
    resolver.resolve path identity owner records = resolver.resolve path identity owner others := by
  rw [resolve, resolve, granted_congr h]

theorem mem_chains {paths : List String} {a : String} :
    a ∈ chains paths ↔ ∃ p ∈ paths, a ∈ Path.ancestors p := by
  rw [chains, List.mem_eraseDups, List.mem_flatMap]

theorem onPath_of_admin (h : resolver.isAdmin identity = true) :
    resolver.onPath db path identity = .ok .all := by
  rw [onPath, if_pos h]

/-- What is read for a chain among others is what is held on the path at its end. -/
theorem onPath_of_chains {rows : List FileRow} {paths : List String} {owner : Option String}
    (hrows : db.fileRows = .ok rows) (h : db.recordsOn (chains paths) = .ok records)
    (hpath : path ∈ paths) (howner : (db.rowAt path).map (·.ownerId) = owner) :
    resolver.onPath db path identity = .ok (resolver.resolve path identity owner records) := by
  have hsub : ∀ a ∈ Path.ancestors path, a ∈ chains paths := fun a ha =>
    mem_chains.2 ⟨path, hpath, ha⟩
  have hne : chains paths ≠ [] :=
    List.ne_nil_of_mem (hsub Path.root List.mem_cons_self)
  obtain ⟨found, hfound, hsame⟩ :=
    Database.recordsOn_of_subset hne (ancestors_ne_nil path) hsub h
  rw [onPath_eq hrows hfound, howner, resolve_congr hsame]

theorem map_fst_map {α β : Type} (f : α → β) (items : List α) :
    (items.map fun a => (a, f a)).map (·.1) = items := by
  rw [List.map_map]
  exact List.map_id items

/-- What is given for a list of files is what is held on the path of each, the files being those in
the metadata. -/
theorem onPath_of_onFiles {rows : List FileRow} {files : List File}
    {permitted : List (File × Permissions)} (hrows : db.fileRows = .ok rows)
    (h : resolver.onFiles db files identity = .ok permitted)
    (hfiles : ∀ file ∈ files, (db.rowAt file.path).map (·.ownerId) = some file.ownerId) :
    permitted.map (·.1) = files ∧
      ∀ item ∈ permitted, resolver.onPath db item.1.path identity = .ok item.2 := by
  unfold onFiles at h
  split at h
  case isTrue hadmin =>
    obtain rfl := Except.ok.inj h
    refine ⟨map_fst_map _ _, fun item hitem => ?_⟩
    obtain ⟨file, -, rfl⟩ := List.mem_map.1 hitem
    exact onPath_of_admin hadmin
  case isFalse hadmin =>
    obtain ⟨records, hrecords, h⟩ := bind_eq_ok.1 h
    obtain rfl := Except.ok.inj h
    refine ⟨map_fst_map _ _, fun item hitem => ?_⟩
    obtain ⟨file, hfile, rfl⟩ := List.mem_map.1 hitem
    exact onPath_of_chains hrows hrecords (List.mem_map_of_mem hfile) (hfiles file hfile)

/-- What is given for a list of paths is what is held on each that has no file. -/
theorem onPath_of_onPaths {rows : List FileRow} {paths : List String}
    {permitted : List (String × Permissions)} (hrows : db.fileRows = .ok rows)
    (h : resolver.onPaths db paths identity = .ok permitted) :
    permitted.map (·.1) = paths ∧
      ∀ item ∈ permitted, db.rowAt item.1 = none →
        resolver.onPath db item.1 identity = .ok item.2 := by
  unfold onPaths at h
  split at h
  case isTrue hadmin =>
    obtain rfl := Except.ok.inj h
    refine ⟨map_fst_map _ _, fun item hitem _ => ?_⟩
    obtain ⟨path, -, rfl⟩ := List.mem_map.1 hitem
    exact onPath_of_admin hadmin
  case isFalse hadmin =>
    obtain ⟨records, hrecords, h⟩ := bind_eq_ok.1 h
    obtain rfl := Except.ok.inj h
    refine ⟨map_fst_map _ _, fun item hitem hfree => ?_⟩
    obtain ⟨path, hpath, rfl⟩ := List.mem_map.1 hitem
    exact onPath_of_chains hrows hrecords hpath (by rw [hfree]; rfl)

end Resolver

end FileDrive
