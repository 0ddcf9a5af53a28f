import FileDrive.Proofs.Logins
import FileDrive.Proofs.RenamesAgree
import Mathlib.Data.Prod.Lex
import Mathlib.Data.String.Basic

/-!
# The table of records

Whoever writes to the table of records, there is at most one record for a principal on a path in it,
and everyone is one principal (`OnePerPrincipal`). Of the records that replace those on a path, the
last one about each principal counts (`mem_foldl_withRecord_iff`), and they are read back in the
order of the principals (`recordsOf_ordered`).
-/

namespace FileDrive

open FileDrive.DriveM FileDrive.Time

/-- No two rows are about the same principal on the same path, and everyone is one principal. -/
structure OnePerPrincipal (rows : List PermissionRow) : Prop where
  unique : (rows.map (·.key)).Nodup
  everyone : ∀ row ∈ rows, row.kind = PrincipalKind.everyone.name → row.principal = ""

variable {rows : List PermissionRow} {row : PermissionRow} {record : PermissionRecord}
  {records : List PermissionRecord}

theorem onePerPrincipal_nil : OnePerPrincipal [] := ⟨List.nodup_nil, nofun⟩

theorem OnePerPrincipal.filter (h : OnePerPrincipal rows) (keep : PermissionRow → Bool) :
    OnePerPrincipal (rows.filter keep) :=
  ⟨h.unique.sublist (List.filter_sublist.map _), fun row hrow =>
    h.everyone row (List.mem_of_mem_filter hrow)⟩

theorem OnePerPrincipal.repointed (h : OnePerPrincipal rows) (source target : String) :
    OnePerPrincipal (Database.repointedRows rows source target) := by
  by_cases hsame : source = target
  · subst hsame
    rw [Rename.repointedRows_self]
    exact h.filter _
  · refine ⟨(Database.foldlM_unreplaced h.unique hsame (List.Perm.refl _)).2, fun row hrow => ?_⟩
    obtain ⟨old, hold, rfl⟩ := List.mem_map.1 hrow
    have heveryone := h.everyone old (List.mem_of_mem_filter hold)
    split_ifs
    · exact heveryone
    · exact heveryone

/-! ## Putting records -/

theorem PermissionRow.sameKey_iff {a b : PermissionRow} : a.sameKey b = true ↔ b.key = a.key := by
  unfold PermissionRow.sameKey PermissionRow.key
  simp only [Bool.and_eq_true, decide_eq_true_eq, Prod.mk.injEq, and_assoc]
  exact and_congr eq_comm (and_congr eq_comm eq_comm)

/-- A record takes the place of the one with its key, and leaves the others. -/
theorem mem_withRecord : row ∈ Database.withRecord rows record ↔
    row = .ofRecord record ∨ (row ∈ rows ∧ row.key ≠ (PermissionRow.ofRecord record).key) := by
  unfold Database.withRecord
  dsimp only
  simp only [PermissionRow.sameKey_iff]
  split
  case isTrue htaken =>
    obtain ⟨old, hold, hkey⟩ := List.any_eq_true.1 htaken
    rw [PermissionRow.sameKey_iff] at hkey
    constructor
    · intro hrow
      obtain ⟨found, hfound, rfl⟩ := List.mem_map.1 hrow
      split_ifs with hsame
      · exact Or.inl rfl
      · exact Or.inr ⟨hfound, hsame⟩
    · rintro (rfl | ⟨hrow, hne⟩)
      · exact List.mem_map.2 ⟨old, hold, if_pos hkey⟩
      · exact List.mem_map.2 ⟨row, hrow, if_neg hne⟩
  case isFalse hfree =>
    rw [List.mem_append, List.mem_singleton, or_comm]
    refine or_congr_right ⟨fun hrow => ⟨hrow, fun hkey => hfree ?_⟩, And.left⟩
    exact List.any_eq_true.2 ⟨row, hrow, PermissionRow.sameKey_iff.2 hkey⟩

theorem OnePerPrincipal.withRecord (h : OnePerPrincipal rows) (record : PermissionRecord) :
    OnePerPrincipal (Database.withRecord rows record) := by
  refine ⟨?_, fun row hrow hkind => ?_⟩
  · unfold Database.withRecord
    dsimp only
    split
    case isTrue =>
      have hkeys : (rows.map fun row => if (PermissionRow.ofRecord record).sameKey row then
          .ofRecord record else row).map (·.key) = rows.map (·.key) := by
        rw [List.map_map]
        refine List.map_congr_left fun row _ => ?_
        rw [Function.comp_apply]
        split_ifs with hsame
        · exact (PermissionRow.sameKey_iff.1 hsame).symm
        · rfl
      rw [hkeys]
      exact h.unique
    case isFalse hfree =>
      rw [List.map_append, List.map_singleton, ← List.concat_eq_append]
      refine h.unique.concat fun hkey => hfree ?_
      obtain ⟨row, hrow, hsame⟩ := List.mem_map.1 hkey
      exact List.any_eq_true.2 ⟨row, hrow, PermissionRow.sameKey_iff.2 hsame⟩
  · obtain rfl | ⟨hrow, -⟩ := mem_withRecord.1 hrow
    · change record.kind.storedPrincipal record.principal = ""
      unfold PrincipalKind.storedPrincipal
      rw [if_pos]
      have hnames : record.kind.name = PrincipalKind.everyone.name := hkind
      revert hnames
      cases record.kind <;> decide
    · exact h.everyone row hrow hkind

theorem OnePerPrincipal.foldl_withRecord (h : OnePerPrincipal rows)
    (records : List PermissionRecord) :
    OnePerPrincipal (records.foldl Database.withRecord rows) := by
  induction records generalizing rows with
  | nil => exact h
  | cons record records ih => exact ih (h.withRecord record)

/-- Of records that are put one after the other, the last one with a key is there, and a row that
was there stays when none has its key. -/
theorem mem_foldl_withRecord_iff : row ∈ records.foldl Database.withRecord rows ↔
    match records.reverse.find? fun record => (PermissionRow.ofRecord record).key = row.key with
    | some record => row = .ofRecord record
    | none => row ∈ rows := by
  induction records using List.reverseRecOn with
  | nil => rfl
  | append_singleton records record ih =>
    rw [List.foldl_append, List.foldl_cons, List.foldl_nil, mem_withRecord, ih, List.reverse_append,
      List.reverse_singleton, List.singleton_append]
    by_cases hkey : (PermissionRow.ofRecord record).key = row.key
    · simp [hkey]
    · have hne : row ≠ .ofRecord record := fun e => hkey (by rw [e])
      simp [hkey, hne, Ne.symm hkey]

/-! ## Reading records back -/

theorem record_of_ofRecord (record : PermissionRecord) : (PermissionRow.ofRecord record).record =
    .ok { record with principal := record.kind.storedPrincipal record.principal } := by
  have hkind : PrincipalKind.ofName record.kind.name = .ok record.kind := by
    rw [PrincipalKind.ofName, PrincipalKind.ofName?_name]
  unfold PermissionRow.record PermissionRow.ofRecord
  dsimp only
  rw [hkind]
  show Except.ok _ = _
  rw [Permissions.ofMask_mask, Permissions.ofMask_mask]

/-- What rows are sorted by: the path, the name of the kind of principal, the principal. -/
def PermissionRow.rank (row : PermissionRow) : String ×ₗ String ×ₗ String :=
  toLex (row.path, toLex (row.kind, row.principal))

theorem rowOrder_iff {a b : PermissionRow} : Database.rowOrder a b = true ↔ a.rank ≤ b.rank := by
  unfold Database.rowOrder PermissionRow.rank
  rw [Prod.Lex.toLex_le_toLex, Prod.Lex.toLex_le_toLex]
  split_ifs with hpath hkind
  · simp [hpath, hkind]
  · simp [hpath, hkind, le_iff_lt_or_eq]
  · simp [hpath, le_iff_lt_or_eq]

/-- Answers come in the order of the items. -/
theorem pairwise_of_mapM {ε α β : Type} {f : α → Except ε β} {items : List α} {answers : List β}
    {R : α → α → Prop} {S : β → β → Prop} (h : items.mapM f = .ok answers)
    (hitems : items.Pairwise R)
    (hsame : ∀ a b a' b', f a = .ok a' → f b = .ok b' → R a b → S a' b') : answers.Pairwise S := by
  induction items generalizing answers with
  | nil =>
    rw [List.mapM_nil] at h
    obtain rfl := Except.ok.inj h
    exact .nil
  | cons a items ih =>
    rw [List.mapM_cons] at h
    obtain ⟨a', ha, h⟩ := bind_eq_ok.1 h
    obtain ⟨rest, hrest, h⟩ := bind_eq_ok.1 h
    obtain rfl := Except.ok.inj h
    obtain ⟨hfirst, hitems⟩ := List.pairwise_cons.1 hitems
    refine List.pairwise_cons.2 ⟨fun b' hb' => ?_, ih hrest hitems⟩
    obtain ⟨b, hb, hanswer⟩ := ((mapM_eq_ok hrest).2 b').1 hb'
    exact hsame a b a' b' ha hanswer (hfirst b hb)

theorem PrincipalKind.name_inj {a b : PrincipalKind} : a.name = b.name ↔ a = b := by
  constructor
  · cases a <;> cases b <;> decide
  · exact congrArg name

/-- A row stands for a record about the same principal. -/
theorem principal_of_record (h : row.record = .ok record) :
    record.kind.name = row.kind ∧ record.principal = row.principal := by
  obtain ⟨kind, hkind, h⟩ := bind_eq_ok.1 h
  obtain rfl := Except.ok.inj h
  refine ⟨?_, rfl⟩
  unfold PrincipalKind.ofName at hkind
  split at hkind
  · next found hfound =>
    obtain rfl := Except.ok.inj hkind
    simpa using List.find?_some hfound
  · cases hkind

/-- The records of rows on one path come in the order of the names of the kinds of principal, then of
the principals. -/
theorem recordsOf_ordered {path : String} (h : Database.recordsOf rows = .ok records)
    (hpath : ∀ row ∈ rows, row.path = path) (hunique : (rows.map (·.key)).Nodup) :
    records.Pairwise fun a b =>
      a.kind.name < b.kind.name ∨ a.kind = b.kind ∧ a.principal < b.principal := by
  have hperm := List.mergeSort_perm rows Database.rowOrder
  have hsorted : (rows.mergeSort Database.rowOrder).Pairwise fun a b => a.rank ≤ b.rank :=
    pairwise_mergeSort_of_rank @rowOrder_iff rows
  have hdistinct : (rows.mergeSort Database.rowOrder).Pairwise fun a b => a.key ≠ b.key :=
    List.pairwise_map.1 ((hperm.map _).nodup_iff.2 hunique)
  have hstrict : (rows.mergeSort Database.rowOrder).Pairwise fun a b =>
      a.kind < b.kind ∨ a.kind = b.kind ∧ a.principal < b.principal := by
    refine (hsorted.and hdistinct).imp_of_mem fun {a b} ha hb hab => ?_
    obtain ⟨hle, hne⟩ := hab
    have hsame : a.path = b.path :=
      (hpath a (hperm.mem_iff.1 ha)).trans (hpath b (hperm.mem_iff.1 hb)).symm
    unfold PermissionRow.rank at hle
    rw [hsame, Prod.Lex.toLex_le_toLex, Prod.Lex.toLex_le_toLex] at hle
    obtain hlt | ⟨-, hlt | ⟨hkind, hle⟩⟩ := hle
    · exact absurd hlt (lt_irrefl _)
    · exact Or.inl hlt
    · refine Or.inr ⟨hkind, lt_of_le_of_ne hle fun hprincipal => hne ?_⟩
      exact Prod.ext hsame (Prod.ext hkind hprincipal)
  rcases hread : (rows.mergeSort Database.rowOrder).mapM PermissionRow.record with e | found
  · rw [Database.recordsOf, hread] at h
    cases h
  · rw [Database.recordsOf, hread] at h
    obtain rfl : found = records := Except.ok.inj h
    refine pairwise_of_mapM hread hstrict fun a b a' b' ha hb hab => ?_
    obtain ⟨hkind, hprincipal⟩ := principal_of_record ha
    obtain ⟨hkind', hprincipal'⟩ := principal_of_record hb
    rwa [← hkind, ← hkind', ← hprincipal, ← hprincipal', PrincipalKind.name_inj] at hab

/-! ## Replacing the records on a path -/

namespace PermissionRecord

/-- A record as it is read back. -/
def stored (record : PermissionRecord) : PermissionRecord :=
  { record with
    path := Path.normalize record.path
    principal := record.kind.storedPrincipal record.principal }

/-- Whether a record is about the principal of a stored one. -/
def sharesPrincipal (record entry : PermissionRecord) : Bool :=
  record.kind = entry.kind && record.kind.storedPrincipal record.principal = entry.principal

end PermissionRecord

namespace Database

variable {db after : Database} {path : String}

/-- What is read at a path after a replacement is the last record about each principal. -/
theorem mem_of_replaceRecords {found : List PermissionRecord}
    (hrecords : ∀ record ∈ records, record.path = path) (hrows : ∀ row ∈ rows, row.path ≠ path)
    (h : recordsOf ((records.foldl withRecord rows).filter (·.path = path)) = .ok found)
    (entry : PermissionRecord) :
    entry ∈ found ↔ ∃ record, records.reverse.find? (·.sharesPrincipal entry) = some record ∧
      entry = { record with principal := record.kind.storedPrincipal record.principal } := by
  have hfind : ∀ row : PermissionRow, row.path = path → entry.kind.name = row.kind →
      entry.principal = row.principal →
        records.reverse.find? (fun record => (PermissionRow.ofRecord record).key = row.key) =
          records.reverse.find? (·.sharesPrincipal entry) := by
    intro row hpath hkind hprincipal
    refine List.find?_congr fun record hrecord => ?_
    have hat := hrecords record (List.mem_reverse.1 hrecord)
    have hkey : (PermissionRow.ofRecord record).key = row.key ↔ record.kind = entry.kind ∧
        record.kind.storedPrincipal record.principal = entry.principal := by
      unfold PermissionRow.key PermissionRow.ofRecord
      rw [hat, hpath, ← hkind, ← hprincipal, Prod.mk.injEq, Prod.mk.injEq, PrincipalKind.name_inj]
      exact and_iff_right rfl
    unfold PermissionRecord.sharesPrincipal
    rw [decide_eq_decide.2 hkey, Bool.decide_and]
  rw [(recordsOf_eq_ok h).2]
  constructor
  · rintro ⟨row, hrow, hrecord⟩
    obtain ⟨hmem, hpath⟩ := List.mem_filter.1 hrow
    have hpath := of_decide_eq_true hpath
    obtain ⟨hkind, hprincipal⟩ := principal_of_record hrecord
    rw [mem_foldl_withRecord_iff, hfind row hpath hkind hprincipal] at hmem
    rcases hlast : records.reverse.find? (·.sharesPrincipal entry) with _ | record
    · rw [hlast] at hmem
      exact absurd hpath (hrows row hmem)
    · rw [hlast] at hmem
      refine ⟨record, hlast, ?_⟩
      rw [show row = .ofRecord record from hmem, record_of_ofRecord] at hrecord
      exact (Except.ok.inj hrecord).symm
  · rintro ⟨record, hlast, hentry⟩
    have hat : record.path = path :=
      hrecords record (List.mem_reverse.1 (List.mem_of_find?_eq_some hlast))
    refine ⟨.ofRecord record, List.mem_filter.2 ⟨?_, decide_eq_true hat⟩, ?_⟩
    · rw [mem_foldl_withRecord_iff, hfind (.ofRecord record) hat (by rw [hentry]; rfl)
        (by rw [hentry]; rfl), hlast]
    · rw [record_of_ofRecord, hentry]

/-- A record with another path stands in the way of a replacement. Without one the rows on the path
go, and the records are put. -/
theorem replaceRecords_of_rows (hrows : db.permissionRows = .ok rows) (path : String)
    (records : List PermissionRecord) :
    db.replaceRecords path records = match records.find? (·.path ≠ path) with
      | some stray =>
        .error (.validation ("record for " ++ stray.path ++ " does not belong to " ++ path))
      | none => .ok (db.withPermissions (records.foldl withRecord (rows.filter (·.path ≠ path)))) := by
  unfold replaceRecords
  rw [hrows]
  rcases records.find? (·.path ≠ path) with _ | stray
  · rfl
  · rfl

theorem recordsAt_of_rows (hrows : db.permissionRows = .ok rows) (path : String) :
    db.recordsAt path = recordsOf (rows.filter (·.path = path)) := by
  unfold recordsAt
  rw [hrows]
  rfl

/-! ## Whatever is written -/

theorem permissions_of_reviseFile {newPath : String} {change : FileRow → FileRow}
    (h : db.reviseFile path newPath change = .ok after) : after.permissions = db.permissions := by
  obtain ⟨files, -, h⟩ := bind_eq_ok.1 h
  dsimp only at h
  split at h
  case isTrue => exact absurd h throw_bind_ne_ok
  case isFalse =>
    split at h
    case isTrue => exact absurd h throw_bind_ne_ok
    case isFalse =>
      obtain rfl := Except.ok.inj h
      rfl

/-- There is at most one record for a principal on a path. -/
def OneRecordEach (db : Database) : Prop := OnePerPrincipal (db.permissions.getD [])

theorem oneRecordEach_empty : empty.OneRecordEach := onePerPrincipal_nil

theorem OneRecordEach.of_rows (h : db.OneRecordEach) (hrows : db.permissionRows = .ok rows) :
    OnePerPrincipal rows := by
  unfold OneRecordEach at h
  rwa [(permissionRows_eq_ok.1 hrows).2, Option.getD_some] at h

theorem OneRecordEach.repointRecords {source target : String} (h : db.OneRecordEach)
    (hafter : db.repointRecords source target = .ok after) : after.OneRecordEach := by
  obtain ⟨rows, hrows, -⟩ := bind_eq_ok.1 hafter
  rw [repointRecords_of_rows hrows] at hafter
  obtain rfl := Except.ok.inj hafter
  exact (h.of_rows hrows).repointed source target

theorem Changes.oneRecordEach (h : db.Changes after) (hone : db.OneRecordEach) :
    after.OneRecordEach := by
  cases h with
  | created h =>
    obtain ⟨_, rows, -, rfl⟩ := createFile_eq_ok h
    exact hone
  | put h =>
    obtain ⟨_, rows, -, rfl⟩ := putFile_eq_ok h
    exact hone
  | updated h =>
    obtain ⟨mid, hmid, h⟩ := bind_eq_ok.1 h
    have hone' : mid.OneRecordEach := by
      unfold OneRecordEach
      rwa [permissions_of_reviseFile hmid]
    split at h
    · obtain rfl := Except.ok.inj h
      exact hone'
    · exact hone'.repointRecords h
  | moved h =>
    obtain ⟨mid, hmid, h⟩ := bind_eq_ok.1 h
    have hone' : mid.OneRecordEach := by
      unfold OneRecordEach
      rwa [permissions_of_reviseFile hmid]
    exact hone'.repointRecords h
  | deleted h =>
    obtain ⟨files, -, h⟩ := bind_eq_ok.1 h
    dsimp only at h
    split at h
    case isTrue => exact absurd h throw_bind_ne_ok
    case isFalse =>
      obtain ⟨rows, hrows, h⟩ := bind_eq_ok.1 h
      obtain rfl := Except.ok.inj h
      exact (hone.of_rows hrows).filter _
  | @replaced path records _ h =>
    rcases hrows : db.permissionRows with e | rows
    · unfold replaceRecords at h
      rw [hrows] at h
      split at h <;> cases h
    · rw [replaceRecords_of_rows hrows] at h
      split at h
      · cases h
      · obtain rfl := Except.ok.inj h
        exact ((hone.of_rows hrows).filter _).foldl_withRecord records

end Database

end FileDrive
