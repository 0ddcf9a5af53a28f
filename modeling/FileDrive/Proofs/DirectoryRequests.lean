import Mathlib.Data.List.Forall2
import Mathlib.Data.String.Basic
import FileDrive.Proofs.TreeShape

/-!
# Requests about a directory

A request about a path without a file is about the files below it. It picks those on whose way from
the directory one of some names comes first (`Path.Picked`), in the order of their paths
(`picked_spec`), and then deals with them one after another. `DriveM.inTurn` is what calls made one
after another come to, whatever each of them comes to, and `BatchReport.ofCalls` is the report of
it; a batch is nothing else (`each_on`). So what a batch of calls comes to can be compared with what
other calls come to, made one by one (`inTurn_related`).
-/

namespace FileDrive

open FileDrive.DriveM

/-! ## Calls in turn -/

section Calls

variable {σ α β γ : Type}

/-- What calls about items come to that are made one after another: what came of each, and the drive
as the last one leaves it. -/
def DriveM.inTurn (call : α → DriveM σ β) :
    List α → Drive σ → List (α × Except DriveError β) × Drive σ
  | [], drive => ([], drive)
  | item :: rest, drive =>
    let one := (call item).on drive
    let others := inTurn call rest one.2
    ((item, one.1) :: others.1, others.2)

/-- The report of calls: what the items of those that went well are reported as, and the errors of
the others with the paths of their items. -/
def BatchReport.ofCalls (path result : α → String) (calls : List (α × Except DriveError β)) :
    BatchReport where
  succeeded := calls.filterMap fun call =>
    match call.2 with
    | .ok _ => some (result call.1)
    | .error _ => none
  warnings := calls.filterMap fun call =>
    match call.2 with
    | .ok _ => none
    | .error e => some ⟨path call.1, e.message⟩

variable {items : List α} {drive drive' : Drive σ} {path result : α → String}

theorem inTurn_cons (call : α → DriveM σ β) (item : α) (rest : List α) (drive : Drive σ) :
    inTurn call (item :: rest) drive =
      ((item, ((call item).on drive).1) :: (inTurn call rest ((call item).on drive).2).1,
        (inTurn call rest ((call item).on drive).2).2) := rfl

/-- Every item is called about once, in order. -/
theorem map_fst_inTurn (call : α → DriveM σ β) (items : List α) (drive : Drive σ) :
    (inTurn call items drive).1.map (·.1) = items := by
  induction items generalizing drive with
  | nil => rfl
  | cons item rest ih => rw [inTurn_cons, List.map_cons, ih]

theorem map_item_inTurn {δ : Type} (f : α → δ) (call : α → DriveM σ β) (items : List α)
    (drive : Drive σ) : ((inTurn call items drive).1.map fun one => f one.1) = items.map f := by
  conv_rhs => rw [← map_fst_inTurn call items drive, List.map_map]
  rfl

theorem inTurn_map {δ : Type} (f : δ → α) (call : α → DriveM σ β) (items : List δ)
    (drive : Drive σ) :
    inTurn call (items.map f) drive =
      ((inTurn (call ∘ f) items drive).1.map fun one => (f one.1, one.2),
        (inTurn (call ∘ f) items drive).2) := by
  induction items generalizing drive with
  | nil => rfl
  | cons item rest ih => simp only [List.map_cons, inTurn_cons, ih, Function.comp_apply]

/-- A batch is calls in turn, reported. -/
theorem Service.each_on (act : α → DriveM σ Unit) (path result : α → String) (items : List α)
    (drive : Drive σ) :
    (Service.each act path result items).on drive =
      (.ok (.ofCalls path result (inTurn act items drive).1), (inTurn act items drive).2) := by
  induction items generalizing drive with
  | nil => rfl
  | cons item rest ih =>
    have hattempt : (DriveM.attempt (act item)).on drive =
        (.ok ((act item).on drive).1, ((act item).on drive).2) := rfl
    unfold Service.each
    rw [on_bind, hattempt]
    dsimp only
    rw [on_bind, ih, inTurn_cons]
    rcases ((act item).on drive).1 with e | ⟨⟩
    · rfl
    · rfl

/-- Two ways to call about items come to the same, call by call, when every call does, from drives
that are related as `R` has it, and leaves such drives. -/
theorem inTurn_related (call : α → DriveM σ β) (other : α → DriveM σ γ)
    (R : List α → Drive σ → Drive σ → Prop)
    (S : α → Except DriveError β → Except DriveError γ → Prop) (start : R items drive drive')
    (step : ∀ item rest drive drive', R (item :: rest) drive drive' →
      S item ((call item).on drive).1 ((other item).on drive').1 ∧
        R rest ((call item).on drive).2 ((other item).on drive').2) :
    List.Forall₂ (fun one two => one.1 = two.1 ∧ S one.1 one.2 two.2)
        (inTurn call items drive).1 (inTurn other items drive').1 ∧
      R [] (inTurn call items drive).2 (inTurn other items drive').2 := by
  induction items generalizing drive drive' with
  | nil => exact ⟨.nil, start⟩
  | cons item rest ih =>
    obtain ⟨hone, hrest⟩ := step item rest drive drive' start
    obtain ⟨hcalls, hend⟩ := ih hrest
    rw [inTurn_cons, inTurn_cons]
    exact ⟨.cons ⟨rfl, hone⟩ hcalls, hend⟩

/-- What calls keep track of, one after another, is kept track of through all of them. -/
theorem inTurn_invariant (act : α → DriveM σ β)
    (I : List (α × Except DriveError β) → List α → Drive σ → Prop) (start : I [] items drive)
    (step : ∀ calls item rest drive, I calls (item :: rest) drive →
      I (calls ++ [(item, ((act item).on drive).1)]) rest ((act item).on drive).2) :
    I (inTurn act items drive).1 [] (inTurn act items drive).2 := by
  have hrun : ∀ calls, I calls items drive →
      I (calls ++ (inTurn act items drive).1) [] (inTurn act items drive).2 := by
    intro calls hcalls
    clear start
    induction items generalizing calls drive with
    | nil => exact (List.append_nil calls).symm ▸ hcalls
    | cons item rest ih =>
      rw [inTurn_cons, ← List.singleton_append, ← List.append_assoc]
      exact ih _ (step calls item rest drive hcalls)
  exact hrun [] start

theorem filterMap_eq_of_forall₂ {α β δ : Type} {R : α → β → Prop} {f : α → Option δ}
    {g : β → Option δ} {as : List α} {bs : List β} (h : List.Forall₂ R as bs)
    (hfg : ∀ a b, R a b → f a = g b) : as.filterMap f = bs.filterMap g := by
  induction h with
  | nil => rfl
  | cons hone _ ih => rw [List.filterMap_cons, List.filterMap_cons, hfg _ _ hone, ih]

/-- What succeeded follows from which calls went well and what their items are reported as. -/
theorem BatchReport.succeeded_congr {δ : Type} {path' result' : δ → String}
    {calls : List (α × Except DriveError β)} {others : List (δ × Except DriveError γ)}
    (h : List.Forall₂ (fun one two => result one.1 = result' two.1 ∧ one.2.isOk = two.2.isOk)
      calls others) :
    (ofCalls path result calls).succeeded = (ofCalls path' result' others).succeeded := by
  refine filterMap_eq_of_forall₂ h ?_
  rintro ⟨item, outcome⟩ ⟨item', outcome'⟩ ⟨hresult, hok⟩
  cases outcome with
  | error e =>
    cases outcome' with
    | error e' => rfl
    | ok value => cases hok
  | ok value =>
    cases outcome' with
    | error e' => cases hok
    | ok value' => exact congrArg some hresult

theorem BatchReport.mem_succeeded {calls : List (α × Except DriveError β)} {p : String} :
    p ∈ (ofCalls path result calls).succeeded ↔
      ∃ one ∈ calls, one.2.isOk = true ∧ result one.1 = p := by
  unfold ofCalls
  dsimp only
  rw [List.mem_filterMap]
  constructor
  · rintro ⟨⟨item, outcome⟩, hone, hp⟩
    cases outcome with
    | error e => cases hp
    | ok value => exact ⟨_, hone, rfl, Option.some.inj hp⟩
  · rintro ⟨⟨item, outcome⟩, hone, hok, rfl⟩
    cases outcome with
    | error e => cases hok
    | ok value => exact ⟨_, hone, rfl⟩

/-- Calls that differ only in what the successful ones give have the same report. -/
theorem BatchReport.ofCalls_congr {calls : List (α × Except DriveError β)}
    {others : List (α × Except DriveError γ)}
    (h : List.Forall₂ (fun one two => one.1 = two.1 ∧ ∃ f : β → γ, two.2 = one.2.map f)
      calls others) :
    ofCalls path result calls = ofCalls path result others := by
  rw [ofCalls, ofCalls, BatchReport.mk.injEq]
  constructor
  · refine filterMap_eq_of_forall₂ h ?_
    rintro ⟨item, _ | _⟩ ⟨_, _⟩ ⟨rfl, f, rfl⟩ <;> rfl
  · refine filterMap_eq_of_forall₂ h ?_
    rintro ⟨item, _ | _⟩ ⟨_, _⟩ ⟨rfl, f, rfl⟩ <;> rfl

/-- Which calls went well can be told by the paths of their items, when these are different. -/
theorem exists_isOk (path : α → String) {calls : List (α × Except DriveError β)}
    (h : (calls.map fun one => path one.1).Nodup) :
    ∃ well : String → Bool, ∀ one ∈ calls, well (path one.1) = one.2.isOk := by
  refine ⟨fun p => calls.any fun one => path one.1 = p && one.2.isOk, fun one hone => ?_⟩
  rw [Bool.eq_iff_iff, List.any_eq_true]
  constructor
  · rintro ⟨other, hother, hboth⟩
    rw [Bool.and_eq_true, decide_eq_true_eq] at hboth
    obtain rfl := List.inj_on_of_nodup_map h hother hone hboth.1
    exact hboth.2
  · intro hwell
    exact ⟨one, hone, by simp [hwell]⟩

/-- The report in terms of the paths of the calls that went well. -/
theorem BatchReport.ofCalls_paths {calls : List (α × Except DriveError β)} {well : String → Bool}
    {newPath : String → String} (hwell : ∀ one ∈ calls, well (path one.1) = one.2.isOk)
    (hresult : ∀ one ∈ calls, result one.1 = newPath (path one.1)) :
    (ofCalls path result calls).succeeded =
        ((calls.map fun one => path one.1).filter well).map newPath ∧
      (ofCalls path result calls).warnings.map (·.path) =
        (calls.map fun one => path one.1).filter fun p => !well p := by
  induction calls with
  | nil => exact ⟨rfl, rfl⟩
  | cons one rest ih =>
    rw [List.forall_mem_cons] at hwell hresult
    obtain ⟨hsucceeded, hwarnings⟩ := ih hwell.2 hresult.2
    obtain ⟨item, e | value⟩ := one
    · have hnot : ¬well (path item) = true := by
        rw [show well (path item) = false from hwell.1]
        simp
      rw [List.map_cons, List.filter_cons_of_neg hnot,
        List.filter_cons_of_pos (by simpa using hnot)]
      exact ⟨hsucceeded, congrArg (path item :: ·) hwarnings⟩
    · have hyes : well (path item) = true := hwell.1
      rw [List.map_cons, List.filter_cons_of_pos hyes,
        List.filter_cons_of_neg (by simpa using hyes), List.map_cons,
        ← show result item = newPath (path item) from hresult.1]
      exact ⟨congrArg (result item :: ·) hsucceeded, hwarnings⟩

theorem BatchReport.ofCalls_map {δ : Type} (f : δ → α) (path result : α → String)
    (calls : List (δ × Except DriveError β)) :
    ofCalls path result (calls.map fun one => (f one.1, one.2)) =
      ofCalls (path ∘ f) (result ∘ f) calls := by
  unfold ofCalls
  simp only [List.filterMap_map]
  rfl

end Calls

/-! ## What is picked -/

namespace Path

variable {dir path : String} {names : Option (List String)} {first : List Char}
  {segs rest : List (List Char)}

/-- Whether a request about a directory that may name entries of it is about a path: the path lies
below the directory, and when names are given, one of them is its first segment there. -/
def Picked (dir : String) (names : Option (List String)) (path : String) : Prop :=
  ∃ first rest, segments path = segments dir ++ first :: rest ∧
    (names.all (·.isEmpty) = true ∨ ∃ given ∈ names, String.ofList first ∈ given)

/-- The entry of a directory that holds a path is the first segment behind those of the
directory. -/
theorem entryBelow_ofSegments (h : AreSegments (segs ++ first :: rest)) :
    entryBelow (ofSegments (segs ++ first :: rest)) (ofSegments segs) =
      some (String.ofList first) := by
  have htail : tailBelow (ofSegments (segs ++ first :: rest)) (ofSegments segs) =
      first ++ spell rest := by
    have hspelled := tailBelow_append h (List.cons_ne_nil first rest)
    rw [spell_cons] at hspelled
    exact (List.cons.inj hspelled).2
  have hfirst : IsSegment first := h first (by simp)
  have hkept : ∀ c ∈ first, c ≠ '/' := fun c hc e => hfirst.2.2.2 (e ▸ hc)
  have htake : (first ++ spell rest).takeWhile (· ≠ '/') = first := by
    rw [List.takeWhile_append_of_pos (by simpa using hkept)]
    cases rest with
    | nil => simp
    | cons s rest => simp
  rw [entryBelow, if_pos (isBelow_append h (List.cons_ne_nil first rest)), htail, htake]
  cases first with
  | nil => exact absurd rfl hfirst.1
  | cons c first => rfl

theorem picked_iff (hpath : Canonical path) (hdir : Canonical dir) :
    Picked dir names path ↔ isBelow path dir = true ∧
      (names.all (·.isEmpty) = true ∨
        (entryBelow path dir).any (names.getD []).contains = true) := by
  obtain ⟨segs, hsegs, rfl⟩ := hpath
  obtain ⟨pre, hpre, rfl⟩ := hdir
  unfold Picked
  rw [segments_ofSegments hsegs, segments_ofSegments hpre, isBelow_ofSegments hsegs hpre]
  constructor
  · rintro ⟨first, rest, rfl, hnamed⟩
    refine ⟨⟨List.prefix_append _ _, by simp⟩, hnamed.imp_right ?_⟩
    rintro ⟨given, rfl, hgiven⟩
    rw [entryBelow_ofSegments hsegs, Option.any_some, Option.getD_some, List.contains_iff_mem]
    exact hgiven
  · rintro ⟨⟨⟨rest, rfl⟩, hlong⟩, hnamed⟩
    obtain ⟨first, rest, rfl⟩ := List.exists_cons_of_ne_nil
      (l := rest) fun e => hlong (by rw [e, List.append_nil])
    refine ⟨first, rest, rfl, hnamed.imp_right fun h => ?_⟩
    rw [entryBelow_ofSegments hsegs, Option.any_some, List.contains_iff_mem] at h
    cases names with
    | none => cases h
    | some given => exact ⟨given, rfl, h⟩

theorem Picked.isBelow (h : Picked dir names path) (hpath : Canonical path)
    (hdir : Canonical dir) : Path.isBelow path dir = true := ((picked_iff hpath hdir).1 h).1

end Path

namespace Database

variable {db after : Database} {path : String} {files : List File} {row : FileRow}

/-- What is found for a path comes in the order of the paths. -/
theorem filesAt_ordered (h : db.filesAt path = .ok files) :
    files.Pairwise fun a b => a.path ≤ b.path := by
  obtain ⟨found, -, h⟩ := bind_eq_ok.1 h
  cases found with
  | some file =>
    rw [← Except.ok.inj h]
    exact List.pairwise_singleton _ _
  | none =>
    obtain ⟨all, -, h⟩ := bind_eq_ok.1 h
    rw [← Except.ok.inj h]
    exact pairwise_mergeSort_of_rank (fun _ _ => decide_eq_true_iff) _

/-- No two of the files that are found have the same path. -/
theorem Keyed.filesAt_ordered (hkeyed : db.Keyed) (h : db.filesAt path = .ok files) :
    (files.map (·.path)).Pairwise (· < ·) := by
  have hordered : (files.map (·.path)).Pairwise (· ≤ ·) :=
    List.pairwise_map.2 (Database.filesAt_ordered h)
  have hnodup : (files.map (·.path)).Nodup := by
    obtain ⟨users, -, ⟨row, -, rfl⟩ | ⟨-, hperm⟩⟩ := filesAt_eq_ok h
    · exact List.nodup_singleton _
    · rw [(hperm.map (·.path)).nodup_iff, List.map_map]
      exact hkeyed.sublist (List.filter_sublist.map _)
  exact (hordered.and hnodup).imp fun hab => lt_of_le_of_ne hab.1 hab.2

/-- What is below a path without a file is found in the order of the paths. -/
theorem filesAt_eq_byPath {rows : List FileRow} {users : List UserRow} (hopen : db.isOpen = true)
    (hrows : db.files = some rows) (husers : db.users = some users)
    (hfree : db.rowAt path = none) :
    db.filesAt path =
      .ok (byPath ((rows.filter fun row => isStoredBelow row.path path).map (·.file users))) := by
  have hall : db.allFiles = .ok (rows.map (·.file users)) := by
    rw [allFiles, fileRows_eq_ok.2 ⟨hopen, hrows⟩, userRows, rowsOf_eq_ok.2 ⟨hopen, husers⟩]
    rfl
  have hnone : db.file? path = .ok none := by
    rw [rowAt_of_files hrows] at hfree
    rw [file?, hall]
    show Except.ok (List.find? _ _) = _
    rw [find?_map_file, hfree]
    rfl
  have hfilter : (rows.map (·.file users)).filter (fun file => isStoredBelow file.path path) =
      (rows.filter fun row => isStoredBelow row.path path).map (·.file users) := List.filter_map
  rw [filesAt, hnone, hall]
  show Except.ok (byPath _) = _
  rw [hfilter]

theorem byPath_pair {a b : File} (h : b.path < a.path) : byPath [a, b] = [b, a] := by
  simp [byPath, List.mergeSort, h]

/-- What is below a path without a file is found as it is stored, when it is stored in order. -/
theorem filesAt_of_rows {rows : List FileRow} {users : List UserRow} (hopen : db.isOpen = true)
    (hrows : db.files = some rows) (husers : db.users = some users) (hfree : db.rowAt path = none)
    (hordered : (rows.filter fun row => isStoredBelow row.path path).Pairwise
      fun a b => a.path ≤ b.path) :
    db.filesAt path =
      .ok ((rows.filter fun row => isStoredBelow row.path path).map (·.file users)) := by
  rw [filesAt_eq_byPath hopen hrows husers hfree, byPath, List.mergeSort_of_pairwise]
  rw [List.pairwise_map]
  exact hordered.imp fun h => decide_eq_true h

/-- Whether files can be read: the database is open and the users are known. -/
def Readable (db : Database) : Prop := db.isOpen = true ∧ db.users.isSome = true

theorem Readable.of_rest (h : db.Readable) (hrest : after.rest = db.rest) : after.Readable := by
  have hopen : after.rest.isOpen = db.rest.isOpen := by rw [hrest]
  have husers : after.rest.users = db.rest.users := by rw [hrest]
  exact ⟨hopen.trans h.1, (congrArg Option.isSome husers).trans h.2⟩

theorem readable_of_filesAt {files : List File} (h : db.filesAt path = .ok files) :
    db.Readable := by
  obtain ⟨_, hfound, -⟩ := bind_eq_ok.1 h
  obtain ⟨_, hall, -⟩ := bind_eq_ok.1 hfound
  obtain ⟨_, users, -, husers, hopen, -⟩ := allFiles_eq_ok hall
  exact ⟨hopen, by rw [husers]; rfl⟩

theorem Readable.fileRows (h : db.Readable) (hrow : db.rowAt path = some row) :
    ∃ rows, db.fileRows = .ok rows := by
  rcases hfiles : db.files with _ | rows
  · rw [rowAt, hfiles] at hrow
    cases hrow
  · exact ⟨rows, fileRows_eq_ok.2 ⟨h.1, hfiles⟩⟩

/-- A file that can be read is found alone for its path. -/
theorem Readable.filesAt (h : db.Readable) (hrow : db.rowAt path = some row) :
    ∃ file, db.filesAt path = .ok [file] ∧ file.path = path := by
  obtain ⟨rows, hrows⟩ := h.fileRows hrow
  obtain ⟨users, husers⟩ := Option.isSome_iff_exists.1 h.2
  have hall : db.allFiles = .ok (rows.map (·.file users)) := by
    rw [allFiles, hrows, userRows, rowsOf_eq_ok.2 ⟨h.1, husers⟩]
    rfl
  have hfound : db.file? path = .ok (some (row.file users)) := by
    rw [rowAt_of_files (fileRows_eq_ok.1 hrows).2] at hrow
    rw [file?, hall]
    change Except.ok (List.find? _ _) = _
    rw [find?_map_file, hrow]
    rfl
  exact ⟨row.file users, by rw [Database.filesAt, hfound]; rfl, path_of_rowAt hrow⟩

/-- Records that can be read are read again as long as they stay. -/
theorem recordsOn_of_same {before later : Database} {paths : List String}
    {rows : List PermissionRow} {records : List PermissionRecord}
    (hrows : later.permissionRows = .ok rows)
    (hsame : ∀ a ∈ paths, later.recordRowsAt a = before.recordRowsAt a)
    (h : before.recordsOn paths = .ok records) :
    ∃ found, later.recordsOn paths = .ok found ∧ ∀ r, r ∈ found ↔ r ∈ records := by
  by_cases hpaths : paths = []
  · subst hpaths
    exact ⟨[], rfl, fun r => by rw [← Except.ok.inj h]⟩
  obtain ⟨-, old, hold, hlegible, hmem⟩ := recordsOn_eq_ok hpaths h
  obtain ⟨hopen, hnew⟩ := permissionRows_eq_ok.1 hrows
  have hon : ∀ row : PermissionRow, row.path ∈ paths → (row ∈ rows ↔ row ∈ old) := by
    intro row hrow
    have hat := hsame row.path hrow
    rw [recordRowsAt, recordRowsAt, hnew, hold] at hat
    have hiff : ∀ l : List PermissionRow, row ∈ l ↔ row ∈ l.filter (·.path = row.path) := by simp
    rw [hiff rows, hiff old]
    exact Iff.of_eq (congrArg (row ∈ ·) hat)
  obtain ⟨found, hfound⟩ := exists_recordsOf_eq_ok (l := rows.filter (paths.contains ·.path))
    fun row hrow => by
      rw [List.mem_filter, List.contains_iff_mem] at hrow
      exact hlegible row ((hon row hrow.2).1 hrow.1) hrow.2
  have hread : later.recordsOn paths = .ok found := by
    rw [recordsOn, if_neg (by simpa using hpaths), hrows]
    exact hfound
  obtain ⟨-, new, hnew', -, hmem'⟩ := recordsOn_eq_ok hpaths hread
  obtain rfl : rows = new := Option.some.inj (hnew.symm.trans hnew')
  refine ⟨found, hread, fun r => ?_⟩
  rw [hmem, hmem']
  constructor
  · rintro ⟨row, hrow, hpath, hrecord⟩
    exact ⟨row, (hon row hpath).1 hrow, hpath, hrecord⟩
  · rintro ⟨row, hrow, hpath, hrecord⟩
    exact ⟨row, (hon row hpath).2 hrow, hpath, hrecord⟩

end Database

namespace Service

variable {σ : Type} {service : Service σ} {identity : Identity} {drive after : Drive σ}
  {allowed : Char → Prop} {db : Database} {dir path : String} {names : Option (List String)}
  {found : List File} {report : BatchReport}

/-- Just the file at a path itself is found alone. -/
theorem isSingle_iff (h : db.filesAt path = .ok found) :
    isSingle found path = true ↔ ∃ row, db.rowAt path = some row := by
  obtain ⟨users, -, ⟨row, hrow, rfl⟩ | ⟨hnone, hperm⟩⟩ := Database.filesAt_eq_ok h
  · have hone : isSingle [row.file users] path = true :=
      decide_eq_true (Database.path_of_rowAt hrow)
    exact iff_of_true hone ⟨row, hrow⟩
  · refine iff_of_false (fun hone => ?_) (by simp [hnone])
    unfold isSingle at hone
    split at hone
    · next file =>
      obtain ⟨row, hrow, hfile⟩ := List.mem_map.1 (hperm.mem_iff.1 List.mem_cons_self)
      have hat : row.path = path := by
        rw [← FileRow.path_file row users, hfile]
        exact of_decide_eq_true hone
      have hthere : ∃ row, db.rowAt path = some row := Database.any_path_iff.1
        (List.any_eq_true.2 ⟨row, List.mem_of_mem_filter hrow, decide_eq_true hat⟩)
      rw [hnone] at hthere
      obtain ⟨_, hthere⟩ := hthere
      cases hthere
    · cases hone

theorem not_isSingle (h : db.filesAt path = .ok found) (hfree : db.rowAt path = none) :
    ¬ isSingle found path = true := by
  rw [isSingle_iff h, hfree]
  rintro ⟨_, hrow⟩
  cases hrow

theorem mem_select {file : File} :
    file ∈ select found dir names ↔ file ∈ found ∧ (names.all (·.isEmpty) = true ∨
      (Path.entryBelow file.path dir).any (names.getD []).contains = true) := by
  unfold select
  split
  · simp
  · simp
  · next given hgiven =>
    have hsome : given ≠ [] := fun e => hgiven (by rw [e])
    simp [hsome]

/-- Files that are found for a path are selected in the order of their paths, each once. -/
theorem select_ordered (hkeyed : db.Keyed) (hfound : db.filesAt dir = .ok found)
    (names : Option (List String)) :
    ((select found dir names).map (·.path)).Pairwise (· < ·) :=
  (hkeyed.filesAt_ordered hfound).sublist ((select_sublist found dir names).map _)

/-- What a request about a directory picks: the stored files below it that it is about, each once
and in the order of their paths. -/
theorem picked_spec (hkeyed : db.Keyed) (hshaped : Shaped allowed db.rowAt)
    (hdir : Path.Canonical dir) (hfree : db.rowAt dir = none) (hfound : db.filesAt dir = .ok found)
    (hsome : select found dir names ≠ []) :
    ((select found dir names).map (·.path)).Pairwise (· < ·) ∧
      ∀ path, path ∈ (select found dir names).map (·.path) ↔
        (∃ row, db.rowAt path = some row) ∧ Path.Picked dir names path := by
  obtain ⟨users, -, ⟨row, hrow, -⟩ | ⟨-, hperm⟩⟩ := Database.filesAt_eq_ok hfound
  · rw [hfree] at hrow
    cases hrow
  refine ⟨select_ordered hkeyed hfound names, fun path => ?_⟩
  -- Since something was found, no NUL hides what is below the directory.
  have hstem : (Path.stem dir).toList.all (· ≠ '\x00') = true := by
    obtain ⟨file, hfile⟩ := List.exists_mem_of_ne_nil _ hsome
    obtain ⟨row, hrow, -⟩ := List.mem_map.1
      (hperm.mem_iff.1 ((select_sublist found dir names).subset hfile))
    have hstored := List.of_mem_filter hrow
    rw [Database.isStoredBelow, Bool.and_eq_true] at hstored
    exact hstored.1
  constructor
  · intro hpath
    obtain ⟨file, hfile, rfl⟩ := List.mem_map.1 hpath
    obtain ⟨hfile, hnamed⟩ := mem_select.1 hfile
    obtain ⟨row, hrow, rfl⟩ := List.mem_map.1 (hperm.mem_iff.1 hfile)
    obtain ⟨hmem, hstored⟩ := List.mem_filter.1 hrow
    have hat := hkeyed.rowAt_of_mem hmem
    have hne : row.path ≠ dir := by
      rintro e
      rw [e, hfree] at hat
      cases hat
    have hcanonical := (hshaped.admissible row.path row hat).canonical
    exact ⟨⟨row, hat⟩, (Path.picked_iff hcanonical hdir).2
      ⟨isBelow_of_stored hstored hne, hnamed⟩⟩
  · rintro ⟨⟨row, hrow⟩, hpicked⟩
    have hcanonical := (hshaped.admissible path row hrow).canonical
    obtain ⟨hbelow, hnamed⟩ := (Path.picked_iff hcanonical hdir).1 hpicked
    have hat := Database.path_of_rowAt hrow
    have hstored : Database.isStoredBelow row.path dir = true := by
      rw [Path.isBelow, Bool.and_eq_true] at hbelow
      rw [hat, Database.isStoredBelow, hstem, hbelow.2]
      rfl
    refine List.mem_map.2 ⟨row.file users, mem_select.2 ⟨?_, by rwa [FileRow.path_file, hat]⟩, hat⟩
    exact hperm.mem_iff.2
      (List.mem_map_of_mem (List.mem_filter.2 ⟨Database.mem_of_rowAt hrow, hstored⟩))

/-! ## What is held meanwhile -/

/-- What is held on a path stays while the owner of the file there and the records on its chain
do. -/
theorem onPath_of_same {resolver : Resolver} {before later : Database} {held : Permissions}
    {rows : List FileRow} {records : List PermissionRow} (hrows : later.fileRows = .ok rows)
    (hrecords : later.permissionRows = .ok records)
    (howner : (later.rowAt path).map (·.ownerId) = (before.rowAt path).map (·.ownerId))
    (hsame : ∀ a ∈ Path.ancestors path, later.recordRowsAt a = before.recordRowsAt a)
    (h : resolver.onPath before path identity = .ok held) :
    resolver.onPath later path identity = .ok held := by
  by_cases hadmin : resolver.isAdmin identity = true
  · rw [Resolver.onPath_of_admin hadmin] at h ⊢
    exact h
  unfold Resolver.onPath at h ⊢
  rw [if_neg hadmin] at h ⊢
  obtain ⟨owner, hfound, h⟩ := bind_eq_ok.1 h
  obtain rfl := Database.ownerOf_eq_ok hfound
  have hlater : later.ownerOf path = .ok ((later.rowAt path).map (·.ownerId)) := by
    rw [Database.ownerOf, hrows, Database.rowAt_of_files (Database.fileRows_eq_ok.1 hrows).2]
    rfl
  rw [hlater, howner]
  change (if _ then _ else _) = _
  by_cases howns : ((before.rowAt path).map (·.ownerId)).any identity.owns = true
  · rw [if_pos howns] at h ⊢
    exact h
  · rw [if_neg howns] at h ⊢
    obtain ⟨read, hread, h⟩ := bind_eq_ok.1 h
    obtain ⟨found, hfound, hmem⟩ := Database.recordsOn_of_same hrecords hsame hread
    rw [hfound]
    change Except.ok _ = _
    rw [granted_congr fun r _ => hmem r]
    exact h

/-! ## Accepted requests -/

/-- A request to delete the files of a directory that is accepted deletes what it picks, one file
after another. -/
theorem deletePath_directory (h : (service.deletePath identity path names).on drive =
    (.ok report, after)) (hfree : drive.db.rowAt (Path.normalize path) = none) :
    ∃ found permitted, drive.db.filesAt (Path.normalize path) = .ok found ∧
      select found (Path.normalize path) names ≠ [] ∧
      service.resolver.onFiles drive.db (select found (Path.normalize path) names) identity =
        .ok permitted ∧
      report = .ofCalls (·.1.path) (·.1.path) (inTurn service.deleteItem permitted drive).1 ∧
      after = (inTurn service.deleteItem permitted drive).2 := by
  apply Ends.of_ok _ h
  unfold deletePath
  refine Ends.guard (fun _ _ h => nomatch h) fun _ => ?_
  refine Ends.query_bind (fun e _ _ h => nomatch h) fun found hfound => ?_
  rw [if_neg (not_isSingle hfound hfree)]
  refine Ends.guard (fun _ _ h => nomatch h) fun hsome => ?_
  refine Ends.query_bind (fun e _ _ h => nomatch h) fun permitted hpermitted => ?_
  unfold Ends
  rw [each_on]
  rintro report h
  refine ⟨found, permitted, hfound, fun hnone => hsome ?_, hpermitted, (Except.ok.inj h).symm, rfl⟩
  rw [hnone, List.isEmpty_nil]

/-- A request to move the files of a directory that is accepted moves what it picks, one file after
another, each to where it then lies from the new directory. -/
theorem movePath_directory {source target : String} (hkeyed : drive.db.Keyed)
    (h : (service.movePath identity source target names).on drive = (.ok report, after))
    (hfree : drive.db.rowAt (Path.normalize source) = none) :
    ∃ found items paths permitted, drive.db.filesAt (Path.normalize source) = .ok found ∧
      select found (Path.normalize source) names ≠ [] ∧
      ¬ (Path.normalize source = Path.normalize target ∨
        Path.isBelow (Path.normalize target) (Path.normalize source) = true) ∧
      items.map MoveItem.source = (select found (Path.normalize source) names).map (·.path) ∧
      service.resolver.onPaths drive.db paths identity = .ok permitted ∧
      (∀ item ∈ items, item.Offered service identity drive.db (Path.normalize source)
          (Path.normalize target) ∧
        (item.target, item.heldTarget) ∈ permitted) ∧
      report = .ofCalls MoveItem.source MoveItem.target
        (inTurn service.moveItem items drive).1 ∧
      after = (inTurn service.moveItem items drive).2 := by
  apply Ends.of_ok _ h
  unfold movePath
  refine Ends.guard (fun _ _ h => nomatch h) fun hapart => ?_
  refine Ends.query_bind (fun e _ _ h => nomatch h) fun found hfound => ?_
  have hsingle := not_isSingle hfound hfree
  rw [if_neg hsingle]
  refine Ends.guard (fun _ _ h => nomatch h) fun hsome => ?_
  refine Ends.query_bind (fun e _ _ h => nomatch h) fun sources hsources => ?_
  refine Ends.query_bind (fun e _ _ h => nomatch h) fun targets htargets => ?_
  obtain ⟨hfiles, hoffered, -⟩ := select_offered hkeyed hfound hsingle hsources
  obtain ⟨rows, hrows⟩ := Database.fileRows_of_filesAt hfound
  obtain ⟨hpaths, hheld⟩ := Resolver.onPath_of_onPaths hrows htargets
  obtain ⟨hitems, hmem⟩ := zipWith_items hfiles hpaths
  unfold Ends
  rw [each_on]
  intro report h
  refine ⟨found, _, _, targets, hfound, fun hnone => hsome ?_, hapart, hitems, htargets,
    fun item hitem => ?_, (Except.ok.inj h).symm, rfl⟩
  · rw [hnone, List.isEmpty_nil]
  · obtain ⟨s, hs, t, ht, htarget, rfl⟩ := hmem item hitem
    exact ⟨⟨hoffered s hs, htarget, hheld t ht⟩, ht⟩

end Service

end FileDrive
