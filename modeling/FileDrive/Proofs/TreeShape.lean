import FileDrive.Proofs.Serving
import FileDrive.Storage.Directory

/-!
# The shape of the tree

Files are stored under canonical paths, and none of these lies below another, so that no path is
both a file and a directory (`Shaped`). The metadata only keep paths apart; that they also fit
together comes from the check of the place of a file, made against the files that are there at that
moment, also in the middle of a batch.

One gap has to be allowed for. What is stored below a path is looked for by a text that ends where a
NUL does, so below a path with a NUL in it nothing is found. `Shaped` is therefore stated for files
whose paths are made of `allowed` characters; when a NUL is not among them there is no gap.
-/

namespace FileDrive

open FileDrive.DriveM FileDrive.Time

namespace Path

/-- The text that every path below a directory starts with has a NUL when its path has. -/
theorem stem_all_ne_nul {dir : String} :
    (stem dir).toList.all (· ≠ '\x00') = true ↔ '\x00' ∉ dir.toList := by
  rw [List.all_eq_true]
  unfold stem
  by_cases hroot : dir = root
  · rw [if_pos hroot, hroot, toList_root]
    simp
  · rw [if_neg hroot, String.toList_append]
    simp only [List.mem_append, decide_eq_true_eq]
    constructor
    · intro h hnul
      exact h _ (Or.inl hnul) rfl
    · rintro hnul c (hc | hc) rfl
      · exact hnul hc
      · exact absurd hc (by decide)

end Path

/-- What lies below a path without a NUL is found there. -/
theorem Database.isStoredBelow_of_isBelow {path dir : String} (h : Path.isBelow path dir = true)
    (hnul : '\x00' ∉ dir.toList) : isStoredBelow path dir = true := by
  rw [Path.isBelow, Bool.and_eq_true] at h
  rw [isStoredBelow, Path.stem_all_ne_nul.2 hnul, h.2]
  rfl

/-- A path that a file may be stored under: canonical, not the root, and spelled with slashes and
allowed characters. -/
structure Path.Admissible (allowed : Char → Prop) (path : String) : Prop where
  canonical : Canonical path
  notRoot : path ≠ root
  chars : ∀ c ∈ path.toList, c = '/' ∨ allowed c

namespace Path

variable {allowed : Char → Prop} {path : String}

theorem chars_normalize (h : ∀ c ∈ path.toList, allowed c) :
    ∀ c ∈ (normalize path).toList, c = '/' ∨ allowed c :=
  fun c hc => (mem_toList_normalize hc).imp_right (h c)

theorem admissible_normalize (h : ∀ c ∈ path.toList, allowed c) (hroot : normalize path ≠ root) :
    Admissible allowed (normalize path) := ⟨canonical_normalize path, hroot, chars_normalize h⟩

/-- What has been rebased into a directory is spelled with the characters of both. -/
theorem Admissible.rebase {source target moved : String} (h : Admissible allowed path)
    (hs : Canonical source) (ht : Canonical target)
    (hchars : ∀ c ∈ target.toList, c = '/' ∨ allowed c) (hne : path ≠ source)
    (hmoved : rebase path source target = some moved) : Admissible allowed moved := by
  obtain ⟨dir, newDir, rest, hsegs, hnew, hrest, rfl, rfl, rfl, rfl⟩ :=
    rebase_eq_some h.canonical hs ht hne hmoved
  have hall : AreSegments (newDir ++ rest) := hnew.append hsegs.of_append_right
  refine ⟨canonical_ofSegments hall, fun e => ?_, fun c hc => ?_⟩
  · exact hrest (List.append_eq_nil_iff.1 ((ofSegments_eq_root hall).1 e)).2
  · rcases mem_toList_ofSegments hc with rfl | ⟨s, hs, hc⟩
    · exact Or.inl rfl
    · rcases List.mem_append.1 hs with hs | hs
      · exact hchars c (mem_toList_of_mem_segment hs hc)
      · exact h.chars c (mem_toList_of_mem_segment (List.mem_append_right dir hs) hc)

end Path

/-- Files stored under admissible paths, none below another one, unless a NUL hides it. -/
structure Shaped (allowed : Char → Prop) (files : String → Option FileRow) : Prop where
  admissible : ∀ path row, files path = some row → Path.Admissible allowed path
  apart : ∀ path dir row above, files path = some row → files dir = some above →
    Path.isBelow path dir = true → '\x00' ∈ dir.toList

namespace Shaped

variable {allowed : Char → Prop} {files : String → Option FileRow} {path source target : String}
  {row : FileRow}

theorem empty : Shaped allowed fun _ => none :=
  ⟨fun _ _ h => (nomatch h), fun _ _ _ _ h => (nomatch h)⟩

theorem of_update_none {p : String} (h : Function.update files path none p = some row) :
    files p = some row := by
  by_cases he : p = path
  · rw [he, Function.update_self] at h
    cases h
  · rwa [Function.update_of_ne he] at h

theorem erase (h : Shaped allowed files) (path : String) :
    Shaped allowed (Function.update files path none) where
  admissible p found hp := h.admissible p found (of_update_none hp)
  apart p dir found above hp hdir :=
    h.apart p dir found above (of_update_none hp) (of_update_none hdir)

/-- A file fits where no file is above it and, when there is none at its path, none below. -/
theorem put (h : Shaped allowed files) (hpath : Path.Admissible allowed path)
    (habove : ∀ dir above, files dir = some above → Path.isBelow path dir = true →
      '\x00' ∈ dir.toList)
    (hbelow : files path = none → ∀ p found, files p = some found → Path.isBelow p path = true →
      '\x00' ∈ path.toList) :
    Shaped allowed (Function.update files path (some row)) := by
  constructor
  · intro p found hp
    by_cases he : p = path
    · rw [he]
      exact hpath
    · rw [Function.update_of_ne he] at hp
      exact h.admissible p found hp
  · intro p dir found above hp hdir hlies
    by_cases hd : dir = path
    · subst hd
      have hne : p ≠ dir := by
        rintro rfl
        rw [Path.isBelow_self] at hlies
        exact Bool.false_ne_true hlies
      rw [Function.update_of_ne hne] at hp
      rcases hthere : files dir with _ | there
      · exact hbelow hthere p found hp hlies
      · exact h.apart p dir found there hp hthere hlies
    · rw [Function.update_of_ne hd] at hdir
      by_cases he : p = path
      · subst he
        exact habove dir above hdir hlies
      · rw [Function.update_of_ne he] at hp
        exact h.apart p dir found above hp hdir hlies

end Shaped

namespace Service

variable {σ : Type} {service : Service σ} {identity : Identity} {drive after : Drive σ}
  {allowed : Char → Prop} {db : Database} {path source target : String}

/-! ## The check of the place of a file -/

/-- Where a file may be placed, no file is above. -/
theorem placed_above (h : checkPlacement path db = .ok ()) (hs : Shaped allowed db.rowAt)
    (hpath : Path.Canonical path) {dir : String} {row : FileRow} (hrow : db.rowAt dir = some row) :
    Path.isBelow path dir = false := by
  rw [← Bool.not_eq_true]
  intro hbelow
  have hdir := hs.admissible dir row hrow
  obtain ⟨segs, hsegs, rfl⟩ := hpath
  obtain ⟨pre, hpre, rfl⟩ := hdir.canonical
  obtain ⟨hstart, hshort⟩ := (Path.isBelow_ofSegments hsegs hpre).1 hbelow
  have hne : pre ≠ [] := fun e => hdir.notRoot ((Path.ofSegments_eq_root hpre).2 e)
  have hbetween := (Path.mem_between_ofSegments hsegs).2 ⟨pre, hne, hstart, hshort, rfl⟩
  rw [(checkPlacement_eq_ok h).1 _ hbetween] at hrow
  cases hrow

/-- Where a file may be placed that has none, nothing that is stored lies below, unless a NUL hides
it. -/
theorem placed_below (h : checkPlacement path db = .ok ()) (hfree : db.rowAt path = none)
    {other : String} {row : FileRow} (hrow : db.rowAt other = some row)
    (hbelow : Path.isBelow other path = true) : '\x00' ∈ path.toList := by
  by_contra hnul
  have hstored := (checkPlacement_eq_ok h).2 hfree row (Database.mem_of_rowAt hrow)
  rw [Database.path_of_rowAt hrow] at hstored
  rw [Database.isStoredBelow_of_isBelow hbelow hnul] at hstored
  exact Bool.false_ne_true hstored.symm

/-- A file that is put where it may be placed fits. -/
theorem shaped_of_placed {row : FileRow} (hs : Shaped allowed db.rowAt)
    (h : checkPlacement path db = .ok ()) (hpath : Path.Admissible allowed path) :
    Shaped allowed (Function.update db.rowAt path (some row)) := by
  refine hs.put hpath (fun dir above hrow hbelow => ?_) fun hfree p found hp hbelow => ?_
  · rw [placed_above h hs hpath.canonical hrow] at hbelow
    exact absurd hbelow Bool.false_ne_true
  · exact placed_below h hfree hp hbelow

/-- So does a file that is taken there from another path. -/
theorem shaped_of_shifts {before : Database} (hs : Shaped allowed before.rowAt)
    (h : checkPlacement target before = .ok ()) (hshifts : Shifts before db source target)
    (hpath : Path.Admissible allowed target) : Shaped allowed db.rowAt := by
  obtain ⟨old, new, -, hfree, -, -, hbecomes⟩ := hshifts
  rw [hbecomes.rowAt]
  refine (hs.erase source).put hpath (fun dir above hrow hbelow => ?_) fun _ p found hp hbelow => ?_
  · rw [placed_above h hs hpath.canonical (Shaped.of_update_none hrow)] at hbelow
    exact absurd hbelow Bool.false_ne_true
  · exact placed_below h hfree (Shaped.of_update_none hp) hbelow

/-- A file that is changed where it is stays where it fits. -/
theorem shaped_of_revised {row new : FileRow} (hs : Shaped allowed db.rowAt)
    (hrow : db.rowAt path = some row) :
    Shaped allowed (Function.update db.rowAt path (some new)) := by
  have hpath := hs.admissible path row hrow
  refine hs.put hpath (fun dir above hdir hbelow => ?_) fun hnone _ _ _ _ => ?_
  · exact hs.apart path dir row above hrow hdir hbelow
  · rw [hrow] at hnone
    cases hnone

/-! ## Requests -/

theorem shaped_of_moved {granted : Prop} {result : Except DriveError Unit}
    (h : Moved service granted source target drive result after)
    (hs : Shaped allowed drive.db.rowAt) (hne : source ≠ target)
    (hpath : Path.Admissible allowed target) : Shaped allowed after.db.rowAt := by
  rcases h.shifts hne with hsame | ⟨-, hplaced, hshifts⟩
  · rwa [hsame]
  · exact shaped_of_shifts hs hplaced hshifts hpath

theorem shaped_of_removed {granted : Prop} {result : Except DriveError Unit}
    (h : Removed service granted path drive result after) (hs : Shaped allowed drive.db.rowAt) :
    Shaped allowed after.db.rowAt := by
  rcases h.clears with hsame | ⟨_, -, -, hbecomes⟩
  · rwa [hsame]
  · rw [hbecomes.rowAt]
    exact hs.erase path

/-- What lies below a directory is not the directory, the root aside. -/
theorem ne_of_stored (h : Database.isStoredBelow path source = true) (hroot : path ≠ Path.root) :
    path ≠ source := by
  rintro rfl
  unfold Database.isStoredBelow at h
  rw [Bool.and_eq_true, List.isPrefixOf_iff_prefix, Path.stem, if_neg hroot] at h
  have hlen := h.2.length_le
  rw [String.toList_append, List.length_append] at hlen
  have hslash : "/".toList.length = 1 := rfl
  omega

theorem shaped_of_pathMoved {result : Except DriveError BatchReport} {dir newDir : String}
    (h : PathMoved service identity (Path.normalize dir) (Path.normalize newDir) drive result after)
    (hs : Shaped allowed drive.db.rowAt) (hchars : ∀ c ∈ newDir.toList, allowed c) :
    Shaped allowed after.db.rowAt := by
  cases h with
  | refused => exact hs
  | single apart notRoot moved =>
    have htarget := Path.admissible_normalize hchars notRoot
    exact shaped_of_moved moved hs (fun e => apart (Or.inl e)) htarget
  | batch apart offered _ batch =>
    refine batch.preserves (I := fun drive => Shaped allowed drive.db.rowAt)
      (fun item hitem drive outcome mid hs' hmoved => ?_) hs
    -- The item was looked at before the batch, while `hs'` is about what the others have left.
    have hoffered := offered item hitem
    obtain ⟨row, hrow⟩ := hoffered.row
    have hsource := hs.admissible item.source row hrow
    have hne := hoffered.apart (Path.canonical_normalize dir) (Path.canonical_normalize newDir)
      fun hsame => apart (Or.inl hsame)
    refine shaped_of_moved hmoved hs' hne ?_
    exact hsource.rebase (Path.canonical_normalize dir) (Path.canonical_normalize newDir)
      (Path.chars_normalize hchars) (ne_of_stored hoffered.below hsource.notRoot) hoffered.rebase_eq

theorem shaped_of_pathDeleted {result : Except DriveError BatchReport}
    (h : PathDeleted service identity path drive result after)
    (hs : Shaped allowed drive.db.rowAt) :
    Shaped allowed after.db.rowAt := by
  cases h with
  | refused => exact hs
  | single removed => exact shaped_of_removed removed hs
  | batch _ batch =>
    exact batch.preserves (I := fun drive => Shaped allowed drive.db.rowAt)
      (fun item _ drive outcome mid hs' hremoved => shaped_of_removed hremoved hs') hs

theorem shaped_of_created {request : CreateRequest} {result : Except DriveError File}
    (h : Created service identity request drive result after) (hs : Shaped allowed drive.db.rowAt)
    (hchars : ∀ c ∈ request.path.toList, allowed c) : Shaped allowed after.db.rowAt := by
  cases h with
  | refused => exact hs
  | unstored => exact hs
  | stored notRoot _ placed _ _ prepared _ =>
    obtain ⟨row, hbecomes, -⟩ := becomes_of_prepared prepared
    rw [hbecomes.rowAt]
    exact shaped_of_placed hs placed (Path.admissible_normalize hchars notRoot)

theorem shaped_of_updated {request : UpdateRequest} {result : Except DriveError File}
    (h : Updated service identity path request drive result after)
    (hs : Shaped allowed drive.db.rowAt)
    (hchars : ∀ newPath ∈ request.newPath, ∀ c ∈ newPath.toList, allowed c) :
    Shaped allowed after.db.rowAt := by
  cases h with
  | refused => exact hs
  | uncarried => exact hs
  | changed notRoot permitted placed content prepared carried =>
    obtain ⟨row, hrow, hfree, hbecomes⟩ := Database.updateFile_becomes prepared
    by_cases hsame : path = request.target path
    · rw [hbecomes.rowAt, ← hsame, Function.update_idem]
      exact shaped_of_revised hs hrow
    · rw [if_neg hsame] at hbecomes
      obtain ⟨howner, hcreated⟩ := Database.updatedRow_keeps
      refine shaped_of_shifts hs (placed (Ne.symm hsame)).1
        ⟨row, _, hrow, hfree hsame, howner, hcreated, hbecomes⟩ ?_
      unfold UpdateRequest.target at hsame notRoot ⊢
      rcases hnew : request.newPath with _ | newPath
      · rw [hnew] at hsame
        exact absurd rfl hsame
      · rw [hnew] at notRoot
        exact Path.admissible_normalize (hchars newPath hnew) notRoot

theorem Served.shaped {request : Request} {reply : Except DriveError Reply}
    (h : Served service identity drive request reply after) (hs : Shaped allowed drive.db.rowAt)
    (hchars : ∀ path ∈ request.paths, ∀ c ∈ path.toList, allowed c) :
    Shaped allowed after.db.rowAt := by
  cases h with
  | looked _ looked =>
    cases looked with
    | unasked => exact hs
    | asked => exact hs
  | created created => exact shaped_of_created created hs (hchars _ List.mem_cons_self)
  | updated updated =>
    refine shaped_of_updated updated hs fun newPath hnew => hchars newPath ?_
    exact List.mem_cons_of_mem _ (Option.mem_toList.2 hnew)
  | moved moved =>
    exact shaped_of_pathMoved moved hs (hchars _ (List.mem_cons_of_mem _ List.mem_cons_self))
  | deleted deleted => exact shaped_of_pathDeleted deleted hs
  | recordsSet set =>
    cases set with
    | refused => exact hs
    | replaced _ prepared =>
      rw [(Database.replaceRecords_becomes prepared).rowAt]
      exact hs
  | shareIssued issued =>
    cases issued with
    | refused => exact hs
    | issued _ _ prepared =>
      obtain rfl := Database.createShare_eq_ok prepared
      exact hs
  | shareTaken taken =>
    cases taken with
    | refused => exact hs
    | taken prepared =>
      obtain rfl := Database.deleteShare_eq_ok prepared
      exact hs

/-! ## Runs -/

theorem Reaches.shaped {stores : ObjectStore σ → Prop} {objects : σ} {clock : Timestamp}
    {history : List Event} (h : service.Reaches stores (Drive.fresh objects clock) history drive)
    (hchars : ∀ event ∈ history, ∀ path ∈ event.request.paths, ∀ c ∈ path.toList, allowed c) :
    Shaped allowed drive.db.rowAt := by
  refine (h.invariant Database.keyed_empty
    (I := fun history drive =>
      (∀ event ∈ history, ∀ path ∈ event.request.paths, ∀ c ∈ path.toList, allowed c) →
        Shaped allowed drive.db.rowAt) (fun _ => ?_) ?_).2 hchars
  · exact Database.rowAt_empty ▸ Shaped.empty
  · intro history drive store identity request reply after _ _ ih hserved hall
    refine hserved.shaped (ih fun event hevent => hall event (List.mem_append_left _ hevent)) ?_
    exact hall _ (List.mem_append_right _ List.mem_cons_self)

/-- However requests go and whatever the object store does, files are stored under canonical paths,
and none below another one, provided that no path in a request has a NUL. -/
theorem Reaches.tree_shape {stores : ObjectStore σ → Prop} {objects : σ} {clock : Timestamp}
    {history : List Event} (h : service.Reaches stores (Drive.fresh objects clock) history drive)
    (hnul : ∀ event ∈ history, ∀ path ∈ event.request.paths, '\x00' ∉ path.toList) :
    (∀ path row, drive.db.rowAt path = some row → Path.Canonical path ∧ path ≠ Path.root) ∧
      ∀ path dir row above, drive.db.rowAt path = some row → drive.db.rowAt dir = some above →
        Path.isBelow path dir = false := by
  have hs : Shaped (· ≠ '\x00') drive.db.rowAt :=
    h.shaped fun event hevent path hpath c hc e => hnul event hevent path hpath (e ▸ hc)
  constructor
  · intro path row hrow
    have hpath := hs.admissible path row hrow
    exact ⟨hpath.canonical, hpath.notRoot⟩
  · intro path dir row above hrow habove
    rw [← Bool.not_eq_true]
    intro hbelow
    have hmem := hs.apart path dir row above hrow habove hbelow
    rcases (hs.admissible dir above habove).chars _ hmem with e | hne
    · exact absurd e (by decide)
    · exact hne rfl

/-- A directory moves up into its own parent. -/
theorem tree_shape_after_move_up :
    let ann : Identity := ⟨"ann", "ann", ["admins"], "", "", false⟩
    let service : Service Tree := ⟨Directory.store, .enforcing "admins", 0, toString, fun _ => none⟩
    let creation : Request := .create ⟨"/a/a//b", "", false, ⟨0, "text/plain", .empty⟩⟩
    let created := (service.serve ann creation).on (Drive.fresh Tree.empty .epoch)
    let moved := (service.serve ann (.move "/a/a" "/a" none)).on created.2
    (moved.2.db.rowAt "/a/b").isSome = true ∧
      (∀ path row, moved.2.db.rowAt path = some row → Path.Canonical path ∧ path ≠ Path.root) ∧
      ∀ path dir row above, moved.2.db.rowAt path = some row → moved.2.db.rowAt dir = some above →
        Path.isBelow path dir = false := by
  intro ann service creation created moved
  have hstart : service.Reaches (· = service.store) _ [] (Drive.fresh Tree.empty .epoch) := .start
  have hcreated := hstart.next rfl ann creation
  have hmoved := hcreated.next rfl ann (.move "/a/a" "/a" none)
  exact ⟨by decide +kernel, hmoved.tree_shape (by decide +kernel)⟩

end Service

end FileDrive
