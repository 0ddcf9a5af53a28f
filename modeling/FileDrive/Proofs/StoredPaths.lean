import FileDrive.Proofs.DirectoryObjects
import FileDrive.Proofs.Logins

/-!
# Stored paths without a NUL

Below a path with a NUL in it nothing is found, so there the check of the place of a file can be
passed by. Such paths do not come to be stored when the object store takes none of them, as the file
system of a machine does (`Directory.refusesNul`), or when nobody asks for one (`KeepsOutNul`). Then
no stored path has a NUL in it (`Evolves.nulFree`), and no stored file lies below another one,
without exception (`NulFree.unnested`).
-/

namespace FileDrive

open FileDrive.DriveM FileDrive.Time

/-- What a text has besides the separator is in its pieces. -/
theorem Text.exists_mem_pieces (sep : Char) {c : Char} {s : List Char} (hc : c ≠ sep) (h : c ∈ s) :
    ∃ piece ∈ pieces sep s, c ∈ piece := by
  induction s with
  | nil => cases h
  | cons d s ih =>
    by_cases hd : d = sep
    · have hs : c ∈ s := (List.mem_cons.1 h).resolve_left fun e => hc (e.trans hd)
      obtain ⟨piece, hpiece, hmem⟩ := ih hs
      exact ⟨piece, by rw [pieces, if_pos hd]; exact List.mem_cons_of_mem _ hpiece, hmem⟩
    · obtain ⟨first, more, hs, hds⟩ := pieces_cons_ne hd s
      rw [hds]
      rcases List.mem_cons.1 h with rfl | h
      · exact ⟨c :: first, List.mem_cons_self, List.mem_cons_self⟩
      · obtain ⟨piece, hpiece, hmem⟩ := ih h
        rw [hs] at hpiece
        rcases List.mem_cons.1 hpiece with rfl | hpiece
        · exact ⟨d :: piece, List.mem_cons_self, List.mem_cons_of_mem d hmem⟩
        · exact ⟨piece, List.mem_cons_of_mem _ hpiece, hmem⟩

variable {σ : Type}

/-- A store that takes no object to a path with a NUL in it. -/
structure ObjectStore.RefusesNul (store : ObjectStore σ) : Prop where
  put : ∀ {path size stream contentType objects after},
    store.put path size stream contentType objects = (.ok (), after) → '\x00' ∉ path.toList
  move : ∀ {source target objects after},
    store.move source target objects = (.ok (), after) → '\x00' ∉ target.toList

/-- In a history with some stores no path with a NUL in it comes to be stored: none of the stores
takes one, or no request names one. -/
def KeepsOutNul (stores : ObjectStore σ → Prop) (history : List Event) : Prop :=
  (∀ store, stores store → store.RefusesNul) ∨
    ∀ event ∈ history, ∀ path ∈ event.request.paths, '\x00' ∉ path.toList

/-! ## Directories -/

namespace Tree

variable {tree : Tree} {place : Place}

theorem hasNul_of_makeDirectories (h : (tree.makeDirectories place).1 = .ok ()) :
    hasNul place = false := by
  rw [← Bool.not_eq_true]
  intro hnul
  rw [makeDirectories, if_pos hnul] at h
  cases h

theorem hasNul_of_find {found : Option Entry} (h : tree.find place = .ok found) :
    hasNul place = false := by
  rw [← Bool.not_eq_true]
  intro hnul
  rw [find, if_pos hnul] at h
  cases h

theorem hasNul_of_rename {source target : Place} {after : Tree}
    (h : tree.rename source target = .ok after) : hasNul target = false := by
  obtain ⟨moved, -, h⟩ := bind_eq_ok.1 h
  cases moved with
  | none => cases h
  | some moved =>
    obtain ⟨replaced, hreplaced, -⟩ := bind_eq_ok.1 h
    exact hasNul_of_find hreplaced

theorem hasNul_append (above below : Place) :
    hasNul (above ++ below) = (hasNul above || hasNul below) := List.any_append

end Tree

namespace Directory

variable {path : String} {place : Place}

/-- A NUL in a path is in one of the names that lead to its place. -/
theorem notMem_nul_of_place (h : Directory.place path = .ok place)
    (hnul : Tree.hasNul place = false) : '\x00' ∉ path.toList := by
  intro hmem
  obtain ⟨piece, hpiece, hin⟩ := Text.exists_mem_pieces '/' (by decide) hmem
  unfold Directory.place at h
  dsimp only at h
  split at h
  · cases h
  · obtain rfl := Except.ok.inj h
    have hempty : piece ≠ [] := List.ne_nil_of_mem hin
    have hdot : piece ≠ ['.'] := by
      rintro rfl
      rw [List.mem_singleton] at hin
      exact absurd hin (by decide)
    have hname : Tree.hasNul (((Text.pieces '/' path.toList).filter fun name =>
        name ≠ [] && name ≠ ['.']).map String.ofList) = true := by
      rw [Tree.hasNul, List.any_map, List.any_eq_true]
      refine ⟨piece, List.mem_filter.2 ⟨hpiece, by simp [hempty, hdot]⟩, ?_⟩
      rw [Function.comp_apply, String.toList_ofList, List.contains_iff_mem]
      exact hin
    rw [hnul] at hname
    cases hname

theorem put_nul {size : Nat} {stream : ByteStream} {tree after : Tree}
    (h : put path size stream tree = (.ok (), after)) : '\x00' ∉ path.toList := by
  obtain ⟨place, made, hplace, hmade, htemporary, -⟩ := put_eq_ok h
  have habove := Tree.hasNul_of_makeDirectories (congrArg Prod.fst hmade)
  refine notMem_nul_of_place hplace ?_
  unfold temporaryFile at htemporary
  dsimp only at htemporary
  split at htemporary
  · cases htemporary
  · next hlast =>
    have hne := place_ne_nil hplace
    rw [← List.dropLast_append_getLast hne, Tree.hasNul_append, habove, Bool.false_or,
      ← Bool.not_eq_true]
    rwa [List.getLastD_eq_getLast?, List.getLast?_eq_some_getLast hne] at hlast

theorem move_nul {source target : String} {tree after : Tree}
    (h : move source target tree = (.ok (), after)) : '\x00' ∉ target.toList := by
  obtain ⟨_, place, _, _, -, hplace, -, hrenamed, -⟩ := move_eq_ok h
  exact notMem_nul_of_place hplace (Tree.hasNul_of_rename hrenamed)

/-- A file system has no names with a NUL in them. -/
theorem refusesNul (faults : StoreFaults) : (store.withFaults faults).RefusesNul where
  put h := by
    rcases ObjectStore.of_fault h with ⟨hno, -⟩ | hcall
    · cases hno
    · exact put_nul hcall
  move h := by
    rcases ObjectStore.of_fault h with ⟨hno, -⟩ | hcall
    · cases hno
    · exact move_nul hcall

end Directory

/-! ## Runs -/

namespace Service

variable {service : Service σ} {identity : Identity} {drive after : Drive σ}
  {source target path : String}

/-- No file is stored under a path with a NUL in it. -/
def NulFree (files : String → Option FileRow) : Prop :=
  ∀ path row, files path = some row → '\x00' ∉ path.toList

theorem NulFree.erase {files : String → Option FileRow} (h : NulFree files) (path : String) :
    NulFree (Function.update files path none) :=
  fun p row hp => h p row (Shaped.of_update_none hp)

theorem NulFree.put {files : String → Option FileRow} {row : FileRow} (h : NulFree files)
    (hpath : '\x00' ∉ path.toList) : NulFree (Function.update files path (some row)) := by
  intro p found hp
  by_cases he : p = path
  · rwa [he]
  · rw [Function.update_of_ne he] at hp
    exact h p found hp

/-- No stored file lies below another one. -/
def Unnested (files : String → Option FileRow) : Prop :=
  ∀ path dir row above, files path = some row → files dir = some above →
    Path.isBelow path dir = false

/-- Of files that fit together, none lies below another one when their paths have no NUL. -/
theorem NulFree.unnested {files : String → Option FileRow} (h : NulFree files)
    (hshaped : Shaped (fun _ => True) files) : Unnested files := by
  intro path dir row above hrow habove
  rw [← Bool.not_eq_true]
  intro hbelow
  exact h dir above habove (hshaped.apart path dir row above hrow habove hbelow)

theorem Moved.nulFree {granted : Prop} {result : Except DriveError Unit}
    (h : Moved service granted source target drive result after)
    (hstore : service.store.RefusesNul) (hfree : NulFree drive.db.rowAt) :
    NulFree after.db.rowAt := by
  cases h with
  | refused => exact hfree
  | unmoved => exact hfree
  | moved _ _ prepared move =>
    obtain ⟨row, -, -, hbecomes⟩ := Database.moveFile_becomes prepared
    dsimp only
    rw [hbecomes.rowAt]
    exact (hfree.erase source).put (hstore.move move)

theorem Removed.nulFree {granted : Prop} {result : Except DriveError Unit}
    (h : Removed service granted path drive result after) (hfree : NulFree drive.db.rowAt) :
    NulFree after.db.rowAt := by
  rcases h.clears with hsame | ⟨_, -, -, hbecomes⟩
  · rwa [hsame]
  · rw [hbecomes.rowAt]
    exact hfree.erase path

/-- A change of a file that has been carried out has not taken it to a path with a NUL in it. -/
theorem Carried.notMem_nul {store : ObjectStore σ} {newPath contentType : String}
    {content : Option Upload} {kept after : σ}
    (h : Carried store path newPath contentType kept content (.ok ()) after)
    (hstore : store.RefusesNul) (hpath : '\x00' ∉ path.toList) : '\x00' ∉ newPath.toList := by
  cases h with
  | kept same => rwa [same]
  | moved _ move => exact hstore.move move
  | put _ put => exact hstore.put put
  | replaced _ put _ => exact hstore.put put

theorem Updated.nulFree {request : UpdateRequest} {result : Except DriveError File}
    (h : Updated service identity path request drive result after)
    (hstore : service.store.RefusesNul) (hfree : NulFree drive.db.rowAt) :
    NulFree after.db.rowAt := by
  cases h with
  | refused => exact hfree
  | uncarried => exact hfree
  | changed notRoot permitted placed content prepared carried =>
    obtain ⟨row, hrow, -, hbecomes⟩ := Database.updateFile_becomes prepared
    dsimp only
    rw [hbecomes.rowAt]
    exact (hfree.erase path).put (carried.notMem_nul hstore (hfree path row hrow))

theorem Served.nulFree {request : Request} {reply : Except DriveError Reply}
    (h : Served service identity drive request reply after)
    (hstore : service.store.RefusesNul) (hfree : NulFree drive.db.rowAt) :
    NulFree after.db.rowAt := by
  cases h with
  | looked _ looked =>
    cases looked with
    | unasked => exact hfree
    | asked => exact hfree
  | created created =>
    cases created with
    | refused => exact hfree
    | unstored => exact hfree
    | stored _ _ _ _ _ prepared put =>
      obtain ⟨row, hbecomes, -⟩ := becomes_of_prepared prepared
      dsimp only
      rw [hbecomes.rowAt]
      exact hfree.put (hstore.put put)
  | updated updated => exact updated.nulFree hstore hfree
  | moved moved =>
    cases moved with
    | refused => exact hfree
    | single _ _ moved => exact moved.nulFree hstore hfree
    | batch _ _ _ batch =>
      exact batch.preserves (I := fun drive => NulFree drive.db.rowAt)
        (fun _ _ _ _ _ hfree moved => moved.nulFree hstore hfree) hfree
  | deleted deleted =>
    cases deleted with
    | refused => exact hfree
    | single removed => exact removed.nulFree hfree
    | batch _ batch =>
      exact batch.preserves (I := fun drive => NulFree drive.db.rowAt)
        (fun _ _ _ _ _ hfree removed => removed.nulFree hfree) hfree
  | recordsSet set =>
    cases set with
    | refused => exact hfree
    | replaced _ prepared =>
      dsimp only
      rw [(Database.replaceRecords_becomes prepared).rowAt]
      exact hfree
  | shareIssued issued =>
    cases issued with
    | refused => exact hfree
    | issued _ _ prepared =>
      obtain rfl := Database.createShare_eq_ok prepared
      exact hfree
  | shareTaken taken =>
    cases taken with
    | refused => exact hfree
    | taken prepared =>
      obtain rfl := Database.deleteShare_eq_ok prepared
      exact hfree

theorem Evolves.nulFree {stores : ObjectStore σ → Prop} {objects : σ} {clock : Timestamp}
    {history : List Event} (h : service.Evolves stores (Drive.fresh objects clock) history drive)
    (hnul : KeepsOutNul stores history) : NulFree drive.db.rowAt := by
  rcases hnul with hstores | hpaths
  · refine (h.invariant Database.keyed_empty (I := fun _ drive => NulFree drive.db.rowAt)
      ?_ ?_ ?_).2
    · intro path row hrow
      rw [show (Drive.fresh objects clock).db.rowAt = fun _ => none from
        Database.rowAt_empty] at hrow
      cases hrow
    · intro history drive store identity request reply after hstore _ ih hserved
      exact hserved.nulFree (hstores store hstore) ih
    · intro history drive after ih haside
      exact haside.1.rowAt ▸ ih
  · have hshaped : Shaped (· ≠ '\x00') drive.db.rowAt :=
      h.shaped fun event hevent path hpath c hc e => hpaths event hevent path hpath (e ▸ hc)
    intro path row hrow hmem
    rcases (hshaped.admissible path row hrow).chars _ hmem with e | hne
    · exact absurd e (by decide)
    · exact hne rfl

end Service

end FileDrive
