import FileDrive.Proofs.DirectoryObjects
import FileDrive.Proofs.Serving

/-!
# Failed requests leave nothing behind

A request that ends in an error has committed nothing, and of the object store it has made one call
that failed, unless it was to give a file new content at a new path. That takes two calls, and when
the second one fails the first is taken back (`Carried.undone`). Nothing was kept at the new path
before, because no file was there; so taking the new object out again puts the store back, and one
object is left over exactly when that fails too (`Stranded`).

All that is asked of the store is that a call does its part or nothing (`ObjectStore.Atomic`). A
directory is such a store, whichever of its calls are made to fail (`Directory.atomic`).
-/

namespace FileDrive

open FileDrive.DriveM FileDrive.Time

variable {σ β : Type}

/-- A store that keeps objects under canonical paths, as `kept` reads them off a `sound` value. A
call that fails changes none of them, storing an object changes the one at its path, and taking one
out leaves nothing at its path. -/
structure ObjectStore.Atomic (store : ObjectStore σ) (sound : σ → Prop)
    (kept : σ → String → Option β) : Prop where
  put_error : ∀ {path size stream contentType objects after e}, sound objects →
    store.put path size stream contentType objects = (.error e, after) → kept after = kept objects
  put_ok : ∀ {path size stream contentType objects after}, sound objects → Path.Canonical path →
    store.put path size stream contentType objects = (.ok (), after) →
      sound after ∧ ∃ object, kept after = Function.update (kept objects) path (some object)
  move_error : ∀ {source target objects after e}, sound objects →
    store.move source target objects = (.error e, after) → kept after = kept objects
  delete_error : ∀ {path objects after e}, sound objects →
    store.delete path objects = (.error e, after) → sound after ∧ kept after = kept objects
  delete_ok : ∀ {path objects after}, sound objects → Path.Canonical path →
    store.delete path objects = (.ok (), after) →
      kept after = Function.update (kept objects) path none

/-- New content for a file has been stored at a new path, and then neither the old object could be
taken out nor the new one. The new one is left over. -/
inductive Stranded (store : ObjectStore σ) (kept : σ → String → Option β) (path newPath : String)
    (content : Option Upload) (objects after : σ) : Prop where
  | intro {upload : Upload} {contentType : String} {mid between : σ} {e undone : StorageError}
      {object : β} (content_eq : content = some upload) (renamed : newPath ≠ path)
      (put : store.put newPath upload.size upload.stream contentType objects = (.ok (), mid))
      (delete : store.delete path mid = (.error e, between))
      (undo : store.delete newPath between = (.error undone, after))
      (free : kept objects newPath = none)
      (extra : kept after = Function.update (kept objects) newPath (some object))

/-! ## Directories -/

namespace Directory

/-- The bytes of the object at a path in canonical spelling. -/
def objectAt (tree : Tree) (path : String) : Option ByteArray :=
  if Path.normalize path = path then (place path).toOption.bind tree.fileAt else none

variable {tree after : Tree} {path : String} {P : Place} {found : Option ByteArray}

theorem objectAt_of_keeps (h : Tree.Keeps tree after) : objectAt after = objectAt tree := by
  funext path
  rw [objectAt, objectAt, h.files]

theorem objectAt_empty : objectAt Tree.empty path = none := by
  unfold objectAt
  split
  · rcases place path with _ | P
    · rfl
    · exact Tree.fileAt_empty
  · rfl

/-- What changes at the place of a path changes at that path only. -/
theorem objectAt_of_update (hpath : Path.Canonical path) (hP : place path = .ok P)
    (h : after.fileAt = Function.update tree.fileAt P found) :
    objectAt after = Function.update (objectAt tree) path found := by
  funext q
  by_cases hq : q = path
  · rw [hq, Function.update_self, objectAt, if_pos (Path.canonical_iff.1 hpath), hP, h]
    exact Function.update_self ..
  · rw [Function.update_of_ne hq, objectAt, objectAt]
    by_cases hcanonical : Path.normalize q = q
    · rw [if_pos hcanonical, if_pos hcanonical]
      rcases hQ : place q with _ | Q
      · rfl
      · have hne : Q ≠ P := by
          rintro rfl
          exact hq (place_injective (Path.canonical_iff.2 hcanonical) (ne_root_of_place hQ) hpath
            (ne_root_of_place hP) hQ hP)
        change after.fileAt Q = tree.fileAt Q
        rw [h, Function.update_of_ne hne]
    · rw [if_neg hcanonical, if_neg hcanonical]

/-- In a directory a call does its part or nothing. -/
theorem atomic (faults : StoreFaults) : (store.withFaults faults).Atomic Tree.Sound objectAt where
  put_error hs h := by
    rcases ObjectStore.of_fault h with ⟨-, rfl⟩ | hcall
    · rfl
    · exact objectAt_of_keeps (put_error hs hcall)
  put_ok hs hpath h := by
    rcases ObjectStore.of_fault h with ⟨hno, -⟩ | hcall
    · cases hno
    · obtain ⟨P, hP, hsound, hfiles, -⟩ := put_ok hs hcall
      exact ⟨hsound, _, objectAt_of_update hpath hP hfiles⟩
  move_error hs h := by
    rcases ObjectStore.of_fault h with ⟨-, rfl⟩ | hcall
    · rfl
    · exact objectAt_of_keeps (move_error hs hcall)
  delete_error hs h := by
    rcases ObjectStore.of_fault h with ⟨-, rfl⟩ | hcall
    · exact ⟨hs, rfl⟩
    · rw [delete_error hcall]
      exact ⟨hs, rfl⟩
  delete_ok hs hpath h := by
    rcases ObjectStore.of_fault h with ⟨hno, -⟩ | hcall
    · cases hno
    · obtain ⟨P, hP, -, hfiles⟩ := delete_ok hs hcall
      exact objectAt_of_update hpath hP hfiles

end Directory

/-! ## Requests -/

namespace Service

variable {service : Service σ} {identity : Identity} {drive after : Drive σ} {e : DriveError}
  {sound : σ → Prop} {kept : σ → String → Option β}

theorem error_of_map {α γ : Type} {f : α → γ} {result : Except DriveError α}
    (h : result.map f = .error e) : result = .error e := by
  cases result with
  | error found => exact congrArg Except.error (Except.error.inj h)
  | ok value => cases h

/-- Metadata and objects are as they were. -/
structure Untouched (kept : σ → String → Option β) (drive after : Drive σ) : Prop where
  db : after.db = drive.db
  objects : kept after.objects = kept drive.objects

theorem Untouched.but {p : Prop} (h : Untouched kept drive after) :
    after.db = drive.db ∧ (kept after.objects = kept drive.objects ∨ p) :=
  ⟨h.db, Or.inl h.objects⟩

/-- When the store cannot carry out a change of a file, it keeps what it kept before, unless a new
object is left over. -/
theorem Carried.kept_of_error {store : ObjectStore σ} {path newPath contentType : String}
    {content : Option Upload} {objects left : σ}
    (h : Carried store path newPath contentType objects content (.error e) left)
    (hstore : store.Atomic sound kept) (hsound : sound objects) (hnew : Path.Canonical newPath)
    (hfree : newPath ≠ path → kept objects newPath = none) :
    kept left = kept objects ∨ Stranded store kept path newPath content objects left := by
  cases h with
  | unmoved _ move => exact Or.inl (hstore.move_error hsound move)
  | unput put => exact Or.inl (hstore.put_error hsound put)
  | @undone upload e result mid between left renamed put delete undo =>
    have hnone := hfree renamed
    obtain ⟨hmid, object, hput⟩ := hstore.put_ok hsound hnew put
    obtain ⟨hbetween, hsame⟩ := hstore.delete_error hmid delete
    rcases result with undone | _
    · right
      obtain ⟨-, hstays⟩ := hstore.delete_error hbetween undo
      exact ⟨rfl, renamed, put, delete, undo, hnone, by rw [hstays, hsame, hput]⟩
    · left
      rw [hstore.delete_ok hbetween hnew undo, hsame, hput, Function.update_idem, ← hnone,
        Function.update_eq_self]

theorem Created.untouched {request : CreateRequest}
    (h : Created service identity request drive (.error e) after)
    (hstore : service.store.Atomic sound kept) (hsound : sound drive.objects) :
    Untouched kept drive after := by
  cases h with
  | refused => exact ⟨rfl, rfl⟩
  | unstored put => exact ⟨rfl, hstore.put_error hsound put⟩

theorem Updated.untouched {path : String} {request : UpdateRequest}
    (h : Updated service identity path request drive (.error e) after)
    (hstore : service.store.Atomic sound kept) (hsound : sound drive.objects)
    (hpath : Path.Canonical path)
    (howned : ∀ path, kept drive.objects path ≠ none → drive.db.rowAt path ≠ none) :
    after.db = drive.db ∧ (kept after.objects = kept drive.objects ∨
      Stranded service.store kept path (request.target path) request.content drive.objects
        after.objects) := by
  cases h with
  | refused => exact ⟨rfl, Or.inl rfl⟩
  | uncarried prepared carried =>
    obtain ⟨row, -, hfree, -⟩ := Database.updateFile_becomes prepared
    refine ⟨rfl, carried.kept_of_error hstore hsound (canonical_target request hpath) ?_⟩
    intro hne
    -- No row, hence no object, is at a path that a file may be given.
    by_contra hthere
    exact howned _ hthere (hfree (Ne.symm hne))

theorem Moved.untouched {granted : Prop} {source target : String}
    (h : Moved service granted source target drive (.error e) after)
    (hstore : service.store.Atomic sound kept) (hsound : sound drive.objects) :
    Untouched kept drive after := by
  cases h with
  | refused => exact ⟨rfl, rfl⟩
  | unmoved move => exact ⟨rfl, hstore.move_error hsound move⟩

theorem Removed.untouched {granted : Prop} {path : String}
    (h : Removed service granted path drive (.error e) after)
    (hstore : service.store.Atomic sound kept) (hsound : sound drive.objects) :
    Untouched kept drive after := by
  cases h with
  | refused => exact ⟨rfl, rfl⟩
  | undeleted delete => exact ⟨rfl, (hstore.delete_error hsound delete).2⟩

/-- Of a directory as many files as possible are moved, which does not fail any more. -/
theorem PathMoved.untouched {source target : String} {result : Except DriveError BatchReport}
    (h : PathMoved service identity source target drive result after) (herror : result = .error e)
    (hstore : service.store.Atomic sound kept) (hsound : sound drive.objects) :
    Untouched kept drive after := by
  cases h with
  | refused => exact ⟨rfl, rfl⟩
  | single _ _ moved =>
    obtain rfl := error_of_map herror
    exact moved.untouched hstore hsound
  | batch => cases herror

theorem PathDeleted.untouched {path : String} {result : Except DriveError BatchReport}
    (h : PathDeleted service identity path drive result after) (herror : result = .error e)
    (hstore : service.store.Atomic sound kept) (hsound : sound drive.objects) :
    Untouched kept drive after := by
  cases h with
  | refused => exact ⟨rfl, rfl⟩
  | single removed =>
    obtain rfl := error_of_map herror
    exact removed.untouched hstore hsound
  | batch => cases herror

/-- However a request to change something fails, and wherever it does, the metadata are exactly what
they were and so are the objects. The one exception is a change of a file that has stored new
content at a new path and then can take out neither the old object nor the new one. -/
theorem serve_all_or_nothing {request : Request} (hchanges : request.reads = false)
    (hstore : service.store.Atomic sound kept) (hsound : sound drive.objects)
    (hkeyed : drive.db.Keyed)
    (howned : ∀ path, kept drive.objects path ≠ none → drive.db.rowAt path ≠ none)
    (h : (service.serve identity request).on drive = (.error e, after)) :
    after.db = drive.db ∧ (kept after.objects = kept drive.objects ∨
      ∃ path change, request = .update path change ∧
        Stranded service.store kept (Path.normalize path) (change.target (Path.normalize path))
          change.content drive.objects after.objects) := by
  have hserved : Served service identity drive request (.error e) after := by
    have hends := serve_ends service identity request hkeyed
    unfold Ends at hends
    rwa [h] at hends
  generalize hreply : (Except.error e : Except DriveError Reply) = reply at hserved
  cases hserved with
  | looked looks =>
    rw [looks] at hchanges
    cases hchanges
  | created created =>
    obtain rfl := error_of_map hreply.symm
    exact (created.untouched hstore hsound).but
  | @updated path change _ _ updated =>
    obtain rfl := error_of_map hreply.symm
    obtain ⟨hdb, hobjects | hstranded⟩ :=
      updated.untouched hstore hsound (Path.canonical_normalize path) howned
    · exact ⟨hdb, Or.inl hobjects⟩
    · exact ⟨hdb, Or.inr ⟨path, change, rfl, hstranded⟩⟩
  | moved moved => exact (moved.untouched (error_of_map hreply.symm) hstore hsound).but
  | deleted deleted => exact (deleted.untouched (error_of_map hreply.symm) hstore hsound).but
  | recordsSet set =>
    obtain rfl := error_of_map hreply.symm
    cases set with
    | refused => exact Untouched.but ⟨rfl, rfl⟩
  | shareIssued issued =>
    obtain rfl := error_of_map hreply.symm
    cases issued with
    | refused => exact Untouched.but ⟨rfl, rfl⟩
  | shareTaken taken =>
    obtain rfl := error_of_map hreply.symm
    cases taken with
    | refused => exact Untouched.but ⟨rfl, rfl⟩

/-- Nothing can be taken out while an admin gives a file new content at a new path. -/
theorem all_or_nothing_but_stranded_update :
    let ann : Identity := ⟨"ann", "ann", ["admins"], "", "", false⟩
    let change : UpdateRequest := ⟨some "/b", none, some ⟨1, "text/plain", ⟨⟨#[2]⟩, none⟩⟩⟩
    let stuck := Directory.store.withFaults { StoreFaults.none with delete := fun _ => true }
    let service : Service Tree := ⟨stuck, .enforcing "admins", 0, toString, fun _ => none⟩
    let drive : Drive Tree :=
      ⟨Database.empty.withFiles [⟨"/a", 1, "text/plain", "", "ann", "", ""⟩],
        Tree.empty.insert ["a"] (.file ⟨#[1]⟩), .epoch, 0⟩
    let failed := (service.serve ann (.update "/a" change)).on drive
    failed.1.isOk = false ∧ failed.2.db = drive.db ∧
      Stranded stuck Directory.objectAt "/a" "/b" change.content drive.objects
        failed.2.objects := by
  intro ann change stuck service drive failed
  have hfails : failed.1.isOk = false := by decide +kernel
  obtain ⟨e, he⟩ : ∃ e, failed.1 = .error e := by
    rcases h : failed.1 with e | reply
    · exact ⟨e, rfl⟩
    · rw [h] at hfails
      cases hfails
  have hends : (service.serve ann (.update "/a" change)).on drive = (.error e, failed.2) :=
    Prod.ext he rfl
  have hobjects : Directory.objectAt drive.objects =
      Function.update (Directory.objectAt Tree.empty) "/a" (some ⟨#[1]⟩) :=
    Directory.objectAt_of_update (Path.canonical_normalize "/a") (P := ["a"]) (by decide +kernel)
      (Tree.fileAt_of_update (Tree.entry?_insert _ (by decide) _))
  have hsound : drive.objects.Sound :=
    Tree.sound_empty.update (by decide) (Tree.entry?_insert _ (by decide) _) (fun _ => rfl)
      (Or.inr fun _ hroot _ => Tree.entry?_of_ne hroot)
  have howned : ∀ path, Directory.objectAt drive.objects path ≠ none →
      drive.db.rowAt path ≠ none := by
    intro path hthere
    rw [hobjects] at hthere
    by_cases hpath : path = "/a"
    · rw [hpath]
      decide +kernel
    · rw [Function.update_of_ne hpath] at hthere
      exact absurd Directory.objectAt_empty hthere
  obtain ⟨hdb, hobjects | ⟨path, found, hrequest, hstranded⟩⟩ :=
    serve_all_or_nothing (by rfl) (Directory.atomic _) hsound (List.nodup_singleton _) howned hends
  · have hthere : (Directory.objectAt failed.2.objects "/b").isSome = true := by decide +kernel
    rw [hobjects] at hthere
    exact absurd hthere (by decide +kernel)
  · obtain ⟨rfl, rfl⟩ := Request.update.inj hrequest
    exact ⟨hfails, hdb, hstranded⟩

end Service

end FileDrive
