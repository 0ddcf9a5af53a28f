import FileDrive.Proofs.AllOrNothing
import FileDrive.Proofs.Logins

/-!
# Stores that do as they are asked

An object store is faithful when each of its calls does what it is asked for or nothing at all
(`ObjectStore.Faithful`); a directory is, whichever of its calls are made to fail
(`Directory.faithful`). Requests, however they go, then leave every file with an object at its path
(`Evolves.supplied`), so that there is something to move when a file moves.
-/

namespace FileDrive

open FileDrive.DriveM FileDrive.Time

variable {σ β : Type}

/-- A store that keeps objects under canonical paths, as `kept` reads them off a `sound` value, and
of which every call does its part or changes nothing. -/
structure ObjectStore.Faithful (store : ObjectStore σ) (sound : σ → Prop)
    (kept : σ → String → Option β) : Prop where
  get : ∀ {path range objects result after}, sound objects →
    store.get path range objects = (result, after) → sound after ∧ kept after = kept objects
  put_error : ∀ {path size stream contentType objects after e}, sound objects →
    store.put path size stream contentType objects = (.error e, after) →
      sound after ∧ kept after = kept objects
  put_ok : ∀ {path size stream contentType objects after}, sound objects → Path.Canonical path →
    store.put path size stream contentType objects = (.ok (), after) →
      sound after ∧ ∃ object, kept after = Function.update (kept objects) path (some object)
  move_error : ∀ {source target objects after e}, sound objects →
    store.move source target objects = (.error e, after) → sound after ∧ kept after = kept objects
  move_ok : ∀ {source target objects after object}, sound objects → Path.Canonical source →
    Path.Canonical target → kept objects source = some object →
      store.move source target objects = (.ok (), after) →
        sound after ∧ kept after =
          Function.update (Function.update (kept objects) source none) target (some object)
  delete_error : ∀ {path objects after e}, sound objects →
    store.delete path objects = (.error e, after) → sound after ∧ kept after = kept objects
  delete_ok : ∀ {path objects after}, sound objects → Path.Canonical path →
    store.delete path objects = (.ok (), after) →
      sound after ∧ kept after = Function.update (kept objects) path none

/-! ## Directories -/

namespace Directory

variable {tree after : Tree} {path source target : String} {P Q : Place} {data : ByteArray}

theorem fileAt_of_objectAt (h : objectAt tree path = some data) :
    ∃ P, place path = .ok P ∧ tree.fileAt P = some data := by
  unfold objectAt at h
  split at h
  · rcases hP : place path with e | P
    · rw [hP] at h
      cases h
    · rw [hP] at h
      exact ⟨P, rfl, h⟩
  · cases h

/-- What moves from the place of one path to that of another moves between these paths. -/
theorem objectAt_of_moved (hsource : Path.Canonical source) (htarget : Path.Canonical target)
    (hP : place source = .ok P) (hQ : place target = .ok Q)
    (h : after.fileAt = Function.update (Function.update tree.fileAt P none) Q (some data)) :
    objectAt after =
      Function.update (Function.update (objectAt tree) source none) target (some data) := by
  funext q
  by_cases hcanonical : Path.normalize q = q
  swap
  · have hne : ∀ path, Path.Canonical path → q ≠ path := fun path hpath e =>
      hcanonical (e ▸ Path.canonical_iff.1 hpath)
    rw [Function.update_of_ne (hne target htarget), Function.update_of_ne (hne source hsource),
      objectAt, objectAt, if_neg hcanonical, if_neg hcanonical]
  -- Two paths have one place only when they are the same.
  have hplace : ∀ {path R}, Path.Canonical path → place path = .ok R → q ≠ path →
      place q ≠ .ok R := fun hpath hR hne hq =>
    hne (place_injective (Path.canonical_iff.2 hcanonical) (ne_root_of_place hq) hpath
      (ne_root_of_place hR) hq hR)
  rw [objectAt, if_pos hcanonical]
  by_cases hq : q = target
  · rw [hq, Function.update_self, hQ, h]
    exact Function.update_self ..
  rw [Function.update_of_ne hq]
  have hqQ := hplace htarget hQ hq
  by_cases hqs : q = source
  · subst hqs
    have hne : P ≠ Q := fun e => hqQ (e ▸ hP)
    rw [Function.update_self, hP, h]
    show Function.update (Function.update tree.fileAt P none) Q (some data) P = none
    rw [Function.update_of_ne hne, Function.update_self]
  rw [Function.update_of_ne hqs, objectAt, if_pos hcanonical]
  have hqP := hplace hsource hP hqs
  rcases hR : place q with _ | R
  · rfl
  · have hneQ : R ≠ Q := fun e => hqQ (e ▸ hR)
    have hneP : R ≠ P := fun e => hqP (e ▸ hR)
    show after.fileAt R = tree.fileAt R
    rw [h, Function.update_of_ne hneQ, Function.update_of_ne hneP]

theorem faithful (faults : StoreFaults) :
    (store.withFaults faults).Faithful Tree.Sound objectAt where
  get hs h := by
    rcases ObjectStore.of_fault h with ⟨-, rfl⟩ | hcall
    · exact ⟨hs, rfl⟩
    · obtain rfl := congrArg Prod.snd hcall
      exact ⟨hs, rfl⟩
  put_error hs h := by
    rcases ObjectStore.of_fault h with ⟨-, rfl⟩ | hcall
    · exact ⟨hs, rfl⟩
    · have hkeeps := put_error hs hcall
      exact ⟨hkeeps.sound, objectAt_of_keeps hkeeps⟩
  put_ok hs hpath h := (atomic faults).put_ok hs hpath h
  move_error hs h := by
    rcases ObjectStore.of_fault h with ⟨-, rfl⟩ | hcall
    · exact ⟨hs, rfl⟩
    · have hkeeps := move_error hs hcall
      exact ⟨hkeeps.sound, objectAt_of_keeps hkeeps⟩
  move_ok hs hsource htarget hobject h := by
    rcases ObjectStore.of_fault h with ⟨hno, -⟩ | hcall
    · cases hno
    · obtain ⟨P, hP, hdata⟩ := fileAt_of_objectAt hobject
      obtain ⟨Q, hQ, hsound, hfiles⟩ := move_ok hs hP hdata hcall
      exact ⟨hsound, objectAt_of_moved hsource htarget hP hQ hfiles⟩
  delete_error hs h := (atomic faults).delete_error hs h
  delete_ok hs hpath h := by
    rcases ObjectStore.of_fault h with ⟨hno, -⟩ | hcall
    · cases hno
    · obtain ⟨P, hP, hsound, hfiles⟩ := delete_ok hs hcall
      exact ⟨hsound, objectAt_of_update hpath hP hfiles⟩

end Directory

/-! ## Every file has an object -/

/-- Files are stored under canonical paths, and at each of these there is an object. -/
def Stocked (rows : String → Option FileRow) (objects : String → Option β) : Prop :=
  ∀ path row, rows path = some row → Path.Canonical path ∧ ∃ object, objects path = some object

namespace Stocked

variable {rows : String → Option FileRow} {objects : String → Option β} {path : String}
  {row : FileRow} {object : β}

theorem put (h : Stocked rows objects) (hpath : Path.Canonical path) :
    Stocked (Function.update rows path (some row))
      (Function.update objects path (some object)) := by
  intro p found hp
  by_cases he : p = path
  · subst he
    exact ⟨hpath, object, Function.update_self ..⟩
  · rw [Function.update_of_ne he] at hp ⊢
    exact h p found hp

/-- Where no file is, anything may happen to an object. -/
theorem stray (h : Stocked rows objects) (hfree : rows path = none) (found : Option β) :
    Stocked rows (Function.update objects path found) := by
  intro p row hp
  have hne : p ≠ path := by
    rintro rfl
    rw [hfree] at hp
    cases hp
  rw [Function.update_of_ne hne]
  exact h p row hp

theorem forget (h : Stocked rows objects) (path : String) :
    Stocked (Function.update rows path none) objects :=
  fun p found hp => h p found (Shaped.of_update_none hp)

theorem erase (h : Stocked rows objects) (path : String) :
    Stocked (Function.update rows path none) (Function.update objects path none) :=
  (h.forget path).stray (Function.update_self ..) none

end Stocked

namespace Service

variable {service : Service σ} {identity : Identity} {drive after : Drive σ}
  {sound : σ → Prop} {kept : σ → String → Option β} {path source target : String}

/-- The objects of a drive are sound, and every file has one. -/
structure Supplied (sound : σ → Prop) (kept : σ → String → Option β) (drive : Drive σ) : Prop where
  sound : sound drive.objects
  stocked : Stocked drive.db.rowAt (kept drive.objects)

theorem Supplied.of_same (h : Supplied sound kept drive) (hrows : after.db.rowAt = drive.db.rowAt)
    (hsound : sound after.objects) (hkept : kept after.objects = kept drive.objects) :
    Supplied sound kept after := ⟨hsound, by rw [hrows, hkept]; exact h.stocked⟩

theorem Moved.supplied {granted : Prop} {result : Except DriveError Unit}
    (h : Moved service granted source target drive result after)
    (hstore : service.store.Faithful sound kept) (hs : Supplied sound kept drive)
    (htarget : Path.Canonical target) : Supplied sound kept after := by
  cases h with
  | refused => exact ⟨hs.sound, hs.stocked⟩
  | unmoved move =>
    obtain ⟨hsound, hsame⟩ := hstore.move_error hs.sound move
    exact hs.of_same rfl hsound hsame
  | moved _ _ prepared move =>
    obtain ⟨row, hrow, -, hbecomes⟩ := Database.moveFile_becomes prepared
    obtain ⟨hsource, object, hobject⟩ := hs.stocked source row hrow
    obtain ⟨hsound, hmoved⟩ := hstore.move_ok hs.sound hsource htarget hobject move
    refine ⟨hsound, ?_⟩
    show Stocked (Database.rowAt _) (kept _)
    rw [hbecomes.rowAt, hmoved]
    exact (hs.stocked.erase source).put htarget

theorem Removed.supplied {granted : Prop} {result : Except DriveError Unit}
    (h : Removed service granted path drive result after)
    (hstore : service.store.Faithful sound kept) (hs : Supplied sound kept drive) :
    Supplied sound kept after := by
  cases h with
  | refused => exact hs
  | undeleted delete =>
    obtain ⟨hsound, hsame⟩ := hstore.delete_error hs.sound delete
    exact hs.of_same rfl hsound hsame
  | removed _ prepared delete gone =>
    obtain ⟨⟨row, hrow⟩, hbecomes⟩ := Database.deleteFile_becomes prepared
    obtain ⟨hpath, -⟩ := hs.stocked path row hrow
    rcases gone with rfl | ⟨missing, rfl⟩
    · obtain ⟨hsound, hkept⟩ := hstore.delete_ok hs.sound hpath delete
      refine ⟨hsound, ?_⟩
      show Stocked (Database.rowAt _) (kept _)
      rw [hbecomes.rowAt, hkept]
      exact hs.stocked.erase path
    · obtain ⟨hsound, hkept⟩ := hstore.delete_error hs.sound delete
      refine ⟨hsound, ?_⟩
      show Stocked (Database.rowAt _) (kept _)
      rw [hbecomes.rowAt, hkept]
      exact hs.stocked.forget path

theorem Created.supplied {request : CreateRequest} {result : Except DriveError File}
    (h : Created service identity request drive result after)
    (hstore : service.store.Faithful sound kept) (hs : Supplied sound kept drive) :
    Supplied sound kept after := by
  cases h with
  | refused => exact ⟨hs.sound, hs.stocked⟩
  | unstored put =>
    obtain ⟨hsound, hsame⟩ := hstore.put_error hs.sound put
    exact hs.of_same rfl hsound hsame
  | stored _ _ _ _ _ prepared put =>
    have hpath := Path.canonical_normalize request.path
    obtain ⟨row, hbecomes, -⟩ := becomes_of_prepared prepared
    obtain ⟨hsound, object, hkept⟩ := hstore.put_ok hs.sound hpath put
    refine ⟨hsound, ?_⟩
    show Stocked (Database.rowAt _) (kept _)
    rw [hbecomes.rowAt, hkept]
    exact hs.stocked.put hpath

/-- A change that the store has carried out has left an object at the new path, and none but those
at the two paths are concerned. -/
theorem Carried.stocked {store : ObjectStore σ} {newPath contentType : String}
    {content : Option Upload} {objects left : σ} {row new : FileRow}
    (h : Carried store path newPath contentType objects content (.ok ()) left)
    (hstore : store.Faithful sound kept) (hsound : sound objects)
    {rows : String → Option FileRow} (hs : Stocked rows (kept objects))
    (hrow : rows path = some row) (hnew : Path.Canonical newPath) :
    sound left ∧
      Stocked (Function.update (Function.update rows path none) newPath (some new))
        (kept left) := by
  obtain ⟨hpath, object, hobject⟩ := hs path row hrow
  cases h with
  | kept same =>
    subst same
    have hsame : Function.update (Function.update (kept objects) newPath none) newPath
        (some object) = kept objects := by
      rw [Function.update_idem, ← hobject, Function.update_eq_self]
    exact ⟨hsound, hsame ▸ (hs.erase newPath).put hnew⟩
  | moved renamed move =>
    obtain ⟨hleft, hmoved⟩ := hstore.move_ok hsound hpath hnew hobject move
    rw [hmoved]
    exact ⟨hleft, (hs.erase path).put hnew⟩
  | put same put =>
    obtain ⟨hleft, object, hput⟩ := hstore.put_ok hsound hnew put
    rw [hput]
    exact ⟨hleft, (hs.forget path).put hnew⟩
  | replaced renamed put delete =>
    obtain ⟨hmid, object, hput⟩ := hstore.put_ok hsound hnew put
    obtain ⟨hleft, hdeleted⟩ := hstore.delete_ok hmid hpath delete
    -- Putting the new object before the old one is taken out comes to the same.
    rw [hdeleted, hput, Function.update_comm renamed (some object) none (kept objects)]
    exact ⟨hleft, (hs.erase path).put hnew⟩

/-- A change that the store has not carried out has left each file its object. -/
theorem Carried.stocked_of_error {store : ObjectStore σ} {newPath contentType : String}
    {content : Option Upload} {objects left : σ} {e : DriveError}
    (h : Carried store path newPath contentType objects content (.error e) left)
    (hstore : store.Faithful sound kept) (hsound : sound objects)
    {rows : String → Option FileRow} (hs : Stocked rows (kept objects))
    (hnew : Path.Canonical newPath) (hfree : path ≠ newPath → rows newPath = none) :
    sound left ∧ Stocked rows (kept left) := by
  cases h with
  | unmoved _ move =>
    obtain ⟨hleft, hsame⟩ := hstore.move_error hsound move
    exact ⟨hleft, hsame ▸ hs⟩
  | unput put =>
    obtain ⟨hleft, hsame⟩ := hstore.put_error hsound put
    exact ⟨hleft, hsame ▸ hs⟩
  | @undone upload e result mid between left renamed put delete undo =>
    have hnone := hfree (Ne.symm renamed)
    obtain ⟨hmid, object, hput⟩ := hstore.put_ok hsound hnew put
    obtain ⟨hbetween, hsame⟩ := hstore.delete_error hmid delete
    rcases result with undone | _
    · obtain ⟨hleft, hstays⟩ := hstore.delete_error hbetween undo
      rw [hstays, hsame, hput]
      exact ⟨hleft, hs.stray hnone _⟩
    · obtain ⟨hleft, hgone⟩ := hstore.delete_ok hbetween hnew undo
      rw [hgone, hsame, hput, Function.update_idem]
      exact ⟨hleft, hs.stray hnone _⟩

theorem Updated.supplied {request : UpdateRequest} {result : Except DriveError File}
    (h : Updated service identity path request drive result after)
    (hstore : service.store.Faithful sound kept) (hs : Supplied sound kept drive)
    (hpath : Path.Canonical path) : Supplied sound kept after := by
  have htarget := canonical_target request hpath
  cases h with
  | refused => exact ⟨hs.sound, hs.stocked⟩
  | uncarried prepared carried =>
    obtain ⟨row, -, hfree, -⟩ := Database.updateFile_becomes prepared
    obtain ⟨hsound, hstocked⟩ :=
      carried.stocked_of_error hstore hs.sound hs.stocked htarget hfree
    exact ⟨hsound, hstocked⟩
  | changed _ _ _ _ prepared carried =>
    obtain ⟨row, hrow, -, hbecomes⟩ := Database.updateFile_becomes prepared
    obtain ⟨hsound, hstocked⟩ := carried.stocked hstore hs.sound hs.stocked hrow htarget
    refine ⟨hsound, ?_⟩
    show Stocked (Database.rowAt _) (kept _)
    rw [hbecomes.rowAt]
    exact hstocked

theorem Served.supplied {request : Request} {reply : Except DriveError Reply}
    (h : Served service identity drive request reply after)
    (hstore : service.store.Faithful sound kept) (hs : Supplied sound kept drive) :
    Supplied sound kept after := by
  cases h with
  | looked _ looked =>
    cases looked with
    | unasked => exact hs
    | asked get =>
      obtain ⟨hsound, hsame⟩ := hstore.get hs.sound get
      exact hs.of_same rfl hsound hsame
  | created created => exact created.supplied hstore hs
  | @updated path _ _ _ updated =>
    exact updated.supplied hstore hs (Path.canonical_normalize path)
  | @moved source target _ _ _ moved =>
    have htarget := Path.canonical_normalize target
    cases moved with
    | refused => exact hs
    | single _ _ moved => exact moved.supplied hstore hs htarget
    | batch _ offered _ batch =>
      exact batch.preserves (fun item hitem _ _ _ hs moved => moved.supplied hstore hs
        (Path.canonical_of_rebase htarget (offered item hitem).rebase_eq)) hs
  | deleted deleted =>
    cases deleted with
    | refused => exact hs
    | single removed => exact removed.supplied hstore hs
    | batch _ batch =>
      exact batch.preserves (fun _ _ _ _ _ hs removed => removed.supplied hstore hs) hs
  | recordsSet set =>
    cases set with
    | refused => exact hs
    | replaced _ prepared =>
      exact hs.of_same (Database.replaceRecords_becomes prepared).rowAt hs.sound rfl
  | shareIssued issued =>
    cases issued with
    | refused => exact ⟨hs.sound, hs.stocked⟩
    | issued _ _ prepared =>
      obtain rfl := Database.createShare_eq_ok prepared
      exact ⟨hs.sound, hs.stocked⟩
  | shareTaken taken =>
    cases taken with
    | refused => exact hs
    | taken prepared =>
      obtain rfl := Database.deleteShare_eq_ok prepared
      exact hs.of_same rfl hs.sound rfl

/-- However requests and logins go, as long as their stores are faithful, every file has an object. -/
theorem Evolves.supplied {stores : ObjectStore σ → Prop} {objects : σ} {clock : Timestamp}
    {history : List Event} (h : service.Evolves stores (Drive.fresh objects clock) history drive)
    (hstores : ∀ store, stores store → store.Faithful sound kept) (hsound : sound objects) :
    Supplied sound kept drive := by
  refine (h.invariant Database.keyed_empty (I := fun _ drive => Supplied sound kept drive)
    ?_ ?_ ?_).2
  · refine ⟨hsound, fun path row hrow => ?_⟩
    rw [show (Drive.fresh objects clock).db.rowAt = fun _ => none from Database.rowAt_empty] at hrow
    cases hrow
  · intro history drive store identity request reply after hstore _ ih hserved
    exact hserved.supplied (hstores store hstore) ih
  · intro history drive after ih haside
    exact ih.of_same haside.1.rowAt (haside.2 ▸ ih.sound) (by rw [haside.2])

end Service

end FileDrive
