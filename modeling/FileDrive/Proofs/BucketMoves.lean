import FileDrive.Proofs.BatchOutcomes
import FileDrive.Proofs.EscapedKeys
import FileDrive.Proofs.UploadedParts

/-!
# Moves in a bucket

There is no call that moves an object. It is copied, and then the one that was copied is taken out,
and either call can fail. So there are three ends (`Transferred`): the object has moved, all is as it
was, or the object is under both keys. There is no time at which it is under neither.

A drive moves a file by a change of the metadata that it commits only when the object has moved. A
copy that is left over is under a key that no file has, since the change would not have been prepared
otherwise. So whichever calls fail, every file finds its object, as long as its row says (`Sized`),
and no bytes are lost (`Keeps`).
-/

namespace FileDrive

namespace Bucket

open FileDrive.Text ServerM

variable {server : Server} {key source target : String} {object : StoredObject}

/-- The object under a key. -/
def Server.object? (server : Server) (key : String) : Option StoredObject :=
  server.objects.lookup key

namespace Server

theorem object?_withObject (server : Server) (key : String) (object : StoredObject) :
    (server.withObject key object).object? = Function.update server.object? key (some object) := by
  funext other
  rw [object?, lookup_withObject, Function.update_apply]
  rfl

theorem object?_withoutObject (server : Server) (key : String) :
    (server.withoutObject key).object? = Function.update server.object? key none := by
  funext other
  rw [object?, withoutObject, lookup_filter_key, Function.update_apply]
  rfl

/-! ## The two calls -/

theorem perform_copyObject {copied : String}
    (hcopied : copied = server.bucket ++ "/" ++ percentEncode source) (key : String) :
    server.perform (.copyObject key copied) = (.error 404, server) ∨
      ∃ object, server.object? source = some object ∧
        server.perform (.copyObject key copied) = (.ok .done, server.withObject key object) := by
  dsimp only [perform]
  split
  · exact Or.inl rfl
  rcases hfound : (server.sourceKey? copied).bind fun name => server.objects.lookup name with
    _ | object
  · exact Or.inl rfl
  · obtain ⟨name, hname, hobject⟩ := Option.bind_eq_some_iff.1 hfound
    rw [hcopied] at hname
    rw [sourceKey?_eq_some hname] at hobject
    exact Or.inr ⟨object, hobject, rfl⟩

/-- What is copied is what is under the key that the call names, or nothing is. -/
theorem send_copyObject {copied : String}
    (hcopied : copied = server.bucket ++ "/" ++ percentEncode source) (key : String) :
    (∃ refusal, (server.send (.copyObject key copied)).1 = .error refusal ∧
        (server.send (.copyObject key copied)).2.object? = server.object?) ∨
      ∃ object, server.object? source = some object ∧
        (server.send (.copyObject key copied)).1 = .ok .done ∧
        (server.send (.copyObject key copied)).2.object? =
          Function.update server.object? key (some object) := by
  by_cases h : server.Grants (.copyObject key copied)
  · rw [h.send]
    have hlogged : copied = (server.logged (.copyObject key copied)).bucket ++ "/" ++
      percentEncode source := hcopied
    obtain hmissing | ⟨object, hobject, hdone⟩ := perform_copyObject hlogged key
    · rw [hmissing]
      exact Or.inl ⟨_, rfl, rfl⟩
    · rw [hdone]
      exact Or.inr ⟨object, hobject, rfl, object?_withObject ..⟩
  · obtain ⟨refusal, log, hrefused⟩ := send_refused h
    rw [hrefused]
    exact Or.inl ⟨refusal, rfl, rfl⟩

/-- An object is taken out, or it stays. -/
theorem send_deleteObject (server : Server) (key : String) :
    (∃ refusal, (server.send (.deleteObject key)).1 = .error refusal ∧
        (server.send (.deleteObject key)).2.object? = server.object?) ∨
      ((server.send (.deleteObject key)).1 = .ok .done ∧
        (server.send (.deleteObject key)).2.object? =
          Function.update server.object? key none) := by
  by_cases h : server.Grants (.deleteObject key)
  · rw [h.send]
    dsimp only [perform]
    split
    · exact Or.inl ⟨_, rfl, rfl⟩
    · exact Or.inr ⟨rfl, object?_withoutObject ..⟩
  · obtain ⟨refusal, log, hrefused⟩ := send_refused h
    rw [hrefused]
    exact Or.inl ⟨refusal, rfl, rfl⟩

/-- On a steady server an object that is there is copied, when the name of the bucket can be read as
it is written. -/
theorem Steady.copyObject (hs : server.Steady) {copied : String}
    (hplain : percentDecode (utf8 server.bucket.toList) = utf8 server.bucket.toList)
    (hcopied : copied = server.bucket ++ "/" ++ percentEncode source)
    (hthere : server.object? source = some object) (hkey : key ≠ "") :
    (server.send (.copyObject key copied)).1 = .ok .done := by
  have hfound : ((server.logged (.copyObject key copied)).sourceKey? copied).bind
      (fun name => (server.logged (.copyObject key copied)).objects.lookup name) = some object := by
    rw [show (server.logged (.copyObject key copied)).sourceKey? copied = some source from
      hcopied ▸ sourceKey?_of_plain hplain source]
    exact hthere
  rw [hs.send (c := .copyObject key copied) rfl hkey]
  simp only [Server.perform, (hs.logged _).there, hfound, Bool.false_eq_true, if_false]
  rfl

theorem Steady.deletes (hs : server.Steady) (hkey : key ≠ "") :
    (server.send (.deleteObject key)).1 = .ok .done := by
  rw [hs.send (c := .deleteObject key) rfl hkey]
  simp only [Server.perform, (hs.logged _).there, Bool.false_eq_true, if_false]
  rfl

end Server

/-! ## Moving an object -/

/-- How it ends to move what is under the key `source` to the key `target`, told by what is under
each key before and afterwards. -/
inductive Transferred (objects : String → Option StoredObject) (source target : String) :
    Except StorageError Unit → (String → Option StoredObject) → Prop where
  /-- It is under the second key, and no longer under the first. -/
  | moved {object : StoredObject} (there : objects source = some object) :
      Transferred objects source target (.ok ())
        (Function.update (Function.update objects source none) target (some object))
  /-- Everything is as it was. -/
  | kept (e : StorageError) : Transferred objects source target (.error e) objects
  /-- It is under both keys. -/
  | copied {object : StoredObject} (e : StorageError) (there : objects source = some object) :
      Transferred objects source target (.error e) (Function.update objects target (some object))

/-- When a move fails, what it was to move is where it was. -/
theorem Transferred.source_of_error {objects after : String → Option StoredObject}
    {e : StorageError} (h : Transferred objects source target (.error e) after)
    (hne : source ≠ target) : after source = objects source := by
  cases h with
  | kept => rfl
  | copied => exact Function.update_of_ne hne _ _

theorem Transferred.of_ok {objects after : String → Option StoredObject}
    (h : Transferred objects source target (.ok ()) after) :
    ∃ object, objects source = some object ∧
      after = Function.update (Function.update objects source none) target (some object) := by
  cases h with
  | moved there => exact ⟨_, there, rfl⟩

/-- Whichever calls fail, a move ends in one of the three ways. -/
theorem moveObject_ends (server : Server) (hne : objectKey source ≠ objectKey target) :
    (moveObject source target).Ends server fun result after =>
      Transferred server.object? (objectKey source) (objectKey target) result after.object? := by
  unfold moveObject
  apply Ends.get_bind
  apply Ends.bind
  apply Ends.discard
  apply Ends.call
  obtain ⟨refusal, hrefused, hsame⟩ | ⟨object, hthere, hcopied, hobjects⟩ :=
    Server.send_copyObject (rfl : _ = server.bucket ++ "/" ++ percentEncode (objectKey source))
      (objectKey target)
  · rw [hrefused, hsame]
    exact .kept _
  rw [hcopied]
  show (deleteObject source).Ends _ _
  unfold deleteObject
  apply Ends.discard
  apply Ends.call
  obtain ⟨refusal, hrefused, hsame⟩ | ⟨hdeleted, htaken⟩ :=
    Server.send_deleteObject (server.send (.copyObject (objectKey target)
      (server.bucket ++ "/" ++ percentEncode (objectKey source)))).2 (objectKey source)
  · rw [hrefused, hsame, hobjects]
    exact .copied _ hthere
  · rw [hdeleted, htaken, hobjects, Function.update_comm hne.symm]
    exact .moved hthere

/-- What is there moves, unless a call fails. -/
theorem moveObject_succeeds (hs : server.Steady)
    (hplain : percentDecode (utf8 server.bucket.toList) = utf8 server.bucket.toList)
    (hsource : objectKey source ≠ "") (htarget : objectKey target ≠ "")
    (hthere : server.object? (objectKey source) = some object) :
    (moveObject source target).Ends server fun result _ => result = .ok () := by
  unfold moveObject
  apply Ends.get_bind
  apply Ends.bind
  apply Ends.discard
  apply Ends.call
  rw [hs.copyObject hplain rfl hthere htarget]
  show (deleteObject source).Ends _ _
  unfold deleteObject
  apply Ends.discard
  apply Ends.call
  rw [(hs.after_send rfl htarget).deletes hsource]
  rfl

/-! ## Keys of canonical paths -/

theorem toList_objectKey {path : String} (h : Path.Canonical path) :
    path.toList = '/' :: (objectKey path).toList := by
  obtain ⟨segs, hsegs, rfl⟩ := h
  rw [objectKey, String.toList_ofList]
  cases segs with
  | nil => rfl
  | cons s rest =>
    obtain ⟨hne, -, -, hslash⟩ := hsegs s List.mem_cons_self
    obtain ⟨c, more, rfl⟩ := List.exists_cons_of_ne_nil hne
    have hc : c ≠ '/' := fun hc => hslash (hc ▸ List.mem_cons_self)
    rw [Path.toList_ofSegments (by simp), Path.spell_cons, List.cons_append,
      List.dropWhile_cons_of_pos (by simp), List.dropWhile_cons_of_neg (by simpa)]

/-- Each canonical path has a key of its own. -/
theorem objectKey_injective {path other : String} (h : Path.Canonical path)
    (k : Path.Canonical other) (heq : objectKey path = objectKey other) : path = other :=
  String.toList_injective (by rw [toList_objectKey h, toList_objectKey k, heq])

end Bucket

namespace Service

open FileDrive.DriveM Bucket

variable {service : Service Server} {identity : Identity} {drive mid after : Drive Server}
  {source target : String} {result : Except DriveError Unit}

/-! ## Moving files -/

/-- A drive with one row for each file, under a canonical path. -/
structure Filed (drive : Drive Server) : Prop where
  keyed : drive.db.Keyed
  canonical : ∀ path row, drive.db.rowAt path = some row → Path.Canonical path

/-- Every file finds its object, as long as its row says. -/
def Sized (drive : Drive Server) : Prop :=
  ∀ path row, drive.db.rowAt path = some row →
    ∃ object, drive.objects.object? (objectKey path) = some object ∧ object.data.size = row.size

/-- Every file that there was is there, at its path or another, with the size and the object that it
had. -/
def Keeps (drive after : Drive Server) : Prop :=
  ∀ path row, drive.db.rowAt path = some row →
    ∃ other new, after.db.rowAt other = some new ∧ new.size = row.size ∧
      after.objects.object? (objectKey other) = drive.objects.object? (objectKey path)

theorem Keeps.refl (drive : Drive Server) : Keeps drive drive :=
  fun path row hrow => ⟨path, row, hrow, rfl, rfl⟩

theorem Keeps.trans (h : Keeps drive mid) (k : Keeps mid after) : Keeps drive after := by
  intro path row hrow
  obtain ⟨between, old, hold, hsize, hobject⟩ := h path row hrow
  obtain ⟨other, new, hnew, hsame, hcarried⟩ := k between old hold
  exact ⟨other, new, hnew, hsame.trans hsize, hcarried.trans hobject⟩

/-- Files that were there before find their objects as before. -/
theorem Keeps.sized (h : Keeps after drive) (hsized : Sized drive) : Sized after := by
  intro path row hrow
  obtain ⟨other, old, hold, hsize, hobject⟩ := h path row hrow
  rw [← hobject, ← hsize]
  exact hsized other old hold

/-- What is left when the move of a file is rolled back: the metadata as they were, and with each
file the object that it had. -/
structure RolledBack (drive after : Drive Server) : Prop where
  db : after.db = drive.db
  objects : ∀ path row, drive.db.rowAt path = some row →
    after.objects.object? (objectKey path) = drive.objects.object? (objectKey path)

theorem RolledBack.refl (drive : Drive Server) : RolledBack drive drive :=
  ⟨rfl, fun _ _ _ => rfl⟩

/-- A copy that is left over is under a key that no file has. -/
theorem rolledBack_of_transferred {objects : Server} {clock : Time.Timestamp} {e : StorageError}
    (h : Transferred drive.objects.object? (objectKey source) (objectKey target) (.error e)
      objects.object?)
    (hf : Filed drive) (htarget : Path.Canonical target) (hfree : drive.db.rowAt target = none) :
    RolledBack drive { drive with objects, clock } := by
  refine ⟨rfl, fun path row hrow => ?_⟩
  show objects.object? (objectKey path) = _
  generalize objects.object? = left at h
  cases h with
  | kept => rfl
  | copied =>
    have hkey : objectKey path ≠ objectKey target := by
      intro heq
      obtain rfl := objectKey_injective (hf.canonical path row hrow) htarget heq
      cases hfree.symm.trans hrow
    rw [Function.update_of_ne hkey]

/-- What it comes to when a file is moved: its row and its object move, or it is rolled back. -/
inductive Refiled (source target : String) (drive : Drive Server) :
    Except DriveError Unit → Drive Server → Prop where
  | rolledBack {after : Drive Server} (e : DriveError) (back : RolledBack drive after) :
      Refiled source target drive (.error e) after
  | moved {after : Drive Server} {row new : FileRow} {object : StoredObject}
      (row_eq : drive.db.rowAt source = some row) (free : drive.db.rowAt target = none)
      (size_eq : new.size = row.size) (keyed : after.db.Keyed)
      (rows : after.db.rowAt =
        Function.update (Function.update drive.db.rowAt source none) target (some new))
      (object_eq : drive.objects.object? (objectKey source) = some object)
      (objects : after.objects.object? =
        Function.update (Function.update drive.objects.object? (objectKey source) none)
          (objectKey target) (some object)) :
      Refiled source target drive (.ok ()) after

/-- What a change of one entry into another leaves at a place. -/
theorem update_eq_some {α β : Type} [DecidableEq α] {f : α → Option β} {a b c : α} {x y : β}
    (h : Function.update (Function.update f a none) b (some y) c = some x) :
    (c = b ∧ y = x) ∨ (c ≠ b ∧ c ≠ a ∧ f c = some x) := by
  by_cases hb : c = b
  · rw [hb, Function.update_self] at h
    exact Or.inl ⟨hb, Option.some.inj h⟩
  rw [Function.update_of_ne hb] at h
  by_cases ha : c = a
  · rw [ha, Function.update_self] at h
    cases h
  · rw [Function.update_of_ne ha] at h
    exact Or.inr ⟨hb, ha, h⟩

theorem Refiled.filed (h : Refiled source target drive result after) (hf : Filed drive)
    (htarget : Path.Canonical target) : Filed after := by
  cases h with
  | rolledBack _ back =>
    obtain ⟨hdb, -⟩ := back
    exact ⟨hdb ▸ hf.keyed, hdb ▸ hf.canonical⟩
  | moved _ _ _ keyed rows =>
    refine ⟨keyed, fun path found hfound => ?_⟩
    rw [rows] at hfound
    obtain ⟨rfl, -⟩ | ⟨-, -, hold⟩ := update_eq_some hfound
    · exact htarget
    · exact hf.canonical path found hold

/-- No file is lost, and none comes to be there that was not. -/
theorem Refiled.keeps (h : Refiled source target drive result after) (hf : Filed drive)
    (htarget : Path.Canonical target) : Keeps drive after ∧ Keeps after drive := by
  cases h with
  | rolledBack _ back =>
    obtain ⟨hdb, hobjects⟩ := back
    constructor
    · exact fun path row hrow => ⟨path, row, hdb ▸ hrow, rfl, hobjects path row hrow⟩
    · intro path row hrow
      rw [hdb] at hrow
      exact ⟨path, row, hrow, rfl, (hobjects path row hrow).symm⟩
  | @moved _ row new object hrow hfree hsize _ hrows hobject hobjects =>
    have hsource := hf.canonical source row hrow
    -- A file at any other path stays there, and so does its object.
    have hstays : ∀ path found, path ≠ target → path ≠ source → drive.db.rowAt path = some found →
        after.objects.object? (objectKey path) = drive.objects.object? (objectKey path) := by
      intro path found ht hs hfound
      have hpath := hf.canonical path found hfound
      have hkt : objectKey path ≠ objectKey target :=
        fun heq => ht (objectKey_injective hpath htarget heq)
      have hks : objectKey path ≠ objectKey source :=
        fun heq => hs (objectKey_injective hpath hsource heq)
      rw [hobjects, Function.update_of_ne hkt, Function.update_of_ne hks]
    have hcarried : after.objects.object? (objectKey target) =
        drive.objects.object? (objectKey source) := by
      rw [hobjects, Function.update_self, hobject]
    constructor
    · intro path found hfound
      have ht : path ≠ target := by
        rintro rfl
        cases hfree.symm.trans hfound
      by_cases hs : path = source
      · subst hs
        obtain rfl : row = found := Option.some.inj (hrow.symm.trans hfound)
        exact ⟨target, new, by rw [hrows, Function.update_self], hsize, hcarried⟩
      · refine ⟨path, found, ?_, rfl, hstays path found ht hs hfound⟩
        rw [hrows, Function.update_of_ne ht, Function.update_of_ne hs, hfound]
    · intro path found hfound
      rw [hrows] at hfound
      obtain ⟨rfl, rfl⟩ | ⟨ht, hs, hold⟩ := update_eq_some hfound
      · exact ⟨source, row, hrow, hsize.symm, hcarried.symm⟩
      · exact ⟨path, found, hold, rfl, (hstays path found ht hs hold).symm⟩

theorem relocate_refiled (hstore : service.store = Bucket.store) (hf : Filed drive)
    (htarget : Path.Canonical target) (hne : source ≠ target) :
    (service.relocate source target).Ends drive (Refiled source target drive) := by
  unfold relocate
  refine Ends.now_bind ?_
  refine Ends.query_bind (fun e _ => .rolledBack e ⟨rfl, fun _ _ _ => rfl⟩) fun db hprepared => ?_
  dsimp only at hprepared
  obtain ⟨row, hrow, hfree, hbecomes⟩ := Database.moveFile_becomes hprepared
  have hkeys : objectKey source ≠ objectKey target :=
    fun heq => hne (objectKey_injective (hf.canonical source row hrow) htarget heq)
  have hends := moveObject_ends drive.objects hkeys
  refine Ends.object_bind (fun e objects hmove => ?_) fun _ objects hmove => ?_
  · dsimp only at hmove ⊢
    rw [hstore] at hmove
    have hfailed := hends.of_runOn hmove
    exact .rolledBack _ (rolledBack_of_transferred hfailed hf htarget (hfree hne))
  · refine Ends.commit_bind (Ends.pure ?_)
    dsimp only at hmove ⊢
    rw [hstore] at hmove
    obtain ⟨object, hobject, hobjects⟩ := (hends.of_runOn hmove).of_ok
    have hsize : (Database.movedRow drive.clock.next target row).size = row.size := rfl
    exact .moved hrow (hfree hne) hsize (hbecomes.keyed hf.keyed) hbecomes.rowAt hobject hobjects

theorem moveOne_refiled (hstore : service.store = Bucket.store) (hf : Filed drive)
    (htarget : Path.Canonical target) (hne : source ≠ target) :
    (service.moveOne identity source target).Ends drive (Refiled source target drive) := by
  have refused : ∀ e, Refiled source target drive (.error e) drive :=
    fun e => .rolledBack e (.refl drive)
  unfold moveOne
  refine Ends.authorize_bind refused fun _ => ?_
  refine Ends.query_bind (fun e _ => refused e) fun _ _ => ?_
  exact Ends.authorize_bind refused fun _ => relocate_refiled hstore hf htarget hne

/-- What it comes to when an item of a batch is moved. -/
def ItemRefiled (item : MoveItem) (drive : Drive Server) (result : Except DriveError Unit)
    (after : Drive Server) : Prop :=
  Filed drive → Path.Canonical item.target → item.source ≠ item.target →
    Refiled item.source item.target drive result after

theorem moveItem_refiled (hstore : service.store = Bucket.store) (item : MoveItem)
    (drive : Drive Server) : (service.moveItem item).Ends drive (ItemRefiled item drive) := by
  intro hf htarget hne
  have refused : ∀ e, Refiled item.source item.target drive (.error e) drive :=
    fun e => .rolledBack e (.refl drive)
  show (service.moveItem item).Ends drive (Refiled item.source item.target drive)
  unfold moveItem
  refine Ends.lift_bind (fun e _ => refused e) fun _ _ => ?_
  refine Ends.lift_bind (fun e _ => refused e) fun _ _ => ?_
  refine Ends.query_bind (fun e _ => refused e) fun _ _ => ?_
  exact relocate_refiled hstore hf htarget hne

/-- What is left when a path has been moved, file by file: no file is without its bytes, and what
failed as a whole is rolled back as a whole. -/
structure PathRefiled (drive : Drive Server) (result : Except DriveError BatchReport)
    (after : Drive Server) : Prop where
  filed : Filed after
  keeps : Keeps drive after
  no_others : Keeps after drive
  rolledBack : result.isOk = false → RolledBack drive after

/-- Many files move one by one, and each that does not move is rolled back by itself. -/
theorem movePath_refiled (hstore : service.store = Bucket.store) (hf : Filed drive)
    (identity : Identity) (source target : String) (names : Option (List String)) :
    (service.movePath identity source target names).Ends drive (PathRefiled drive) := by
  have htarget := Path.canonical_normalize target
  apply Ends.movePath names hf.keyed (moveItem_refiled hstore)
  · exact fun e => ⟨hf, .refl drive, .refl drive, fun _ => .refl drive⟩
  · intro hapart _
    have hne : Path.normalize source ≠ Path.normalize target := fun heq => hapart (Or.inl heq)
    apply (moveOne_refiled hstore hf htarget hne).mono
    intro result after hrefiled
    obtain ⟨hkeeps, hothers⟩ := hrefiled.keeps hf htarget
    refine ⟨hrefiled.filed hf htarget, hkeeps, hothers, fun hfails => ?_⟩
    cases hrefiled with
    | rolledBack _ back => exact back
    | moved => cases hfails
  · intro items report after hapart hoffered _ hbatch
    have hne : Path.normalize source ≠ Path.normalize target := fun heq => hapart (Or.inl heq)
    have hleft : Filed after ∧ Keeps drive after ∧ Keeps after drive := by
      refine hbatch.preserves (I := fun mid => Filed mid ∧ Keeps drive mid ∧ Keeps mid drive) ?_
        ⟨hf, .refl drive, .refl drive⟩
      rintro item hitem mid result next ⟨hmid, hkept, hothers⟩ hmoves
      have hcanonical := Path.canonical_of_rebase htarget (hoffered item hitem).rebase_eq
      have hrefiled := hmoves hmid hcanonical
        ((hoffered item hitem).apart (Path.canonical_normalize source) htarget hne)
      obtain ⟨hforth, hback⟩ := hrefiled.keeps hmid hcanonical
      exact ⟨hrefiled.filed hmid hcanonical, hkept.trans hforth, hback.trans hothers⟩
    obtain ⟨hfiled, hkept, hothers⟩ := hleft
    exact ⟨hfiled, hkept, hothers, fun hfails => by cases hfails⟩

/-- Whichever calls to the server fail, an object that is moved from one key to another is under the
second and no longer under the first, or else it is still under the first; and no other key is
touched. So a move of a file that is rolled back leaves every file with the object that it had, and
of many files that move one by one, each keeps its own. A call that fails is one that the server has
not carried out; the answer to one that it has carried out is not lost on the way. -/
theorem moves_keep_bytes (hkeys : objectKey source ≠ objectKey target) :
    (∀ server : Server,
      let moved := Bucket.store.move source target server
      Transferred server.object? (objectKey source) (objectKey target) moved.1 moved.2.object? ∧
        (moved.1.isOk = false →
          moved.2.object? (objectKey source) = server.object? (objectKey source)) ∧
        (server.Steady →
          Text.percentDecode (Text.utf8 server.bucket.toList) = Text.utf8 server.bucket.toList →
          objectKey source ≠ "" → objectKey target ≠ "" →
          (server.object? (objectKey source)).isSome → moved.1 = .ok ())) ∧
      ∀ (service : Service Server) (drive : Drive Server), service.store = Bucket.store →
        Filed drive →
        (Path.Canonical target →
          (service.relocate source target).Ends drive (Refiled source target drive)) ∧
        ∀ identity names, (service.movePath identity source target names).Ends drive
          fun result after => PathRefiled drive result after ∧ (Sized drive → Sized after) := by
  constructor
  · intro server moved
    have hends : Transferred _ _ _ moved.1 moved.2.object? := moveObject_ends server hkeys
    refine ⟨hends, fun hfails => ?_, fun hs hplain hsource htarget hthere => ?_⟩
    · rcases hresult : moved.1 with e | _
      · rw [hresult] at hends
        exact hends.source_of_error hkeys
      · rw [hresult] at hfails
        cases hfails
    · obtain ⟨object, hobject⟩ := Option.isSome_iff_exists.1 hthere
      exact moveObject_succeeds hs hplain hsource htarget hobject
  · intro service drive hstore hf
    have hne : source ≠ target := fun heq => hkeys (congrArg objectKey heq)
    refine ⟨fun htarget => relocate_refiled hstore hf htarget hne, fun identity names => ?_⟩
    apply (movePath_refiled hstore hf identity source target names).mono
    exact fun result after hrefiled => ⟨hrefiled, hrefiled.no_others.sized⟩

/-- A file moves, and its object is copied but cannot be taken out. -/
theorem moves_keep_bytes_without_deletion :
    let object : StoredObject := ⟨"text/plain", ⟨#[1, 2]⟩⟩
    let server : Server := ⟨true, "drive", ["drive"], [("a", object)], [], 0,
      fun _ call => if call.name = "DeleteObject" then some 403 else none,
      fun _ _ _ => none, []⟩
    let row : FileRow := ⟨"/a", 2, "text/plain", "", "ann", "", ""⟩
    let drive : Drive Server := ⟨Database.empty.withFiles [row], server, .epoch, 0⟩
    let service : Service Server := ⟨Bucket.store, .enforcing "admins", 0, toString, fun _ => none⟩
    let ann : Identity := ⟨"ann", "ann", ["admins"], "", "", false⟩
    let moved := (service.movePath ann "/a" "/b" none).on drive
    Filed drive ∧ Sized drive ∧ moved.1.isOk = false ∧
      (moved.2.objects.object? "b").isSome = true ∧
      moved.2.objects.object? "a" = some object ∧ Sized moved.2 := by
  intro object server row drive service ann moved
  have hkey : objectKey "/a" = "a" := by decide +kernel
  have hkeys : objectKey "/a" ≠ objectKey "/b" := by decide +kernel
  have hrows : ∀ path found, drive.db.rowAt path = some found → path = "/a" ∧ found = row := by
    intro path found hfound
    have hmem : found ∈ [row] := Database.mem_of_rowAt hfound
    obtain rfl := List.mem_singleton.1 hmem
    exact ⟨(Database.path_of_rowAt hfound).symm, rfl⟩
  have hf : Filed drive := by
    refine ⟨List.nodup_singleton _, fun path found hfound => ?_⟩
    rw [(hrows path found hfound).1, show "/a" = Path.normalize "/a" by decide +kernel]
    exact Path.canonical_normalize "/a"
  have hsized : Sized drive := by
    intro path found hfound
    obtain ⟨rfl, rfl⟩ := hrows path found hfound
    exact ⟨object, by rw [hkey]; rfl, rfl⟩
  obtain ⟨hrefiled, hkept⟩ := ((moves_keep_bytes hkeys).2 service drive rfl hf).2 ann none
  have hfails : moved.1.isOk = false := by decide +kernel
  have hobject := (hrefiled.rolledBack hfails).objects "/a" row (by decide +kernel)
  rw [hkey] at hobject
  exact ⟨hf, hsized, hfails, by decide +kernel, hobject, hkept hsized⟩

end Service

end FileDrive
