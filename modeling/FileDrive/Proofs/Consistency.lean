import FileDrive.Proofs.DirectoryObjects
import FileDrive.Proofs.TreeShape

/-!
# Files and their objects

The metadata know which files there are, and a directory keeps what is in them. Neither is told of
the other: a request prepares the one, calls the other, and commits. They match all the same
(`Matched`), whatever calls of the store fail on the way, except that an object may be left over
once a call to take one out has failed.

What a file should hold is read off the history alone: the bytes of the last upload that was
answered well, followed to where later requests have moved the file (`lastUploads`).
-/

namespace FileDrive

open FileDrive.DriveM FileDrive.Time

/-! ## Uploads -/

/-- The bytes that were last uploaded for the file at each path. -/
abbrev Uploads := String → Option ByteArray

/-- The uploads when the file at one path has gone to another. -/
def Uploads.moved (uploads : Uploads) (source target : String) : Uploads :=
  Function.update (Function.update uploads source none) target (uploads source)

/-- The uploads after an event. A report names the paths that files are at afterwards, so the path
that a file was moved from is found by rebasing that. -/
def Event.follow (uploads : Uploads) (event : Event) : Uploads :=
  match event.request, event.reply with
  | .create request, .ok _ =>
    Function.update uploads (Path.normalize request.path) (some request.upload.stream.data)
  | .update path request, .ok _ =>
    let source := Path.normalize path
    Function.update (Function.update uploads source none) (request.target source)
      ((request.content.map (·.stream.data)).or (uploads source))
  | .move source target _, .ok (.report report) =>
    report.succeeded.foldl (fun uploads path =>
      uploads.moved ((Path.rebase path (Path.normalize target) (Path.normalize source)).getD path)
        path) uploads
  | .delete _ _, .ok (.report report) =>
    report.succeeded.foldl (fun uploads path => Function.update uploads path none) uploads
  | _, _ => uploads

/-- The uploads after a history. -/
def lastUploads (history : List Event) : Uploads := history.foldl Event.follow fun _ => none

theorem lastUploads_append (history : List Event) (event : Event) :
    lastUploads (history ++ [event]) = event.follow (lastUploads history) := by
  rw [lastUploads, List.foldl_append]
  rfl

theorem Event.follow_of_reads {request : Request} (h : request.reads = true) (identity : Identity)
    (reply : Except DriveError Reply) (uploads : Uploads) :
    follow uploads ⟨identity, request, reply⟩ = uploads := by
  cases request with
  | effective | list | download | recordsAt | openShare | downloadShared | listShares => rfl
  | create | update | move | delete | setRecords | createShare | deleteShare => cases h

/-! ## Matching -/

/-- A path that a file may be stored under, whatever its characters. -/
abbrev Path.Usable (path : String) : Prop := Path.Admissible (fun _ => True) path

theorem Path.usable_of_canonical {path : String} (h : Path.Canonical path)
    (hroot : path ≠ Path.root) : Path.Usable path := ⟨h, hroot, fun _ _ => Or.inr trivial⟩

/-- Every file has an object at its path, as long as its row says and with the bytes that were
uploaded for it, and none is beyond the limit. Unless an object may be `lost`, there are no
others. -/
structure Matched (limit : Nat) (rows : String → Option FileRow) (uploads : Uploads)
    (contents : Place → Option ByteArray) (lost : Bool) : Prop where
  admissible : ∀ path row, rows path = some row → Path.Usable path
  stored : ∀ path row, rows path = some row → ∃ place data, Directory.place path = .ok place ∧
    contents place = some data ∧ uploads path = some data ∧ (data.size : Int) = row.size
  fits : 0 < limit → ∀ path row, rows path = some row → row.size ≤ limit
  owned : lost = false → ∀ place data, contents place = some data →
    ∃ path row, rows path = some row ∧ Directory.place path = .ok place

namespace Matched

variable {limit : Nat} {rows : String → Option FileRow} {uploads : Uploads}
  {contents after : Place → Option ByteArray} {lost : Bool} {path other : String} {P Q : Place}
  {row : FileRow} {data : ByteArray}

theorem empty : Matched limit (fun _ => none) (fun _ => none) (fun _ => none) lost :=
  ⟨fun _ _ h => (nomatch h), fun _ _ h => (nomatch h), fun _ _ _ h => (nomatch h),
    fun _ _ _ h => (nomatch h)⟩

theorem place_ne (h : Path.Usable path) (k : Path.Usable other)
    (hP : Directory.place path = .ok P) (hQ : Directory.place other = .ok Q) (hne : path ≠ other) :
    P ≠ Q := by
  rintro rfl
  exact hne (Directory.place_injective h.canonical h.notRoot k.canonical k.notRoot hP hQ)

/-- A file and its object are put at a path. -/
theorem put (h : Matched limit rows uploads contents lost)
    (hpath : Path.Usable path) (hP : Directory.place path = .ok P)
    (hsize : (data.size : Int) = row.size) (hfits : 0 < limit → row.size ≤ limit) :
    Matched limit (Function.update rows path (some row)) (Function.update uploads path (some data))
      (Function.update contents P (some data)) lost where
  admissible p found hp := by
    by_cases he : p = path
    · rwa [he]
    · rw [Function.update_of_ne he] at hp
      exact h.admissible p found hp
  stored p found hp := by
    by_cases he : p = path
    · subst he
      rw [Function.update_self] at hp
      obtain rfl := Option.some.inj hp
      exact ⟨P, data, hP, Function.update_self .., Function.update_self .., hsize⟩
    · rw [Function.update_of_ne he] at hp
      obtain ⟨Q, kept, hQ, hkept, hupload, hlen⟩ := h.stored p found hp
      have hne := place_ne (h.admissible p found hp) hpath hQ hP he
      refine ⟨Q, kept, hQ, ?_, ?_, hlen⟩
      · rwa [Function.update_of_ne hne]
      · rwa [Function.update_of_ne he]
  fits hlimit p found hp := by
    by_cases he : p = path
    · rw [he, Function.update_self] at hp
      obtain rfl := Option.some.inj hp
      exact hfits hlimit
    · rw [Function.update_of_ne he] at hp
      exact h.fits hlimit p found hp
  owned hlost place kept hkept := by
    by_cases he : place = P
    · exact ⟨path, row, Function.update_self .., he ▸ hP⟩
    · rw [Function.update_of_ne he] at hkept
      obtain ⟨p, found, hp, hplace⟩ := h.owned hlost place kept hkept
      have hne : p ≠ path := by
        rintro rfl
        exact he (Except.ok.inj (hplace.symm.trans hP))
      exact ⟨p, found, by rwa [Function.update_of_ne hne], hplace⟩

/-- A file is forgotten while its object may stay. -/
theorem forget (h : Matched limit rows uploads contents lost) (path : String) :
    Matched limit (Function.update rows path none) (Function.update uploads path none) contents
      true where
  admissible p found hp := h.admissible p found (Shaped.of_update_none hp)
  stored p found hp := by
    obtain ⟨Q, kept, hQ, hkept, hupload, hlen⟩ := h.stored p found (Shaped.of_update_none hp)
    have hne : p ≠ path := by
      rintro rfl
      rw [Function.update_self] at hp
      cases hp
    exact ⟨Q, kept, hQ, hkept, by rwa [Function.update_of_ne hne], hlen⟩
  fits hlimit p found hp := h.fits hlimit p found (Shaped.of_update_none hp)
  owned hlost := nomatch hlost

/-- What is at a place that no file has may change, and is lost then. -/
theorem stray (h : Matched limit rows uploads contents lost) (hfree : rows path = none)
    (hpath : Path.Usable path) (hP : Directory.place path = .ok P)
    (hafter : ∀ place, place ≠ P → after place = contents place) :
    Matched limit rows uploads after true where
  admissible := h.admissible
  stored p found hp := by
    obtain ⟨Q, kept, hQ, hkept, hupload, hlen⟩ := h.stored p found hp
    have hne : p ≠ path := by
      rintro rfl
      rw [hfree] at hp
      cases hp
    have hplace := place_ne (h.admissible p found hp) hpath hQ hP hne
    exact ⟨Q, kept, hQ, by rwa [hafter Q hplace], hupload, hlen⟩
  fits := h.fits
  owned hlost := nomatch hlost

theorem toLost (h : Matched limit rows uploads contents lost) :
    Matched limit rows uploads contents true :=
  ⟨h.admissible, h.stored, h.fits, fun hlost => nomatch hlost⟩

/-- A file is taken out with its object. -/
theorem erase (h : Matched limit rows uploads contents lost) (hrow : rows path = some row)
    (hP : Directory.place path = .ok P) :
    Matched limit (Function.update rows path none) (Function.update uploads path none)
      (Function.update contents P none) lost := by
  have hpath := h.admissible path row hrow
  have hgone : Function.update rows path none path = none := Function.update_self ..
  have hlost := (h.forget path).stray hgone hpath hP fun place hne =>
    Function.update_of_ne hne none contents
  refine ⟨hlost.admissible, hlost.stored, hlost.fits, fun hnot place kept hkept => ?_⟩
  by_cases he : place = P
  · rw [he, Function.update_self] at hkept
    cases hkept
  · rw [Function.update_of_ne he] at hkept
    obtain ⟨p, found, hp, hplace⟩ := h.owned hnot place kept hkept
    have hne : p ≠ path := by
      rintro rfl
      exact he (Except.ok.inj (hplace.symm.trans hP))
    exact ⟨p, found, by rwa [Function.update_of_ne hne], hplace⟩

end Matched

/-- The metadata of a drive and the directory of its objects match, with given uploads. -/
structure Consistent (limit : Nat) (uploads : Uploads) (drive : Drive (Watched Tree)) : Prop where
  sound : drive.objects.objects.Sound
  matched : Matched limit drive.db.rowAt uploads drive.objects.objects.fileAt
    drive.objects.deleteFailed

namespace Consistent

variable {limit : Nat} {uploads : Uploads} {drive after : Drive (Watched Tree)}

/-- What leaves files and their objects alone leaves them matching. -/
theorem of_keeps (h : Consistent limit uploads drive) (hrows : after.db.rowAt = drive.db.rowAt)
    (hkeeps : Tree.Keeps drive.objects.objects after.objects.objects)
    (hflag : after.objects.deleteFailed = drive.objects.deleteFailed) :
    Consistent limit uploads after := by
  refine ⟨hkeeps.sound, ?_⟩
  rw [hrows, hkeeps.files, hflag]
  exact h.matched

theorem of_rows (h : Consistent limit uploads drive) {db : Database}
    (hrows : db.rowAt = drive.db.rowAt) : Consistent limit uploads { drive with db } :=
  h.of_keeps hrows h.sound.keeps rfl

end Consistent

namespace Service

variable {service : Service (Watched Tree)} {identity : Identity}
  {drive after : Drive (Watched Tree)} {uploads : Uploads} {path source target : String}

theorem consistent_of_moved {granted : Prop} {result : Except DriveError Unit}
    (h : Moved service granted source target drive result after)
    (hstore : Directory.Faulty service.store) (hc : Consistent service.maxFileSize uploads drive)
    (htarget : Path.Usable target) :
    Consistent service.maxFileSize
      (match result with
        | .ok _ => uploads.moved source target
        | .error _ => uploads) after := by
  cases h with
  | refused => exact ⟨hc.sound, hc.matched⟩
  | unmoved move =>
    obtain ⟨hkeeps, hflag⟩ := hstore.move_error hc.sound move
    exact hc.of_keeps rfl hkeeps hflag
  | moved _ _ prepared move =>
    obtain ⟨row, hrow, -, hbecomes⟩ := Database.moveFile_becomes prepared
    obtain ⟨P, data, hP, hdata, hupload, hsize⟩ := hc.matched.stored source row hrow
    obtain ⟨Q, hQ, hsound, hfiles, hflag⟩ := hstore.move_ok hc.sound hP hdata move
    refine ⟨hsound, ?_⟩
    dsimp only
    rw [hbecomes.rowAt, hfiles, hflag, Uploads.moved, hupload]
    exact (hc.matched.erase hrow hP).put htarget hQ hsize fun hlimit =>
      hc.matched.fits hlimit source row hrow

theorem consistent_of_removed {granted : Prop} {result : Except DriveError Unit}
    (h : Removed service granted path drive result after)
    (hstore : Directory.Faulty service.store) (hc : Consistent service.maxFileSize uploads drive) :
    Consistent service.maxFileSize
      (match result with
        | .ok _ => Function.update uploads path none
        | .error _ => uploads) after := by
  cases h with
  | refused => exact hc
  | undeleted delete =>
    obtain ⟨hsame, hflag⟩ := hstore.delete_error delete
    refine ⟨hsame ▸ hc.sound, ?_⟩
    dsimp only
    rw [hsame, hflag]
    exact hc.matched.toLost
  | removed _ prepared delete gone =>
    obtain ⟨⟨row, hrow⟩, hbecomes⟩ := Database.deleteFile_becomes prepared
    rcases gone with rfl | ⟨missing, rfl⟩
    · obtain ⟨P, hP, hsound, hfiles, hflag⟩ := hstore.delete_ok hc.sound delete
      refine ⟨hsound, ?_⟩
      dsimp only
      rw [hbecomes.rowAt, hfiles, hflag]
      exact hc.matched.erase hrow hP
    · obtain ⟨hsame, hflag⟩ := hstore.delete_error delete
      refine ⟨hsame ▸ hc.sound, ?_⟩
      dsimp only
      rw [hbecomes.rowAt, hsame, hflag]
      exact hc.matched.forget path

/-- A size that a file can have stays what it is as a signed number. -/
theorem signed64_of_fits {size : Nat} (h : size ≤ Tree.largestFile) :
    Text.signed64 size = size := by
  have hbound : (size : Int) ≤ 2 ^ 63 - 1 := by
    unfold Tree.largestFile at h
    omega
  unfold Text.signed64 Text.wordBound
  rw [Int.bmod_eq_of_le]
  · omega
  · omega

theorem consistent_of_created {request : CreateRequest} {result : Except DriveError File}
    (h : Created service identity request drive result after)
    (hstore : Directory.Faulty service.store) (hc : Consistent service.maxFileSize uploads drive) :
    Consistent service.maxFileSize
      (match result with
        | .ok _ =>
          Function.update uploads (Path.normalize request.path) (some request.upload.stream.data)
        | .error _ => uploads) after := by
  cases h with
  | refused => exact ⟨hc.sound, hc.matched⟩
  | unstored put =>
    obtain ⟨hkeeps, hflag⟩ := hstore.put_error hc.sound put
    exact hc.of_keeps rfl hkeeps hflag
  | stored notRoot fits _ _ _ prepared put =>
    obtain ⟨row, hbecomes, hsize, -⟩ := becomes_of_prepared prepared
    obtain ⟨P, hP, hsound, hfiles, hlen, hlarge, hflag⟩ := hstore.put_ok hc.sound put
    have hrow : row.size = request.upload.size := by
      rw [hsize, newFile, signed64_of_fits hlarge]
    refine ⟨hsound, ?_⟩
    dsimp only
    rw [hbecomes.rowAt, hfiles, hflag]
    have husable := Path.usable_of_canonical (Path.canonical_normalize request.path) notRoot
    refine hc.matched.put husable hP ?_ fun hlimit => ?_
    · rw [hlen, hrow]
    · rw [hrow]
      exact Int.ofNat_le.2 (checkSize_eq_ok fits hlimit)

/-! ## Changing a file -/

/-- The bytes that a file has after a change: the new ones when there are any. -/
def bytesAfter (content : Option Upload) (data : ByteArray) : ByteArray :=
  (content.map (·.stream.data)).getD data

/-- A change that the store has carried out has taken the file to its new path, with the new bytes
when there are any. -/
theorem Carried.files {store : ObjectStore (Watched Tree)} {newPath contentType : String}
    {content : Option Upload} {kept after : Watched Tree} {P : Place} {data : ByteArray}
    (h : Carried store path newPath contentType kept content (.ok ()) after)
    (hstore : Directory.Faulty store) (hs : kept.objects.Sound)
    (hpath : Path.Usable path)
    (hnew : Path.Usable newPath)
    (hP : Directory.place path = .ok P) (hdata : kept.objects.fileAt P = some data) :
    ∃ Q, Directory.place newPath = .ok Q ∧ after.objects.Sound ∧
      after.objects.fileAt = Function.update (Function.update kept.objects.fileAt P none) Q
        (some (bytesAfter content data)) ∧
      after.deleteFailed = kept.deleteFailed ∧
      ∀ upload, content = some upload →
        upload.stream.data.size = upload.size ∧ upload.size ≤ Tree.largestFile := by
  cases h with
  | kept same =>
    refine ⟨P, same ▸ hP, hs, ?_, rfl, fun _ h => (nomatch h)⟩
    rw [Function.update_idem, bytesAfter, Option.map_none, Option.getD_none, ← hdata,
      Function.update_eq_self]
  | moved renamed move =>
    obtain ⟨Q, hQ, hsound, hfiles, hflag⟩ := hstore.move_ok hs hP hdata move
    exact ⟨Q, hQ, hsound, hfiles, hflag, fun _ h => (nomatch h)⟩
  | put same put =>
    obtain ⟨Q, hQ, hsound, hfiles, hlen, hlarge, hflag⟩ := hstore.put_ok hs put
    obtain rfl : P = Q := Except.ok.inj (hP.symm.trans (same ▸ hQ))
    refine ⟨P, hQ, hsound, ?_, hflag, ?_⟩
    · rw [Function.update_idem, hfiles, bytesAfter, Option.map_some, Option.getD_some]
    · intro upload hupload
      obtain rfl := Option.some.inj hupload
      exact ⟨hlen, hlarge⟩
  | replaced renamed put delete =>
    obtain ⟨Q, hQ, hmid, hput, hlen, hlarge, hflag⟩ := hstore.put_ok hs put
    obtain ⟨P', hP', hsound, hfiles, hflag'⟩ := hstore.delete_ok hmid delete
    obtain rfl : P = P' := Except.ok.inj (hP.symm.trans hP')
    -- The new object is put before the old one is taken out, at another place.
    have hne : P ≠ Q := Matched.place_ne hpath hnew hP hQ (Ne.symm renamed)
    refine ⟨Q, hQ, hsound, ?_, hflag'.trans hflag, ?_⟩
    · rw [hfiles, hput, Function.update_comm hne, bytesAfter, Option.map_some, Option.getD_some]
    · intro upload hupload
      obtain rfl := Option.some.inj hupload
      exact ⟨hlen, hlarge⟩

/-- A change that the store has not carried out has left each file its object. When the new object
could not be taken out again, it lies where no file is. -/
theorem Carried.matched_of_error {store : ObjectStore (Watched Tree)} {newPath contentType : String}
    {content : Option Upload} {kept after : Watched Tree} {e : DriveError} {limit : Nat}
    {rows : String → Option FileRow}
    (h : Carried store path newPath contentType kept content (.error e) after)
    (hstore : Directory.Faulty store) (hs : kept.objects.Sound)
    (hm : Matched limit rows uploads kept.objects.fileAt kept.deleteFailed)
    (hnew : Path.Canonical newPath) (hfree : path ≠ newPath → rows newPath = none) :
    after.objects.Sound ∧
      Matched limit rows uploads after.objects.fileAt after.deleteFailed := by
  cases h with
  | unmoved _ move =>
    obtain ⟨hkeeps, hflag⟩ := hstore.move_error hs move
    rw [hkeeps.files, hflag]
    exact ⟨hkeeps.sound, hm⟩
  | unput put =>
    obtain ⟨hkeeps, hflag⟩ := hstore.put_error hs put
    rw [hkeeps.files, hflag]
    exact ⟨hkeeps.sound, hm⟩
  | @undone upload e result mid between after renamed put delete undo =>
    obtain ⟨Q, hQ, hmid, hput, -⟩ := hstore.put_ok hs put
    obtain ⟨hsame, hnoted⟩ := hstore.delete_error delete
    have husable := Path.usable_of_canonical hnew (Directory.ne_root_of_place hQ)
    have hvacant := hfree (Ne.symm renamed)
    rw [← hsame] at hmid hput
    -- Whether or not the new object is gone again, no file is where it was put.
    rcases result with _ | _
    · obtain ⟨hsame', hnoted'⟩ := hstore.delete_error undo
      rw [hsame', hnoted', hput]
      exact ⟨hmid, hm.stray hvacant husable hQ fun place hne => Function.update_of_ne hne _ _⟩
    · obtain ⟨Q', hQ', hsound, hfiles, hflag⟩ := hstore.delete_ok hmid undo
      obtain rfl : Q = Q' := Except.ok.inj (hQ.symm.trans hQ')
      rw [hfiles, hflag, hnoted, hput, Function.update_idem]
      exact ⟨hsound, hm.stray hvacant husable hQ fun place hne => Function.update_of_ne hne _ _⟩

/-- The row of a changed file has the size of what the file has then. -/
theorem size_updatedRow {existing : File} {newPath contentType description : String}
    {content : Option Upload} {size : Int} {now : Timestamp} {row : FileRow} {data : ByteArray}
    (h : service.newContent existing newPath content = .ok (size, contentType))
    (hlen : ∀ upload, content = some upload →
      upload.stream.data.size = upload.size ∧ upload.size ≤ Tree.largestFile)
    (hrow : (data.size : Int) = row.size) :
    (Database.updatedRow now newPath size contentType description row).size =
      (bytesAfter content data).size := by
  rcases newContent_eq_ok h with ⟨rfl, rfl⟩ | ⟨upload, rfl, hpos, -, hsigned⟩
  · exact hrow.symm
  · obtain ⟨hsize, hlarge⟩ := hlen upload rfl
    rw [signed64_of_fits hlarge] at hsigned
    have hsome : 0 < size := by omega
    rw [Database.updatedRow, if_pos hsome, bytesAfter, Option.map_some, Option.getD_some, hsize]
    exact hsigned

theorem consistent_of_updated {request : UpdateRequest} {result : Except DriveError File}
    (h : Updated service identity path request drive result after)
    (hstore : Directory.Faulty service.store) (hc : Consistent service.maxFileSize uploads drive)
    (hpath : Path.Canonical path) :
    Consistent service.maxFileSize
      (match result with
        | .ok _ => Function.update (Function.update uploads path none) (request.target path)
          ((request.content.map (·.stream.data)).or (uploads path))
        | .error _ => uploads) after := by
  have htarget := canonical_target request hpath
  cases h with
  | refused => exact ⟨hc.sound, hc.matched⟩
  | uncarried prepared carried =>
    obtain ⟨row, -, hfree, -⟩ := Database.updateFile_becomes prepared
    obtain ⟨hsound, hmatched⟩ :=
      carried.matched_of_error hstore hc.sound hc.matched htarget hfree
    exact ⟨hsound, hmatched⟩
  | @changed existing size _ _ _ _ _ notRoot _ _ content prepared carried =>
    obtain ⟨row, hrow, -, hbecomes⟩ := Database.updateFile_becomes prepared
    obtain ⟨P, data, hP, hdata, hupload, hsize⟩ := hc.matched.stored path row hrow
    have husable := Path.usable_of_canonical htarget notRoot
    obtain ⟨Q, hQ, hsound, hfiles, hflag, hlen⟩ :=
      carried.files hstore hc.sound (hc.matched.admissible path row hrow) husable hP hdata
    have hbytes : (request.content.map (·.stream.data)).or (uploads path) =
        some (bytesAfter request.content data) := by
      rw [hupload, bytesAfter]
      rcases request.content with _ | upload <;> rfl
    refine ⟨hsound, ?_⟩
    dsimp only
    rw [hbecomes.rowAt, hfiles, hflag, hbytes]
    refine (hc.matched.erase hrow hP).put husable hQ ?_ ?_
    · rw [size_updatedRow content hlen hsize]
    · intro hlimit
      rcases newContent_eq_ok content with ⟨-, rfl⟩ | ⟨upload, hsome, -, hfits, -⟩
      · exact hc.matched.fits hlimit path row hrow
      · rw [size_updatedRow content hlen hsize, hsome]
        have hle := checkSize_eq_ok hfits hlimit
        rw [← (hlen upload hsome).1] at hle
        exact Int.ofNat_le.2 hle

/-! ## Many files -/

/-- The path that a file of a batch was moved from can be told from the one that it is at. -/
theorem MoveItem.Offered.rebase_back {σ : Type} {service : Service σ} {db : Database}
    {item : MoveItem} (h : item.Offered service identity db source target) (hitem : Path.Usable item.source)
    (hs : Path.Canonical source) (ht : Path.Canonical target) :
    Path.rebase item.target target source = some item.source :=
  Path.rebase_back hitem.canonical hs ht (ne_of_stored h.below hitem.notRoot) h.rebase_eq

theorem usable_of_offered {limit : Nat} (hc : Consistent limit uploads drive) {item : MoveItem}
    (h : item.Offered service identity drive.db source target) (hs : Path.Canonical source)
    (ht : Path.Canonical target) : Path.Usable item.source ∧ Path.Usable item.target := by
  obtain ⟨row, hrow⟩ := h.row
  have hsource := hc.matched.admissible item.source row hrow
  exact ⟨hsource, hsource.rebase hs ht (fun _ _ => Or.inr trivial)
    (ne_of_stored h.below hsource.notRoot) h.rebase_eq⟩

theorem consistent_of_pathMoved {names : Option (List String)}
    {result : Except DriveError BatchReport}
    (h : PathMoved service identity (Path.normalize source) (Path.normalize target) drive result
      after)
    (hstore : Directory.Faulty service.store) (hc : Consistent service.maxFileSize uploads drive) :
    Consistent service.maxFileSize
      (Event.follow uploads ⟨identity, .move source target names, result.map .report⟩) after := by
  have hs := Path.canonical_normalize source
  have ht := Path.canonical_normalize target
  cases h with
  | refused => exact hc
  | @single result _ _ notRoot moved =>
    have hmoved := consistent_of_moved moved hstore hc (Path.usable_of_canonical ht notRoot)
    rcases result with e | _
    · exact hmoved
    · dsimp only [Event.follow, Except.map, List.foldl]
      rwa [Path.rebase_self, Option.getD_some]
  | batch apart offered _ batch =>
    refine batch.tracks (I := Consistent service.maxFileSize)
      (fun item hitem c drive mid hc' hone => ?_) (fun item hitem c drive mid e hc' hone => ?_) hc
    · obtain ⟨hsource, htarget⟩ := usable_of_offered hc (offered item hitem) hs ht
      rw [(offered item hitem).rebase_back hsource hs ht, Option.getD_some]
      exact consistent_of_moved hone hstore hc' htarget
    · obtain ⟨-, htarget⟩ := usable_of_offered hc (offered item hitem) hs ht
      exact consistent_of_moved hone hstore hc' htarget

theorem consistent_of_pathDeleted {names : Option (List String)}
    {result : Except DriveError BatchReport}
    (h : PathDeleted service identity (Path.normalize path) drive result after)
    (hstore : Directory.Faulty service.store) (hc : Consistent service.maxFileSize uploads drive) :
    Consistent service.maxFileSize
      (Event.follow uploads ⟨identity, .delete path names, result.map .report⟩) after := by
  cases h with
  | refused => exact hc
  | @single result _ removed =>
    have hremoved := consistent_of_removed removed hstore hc
    rcases result with e | _
    · exact hremoved
    · exact hremoved
  | batch _ batch =>
    refine batch.tracks (I := Consistent service.maxFileSize)
      (fun item _ c drive mid hc' hone => ?_) (fun item _ c drive mid e hc' hone => ?_) hc
    · exact consistent_of_removed hone hstore hc'
    · exact consistent_of_removed hone hstore hc'

/-! ## Runs -/

theorem Served.consistent {request : Request} {reply : Except DriveError Reply}
    (h : Served service identity drive request reply after)
    (hstore : Directory.Faulty service.store) (hc : Consistent service.maxFileSize uploads drive) :
    Consistent service.maxFileSize (Event.follow uploads ⟨identity, request, reply⟩) after := by
  cases h with
  | looked looks looked =>
    rw [Event.follow_of_reads looks]
    cases looked with
    | unasked => exact hc
    | asked get =>
      obtain ⟨hsame, hflag⟩ := hstore.get_eq get
      exact hc.of_keeps rfl (hsame ▸ hc.sound.keeps) hflag
  | @created _ result _ created =>
    have hcreated := consistent_of_created created hstore hc
    rcases result with e | file
    · exact hcreated
    · exact hcreated
  | @updated path _ result _ updated =>
    have hupdated := consistent_of_updated updated hstore hc (Path.canonical_normalize path)
    rcases result with e | file
    · exact hupdated
    · exact hupdated
  | moved moved => exact consistent_of_pathMoved moved hstore hc
  | deleted deleted => exact consistent_of_pathDeleted deleted hstore hc
  | recordsSet set =>
    cases set with
    | refused => exact hc
    | replaced _ prepared => exact hc.of_rows (Database.replaceRecords_becomes prepared).rowAt
  | shareIssued issued =>
    cases issued with
    | refused => exact ⟨hc.sound, hc.matched⟩
    | issued _ _ prepared =>
      obtain rfl := Database.createShare_eq_ok prepared
      exact ⟨hc.sound, hc.matched⟩
  | shareTaken taken =>
    cases taken with
    | refused => exact hc
    | taken prepared =>
      obtain rfl := Database.deleteShare_eq_ok prepared
      exact hc.of_rows rfl

theorem consistent_fresh (limit : Nat) (clock : Timestamp) :
    Consistent limit (lastUploads []) (Drive.fresh ⟨Tree.empty, false⟩ clock) := by
  refine ⟨Tree.sound_empty, ?_⟩
  have hnone : Tree.empty.fileAt = fun _ => none := funext fun _ => Tree.fileAt_empty
  have hrows : (Drive.fresh (Watched.mk Tree.empty false) clock).db.rowAt = fun _ => none :=
    Database.rowAt_empty
  rw [hrows]
  exact hnone ▸ Matched.empty

/-- However requests go, and whichever calls of the store fail before they do anything, every file
has an object at its path that is as long as its row says and holds what was last uploaded for it;
and every object is that of a file unless a call to take one out has failed. -/
theorem Reaches.files_match_objects {clock : Timestamp} {history : List Event}
    (h : service.Reaches Directory.Faulty (Drive.fresh ⟨Tree.empty, false⟩ clock) history drive) :
    (∀ path row, drive.db.rowAt path = some row → ∃ place data,
      Directory.place path = .ok place ∧
        drive.objects.objects.entry? place = some (.file data) ∧
        (data.size : Int) = row.size ∧ lastUploads history path = some data) ∧
      (0 < service.maxFileSize → ∀ path row, drive.db.rowAt path = some row →
        row.size ≤ service.maxFileSize) ∧
      (drive.objects.deleteFailed = false → ∀ place data,
        drive.objects.objects.entry? place = some (.file data) →
          ∃ path row, drive.db.rowAt path = some row ∧ Directory.place path = .ok place) := by
  have hc : Consistent service.maxFileSize (lastUploads history) drive := by
    refine (h.invariant Database.keyed_empty
      (I := fun history drive => Consistent service.maxFileSize (lastUploads history) drive)
      (consistent_fresh _ clock) ?_).2
    intro history drive store identity request reply after hstore _ ih hserved
    rw [lastUploads_append]
    exact hserved.consistent hstore ih
  refine ⟨fun path row hrow => ?_, hc.matched.fits, fun hnone place data hfile => ?_⟩
  · obtain ⟨place, data, hplace, hdata, hupload, hsize⟩ := hc.matched.stored path row hrow
    exact ⟨place, data, hplace, Tree.fileAt_eq_some.1 hdata, hsize, hupload⟩
  · exact hc.matched.owned hnone place data (Tree.fileAt_eq_some.2 hfile)

/-- A file is created, the attempt to overwrite it fails, and its directory moves. -/
theorem files_match_objects_after_failed_overwrite :
    let ann : Identity := ⟨"ann", "ann", ["admins"], "", "", false⟩
    let steady := (Directory.store.withFaults .none).watched
    let broken := (Directory.store.withFaults { StoreFaults.none with put := true }).watched
    let service : Service (Watched Tree) :=
      ⟨steady, .enforcing "admins", 3, toString, fun _ => none⟩
    let creation : Request := .create ⟨"/a/f", "", false, ⟨3, "text/plain", ⟨⟨#[1, 2, 3]⟩, none⟩⟩⟩
    let overwrite : Request := .create ⟨"/a/f", "", true, ⟨1, "text/plain", ⟨⟨#[4]⟩, none⟩⟩⟩
    let created := (service.serve ann creation).on (Drive.fresh ⟨Tree.empty, false⟩ .epoch)
    let failed := ((service.withStore broken).serve ann overwrite).on created.2
    let moved := (service.serve ann (.move "/a" "/b" none)).on failed.2
    let history : List Event :=
      [⟨ann, creation, created.1⟩, ⟨ann, overwrite, failed.1⟩, ⟨ann, .move "/a" "/b" none, moved.1⟩]
    failed.1.isOk = false ∧ moved.2.objects.deleteFailed = false ∧
      (∃ row place data, moved.2.db.rowAt "/b/f" = some row ∧ Directory.place "/b/f" = .ok place ∧
        Tree.entry? moved.2.objects.objects place = some (.file data) ∧
        (data.size : Int) = row.size ∧ lastUploads history "/b/f" = some data) ∧
      ∀ place data, Tree.entry? moved.2.objects.objects place = some (.file data) →
        ∃ path row, moved.2.db.rowAt path = some row ∧ Directory.place path = .ok place := by
  intro ann steady broken service creation overwrite created failed moved history
  have hstart : service.Reaches Directory.Faulty _ [] (Drive.fresh ⟨Tree.empty, false⟩ .epoch) :=
    .start
  have hsteady : Directory.Faulty steady := ⟨.none, rfl⟩
  have hbroken : Directory.Faulty broken := ⟨{ StoreFaults.none with put := true }, rfl⟩
  have hcreated := hstart.next hsteady ann creation
  have hfailed := hcreated.next hbroken ann overwrite
  have hmoved := hfailed.next hsteady ann (.move "/a" "/b" none)
  obtain ⟨hstored, -, howned⟩ := hmoved.files_match_objects
  have hflag : moved.2.objects.deleteFailed = false := by decide +kernel
  have hthere : (moved.2.db.rowAt "/b/f").isSome = true := by decide +kernel
  obtain ⟨row, hrow⟩ := Option.isSome_iff_exists.1 hthere
  obtain ⟨place, data, hplace⟩ := hstored "/b/f" row hrow
  exact ⟨by decide +kernel, hflag, ⟨row, place, data, hrow, hplace⟩, howned hflag⟩

end Service

end FileDrive
