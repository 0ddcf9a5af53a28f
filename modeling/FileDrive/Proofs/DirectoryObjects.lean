import FileDrive.Proofs.CanonicalPath
import FileDrive.Proofs.TreeFiles
import FileDrive.Storage.Directory

/-!
# Objects in a directory

Canonical paths that are not the root have places of their own in a directory, so that what a call
of the store does at the place of one object it does to no other. A call that fails leaves all
objects as they are.

A store may be watched: it then notes when a call to take out an object has failed, because only
after such a call may an object be left over.
-/

namespace FileDrive

namespace Directory

open FileDrive.Path FileDrive.Text

variable {path other source target : String} {place P : Place} {segs : List (List Char)}
  {tree after : Tree} {size : Nat} {stream : ByteStream} {data : ByteArray}

/-! ## Places -/

theorem place_ofSegments (h : AreSegments segs) (hne : segs ≠ []) :
    Directory.place (ofSegments segs) = .ok (segs.map String.ofList) := by
  have hnames :
      (pieces '/' (ofSegments segs).toList).filter (fun name => name ≠ [] && name ≠ ['.']) =
        segs := by
    rw [toList_ofSegments hne, pieces_spell h.noSlash, List.filter_cons_of_neg (by simp),
      List.filter_eq_self]
    intro s hs
    obtain ⟨hblank, hdot, -, -⟩ := h s hs
    simp [hblank, hdot]
  unfold Directory.place
  rw [hnames]
  dsimp only
  rw [if_neg]
  rintro (hnone | hup)
  · exact hne hnone
  · exact (h _ hup).2.2.1 rfl

/-- Objects under different canonical paths have different places. -/
theorem place_injective (h : Canonical path) (hroot : path ≠ root) (k : Canonical other)
    (kroot : other ≠ root) (hplace : Directory.place path = .ok P)
    (kplace : Directory.place other = .ok P) : path = other := by
  obtain ⟨segs, hsegs, rfl⟩ := h
  obtain ⟨osegs, hosegs, rfl⟩ := k
  rw [place_ofSegments hsegs fun e => hroot ((ofSegments_eq_root hsegs).2 e)] at hplace
  rw [place_ofSegments hosegs fun e => kroot ((ofSegments_eq_root hosegs).2 e)] at kplace
  have hmaps : segs.map String.ofList = osegs.map String.ofList :=
    Except.ok.inj (hplace.trans kplace.symm)
  rw [List.map_injective_iff.2 (fun a b e => String.ofList_injective e) hmaps]

theorem place_ne_nil (h : Directory.place path = .ok place) : place ≠ [] := by
  unfold Directory.place at h
  dsimp only at h
  split at h
  · cases h
  · next hnames =>
    rw [← Except.ok.inj h]
    intro hnil
    exact hnames (Or.inl (List.map_eq_nil_iff.1 hnil))

theorem ne_root_of_place (h : Directory.place path = .ok place) : path ≠ Path.root := by
  rintro rfl
  have hnone : Directory.place Path.root = .error (.invalidPath Path.root) := rfl
  rw [hnone] at h
  cases h

/-! ## Calls -/

theorem data_of_read (h : stream.read.mapError StorageError.io = .ok data) :
    data = stream.data := by
  unfold ByteStream.read at h
  split at h
  · exact (Except.ok.inj h).symm
  · cases h

theorem ok_of_mapError {ε ε' α : Type} {x : Except ε α} {f : ε → ε'} {value : α}
    (h : x.mapError f = .ok value) : x = .ok value := by
  cases x with
  | error e => cases h
  | ok found => exact congrArg Except.ok (Except.ok.inj h)

theorem write_eq_ok (h : write path place size stream tree = .ok after) :
    tree.writeFile place stream.data = .ok after ∧ stream.data.size = size ∧
      size ≤ Tree.largestFile := by
  unfold write at h
  split at h
  · exact absurd h throw_bind_ne_ok
  · next hfits =>
    obtain ⟨data, hdata, h⟩ := bind_eq_ok.1 h
    split at h
    · exact absurd h throw_bind_ne_ok
    · next hsize =>
      obtain rfl := data_of_read hdata
      have hlen : stream.data.size = size := not_ne_iff.1 hsize
      exact ⟨ok_of_mapError h, hlen, by omega⟩

/-- Where directories have been made there is a directory, and nothing else is new. -/
theorem keeps_of_made {made : Tree} (hs : tree.Sound)
    (h : tree.makeDirectories place = (.ok (), made)) :
    Tree.Keeps tree made ∧ made.entry? place = some .directory := by
  obtain ⟨hkeeps, hthere⟩ := Tree.makeDirectories_keeps hs place
  rw [h] at hkeeps hthere
  exact ⟨hkeeps, hthere rfl⟩

/-- Storing an object makes the directories that it lies in, and writes its file there. -/
theorem put_eq_ok (h : put path size stream tree = (.ok (), after)) :
    ∃ place made, Directory.place path = .ok place ∧
      tree.makeDirectories place.dropLast = (.ok (), made) ∧ temporaryFile place = .ok () ∧
      write path place size stream made = .ok after := by
  unfold put at h
  split at h
  · cases h
  · next place hplace =>
    split at h
    · cases h
    · next made hmade =>
      split at h
      · cases h
      · next htemporary =>
        split at h
        · next written hwritten =>
          obtain rfl : written = after := congrArg Prod.snd h
          exact ⟨place, made, hplace, hmade, htemporary, hwritten⟩
        · cases h

theorem put_ok (hs : tree.Sound) (h : put path size stream tree = (.ok (), after)) :
    ∃ place, Directory.place path = .ok place ∧ after.Sound ∧
      after.fileAt = Function.update tree.fileAt place (some stream.data) ∧
      stream.data.size = size ∧ size ≤ Tree.largestFile := by
  obtain ⟨place, made, hplace, hmade, -, hwritten⟩ := put_eq_ok h
  obtain ⟨hkeeps, hthere⟩ := keeps_of_made hs hmade
  obtain ⟨hwritten, hsize, hfits⟩ := write_eq_ok hwritten
  obtain ⟨hnot, rfl⟩ := Tree.writeFile_eq_ok hwritten
  have hroot := place_ne_nil hplace
  refine ⟨place, hplace, hkeeps.sound.insert_file hroot hthere hnot, ?_, hsize, hfits⟩
  rw [Tree.fileAt_of_update (Tree.entry?_insert made hroot _), hkeeps.files]
  rfl

theorem put_error {e : StorageError} (hs : tree.Sound)
    (h : put path size stream tree = (.error e, after)) : Tree.Keeps tree after := by
  unfold put at h
  split at h
  · obtain rfl : tree = after := congrArg Prod.snd h
    exact hs.keeps
  · next place hplace =>
    have hkeeps := (Tree.makeDirectories_keeps hs place.dropLast).1
    split at h
    · next made hmade =>
      obtain rfl : made = after := congrArg Prod.snd h
      rwa [hmade] at hkeeps
    · next made hmade =>
      rw [hmade] at hkeeps
      split at h
      · obtain rfl : made = after := congrArg Prod.snd h
        exact hkeeps
      · split at h
        · cases h
        · obtain rfl : made.cleanUp place.dropLast = after := congrArg Prod.snd h
          exact hkeeps.trans (Tree.cleanUp_keeps hkeeps.sound _)

theorem places_eq_ok {places : Place × Place}
    (h : (return (← Directory.place source, ← Directory.place target) :
      Except StorageError (Place × Place)) = .ok places) :
    Directory.place source = .ok places.1 ∧ Directory.place target = .ok places.2 := by
  obtain ⟨P, hP, h⟩ := bind_eq_ok.1 h
  obtain ⟨Q, hQ, h⟩ := bind_eq_ok.1 h
  obtain rfl := Except.ok.inj h
  exact ⟨hP, hQ⟩

/-- A move makes the directories that its target lies in, renames, and cleans up behind. -/
theorem move_eq_ok (h : move source target tree = (.ok (), after)) :
    ∃ P place made renamed, Directory.place source = .ok P ∧ Directory.place target = .ok place ∧
      tree.makeDirectories place.dropLast = (.ok (), made) ∧ made.rename P place = .ok renamed ∧
      after = renamed.cleanUp P.dropLast := by
  unfold move at h
  split at h
  · cases h
  · next P place hplaces =>
    obtain ⟨hsource, htarget⟩ := places_eq_ok hplaces
    split at h
    · cases h
    · next made hmade =>
      split at h
      · cases h
      · next renamed hrenamed =>
        exact ⟨P, place, made, renamed, hsource, htarget, hmade, hrenamed,
          (congrArg Prod.snd h).symm⟩

theorem move_ok (hs : tree.Sound) (hplace : Directory.place source = .ok P)
    (hfile : tree.fileAt P = some data) (h : move source target tree = (.ok (), after)) :
    ∃ place, Directory.place target = .ok place ∧ after.Sound ∧
      after.fileAt = Function.update (Function.update tree.fileAt P none) place (some data) := by
  obtain ⟨P', place, made, renamed, hsource, htarget, hmade, hrenamed, rfl⟩ := move_eq_ok h
  obtain ⟨hkeeps, hthere⟩ := keeps_of_made hs hmade
  obtain rfl : P = P' := Except.ok.inj (hplace.symm.trans hsource)
  rw [← hkeeps.files] at hfile
  obtain ⟨hsound, hfiles⟩ :=
    Tree.rename_file_eq_ok hkeeps.sound (Tree.fileAt_eq_some.1 hfile) hthere hrenamed
  have hclean := Tree.cleanUp_keeps hsound P.dropLast
  refine ⟨place, htarget, hclean.sound, ?_⟩
  rw [hclean.files, hfiles, hkeeps.files]

theorem move_error {e : StorageError} (hs : tree.Sound)
    (h : move source target tree = (.error e, after)) : Tree.Keeps tree after := by
  unfold move at h
  split at h
  · obtain rfl : tree = after := congrArg Prod.snd h
    exact hs.keeps
  · next sourcePlace place hplaces =>
    have hkeeps := (Tree.makeDirectories_keeps hs place.dropLast).1
    split at h
    · next made hmade =>
      obtain rfl : made = after := congrArg Prod.snd h
      rwa [hmade] at hkeeps
    · next made hmade =>
      rw [hmade] at hkeeps
      split at h
      · obtain rfl : made = after := congrArg Prod.snd h
        exact hkeeps
      · cases h

/-- Taking out an object takes out its file, and cleans up. -/
theorem delete_eq_ok (h : delete path tree = (.ok (), after)) :
    ∃ place removed, Directory.place path = .ok place ∧ tree.removeFile place = .ok removed ∧
      after = removed.cleanUp place.dropLast := by
  unfold delete at h
  split at h
  · cases h
  · next place hplace =>
    split at h
    · cases h
    · next removed hremoved =>
      exact ⟨place, removed, hplace, hremoved, (congrArg Prod.snd h).symm⟩

theorem delete_ok (hs : tree.Sound) (h : delete path tree = (.ok (), after)) :
    ∃ place, Directory.place path = .ok place ∧ after.Sound ∧
      after.fileAt = Function.update tree.fileAt place none := by
  obtain ⟨place, removed, hplace, hremoved, rfl⟩ := delete_eq_ok h
  obtain ⟨data, hfile, rfl⟩ := Tree.removeFile_eq_ok hremoved
  have hclean := Tree.cleanUp_keeps (hs.erase_file hfile) place.dropLast
  refine ⟨place, hplace, hclean.sound, hclean.files.trans ?_⟩
  exact Tree.fileAt_of_update (Tree.entry?_erase tree (Tree.ne_root_of_file hfile))

theorem delete_error {e : StorageError} (h : delete path tree = (.error e, after)) :
    after = tree := by
  unfold delete at h
  split at h
  · exact (congrArg Prod.snd h).symm
  · split at h
    · exact (congrArg Prod.snd h).symm
    · cases h

end Directory

/-! ## Watching a store -/

/-- What a store keeps, and whether a call to take out an object has failed. -/
structure Watched (σ : Type) where
  objects : σ
  deleteFailed : Bool

namespace ObjectStore

variable {σ : Type} {store : ObjectStore σ} {faults : StoreFaults} {path source target : String}
  {range : Option ByteRange} {size : Nat} {stream : ByteStream} {contentType : String}

/-- The store whose failures to take out an object are noted. -/
def watched (store : ObjectStore σ) : ObjectStore (Watched σ) where
  get path range kept :=
    let (result, objects) := store.get path range kept.objects
    (result, { kept with objects })
  put path size stream contentType kept :=
    let (result, objects) := store.put path size stream contentType kept.objects
    (result, { kept with objects })
  move source target kept :=
    let (result, objects) := store.move source target kept.objects
    (result, { kept with objects })
  delete path kept :=
    let (result, objects) := store.delete path kept.objects
    (result, ⟨objects, kept.deleteFailed || !result.isOk⟩)

variable {kept after : Watched σ} {result : Except StorageError Unit}

/-- A call that is to fail changes nothing. -/
theorem of_fault {α : Type} {fails : Bool} {e : StorageError} {objects left : σ}
    {call : Except StorageError α × σ} {answer : Except StorageError α}
    (h : (if fails then (.error e, objects) else call) = (answer, left)) :
    (answer.isOk = false ∧ left = objects) ∨ call = (answer, left) := by
  split at h
  · obtain ⟨rfl, rfl⟩ := Prod.mk.inj h
    exact Or.inl ⟨rfl, rfl⟩
  · exact Or.inr h

theorem get_faulty {answer : Except StorageError ByteStream}
    (h : (store.withFaults faults).watched.get path range kept = (answer, after)) :
    after.deleteFailed = kept.deleteFailed ∧
      ((answer.isOk = false ∧ after.objects = kept.objects) ∨
        store.get path range kept.objects = (answer, after.objects)) := by
  obtain ⟨hanswer, rfl⟩ := Prod.mk.inj h
  exact ⟨rfl, of_fault (Prod.ext hanswer rfl)⟩

theorem put_faulty (h : (store.withFaults faults).watched.put path size stream contentType kept =
      (result, after)) :
    after.deleteFailed = kept.deleteFailed ∧
      ((result.isOk = false ∧ after.objects = kept.objects) ∨
        store.put path size stream contentType kept.objects = (result, after.objects)) := by
  obtain ⟨hresult, rfl⟩ := Prod.mk.inj h
  exact ⟨rfl, of_fault (Prod.ext hresult rfl)⟩

theorem move_faulty
    (h : (store.withFaults faults).watched.move source target kept = (result, after)) :
    after.deleteFailed = kept.deleteFailed ∧
      ((result.isOk = false ∧ after.objects = kept.objects) ∨
        store.move source target kept.objects = (result, after.objects)) := by
  obtain ⟨hresult, rfl⟩ := Prod.mk.inj h
  exact ⟨rfl, of_fault (Prod.ext hresult rfl)⟩

/-- Only when a call to take out an object fails is anything noted. -/
theorem delete_faulty (h : (store.withFaults faults).watched.delete path kept = (result, after)) :
    after.deleteFailed = (kept.deleteFailed || !result.isOk) ∧
      ((result.isOk = false ∧ after.objects = kept.objects) ∨
        store.delete path kept.objects = (result, after.objects)) := by
  obtain ⟨hresult, rfl⟩ := Prod.mk.inj h
  refine ⟨?_, of_fault (Prod.ext hresult rfl)⟩
  rw [← hresult]

end ObjectStore

/-- A watched directory, calls to which may fail before they do anything. -/
def Directory.Faulty (store : ObjectStore (Watched Tree)) : Prop :=
  ∃ faults : StoreFaults, store = (Directory.store.withFaults faults).watched

namespace Directory.Faulty

variable {store : ObjectStore (Watched Tree)} {kept after : Watched Tree}
  {path source target : String} {P : Place} {size : Nat} {stream : ByteStream}
  {contentType : String} {data : ByteArray} {e : StorageError}

theorem get_eq {range : Option ByteRange} {result : Except StorageError ByteStream}
    (h : Faulty store) (hget : store.get path range kept = (result, after)) :
    after.objects = kept.objects ∧ after.deleteFailed = kept.deleteFailed := by
  obtain ⟨faults, rfl⟩ := h
  obtain ⟨hflag, ⟨-, hsame⟩ | hcall⟩ := ObjectStore.get_faulty hget
  · exact ⟨hsame, hflag⟩
  · exact ⟨(congrArg Prod.snd hcall).symm, hflag⟩

theorem put_ok (h : Faulty store) (hs : kept.objects.Sound)
    (hput : store.put path size stream contentType kept = (.ok (), after)) :
    ∃ place, Directory.place path = .ok place ∧ after.objects.Sound ∧
      after.objects.fileAt = Function.update kept.objects.fileAt place (some stream.data) ∧
      stream.data.size = size ∧ size ≤ Tree.largestFile ∧
      after.deleteFailed = kept.deleteFailed := by
  obtain ⟨faults, rfl⟩ := h
  obtain ⟨hflag, ⟨hno, -⟩ | hcall⟩ := ObjectStore.put_faulty hput
  · cases hno
  · obtain ⟨place, hplace, hsound, hfiles, hsize, hfits⟩ := Directory.put_ok hs hcall
    exact ⟨place, hplace, hsound, hfiles, hsize, hfits, hflag⟩

theorem put_error (h : Faulty store) (hs : kept.objects.Sound)
    (hput : store.put path size stream contentType kept = (.error e, after)) :
    Tree.Keeps kept.objects after.objects ∧ after.deleteFailed = kept.deleteFailed := by
  obtain ⟨faults, rfl⟩ := h
  obtain ⟨hflag, ⟨-, hsame⟩ | hcall⟩ := ObjectStore.put_faulty hput
  · exact ⟨hsame ▸ hs.keeps, hflag⟩
  · exact ⟨Directory.put_error hs hcall, hflag⟩

theorem move_ok (h : Faulty store) (hs : kept.objects.Sound)
    (hplace : Directory.place source = .ok P) (hfile : kept.objects.fileAt P = some data)
    (hmove : store.move source target kept = (.ok (), after)) :
    ∃ place, Directory.place target = .ok place ∧ after.objects.Sound ∧
      after.objects.fileAt =
        Function.update (Function.update kept.objects.fileAt P none) place (some data) ∧
      after.deleteFailed = kept.deleteFailed := by
  obtain ⟨faults, rfl⟩ := h
  obtain ⟨hflag, ⟨hno, -⟩ | hcall⟩ := ObjectStore.move_faulty hmove
  · cases hno
  · obtain ⟨place, htarget, hsound, hfiles⟩ := Directory.move_ok hs hplace hfile hcall
    exact ⟨place, htarget, hsound, hfiles, hflag⟩

theorem move_error (h : Faulty store) (hs : kept.objects.Sound)
    (hmove : store.move source target kept = (.error e, after)) :
    Tree.Keeps kept.objects after.objects ∧ after.deleteFailed = kept.deleteFailed := by
  obtain ⟨faults, rfl⟩ := h
  obtain ⟨hflag, ⟨-, hsame⟩ | hcall⟩ := ObjectStore.move_faulty hmove
  · exact ⟨hsame ▸ hs.keeps, hflag⟩
  · exact ⟨Directory.move_error hs hcall, hflag⟩

theorem delete_ok (h : Faulty store) (hs : kept.objects.Sound)
    (hdelete : store.delete path kept = (.ok (), after)) :
    ∃ place, Directory.place path = .ok place ∧ after.objects.Sound ∧
      after.objects.fileAt = Function.update kept.objects.fileAt place none ∧
      after.deleteFailed = kept.deleteFailed := by
  obtain ⟨faults, rfl⟩ := h
  obtain ⟨hflag, ⟨hno, -⟩ | hcall⟩ := ObjectStore.delete_faulty hdelete
  · cases hno
  · obtain ⟨place, hplace, hsound, hfiles⟩ := Directory.delete_ok hs hcall
    exact ⟨place, hplace, hsound, hfiles, hflag.trans (Bool.or_false _)⟩

/-- The failure is noted, and it leaves everything where it is. -/
theorem delete_error (h : Faulty store)
    (hdelete : store.delete path kept = (.error e, after)) :
    after.objects = kept.objects ∧ after.deleteFailed = true := by
  obtain ⟨faults, rfl⟩ := h
  obtain ⟨hflag, ⟨-, hsame⟩ | hcall⟩ := ObjectStore.delete_faulty hdelete
  · exact ⟨hsame, hflag.trans (Bool.or_true _)⟩
  · exact ⟨Directory.delete_error hcall, hflag.trans (Bool.or_true _)⟩

end Directory.Faulty

end FileDrive
