import FileDrive.Proofs.Consistency
import FileDrive.Proofs.FaithfulStores
import FileDrive.Proofs.Logins
import FileDrive.Proofs.TreeDirectories

/-!
# Files that can be opened

A file comes to a place only by a call that names the place to the file system, so the place has a
name that can be asked for later, and the file is no larger than files can be (`Tree.Openable`).
That holds all along a run, so that what the metadata know of is found in the directory
(`Evolves.found`), and as long as they say.
-/

namespace FileDrive

namespace Tree

variable {tree after : Tree} {place above source target : Place} {data : ByteArray}

/-- Every name on the way to a place can be handed to the file system. -/
structure Nameable (place : Place) : Prop where
  nul : hasNul place = false
  short : ∀ name ∈ place, isTooLong name = false

theorem short_of_findBelow {found : Option Entry} (h : tree.findBelow above place = .ok found) :
    ∀ name ∈ place, isTooLong name = false := by
  induction place generalizing above with
  | nil =>
    intro name hname
    cases hname
  | cons name rest ih =>
    unfold findBelow at h
    split at h
    · cases h
    · next hshort =>
      rw [List.forall_mem_cons]
      refine ⟨by simpa using hshort, ?_⟩
      split at h
      · next hlast =>
        intro other hother
        rw [hlast] at hother
        cases hother
      · split at h
        · cases h
        · cases h
        · exact ih h

theorem nameable_of_find {found : Option Entry} (h : tree.find place = .ok found) :
    Nameable place := by
  unfold find at h
  split at h
  · cases h
  · next hnul => exact ⟨by simpa using hnul, short_of_findBelow h⟩

/-- The directories that hold what can be named can be named too. -/
theorem Nameable.up (h : Nameable place) (hpre : above <+: place) : Nameable above where
  nul := by
    have hnul := h.nul
    rw [hasNul, List.any_eq_false] at hnul ⊢
    exact fun name hname => hnul name (hpre.subset hname)
  short name hname := h.short name (hpre.subset hname)

theorem nameable_of_writeFile (h : tree.writeFile place data = .ok after) : Nameable place := by
  obtain ⟨found, hfound, -⟩ := bind_eq_ok.1 h
  exact nameable_of_find hfound

theorem nameable_of_removeFile (h : tree.removeFile place = .ok after) : Nameable place := by
  obtain ⟨found, hfound, -⟩ := bind_eq_ok.1 h
  exact nameable_of_find hfound

theorem nameable_of_rename (h : tree.rename source target = .ok after) :
    Nameable source ∧ Nameable target := by
  obtain ⟨found, hfound, h⟩ := bind_eq_ok.1 h
  cases found with
  | none => cases h
  | some moved =>
    obtain ⟨replaced, hreplaced, -⟩ := bind_eq_ok.1 h
    exact ⟨nameable_of_find hfound, nameable_of_find hreplaced⟩

/-- Every file has a place that can be named, and a size that files can have. -/
def Openable (files : Place → Option ByteArray) : Prop :=
  ∀ place data, files place = some data → Nameable place ∧ data.size ≤ largestFile

variable {files : Place → Option ByteArray}

theorem openable_none : Openable fun _ => none := by
  intro place data h
  cases h

theorem Openable.put (h : Openable files) (hplace : Nameable place)
    (hsize : data.size ≤ largestFile) : Openable (Function.update files place (some data)) := by
  intro other found hfound
  by_cases hother : other = place
  · rw [hother, Function.update_self] at hfound
    cases hfound
    exact ⟨hother ▸ hplace, hsize⟩
  · rw [Function.update_of_ne hother] at hfound
    exact h other found hfound

theorem Openable.erase (h : Openable files) (place : Place) :
    Openable (Function.update files place none) := by
  intro other found hfound
  by_cases hother : other = place
  · rw [hother, Function.update_self] at hfound
    cases hfound
  · rw [Function.update_of_ne hother] at hfound
    exact h other found hfound

/-- In a sound tree a file that can be opened is found. -/
theorem Openable.find (h : Openable tree.fileAt) (hs : tree.Sound)
    (hdata : tree.fileAt place = some data) :
    tree.find place = .ok (some (.file data)) := by
  have hentry := fileAt_eq_some.1 hdata
  obtain ⟨hplace, -⟩ := h place data hdata
  have hthere : tree.entry? place ≠ none := by
    rw [hentry]
    exact Option.some_ne_none _
  rw [hs.find hthere hplace.nul hplace.short, hentry]

end Tree

namespace Directory

variable {tree after : Tree} {path source target : String} {P : Place} {size : Nat}
  {stream : ByteStream}

theorem nameable_of_put (h : put path size stream tree = (.ok (), after))
    (hP : place path = .ok P) : Tree.Nameable P := by
  obtain ⟨Q, made, hQ, -, -, hwritten⟩ := put_eq_ok h
  obtain rfl : P = Q := Except.ok.inj (hP.symm.trans hQ)
  exact Tree.nameable_of_writeFile (write_eq_ok hwritten).1

theorem openable_of_put (hs : tree.Sound) (ho : Tree.Openable tree.fileAt)
    (h : put path size stream tree = (.ok (), after)) : Tree.Openable after.fileAt := by
  obtain ⟨P, hP, -, hfiles, hsize, hfits⟩ := put_ok hs h
  rw [hfiles]
  exact ho.put (nameable_of_put h hP) (hsize.trans_le hfits)

theorem openable_of_move {data : ByteArray} (hs : tree.Sound) (ho : Tree.Openable tree.fileAt)
    (hP : place source = .ok P) (hdata : tree.fileAt P = some data)
    (h : move source target tree = (.ok (), after)) : Tree.Openable after.fileAt := by
  obtain ⟨Q, hQ, -, hfiles⟩ := move_ok hs hP hdata h
  have hname : Tree.Nameable Q := by
    obtain ⟨_, Q', _, _, -, hQ', -, hrenamed, -⟩ := move_eq_ok h
    obtain rfl : Q = Q' := Except.ok.inj (hQ.symm.trans hQ')
    exact (Tree.nameable_of_rename hrenamed).2
  rw [hfiles]
  exact (ho.erase P).put hname (ho P data hdata).2

/-- A tree in which every file is found by its place. -/
structure InOrder (tree : Tree) : Prop where
  sound : tree.Sound
  openable : Tree.Openable tree.fileAt

theorem InOrder.keeps (h : InOrder tree) (hkeeps : Tree.Keeps tree after) : InOrder after :=
  ⟨hkeeps.sound, hkeeps.files ▸ h.openable⟩

theorem inOrder_empty : InOrder Tree.empty := by
  refine ⟨Tree.sound_empty, ?_⟩
  rw [show Tree.empty.fileAt = fun _ => none from funext fun _ => Tree.fileAt_empty]
  exact Tree.openable_none

/-- The files of a directory stay such that they can be opened, whichever calls fail. -/
theorem faithful_inOrder (faults : StoreFaults) :
    (store.withFaults faults).Faithful InOrder objectAt where
  get hs h := by
    obtain ⟨-, hkept⟩ := (faithful faults).get hs.sound h
    rcases ObjectStore.of_fault h with ⟨-, rfl⟩ | hcall
    · exact ⟨hs, hkept⟩
    · cases hcall
      exact ⟨hs, hkept⟩
  put_error hs h := by
    obtain ⟨-, hkept⟩ := (faithful faults).put_error hs.sound h
    rcases ObjectStore.of_fault h with ⟨-, rfl⟩ | hcall
    · exact ⟨hs, hkept⟩
    · exact ⟨hs.keeps (put_error hs.sound hcall), hkept⟩
  put_ok hs hpath h := by
    obtain ⟨hsound, hkept⟩ := (faithful faults).put_ok hs.sound hpath h
    rcases ObjectStore.of_fault h with ⟨hno, -⟩ | hcall
    · cases hno
    · exact ⟨⟨hsound, openable_of_put hs.sound hs.openable hcall⟩, hkept⟩
  move_error hs h := by
    obtain ⟨-, hkept⟩ := (faithful faults).move_error hs.sound h
    rcases ObjectStore.of_fault h with ⟨-, rfl⟩ | hcall
    · exact ⟨hs, hkept⟩
    · exact ⟨hs.keeps (move_error hs.sound hcall), hkept⟩
  move_ok hs hsource htarget hobject h := by
    obtain ⟨hsound, hkept⟩ := (faithful faults).move_ok hs.sound hsource htarget hobject h
    obtain ⟨P, hP, hdata⟩ := fileAt_of_objectAt hobject
    rcases ObjectStore.of_fault h with ⟨hno, -⟩ | hcall
    · cases hno
    · exact ⟨⟨hsound, openable_of_move hs.sound hs.openable hP hdata hcall⟩, hkept⟩
  delete_error hs h := by
    obtain ⟨-, hkept⟩ := (faithful faults).delete_error hs.sound h
    rcases ObjectStore.of_fault h with ⟨-, rfl⟩ | hcall
    · exact ⟨hs, hkept⟩
    · exact ⟨delete_error hcall ▸ hs, hkept⟩
  delete_ok hs hpath h := by
    obtain ⟨hsound, hkept⟩ := (faithful faults).delete_ok hs.sound hpath h
    rcases ObjectStore.of_fault h with ⟨hno, -⟩ | hcall
    · cases hno
    · obtain ⟨P, -, -, hfiles⟩ := delete_ok hs.sound hcall
      exact ⟨⟨hsound, hfiles ▸ hs.openable.erase P⟩, hkept⟩

end Directory

/-- Watching a store does not change what it does to its objects. -/
theorem ObjectStore.Faithful.watched {σ β : Type} {store : ObjectStore σ} {sound : σ → Prop}
    {kept : σ → String → Option β} (h : store.Faithful sound kept) :
    store.watched.Faithful (fun watched => sound watched.objects)
      (fun watched => kept watched.objects) where
  get hs hcall := by
    obtain ⟨hresult, rfl⟩ := Prod.mk.inj hcall
    exact h.get hs (Prod.ext hresult rfl)
  put_error hs hcall := by
    obtain ⟨hresult, rfl⟩ := Prod.mk.inj hcall
    exact h.put_error hs (Prod.ext hresult rfl)
  put_ok hs hpath hcall := by
    obtain ⟨hresult, rfl⟩ := Prod.mk.inj hcall
    obtain ⟨hsound, object, hkept⟩ := h.put_ok hs hpath (Prod.ext hresult rfl)
    refine ⟨hsound, object, ?_⟩
    exact hkept
  move_error hs hcall := by
    obtain ⟨hresult, rfl⟩ := Prod.mk.inj hcall
    exact h.move_error hs (Prod.ext hresult rfl)
  move_ok hs hsource htarget hobject hcall := by
    obtain ⟨hresult, rfl⟩ := Prod.mk.inj hcall
    exact h.move_ok hs hsource htarget hobject (Prod.ext hresult rfl)
  delete_error hs hcall := by
    obtain ⟨hresult, rfl⟩ := Prod.mk.inj hcall
    exact h.delete_error hs (Prod.ext hresult rfl)
  delete_ok hs hpath hcall := by
    obtain ⟨hresult, rfl⟩ := Prod.mk.inj hcall
    exact h.delete_ok hs hpath (Prod.ext hresult rfl)

/-! ## Runs -/

namespace Service

open FileDrive.Time

variable {service : Service (Watched Tree)} {drive : Drive (Watched Tree)} {history : List Event}
  {clock : Timestamp} {path : String} {row : FileRow}

/-- The metadata and the directory match, and the directory can be asked for every file. -/
structure Stored (limit : Nat) (uploads : Uploads) (drive : Drive (Watched Tree)) : Prop where
  consistent : Consistent limit uploads drive
  supplied : Supplied (fun watched : Watched Tree => Directory.InOrder watched.objects)
    (fun watched => Directory.objectAt watched.objects) drive

theorem Evolves.stored
    (h : service.Evolves Directory.Faulty (Drive.fresh ⟨Tree.empty, false⟩ clock) history drive) :
    Stored service.maxFileSize (lastUploads history) drive := by
  refine (h.invariant Database.keyed_empty
    (I := fun history drive => Stored service.maxFileSize (lastUploads history) drive)
    ⟨consistent_fresh _ clock, Directory.inOrder_empty, ?_⟩ ?_ ?_).2
  · intro path row hrow
    rw [show (Drive.fresh (Watched.mk Tree.empty false) clock).db.rowAt = fun _ => none from
      Database.rowAt_empty] at hrow
    cases hrow
  · intro history drive store identity request reply after hstore _ ih hserved
    rw [lastUploads_append]
    obtain ⟨faults, rfl⟩ := hstore
    exact ⟨hserved.consistent ⟨faults, rfl⟩ ih.consistent,
      hserved.supplied (Directory.faithful_inOrder faults).watched ih.supplied⟩
  · intro history drive after ih haside
    have hrows := haside.1.rowAt
    refine ⟨ih.consistent.of_keeps hrows ?_ ?_, ih.supplied.of_same hrows ?_ ?_⟩
    · rw [haside.2]
      exact ih.consistent.sound.keeps
    · rw [haside.2]
    · rw [haside.2]
      exact ih.supplied.sound
    · rw [haside.2]

/-- Every file of a drive is found in its directory, with the bytes that were last uploaded for it,
which are as many as its row says and no more than a file can have. -/
theorem Evolves.found
    (h : service.Evolves Directory.Faulty (Drive.fresh ⟨Tree.empty, false⟩ clock) history drive)
    (hrow : drive.db.rowAt path = some row) :
    ∃ place data, Directory.place path = .ok place ∧
      drive.objects.objects.find place = .ok (some (.file data)) ∧
      lastUploads history path = some data ∧ (data.size : Int) = row.size ∧
      data.size ≤ Tree.largestFile := by
  have hstored := h.stored
  obtain ⟨place, data, hplace, hdata, hupload, hsize⟩ :=
    hstored.consistent.matched.stored path row hrow
  obtain ⟨hsound, hopenable⟩ := hstored.supplied.sound
  exact ⟨place, data, hplace, hopenable.find hsound hdata, hupload, hsize,
    (hopenable place data hdata).2⟩

end Service

end FileDrive
