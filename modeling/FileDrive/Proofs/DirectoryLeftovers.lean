import FileDrive.Proofs.DirectoryObjects
import FileDrive.Proofs.TreeDirectories

/-!
# What failed calls leave of a directory

A call that fails changes no file. What it may change are the directories on the way to its target:
moving an object, and storing one whose temporary file cannot be made, leave the directories that
were made for it. They stay, empty, until a call cleans up on the same way. When the directory of
the target is there already, or when storing an object fails as late as in the writing, a tidy tree
is afterwards exactly what it was.
-/

namespace FileDrive.Directory

variable {tree after : Tree} {P : Place} {path source target contentType : String} {size : Nat}
  {stream : ByteStream} {e : StorageError}

/-- A call of a directory that keeps objects. -/
inductive Call where
  | get (path : String) (range : Option ByteRange)
  | put (path : String) (size : Nat) (stream : ByteStream) (contentType : String)
  | move (source target : String)
  | delete (path : String)

namespace Call

/-- What a call comes to, and the tree afterwards. -/
def on (tree : Tree) : Call → Except StorageError Unit × Tree
  | get path range => ((store.get path range tree).1.map fun _ => (), (store.get path range tree).2)
  | put path size stream contentType => store.put path size stream contentType tree
  | move source target => store.move source target tree
  | delete path => store.delete path tree

/-- The directory that a call puts an object into, and the root for a call that puts none. -/
def way : Call → Place
  | put path _ _ _ | move _ path => ((place path).toOption.getD []).dropLast
  | get _ _ | delete _ => []

/-- A call has no directory to make, or what it makes is cleaned up when it fails: it stores an
object, and gets as far as the writing, in a tree where nothing else is to be cleaned up. -/
def Prepared (tree : Tree) : Call → Prop
  | put path size stream contentType =>
    tree.Tidy ∧ (tree.Settled (way (put path size stream contentType)) ∨
      ∃ P, place path = .ok P ∧ (tree.makeDirectories P.dropLast).1 = .ok () ∧
        temporaryFile P = .ok ())
  | move source target => tree.Settled (way (move source target))
  | get _ _ | delete _ => True

end Call

/-- The trees that calls lead to, from one with nothing below its root. -/
inductive Reached : Tree → Prop where
  | empty : Reached Tree.empty
  | call {tree : Tree} (reached : Reached tree) (call : Call) : Reached (call.on tree).2

/-! ## Runs -/

theorem move_sound (hs : tree.Sound) (h : move source target tree = (.ok (), after)) :
    after.Sound := by
  obtain ⟨P, place, made, renamed, -, -, hmade, hrenamed, rfl⟩ := move_eq_ok h
  obtain ⟨hkeeps, hthere⟩ := keeps_of_made hs hmade
  have hsound : renamed.Sound := by
    rcases Tree.rename_eq_ok hrenamed with ⟨-, rfl⟩ | hmoved
    · exact hkeeps.sound
    · exact hmoved.sound hkeeps.sound hthere
  exact (Tree.cleanUp_keeps hsound _).sound

theorem Call.sound (call : Call) (hs : tree.Sound) : (call.on tree).2.Sound := by
  rcases hcall : call.on tree with ⟨_ | _, after⟩
  · cases call with
    | get => exact congrArg Prod.snd hcall ▸ hs
    | put => exact (put_error hs hcall).sound
    | move => exact (move_error hs hcall).sound
    | delete => exact delete_error hcall ▸ hs
  · cases call with
    | get => exact congrArg Prod.snd hcall ▸ hs
    | put =>
      obtain ⟨-, -, hsound, -⟩ := put_ok hs hcall
      exact hsound
    | move => exact move_sound hs hcall
    | delete =>
      obtain ⟨-, -, hsound, -⟩ := delete_ok hs hcall
      exact hsound

theorem Reached.sound (h : Reached tree) : tree.Sound := by
  induction h with
  | empty => exact Tree.sound_empty
  | call _ call ih => exact call.sound ih

/-! ## Failed calls -/

/-- What a call leaves of a tree when it fails. -/
inductive Left (tree : Tree) : Call → Tree → Prop where
  | untouched {call : Call} : Left tree call tree
  /-- There is no temporary file to write to. -/
  | unopened {path contentType : String} {size : Nat} {stream : ByteStream} {P : Place}
      (place : Directory.place path = .ok P)
      (stopped : ¬ ((tree.makeDirectories P.dropLast).1 = .ok () ∧ temporaryFile P = .ok ())) :
      Left tree (.put path size stream contentType) (tree.makeDirectories P.dropLast).2
  | unwritten {path contentType : String} {size : Nat} {stream : ByteStream} {P : Place}
      (place : Directory.place path = .ok P)
      (made : (tree.makeDirectories P.dropLast).1 = .ok ()) :
      Left tree (.put path size stream contentType)
        ((tree.makeDirectories P.dropLast).2.cleanUp P.dropLast)
  | unmoved {source target : String} {P : Place} (place : Directory.place target = .ok P) :
      Left tree (.move source target) (tree.makeDirectories P.dropLast).2

theorem left_of_put (h : put path size stream tree = (.error e, after)) :
    Left tree (.put path size stream contentType) after := by
  unfold put at h
  split at h
  · obtain rfl : tree = after := congrArg Prod.snd h
    exact .untouched
  · next P hplace =>
    split at h
    · next made hmade =>
      obtain rfl : (tree.makeDirectories P.dropLast).2 = after := hmade ▸ congrArg Prod.snd h
      refine .unopened hplace fun hready => ?_
      rw [hmade] at hready
      cases hready.1
    · next made hmade =>
      split at h
      · next hfile =>
        obtain rfl : (tree.makeDirectories P.dropLast).2 = after := hmade ▸ congrArg Prod.snd h
        refine .unopened hplace fun hready => ?_
        rw [hfile] at hready
        cases hready.2
      · split at h
        · cases h
        · obtain rfl : (tree.makeDirectories P.dropLast).2.cleanUp P.dropLast = after :=
            hmade ▸ congrArg Prod.snd h
          exact .unwritten hplace (by rw [hmade])

theorem left_of_move (h : move source target tree = (.error e, after)) :
    Left tree (.move source target) after := by
  unfold move at h
  split at h
  · obtain rfl : tree = after := congrArg Prod.snd h
    exact .untouched
  · next sourcePlace P hplaces =>
    have hplace := (places_eq_ok hplaces).2
    split at h
    · next made hmade =>
      obtain rfl : (tree.makeDirectories P.dropLast).2 = after := hmade ▸ congrArg Prod.snd h
      exact .unmoved hplace
    · next made hmade =>
      split at h
      · obtain rfl : (tree.makeDirectories P.dropLast).2 = after := hmade ▸ congrArg Prod.snd h
        exact .unmoved hplace
      · cases h

theorem left_of_error {call : Call} (h : call.on tree = (.error e, after)) :
    Left tree call after := by
  cases call with
  | get =>
    obtain rfl : tree = after := congrArg Prod.snd h
    exact .untouched
  | put => exact left_of_put h
  | move => exact left_of_move h
  | delete =>
    rw [delete_error h]
    exact .untouched

theorem way_of_place (h : place path = .ok P) :
    ((place path).toOption.getD []).dropLast = P.dropLast := by
  rw [h]
  rfl

theorem Left.alike {call : Call} (h : Left tree call after) :
    Tree.AlikeOff call.way tree after := by
  cases h with
  | untouched => exact Tree.AlikeOff.refl _ _
  | unopened place =>
    rw [Call.way, way_of_place place]
    exact Tree.makeDirectories_alike _ _
  | unwritten place =>
    rw [Call.way, way_of_place place]
    exact (Tree.makeDirectories_alike _ _).trans (Tree.cleanUp_alike _ _)
  | unmoved place =>
    rw [Call.way, way_of_place place]
    exact Tree.makeDirectories_alike _ _

theorem Left.same {call : Call} (h : Left tree call after) (hs : tree.Sound)
    (hprepared : call.Prepared tree) : after.entry? = tree.entry? := by
  cases h with
  | untouched => rfl
  | unopened place stopped =>
    obtain ⟨-, hsettled | ⟨Q, hplace, hready⟩⟩ := hprepared
    · rw [Call.way, way_of_place place] at hsettled
      exact hsettled.same hs
    · obtain rfl := Except.ok.inj (place.symm.trans hplace)
      exact absurd hready stopped
  | @unwritten _ _ _ _ P place made =>
    obtain ⟨way, hmade, -, hnul⟩ := Tree.makeDirectories_made tree P.dropLast
    obtain rfl := hmade.all made
    exact Tree.cleanUp_grown hs hprepared.1 (Tree.makeDirectories_keeps hs _).1.sound hmade.grown
      (hnul made) hmade.short
  | unmoved place =>
    rw [Call.Prepared, Call.way, way_of_place place] at hprepared
    exact hprepared.same hs

/-- In every tree that calls lead to, a call that fails changes no file, and at most directories on
the way to its target. When that directory is there, or the failure comes in the writing, nothing
is changed at all. -/
theorem Reached.failed_call {call : Call} (hreached : Reached tree)
    (h : call.on tree = (.error e, after)) :
    after.fileAt = tree.fileAt ∧ Tree.AlikeOff call.way tree after ∧
      (call.Prepared tree → after.entry? = tree.entry?) := by
  have hleft := left_of_error h
  exact ⟨hleft.alike.files, hleft.alike, hleft.same hreached.sound⟩

/-- A stream of the wrong length is to be stored in a directory that is not there yet. -/
theorem failed_call_of_wrong_length :
    let call : Call := .put "/d/f" 5 ⟨⟨#[1]⟩, none⟩ "text/plain"
    let failed := call.on Tree.empty
    failed.1.isOk = false ∧ call.Prepared Tree.empty ∧
      Tree.entry? failed.2 = Tree.empty.entry? := by
  intro call failed
  have hfails : failed.1 = .error (.sizeMismatch "/d/f" 5 1) := by rfl
  have htidy : Tree.empty.Tidy := by
    intro place hroot hthere
    rw [Tree.entry?_of_ne hroot] at hthere
    cases hthere
  have hplace : place "/d/f" = .ok ["d", "f"] := by rfl
  have hprepared : call.Prepared Tree.empty := ⟨htidy, Or.inr ⟨["d", "f"], hplace, by rfl, by rfl⟩⟩
  obtain ⟨-, -, hsame⟩ := Reached.empty.failed_call (Prod.ext hfails rfl)
  exact ⟨by rw [hfails]; rfl, hprepared, hsame hprepared⟩

/-- An object that no temporary file can be made for, and the move of one that is missing, leave the
directory that was made for them, and then no object can be stored under its name. -/
theorem failed_calls_leave_directory :
    let unopened := Call.on Tree.empty (.put "/a/\x00" 1 ⟨⟨#[1]⟩, none⟩ "text/plain")
    let unmoved := Call.on Tree.empty (.move "/x" "/a/b")
    let blocked := Call.on unmoved.2 (.put "/a" 1 ⟨⟨#[1]⟩, none⟩ "text/plain")
    Reached Tree.empty ∧ unopened.1.isOk = false ∧ unmoved.1.isOk = false ∧
      (Tree.empty.entry? ["a"]).map Entry.isDirectory = none ∧
      (Tree.entry? unopened.2 ["a"]).map Entry.isDirectory = some true ∧
      (Tree.entry? unmoved.2 ["a"]).map Entry.isDirectory = some true ∧ blocked.1.isOk = false :=
  ⟨.empty, by decide +kernel⟩

end FileDrive.Directory
