import Mathlib.Algebra.Order.BigOperators.Group.List
import Mathlib.Algebra.Order.Group.Nat
import FileDrive.Proofs.DirectoryLeftovers
import FileDrive.Proofs.TreeWalks

/-!
# Exact cleaning up

A directory is needed when a file is somewhere below it, and in a tidy tree all are (`tidy_iff`).
To store an object makes no directory that is not needed. To take one out, or to move it away,
leaves directories without need on one way to the root only (`Pruned`), and the walk upwards from
there takes out all of them (`Pruned.cleanUp_tidy`). So a tidy tree stays tidy, and what its
directories are can be read off its files (`Call.CleansUp`).
-/

namespace FileDrive

namespace Tree

variable {tree after made : Tree} {place way above q : Place} {data : ByteArray}
  {files : Place → Option ByteArray}

/-! ## Needed directories -/

/-- A file is somewhere below a place. -/
def Needed (files : Place → Option ByteArray) (place : Place) : Prop :=
  ∃ other, place <+: other ∧ other ≠ place ∧ files other ≠ none

/-- Every directory but the root is needed, unless it is on the way to a place. -/
def Pruned (way : Place) (tree : Tree) : Prop :=
  ∀ q, q ≠ [] → tree.entry? q = some .directory → q <+: way ∨ Needed tree.fileAt q

/-- What is above a needed directory is needed. -/
theorem Needed.up (h : Needed files place) (hpre : above <+: place) : Needed files above := by
  obtain ⟨other, hother, hne, hfile⟩ := h
  refine ⟨other, hpre.trans hother, ?_, hfile⟩
  rintro rfl
  exact hne (hpre.eq_of_length_le hother.length_le)

theorem length_lt_of_below (hpre : place <+: q) (hne : q ≠ place) : place.length < q.length :=
  hpre.length_le.lt_of_ne fun e => hne (hpre.eq_of_length e).symm

/-- What is above a place is on the way to the directory that holds it. -/
theorem prefix_dropLast (hpre : q <+: place) (hne : q ≠ place) : q <+: place.dropLast := by
  have hlen := length_lt_of_below hpre (Ne.symm hne)
  refine List.prefix_of_prefix_length_le hpre (List.dropLast_prefix place) ?_
  rw [List.length_dropLast]
  omega

/-- A directory with something in it is needed, when those below it are. -/
theorem needed_of_hasBelow (hbelow : tree.hasBelow place = true)
    (h : ∀ other, place <+: other → other ≠ place → tree.entry? other = some .directory →
      Needed tree.fileAt other) : Needed tree.fileAt place := by
  obtain ⟨other, hpre, hne, hthere⟩ := hasBelow_iff.1 hbelow
  rcases hentry : tree.entry? other with _ | data | _
  · exact absurd hentry hthere
  · refine ⟨other, hpre, hne, ?_⟩
    rw [fileAt_eq_some.2 hentry]
    exact Option.some_ne_none _
  · exact (h other hpre hne hentry).up hpre

/-- Nothing is deeper in a tree than its deepest entry. -/
theorem exists_depth (tree : Tree) : ∃ n, ∀ q, tree.entry? q ≠ none → q.length ≤ n := by
  refine ⟨(tree.entries.map (·.1.length)).sum, fun q hthere => ?_⟩
  by_cases hq : q = []
  · rw [hq, List.length_nil]
    exact Nat.zero_le _
  · obtain ⟨entry, hentry⟩ := Option.ne_none_iff_exists'.1 hthere
    exact List.le_sum_of_mem (List.mem_map_of_mem (mem_entries hq hentry))

/-- A tree is tidy when its directories are needed. -/
theorem tidy_iff :
    tree.Tidy ↔ ∀ q, q ≠ [] → tree.entry? q = some .directory → Needed tree.fileAt q := by
  constructor
  · intro htidy
    obtain ⟨n, hn⟩ := exists_depth tree
    intro q hq hdir
    -- In each directory there is something, and no directory is below the deepest entries.
    induction hk : n - q.length using Nat.strongRecOn generalizing q with
    | ind k ih =>
      refine needed_of_hasBelow (htidy q hq hdir) fun other hpre hne hother => ?_
      have hlong := length_lt_of_below hpre hne
      have hdepth := hn other (by rw [hother]; exact Option.some_ne_none _)
      exact ih (n - other.length) (by omega) other (ne_nil_of_below hpre hne) hother rfl
  · intro h q hq hdir
    obtain ⟨other, hpre, hne, hfile⟩ := h q hq hdir
    refine hasBelow_iff.2 ⟨other, hpre, hne, fun hnone => hfile ?_⟩
    rw [fileAt, hnone]
    rfl

/-! ## What one change leaves -/

/-- What making directories adds is on the way to one place. -/
theorem Grown.pruned (hgrown : Grown way tree made) (hfiles : made.fileAt = tree.fileAt)
    (h : tree.Tidy) : Pruned way made := by
  intro q hq hdir
  by_cases hway : q <+: way
  · exact Or.inl hway
  · rw [hgrown.entries, onWay, if_neg hway, Option.or_none] at hdir
    rw [hfiles]
    exact Or.inr (tidy_iff.1 h q hq hdir)

/-- Where anything but a directory comes or goes, the directories are elsewhere, as before. -/
theorem directory_of_update {found : Option Entry}
    (he : after.entry? = Function.update tree.entry? place found) (hfound : found ≠ some .directory)
    (hdir : after.entry? q = some .directory) : q ≠ place ∧ tree.entry? q = some .directory := by
  have hne : q ≠ place := by
    rintro rfl
    rw [he, Function.update_self] at hdir
    exact hfound hdir
  rw [he, Function.update_of_ne hne] at hdir
  exact ⟨hne, hdir⟩

/-- A file needs the directories on the way to it. -/
theorem Pruned.put_file (h : Pruned place.dropLast tree)
    (he : after.entry? = Function.update tree.entry? place (some (.file data))) :
    after.Tidy := by
  refine tidy_iff.2 fun q hq hdir => ?_
  obtain ⟨hne, hold⟩ := directory_of_update he (by simp) hdir
  rw [fileAt_of_update he]
  rcases h q hq hold with hway | ⟨other, hpre, hother, hfile⟩
  · refine ⟨place, hway.trans (List.dropLast_prefix place), Ne.symm hne, ?_⟩
    rw [Function.update_self]
    exact Option.some_ne_none _
  · refine ⟨other, hpre, hother, ?_⟩
    by_cases hsame : other = place
    · rw [hsame, Function.update_self]
      exact Option.some_ne_none _
    · rwa [Function.update_of_ne hsame]

/-- Without a file, only the directories on the way to it can be without need. -/
theorem Tidy.erase_file (h : tree.Tidy)
    (he : after.entry? = Function.update tree.entry? place none) : Pruned place.dropLast after := by
  intro q hq hdir
  obtain ⟨hne, hold⟩ := directory_of_update he (by simp) hdir
  obtain ⟨other, hpre, hother, hfile⟩ := tidy_iff.1 h q hq hold
  by_cases hsame : other = place
  · exact Or.inl (prefix_dropLast (hsame ▸ hpre) hne)
  · refine Or.inr ⟨other, hpre, hother, ?_⟩
    rwa [fileAt_of_update he, Function.update_of_ne hsame]

/-- The walk upwards takes out every directory without need. -/
theorem Pruned.cleanUp_tidy (h : Pruned place tree) (hs : tree.Sound) (hname : Nameable place)
    (hplace : tree.entry? place = some .directory) : Tidy (tree.cleanUp place) := by
  -- From the last directory up: where one is not empty, those above it are needed as well.
  induction place using List.reverseRecOn generalizing tree with
  | nil =>
    exact tidy_iff.2 fun q hq hdir => (h q hq hdir).resolve_left fun hroot =>
      hq (List.prefix_nil.1 hroot)
  | append_singleton place name ih =>
    have hthere : tree.entry? (place ++ [name]) ≠ none := by
      rw [hplace]
      exact Option.some_ne_none _
    have hremove := removeDirectory_of_find ((hs.find hthere hname.nul hname.short).trans
      (congrArg Except.ok hplace))
    rw [cleanUp_concat, hremove]
    rcases hbelow : tree.hasBelow (place ++ [name]) with _ | _
    · rw [hbelow] at hremove
      obtain ⟨hsound, hfiles⟩ := removeDirectory_keeps hs (by simp) hremove
      have herased : Tree.entry? (tree.erase (place ++ [name])) =
          Function.update tree.entry? (place ++ [name]) none := entry?_erase tree (by simp)
      refine ih (fun q hq hdir => ?_) hsound (hname.up (List.prefix_append _ _)) ?_
      · obtain ⟨hne, hold⟩ := directory_of_update herased (by simp) hdir
        rw [hfiles]
        exact (h q hq hold).imp_left fun hway => (List.prefix_concat_iff.1 hway).resolve_left hne
      · have hup := hs _ (by simp) hthere
        rw [List.dropLast_concat] at hup
        rwa [herased, Function.update_of_ne (by simp)]
    · have hneeded : Needed tree.fileAt (place ++ [name]) := by
        refine needed_of_hasBelow hbelow fun other hpre hne hother => ?_
        refine (h other (ne_nil_of_below hpre hne) hother).resolve_left fun hway => ?_
        exact hne (hway.eq_of_length_le hpre.length_le)
      exact tidy_iff.2 fun q hq hdir => (h q hq hdir).elim hneeded.up id

end Tree

namespace Directory

variable {tree after made : Tree} {dir P : Place} {path source target : String}
  {size : Nat} {stream : ByteStream} {data : ByteArray}

/-! ## Calls that go well -/

theorem grown_of_made (h : tree.makeDirectories dir = (.ok (), made)) :
    Tree.Grown dir tree made := by
  obtain ⟨way, hmade, -, -⟩ := Tree.makeDirectories_made tree dir
  rw [h] at hmade
  obtain rfl := hmade.all rfl
  exact hmade.grown

theorem tidy_of_put (hs : tree.Sound) (h : tree.Tidy)
    (hput : put path size stream tree = (.ok (), after)) : after.Tidy := by
  obtain ⟨place, made, hplace, hmade, -, hwritten⟩ := put_eq_ok hput
  obtain ⟨hkeeps, -⟩ := keeps_of_made hs hmade
  obtain ⟨-, rfl⟩ := Tree.writeFile_eq_ok (write_eq_ok hwritten).1
  exact ((grown_of_made hmade).pruned hkeeps.files h).put_file
    (Tree.entry?_insert made (place_ne_nil hplace) _)

theorem tidy_of_delete (hs : tree.Sound) (h : tree.Tidy)
    (hdelete : delete path tree = (.ok (), after)) : after.Tidy := by
  obtain ⟨place, removed, -, hremoved, rfl⟩ := delete_eq_ok hdelete
  have hname := Tree.nameable_of_removeFile hremoved
  obtain ⟨data, hfile, rfl⟩ := Tree.removeFile_eq_ok hremoved
  have hroot := Tree.ne_root_of_file hfile
  have herased := Tree.entry?_erase tree hroot
  refine (h.erase_file herased).cleanUp_tidy (hs.erase_file hfile)
    (hname.up (List.dropLast_prefix _)) ?_
  rw [herased, Function.update_of_ne (Tree.dropLast_ne hroot)]
  exact hs place hroot (by rw [hfile]; exact Option.some_ne_none _)

/-- The directories that are made for the target may be on the way that is cleaned up. -/
theorem tidy_of_move (hs : tree.Sound) (h : tree.Tidy) (hP : Directory.place source = .ok P)
    (hdata : tree.fileAt P = some data) (hmove : move source target tree = (.ok (), after)) :
    after.Tidy := by
  obtain ⟨P', Q, made, renamed, hP', -, hmade, hrenamed, rfl⟩ := move_eq_ok hmove
  obtain rfl : P = P' := Except.ok.inj (hP.symm.trans hP')
  obtain ⟨hkeeps, hthere⟩ := keeps_of_made hs hmade
  have hfile : made.entry? P = some (.file data) :=
    Tree.fileAt_eq_some.1 (hkeeps.files ▸ hdata)
  have hroot := Tree.ne_root_of_file hfile
  have hdir : made.entry? P.dropLast = some .directory :=
    hkeeps.sound P hroot (by rw [hfile]; exact Option.some_ne_none _)
  have hname := (Tree.nameable_of_rename hrenamed).1.up (List.dropLast_prefix P)
  have hmadefor := (grown_of_made hmade).pruned hkeeps.files h
  rcases Tree.rename_eq_ok hrenamed with ⟨rfl, rfl⟩ | hmoved
  · exact hmadefor.cleanUp_tidy hkeeps.sound hname hdir
  · have hentries := hmoved.entry? hkeeps.sound hfile
    have htarget : Q ≠ [] := fun e => hmoved.notOnto (e ▸ List.nil_prefix)
    have hPQ : P ≠ Q := fun e => hmoved.notInto (e ▸ List.prefix_refl _)
    have hup : P.dropLast ≠ Q := fun e => hmoved.notOnto (e ▸ List.dropLast_prefix P)
    -- As if the file came to the target first, and went from the source then.
    have hput := hmadefor.put_file (Tree.entry?_insert made htarget (.file data))
    rw [Function.update_comm hPQ, ← Tree.entry?_insert made htarget] at hentries
    refine (hput.erase_file hentries).cleanUp_tidy (hmoved.sound hkeeps.sound hthere) hname ?_
    rw [hentries, Function.update_of_ne (Tree.dropLast_ne hroot), Tree.entry?_insert made htarget,
      Function.update_of_ne hup, hdir]

namespace Call

/-- What a call that goes well does to the files: one is new or replaced, one has gone to another
place or for good. -/
def filesAfter (files : Place → Option ByteArray) : Call → Place → Option ByteArray
  | get _ _ => files
  | put path _ stream _ =>
    match place path with
    | .ok P => Function.update files P (some stream.data)
    | .error _ => files
  | move source target =>
    match place source, place target with
    | .ok P, .ok Q => Function.update (Function.update files P none) Q (files P)
    | _, _ => files
  | delete path =>
    match place path with
    | .ok P => Function.update files P none
    | .error _ => files

/-- What a call is to move, if anything, is an object. -/
def MovesObject (files : Place → Option ByteArray) : Call → Prop
  | move source _ => ∃ P, place source = .ok P ∧ files P ≠ none
  | get _ _ | put _ _ _ _ | delete _ => True

theorem tidy {call : Call} (hs : tree.Sound) (h : tree.Tidy)
    (hobject : call.MovesObject tree.fileAt) (hcall : call.on tree = (.ok (), after)) :
    after.Tidy := by
  cases call with
  | get =>
    obtain rfl : tree = after := congrArg Prod.snd hcall
    exact h
  | put => exact tidy_of_put hs h hcall
  | move =>
    obtain ⟨P, hP, hfile⟩ := hobject
    obtain ⟨data, hdata⟩ := Option.ne_none_iff_exists'.1 hfile
    exact tidy_of_move hs h hP hdata hcall
  | delete => exact tidy_of_delete hs h hcall

theorem files_eq {call : Call} (hs : tree.Sound) (hobject : call.MovesObject tree.fileAt)
    (hcall : call.on tree = (.ok (), after)) : after.fileAt = call.filesAfter tree.fileAt := by
  cases call with
  | get => exact congrArg Tree.fileAt (congrArg Prod.snd hcall).symm
  | put =>
    obtain ⟨P, hP, -, hfiles, -⟩ := put_ok hs hcall
    rw [filesAfter, hP]
    exact hfiles
  | move =>
    obtain ⟨P, hP, hfile⟩ := hobject
    obtain ⟨data, hdata⟩ := Option.ne_none_iff_exists'.1 hfile
    obtain ⟨Q, hQ, -, hfiles⟩ := move_ok hs hP hdata hcall
    rw [filesAfter, hP, hQ, hfiles, ← hdata]
  | delete =>
    obtain ⟨P, hP, -, hfiles⟩ := delete_ok hs hcall
    rw [filesAfter, hP]
    exact hfiles

theorem none_of_erased {files : Place → Option ByteArray} {q : Place} (h : files q = none) :
    Function.update files P none q = none := by
  rw [Function.update_apply]
  split
  · rfl
  · exact h

/-- No file comes to where a directory was. -/
theorem fileAt_of_directory {call : Call} {q : Place} (hs : tree.Sound)
    (hobject : call.MovesObject tree.fileAt) (hcall : call.on tree = (.ok (), after))
    (hdir : tree.entry? q = some .directory) : after.fileAt q = none := by
  have hnone : tree.fileAt q = none := by
    rw [Tree.fileAt, hdir]
    rfl
  have hstays {way : Place} {made : Tree} (hgrown : Tree.Grown way tree made) :
      made.entry? q = some .directory := by
    rw [hgrown.entries, hdir]
    rfl
  have hfiles := files_eq hs hobject hcall
  cases call with
  | get =>
    rw [hfiles]
    exact hnone
  | put =>
    obtain ⟨P, made, hP, hmade, -, hwritten⟩ := put_eq_ok hcall
    obtain ⟨hnot, -⟩ := Tree.writeFile_eq_ok (write_eq_ok hwritten).1
    have hne : q ≠ P := fun e => hnot (e ▸ hstays (grown_of_made hmade))
    rw [hfiles, filesAfter, hP]
    exact (Function.update_of_ne hne _ _).trans hnone
  | move =>
    obtain ⟨P, Q, made, renamed, hP, hQ, hmade, hrenamed, -⟩ := move_eq_ok hcall
    obtain ⟨P', hP', hfile⟩ := hobject
    obtain rfl : P = P' := Except.ok.inj (hP.symm.trans hP')
    obtain ⟨data, hdata⟩ := Option.ne_none_iff_exists'.1 hfile
    rw [← (keeps_of_made hs hmade).1.files, Tree.fileAt_eq_some] at hdata
    have hne : q ≠ Q := fun e =>
      Tree.not_directory_of_rename hdata hrenamed (e ▸ hstays (grown_of_made hmade))
    rw [hfiles, filesAfter, hP, hQ]
    exact (Function.update_of_ne hne _ _).trans (none_of_erased hnone)
  | delete path =>
    rw [hfiles, filesAfter]
    rcases place path with _ | P
    · exact hnone
    · exact none_of_erased hnone

/-- A call has left a sound and tidy tree: its own change of the files, and the directories that
these need. What has gone of the directories is empty. -/
structure CleansUp (call : Call) (tree after : Tree) : Prop where
  sound : after.Sound
  tidy : after.Tidy
  files : after.fileAt = call.filesAfter tree.fileAt
  directories : ∀ q, q ≠ [] →
    (after.entry? q = some .directory ↔ Tree.Needed (call.filesAfter tree.fileAt) q)
  gone : ∀ q, tree.entry? q = some .directory →
    after.entry? q = some .directory ∨ after.entry? q = none ∧ after.hasBelow q = false

theorem cleansUp {call : Call} (hs : tree.Sound) (h : tree.Tidy)
    (hobject : call.MovesObject tree.fileAt) (hcall : call.on tree = (.ok (), after)) :
    call.CleansUp tree after := by
  have hsound : after.Sound := by
    have hsound := call.sound hs
    rwa [hcall] at hsound
  have htidy := tidy hs h hobject hcall
  have hfiles := files_eq hs hobject hcall
  refine ⟨hsound, htidy, hfiles, fun q hq => ?_, fun q hdir => ?_⟩
  · rw [← hfiles]
    refine ⟨Tree.tidy_iff.1 htidy q hq, fun ⟨other, hpre, hne, hfile⟩ => ?_⟩
    refine hsound.directory_above (fun hnone => hfile ?_) hpre (Ne.symm hne)
    rw [Tree.fileAt, hnone]
    rfl
  · have hnofile := fileAt_of_directory hs hobject hcall hdir
    rcases hentry : after.entry? q with _ | data | _
    · refine Or.inr ⟨rfl, Tree.hasBelow_eq_false.2 fun other hpre hne => ?_⟩
      by_contra hother
      rw [hsound.directory_above hother hpre (Ne.symm hne)] at hentry
      cases hentry
    · rw [Tree.fileAt_eq_some.2 hentry] at hnofile
      cases hnofile
    · exact Or.inl rfl

/-- Where a sound tree is tidy, a call that goes well leaves a sound and tidy one, with its own
change of the files and no other, if what it moves is an object. The walk upwards that calls clean
up with comes to an end, and it takes out nothing but empty directories below the root. In a larger
tree it does below the root what it does in a tree of its own. -/
theorem cleans_exactly :
    (∀ tree after (call : Call), tree.Sound → tree.Tidy → call.MovesObject tree.fileAt →
      call.on tree = (.ok (), after) → call.CleansUp tree after) ∧
    (∀ root host dir, (∃! last, Tree.Walks root host dir last) ∧
      ∀ last, Tree.Walks root host dir last → Tree.Cleared root dir host last) ∧
    (∀ tree dir, Tree.Walks [] tree dir (tree.cleanUp dir)) ∧
    ∀ root host tree dir last, Tree.Rooted host root → Tree.Holds host root tree →
      Tree.Walks root host (root ++ dir) last → Tree.Holds last root (tree.cleanUp dir) := by
  refine ⟨fun _ _ _ hs htidy hobject hcall => cleansUp hs htidy hobject hcall,
    fun root host dir => ⟨Tree.exists_walks root host dir, fun _ hwalks => hwalks.clears⟩,
    Tree.walks_cleanUp, fun _ _ _ _ _ hrooted hholds hwalks => hwalks.holds hrooted hholds⟩

/-- An object moves to the directory beside its own, which goes, while the one above both stays. In
a larger tree, an empty directory goes and the root stays. -/
theorem cleans_exactly_behind_move :
    let stored : Call := .put "/a/b/f" 1 ⟨⟨#[1]⟩, none⟩ "text/plain"
    let moved : Call := .move "/a/b/f" "/a/c/g"
    let tree := (stored.on Tree.empty).2
    let after := (moved.on tree).2
    let host := (Tree.empty.makeDirectories ["r", "d"]).2
    stored.CleansUp Tree.empty tree ∧ moved.CleansUp tree after ∧
      after.entry? ["a"] = some .directory ∧ after.entry? ["a", "b"] = none ∧
      ∃ last, Tree.Walks ["r"] host ["r", "d"] last ∧ last.entry? ["r"] = some .directory ∧
        last.entry? ["r", "d"] = none := by
  intro stored moved tree after host
  obtain ⟨hcleans, hwalks, -, hholds⟩ := cleans_exactly
  have htidy : Tree.empty.Tidy := by
    intro place hroot hthere
    rw [Tree.entry?_of_ne hroot] at hthere
    cases hthere
  have hstored : stored.CleansUp Tree.empty tree :=
    hcleans _ _ _ Tree.sound_empty htidy trivial rfl
  have hobject : moved.MovesObject tree.fileAt := ⟨["a", "b", "f"], rfl, by
    rw [hstored.files]
    exact Option.some_ne_none _⟩
  have hmoved : moved.CleansUp tree after := hcleans _ _ _ hstored.sound hstored.tidy hobject rfl
  have hhost := (Tree.makeDirectories_keeps Tree.sound_empty ["r", "d"]).1.sound
  obtain ⟨⟨last, hlast, -⟩, hclears⟩ := hwalks ["r"] host ["r", "d"]
  have hheld : Tree.Holds host ["r"] (Tree.empty.makeDirectories ["d"]).2 := by
    intro q hq
    have hentries : host.entries = [(["r"], .directory), (["r", "d"], .directory)] := by rfl
    have hown : (Tree.empty.makeDirectories ["d"]).2.entries = [(["d"], .directory)] := by rfl
    rw [Tree.entry?_of_ne (by simp), Tree.entry?_of_ne hq, hentries, hown]
    obtain ⟨name, rest, rfl⟩ := List.exists_cons_of_ne_nil hq
    simp [List.lookup_cons]
  have hwalked := hholds ["r"] host _ ["d"] last ⟨hhost, by rfl, by rfl, by decide⟩ hheld hlast
  refine ⟨hstored, hmoved, by rfl, by rfl, last, hlast, ?_, hwalked ["d"] (by simp)⟩
  exact (hclears last hlast ["r"]).resolve_right fun hgone => hgone.2.1 rfl

end Call

end Directory

end FileDrive
