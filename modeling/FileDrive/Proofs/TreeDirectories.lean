import FileDrive.Proofs.TreeFiles

/-!
# Directories by place

Making the directories on the way to a place adds those that are missing, and cleaning up takes out
those that are empty, from the last one up. In a tidy tree, where something is in every directory,
cleaning up takes out exactly what making directories has added.
-/

namespace FileDrive.Tree

variable {tree after made : Tree} {place above q : Place}

theorem ne_none_of_mem {x : Place × Entry} (h : x ∈ tree.entries) (hroot : x.1 ≠ []) :
    tree.entry? x.1 ≠ none := by
  rw [entry?_of_ne hroot]
  intro hnone
  have hx := List.lookup_eq_none_iff.1 hnone x h
  exact absurd hx (by simp)

theorem hasBelow_iff :
    tree.hasBelow place = true ↔
      ∃ other, place <+: other ∧ other ≠ place ∧ tree.entry? other ≠ none := by
  constructor
  · intro h
    obtain ⟨x, hmem, hx⟩ := List.any_eq_true.1 h
    rw [Bool.and_eq_true, List.isPrefixOf_iff_prefix, decide_eq_true_eq] at hx
    refine ⟨x.1, hx.1, hx.2, ne_none_of_mem hmem fun hroot => ?_⟩
    have hnil := hx.1
    rw [hroot] at hnil
    exact hx.2 (hroot.trans (List.prefix_nil.1 hnil).symm)
  · rintro ⟨other, hpre, hne, hthere⟩
    by_contra hnone
    exact hthere (below_of_hasBelow (by simpa using hnone) hpre hne (ne_nil_of_below hpre hne))

theorem hasBelow_eq_false : tree.hasBelow place = false ↔
    ∀ other, place <+: other → other ≠ place → tree.entry? other = none := by
  rw [← Bool.not_eq_true, hasBelow_iff]
  push Not
  rfl

/-- In a sound tree what is there is found, when its names can be asked for. -/
theorem Sound.findBelow (hs : tree.Sound) (hthere : tree.entry? (above ++ place) ≠ none)
    (hnames : ∀ name ∈ place, isTooLong name = false) :
    tree.findBelow above place = .ok (tree.entry? (above ++ place)) := by
  induction place generalizing above with
  | nil => rw [Tree.findBelow, List.append_nil]
  | cons name rest ih =>
    rw [List.forall_mem_cons] at hnames
    have hsplit : above ++ name :: rest = (above ++ [name]) ++ rest := by simp
    unfold Tree.findBelow
    rw [if_neg (by simp [hnames.1])]
    by_cases hlast : rest = []
    · rw [if_pos hlast, hlast]
    · have hdir : tree.entry? (above ++ [name]) = some .directory := by
        refine hs.directory_above hthere ?_ ?_
        · rw [hsplit]
          exact List.prefix_append _ _
        · simpa using Ne.symm hlast
      rw [if_neg hlast, hdir, hsplit]
      exact ih (hsplit ▸ hthere) hnames.2

theorem Sound.find (hs : tree.Sound) (hthere : tree.entry? place ≠ none)
    (hnul : hasNul place = false) (hnames : ∀ name ∈ place, isTooLong name = false) :
    tree.find place = .ok (tree.entry? place) := by
  unfold Tree.find
  rw [hnul]
  exact hs.findBelow hthere hnames

/-! ## Making directories -/

/-- A directory, at the places on the way to another place. -/
def onWay (way q : Place) : Option Entry := if q <+: way then some .directory else none

/-- One tree has the entries of another one, and directories all the way to a place. -/
structure Grown (way : Place) (tree after : Tree) : Prop where
  entries : ∀ q, after.entry? q = (tree.entry? q).or (onWay way q)
  directories : ∀ q, q <+: way → after.entry? q = some .directory

theorem Grown.self (h : ∀ q, q <+: above → tree.entry? q = some .directory) :
    Grown above tree tree := by
  refine ⟨fun q => ?_, h⟩
  unfold onWay
  split
  · next hpre =>
    rw [h q hpre]
    rfl
  · rw [Option.or_none]

/-- A directory that is missing is made in the one above. -/
theorem Grown.insert {name : String} {way : Place} (hmissing : tree.entry? (above ++ [name]) = none)
    (hway : above ++ [name] <+: way)
    (h : Grown way (tree.insert (above ++ [name]) .directory) after) : Grown way tree after := by
  refine ⟨fun q => ?_, h.directories⟩
  rw [h.entries q, entry?_insert tree (by simp)]
  by_cases hq : q = above ++ [name]
  · rw [hq, Function.update_self, hmissing, onWay, if_pos hway]
    rfl
  · rw [Function.update_of_ne hq]

/-- From a place on, the directories with some of the names that follow have been made: with all of
them when that went well. -/
structure Made (above place names : Place) (tree after : Tree) (result : Except IoError Unit) :
    Prop where
  first : names <+: place
  short : ∀ name ∈ names, isTooLong name = false
  all : result = .ok () → names = place
  grown : Grown (above ++ names) tree after

theorem Made.none {result : Except IoError Unit}
    (habove : ∀ q, q <+: above → tree.entry? q = some .directory)
    (h : result = .ok () → place = []) : Made above place [] tree tree result := by
  refine ⟨List.nil_prefix, fun _ hmem => absurd hmem List.not_mem_nil, fun hok => (h hok).symm, ?_⟩
  rw [List.append_nil]
  exact Grown.self habove

theorem Made.failed {e : IoError} (habove : ∀ q, q <+: above → tree.entry? q = some .directory) :
    Made above place [] tree tree (.error e) :=
  Made.none habove fun h => absurd h (by simp)

theorem Made.next {name : String} {names : Place} {result : Except IoError Unit}
    (hshort : ¬ isTooLong name = true) (h : Made (above ++ [name]) place names tree after result) :
    Made above (name :: place) (name :: names) tree after result := by
  have hnext : above ++ name :: names = (above ++ [name]) ++ names := by simp
  refine ⟨(List.prefix_cons_inj name).2 h.first, ?_, fun hok => congrArg _ (h.all hok), ?_⟩
  · rw [List.forall_mem_cons]
    exact ⟨by simpa using hshort, h.short⟩
  · rw [hnext]
    exact h.grown

theorem makeDirectoriesBelow_made (place : Place)
    (habove : ∀ q, q <+: above → tree.entry? q = some .directory) :
    ∃ names, Made above place names tree (tree.makeDirectoriesBelow above place).2
      (tree.makeDirectoriesBelow above place).1 := by
  induction place generalizing tree above with
  | nil => exact ⟨[], Made.none habove fun _ => rfl⟩
  | cons name rest ih =>
    unfold makeDirectoriesBelow
    split
    · exact ⟨[], Made.failed habove⟩
    · next hshort =>
      dsimp only
      rcases hhere : tree.entry? (above ++ [name]) with _ | _ | _
      · have hdirs : ∀ q, q <+: above ++ [name] →
            Tree.entry? (tree.insert (above ++ [name]) .directory) q = some .directory := by
          intro q hq
          rw [entry?_insert tree (by simp)]
          by_cases he : q = above ++ [name]
          · rw [he, Function.update_self]
          · rw [Function.update_of_ne he]
            exact habove q ((List.prefix_concat_iff.1 hq).resolve_left he)
        obtain ⟨names, hmade⟩ := ih hdirs
        exact ⟨name :: names, Made.next hshort
          { hmade with grown := hmade.grown.insert hhere (List.prefix_append _ _) }⟩
      · exact ⟨[], Made.failed habove⟩
      · have hdirs : ∀ q, q <+: above ++ [name] → tree.entry? q = some .directory := by
          intro q hq
          rcases List.prefix_concat_iff.1 hq with rfl | hfar
          · exact hhere
          · exact habove q hfar
        obtain ⟨names, hmade⟩ := ih hdirs
        exact ⟨name :: names, Made.next hshort hmade⟩

/-- The directories on the way to a place are made one after another, as far as they can be. -/
theorem makeDirectories_made (tree : Tree) (place : Place) :
    ∃ way, Made [] place way tree (tree.makeDirectories place).2 (tree.makeDirectories place).1 ∧
      (hasNul place = true → way = []) ∧
      ((tree.makeDirectories place).1 = .ok () → hasNul place = false) := by
  have hroot : ∀ q, q <+: [] → tree.entry? q = some .directory := by
    intro q hq
    rw [List.prefix_nil.1 hq]
    exact entry?_root
  unfold makeDirectories
  split
  · exact ⟨[], Made.failed hroot, fun _ => rfl, fun h => absurd h (by simp)⟩
  · next hnul =>
    obtain ⟨way, hmade⟩ := makeDirectoriesBelow_made place hroot
    exact ⟨way, hmade, fun h => absurd h hnul, fun _ => by simpa using hnul⟩

/-- Where the directories on the way are there already, none is added. -/
theorem Grown.same (h : Grown place tree after) (hs : tree.Sound)
    (hthere : tree.entry? place = some .directory) : after.entry? = tree.entry? := by
  funext q
  rw [h.entries q, onWay]
  split
  · next hpre =>
    by_cases hq : q = place
    · rw [hq, hthere]
      rfl
    · rw [hs.directory_above (by rw [hthere]; exact Option.some_ne_none _) hpre hq]
      rfl
  · rw [Option.or_none]

/-- There is no directory to be made on the way to a place: all are there, or the way ends at a
file, at a name that is too long, or at once. -/
inductive Settled (tree : Tree) (way : Place) : Prop where
  | there (directory : tree.entry? way = some .directory)
  | blocked {above : Place} {data : ByteArray} (passed : above <+: way)
      (file : tree.entry? above = some (.file data))
  | tooLong {above : Place} {name : String} (passed : above ++ [name] <+: way)
      (directory : tree.entry? above = some .directory) (long : isTooLong name = true)
  | nul (names : hasNul way = true)

/-- Making directories stops in front of what is in the way. -/
theorem Settled.same (h : Settled tree place) (hs : tree.Sound) :
    Tree.entry? (tree.makeDirectories place).2 = tree.entry? := by
  obtain ⟨way, ⟨hway, hshorts, -, hgrown⟩, hnul, -⟩ := makeDirectories_made tree place
  refine Grown.same hgrown hs ?_
  have hup : ∀ {above}, way <+: above → tree.entry? above = some .directory →
      tree.entry? way = some .directory := by
    intro above hpre hthere
    by_cases hsame : way = above
    · rwa [hsame]
    · exact hs.directory_above (by rw [hthere]; exact Option.some_ne_none _) hpre hsame
  cases h with
  | there directory => exact hup hway directory
  | @blocked above data passed file =>
    have hnot : ¬ above <+: way := fun hpre => by
      have hdir := hgrown.directories above hpre
      rw [hgrown.entries, file] at hdir
      cases hdir
    have hpre := (List.prefix_or_prefix_of_prefix passed hway).resolve_left hnot
    refine hs.directory_above (by rw [file]; exact Option.some_ne_none _) hpre fun e => ?_
    exact hnot (e ▸ List.prefix_refl _)
  | @tooLong above name passed directory long =>
    have hnot : ¬ above ++ [name] <+: way := fun hpre => by
      have hmem : name ∈ above ++ [name] := List.mem_append_right _ (List.mem_singleton_self _)
      have hshort := hshorts name (hpre.subset hmem)
      rw [long] at hshort
      cases hshort
    have hpre := (List.prefix_or_prefix_of_prefix passed hway).resolve_left hnot
    rcases List.prefix_concat_iff.1 hpre with hsame | hpre
    · exact absurd (hsame ▸ List.prefix_refl _) hnot
    · exact hup hpre directory
  | nul names =>
    rw [hnul names]
    exact entry?_root

/-! ## Cleaning up -/

/-- Every directory but the root has something in it. -/
def Tidy (tree : Tree) : Prop :=
  ∀ place, place ≠ [] → tree.entry? place = some .directory → tree.hasBelow place = true

theorem cleanUp_concat (tree : Tree) (place : Place) (name : String) :
    tree.cleanUp (place ++ [name]) =
      match tree.removeDirectory (place ++ [name]) with
      | .ok after => after.cleanUp place
      | .error .notFound => tree.cleanUp place
      | .error _ => tree := by
  have hreverse : (place ++ [name]).reverse = name :: place.reverse := by simp
  rw [cleanUp, hreverse, cleanUpwards, ← hreverse, List.reverse_reverse]
  rfl

theorem removeDirectory_of_find (h : tree.find place = .ok (some .directory)) :
    tree.removeDirectory place =
      if tree.hasBelow place then .error .directoryNotEmpty else .ok (tree.erase place) := by
  rw [removeDirectory, h]
  rfl

theorem onWay_concat {name : String} (h : q ≠ place ++ [name]) :
    onWay (place ++ [name]) q = onWay place q := by
  have hiff : q <+: place ++ [name] ↔ q <+: place :=
    List.prefix_concat_iff.trans ⟨fun hq => hq.resolve_left h, Or.inr⟩
  rw [onWay, onWay]
  exact if_congr hiff rfl rfl

theorem not_prefix_of_concat (place : Place) (name : String) : ¬ place ++ [name] <+: place := by
  intro hpre
  have hlen := hpre.length_le
  rw [List.length_append, List.length_singleton] at hlen
  omega

/-- Of what has been added, the last directory is empty. -/
theorem Grown.hasBelow (h : Grown place tree made) (hs : tree.Sound)
    (hmissing : tree.entry? place = none) : made.hasBelow place = false := by
  refine hasBelow_eq_false.2 fun other hpre hne => ?_
  have hoff : onWay place other = none :=
    if_neg fun hback => hne (hback.eq_of_length_le hpre.length_le)
  rw [h.entries other, hoff, Option.or_none]
  by_contra hother
  rw [hs.directory_above hother hpre (Ne.symm hne)] at hmissing
  cases hmissing

theorem Grown.erase {name : String} (h : Grown (place ++ [name]) tree made)
    (hmissing : tree.entry? (place ++ [name]) = none) :
    Grown place tree (made.erase (place ++ [name])) := by
  have herased : Tree.entry? (made.erase (place ++ [name])) =
      Function.update made.entry? (place ++ [name]) none := entry?_erase made (by simp)
  refine ⟨fun q => ?_, fun q hq => ?_⟩
  · rw [herased]
    by_cases hq : q = place ++ [name]
    · rw [hq, onWay, if_neg (not_prefix_of_concat place name), Option.or_none, hmissing,
        Function.update_self]
    · rw [Function.update_of_ne hq, h.entries q, onWay_concat hq]
  · have hne : q ≠ place ++ [name] := fun e => not_prefix_of_concat place name (e ▸ hq)
    rw [herased, Function.update_of_ne hne]
    exact h.directories q (hq.trans (List.prefix_append _ _))

/-- In a tidy tree, what making directories has added is cleaned up again. -/
theorem cleanUp_grown (hs : tree.Sound) (htidy : tree.Tidy) (hmade : made.Sound)
    (hgrown : Grown place tree made) (hnul : hasNul place = false)
    (hnames : ∀ name ∈ place, isTooLong name = false) :
    Tree.entry? (made.cleanUp place) = tree.entry? := by
  -- From the last directory up: those that have been added are empty one after another, and the
  -- first one that was there has something in it.
  induction place using List.reverseRecOn generalizing made with
  | nil => exact hgrown.same hs entry?_root
  | append_singleton place name ih =>
    have hdir := hgrown.directories _ (List.prefix_refl _)
    have hthere : made.entry? (place ++ [name]) ≠ none := by
      rw [hdir]
      exact Option.some_ne_none _
    have hremove := removeDirectory_of_find ((hmade.find hthere hnul hnames).trans
      (congrArg Except.ok hdir))
    rw [cleanUp_concat, hremove]
    rcases hold : tree.entry? (place ++ [name]) with _ | old
    · rw [hgrown.hasBelow hs hold] at hremove ⊢
      rw [hasNul, List.any_append, Bool.or_eq_false_iff] at hnul
      exact ih (removeDirectory_keeps hmade (by simp) hremove).sound (hgrown.erase hold) hnul.1
        fun other hmem => hnames other (List.mem_append_left _ hmem)
    · have holddir : tree.entry? (place ++ [name]) = some .directory := by
        rw [← hdir, hgrown.entries, hold]
        rfl
      have hsame := hgrown.same hs holddir
      have hbelow := htidy _ (by simp) holddir
      rw [hasBelow_iff, ← hsame, ← hasBelow_iff] at hbelow
      rw [hbelow]
      exact hsame

/-! ## What may differ -/

/-- Nothing but directories on the way to a place has come or gone. -/
def AlikeOff (way : Place) (tree after : Tree) : Prop :=
  ∀ q, after.entry? q = tree.entry? q ∨
    q <+: way ∧ (tree.entry? q = none ∧ after.entry? q = some .directory ∨
      tree.entry? q = some .directory ∧ after.entry? q = none)

theorem AlikeOff.refl (way : Place) (tree : Tree) : AlikeOff way tree tree := fun _ => Or.inl rfl

theorem AlikeOff.trans {way : Place} {mid : Tree} (h : AlikeOff way tree mid)
    (k : AlikeOff way mid after) : AlikeOff way tree after := by
  intro q
  rcases h q with hq | ⟨hpre, ⟨hold, hmid⟩ | ⟨hold, hmid⟩⟩
  · rw [← hq]
    exact k q
  · rcases k q with hq | ⟨-, ⟨hnone, -⟩ | ⟨-, hgone⟩⟩
    · exact Or.inr ⟨hpre, Or.inl ⟨hold, hq.trans hmid⟩⟩
    · rw [hmid] at hnone
      cases hnone
    · exact Or.inl (hgone.trans hold.symm)
  · rcases k q with hq | ⟨-, ⟨-, hback⟩ | ⟨hdir, -⟩⟩
    · exact Or.inr ⟨hpre, Or.inr ⟨hold, hq.trans hmid⟩⟩
    · exact Or.inl (hback.trans hold.symm)
    · rw [hmid] at hdir
      cases hdir

theorem AlikeOff.files {way : Place} (h : AlikeOff way tree after) :
    after.fileAt = tree.fileAt := by
  funext q
  rw [fileAt, fileAt]
  rcases h q with hq | ⟨-, ⟨hold, hnew⟩ | ⟨hold, hnew⟩⟩
  · rw [hq]
  · rw [hold, hnew]
    rfl
  · rw [hold, hnew]
    rfl

theorem makeDirectories_alike (tree : Tree) (place : Place) :
    AlikeOff place tree (tree.makeDirectories place).2 := by
  obtain ⟨way, ⟨hway, -, -, hgrown⟩, -⟩ := makeDirectories_made tree place
  intro q
  rw [hgrown.entries q, onWay]
  rcases tree.entry? q with _ | entry
  · split
    · next hpre => exact Or.inr ⟨hpre.trans hway, Or.inl ⟨rfl, rfl⟩⟩
    · exact Or.inl rfl
  · exact Or.inl rfl

theorem cleanUp_alike (tree : Tree) (place : Place) : AlikeOff place tree (tree.cleanUp place) := by
  induction place using List.reverseRecOn generalizing tree with
  | nil => exact AlikeOff.refl _ _
  | append_singleton place name ih =>
    have hup : ∀ {before : Tree}, AlikeOff (place ++ [name]) before (before.cleanUp place) := by
      intro before q
      exact (ih before q).imp_right fun h => ⟨h.1.trans (List.prefix_append _ _), h.2⟩
    rw [cleanUp_concat]
    split
    · next erased herased =>
      obtain ⟨hhere, -, rfl⟩ := removeDirectory_eq_ok herased
      refine AlikeOff.trans (fun q => ?_) hup
      rw [entry?_erase tree (by simp)]
      by_cases hq : q = place ++ [name]
      · rw [hq, Function.update_self]
        exact Or.inr ⟨List.prefix_refl _, Or.inr ⟨hhere, rfl⟩⟩
      · exact Or.inl (Function.update_of_ne hq ..)
    · exact hup
    · exact AlikeOff.refl _ _

end FileDrive.Tree
