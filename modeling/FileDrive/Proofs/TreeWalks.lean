import FileDrive.Proofs.OpenableFiles

/-!
# The walk upwards

Cleaning up walks from a directory towards the root, turn by turn: an empty directory is taken out,
a missing one is passed, and anything else ends the walk (`turn?`). Here the root may be a directory
of a larger tree, and the walk keeps below it. Every walk comes to an end (`exists_walks`), and all
that it takes out are empty directories below the root (`Walks.clears`). In a tree of its own the
walk is `cleanUp`, and in a larger one it does the same below the root (`Walks.holds`).
-/

namespace FileDrive.Tree

variable {tree after host last : Tree} {root place dir above q : Place} {name : String}

/-- One turn of a walk that keeps below a root; none when the walk ends. -/
def turn? (root : Place) (tree : Tree) (dir : Place) : Option (Tree × Place) :=
  if root <+: dir ∧ dir ≠ root then
    match tree.removeDirectory dir with
    | .ok after => some (after, dir.dropLast)
    | .error .notFound => some (tree, dir.dropLast)
    | .error _ => none
  else none

/-- A walk from a directory, turn by turn, to the tree that it ends with. -/
inductive Walks (root : Place) : Tree → Place → Tree → Prop where
  | ends {tree : Tree} {dir : Place} (ends : turn? root tree dir = none) : Walks root tree dir tree
  | turns {tree next last : Tree} {dir above : Place}
      (turns : turn? root tree dir = some (next, above)) (walks : Walks root next above last) :
      Walks root tree dir last

theorem turn?_eq_some {next : Tree} (h : turn? root tree dir = some (next, above)) :
    root <+: dir ∧ dir ≠ root ∧ above = dir.dropLast ∧
      (tree.removeDirectory dir = .ok next ∨
        tree.removeDirectory dir = .error .notFound ∧ next = tree) := by
  unfold turn? at h
  split at h
  · next hbelow =>
    refine ⟨hbelow.1, hbelow.2, ?_⟩
    split at h
    · next removed hremoved =>
      cases h
      exact ⟨rfl, Or.inl hremoved⟩
    · next hmissing =>
      cases h
      exact ⟨rfl, Or.inr ⟨hmissing, rfl⟩⟩
    · cases h
  · cases h

theorem Walks.ends_of (h : Walks root tree dir last) (hturn : turn? root tree dir = none) :
    last = tree := by
  cases h with
  | ends => rfl
  | turns turns => exact absurd (hturn.symm.trans turns) (by simp)

theorem Walks.turns_of {next : Tree} (h : Walks root tree dir last)
    (hturn : turn? root tree dir = some (next, above)) : Walks root next above last := by
  cases h with
  | ends ends => exact absurd (hturn.symm.trans ends) (by simp)
  | turns turns walks =>
    cases hturn.symm.trans turns
    exact walks

/-- Every walk comes to an end, with one tree. -/
theorem exists_walks (root : Place) (tree : Tree) (dir : Place) :
    ∃! last, Walks root tree dir last := by
  -- Each turn goes on at a directory with one name less.
  induction hn : dir.length using Nat.strongRecOn generalizing tree dir with
  | ind n ih =>
    rcases hturn : turn? root tree dir with _ | ⟨next, above⟩
    · exact ⟨tree, .ends hturn, fun last hlast => hlast.ends_of hturn⟩
    · obtain ⟨hinside, hapart, rfl, -⟩ := turn?_eq_some hturn
      have hpos := List.length_pos_iff.2 (ne_nil_of_below hinside hapart)
      obtain ⟨last, hlast, hunique⟩ :=
        ih dir.dropLast.length (by rw [List.length_dropLast]; omega) next dir.dropLast rfl
      exact ⟨last, .turns hturn hlast, fun other hother => hunique other (hother.turns_of hturn)⟩

theorem turn?_of_removed (hinside : root <+: dir ++ [name]) (hapart : dir ++ [name] ≠ root)
    (hremoved : tree.removeDirectory (dir ++ [name]) = .ok after) :
    turn? root tree (dir ++ [name]) = some (after, dir) := by
  rw [turn?, if_pos ⟨hinside, hapart⟩, hremoved, List.dropLast_concat]

theorem turn?_of_missing (hinside : root <+: dir ++ [name]) (hapart : dir ++ [name] ≠ root)
    (hmissing : tree.removeDirectory (dir ++ [name]) = .error .notFound) :
    turn? root tree (dir ++ [name]) = some (tree, dir) := by
  rw [turn?, if_pos ⟨hinside, hapart⟩, hmissing, List.dropLast_concat]

/-- A walk ends at a directory that cannot be taken out, but for a missing one. -/
theorem turn?_of_stuck {e : IoError} (hstuck : tree.removeDirectory dir = .error e)
    (hthere : e ≠ .notFound) : turn? root tree dir = none := by
  unfold turn?
  split
  · rw [hstuck]
    split
    · cases ‹Except.error e = Except.ok _›
    · cases ‹Except.error e = Except.error IoError.notFound›
      exact absurd rfl hthere
    · rfl
  · rfl

/-- In a tree of its own the walk is what cleaning up does. -/
theorem walks_cleanUp (tree : Tree) (dir : Place) : Walks [] tree dir (tree.cleanUp dir) := by
  induction dir using List.reverseRecOn generalizing tree with
  | nil => exact .ends (if_neg fun hbelow => hbelow.2 rfl)
  | append_singleton dir name ih =>
    rw [cleanUp_concat]
    split
    · next after hremoved =>
      exact .turns (turn?_of_removed List.nil_prefix (by simp) hremoved) (ih after)
    · next hmissing => exact .turns (turn?_of_missing List.nil_prefix (by simp) hmissing) (ih tree)
    · next e hthere hstuck => exact .ends (turn?_of_stuck hstuck hthere)

/-! ## What a walk takes out -/

/-- All that has gone are directories on the way from a root to a place, with nothing left in
them. -/
def Cleared (root place : Place) (tree after : Tree) : Prop :=
  ∀ q, after.entry? q = tree.entry? q ∨
    root <+: q ∧ q ≠ root ∧ q <+: place ∧ tree.entry? q = some .directory ∧
      after.entry? q = none ∧ after.hasBelow q = false

theorem Cleared.none (h : Cleared root place tree after) (hnone : tree.entry? q = none) :
    after.entry? q = none := by
  rcases h q with hsame | ⟨-, -, -, -, hgone, -⟩
  · rw [hsame, hnone]
  · exact hgone

theorem Cleared.mono (h : Cleared root above tree after) (hpre : above <+: place) :
    Cleared root place tree after :=
  fun q => (h q).imp_right fun ⟨hinside, hapart, hway, hrest⟩ =>
    ⟨hinside, hapart, hway.trans hpre, hrest⟩

theorem Cleared.trans {mid : Tree} (h : Cleared root place tree mid)
    (k : Cleared root place mid after) : Cleared root place tree after := by
  intro q
  rcases h q with hsame | ⟨hinside, hapart, hway, hthere, hgone, hempty⟩
  · rw [← hsame]
    exact k q
  · rw [hasBelow_eq_false] at hempty
    exact Or.inr ⟨hinside, hapart, hway, hthere, k.none hgone,
      hasBelow_eq_false.2 fun other hpre hne => k.none (hempty other hpre hne)⟩

theorem cleared_of_removed (hinside : root <+: dir) (hapart : dir ≠ root)
    (h : tree.removeDirectory dir = .ok after) : Cleared root dir tree after := by
  obtain ⟨hthere, hempty, rfl⟩ := removeDirectory_eq_ok h
  have herased := entry?_erase tree (ne_nil_of_below hinside hapart)
  intro q
  by_cases hq : q = dir
  · subst hq
    refine Or.inr ⟨hinside, hapart, List.prefix_refl _, hthere, ?_, ?_⟩
    · rw [herased, Function.update_self]
    · rw [hasBelow_eq_false] at hempty ⊢
      intro other hpre hne
      rw [herased, Function.update_of_ne hne]
      exact hempty other hpre hne
  · rw [herased, Function.update_of_ne hq]
    exact Or.inl rfl

theorem Walks.clears (h : Walks root tree dir last) : Cleared root dir tree last := by
  induction h with
  | ends => exact fun _ => Or.inl rfl
  | @turns tree next last dir above turns walks ih =>
    obtain ⟨hinside, hapart, rfl, hremoved | ⟨-, rfl⟩⟩ := turn?_eq_some turns
    · exact (cleared_of_removed hinside hapart hremoved).trans (ih.mono (List.dropLast_prefix dir))
    · exact ih.mono (List.dropLast_prefix dir)

/-! ## In a larger tree -/

/-- A tree is what a larger one has below a place. -/
def Holds (host : Tree) (root : Place) (tree : Tree) : Prop :=
  ∀ q, q ≠ [] → host.entry? (root ++ q) = tree.entry? q

/-- On the way through directories nothing is looked at but their names. -/
theorem Sound.findBelow_append (hs : host.Sound)
    (hdir : host.entry? (above ++ root) = some .directory)
    (hnames : ∀ name ∈ root, isTooLong name = false) (hne : place ≠ []) :
    host.findBelow above (root ++ place) = host.findBelow (above ++ root) place := by
  induction root generalizing above with
  | nil => rw [List.nil_append, List.append_nil]
  | cons name rest ih =>
    rw [List.forall_mem_cons] at hnames
    have hsplit : above ++ name :: rest = (above ++ [name]) ++ rest := by simp
    rw [hsplit] at hdir ⊢
    have hnext : host.entry? (above ++ [name]) = some .directory := by
      by_cases hlast : above ++ [name] = above ++ [name] ++ rest
      · rw [hlast, hdir]
      · exact hs.directory_above (by rw [hdir]; exact Option.some_ne_none _)
          (List.prefix_append _ _) hlast
    rw [List.cons_append, Tree.findBelow, if_neg (by simp [hnames.1]),
      if_neg (by simp [hne]), hnext]
    exact ih hdir hnames.2

theorem Holds.findBelow (h : Holds host root tree) (hne : place ≠ []) :
    host.findBelow (root ++ above) place = tree.findBelow above place := by
  induction place generalizing above with
  | nil => exact absurd rfl hne
  | cons name rest ih =>
    have hentry := h (above ++ [name]) (by simp)
    rw [← List.append_assoc] at hentry
    rw [Tree.findBelow, Tree.findBelow, hentry]
    by_cases hrest : rest = []
    · rw [if_pos hrest, if_pos hrest]
    · rw [if_neg hrest, if_neg hrest, List.append_assoc, ih hrest]

theorem Holds.hasBelow (h : Holds host root tree) (hne : place ≠ []) :
    host.hasBelow (root ++ place) = tree.hasBelow place := by
  rw [Bool.eq_iff_iff, hasBelow_iff, hasBelow_iff]
  constructor
  · rintro ⟨other, ⟨rest, rfl⟩, hother, hthere⟩
    rw [List.append_assoc, h _ (by simp [hne])] at hthere
    exact ⟨place ++ rest, List.prefix_append _ _, by simpa using hother, hthere⟩
  · rintro ⟨other, ⟨rest, rfl⟩, hother, hthere⟩
    rw [← h _ (by simp [hne]), ← List.append_assoc] at hthere
    exact ⟨root ++ place ++ rest, List.prefix_append _ _, by simpa using hother, hthere⟩

theorem Holds.erase (h : Holds host root tree) (hne : place ≠ []) :
    Holds (host.erase (root ++ place)) root (tree.erase place) := by
  intro q hq
  rw [entry?_erase host (by simp [hne]), entry?_erase tree hne]
  by_cases hsame : q = place
  · rw [hsame, Function.update_self, Function.update_self]
  · rw [Function.update_of_ne (by simpa using hsame), Function.update_of_ne hsame, h q hq]

/-- A tree that can be walked up to one of its directories. -/
structure Rooted (host : Tree) (root : Place) : Prop where
  sound : host.Sound
  directory : host.entry? root = some .directory
  nameable : Nameable root

theorem Holds.find (h : Holds host root tree) (hrooted : Rooted host root) (hne : place ≠ []) :
    host.find (root ++ place) = tree.find place := by
  have hnul : hasNul (root ++ place) = hasNul place := by
    have hroot := hrooted.nameable.nul
    rw [hasNul] at hroot ⊢
    rw [List.any_append, hroot, Bool.false_or, hasNul]
  have hroot : host.entry? ([] ++ root) = some .directory := hrooted.directory
  have hbelow : host.findBelow (root ++ []) place = tree.findBelow [] place := h.findBelow hne
  rw [List.append_nil] at hbelow
  rw [Tree.find, Tree.find, hnul, hrooted.sound.findBelow_append hroot hrooted.nameable.short hne,
    List.nil_append, hbelow]

theorem Holds.removeDirectory (h : Holds host root tree) (hrooted : Rooted host root)
    (hne : place ≠ []) : host.removeDirectory (root ++ place) =
      (tree.removeDirectory place).map fun _ => host.erase (root ++ place) := by
  unfold Tree.removeDirectory
  rw [h.find hrooted hne]
  rcases tree.find place with e | _ | _ | _
  · rfl
  · rfl
  · rfl
  · show (if _ then _ else _) = Except.map _ (if _ then _ else _)
    rw [h.hasBelow hne]
    split <;> rfl

theorem Rooted.removeDirectory (h : Rooted host root) (hne : place ≠ [])
    (hremoved : host.removeDirectory (root ++ place) = .ok after) : Rooted after root := by
  obtain ⟨-, -, rfl⟩ := removeDirectory_eq_ok hremoved
  have hfar : root ++ place ≠ [] := by simp [hne]
  refine ⟨(removeDirectory_keeps h.sound hfar hremoved).sound, ?_, h.nameable⟩
  rw [entry?_erase host hfar, Function.update_of_ne (by simpa using hne), h.directory]

/-- A walk in a larger tree does below the root what it does in a tree of its own. -/
theorem Walks.holds (h : Walks root host (root ++ dir) last) (hrooted : Rooted host root)
    (hholds : Holds host root tree) : Holds last root (tree.cleanUp dir) := by
  induction dir using List.reverseRecOn generalizing host tree with
  | nil =>
    rw [List.append_nil] at h
    rw [h.ends_of (if_neg fun hbelow => hbelow.2 rfl)]
    exact hholds
  | append_singleton dir name ih =>
    have hne : dir ++ [name] ≠ [] := by simp
    have hremove := hholds.removeDirectory hrooted hne
    have hinside : root <+: (root ++ dir) ++ [name] := by simp
    have hapart : (root ++ dir) ++ [name] ≠ root := by simp
    rw [← List.append_assoc] at h hremove
    rw [cleanUp_concat]
    split
    · next after hremoved =>
      obtain ⟨-, -, rfl⟩ := removeDirectory_eq_ok hremoved
      rw [hremoved, Except.map] at hremove
      have hlater := hrooted.removeDirectory hne (List.append_assoc root dir [name] ▸ hremove)
      have hheld := hholds.erase hne
      rw [← List.append_assoc] at hlater hheld
      exact ih (h.turns_of (turn?_of_removed hinside hapart hremove)) hlater hheld
    · next hmissing =>
      rw [hmissing] at hremove
      exact ih (h.turns_of (turn?_of_missing hinside hapart hremove)) hrooted hholds
    · next e hthere hstuck =>
      rw [hstuck] at hremove
      rw [h.ends_of (turn?_of_stuck hremove hthere)]
      exact hholds

end FileDrive.Tree
