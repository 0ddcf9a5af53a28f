import Mathlib.Data.List.Induction
import Mathlib.Logic.Function.Basic
import FileDrive.Proofs.Tables
import FileDrive.Storage.Tree

/-!
# Trees by place

A directory tree seen as a function of a place (`entry?`), and its files as another one (`fileAt`).
In a sound tree what is anywhere is in a directory, so nothing is below a file. The operations of
the file system keep a tree sound. Making and taking out directories leaves its files alone; the
other operations change them at the places that they name.
-/

namespace FileDrive

/-- The bytes of what is at a place, when it is a file. -/
def Entry.data? : Option Entry → Option ByteArray
  | some (file data) => some data
  | _ => none

namespace Tree

variable {tree after : Tree} {place above source target : Place} {data : ByteArray}

/-- The bytes of the file at a place. -/
def fileAt (tree : Tree) (place : Place) : Option ByteArray := Entry.data? (tree.entry? place)

/-- What is anywhere is in a directory. -/
def Sound (tree : Tree) : Prop :=
  ∀ place, place ≠ [] → tree.entry? place ≠ none → tree.entry? place.dropLast = some .directory

@[simp] theorem entry?_root : tree.entry? [] = some .directory := rfl

theorem entry?_of_ne (h : place ≠ []) : tree.entry? place = tree.entries.lookup place := by
  unfold entry?
  rw [if_neg h]

theorem fileAt_eq_some : tree.fileAt place = some data ↔ tree.entry? place = some (.file data) := by
  unfold fileAt
  rcases tree.entry? place with _ | _ | _ <;> simp [Entry.data?]

theorem mem_entries {entry : Entry} (h : place ≠ []) (hthere : tree.entry? place = some entry) :
    (place, entry) ∈ tree.entries := by
  rw [entry?_of_ne h] at hthere
  obtain ⟨front, back, hsplit, -⟩ := List.lookup_eq_some_iff.1 hthere
  rw [hsplit]
  simp

theorem ne_root_of_file (h : tree.entry? place = some (.file data)) : place ≠ [] := by
  rintro rfl
  cases h

theorem entry?_erase (tree : Tree) (h : place ≠ []) :
    Tree.entry? (tree.erase place) = Function.update tree.entry? place none := by
  funext q
  by_cases hq : q = []
  · rw [hq, Function.update_of_ne (Ne.symm h), entry?_root, entry?_root]
  · rw [entry?_of_ne hq, erase, lookup_filter_key]
    by_cases hp : q = place
    · rw [if_pos hp, hp, Function.update_self]
    · rw [if_neg hp, Function.update_of_ne hp, entry?_of_ne hq]

theorem entry?_insert (tree : Tree) (h : place ≠ []) (entry : Entry) :
    Tree.entry? (tree.insert place entry) = Function.update tree.entry? place (some entry) := by
  funext q
  by_cases hq : q = []
  · rw [hq, Function.update_of_ne (Ne.symm h), entry?_root, entry?_root]
  · have herase :
        (tree.erase place).entries.lookup q = if q = place then none else tree.entry? q := by
      rw [erase, lookup_filter_key, entry?_of_ne hq]
    rw [entry?_of_ne hq, insert, List.lookup_append, herase, List.lookup_cons,
      List.lookup_nil]
    by_cases hp : q = place
    · simp [hp]
    · simp [hp, beq_eq_false_iff_ne.2 hp]

theorem fileAt_of_update {found : Option Entry}
    (h : after.entry? = Function.update tree.entry? place found) :
    after.fileAt = Function.update tree.fileAt place (Entry.data? found) := by
  funext q
  unfold fileAt
  rw [h]
  by_cases hq : q = place
  · rw [hq, Function.update_self, Function.update_self]
  · rw [Function.update_of_ne hq, Function.update_of_ne hq]

@[simp] theorem fileAt_empty : empty.fileAt place = none := by
  cases place <;> rfl

/-! ## Sound trees -/

theorem sound_empty : empty.Sound := fun _ hroot hthere => absurd (entry?_of_ne hroot) hthere

theorem Sound.directory_above (h : tree.Sound) (hplace : tree.entry? place ≠ none)
    (hpre : above <+: place) (hne : above ≠ place) : tree.entry? above = some .directory := by
  -- From the last name up, because a sound tree tells of the place one name shorter.
  induction place using List.reverseRecOn with
  | nil => exact absurd (List.prefix_nil.1 hpre) hne
  | append_singleton front name ih =>
    have hfront := h (front ++ [name]) (by simp) hplace
    rw [List.dropLast_concat] at hfront
    rcases List.prefix_concat_iff.1 hpre with he | hfar
    · exact absurd he hne
    · by_cases he : above = front
      · rwa [he]
      · exact ih (by rw [hfront]; exact Option.some_ne_none _) hfar he

/-- Below a file there is nothing. -/
theorem Sound.below_file (h : tree.Sound) (hfile : tree.entry? above = some (.file data))
    (hpre : above <+: place) (hne : above ≠ place) : tree.entry? place = none := by
  by_contra hplace
  rw [h.directory_above hplace hpre hne] at hfile
  cases hfile

theorem dropLast_ne (h : place ≠ []) : place.dropLast ≠ place := by
  intro e
  have hlen := congrArg List.length e
  rw [List.length_dropLast] at hlen
  have hpos := List.length_pos_iff.2 h
  omega

/-- A tree stays sound when a place is changed in a directory, and nothing is left below it unless
it becomes a directory. -/
theorem Sound.update {found : Option Entry} (h : tree.Sound) (hroot : place ≠ [])
    (he : after.entry? = Function.update tree.entry? place found)
    (hparent : found ≠ none → tree.entry? place.dropLast = some .directory)
    (hbelow : found = some .directory ∨
      ∀ other, other ≠ [] → other.dropLast = place → tree.entry? other = none) : after.Sound := by
  intro q hq hthere
  rw [he] at hthere ⊢
  by_cases hp : q = place
  · subst hp
    rw [Function.update_self] at hthere
    rw [Function.update_of_ne (dropLast_ne hroot)]
    exact hparent hthere
  · rw [Function.update_of_ne hp] at hthere
    by_cases hd : q.dropLast = place
    · rcases hbelow with hdir | hnone
      · rw [hd, Function.update_self, hdir]
      · exact absurd (hnone q hq hd) hthere
    · rw [Function.update_of_ne hd]
      exact h q hq hthere

theorem ne_nil_of_below (hpre : above <+: place) (hne : place ≠ above) : place ≠ [] := by
  rintro rfl
  exact hne (List.prefix_nil.1 hpre).symm

theorem prefix_of_dropLast {other : Place} (h : other.dropLast = place) : place <+: other :=
  h ▸ List.dropLast_prefix other

theorem below_of_hasBelow (h : tree.hasBelow place = false) {other : Place} (hpre : place <+: other)
    (hne : other ≠ place) (hroot : other ≠ []) : tree.entry? other = none := by
  by_contra hthere
  obtain ⟨entry, hentry⟩ := Option.ne_none_iff_exists'.1 hthere
  rw [hasBelow, List.any_eq_false] at h
  have hnot := h (other, entry) (mem_entries hroot hentry)
  simp only [Bool.and_eq_true, List.isPrefixOf_iff_prefix, ne_eq, decide_eq_true_eq] at hnot
  exact hnot ⟨hpre, hne⟩

/-! ## Looking -/

theorem findBelow_eq_ok {found : Option Entry} (h : tree.findBelow above place = .ok found) :
    found = tree.entry? (above ++ place) := by
  induction place generalizing above with
  | nil =>
    rw [findBelow] at h
    rw [List.append_nil, ← Except.ok.inj h]
  | cons name rest ih =>
    unfold findBelow at h
    split at h
    · cases h
    · split at h
      case isTrue hlast =>
        rw [hlast, ← Except.ok.inj h]
      case isFalse =>
        split at h
        · cases h
        · cases h
        · rw [ih h, List.append_assoc, List.singleton_append]

theorem find_eq_ok {found : Option Entry} (h : tree.find place = .ok found) :
    found = tree.entry? place := by
  unfold find at h
  split at h
  · cases h
  · exact findBelow_eq_ok h

/-! ## Directories -/

/-- A tree has become another sound one with the same files. -/
structure Keeps (tree after : Tree) : Prop where
  sound : after.Sound
  files : after.fileAt = tree.fileAt

theorem Sound.keeps (h : tree.Sound) : Keeps tree tree := ⟨h, rfl⟩

theorem Keeps.trans {mid : Tree} (h : Keeps tree mid) (k : Keeps mid after) : Keeps tree after :=
  ⟨k.sound, k.files.trans h.files⟩

/-- Where no file is, none appears when a directory does, or disappears. -/
theorem fileAt_of_directory {found : Option Entry}
    (h : after.entry? = Function.update tree.entry? place found) (hnew : Entry.data? found = none)
    (hold : tree.fileAt place = none) : after.fileAt = tree.fileAt := by
  rw [fileAt_of_update h, hnew, ← hold, Function.update_eq_self]

theorem makeDirectoriesBelow_keeps (hs : tree.Sound)
    (habove : tree.entry? above = some .directory) :
    Keeps tree (tree.makeDirectoriesBelow above place).2 ∧
      ((tree.makeDirectoriesBelow above place).1 = .ok () →
        Tree.entry? (tree.makeDirectoriesBelow above place).2 (above ++ place) =
          some .directory) := by
  induction place generalizing tree above with
  | nil =>
    refine ⟨hs.keeps, fun _ => ?_⟩
    rwa [List.append_nil]
  | cons name rest ih =>
    have hroot : above ++ [name] ≠ [] := by simp
    have hsplit : above ++ name :: rest = (above ++ [name]) ++ rest := by simp
    unfold makeDirectoriesBelow
    split
    · exact ⟨hs.keeps, fun h => (nomatch h)⟩
    · dsimp only
      rcases hhere : tree.entry? (above ++ [name]) with _ | _ | _
      -- A directory that is missing is made, and the rest is made in it.
      · have hmade := entry?_insert tree hroot .directory
        have hsound : (tree.insert (above ++ [name]) .directory).Sound :=
          hs.update hroot hmade (fun _ => by rwa [List.dropLast_concat]) (Or.inl rfl)
        have hfiles := fileAt_of_directory hmade rfl (by rw [fileAt, hhere]; rfl)
        obtain ⟨hkeeps, hthere⟩ := ih hsound (by rw [hmade, Function.update_self])
        refine ⟨Keeps.trans ⟨hsound, hfiles⟩ hkeeps, fun h => ?_⟩
        rw [hsplit]
        exact hthere h
      · exact ⟨hs.keeps, fun h => (nomatch h)⟩
      · rw [hsplit]
        exact ih hs hhere

theorem makeDirectories_keeps (hs : tree.Sound) (place : Place) :
    Keeps tree (tree.makeDirectories place).2 ∧
      ((tree.makeDirectories place).1 = .ok () →
        Tree.entry? (tree.makeDirectories place).2 place = some .directory) := by
  unfold makeDirectories
  split
  · exact ⟨hs.keeps, fun h => (nomatch h)⟩
  · exact makeDirectoriesBelow_keeps hs entry?_root

theorem removeDirectory_eq_ok (h : tree.removeDirectory place = .ok after) :
    tree.entry? place = some .directory ∧ tree.hasBelow place = false ∧
      after = tree.erase place := by
  obtain ⟨found, hfound, h⟩ := bind_eq_ok.1 h
  obtain rfl := find_eq_ok hfound
  split at h
  · cases h
  · cases h
  · next hhere =>
    split at h
    · cases h
    · next hempty => exact ⟨hhere, by simpa using hempty, (Except.ok.inj h).symm⟩

theorem removeDirectory_keeps (hs : tree.Sound) (hroot : place ≠ [])
    (h : tree.removeDirectory place = .ok after) : Keeps tree after := by
  obtain ⟨hhere, hempty, rfl⟩ := removeDirectory_eq_ok h
  have herased := entry?_erase tree hroot
  refine ⟨hs.update hroot herased (fun hne => absurd rfl hne) (Or.inr ?_), ?_⟩
  · intro other hother hd
    refine below_of_hasBelow hempty (prefix_of_dropLast hd) (fun e => ?_) hother
    exact dropLast_ne hother (hd.trans e.symm)
  · exact fileAt_of_directory herased rfl (by rw [fileAt, hhere]; rfl)

theorem cleanUpwards_keeps (hs : tree.Sound) (reversed : List String) :
    Keeps tree (tree.cleanUpwards reversed) := by
  induction reversed generalizing tree with
  | nil => exact hs.keeps
  | cons name above ih =>
    unfold cleanUpwards
    split
    · next after hremoved =>
      have hkeeps := removeDirectory_keeps hs (by simp) hremoved
      exact hkeeps.trans (ih hkeeps.sound)
    · exact ih hs
    · exact hs.keeps

theorem cleanUp_keeps (hs : tree.Sound) (place : Place) : Keeps tree (tree.cleanUp place) :=
  cleanUpwards_keeps hs place.reverse

/-! ## Files -/

theorem writeFile_eq_ok (h : tree.writeFile place data = .ok after) :
    tree.entry? place ≠ some .directory ∧ after = tree.insert place (.file data) := by
  obtain ⟨found, hfound, h⟩ := bind_eq_ok.1 h
  obtain rfl := find_eq_ok hfound
  split at h
  · cases h
  · next hnot => exact ⟨hnot, (Except.ok.inj h).symm⟩

theorem removeFile_eq_ok (h : tree.removeFile place = .ok after) :
    ∃ data, tree.entry? place = some (.file data) ∧ after = tree.erase place := by
  obtain ⟨found, hfound, h⟩ := bind_eq_ok.1 h
  obtain rfl := find_eq_ok hfound
  split at h
  · cases h
  · cases h
  · next data hhere => exact ⟨data, hhere, (Except.ok.inj h).symm⟩

/-- A tree stays sound when a file is put into a directory, in the place of nothing or a file. -/
theorem Sound.insert_file (hs : tree.Sound) (hroot : place ≠ [])
    (hparent : tree.entry? place.dropLast = some .directory)
    (hnot : tree.entry? place ≠ some .directory) : (tree.insert place (.file data)).Sound := by
  refine hs.update hroot (entry?_insert tree hroot _) (fun _ => hparent) (Or.inr ?_)
  intro other hother hd
  by_contra hthere
  have hdir := hs other hother hthere
  rw [hd] at hdir
  exact hnot hdir

theorem Sound.erase_file (hs : tree.Sound) (hfile : tree.entry? place = some (.file data)) :
    (tree.erase place).Sound := by
  have hroot := ne_root_of_file hfile
  refine hs.update hroot (entry?_erase tree hroot) (fun hne => absurd rfl hne) (Or.inr ?_)
  intro other hother hd
  exact hs.below_file hfile (prefix_of_dropLast hd) fun e => dropLast_ne hother (hd.trans e)

/-! ## Other places -/

theorem rerooted_append (source target rest : Place) :
    rerooted source target (source ++ rest) = target ++ rest := by
  rw [rerooted, if_pos (List.isPrefixOf_iff_prefix.2 (List.prefix_append _ _)), List.drop_left]

/-- Where nothing lies at the target or below, what is looked up there is found at the source. -/
theorem lookup_map_rerooted {l : List (Place × Entry)} (hfree : ∀ x ∈ l, ¬ target <+: x.1)
    (q : Place) :
    (l.map fun (place, entry) => (rerooted source target place, entry)).lookup q =
      if target <+: q then l.lookup (rerooted target source q)
      else if source <+: q then none else l.lookup q := by
  induction l with
  | nil => simp
  | cons x l ih =>
    rw [List.forall_mem_cons] at hfree
    rw [List.map_cons, List.lookup_cons, ih hfree.2]
    by_cases hq : target <+: q
    · obtain ⟨rest, rfl⟩ := hq
      rw [if_pos (List.prefix_append _ _), if_pos (List.prefix_append _ _), rerooted_append,
        List.lookup_cons]
      have hmoved : (target ++ rest == rerooted source target x.1) = (source ++ rest == x.1) := by
        rw [Bool.eq_iff_iff, beq_iff_eq, beq_iff_eq]
        by_cases hx : source <+: x.1
        · obtain ⟨other, hother⟩ := hx
          rw [← hother, rerooted_append, List.append_cancel_left_eq, List.append_cancel_left_eq]
        · rw [rerooted, if_neg (by rwa [List.isPrefixOf_iff_prefix])]
          constructor
          · intro e
            exact absurd (e ▸ List.prefix_append _ _) hfree.1
          · intro e
            exact absurd (e ▸ List.prefix_append _ _) hx
      rw [hmoved]
    · rw [if_neg hq, if_neg hq, List.lookup_cons]
      by_cases hx : source <+: x.1
      · obtain ⟨other, hother⟩ := hx
        have hne : (q == rerooted source target x.1) = false := beq_eq_false_iff_ne.2 fun e => by
          rw [← hother, rerooted_append] at e
          exact hq (e ▸ List.prefix_append _ _)
        rw [hne]
        by_cases hs : source <+: q
        · rw [if_pos hs, if_pos hs]
        · have hnot : (q == x.1) = false := beq_eq_false_iff_ne.2 fun e =>
            hs (e ▸ hother ▸ List.prefix_append _ _)
          rw [hnot]
      · rw [rerooted, if_neg (by rwa [List.isPrefixOf_iff_prefix])]
        by_cases hs : source <+: q
        · have hnot : (q == x.1) = false := beq_eq_false_iff_ne.2 fun e => hx (e ▸ hs)
          rw [if_pos hs, if_pos hs, hnot]
        · rw [if_neg hs, if_neg hs]

/-- What is at a place and below has been given another place, where nothing was below. -/
structure Renamed (source target : Place) (tree after : Tree) : Prop where
  notInto : ¬ source <+: target
  notOnto : ¬ target <+: source
  free : tree.hasBelow target = false
  entries : ∀ q, after.entry? q =
    if target <+: q then tree.entry? (rerooted target source q)
    else if source <+: q then none else tree.entry? q

theorem renamed_map (hinto : ¬ source <+: target) (honto : ¬ target <+: source)
    (hfree : tree.hasBelow target = false) :
    Renamed source target tree ⟨(tree.erase target).entries.map fun (place, entry) =>
      (rerooted source target place, entry)⟩ := by
  refine ⟨hinto, honto, hfree, fun q => ?_⟩
  have hsource : source ≠ [] := by
    rintro rfl
    exact hinto List.nil_prefix
  have htarget : target ≠ [] := by
    rintro rfl
    exact honto List.nil_prefix
  by_cases hq : q = []
  · rw [hq, entry?_root, if_neg (fun h => htarget (List.prefix_nil.1 h)),
      if_neg (fun h => hsource (List.prefix_nil.1 h)), entry?_root]
  have hapart : ∀ x ∈ (tree.erase target).entries, ¬ target <+: x.1 := by
    intro x hx hpre
    obtain ⟨hmem, hne⟩ := List.mem_filter.1 hx
    have hnone := List.any_eq_false.1 hfree x hmem
    rw [Bool.and_eq_true, List.isPrefixOf_iff_prefix] at hnone
    exact hnone ⟨hpre, hne⟩
  rw [entry?_of_ne hq, lookup_map_rerooted hapart, erase, lookup_filter_key, lookup_filter_key]
  by_cases ht : target <+: q
  · obtain ⟨rest, rfl⟩ := ht
    have hother : source ++ rest ≠ target := fun e => hinto (e ▸ List.prefix_append _ _)
    rw [if_pos (List.prefix_append _ _), if_pos (List.prefix_append _ _), rerooted_append,
      if_neg hother, entry?_of_ne (by simp [hsource])]
  · have hother : q ≠ target := fun e => ht (e ▸ List.prefix_refl _)
    rw [if_neg ht, if_neg ht, if_neg hother, entry?_of_ne hq]

theorem rename_eq_ok (h : tree.rename source target = .ok after) :
    (source = target ∧ after = tree) ∨ Renamed source target tree after := by
  obtain ⟨found, -, h⟩ := bind_eq_ok.1 h
  split at h
  · cases h
  obtain ⟨replaced, -, h⟩ := bind_eq_ok.1 h
  split at h
  case isTrue hsame => exact Or.inl ⟨hsame, (Except.ok.inj h).symm⟩
  dsimp only at h
  split at h
  · exact absurd h throw_bind_ne_ok
  · next hinto =>
    split at h
    · exact absurd h throw_bind_ne_ok
    · next honto =>
      rw [List.isPrefixOf_iff_prefix] at hinto honto
      split at h
      · cases h
      · cases h
      · split at h
        · exact absurd h throw_bind_ne_ok
        · next hfree =>
          obtain rfl := Except.ok.inj h
          exact Or.inr (renamed_map hinto honto (by simpa using hfree))

/-- A file does not take the place of a directory. -/
theorem not_directory_of_rename (hfile : tree.entry? source = some (.file data))
    (h : tree.rename source target = .ok after) : tree.entry? target ≠ some .directory := by
  intro hdir
  obtain ⟨found, hfound, h⟩ := bind_eq_ok.1 h
  obtain rfl := (find_eq_ok hfound).trans hfile
  obtain ⟨replaced, hreplaced, h⟩ := bind_eq_ok.1 h
  obtain rfl := (find_eq_ok hreplaced).trans hdir
  split at h
  · next hsame =>
    rw [← hsame, hfile] at hdir
    cases hdir
  · dsimp only at h
    split at h
    · exact absurd h throw_bind_ne_ok
    · split at h
      · exact absurd h throw_bind_ne_ok
      · cases h

/-- What goes to another place, into a directory, leaves the tree sound. -/
theorem Renamed.sound (h : Renamed source target tree after) (hs : tree.Sound)
    (hparent : tree.entry? target.dropLast = some .directory) : after.Sound := by
  intro q hq hthere
  rw [h.entries] at hthere ⊢
  by_cases ht : target <+: q
  · obtain ⟨rest, rfl⟩ := ht
    rw [if_pos (List.prefix_append _ _), rerooted_append] at hthere
    rcases List.eq_nil_or_concat' rest with rfl | ⟨front, name, rfl⟩
    · have hroot : target ≠ [] := by simpa using hq
      have htarget : ¬ target <+: target.dropLast := fun hpre =>
        dropLast_ne hroot (hpre.eq_of_length_le (List.dropLast_prefix target).length_le).symm
      rw [List.append_nil, if_neg htarget,
        if_neg (fun hpre => h.notInto (hpre.trans (List.dropLast_prefix target)))]
      exact hparent
    · rw [← List.append_assoc, List.dropLast_concat, if_pos (List.prefix_append _ _),
        rerooted_append]
      have hup := hs _ (by simp) hthere
      rwa [← List.append_assoc, List.dropLast_concat] at hup
  · rw [if_neg ht] at hthere
    by_cases hsource : source <+: q
    · rw [if_pos hsource] at hthere
      exact absurd rfl hthere
    · rw [if_neg hsource] at hthere
      rw [if_neg (fun hpre => ht (hpre.trans (List.dropLast_prefix q))),
        if_neg (fun hpre => hsource (hpre.trans (List.dropLast_prefix q)))]
      exact hs q hq hthere

/-- Of a file, it changes the source and the target only. -/
theorem Renamed.entry? (h : Renamed source target tree after) (hs : tree.Sound)
    (hfile : tree.entry? source = some (.file data)) :
    after.entry? =
      Function.update (Function.update tree.entry? source none) target (some (.file data)) := by
  funext q
  rw [h.entries]
  by_cases ht : target <+: q
  · rw [if_pos ht]
    obtain ⟨rest, rfl⟩ := ht
    rw [rerooted_append]
    by_cases hrest : rest = []
    · rw [hrest, List.append_nil, List.append_nil, Function.update_self, hfile]
    -- Neither below the file nor below its new place is there anything.
    · have hbelow : target ++ rest ≠ target := by simpa using hrest
      have hsource : source ++ rest ≠ source := by simpa using hrest
      have hother : target ++ rest ≠ source := fun e => h.notOnto (e ▸ List.prefix_append _ _)
      rw [Function.update_of_ne hbelow, Function.update_of_ne hother,
        hs.below_file hfile (List.prefix_append _ _) (Ne.symm hsource),
        below_of_hasBelow h.free (List.prefix_append _ _) hbelow (by simp [hrest])]
  · have hne : q ≠ target := fun e => ht (e ▸ List.prefix_refl _)
    rw [if_neg ht, Function.update_of_ne hne]
    by_cases hsource : source <+: q
    · rw [if_pos hsource]
      by_cases hq : q = source
      · rw [hq, Function.update_self]
      · rw [Function.update_of_ne hq, hs.below_file hfile hsource (Ne.symm hq)]
    · have hq : q ≠ source := fun e => hsource (e ▸ List.prefix_refl _)
      rw [if_neg hsource, Function.update_of_ne hq]

theorem Renamed.fileAt (h : Renamed source target tree after) (hs : tree.Sound)
    (hfile : tree.entry? source = some (.file data)) :
    after.fileAt =
      Function.update (Function.update tree.fileAt source none) target (some data) := by
  have herased := fileAt_of_update (entry?_erase tree (ne_root_of_file hfile))
  have hentries := h.entry? hs hfile
  rw [← entry?_erase tree (ne_root_of_file hfile)] at hentries
  rw [fileAt_of_update hentries, herased]
  rfl

/-- A file goes to another place, into a directory. -/
theorem rename_file_eq_ok (hs : tree.Sound) (hfile : tree.entry? source = some (.file data))
    (hparent : tree.entry? target.dropLast = some .directory)
    (h : tree.rename source target = .ok after) :
    after.Sound ∧
      after.fileAt =
        Function.update (Function.update tree.fileAt source none) target (some data) := by
  rcases rename_eq_ok h with ⟨rfl, rfl⟩ | hrenamed
  · refine ⟨hs, ?_⟩
    rw [Function.update_idem, ← fileAt_eq_some.2 hfile, Function.update_eq_self]
  · exact ⟨hrenamed.sound hs hparent, hrenamed.fileAt hs hfile⟩

end Tree

end FileDrive
