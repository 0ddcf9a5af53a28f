import FileDrive.Proofs.DirectoryObjects
import FileDrive.Proofs.PathNormalization
import FileDrive.Storage.Opening

/-!
# Where objects lie

A store that keeps its objects in a directory is given paths that nobody has looked at. It refuses a
path that leads upwards anywhere or names nothing, and otherwise the place of the object is where the
path leads to (`place_eq`). Its names are those of an ordinary path, so that the file of the object
lies below the directory, wherever that is (`placeOf_filePath`). For canonical paths nothing is lost
on the way: their places are their segments, and places lie within each other as the paths do
(`isBelow_iff_place_prefix`).
-/

namespace FileDrive

namespace Path

open FileDrive.Text

variable {segs texts : List (List Char)}

/-- Where no text leads up, those that name something are left on the stack. -/
theorem foldl_push_of_notMem_up (h : ['.', '.'] ∉ texts) (stack : List (List Char)) :
    texts.foldl push stack =
      (texts.filter fun text => text ≠ [] && text ≠ ['.']).reverse ++ stack := by
  induction texts generalizing stack with
  | nil => rfl
  | cons text texts ih =>
    obtain ⟨htext, htexts⟩ := not_or.1 (mt List.mem_cons.2 h)
    rw [List.foldl_cons, ih htexts]
    by_cases hblank : text = [] ∨ text = ['.']
    · rw [push, if_pos hblank, List.filter_cons_of_neg (by simpa [or_iff_not_imp_left] using hblank)]
    · rw [push, if_neg hblank, if_neg (Ne.symm htext),
        List.filter_cons_of_pos (by simpa using hblank)]
      simp

theorem resolve_of_notMem_up {s : List Char} (h : ['.', '.'] ∉ pieces '/' s) :
    resolve s = (pieces '/' s).filter fun text => text ≠ [] && text ≠ ['.'] := by
  rw [resolve, foldl_push_of_notMem_up h, List.append_nil, List.reverse_reverse]

/-- Segments that are spelled behind a text are followed from where the text leads to. -/
theorem resolve_append_spell (h : AreSegments segs) (s : List Char) :
    resolve (s ++ spell segs) = resolve s ++ segs := by
  cases segs with
  | nil => rw [spell_nil, List.append_nil, List.append_nil]
  | cons first rest =>
    have htexts : pieces '/' (first ++ spell rest) = first :: rest := by
      have hspelled := pieces_spell h.noSlash
      rw [spell_cons, pieces, if_pos rfl] at hspelled
      exact (List.cons.inj hspelled).2
    rw [spell_cons, resolve_append_slash, htexts, foldl_push h]
    simp

end Path

namespace Directory

open FileDrive.Path FileDrive.Text

variable {path other dir : String} {P Q D : Place}

/-! ## Names -/

/-- Names as a place has them that lies below a directory: none is empty, a single dot or two dots,
or has a slash in it. -/
def AreNames (P : Place) : Prop := ∀ name ∈ P, IsSegment name.toList

theorem areNames_placeOf (path : String) : AreNames (Tree.placeOf path) := by
  intro name hname
  obtain ⟨s, hs, rfl⟩ := List.mem_map.1 hname
  rw [String.toList_ofList]
  exact areSegments_resolve _ s hs

/-- A path has a place unless a text between its slashes leads up or none names anything. Its place is
where it leads to. -/
theorem place_eq (path : String) : place path =
    if Tree.placeOf path = [] ∨ ['.', '.'] ∈ pieces '/' path.toList then
      .error (.invalidPath path)
    else .ok (Tree.placeOf path) := by
  unfold place Tree.placeOf
  dsimp only
  -- Only where no text leads up is what is left over the same as what the path leads to.
  by_cases hup : ['.', '.'] ∈ pieces '/' path.toList
  · rw [if_pos (Or.inr (List.mem_filter.2 ⟨hup, by decide⟩)), if_pos (Or.inr hup)]
  · rw [resolve_of_notMem_up hup]
    have hnone : ['.', '.'] ∉ (pieces '/' path.toList).filter
        fun name => name ≠ [] && name ≠ ['.'] := fun hmem => hup (List.mem_of_mem_filter hmem)
    simp only [hup, hnone, or_false, List.map_eq_nil_iff]

theorem place_eq_ok : place path = .ok P ↔
    P = Tree.placeOf path ∧ P ≠ [] ∧ ['.', '.'] ∉ pieces '/' path.toList := by
  rw [place_eq]
  split
  · next hrefused =>
    refine iff_of_false (fun h => nomatch h) ?_
    rintro ⟨rfl, hne, hup⟩
    exact not_or.2 ⟨hne, hup⟩ hrefused
  · next hplaced =>
    obtain ⟨hne, hup⟩ := not_or.1 hplaced
    constructor
    · intro h
      obtain rfl := Except.ok.inj h
      exact ⟨rfl, hne, hup⟩
    · rintro ⟨rfl, -, -⟩
      rfl

theorem areNames_of_place (h : place path = .ok P) : AreNames P := by
  rw [(place_eq_ok.1 h).1]
  exact areNames_placeOf path

/-! ## Files -/

/-- The path of the file at a place below the directory at `base`. -/
def filePath (base : String) (P : Place) : String :=
  base ++ String.ofList (spell (P.map (·.toList)))

/-- The path of a file leads to its place, below where the path of the directory leads to. -/
theorem placeOf_filePath (h : AreNames P) (base : String) :
    Tree.placeOf (filePath base P) = Tree.placeOf base ++ P := by
  have hsegs : AreSegments (P.map (·.toList)) := by
    intro s hs
    obtain ⟨name, hname, rfl⟩ := List.mem_map.1 hs
    exact h name hname
  have hback : (P.map (·.toList)).map String.ofList = P := by simp
  unfold Tree.placeOf filePath
  rw [String.toList_append, String.toList_ofList, resolve_append_spell hsegs, List.map_append,
    hback]

/-! ## Canonical paths -/

theorem place_of_canonical (h : Canonical path) (hroot : path ≠ root) :
    place path = .ok ((segments path).map String.ofList) := by
  obtain ⟨segs, hsegs, rfl⟩ := h
  rw [segments_ofSegments hsegs]
  exact place_ofSegments hsegs fun e => hroot ((ofSegments_eq_root hsegs).2 e)

/-- One canonical path lies below another one when its place is below the place of the other one. -/
theorem isBelow_iff_place_prefix (hpath : Canonical path) (hdir : Canonical dir)
    (h : place path = .ok P) (k : place dir = .ok D) :
    isBelow path dir = true ↔ D <+: P ∧ D ≠ P := by
  rw [place_of_canonical hpath (ne_root_of_place h)] at h
  rw [place_of_canonical hdir (ne_root_of_place k)] at k
  obtain rfl := Except.ok.inj h
  obtain rfl := Except.ok.inj k
  obtain ⟨segs, hsegs, rfl⟩ := hpath
  obtain ⟨pre, hpre, rfl⟩ := hdir
  have hinjective : Function.Injective String.ofList := fun a b e => String.ofList_injective e
  rw [isBelow_ofSegments hsegs hpre, segments_ofSegments hsegs, segments_ofSegments hpre,
    List.prefix_map_iff_of_injective hinjective, (List.map_injective_iff.2 hinjective).ne_iff]

/-- Files whose paths lead to one place, below whatever directory, are of one object. -/
theorem eq_of_placeOf_filePath (hpath : Canonical path) (hother : Canonical other)
    (h : place path = .ok P) (k : place other = .ok Q) {base : String}
    (hsame : Tree.placeOf (filePath base P) = Tree.placeOf (filePath base Q)) : path = other := by
  rw [placeOf_filePath (areNames_of_place h), placeOf_filePath (areNames_of_place k)] at hsame
  obtain rfl := List.append_cancel_left hsame
  exact place_injective hpath (ne_root_of_place h) hother (ne_root_of_place k) h k

/-- For every path there is a place or the failure that the path is invalid. A place has names, and
they are ordinary, so that the file there lies below the directory wherever that is; it is where the
path leads to, and there is one unless the path leads upwards somewhere or names nothing. Every
canonical path but the root has its segments as its place. So the files of different canonical paths
are different, and the places of two lie within each other exactly if the paths do. -/
theorem place_stays_below :
    (∀ path, place path = .error (.invalidPath path) ∨
      ∃ P, place path = .ok P ∧ P ≠ [] ∧ AreNames P ∧
        ∀ base, Tree.placeOf (filePath base P) = Tree.placeOf base ++ P) ∧
    (∀ path P, place path = .ok P ↔
      P = Tree.placeOf path ∧ P ≠ [] ∧ ['.', '.'] ∉ pieces '/' path.toList) ∧
    (∀ path, Canonical path → path ≠ root →
      place path = .ok ((segments path).map String.ofList)) ∧
    (∀ path other P Q, Canonical path → Canonical other → place path = .ok P →
      place other = .ok Q → path ≠ other →
        ∀ base, Tree.placeOf (filePath base P) ≠ Tree.placeOf (filePath base Q)) ∧
    ∀ path dir P D, Canonical path → Canonical dir → place path = .ok P → place dir = .ok D →
      (isBelow path dir = true ↔ D <+: P ∧ D ≠ P) := by
  refine ⟨fun path => ?_, fun path P => place_eq_ok, fun path => place_of_canonical, ?_, ?_⟩
  · rcases hplace : place path with e | P
    · left
      rw [place_eq] at hplace
      split at hplace
      · exact congrArg Except.error (Except.error.inj hplace).symm
      · cases hplace
    · exact Or.inr ⟨P, rfl, place_ne_nil hplace, areNames_of_place hplace,
        placeOf_filePath (areNames_of_place hplace)⟩
  · intro path other P Q hpath hother h k hne base hsame
    exact hne (eq_of_placeOf_filePath hpath hother h k hsame)
  · intro path dir P D hpath hdir h k
    exact isBelow_iff_place_prefix hpath hdir h k

/-- A path with blank texts and a dot has the place of what it names, one that leads up has none
even though it does not lead out, and of two canonical paths one has its place below the other. -/
theorem place_stays_below_of_nested :
    place "//a/./b/" = .ok ["a", "b"] ∧ place "/a/../b" = .error (.invalidPath "/a/../b") ∧
      (∀ base, Tree.placeOf (filePath base ["a", "b"]) = Tree.placeOf base ++ ["a", "b"]) ∧
      (∀ base, Tree.placeOf (filePath base ["a"]) ≠ Tree.placeOf (filePath base ["a", "b"])) ∧
      isBelow "/a/b" "/a" = true ∧ place "/a/b" = .ok ["a", "b"] ∧ place "/a" = .ok ["a"] := by
  obtain ⟨hcases, hplaced, hcanonical, hdiffer, hbelow⟩ := place_stays_below
  have hpath : Canonical "/a/b" := canonical_iff.2 (by decide)
  have hdir : Canonical "/a" := canonical_iff.2 (by decide)
  have hspelled : place "//a/./b/" = .ok ["a", "b"] := (hplaced _ _).2 (by decide)
  have hlong : place "/a/b" = .ok ["a", "b"] := hcanonical _ hpath (by decide)
  have hshort : place "/a" = .ok ["a"] := hcanonical _ hdir (by decide)
  refine ⟨hspelled, ?_, ?_, hdiffer _ _ _ _ hdir hpath hshort hlong (by decide),
    (hbelow _ _ _ _ hpath hdir hlong hshort).2 (by decide), hlong, hshort⟩
  · refine (hcases "/a/../b").resolve_right ?_
    rintro ⟨P, hP, -⟩
    exact ((hplaced _ _).1 hP).2.2 (by decide)
  · obtain hnone | ⟨P, hP, -, -, hfile⟩ := hcases "//a/./b/"
    · rw [hspelled] at hnone
      cases hnone
    · rw [hspelled] at hP
      obtain rfl := Except.ok.inj hP
      exact hfile

end Directory

end FileDrive
