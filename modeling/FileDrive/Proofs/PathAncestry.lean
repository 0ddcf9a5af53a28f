import Mathlib.Data.List.Chain
import FileDrive.Proofs.DirectoryRequests

/-!
# Above and below

That one canonical path lies below another is told in four ways: by the text that the path starts
with, by the chain of its ancestors, by the entry of the directory that it is in, and by what the
metadata find below the directory. They are all the same (`below_in_every_way`), because each is a
question about the segments of both. The chain leads from the root to the path, one segment more at
a time (`descends_ancestors`).
-/

namespace FileDrive

namespace Path

variable {path dir : String} {segs : List (List Char)} {s : List Char}

/-! ## Parents -/

theorem toList_ofSegments_concat (segs : List (List Char)) (s : List Char) :
    (ofSegments (segs ++ [s])).toList = spell segs ++ '/' :: s := by
  rw [toList_ofSegments (by simp), spell_append]
  simp

theorem ne_slash_of_mem_reverse (h : '/' ∉ s) : ∀ c ∈ s.reverse, decide (c ≠ '/') = true := by
  intro c hc
  have hne : c ≠ '/' := fun e => h (e ▸ List.mem_reverse.1 hc)
  exact decide_eq_true hne

/-- The directory that holds a path has all its segments but the last one. -/
theorem parent_ofSegments (h : '/' ∉ s) : parent (ofSegments (segs ++ [s])) = ofSegments segs := by
  have hcut : ((ofSegments (segs ++ [s])).toList.reverse.dropWhile (· ≠ '/')).reverse.dropLast =
      spell segs := by
    rw [toList_ofSegments_concat, List.reverse_append, List.reverse_cons, List.append_assoc,
      List.dropWhile_append_of_pos (ne_slash_of_mem_reverse h), List.singleton_append,
      List.dropWhile_cons_of_neg (by simp)]
    simp
  rw [parent, hcut]
  cases segs with
  | nil => rfl
  | cons first segs => rfl

/-- What stands behind the last slash is the last segment. -/
theorem fileName_ofSegments (h : '/' ∉ s) :
    fileName (ofSegments (segs ++ [s])) = String.ofList s := by
  rw [fileName, toList_ofSegments_concat, List.reverse_append, List.reverse_cons, List.append_assoc,
    List.takeWhile_append_of_pos (ne_slash_of_mem_reverse h), List.singleton_append,
    List.takeWhile_cons_of_neg (by simp)]
  simp

/-- A path is its name in the directory that holds it. -/
theorem join_parent (hpath : Canonical path) (hroot : path ≠ root) :
    join (parent path) (fileName path) = path := by
  obtain ⟨segs, hsegs, rfl⟩ := hpath
  rcases List.eq_nil_or_concat' segs with rfl | ⟨front, s, rfl⟩
  · exact absurd rfl hroot
  · have hfront : AreSegments front := AreSegments.of_prefix hsegs (List.prefix_append _ _)
    have hlast : AreSegments [s] := AreSegments.of_append_right hsegs
    have hslash : '/' ∉ s := hlast.noSlash s (by simp)
    rw [parent_ofSegments hslash, fileName_ofSegments hslash]
    exact join_tail hfront hlast (by simp)

/-! ## The chain of ancestors -/

/-- Paths that lead from the root to a path, each one longer than those before and held by the one
right before. -/
structure Descends (chain : List String) (path : String) : Prop where
  first : chain.head? = some root
  last : chain.getLast? = some path
  grows : chain.Pairwise fun a b => a ≠ b ∧ a.toList <+: b.toList
  parents : chain.IsChain fun a b => parent b = a

/-- The chain of a path is the chain of the directory that holds it, and then the path. -/
theorem ancestors_concat (h : AreSegments (segs ++ [s])) :
    ancestors (ofSegments (segs ++ [s])) =
      ancestors (ofSegments segs) ++ [ofSegments (segs ++ [s])] := by
  have hspelled : ofSegments (segs ++ [s]) = String.ofList (spell segs ++ '/' :: s) := by
    rw [← toList_ofSegments_concat, String.ofList_toList]
  rw [ancestors, ancestors, segments_ofSegments h,
    segments_ofSegments (h.of_prefix (List.prefix_append _ _)), chain_append, hspelled]
  rfl

theorem descends_ancestors (hpath : Canonical path) : Descends (ancestors path) path := by
  obtain ⟨segs, hsegs, rfl⟩ := hpath
  -- From the last segment up, because the chain of a path ends with the path.
  induction segs using List.reverseRecOn with
  | nil => exact ⟨rfl, rfl, List.pairwise_singleton _ _, .singleton _⟩
  | append_singleton segs s ih =>
    have hdir : AreSegments segs := AreSegments.of_prefix hsegs (List.prefix_append _ _)
    have hslash : '/' ∉ s := AreSegments.noSlash hsegs s (by simp)
    obtain ⟨hfirst, hlast, hgrows, hparents⟩ := ih hdir
    rw [ancestors_concat hsegs]
    refine ⟨?_, List.getLast?_concat, ?_, ?_⟩
    · rw [List.head?_append, hfirst]
      rfl
    · refine List.pairwise_append.2 ⟨hgrows, List.pairwise_singleton _ _, fun a ha b hb => ?_⟩
      rw [List.mem_singleton.1 hb]
      obtain ⟨pre, hpre, rfl⟩ := (mem_ancestors_ofSegments hdir).1 ha
      have hlong : pre ≠ segs ++ [s] := by
        rintro rfl
        have hlen := hpre.length_le
        rw [List.length_append, List.length_singleton] at hlen
        omega
      have hbelow := (isBelow_ofSegments hsegs (hdir.of_prefix hpre)).2
        ⟨hpre.trans (List.prefix_append _ _), hlong⟩
      exact ⟨fun e => hlong (ofSegments_injective (hdir.of_prefix hpre) hsegs e),
        toList_prefix_of_isBelow hbelow⟩
    · refine hparents.append (.singleton _) fun a ha b hb => ?_
      rw [hlast, Option.mem_some_iff] at ha
      rw [List.head?_cons, Option.mem_some_iff] at hb
      rw [← ha, ← hb, parent_ofSegments hslash]

/-! ## Below -/

/-- The ancestors of a path that it lies below are those that it is not itself. -/
theorem isBelow_iff_mem_ancestors (hpath : Canonical path) (hdir : Canonical dir) :
    isBelow path dir = true ↔ dir ∈ ancestors path ∧ dir ≠ path := by
  obtain ⟨segs, hsegs, rfl⟩ := hpath
  obtain ⟨pre, hpre, rfl⟩ := hdir
  rw [isBelow_ofSegments hsegs hpre, mem_ancestors_ofSegments hsegs]
  constructor
  · rintro ⟨hstart, hne⟩
    exact ⟨⟨pre, hstart, rfl⟩, fun e => hne (ofSegments_injective hpre hsegs e)⟩
  · rintro ⟨⟨pre', hstart, he⟩, hne⟩
    rw [ofSegments_injective hpre (AreSegments.of_prefix hsegs hstart) he] at hne ⊢
    exact ⟨hstart, fun e => hne (by rw [e])⟩

/-- What lies below a directory is an entry of it, or lies below an entry. -/
theorem exists_entryBelow (hpath : Canonical path) (hdir : Canonical dir)
    (h : isBelow path dir = true) :
    ∃ name, entryBelow path dir = some name ∧ IsSegment name.toList ∧
      (join dir name = path ∨ isBelow path (join dir name) = true) := by
  obtain ⟨segs, hsegs, rfl⟩ := hpath
  obtain ⟨pre, hpre, rfl⟩ := hdir
  obtain ⟨⟨rest, rfl⟩, hlong⟩ := (isBelow_ofSegments hsegs hpre).1 h
  obtain ⟨first, rest, rfl⟩ := List.exists_cons_of_ne_nil
    (l := rest) fun e => hlong (by rw [e, List.append_nil])
  have hfirst : IsSegment first := hsegs first (by simp)
  have hentry : AreSegments [first] := fun s hs => List.mem_singleton.1 hs ▸ hfirst
  refine ⟨String.ofList first, entryBelow_ofSegments hsegs, by rwa [String.toList_ofList], ?_⟩
  rw [join_tail hpre hentry (by simp)]
  have hsplit : pre ++ first :: rest = (pre ++ [first]) ++ rest := by simp
  by_cases hrest : rest = []
  · exact Or.inl (by rw [hrest])
  · rw [hsplit] at hsegs ⊢
    exact Or.inr (isBelow_append hsegs hrest)

theorem isBelow_of_entryBelow {name : String} (h : entryBelow path dir = some name) :
    isBelow path dir = true := by
  by_contra hnot
  rw [entryBelow, if_neg hnot] at h
  cases h

end Path

namespace Database

open FileDrive.Path

variable {db : Database} {path dir : String} {row : FileRow}

/-- Of a directory without a file, what is stored below it is found, and nothing else. -/
theorem Readable.mem_filesAt_iff (h : db.Readable) (hfree : db.rowAt dir = none)
    (hrow : db.rowAt path = some row) (hnul : '\x00' ∉ path.toList) :
    ∃ files users, db.filesAt dir = .ok files ∧ db.userRows = .ok users ∧
      (row.file users ∈ files ↔ isBelow path dir = true) := by
  obtain ⟨rows, hrows⟩ := h.fileRows hrow
  obtain ⟨hopen, hfiles⟩ := fileRows_eq_ok.1 hrows
  obtain ⟨users, husers⟩ := Option.isSome_iff_exists.1 h.2
  refine ⟨_, users, filesAt_eq_byPath hopen hfiles husers hfree, rowsOf_eq_ok.2 ⟨hopen, husers⟩, ?_⟩
  have hpath := path_of_rowAt hrow
  have hne : path ≠ dir := by
    rintro rfl
    rw [hfree] at hrow
    cases hrow
  rw [byPath, List.mem_mergeSort, List.mem_map]
  constructor
  · rintro ⟨other, hother, hfile⟩
    have hstored := (List.mem_filter.1 hother).2
    have hsame : other.path = path := (congrArg File.path hfile).trans hpath
    rw [hsame] at hstored
    exact Service.isBelow_of_stored hstored hne
  · intro hbelow
    have hclear : '\x00' ∉ dir.toList := fun hmem =>
      hnul ((toList_prefix_of_isBelow hbelow).subset hmem)
    have hmem := mem_of_rowAt hrow
    rw [hfiles, Option.getD_some] at hmem
    exact ⟨row, List.mem_filter.2 ⟨hmem, hpath ▸ isStoredBelow_of_isBelow hbelow hclear⟩, rfl⟩

end Database

namespace Path

/-- One path lies below another one in every way or in none: by its text, by its ancestors, by the
entry that holds it and by what is found for a directory in the metadata. Its ancestors lead from
the root to it, each one held by the one before, and it is its name in the directory that holds
it. -/
theorem below_in_every_way {path dir : String} (hpath : Canonical path) (hdir : Canonical dir) :
    (isBelow path dir = true ↔ dir ∈ ancestors path ∧ dir ≠ path) ∧
      (isBelow path dir = true ↔ (entryBelow path dir).isSome = true) ∧
      (isBelow path dir = true ↔ ∃ name, entryBelow path dir = some name ∧
        IsSegment name.toList ∧ (join dir name = path ∨ isBelow path (join dir name) = true)) ∧
      (∀ db row, Database.Readable db → db.rowAt dir = none → db.rowAt path = some row →
        '\x00' ∉ path.toList → ∃ files users, db.filesAt dir = .ok files ∧
          db.userRows = .ok users ∧ (isBelow path dir = true ↔ row.file users ∈ files)) ∧
      Descends (ancestors path) path ∧
      (path ≠ root → join (parent path) (fileName path) = path) := by
  have hentry := exists_entryBelow hpath hdir
  refine ⟨isBelow_iff_mem_ancestors hpath hdir, ⟨fun h => ?_, fun h => ?_⟩, ⟨hentry, ?_⟩, ?_,
    descends_ancestors hpath, join_parent hpath⟩
  · obtain ⟨name, hname, -⟩ := hentry h
    rw [hname]
    rfl
  · obtain ⟨name, hname⟩ := Option.isSome_iff_exists.1 h
    exact isBelow_of_entryBelow hname
  · rintro ⟨name, hname, -⟩
    exact isBelow_of_entryBelow hname
  · intro db row hreadable hfree hrow hnul
    obtain ⟨files, users, hfiles, husers, hiff⟩ := hreadable.mem_filesAt_iff hfree hrow hnul
    exact ⟨files, users, hfiles, husers, hiff.symm⟩

/-- A file in a directory within a directory, beside one whose name starts alike. -/
theorem below_in_every_way_beside_namesake :
    let row (path : String) : FileRow := ⟨path, 1, "text/plain", "", "ann", "", ""⟩
    let db := Database.empty.withFiles [row "/éa/c", row "/é/b/c"]
    Canonical "/é/b/c" ∧ Canonical "/é" ∧ isBelow "/é/b/c" "/é" = true ∧ "/é" ∈ ancestors "/é/b/c" ∧
      join "/é/b" "c" = "/é/b/c" ∧
      ∃ files users, db.filesAt "/é" = .ok files ∧ (row "/é/b/c").file users ∈ files := by
  intro row db
  have hpath : Canonical "/é/b/c" := canonical_iff.2 (by decide)
  have hdir : Canonical "/é" := canonical_iff.2 (by decide)
  have hbelow : isBelow "/é/b/c" "/é" = true := by decide
  obtain ⟨hancestors, -, -, hfound, -, hname⟩ := below_in_every_way hpath hdir
  obtain ⟨files, users, hfiles, -, hiff⟩ :=
    hfound db (row "/é/b/c") ⟨rfl, rfl⟩ (by decide) (by decide) (by decide)
  have hjoin : join "/é/b" "c" = "/é/b/c" := hname (by decide)
  exact ⟨hpath, hdir, hbelow, (hancestors.1 hbelow).1, hjoin, files, users, hfiles, hiff.1 hbelow⟩

end Path

end FileDrive
