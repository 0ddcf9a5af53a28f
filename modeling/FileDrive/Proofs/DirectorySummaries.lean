import FileDrive.Proofs.ClockProgress
import FileDrive.Proofs.HiddenListings
import FileDrive.Storage.Bucket
import Mathlib.Data.String.Basic

/-!
# Summaries of directories

A listing of a directory sorts the files that it shows into entries, by the segment that follows the
directory in their paths. Each file is in one entry (`existsUnique_entry`), and what an entry says
of its files is told by those alone (`Summarizes`).
-/

namespace FileDrive

open FileDrive.Time

/-! ## Sums and latest times -/

/-- Sums that wrap around come to the sum of everything, wrapped around. -/
theorem foldl_signed64 (files : List File) (start : Int) :
    files.foldl (fun sum file => Text.signed64 (sum + file.size)) (Text.signed64 start) =
      Text.signed64 (start + (files.map (·.size)).sum) := by
  induction files generalizing start with
  | nil => simp
  | cons file files ih =>
    have hstep : Text.signed64 (Text.signed64 start + file.size) =
        Text.signed64 (start + file.size) := Int.bmod_add_bmod
    rw [List.foldl_cons, hstep, ih, List.map_cons, List.sum_cons, Int.add_assoc]

theorem signed64_of_bounds {n : Int} (hlow : -2 ^ 63 ≤ n) (hhigh : n < 2 ^ 63) :
    Text.signed64 n = n := by
  unfold Text.signed64 Text.wordBound
  rw [Int.bmod_eq_of_le]
  · omega
  · omega

/-- The latest of some times is one of them, and none is later. -/
theorem foldl_latest (first : Timestamp) (files : List File) :
    (files.foldl (fun time file => time.latest file.updatedAt) first = first ∨
      ∃ file ∈ files,
        files.foldl (fun time file => time.latest file.updatedAt) first = file.updatedAt) ∧
    first ≤ files.foldl (fun time file => time.latest file.updatedAt) first ∧
    ∀ file ∈ files,
      file.updatedAt ≤ files.foldl (fun time file => time.latest file.updatedAt) first := by
  induction files generalizing first with
  | nil => exact ⟨Or.inl rfl, Timestamp.lt_irrefl first, nofun⟩
  | cons file files ih =>
    obtain ⟨hattained, hfirst, hrest⟩ := ih (first.latest file.updatedAt)
    have hlatest : (first.latest file.updatedAt = first ∨
          first.latest file.updatedAt = file.updatedAt) ∧
        first ≤ first.latest file.updatedAt ∧ file.updatedAt ≤ first.latest file.updatedAt := by
      unfold Timestamp.latest
      split
      case isTrue hlt =>
        exact ⟨Or.inr rfl, fun h => Timestamp.lt_irrefl _ (Timestamp.lt_trans hlt h),
          Timestamp.lt_irrefl _⟩
      case isFalse hle => exact ⟨Or.inl rfl, Timestamp.lt_irrefl _, hle⟩
    obtain ⟨hone, hle, hle'⟩ := hlatest
    rw [List.foldl_cons]
    refine ⟨?_, Timestamp.le_trans hle hfirst, ?_⟩
    · obtain hsame | ⟨other, hother, hsame⟩ := hattained
      · rw [hsame]
        exact hone.imp_right fun h => ⟨file, List.mem_cons_self, h⟩
      · exact Or.inr ⟨other, List.mem_cons_of_mem _ hother, hsame⟩
    · intro other hother
      obtain rfl | hother := List.mem_cons.1 hother
      · exact Timestamp.le_trans hle' hfirst
      · exact hrest other hother

/-! ## Names -/

/-- What is left when repetitions are taken out has none. -/
theorem nodup_eraseDups {α : Type} [BEq α] [LawfulBEq α] (l : List α) : l.eraseDups.Nodup := by
  cases l with
  | nil => exact List.nodup_nil
  | cons a l =>
    rw [List.eraseDups_cons, List.nodup_cons, List.mem_eraseDups]
    exact ⟨by simp, nodup_eraseDups (l.filter fun b => !b == a)⟩
termination_by l.length
decreasing_by exact Nat.lt_succ_of_le (List.length_filter_le _ _)

namespace DirEntry

variable {dir name : String} {files : List File} {entry : DirEntry}

theorem mem_names : name ∈ names dir files ↔
    ∃ file ∈ files, Path.entryBelow file.path dir = some name := by
  unfold names
  rw [(List.mergeSort_perm _ _).mem_iff, List.mem_eraseDups, List.mem_filterMap]

theorem names_ordered (dir : String) (files : List File) : (names dir files).Pairwise (· < ·) := by
  have hsorted : (names dir files).Pairwise (· ≤ ·) :=
    pairwise_mergeSort_of_rank (fun _ _ => decide_eq_true_iff) _
  have hnodup : (names dir files).Nodup :=
    (List.mergeSort_perm _ _).nodup_iff.2 (nodup_eraseDups _)
  exact (hsorted.and hnodup).imp fun ⟨hle, hne⟩ => lt_of_le_of_ne hle hne

/-- An entry is made of the files that are below its name, of which there are some. -/
theorem mem_summarize : entry ∈ summarize dir files ↔ ∃ name first rest,
    files.filter (Path.entryBelow ·.path dir = some name) = first :: rest ∧
      entry = ofFiles dir name first rest := by
  unfold summarize
  rw [List.mem_filterMap]
  constructor
  · rintro ⟨name, -, hentry⟩
    split at hentry
    · cases hentry
    · next first rest hfiles => exact ⟨name, first, rest, hfiles, (Option.some.inj hentry).symm⟩
  · rintro ⟨name, first, rest, hfiles, rfl⟩
    have hfirst : first ∈ files.filter (Path.entryBelow ·.path dir = some name) := by
      rw [hfiles]
      exact List.mem_cons_self
    obtain ⟨hfirst, hbelow⟩ := List.mem_filter.1 hfirst
    exact ⟨name, mem_names.2 ⟨first, hfirst, of_decide_eq_true hbelow⟩, by rw [hfiles]⟩

theorem summarize_ordered (dir : String) (files : List File) :
    (summarize dir files).Pairwise fun a b => a.name < b.name := by
  unfold summarize
  rw [List.pairwise_filterMap]
  refine (names_ordered dir files).imp fun {a b} hab entry hentry other hother => ?_
  split at hentry
  · cases hentry
  · split at hother
    · cases hother
    · rw [← Option.some.inj hentry, ← Option.some.inj hother]
      exact hab

end DirEntry

/-! ## Entries of a directory -/

namespace Path

variable {path dir name : String} {segs : List (List Char)}

/-- The name of the entry that a path is in follows the directory in the path. -/
theorem entryBelow_iff (hpath : Canonical path) (hdir : Canonical dir) :
    entryBelow path dir = some name ↔
      ∃ rest, segments path = segments dir ++ name.toList :: rest := by
  obtain ⟨all, hall, rfl⟩ := hpath
  obtain ⟨above, habove, rfl⟩ := hdir
  rw [segments_ofSegments hall, segments_ofSegments habove]
  constructor
  · intro hentry
    have hbelow : isBelow (ofSegments all) (ofSegments above) = true := by
      by_contra hnot
      rw [entryBelow, if_neg hnot] at hentry
      cases hentry
    obtain ⟨⟨rest, rfl⟩, hlong⟩ := (isBelow_ofSegments hall habove).1 hbelow
    obtain ⟨first, rest, rfl⟩ := List.exists_cons_of_ne_nil
      (l := rest) fun e => hlong (by rw [e, List.append_nil])
    rw [entryBelow_ofSegments hall, Option.some_inj] at hentry
    rw [← hentry, String.toList_ofList]
    exact ⟨rest, rfl⟩
  · rintro ⟨rest, rfl⟩
    rw [entryBelow_ofSegments hall, String.ofList_toList]

/-- To join a directory with the name of an entry is to append a segment. -/
theorem segments_join (hdir : Canonical dir) (hname : IsSegment name.toList) :
    Canonical (join dir name) ∧ segments (join dir name) = segments dir ++ [name.toList] := by
  obtain ⟨above, habove, rfl⟩ := hdir
  have habove : AreSegments above := habove
  have hlast : AreSegments [name.toList] := fun s hs => List.mem_singleton.1 hs ▸ hname
  have hspelled : '/' :: name.toList = spell [name.toList] := by simp
  have hjoin := join_tail habove hlast hspelled
  rw [String.ofList_toList] at hjoin
  rw [hjoin, segments_ofSegments (habove.append hlast), segments_ofSegments habove]
  exact ⟨canonical_ofSegments (habove.append hlast), rfl⟩

/-- A path is at or below another one when its segments start with those. -/
theorem prefix_segments_iff (hpath : Canonical path) (hdir : Canonical dir) :
    segments dir <+: segments path ↔ path = dir ∨ isBelow path dir = true := by
  obtain ⟨all, hall, rfl⟩ := hpath
  obtain ⟨above, habove, rfl⟩ := hdir
  rw [segments_ofSegments hall, segments_ofSegments habove, isBelow_ofSegments hall habove]
  constructor
  · intro hstart
    by_cases hsame : above = all
    · exact Or.inl (by rw [hsame])
    · exact Or.inr ⟨hstart, hsame⟩
  · rintro (hsame | ⟨hstart, -⟩)
    · rw [ofSegments_injective hall habove hsame]
    · exact hstart

/-- What lies below a path comes after it. -/
theorem lt_of_isBelow (h : isBelow path dir = true) : dir < path := by
  have hle : dir ≤ path := not_lt.1 fun hlt =>
    (toList_prefix_of_isBelow h).le (String.lt_iff.1 hlt)
  refine lt_of_le_of_ne hle ?_
  rintro rfl
  rw [isBelow_self] at h
  cases h

end Path

namespace DirEntry

/-- Whether a path is that of an entry or lies below it. -/
def holds (entry : DirEntry) (path : String) : Bool :=
  path = entry.path || Path.isBelow path entry.path

/-- What an entry says of some files: how many there are, how large they are together, and when the
last of them was changed. -/
structure Summarizes (entry : DirEntry) (files : List File) : Prop where
  fileCount : entry.fileCount = files.length
  size : -2 ^ 63 ≤ (files.map (·.size)).sum → (files.map (·.size)).sum < 2 ^ 63 →
    entry.size = (files.map (·.size)).sum
  changed : ∃ file ∈ files, entry.updatedAt = file.updatedAt
  latest : ∀ file ∈ files, file.updatedAt ≤ entry.updatedAt

theorem summarizes_ofFiles (dir name : String) (first : File) (rest : List File) :
    (ofFiles dir name first rest).Summarizes (first :: rest) := by
  have hsum := foldl_signed64 (first :: rest) 0
  rw [Int.zero_add, show Text.signed64 0 = 0 by decide] at hsum
  obtain ⟨hattained, hfirst, hrest⟩ := foldl_latest first.updatedAt rest
  refine ⟨rfl, fun hlow hhigh => hsum.trans (signed64_of_bounds hlow hhigh), ?_, ?_⟩
  · obtain hsame | ⟨file, hfile, hsame⟩ := hattained
    · exact ⟨first, List.mem_cons_self, hsame⟩
    · exact ⟨file, List.mem_cons_of_mem _ hfile, hsame⟩
  · intro file hfile
    obtain rfl | hfile := List.mem_cons.1 hfile
    · exact hfirst
    · exact hrest file hfile

section Entries

variable {dir : String} {files : List File} {entry : DirEntry}
  (hdir : Path.Canonical dir) (hfiles : ∀ file ∈ files, Path.Canonical file.path)

include hdir hfiles

/-- The path of an entry is that of the directory with the name of the entry. -/
theorem path_of_mem (h : entry ∈ summarize dir files) :
    Path.Canonical entry.path ∧
      Path.segments entry.path = Path.segments dir ++ [entry.name.toList] := by
  obtain ⟨name, first, rest, hfilter, rfl⟩ := mem_summarize.1 h
  have hfirst : first ∈ files.filter (Path.entryBelow ·.path dir = some name) := by
    rw [hfilter]
    exact List.mem_cons_self
  obtain ⟨hfirst, hbelow⟩ := List.mem_filter.1 hfirst
  have hcanonical := hfiles first hfirst
  obtain ⟨more, hsegments⟩ := (Path.entryBelow_iff hcanonical hdir).1 (of_decide_eq_true hbelow)
  refine Path.segments_join hdir ?_
  obtain ⟨all, hall, hspelled⟩ := hcanonical
  rw [hspelled, Path.segments_ofSegments hall] at hsegments
  exact hall name.toList (by rw [hsegments]; simp)

/-- An entry holds the files that are below its name. -/
theorem holds_iff (h : entry ∈ summarize dir files) {file : File} (hfile : file ∈ files) :
    entry.holds file.path = true ↔ Path.entryBelow file.path dir = some entry.name := by
  obtain ⟨hcanonical, hsegments⟩ := path_of_mem hdir hfiles h
  unfold holds
  rw [Bool.or_eq_true, decide_eq_true_eq, ← Path.prefix_segments_iff (hfiles file hfile) hcanonical,
    hsegments, Path.entryBelow_iff (hfiles file hfile) hdir]
  constructor
  · rintro ⟨rest, hrest⟩
    exact ⟨rest, by rw [← hrest]; simp⟩
  · rintro ⟨rest, hrest⟩
    exact ⟨rest, by rw [hrest]; simp⟩

theorem exists_ofFiles (h : entry ∈ summarize dir files) : ∃ first rest,
    files.filter (entry.holds ·.path) = first :: rest ∧
      entry = ofFiles dir entry.name first rest := by
  have hholds : files.filter (entry.holds ·.path) =
      files.filter (Path.entryBelow ·.path dir = some entry.name) := by
    refine List.filter_congr fun file hfile => ?_
    rw [Bool.eq_iff_iff, decide_eq_true_eq]
    exact holds_iff hdir hfiles h hfile
  obtain ⟨name, first, rest, hfilter, hentry⟩ := mem_summarize.1 h
  have hname : entry.name = name := by rw [hentry]; rfl
  exact ⟨first, rest, by rw [hholds, hname, hfilter], by rw [hname, hentry]⟩

/-- Each file below the directory is in one entry. -/
theorem existsUnique_entry {file : File} (hfile : file ∈ files)
    (hbelow : Path.isBelow file.path dir = true) :
    ∃! entry, entry ∈ summarize dir files ∧ entry.holds file.path = true := by
  obtain ⟨name, hname⟩ : ∃ name, Path.entryBelow file.path dir = some name := by
    obtain ⟨all, hall, hspelled⟩ := hfiles file hfile
    obtain ⟨above, habove, rfl⟩ := hdir
    rw [hspelled] at hbelow ⊢
    obtain ⟨⟨rest, rfl⟩, hlong⟩ := (Path.isBelow_ofSegments hall habove).1 hbelow
    obtain ⟨first, rest, rfl⟩ := List.exists_cons_of_ne_nil
      (l := rest) fun e => hlong (by rw [e, List.append_nil])
    exact ⟨_, Path.entryBelow_ofSegments hall⟩
  have hheld : file ∈ files.filter (Path.entryBelow ·.path dir = some name) :=
    List.mem_filter.2 ⟨hfile, decide_eq_true hname⟩
  obtain ⟨first, rest, hfilter⟩ := List.exists_cons_of_ne_nil (List.ne_nil_of_mem hheld)
  have hentry : ofFiles dir name first rest ∈ summarize dir files :=
    mem_summarize.2 ⟨name, first, rest, hfilter, rfl⟩
  refine ⟨_, ⟨hentry, (holds_iff hdir hfiles hentry hfile).2 hname⟩, ?_⟩
  rintro other ⟨hother, hholds⟩
  have hsame := (holds_iff hdir hfiles hother hfile).1 hholds
  obtain ⟨name', first', rest', hfilter', rfl⟩ := mem_summarize.1 hother
  obtain rfl : name' = name := Option.some.inj (hsame.symm.trans hname)
  obtain ⟨rfl, rfl⟩ := List.cons.inj (hfilter'.symm.trans hfilter)
  rfl

/-- An entry is a file when its own path is among those that it holds. That file is then the first
one, as all others lie below it. -/
theorem isDirectory_eq_false (h : entry ∈ summarize dir files)
    (hsorted : files.Pairwise fun a b => a.path < b.path) :
    entry.isDirectory = false ↔ ∃ file ∈ files, file.path = entry.path := by
  obtain ⟨first, rest, hfilter, hentry⟩ := exists_ofFiles hdir hfiles h
  have hmem : ∀ file, file ∈ first :: rest ↔ file ∈ files ∧ entry.holds file.path = true := by
    intro file
    rw [← hfilter, List.mem_filter]
  obtain ⟨hfirst, hholds⟩ := (hmem first).1 List.mem_cons_self
  have hflag : entry.isDirectory = decide (entry.path ≠ first.path) := by
    rw [congrArg DirEntry.path hentry]
    exact congrArg DirEntry.isDirectory hentry
  rw [hflag, decide_eq_false_iff_not, not_not, eq_comm]
  constructor
  · intro hat
    exact ⟨first, hfirst, hat⟩
  · rintro ⟨file, hfile, hat⟩
    have hheld := (hmem file).2 ⟨hfile, by simp [holds, hat]⟩
    obtain rfl | hrest := List.mem_cons.1 hheld
    · exact hat
    · have hheld := hsorted.filter (entry.holds ·.path)
      rw [hfilter] at hheld
      have hlt := (List.pairwise_cons.1 hheld).1 file hrest
      unfold holds at hholds
      rw [Bool.or_eq_true, decide_eq_true_eq] at hholds
      obtain hsame | hbelow := hholds
      · exact hsame
      · have habove := Path.lt_of_isBelow hbelow
        rw [hat] at hlt
        exact absurd hlt (lt_asymm habove)

/-- The entries are named by the segments that follow the directory in the paths of its files. -/
theorem exists_entry_iff {name : String} : (∃ entry ∈ summarize dir files, entry.name = name) ↔
    ∃ file ∈ files, ∃ rest,
      Path.segments file.path = Path.segments dir ++ name.toList :: rest := by
  constructor
  · rintro ⟨entry, hentry, rfl⟩
    obtain ⟨first, rest, hfilter, -⟩ := exists_ofFiles hdir hfiles hentry
    have hfirst : first ∈ files.filter (entry.holds ·.path) := by
      rw [hfilter]
      exact List.mem_cons_self
    obtain ⟨hfirst, hholds⟩ := List.mem_filter.1 hfirst
    have hname := (holds_iff hdir hfiles hentry hfirst).1 hholds
    exact ⟨first, hfirst, (Path.entryBelow_iff (hfiles first hfirst) hdir).1 hname⟩
  · rintro ⟨file, hfile, hrest⟩
    have hname := (Path.entryBelow_iff (hfiles file hfile) hdir).2 hrest
    have hheld : file ∈ files.filter (Path.entryBelow ·.path dir = some name) :=
      List.mem_filter.2 ⟨hfile, decide_eq_true hname⟩
    obtain ⟨first, rest, hfilter⟩ := List.exists_cons_of_ne_nil (List.ne_nil_of_mem hheld)
    exact ⟨_, mem_summarize.2 ⟨name, first, rest, hfilter, rfl⟩, rfl⟩

theorem summarizes_of_mem (h : entry ∈ summarize dir files) :
    entry.Summarizes (files.filter (entry.holds ·.path)) := by
  obtain ⟨first, rest, hfilter, hentry⟩ := exists_ofFiles hdir hfiles h
  have hsummarizes := summarizes_ofFiles dir entry.name first rest
  rwa [← hentry, ← hfilter] at hsummarizes

end Entries

end DirEntry

/-! ## Listings -/

namespace Service

open FileDrive.DriveM

variable {σ : Type} {service : Service σ} {stores : ObjectStore σ → Prop} {objects : σ}
  {clock : Timestamp} {drive after : Drive σ} {history : List Event} {identity : Identity}
  {path : String} {listing : Listing}

/-- A listing shows files that are found for its path, in the order of their paths, and sums them
up. -/
theorem Ordered.listed (h : Ordered drive.db)
    (hlist : (service.list identity path).on drive = (.ok listing, after)) :
    listing.path = Path.normalize path ∧
      listing.entries =
        DirEntry.summarize (Path.normalize path) (listing.files.map (·.file)) ∧
      (listing.files.map (·.file)).Pairwise (fun a b => a.path < b.path) ∧
      ∀ file ∈ listing.files.map (·.file), ∃ row,
        drive.db.FoundAt (Path.normalize path) row ∧ row.path = file.path := by
  obtain ⟨-, users, -, husers⟩ := h.tables
  obtain ⟨files, permitted, held, hreads⟩ :=
    h.reads service identity husers (Path.normalize path)
  have hon := hreads.list_on
  rw [hlist] at hon
  dsimp only at hon
  split_ifs at hon
  · unfold unstored at hon
    split_ifs at hon
  · obtain rfl := Except.ok.inj hon
    refine ⟨rfl, rfl, List.pairwise_map.2 hreads.sorted, fun file hfile => ?_⟩
    obtain ⟨entry, hentry, rfl⟩ := List.mem_map.1 hfile
    obtain ⟨row, hfound, hat, -⟩ := (hreads.mem entry).1 hentry
    exact ⟨row, hfound, by rw [hat]; rfl⟩

/-- A file that is an entry has nothing below it, except where a NUL is in its path. -/
theorem Ordered.alone_in_entry (h : Ordered drive.db) {files : List File} {entry : DirEntry}
    {file : File} (hsorted : files.Pairwise fun a b => a.path < b.path)
    (hstored : ∀ file ∈ files, ∃ row, drive.db.rowAt file.path = some row) (hfile : file ∈ files)
    (hat : file.path = entry.path) (hnul : '\x00' ∉ entry.path.toList) :
    files.filter (entry.holds ·.path) = [file] := by
  obtain ⟨above, habove⟩ := hstored file hfile
  have hpath : ∀ other ∈ files, entry.holds other.path = true → other.path = file.path := by
    intro other hother hholds
    unfold DirEntry.holds at hholds
    rw [Bool.or_eq_true, decide_eq_true_eq] at hholds
    obtain hsame | hbelow := hholds
    · rw [hsame, hat]
    · obtain ⟨row, hrow⟩ := hstored other hother
      rw [← hat] at hbelow hnul
      exact absurd (h.shaped.apart _ _ row above hrow habove hbelow) hnul
  have hheld : file ∈ files.filter (entry.holds ·.path) :=
    List.mem_filter.2 ⟨hfile, by simp [DirEntry.holds, hat]⟩
  have hsame : ∀ other ∈ files.filter (entry.holds ·.path), other.path = file.path :=
    fun other hother => hpath other (List.mem_filter.1 hother).1 (List.mem_filter.1 hother).2
  have hlt := hsorted.filter (entry.holds ·.path)
  rcases hfilter : files.filter (entry.holds ·.path) with _ | ⟨first, rest⟩
  · rw [hfilter] at hheld
    cases hheld
  · rw [hfilter] at hheld hsame hlt
    obtain ⟨hfirst, -⟩ := List.pairwise_cons.1 hlt
    obtain rfl : rest = [] := by
      refine List.eq_nil_iff_forall_not_mem.2 fun other hother => ?_
      have hless := hfirst other hother
      rw [hsame other (List.mem_cons_of_mem _ hother), hsame first List.mem_cons_self] at hless
      exact lt_irrefl _ hless
    rw [hfilter, List.mem_singleton.1 hheld]

/-- In every state of a drive, the listing of a path has its files in the order of their paths, and
its entries in the order of their names, one for each segment that follows the path in the path of a
file. Each file of a directory is in just one entry, which lies above it or is the file itself, and
an entry has the number, the size and the latest change of the files in it. It is no directory just
when its path is that of a file; and that file is then alone in it, unless there is a NUL in its
path. -/
theorem Evolves.list_partitions
    (h : service.Evolves stores (Drive.fresh objects clock) history drive)
    (hlist : (service.list identity path).on drive = (.ok listing, after)) :
    let dir := Path.normalize path
    let files := listing.files.map (·.file)
    (files.Pairwise fun a b => a.path < b.path) ∧
    (listing.entries.Pairwise fun a b => a.name < b.name) ∧
    (∀ name, (∃ entry ∈ listing.entries, entry.name = name) ↔ ∃ file ∈ files, ∃ rest,
      Path.segments file.path = Path.segments dir ++ name.toList :: rest) ∧
    (drive.db.rowAt dir = none → ∀ file ∈ files, Path.isBelow file.path dir = true ∧
      ∃! entry, entry ∈ listing.entries ∧ entry.holds file.path = true) ∧
    ∀ entry ∈ listing.entries,
      Path.segments entry.path = Path.segments dir ++ [entry.name.toList] ∧
      entry.Summarizes (files.filter (entry.holds ·.path)) ∧
      (entry.isDirectory = false ↔ ∃ file ∈ files, file.path = entry.path) ∧
      ∀ file ∈ files, file.path = entry.path → '\x00' ∉ entry.path.toList →
        files.filter (entry.holds ·.path) = [file] := by
  intro dir files
  obtain ⟨-, hentries, hsorted, hfound⟩ := h.ordered.listed hlist
  have hdir : Path.Canonical dir := Path.canonical_normalize path
  have hstored : ∀ file ∈ files, ∃ row, drive.db.rowAt file.path = some row := by
    intro file hfile
    obtain ⟨row, ⟨hrow, -⟩, hat⟩ := hfound file hfile
    exact ⟨row, hat ▸ hrow⟩
  have hfiles : ∀ file ∈ files, Path.Canonical file.path := by
    intro file hfile
    obtain ⟨row, hrow⟩ := hstored file hfile
    exact (h.ordered.shaped.admissible _ row hrow).canonical
  rw [hentries]
  refine ⟨hsorted, DirEntry.summarize_ordered dir files,
    fun name => DirEntry.exists_entry_iff hdir hfiles, fun hfree file hfile => ?_,
    fun entry hentry => ⟨(DirEntry.path_of_mem hdir hfiles hentry).2,
      DirEntry.summarizes_of_mem hdir hfiles hentry,
      DirEntry.isDirectory_eq_false hdir hfiles hentry hsorted, fun file hfile hat hnul =>
        h.ordered.alone_in_entry hsorted hstored hfile hat hnul⟩⟩
  obtain ⟨row, ⟨hrow, hcases⟩, hat⟩ := hfound file hfile
  have hne : row.path ≠ dir := by
    intro hsame
    rw [hsame] at hrow
    rw [hfree] at hrow
    cases hrow
  have hbelow : Path.isBelow file.path dir = true :=
    hat ▸ isBelow_of_stored (hcases.resolve_left hne) hne
  exact ⟨hbelow, DirEntry.existsUnique_entry hdir hfiles hfile hbelow⟩

/-- A directory with a file and a directory whose names begin alike. -/
theorem list_partitions_beside_namesake :
    let root : Identity := ⟨"root", "root", ["admins"], "", "", false⟩
    let service : Service Tree := ⟨Directory.store, .enforcing "admins", 0, toString, fun _ => none⟩
    let creation (path : String) : CreateRequest := ⟨path, "", false, ⟨0, "text/plain", .empty⟩⟩
    let one := ((service.serve root (.create (creation "/d/a-b"))).on
      (Drive.fresh Tree.empty .epoch)).2
    let drive := ((service.serve root (.create (creation "/d/a/x"))).on one).2
    (∃ history,
        service.Evolves (· = service.store) (Drive.fresh Tree.empty .epoch) history drive) ∧
      ∃ listing after, (service.list root "/d").on drive = (.ok listing, after) ∧
        listing.files.map (·.file.path) = ["/d/a-b", "/d/a/x"] ∧
        ∀ file ∈ listing.files.map (·.file),
          ∃! entry, entry ∈ listing.entries ∧ entry.holds file.path = true := by
  intro root service creation one drive
  have hstart : service.Evolves (· = service.store) _ [] (Drive.fresh Tree.empty .epoch) := .start
  have hone : service.Evolves _ _ _ one := hstart.next rfl root (.create (creation "/d/a-b"))
  have hdrive : service.Evolves _ _ _ drive := hone.next rfl root (.create (creation "/d/a/x"))
  have hrows : drive.db.files = some
      [⟨"/d/a-b", 0, "text/plain", "", "root", "1970-01-01T00:00:00.000001Z",
        "1970-01-01T00:00:00.000001Z"⟩,
      ⟨"/d/a/x", 0, "text/plain", "", "root", "1970-01-01T00:00:00.000002Z",
        "1970-01-01T00:00:00.000002Z"⟩] := by decide +kernel
  have hfree : drive.db.rowAt "/d" = none := by decide +kernel
  have husers : drive.db.users = some [] := by decide +kernel
  have hfound := Database.filesAt_of_rows (by decide +kernel) hrows husers hfree (by decide)
  obtain ⟨listing, hlist, hpaths⟩ := of_toOption_map (x := ((service.list root "/d").on drive).1)
    (f := fun listing => listing.files.map (·.file.path)) (b := ["/d/a-b", "/d/a/x"]) (by
      unfold list
      rw [show Path.normalize "/d" = "/d" by decide]
      dsimp only
      rw [on_bind, on_query, hfound]
      decide +kernel)
  have hon : (service.list root "/d").on drive =
      (.ok listing, ((service.list root "/d").on drive).2) := Prod.ext hlist rfl
  obtain ⟨-, -, -, hunique, -⟩ := Evolves.list_partitions hdrive hon
  exact ⟨⟨_, hdrive⟩, listing, _, hon, hpaths, fun file hfile => (hunique hfree file hfile).2⟩

/-- A file can lie below another one where the path of that one has a NUL in it and the store takes
such paths. The two are in one entry of the root, which is a file. -/
theorem file_entry_past_nul :
    let root : Identity := ⟨"root", "root", ["admins"], "", "", false⟩
    let service : Service Bucket.Server :=
      ⟨Bucket.store, .enforcing "admins", 0, toString, fun _ => none⟩
    let server : Bucket.Server :=
      ⟨true, "drive", ["drive"], [], [], 0, fun _ _ => none, fun _ _ _ => none, []⟩
    let creation (path : String) : CreateRequest := ⟨path, "", false, ⟨0, "text/plain", .empty⟩⟩
    let one := ((service.serve root (.create (creation "/a\x00/b"))).on
      (Drive.fresh server .epoch)).2
    let drive := ((service.serve root (.create (creation "/a\x00"))).on one).2
    (∃ history, service.Evolves (· = service.store) (Drive.fresh server .epoch) history drive) ∧
      ∃ listing after, (service.list root "/").on drive = (.ok listing, after) ∧
        listing.entries.map (fun entry => (entry.path, entry.isDirectory, entry.fileCount,
            (listing.files.map (·.file.path)).filter (entry.holds ·))) =
          [("/a\x00", false, 2, ["/a\x00", "/a\x00/b"])] := by
  intro root service server creation one drive
  have hstart : service.Evolves (· = service.store) _ [] (Drive.fresh server .epoch) := .start
  have hone : service.Evolves _ _ _ one := hstart.next rfl root (.create (creation "/a\x00/b"))
  have hdrive : service.Evolves _ _ _ drive := hone.next rfl root (.create (creation "/a\x00"))
  have hrows : drive.db.files = some
      [⟨"/a\x00/b", 0, "text/plain", "", "root", "1970-01-01T00:00:00.000001Z",
        "1970-01-01T00:00:00.000001Z"⟩,
      ⟨"/a\x00", 0, "text/plain", "", "root", "1970-01-01T00:00:00.000002Z",
        "1970-01-01T00:00:00.000002Z"⟩] := by decide +kernel
  have hfree : drive.db.rowAt "/" = none := by decide +kernel
  have husers : drive.db.users = some [] := by decide +kernel
  have hfound := Database.filesAt_eq_byPath (by decide +kernel) hrows husers hfree
  rw [List.filter_eq_self.2 (by decide), List.map_cons, List.map_cons, List.map_nil,
    Database.byPath_pair (by decide)] at hfound
  obtain ⟨listing, hlist, hentries⟩ := of_toOption_map (x := ((service.list root "/").on drive).1)
    (f := fun listing => listing.entries.map fun entry => (entry.path, entry.isDirectory,
      entry.fileCount, (listing.files.map (·.file.path)).filter (entry.holds ·)))
    (b := [("/a\x00", false, 2, ["/a\x00", "/a\x00/b"])]) (by
      unfold list
      rw [show Path.normalize "/" = "/" by decide]
      dsimp only
      rw [on_bind, on_query, hfound]
      clear_value drive
      set_option maxRecDepth 4000 in cbv)
  exact ⟨⟨_, hdrive⟩, listing, _, Prod.ext hlist rfl, hentries⟩

end Service

end FileDrive
