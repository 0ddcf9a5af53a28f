import Mathlib.Data.Set.Function
import FileDrive.Proofs.Logins
import FileDrive.Proofs.MovedFiles

/-!
# What rebasing does to a subtree

To rebase is to exchange the segments that a path starts with, and it is undone by exchanging them
back (`rebase_returns`). So it carries what is at and below one directory over to another one, one to
one and onto everything there (`rebase_bijOn`). The files of a directory that is moved are therefore
never to have the same path, and, as a directory is not moved into itself, none is to be where it is
already or below that (`Ordered.movedApart`).
-/

namespace FileDrive

open FileDrive.DriveM FileDrive.Time

namespace Path

variable {path source target moved : String} {dir rest : List (List Char)}

/-! ## Subtrees -/

/-- A directory and everything that lies below it. -/
def subtree (dir : String) : Set String :=
  {path | Canonical path ∧ (path = dir ∨ isBelow path dir = true)}

theorem mem_subtree_append (h : AreSegments (dir ++ rest)) :
    ofSegments (dir ++ rest) ∈ subtree (ofSegments dir) := by
  refine ⟨canonical_ofSegments h, ?_⟩
  by_cases hrest : rest = []
  · exact Or.inl (by rw [hrest, List.append_nil])
  · exact Or.inr (isBelow_append h hrest)

theorem isSome_rebase : (rebase path source target).isSome = true ↔
    path = source ∨ isBelow path source = true := by
  unfold rebase
  by_cases hsame : path = source
  · simp [hsame]
  · by_cases hbelow : isBelow path source = true
    · simp [hsame, hbelow]
    · simp [hsame, hbelow]

/-- A canonical path that is rebased is the directory with more segments, or with none, and so is
what it becomes. -/
theorem exists_segments_of_rebase (hpath : Canonical path) (hs : Canonical source)
    (ht : Canonical target) (h : rebase path source target = some moved) :
    ∃ dir newDir rest, AreSegments (dir ++ rest) ∧ AreSegments newDir ∧
      path = ofSegments (dir ++ rest) ∧ source = ofSegments dir ∧ target = ofSegments newDir ∧
      moved = ofSegments (newDir ++ rest) := by
  by_cases hsame : path = source
  · subst hsame
    rw [rebase_self, Option.some_inj] at h
    subst h
    obtain ⟨dir, hdir, rfl⟩ := hs
    obtain ⟨newDir, hnew, rfl⟩ := ht
    exact ⟨dir, newDir, [], by rwa [List.append_nil], hnew, by rw [List.append_nil], rfl, rfl,
      by rw [List.append_nil]⟩
  · obtain ⟨dir, newDir, rest, hsegs, hnew, -, hp, hd, hn, hm⟩ :=
      rebase_eq_some hpath hs ht hsame h
    exact ⟨dir, newDir, rest, hsegs, hnew, hp, hd, hn, hm⟩

/-! ## One to one -/

theorem mem_subtree_of_rebase (hpath : Canonical path) (hs : Canonical source)
    (ht : Canonical target) (h : rebase path source target = some moved) :
    moved ∈ subtree target := by
  obtain ⟨dir, newDir, rest, hsegs, hnew, rfl, rfl, rfl, rfl⟩ :=
    exists_segments_of_rebase hpath hs ht h
  exact mem_subtree_append (hnew.append hsegs.of_append_right)

/-- Behind the new directory a path goes on as it did behind the old one. -/
theorem segments_of_rebase (hpath : Canonical path) (hs : Canonical source) (ht : Canonical target)
    (h : rebase path source target = some moved) :
    ∃ rest, segments path = segments source ++ rest ∧ segments moved = segments target ++ rest := by
  obtain ⟨dir, newDir, rest, hsegs, hnew, rfl, rfl, rfl, rfl⟩ :=
    exists_segments_of_rebase hpath hs ht h
  refine ⟨rest, ?_, ?_⟩
  · rw [segments_ofSegments hsegs, segments_ofSegments (hsegs.of_prefix (List.prefix_append _ _))]
  · rw [segments_ofSegments (hnew.append hsegs.of_append_right), segments_ofSegments hnew]

/-- What was rebased is rebased back to the path that it was, the directory itself included. -/
theorem rebase_returns (hpath : Canonical path) (hs : Canonical source) (ht : Canonical target)
    (h : rebase path source target = some moved) : rebase moved target source = some path := by
  by_cases hsame : path = source
  · subst hsame
    rw [rebase_self, Option.some_inj] at h
    rw [← h, rebase_self]
  · exact rebase_back hpath hs ht hsame h

theorem exists_rebase_of_mem_subtree (h : path ∈ subtree source) (target : String) :
    ∃ moved, rebase path source target = some moved :=
  Option.isSome_iff_exists.1 (isSome_rebase.2 h.2)

/-- Rebasing is a bijection from the subtree of one directory onto that of the other. -/
theorem rebase_bijOn (hs : Canonical source) (ht : Canonical target) :
    Set.BijOn (fun path => (rebase path source target).getD path) (subtree source)
      (subtree target) := by
  refine ⟨fun path hpath => ?_, fun path hpath other hother he => ?_, fun moved hmoved => ?_⟩
  · obtain ⟨moved, hmoved⟩ := exists_rebase_of_mem_subtree hpath target
    dsimp only
    rw [hmoved, Option.getD_some]
    exact mem_subtree_of_rebase hpath.1 hs ht hmoved
  · obtain ⟨moved, hmoved⟩ := exists_rebase_of_mem_subtree hpath target
    obtain ⟨moved', hmoved'⟩ := exists_rebase_of_mem_subtree hother target
    dsimp only at he
    rw [hmoved, hmoved', Option.getD_some, Option.getD_some] at he
    subst he
    have hback := rebase_returns hpath.1 hs ht hmoved
    rw [rebase_returns hother.1 hs ht hmoved', Option.some_inj] at hback
    exact hback.symm
  -- The path that comes to a given one is where that one is rebased to, the other way round.
  · obtain ⟨path, hpath⟩ := exists_rebase_of_mem_subtree hmoved source
    refine ⟨path, mem_subtree_of_rebase hmoved.1 ht hs hpath, ?_⟩
    dsimp only
    rw [rebase_returns hmoved.1 ht hs hpath, Option.getD_some]

/-- Between different directories, the new one not being below the old one, no path comes to where it
was or below that. -/
theorem rebase_away (hpath : Canonical path) (hs : Canonical source) (ht : Canonical target)
    (hne : source ≠ target) (hinto : isBelow target source = false)
    (h : rebase path source target = some moved) :
    moved ≠ path ∧ isBelow moved path = false := by
  refine ⟨rebase_ne hs ht hne h, ?_⟩
  by_cases hsame : path = source
  · subst hsame
    rw [rebase_self, Option.some_inj] at h
    rwa [← h]
  · exact isBelow_of_rebase hpath hs ht hsame hinto h

end Path

namespace Service

variable {σ : Type} {service : Service σ} {identity : Identity} {drive after : Drive σ}
  {source target : String} {names : Option (List String)} {report : BatchReport}

/-! ## The new paths of a directory -/

/-- What an accepted request to move the files of a directory has come to: moves made in turn, one
for each file that it picks, to new paths that are all different. None of these is the old path of
its file or lies below it. -/
structure MovedApart (service : Service σ) (source target : String) (names : Option (List String))
    (drive after : Drive σ) (report : BatchReport) (items : List MoveItem) : Prop where
  picked : ∀ p, p ∈ items.map MoveItem.source ↔
    (∃ row, drive.db.rowAt p = some row) ∧ Path.Picked source names p
  report_eq :
    report = .ofCalls MoveItem.source MoveItem.target (inTurn service.moveItem items drive).1
  after_eq : after = (inTurn service.moveItem items drive).2
  rebased : ∀ item ∈ items, Path.rebase item.source source target = some item.target
  distinct : (items.map MoveItem.target).Nodup
  away : ∀ item ∈ items,
    item.target ≠ item.source ∧ Path.isBelow item.target item.source = false

theorem Ordered.movedApart (h : Ordered drive.db)
    (haccepted : (service.movePath identity source target names).on drive = (.ok report, after))
    (hfree : drive.db.rowAt (Path.normalize source) = none) :
    ∃ items, MovedApart service (Path.normalize source) (Path.normalize target) names drive after
      report items := by
  obtain ⟨items, newPath, hitems, hreport, hafter⟩ := h.itemized haccepted hfree
  have hrebased : ∀ item ∈ items, Path.rebase item.source (Path.normalize source)
      (Path.normalize target) = some item.target :=
    fun item hitem => (hitems.offered item hitem).rebase_eq
  refine ⟨items, hitems.picked, hreport, hafter, hrebased, hitems.side.targets,
    fun item hitem => ?_⟩
  obtain ⟨row, hrow⟩ := (hitems.offered item hitem).row
  have hcanonical := (h.shaped.admissible item.source row hrow).canonical
  exact Path.rebase_away hcanonical (Path.canonical_normalize source)
    (Path.canonical_normalize target) hitems.apart hitems.into (hrebased item hitem)

end Service

namespace Path

/-- Rebasing from one directory to another is defined for the paths at and below the one, carries
them one to one onto those at and below the other, keeps the segments behind, and is undone by
rebasing back. In particular the files of a directory that is moved, in any drive that has come about
by requests and logins, get different paths, and none gets one at or below its old one. -/
theorem rebase_exchanges_subtrees {source target : String} (hs : Canonical source)
    (ht : Canonical target) :
    (∀ path, Canonical path →
      ((rebase path source target).isSome = true ↔ path ∈ subtree source)) ∧
    (∀ path moved, Canonical path → rebase path source target = some moved →
      moved ∈ subtree target ∧ rebase moved target source = some path ∧
        ∃ rest, segments path = segments source ++ rest ∧
          segments moved = segments target ++ rest) ∧
    Set.BijOn (fun path => (rebase path source target).getD path) (subtree source)
      (subtree target) ∧
    (source ≠ target → isBelow target source = false → ∀ path moved, Canonical path →
      rebase path source target = some moved → moved ≠ path ∧ isBelow moved path = false) ∧
    ∀ {σ : Type} {service : Service σ} {stores : ObjectStore σ → Prop} {objects : σ}
      {clock : Timestamp} {history : List Event} {drive after : Drive σ} {identity : Identity}
      {dir newDir : String} {names : Option (List String)} {report : BatchReport},
      service.Evolves stores (Drive.fresh objects clock) history drive →
      normalize dir = source → normalize newDir = target →
      (service.movePath identity dir newDir names).on drive = (.ok report, after) →
      drive.db.rowAt source = none →
      ∃ items, service.MovedApart source target names drive after report items := by
  refine ⟨fun path hpath => ?_, fun path moved hpath h => ?_, rebase_bijOn hs ht,
    fun hne hinto path moved hpath h => rebase_away hpath hs ht hne hinto h, ?_⟩
  · rw [isSome_rebase]
    exact ⟨fun h => ⟨hpath, h⟩, fun h => h.2⟩
  · exact ⟨mem_subtree_of_rebase hpath hs ht h, rebase_returns hpath hs ht h,
      segments_of_rebase hpath hs ht h⟩
  · rintro σ service stores objects clock history drive after identity dir newDir names report
      hevolves rfl rfl haccepted hfree
    exact hevolves.ordered.movedApart haccepted hfree

/-- A file two directories down is moved up with the directory that it is in, and comes to lie in a
directory of the name that the old one had. -/
theorem rebase_exchanges_subtrees_up_to_root :
    let admin : Identity := ⟨"root", "root", ["admin"], "", "", false⟩
    let service : Service Tree :=
      ⟨Directory.store.withFaults .none, .enforcing "admin", 0, toString, fun _ => none⟩
    let made := (service.serve admin (.create ⟨"/a/a/x", "", false, ⟨0, "", .empty⟩⟩)).on
      (Drive.fresh Tree.empty .epoch)
    let moved := (service.movePath admin "/a" "/" none).on made.2
    rebase "/a/a/x" "/a" "/" = some "/a/x" ∧ "/a/x" ∈ subtree "/" ∧
      rebase "/a/x" "/" "/a" = some "/a/a/x" ∧ isBelow "/a/x" "/a/a/x" = false ∧
      moved.1 = .ok ⟨["/a/x"], []⟩ ∧
      ∃ items, service.MovedApart "/a" "/" none made.2 moved.2 ⟨["/a/x"], []⟩ items := by
  intro admin service made moved
  have hs : Canonical "/a" := canonical_iff.2 (by decide)
  have ht : Canonical "/" := canonical_iff.2 (by decide)
  have hpath : Canonical "/a/a/x" := canonical_iff.2 (by decide)
  have hrebased : rebase "/a/a/x" "/a" "/" = some "/a/x" := by decide
  obtain ⟨-, hmoved, -, haway, hmove⟩ := rebase_exchanges_subtrees hs ht
  obtain ⟨hmem, hback, -⟩ := hmoved _ _ hpath hrebased
  obtain ⟨-, hbelow⟩ := haway (by decide) (by decide) _ _ hpath hrebased
  have hstart : service.Evolves (· = service.store) _ [] (Drive.fresh Tree.empty .epoch) := .start
  have hmade := hstart.next rfl admin (.create ⟨"/a/a/x", "", false, ⟨0, "", .empty⟩⟩)
  obtain ⟨report, hreport, rfl⟩ : ∃ report, moved.1 = .ok report ∧ report = ⟨["/a/x"], []⟩ :=
    of_toOption_map (f := id) (by decide +kernel)
  have hends : (service.movePath admin "/a" "/" none).on made.2 = (.ok _, moved.2) :=
    Prod.ext hreport rfl
  exact ⟨hrebased, hmem, hback, hbelow, hreport,
    hmove hmade (by decide) (by decide) hends (by decide +kernel)⟩

end Path

end FileDrive
