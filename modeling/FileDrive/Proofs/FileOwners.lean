import FileDrive.Proofs.FileLives

/-!
# Owners are for life

Whoever creates a file owns it until it is deleted, whatever others do to it on the way: each of the
changes of a row keeps its owner and the time of its creation, and puts a later time of change. That
it is later is read back from the texts of the times, which is what asks for years of four digits.
To guests it does not matter who owns a file.
-/

namespace FileDrive

open FileDrive.Time

/-! ## Rows with their times -/

/-- A row has the texts of a time of creation, not before the first time there is, and of one of the
last change, the latest by now. -/
structure FileRow.Dated (first now created changed : Timestamp) (row : FileRow) : Prop where
  createdAt : row.createdAt = created.stored
  updatedAt : row.updatedAt = changed.stored
  since : first.Precedes created
  ordered : created.Precedes changed
  past : changed.Precedes now

namespace FileRow

variable {first now next created changed : Timestamp} {row after : FileRow}

theorem Dated.later (h : row.Dated first now created changed) (hlater : now.Precedes next) :
    row.Dated first next created changed :=
  ⟨h.createdAt, h.updatedAt, h.since, h.ordered, h.past.trans hlater⟩

theorem Begun.dated {owner : String} {file : File} (h : row.Begun now owner file)
    (hnow : first.Precedes now) : row.Dated first now now now :=
  ⟨h.created, h.updated, hnow, .refl now, .refl now⟩

theorem Dated.revised (h : row.Dated first now created changed) (hlater : now.Precedes next)
    (hrevised : row.Revised next after) : after.Dated first next created next :=
  ⟨hrevised.created.trans h.createdAt, hrevised.updated, h.since,
    (h.ordered.trans h.past).trans hlater, .refl next⟩

/-- In years of four digits the times are read back to the microsecond. -/
theorem Dated.read (h : row.Dated first now created changed) (hfirst : first.OnClock)
    (hyears : now.year ≤ 9999) :
    Timestamp.ofStored row.createdAt = created.truncated ∧
      Timestamp.ofStored row.updatedAt = changed.truncated := by
  have hchanged : changed.year ≤ 9999 :=
    (Timestamp.year_mono (Timestamp.seconds_le h.past.le)).trans hyears
  have hcreated : created.year ≤ 9999 :=
    (Timestamp.year_mono (Timestamp.seconds_le h.ordered.le)).trans hchanged
  have hclock : created.OnClock := hfirst.precedes h.since
  constructor
  · rw [h.createdAt]
    exact Timestamp.ofStored_stored (hclock.storable hcreated)
  · rw [h.updatedAt]
    exact Timestamp.ofStored_stored ((hclock.precedes h.ordered).storable hchanged)

end FileRow

/-- How a file began: who had it created, and what creating it was answered with. -/
structure Birth where
  maker : Identity
  made : File

/-- The files after a history, each by how it began. -/
def births (history : List Event) : String → Option Birth :=
  history.foldl (Event.trace Birth.mk id) fun _ => none

/-- A row belongs to the maker of its file, and has the time at which this was made. -/
structure Birth.Kept (first now : Timestamp) (birth : Birth) (row : FileRow) : Prop where
  owner : row.ownerId = birth.maker.subject
  created : Timestamp.ofStored row.createdAt = birth.made.createdAt
  dated : ∃ created changed, row.Dated first now created changed

theorem lasting_births (first : Timestamp) : Lasting first (Birth.Kept first) Birth.mk id where
  later hclock h := by
    obtain ⟨created, changed, hdated⟩ := h.dated
    exact ⟨h.owner, h.created, created, changed, hdated.later hclock⟩
  begun hnow hbegun := ⟨hbegun.owner, hbegun.answered.symm, _, _, hbegun.dated hnow⟩
  revised hticks hrevised h := by
    obtain ⟨created, changed, hdated⟩ := h.dated
    refine ⟨hrevised.owner.trans h.owner, ?_, created, _,
      hdated.revised hticks.toPrecedes hrevised⟩
    rw [hrevised.created]
    exact h.created

/-- A file that has been there for a while: its row at the time, and how often it has been changed
since. -/
structure Since where
  row : FileRow
  changes : Nat
  deriving DecidableEq

/-- Files followed through later events; nothing is known of those that have been made since. -/
def followed (rows : String → Option FileRow) (events : List Event) :
    String → Option (Option Since) :=
  events.foldl (Event.trace (fun _ _ => none) (Option.map fun known =>
    { known with changes := known.changes + 1 })) fun path =>
      (rows path).map fun row => some ⟨row, 0⟩

/-- A row has kept its owner and the time of its creation, and all else when it has not been
changed. When it has, the time of its last change is later. -/
structure Since.Kept (first now : Timestamp) (known : Since) (row : FileRow) : Prop where
  owner : row.ownerId = known.row.ownerId
  created : row.createdAt = known.row.createdAt
  same : known.changes = 0 → row = known.row
  dated : ∃ created before changed, known.row.Dated first now created before ∧
    row.Dated first now created changed ∧ (0 < known.changes → before.truncated < changed.truncated)

theorem Since.Kept.later {first now later : Timestamp} {known : Since} {row : FileRow}
    (h : known.Kept first now row) (hclock : now.Precedes later) : known.Kept first later row := by
  obtain ⟨created, before, changed, hbefore, hdated, hlt⟩ := h.dated
  exact ⟨h.owner, h.created, h.same, created, before, changed, hbefore.later hclock,
    hdated.later hclock, hlt⟩

theorem Since.Kept.revised {first now later : Timestamp} {known : Since} {row after : FileRow}
    (h : known.Kept first now row) (hticks : now.Ticks later) (hrevised : row.Revised later after) :
    Since.Kept first later { known with changes := known.changes + 1 } after := by
  obtain ⟨created, before, changed, hbefore, hdated, hlt⟩ := h.dated
  refine ⟨hrevised.owner.trans h.owner, hrevised.created.trans h.created, ?_, created, before,
    later, hbefore.later hticks.toPrecedes, hdated.revised hticks.toPrecedes hrevised, ?_⟩
  · intro hnone
    exact absurd hnone (Nat.succ_ne_zero _)
  · intro _
    exact Timestamp.lt_of_le_of_lt (Timestamp.truncated_le hbefore.past.le) hticks.truncated

theorem lasting_since (first : Timestamp) :
    Lasting first (fun now (known : Option Since) row => ∀ since ∈ known, since.Kept first now row)
      (fun _ _ => none) (Option.map fun known => { known with changes := known.changes + 1 }) where
  later hclock h since hsince := (h since hsince).later hclock
  begun _ _ since hsince := by cases hsince
  revised hticks hrevised h since hsince := by
    obtain ⟨known, hknown, rfl⟩ := Option.map_eq_some_iff.1 hsince
    exact (h known hknown).revised hticks hrevised

/-! ## Guests -/

/-- To guests it does not matter who owns a file. -/
theorem Resolver.resolve_of_guest {resolver : Resolver} {identity : Identity} {path : String}
    {records : List PermissionRecord} (h : identity.isGuest = true) (owner : Option String) :
    resolver.resolve path identity owner records = resolver.resolve path identity none records := by
  have hnot : owner.any identity.owns = false := by
    cases owner with
    | none => rfl
    | some subject => simp [Identity.owns, h]
  unfold resolve
  rw [hnot]
  rfl

/-! ## Runs -/

namespace Service

variable {σ : Type} {service : Service σ} {objects : σ} {clock : Timestamp}
  {history more : List Event} {drive after : Drive σ}

theorem Lasts.traced_births (h : service.Lasts (Drive.fresh objects clock) history drive) :
    Traced clock (Birth.Kept clock) (births history) drive := by
  apply h.traced (lasting_births clock) ordered_empty
  refine ⟨.refl clock, ?_⟩
  show Known _ _ Database.empty.rowAt
  rw [Database.rowAt_empty]
  exact .none

theorem Lasts.traced_since (h : service.Lasts drive more after) (hordered : Ordered drive.db)
    {files : String → Option Birth} (ht : Traced clock (Birth.Kept clock) files drive) :
    Traced clock (fun now (known : Option Since) row => ∀ since ∈ known, since.Kept clock now row)
      (followed drive.db.rowAt more) after := by
  apply h.traced (lasting_since clock) hordered
  refine ⟨ht.clock, fun path => ?_⟩
  cases hrow : drive.db.rowAt path with
  | none => exact .none
  | some row =>
    obtain ⟨birth, -, hkept⟩ := ht.known.of_row hrow
    obtain ⟨created, changed, hdated⟩ := hkept.dated
    refine .some fun known hknown => ?_
    obtain rfl := Option.some.inj hknown
    refine ⟨rfl, rfl, fun _ => rfl, created, changed, changed, hdated, hdated, ?_⟩
    intro hchanges
    exact absurd hchanges (lt_irrefl 0)

/-- In every state of a drive each file belongs to whoever created it and has the time of its
creation; and from there on it keeps its owner and this time wherever it goes, and is as before when
it has not been changed. As long as the clock shows years of four digits, it has been changed no
earlier than created, and later each time that it was. What a guest holds does not come from owning
anything. -/
theorem Lasts.owner_for_life (h : service.Lasts (Drive.fresh objects clock) history drive)
    (k : service.Lasts drive more after) :
    Known (fun birth row => row.ownerId = birth.maker.subject ∧
        Timestamp.ofStored row.createdAt = birth.made.createdAt ∧
        (clock.OnClock → drive.clock.year ≤ 9999 →
          Timestamp.ofStored row.createdAt ≤ Timestamp.ofStored row.updatedAt))
      (births history) drive.db.rowAt ∧
    Known (fun known row => ∀ since ∈ known, row.ownerId = since.row.ownerId ∧
        row.createdAt = since.row.createdAt ∧ (since.changes = 0 → row = since.row) ∧
        (clock.OnClock → after.clock.year ≤ 9999 → 0 < since.changes →
          Timestamp.ofStored since.row.updatedAt < Timestamp.ofStored row.updatedAt))
      (followed drive.db.rowAt more) after.db.rowAt ∧
    ∃ records, drive.db.allRecords = .ok records ∧ ∀ identity, identity.isGuest = true →
      (∀ path, service.resolver.onPath drive.db path identity =
        .ok (service.resolver.resolve path identity none records)) ∧
      ∀ files, service.resolver.onFiles drive.db files identity = .ok (files.map fun file =>
        (file, service.resolver.resolve file.path identity none records)) := by
  have hordered : Ordered drive.db := h.ordered ordered_empty
  have hbirths := h.traced_births
  have hsince := k.traced_since hordered hbirths
  refine ⟨?_, ?_, ?_⟩
  · apply hbirths.known.mono
    intro birth row hkept
    refine ⟨hkept.owner, hkept.created, fun hclock hyears => ?_⟩
    obtain ⟨created, changed, hdated⟩ := hkept.dated
    rw [(hdated.read hclock hyears).1, (hdated.read hclock hyears).2]
    exact Timestamp.truncated_le hdated.ordered.le
  · apply hsince.known.mono
    intro known row hkept since hmem
    obtain ⟨created, before, changed, hbefore, hdated, hlt⟩ := (hkept since hmem).dated
    refine ⟨(hkept since hmem).owner, (hkept since hmem).created, (hkept since hmem).same, ?_⟩
    intro hclock hyears hchanges
    rw [(hbefore.read hclock hyears).2, (hdated.read hclock hyears).2]
    exact hlt hchanges
  · obtain ⟨rows, -, hrows, -⟩ := hordered.tables
    obtain ⟨records, hrecords⟩ := hordered.records
    refine ⟨records, hrecords, fun identity hguest => ⟨fun path => ?_, fun files => ?_⟩⟩
    · rw [Resolver.onPath_eq_resolve hrows hrecords, Resolver.resolve_of_guest hguest]
    · rw [Resolver.onFiles_eq_resolve hrecords]
      simp only [Resolver.resolve_of_guest hguest]

/-- Bob overwrites a file that Ann has created and moves it away, after he has tried in vain to move
it to where it is. -/
theorem owner_for_life_of_overwritten_file :
    let ann : Identity := ⟨"ann", "ann", ["admins"], "", "", false⟩
    let bob : Identity := ⟨"bob", "bob", ["admins"], "", "", false⟩
    let service : Service Tree := ⟨Directory.store, .enforcing "admins", 3, toString, fun _ => none⟩
    let creation : Request := .create ⟨"/a/f", "", false, ⟨1, "text/plain", ⟨⟨#[1]⟩, none⟩⟩⟩
    let overwrite : Request := .create ⟨"/a/f", "", true, ⟨2, "text/plain", ⟨⟨#[2, 3]⟩, none⟩⟩⟩
    let created := (service.serve ann creation).on (Drive.fresh Tree.empty .epoch)
    let overwritten := (service.serve bob overwrite).on created.2
    let refused := (service.serve bob (.move "/a" "/a" none)).on overwritten.2
    let moved := (service.serve bob (.move "/a" "/b" none)).on refused.2
    let more : List Event :=
      [⟨bob, overwrite, overwritten.1⟩, ⟨bob, .move "/a" "/a" none, refused.1⟩,
        ⟨bob, .move "/a" "/b" none, moved.1⟩]
    Timestamp.epoch.OnClock ∧ moved.2.clock.year ≤ 9999 ∧ refused.1.isOk = false ∧
      ∃ row new since, created.2.db.rowAt "/a/f" = some row ∧ row.ownerId = "ann" ∧
        moved.2.db.rowAt "/b/f" = some new ∧ new.ownerId = "ann" ∧
        followed created.2.db.rowAt more "/b/f" = some (some since) ∧ since.row = row ∧
        since.changes = 2 ∧
        Timestamp.ofStored row.updatedAt < Timestamp.ofStored new.updatedAt := by
  intro ann bob service creation overwrite created overwritten refused moved more
  have hstart : service.Lasts (Drive.fresh Tree.empty .epoch) [] _ := .start
  have hcreated := hstart.next Directory.store ann creation
  have hagain : service.Lasts created.2 [] created.2 := .start
  have hmoved := ((hagain.next Directory.store bob overwrite).next Directory.store bob
    (.move "/a" "/a" none)).next Directory.store bob (.move "/a" "/b" none)
  have hclock : Timestamp.epoch.OnClock := ⟨by decide, by decide⟩
  have hyears : moved.2.clock.year ≤ 9999 := by decide +kernel
  have hthere : (created.2.db.rowAt "/a/f").map (·.ownerId) = some "ann" := by decide +kernel
  have hnow : (moved.2.db.rowAt "/b/f").isSome = true := by decide +kernel
  have hfollowed : followed created.2.db.rowAt more "/b/f" =
      (created.2.db.rowAt "/a/f").map fun row => some ⟨row, 2⟩ := by decide +kernel
  obtain ⟨row, hrow, howner⟩ := Option.map_eq_some_iff.1 hthere
  obtain ⟨new, hnew⟩ := Option.isSome_iff_exists.1 hnow
  obtain ⟨-, hsince, -⟩ := hcreated.owner_for_life hmoved
  rw [hrow, Option.map_some] at hfollowed
  obtain ⟨known, hknown, hkept⟩ := hsince.of_row hnew
  obtain rfl := Option.some.inj (hfollowed.symm.trans hknown)
  obtain ⟨hsame, -, -, hlater⟩ := hkept _ rfl
  exact ⟨hclock, hyears, by decide +kernel, row, new, ⟨row, 2⟩, hrow, howner, hnew,
    hsame.trans howner, hfollowed, rfl, rfl, hlater hclock hyears (Nat.succ_pos 1)⟩

/-- Where a year has not four digits, the times of a file are not read back. A file that is changed
in the year 10000 has then been changed before it was created, and one that is changed in the year
-1 has not been changed any later than before. -/
theorem changed_beyond_four_digits :
    let ann : Identity := ⟨"ann", "ann", ["admins"], "", "", false⟩
    let service : Service Tree := ⟨Directory.store, .enforcing "admins", 3, toString, fun _ => none⟩
    let creation : Request := .create ⟨"/f", "", false, ⟨1, "text/plain", ⟨⟨#[1]⟩, none⟩⟩⟩
    let edit : Request := .update "/f" ⟨none, some "later", none⟩
    let created (clock : Timestamp) :=
      (service.serve ann creation).on (Drive.fresh Tree.empty clock)
    let edited (clock : Timestamp) := (service.serve ann edit).on (created clock).2
    let history (clock : Timestamp) : List Event :=
      [⟨ann, creation, (created clock).1⟩, ⟨ann, edit, (edited clock).1⟩]
    let late : Timestamp := ⟨253402300799, 999998000⟩
    let early : Timestamp := ⟨-62167219201, 0⟩
    (service.Lasts (Drive.fresh Tree.empty late) (history late) (edited late).2 ∧
      (created late).2.clock < (edited late).2.clock ∧ (edited late).1.isOk = true ∧
      ∃ row, (edited late).2.db.rowAt "/f" = some row ∧
        Timestamp.ofStored row.updatedAt < Timestamp.ofStored row.createdAt) ∧
    service.Lasts (Drive.fresh Tree.empty early) (history early) (edited early).2 ∧
      (created early).2.clock < (edited early).2.clock ∧ (edited early).1.isOk = true ∧
      ∃ old new, (created early).2.db.rowAt "/f" = some old ∧
        (edited early).2.db.rowAt "/f" = some new ∧
        Timestamp.ofStored new.updatedAt = Timestamp.ofStored old.updatedAt := by
  intro ann service creation edit created edited history late early
  have hlasts : ∀ clock, service.Lasts (Drive.fresh Tree.empty clock) (history clock)
      (edited clock).2 := by
    intro clock
    have hstart : service.Lasts (Drive.fresh Tree.empty clock) [] _ := .start
    exact (hstart.next Directory.store ann creation).next Directory.store ann edit
  have hlate : ((edited late).2.db.rowAt "/f").map (fun row =>
      (Timestamp.ofStored row.createdAt, Timestamp.ofStored row.updatedAt)) =
        some (⟨253402300799, 999999000⟩, .epoch) := by decide +kernel
  have hold : ((created early).2.db.rowAt "/f").map (Timestamp.ofStored ·.updatedAt) =
      some .epoch := by decide +kernel
  have hnew : ((edited early).2.db.rowAt "/f").map (Timestamp.ofStored ·.updatedAt) =
      some .epoch := by decide +kernel
  obtain ⟨row, hrow, htimes⟩ := Option.map_eq_some_iff.1 hlate
  obtain ⟨hcreated, hupdated⟩ := Prod.mk.inj htimes
  obtain ⟨old, hold, hepoch⟩ := Option.map_eq_some_iff.1 hold
  obtain ⟨new, hnew, hepoch'⟩ := Option.map_eq_some_iff.1 hnew
  refine ⟨⟨hlasts late, by decide +kernel, by decide +kernel, row, hrow, ?_⟩, hlasts early,
    by decide +kernel, by decide +kernel, old, new, hold, hnew, hepoch'.trans hepoch.symm⟩
  rw [hcreated, hupdated]
  decide

end Service

end FileDrive
