import FileDrive.Proofs.Logins
import FileDrive.Proofs.StoredTimes

/-!
# The clock goes on

Whatever is done with a drive, its clock is not set back (`DriveM.Advances`): the time is asked for
and nothing else is done with it. The rules follow what an action is made of, so that each request
and each call needs no more than a look at its parts.
-/

namespace FileDrive

namespace Time.Timestamp

variable {t u v : Timestamp}

theorem le_trans (h : t ≤ u) (k : u ≤ v) : t ≤ v := by
  change ¬(u.seconds < t.seconds ∨ u.seconds = t.seconds ∧ u.nanos < t.nanos) at h
  change ¬(v.seconds < u.seconds ∨ v.seconds = u.seconds ∧ v.nanos < u.nanos) at k
  show ¬(v.seconds < t.seconds ∨ v.seconds = t.seconds ∧ v.nanos < t.nanos)
  omega

theorem lt_of_le_of_lt (h : t ≤ u) (k : u < v) : t < v := by
  change ¬(u.seconds < t.seconds ∨ u.seconds = t.seconds ∧ u.nanos < t.nanos) at h
  change u.seconds < v.seconds ∨ u.seconds = v.seconds ∧ u.nanos < v.nanos at k
  show t.seconds < v.seconds ∨ t.seconds = v.seconds ∧ t.nanos < v.nanos
  omega

theorem seconds_le (h : t ≤ u) : t.seconds ≤ u.seconds := by
  change ¬(u.seconds < t.seconds ∨ u.seconds = t.seconds ∧ u.nanos < t.nanos) at h
  omega

/-- A clock that shows one time may show another one afterwards. -/
structure Precedes (t u : Timestamp) : Prop where
  nanos : t.nanos < nanosPerSecond → u.nanos < nanosPerSecond
  le : t ≤ u

theorem Precedes.refl (t : Timestamp) : t.Precedes t := ⟨id, lt_irrefl t⟩

theorem Precedes.trans (h : t.Precedes u) (k : u.Precedes v) : t.Precedes v :=
  ⟨k.nanos ∘ h.nanos, le_trans h.le k.le⟩

/-- A clock that shows one time may show another one afterwards, which is stored as a later one. -/
structure Ticks (t u : Timestamp) : Prop extends t.Precedes u where
  truncated : t.truncated < u.truncated

theorem Ticks.next (t : Timestamp) : t.Ticks t.next := by
  have hnanos : t.nanos < nanosPerSecond → t.next.nanos < nanosPerSecond := by
    unfold Timestamp.next nanosPerSecond
    intro h
    split <;> dsimp only <;> omega
  have hle : t ≤ t.next := fun h => lt_irrefl t (lt_trans (lt_next t) h)
  refine ⟨⟨hnanos, hle⟩, ?_⟩
  unfold Timestamp.next nanosPerSecond
  split
  · right
    constructor
    · rfl
    · show t.nanos / 1000 * 1000 < (t.nanos + 1000) / 1000 * 1000
      omega
  · left
    show t.seconds < t.seconds + 1
    omega

theorem Precedes.next (t : Timestamp) : t.Precedes t.next := (Ticks.next t).toPrecedes

theorem truncated_le (h : t ≤ u) : t.truncated ≤ u.truncated := by
  change ¬(u.seconds < t.seconds ∨ u.seconds = t.seconds ∧ u.nanos < t.nanos) at h
  show ¬(u.seconds < t.seconds ∨
    u.seconds = t.seconds ∧ u.nanos / 1000 * 1000 < t.nanos / 1000 * 1000)
  omega

theorem OnClock.precedes (h : t.OnClock) (k : t.Precedes u) : u.OnClock :=
  ⟨k.nanos h.nanos, Int.le_trans h.year (year_mono (seconds_le k.le))⟩

end Time.Timestamp

namespace DriveM

open FileDrive.Time

variable {σ α β : Type} {action : DriveM σ α} {next : α → DriveM σ β}

/-- An action does not set the clock back. -/
def Advances (action : DriveM σ α) : Prop :=
  ∀ drive, action.Ends drive fun _ after => drive.clock.Precedes after.clock

namespace Advances

theorem pure (value : α) : Advances (pure value : DriveM σ α) := fun drive => .refl drive.clock

theorem throw (e : DriveError) : Advances (MonadExcept.throw e : DriveM σ α) := fun drive =>
  .refl drive.clock

theorem lift (result : Except DriveError α) : Advances (liftM result : DriveM σ α) := fun drive =>
  .refl drive.clock

theorem get : Advances (MonadState.get : DriveM σ (Drive σ)) := fun drive => .refl drive.clock

theorem now : Advances (DriveM.now : DriveM σ Timestamp) := by
  intro drive
  unfold Ends
  rw [on_now]
  dsimp only
  exact Timestamp.Precedes.next drive.clock

theorem draw (supply : Nat → String) : Advances (DriveM.draw supply : DriveM σ String) :=
  fun drive => .refl drive.clock

theorem commit (db : Database) : Advances (DriveM.commit db : DriveM σ Unit) := fun drive =>
  .refl drive.clock

theorem query (ask : Database → Except DriveError α) :
    Advances (DriveM.query ask : DriveM σ α) := fun drive => Ends.query (.refl drive.clock)

theorem object (call : σ → Except StorageError α × σ) : Advances (DriveM.object call) :=
  fun drive => Ends.object (fun _ _ _ => .refl drive.clock) fun _ _ _ => .refl drive.clock

theorem attempt (h : Advances action) : Advances (DriveM.attempt action) := h

theorem bind (h : Advances action) (k : ∀ value, Advances (next value)) :
    Advances (action >>= next) := by
  intro drive
  refine Ends.bind ((h drive).mono fun result mid hmid => ?_)
  cases result with
  | error e => exact hmid
  | ok value => exact (k value mid).mono fun _ after hafter => hmid.trans hafter

theorem map {f : α → β} (h : Advances action) : Advances (f <$> action) := fun drive =>
  Ends.map (h drive)

theorem change (prepare : Database → Except DriveError Database) :
    Advances (DriveM.change prepare : DriveM σ Unit) := (query prepare).bind commit

theorem ite {c : Prop} [Decidable c] {yes no : DriveM σ α} (hyes : Advances yes)
    (hno : Advances no) : Advances (if c then yes else no) := by
  by_cases h : c
  · rwa [if_pos h]
  · rwa [if_neg h]

/-- A check in front of what follows. -/
theorem guard {c : Prop} [Decidable c] {e : DriveError} {next : Unit → DriveM σ β}
    (h : Advances (next ())) :
    Advances (if c then MonadExcept.throw e >>= next else next ()) := by
  apply ite
  · exact fun drive => Ends.throw_bind (.refl drive.clock)
  · exact h

end Advances

end DriveM

/-! ## Requests -/

namespace Service

open FileDrive.DriveM FileDrive.Time

variable {σ : Type} (service : Service σ) (identity : Identity)

theorem authorize_advances (needed : Capability) (path : String) :
    Advances (service.authorize identity needed path) :=
  (Advances.query _).bind fun _ => .lift _

theorem openFile_advances (file : File) (header : Option String) :
    Advances (service.openFile file header) := by
  unfold openFile
  split
  · exact .throw _
  · exact (Advances.object _).bind fun _ => .pure _

theorem download_advances (path : String) (header : Option String) :
    Advances (service.download identity path header) := by
  unfold download
  apply (Advances.lift _).bind
  intro path
  apply (service.authorize_advances identity _ _).bind
  intro _
  apply (Advances.query _).bind
  intro file
  exact service.openFile_advances file header

theorem list_advances (path : String) : Advances (service.list identity path) := by
  unfold list
  apply (Advances.query _).bind
  intro files
  apply Advances.ite
  · apply (service.authorize_advances identity _ _).bind
    intro _
    exact (Advances.throw _).bind fun _ => (Advances.query _).bind fun _ => .guard (.pure _)
  · apply (Advances.query _).bind
    intro permitted
    exact .guard (.pure _)

theorem create_advances (request : CreateRequest) :
    Advances (service.create identity request) := by
  unfold create
  apply (Advances.lift _).bind
  intro path
  apply (Advances.lift _).bind
  intro _
  apply (Advances.query _).bind
  intro _
  apply (Advances.query _).bind
  intro found
  apply (service.authorize_advances identity _ _).bind
  intro _
  apply Advances.now.bind
  intro now
  apply (Advances.query _).bind
  intro prepared
  apply (Advances.object _).bind
  intro _
  exact (Advances.commit _).bind fun _ => .pure _

theorem replaceContent_advances (path newPath : String) (upload : Upload) (contentType : String) :
    Advances (service.replaceContent path newPath upload contentType) := by
  unfold replaceContent
  apply (Advances.object _).bind
  intro _
  apply Advances.ite
  · apply (Advances.object _).attempt.bind
    intro deleted
    split
    · exact (Advances.object _).attempt.map.bind fun _ => .throw _
    · exact .pure _
  · exact .pure _

theorem target_advances {α : Type} {request : UpdateRequest} {path : String}
    {next : String → DriveM σ α} (h : ∀ newPath, Advances (next newPath)) :
    Advances (match request.newPath with
      | some newPath => (liftM (filePath newPath) : DriveM σ String) >>= next
      | none => (pure path : DriveM σ String) >>= next) := by
  cases request.newPath with
  | none => exact (Advances.pure _).bind h
  | some newPath => exact (Advances.lift _).bind h

theorem placed_advances {α : Type} {path newPath : String} {next : Unit → DriveM σ α}
    (h : Advances (next ())) :
    Advances (if newPath ≠ path then do
      DriveM.query (checkPlacement newPath)
      let passed ← service.authorize identity .create newPath
      next passed
    else next ()) := by
  apply Advances.ite
  · apply (Advances.query _).bind
    intro _
    exact (service.authorize_advances identity _ _).bind fun _ => h
  · exact h

theorem carry_advances {α : Type} {path newPath contentType : String} {content : Option Upload}
    {next : Unit → DriveM σ α} (h : Advances (next ())) :
    Advances (match content with
      | some upload => service.replaceContent path newPath upload contentType >>= next
      | none =>
        if newPath ≠ path then do
          let moved ← DriveM.object (service.store.move path newPath)
          next moved
        else next ()) := by
  cases content with
  | none => exact Advances.ite ((Advances.object _).bind fun _ => h) h
  | some upload => exact (service.replaceContent_advances _ _ _ _).bind fun _ => h

theorem update_advances (path : String) (request : UpdateRequest) :
    Advances (service.update identity path request) := by
  unfold update
  apply (Advances.lift _).bind
  intro path
  apply (Advances.query _).bind
  intro existing
  apply (service.authorize_advances identity _ _).bind
  intro _
  apply target_advances
  intro newPath
  apply service.placed_advances identity
  apply (Advances.lift _).bind
  intro content
  apply Advances.now.bind
  intro now
  apply (Advances.query _).bind
  intro prepared
  apply service.carry_advances
  exact (Advances.commit _).bind fun _ => .query _

theorem relocate_advances (source target : String) :
    Advances (service.relocate source target) := by
  unfold relocate
  apply Advances.now.bind
  intro now
  apply (Advances.query _).bind
  intro prepared
  exact (Advances.object _).bind fun _ => .commit _

theorem moveOne_advances (source target : String) :
    Advances (service.moveOne identity source target) := by
  unfold moveOne
  apply (service.authorize_advances identity _ _).bind
  intro _
  apply (Advances.query _).bind
  intro _
  apply (service.authorize_advances identity _ _).bind
  intro _
  exact service.relocate_advances source target

theorem moveItem_advances (item : MoveItem) : Advances (service.moveItem item) := by
  unfold moveItem
  apply (Advances.lift _).bind
  intro _
  apply (Advances.lift _).bind
  intro _
  apply (Advances.query _).bind
  intro _
  exact service.relocate_advances item.source item.target

theorem each_advances {α : Type} {act : α → DriveM σ Unit} {path result : α → String}
    (h : ∀ item, Advances (act item)) (items : List α) : Advances (each act path result items) := by
  induction items with
  | nil => exact .pure _
  | cons item rest ih =>
    unfold each
    apply (h item).attempt.bind
    intro outcome
    apply ih.bind
    intro report
    cases outcome with
    | ok _ => exact .pure _
    | error e => exact .pure _

theorem movePath_advances (source target : String) (names : Option (List String)) :
    Advances (service.movePath identity source target names) := by
  unfold movePath
  apply Advances.guard
  apply (Advances.query _).bind
  intro found
  apply Advances.ite
  · apply (Advances.lift _).bind
    intro target
    exact (service.moveOne_advances identity _ _).bind fun _ => .pure _
  · apply Advances.guard
    apply (Advances.query _).bind
    intro sources
    apply (Advances.query _).bind
    intro targets
    exact each_advances service.moveItem_advances _

theorem remove_advances (path : String) : Advances (service.remove path) := by
  unfold remove
  apply (Advances.query _).bind
  intro prepared
  apply (Advances.object _).attempt.bind
  intro deleted
  split
  · exact .commit _
  · exact .commit _
  · exact .throw _

theorem deletePath_advances (path : String) (names : Option (List String)) :
    Advances (service.deletePath identity path names) := by
  unfold deletePath
  apply Advances.guard
  apply (Advances.query _).bind
  intro found
  apply Advances.ite
  · apply (service.authorize_advances identity _ _).bind
    intro _
    exact (service.remove_advances _).bind fun _ => .pure _
  · apply Advances.guard
    apply (Advances.query _).bind
    intro permitted
    apply each_advances
    intro item
    exact (Advances.lift _).bind fun _ => service.remove_advances _

theorem issueShare_advances (path : String) (permissions : Permissions) (issuer : String)
    (attempts : Nat) : Advances (service.issueShare path permissions issuer attempts) := by
  induction attempts with
  | zero => exact .throw _
  | succ attempts ih =>
    unfold issueShare
    apply (Advances.draw _).bind
    intro id
    apply Advances.now.bind
    intro now
    apply Advances.get.bind
    intro drive
    split
    · exact (Advances.commit _).bind fun _ => .pure _
    · exact ih
    · exact .throw _

theorem createShare_advances (path : String) (permissions : Permissions) :
    Advances (service.createShare identity path permissions) := by
  unfold createShare
  apply Advances.guard
  apply Advances.guard
  apply (Advances.query _).bind
  intro held
  apply (Advances.lift _).bind
  intro _
  dsimp only
  split
  · exact (Advances.throw _).bind fun _ =>
      (Advances.query _).bind fun _ => .guard (service.issueShare_advances _ _ _ _)
  · apply (Advances.query _).bind
    intro files
    exact .guard (service.issueShare_advances _ _ _ _)

theorem openShare_advances (id : String) : Advances (openShare id : DriveM σ SharedFiles) := by
  unfold openShare
  apply (Advances.query _).bind
  intro share
  apply Advances.ite
  · exact (Advances.query _).bind fun _ => .pure _
  · exact (Advances.pure _).bind fun _ => .pure _

theorem downloadShared_advances (id path : String) (header : Option String) :
    Advances (service.downloadShared id path header) := by
  unfold downloadShared
  apply (Advances.query _).bind
  intro share
  apply (Advances.lift _).bind
  intro _
  apply Advances.guard
  apply (Advances.query _).bind
  intro file
  exact service.openFile_advances file header

theorem deleteShare_advances (id : String) : Advances (service.deleteShare identity id) := by
  unfold deleteShare
  apply (Advances.query _).bind
  intro share
  exact .guard (.change _)

theorem setPermissions_advances (path : String) (records : List PermissionRecord) :
    Advances (service.setPermissions identity path records) := by
  unfold setPermissions
  apply (service.authorize_advances identity _ _).bind
  intro _
  exact (Advances.change _).bind fun _ => .query _

theorem serve_advances (request : Request) : Advances (service.serve identity request) := by
  cases request with
  | effective path =>
    exact Advances.map (Advances.query _ : Advances (service.effectivePermissions identity path))
  | list path => exact (service.list_advances identity path).map
  | download path header => exact (service.download_advances identity path header).map
  | create request => exact (service.create_advances identity request).map
  | update path request => exact (service.update_advances identity path request).map
  | move source target names => exact (service.movePath_advances identity source target names).map
  | delete path names => exact (service.deletePath_advances identity path names).map
  | recordsAt path =>
    exact ((service.authorize_advances identity _ _).bind fun _ => .query _).map
  | setRecords path records => exact (service.setPermissions_advances identity path records).map
  | createShare path permissions =>
    exact (service.createShare_advances identity path permissions).map
  | openShare id => exact (openShare_advances id).map
  | downloadShared id path header => exact (service.downloadShared_advances id path header).map
  | deleteShare id => exact (service.deleteShare_advances identity id).map
  | listShares => exact (Advances.query _).map

end Service

/-! ## Calls about sessions -/

namespace Login

open FileDrive.DriveM FileDrive.Time

variable {σ : Type} (login : Login)

theorem expiry_advances : Advances (login.expiry : DriveM σ Timestamp) := by
  unfold expiry
  apply Advances.guard
  apply Advances.now.bind
  intro now
  split
  · exact .pure _
  · exact .throw _

theorem start_advances (user : User) (tokens : ProviderTokens) :
    Advances (login.start user tokens : DriveM σ Session) := by
  unfold start
  apply login.expiry_advances.bind
  intro expiry
  apply (Advances.change _).bind
  intro _
  apply (Advances.draw _).bind
  intro id
  apply (Advances.query _).bind
  intro found
  exact (Advances.commit _).bind fun _ => .pure _

theorem identity_advances (id : String) : Advances (identity id : DriveM σ Identity) := by
  unfold identity
  apply (Advances.query _).bind
  intro session
  apply Advances.now.bind
  intro now
  have hfinished : ∀ e : DriveError, Advances (do finish id; throw e : DriveM σ Identity) :=
    fun e => (Advances.change _).bind fun _ => .throw e
  apply Advances.ite
  · exact hfinished _
  · apply Advances.get.bind
    intro drive
    split
    · exact .pure _
    · exact hfinished _
    · exact .throw _

theorem purge_advances : Advances (purge : DriveM σ Nat) := by
  unfold purge
  apply Advances.now.bind
  intro now
  apply (Advances.query _).bind
  intro found
  exact (Advances.commit _).bind fun _ => .pure _

theorem serve_advances (call : LoginCall) : Advances (login.serve call : DriveM σ LoginReply) := by
  cases call with
  | start user tokens => exact (login.start_advances user tokens).map
  | identity id => exact (identity_advances id).map
  | finish id => exact (Advances.change _).map
  | purge => exact purge_advances.map

end Login

end FileDrive
