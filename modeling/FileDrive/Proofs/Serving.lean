import FileDrive.Proofs.BatchOutcomes

/-!
# What requests come to, all of them

Records and shares concern the metadata only. With them every request has been accounted for, and
`Served` puts the cases together: what holds of all requests is proved by going through them.
-/

namespace FileDrive.Service

open FileDrive.DriveM FileDrive.Time

variable {σ : Type} {service : Service σ} {identity : Identity} {drive : Drive σ}

/-! ## Reading -/

/-- What reading comes to: the metadata stay, and the store may be asked for an object. -/
inductive Looked (service : Service σ) (drive : Drive σ) : Drive σ → Prop where
  | unasked : Looked service drive drive
  | asked {path : String} {range : Option ByteRange} {result : Except StorageError ByteStream}
      {objects : σ} (get : service.store.get path range drive.objects = (result, objects)) :
      Looked service drive { drive with objects }

/-- What opening a file comes to: the download is of that file. -/
theorem openFile_ends (file : File) (rangeHeader : Option String) :
    (service.openFile file rangeHeader).Ends drive fun result after =>
      (∀ download, result = .ok download → download.file = file) ∧ Looked service drive after := by
  unfold openFile
  split
  · exact ⟨fun _ h => (nomatch h), .unasked⟩
  · refine Ends.object_bind (fun e objects hget => ⟨fun _ h => (nomatch h), .asked hget⟩) ?_
    intro body objects hget
    refine ⟨fun download h => ?_, .asked hget⟩
    obtain rfl := Except.ok.inj h
    rfl

theorem download_ends (path : String) (rangeHeader : Option String) :
    (service.download identity path rangeHeader).Ends drive fun _ after =>
      Looked service drive after := by
  unfold download
  refine Ends.lift_bind (fun e _ => .unasked) fun path _ => ?_
  refine Ends.authorize_bind (fun _ => .unasked) fun _ => ?_
  refine Ends.query_bind (fun e _ => .unasked) fun file _ => ?_
  exact (openFile_ends file rangeHeader).mono fun _ _ h => h.2

/-- What is opened through a share is the file at a path that the share covers. -/
theorem downloadShared_ends (id path : String) (rangeHeader : Option String) :
    (service.downloadShared id path rangeHeader).Ends drive fun result after =>
      (∀ download, result = .ok download → ∃ share,
        drive.db.share id = .ok share ∧ share.permissions.has .read = true ∧
          drive.db.file (Path.normalize path) = .ok download.file ∧
          (Path.normalize path = share.path ∨
            Path.isBelow (Path.normalize path) share.path = true)) ∧
        Looked service drive after := by
  unfold downloadShared
  refine Ends.query_bind (fun e _ => ⟨fun _ h => (nomatch h), .unasked⟩) fun share hshare => ?_
  refine Ends.lift_bind (fun e _ => ⟨fun _ h => (nomatch h), .unasked⟩) fun _ hread => ?_
  refine Ends.guard (fun _ => ⟨fun _ h => (nomatch h), .unasked⟩) fun hcovered => ?_
  refine Ends.query_bind (fun e _ => ⟨fun _ h => (nomatch h), .unasked⟩) fun file hfile => ?_
  refine (openFile_ends file rangeHeader).mono fun result after h => ⟨fun download hok => ?_, h.2⟩
  refine ⟨share, hshare, require_eq_ok hread, ?_, ?_⟩
  · rw [h.1 download hok]
    exact hfile
  · by_cases hat : Path.normalize path = share.path
    · exact Or.inl hat
    · right
      by_contra hbelow
      exact hcovered ⟨hat, by simpa using hbelow⟩

theorem list_ends (path : String) :
    (service.list identity path).Ends drive fun _ after => Looked service drive after := by
  unfold list
  refine Ends.query_bind (fun e _ => .unasked) fun files _ => ?_
  by_cases hmissing : files.isEmpty = true ∧ Path.normalize path ≠ Path.root
  · rw [if_pos hmissing]
    exact Ends.authorize_bind (fun _ => .unasked) fun _ => Ends.throw_bind .unasked
  · rw [if_neg hmissing]
    refine Ends.query_bind (fun e _ => .unasked) fun permitted _ => ?_
    exact Ends.guard (fun _ => .unasked) fun _ => .unasked

/-- What is listed of a share is what is stored at its path, or else below it. -/
theorem openShare_ends (id : String) :
    (openShare id : DriveM σ SharedFiles).Ends drive fun result after =>
      (∀ shared, result = .ok shared →
        drive.db.share id = .ok shared.share ∧
          (shared.share.permissions.has .read = true →
            drive.db.filesAt shared.share.path = .ok shared.files)) ∧
        after = drive := by
  unfold openShare
  refine Ends.query_bind (fun e _ => ⟨fun _ h => (nomatch h), rfl⟩) fun share hshare => ?_
  by_cases hread : share.permissions.has .read = true
  · rw [if_pos hread]
    refine Ends.query_bind (fun e _ => ⟨fun _ h => (nomatch h), rfl⟩) fun files hfiles => ?_
    refine ⟨fun shared h => ?_, rfl⟩
    obtain rfl := Except.ok.inj h
    exact ⟨hshare, fun _ => hfiles⟩
  · rw [if_neg hread]
    refine ⟨fun shared h => ?_, rfl⟩
    obtain rfl := Except.ok.inj h
    exact ⟨hshare, fun h => absurd h hread⟩

theorem getPermissions_ends (path : String) :
    (service.getPermissions identity path).Ends drive fun _ after => after = drive := by
  unfold getPermissions
  exact Ends.authorize_bind (fun _ => rfl) fun _ => Ends.query rfl

/-! ## Records -/

/-- What replacing records comes to. They are read back after they have been replaced, which cannot
fail any more. -/
inductive RecordsSet (service : Service σ) (identity : Identity) (path : String)
    (records : List PermissionRecord) (drive : Drive σ) :
    Except DriveError (List PermissionRecord) → Drive σ → Prop where
  | refused (e : DriveError) : RecordsSet service identity path records drive (.error e) drive
  | replaced {found : List PermissionRecord} {db : Database}
      (permitted : service.resolver.Permits drive.db identity .updatePermissions path)
      (prepared : drive.db.replaceRecords path
        (records.map fun record => { record with path := Path.normalize record.path }) = .ok db) :
      RecordsSet service identity path records drive (.ok found) { drive with db }

theorem setPermissions_ends (service : Service σ) (identity : Identity) (path : String)
    (records : List PermissionRecord) (drive : Drive σ) :
    (service.setPermissions identity path records).Ends drive
      (RecordsSet service identity (Path.normalize path) records drive) := by
  unfold setPermissions DriveM.change
  refine Ends.authorize_bind .refused fun hpermitted => ?_
  refine Ends.bind (Ends.query_bind (fun e _ => .refused e) fun db hprepared => ?_)
  obtain ⟨found, hfound⟩ := Database.recordsAt_of_replaceRecords hprepared
  refine Ends.query ?_
  change RecordsSet service identity _ records drive (db.recordsAt _) { drive with db }
  rw [hfound]
  exact .replaced hpermitted hprepared

/-! ## Shares -/

/-- When nothing is missing of a set, all of it is held. -/
theorem has_of_toList_remove {p q : Permissions} {c : Capability} (h : (p.remove q).toList = [])
    (hc : p.has c = true) : q.has c = true := by
  by_contra hmissing
  have hmem : c ∈ (p.remove q).toList := by
    rw [Permissions.toList, List.mem_filter, Permissions.has_remove, hc]
    exact ⟨Capability.mem_all c, by simpa using hmissing⟩
  rw [h] at hmem
  exact absurd hmem List.not_mem_nil

/-- What issuing a share comes to. -/
inductive ShareIssued (service : Service σ) (identity : Identity) (path : String)
    (permissions : Permissions) (drive : Drive σ) : Except DriveError Share → Drive σ → Prop where
  | refused (e : DriveError) (clock : Timestamp) (drawn : Nat) :
      ShareIssued service identity path permissions drive (.error e) { drive with clock, drawn }
  | issued {clock : Timestamp} {drawn : Nat} {id : String} {share : Share} {db : Database}
      (member : identity.isGuest = false)
      (covered : ∀ c, c = .share ∨ permissions.has c = true →
        service.resolver.Permits drive.db identity c path)
      (prepared :
        drive.db.createShare clock id path permissions identity.subject = .ok (share, db)) :
      ShareIssued service identity path permissions drive (.ok share)
        { drive with db, clock, drawn }

theorem issueShare_ends {path : String} {permissions : Permissions} (attempts : Nat)
    (member : identity.isGuest = false)
    (covered : ∀ c, c = .share ∨ permissions.has c = true →
      service.resolver.Permits drive.db identity c path)
    (clock : Timestamp) (drawn : Nat) :
    (service.issueShare path permissions identity.subject attempts).Ends
      { drive with clock, drawn } (ShareIssued service identity path permissions drive) := by
  induction attempts generalizing clock drawn with
  | zero => exact Ends.throw (.refused _ clock drawn)
  | succ attempts ih =>
    unfold issueShare
    refine Ends.draw_bind (Ends.now_bind (Ends.get_bind ?_))
    dsimp only
    split
    next share db hprepared =>
      refine Ends.commit_bind (Ends.pure ?_)
      dsimp only at hprepared ⊢
      exact .issued member covered hprepared
    -- The name was taken: another one is drawn, later.
    next => exact ih clock.next (drawn + 1)
    next e _ _ => exact Ends.throw (.refused e clock.next (drawn + 1))

theorem createShare_ends (service : Service σ) (identity : Identity) (path : String)
    (permissions : Permissions) (drive : Drive σ) :
    (service.createShare identity path permissions).Ends drive
      (ShareIssued service identity (Path.normalize path) permissions drive) := by
  have refused : ∀ e, ShareIssued service identity (Path.normalize path) permissions drive
      (.error e) drive := fun e => .refused e drive.clock drive.drawn
  unfold createShare held
  refine Ends.guard (fun _ => refused _) fun _ => ?_
  refine Ends.guard (fun _ => refused _) fun hmember => ?_
  refine Ends.query_bind (fun e _ => refused e) fun found hfound => ?_
  refine Ends.lift_bind (fun e _ => refused e) fun _ hshare => ?_
  dsimp only
  split
  next => exact Ends.throw_bind (refused _)
  next hnone =>
    refine Ends.query_bind (fun e _ => refused e) fun files _ => ?_
    refine Ends.guard (fun _ => refused _) fun _ => ?_
    have hnil : (permissions.remove found).toList = [] := by
      rcases hmissing : (permissions.remove found).toList with _ | ⟨first, more⟩
      · rfl
      · exact absurd hmissing (hnone first more)
    refine issueShare_ends shareAttempts (by simpa using hmember) (fun c hc => ⟨found, hfound, ?_⟩)
      drive.clock drive.drawn
    rcases hc with rfl | hc
    · exact require_eq_ok hshare
    · exact has_of_toList_remove hnil hc

/-- What taking back a share comes to. -/
inductive ShareTaken (id : String) (drive : Drive σ) : Except DriveError Unit → Drive σ → Prop where
  | refused (e : DriveError) : ShareTaken id drive (.error e) drive
  | taken {db : Database} (prepared : drive.db.deleteShare id = .ok db) :
      ShareTaken id drive (.ok ()) { drive with db }

theorem deleteShare_ends (service : Service σ) (identity : Identity) (id : String)
    (drive : Drive σ) : (service.deleteShare identity id).Ends drive (ShareTaken id drive) := by
  unfold deleteShare DriveM.change
  refine Ends.query_bind (fun e _ => .refused e) fun share _ => ?_
  refine Ends.guard (fun _ => .refused _) fun _ => ?_
  exact Ends.query_bind (fun e _ => .refused e) fun db hprepared => .taken hprepared

/-! ## All requests -/

/-- What serving a request comes to. -/
inductive Served (service : Service σ) (identity : Identity) (drive : Drive σ) :
    Request → Except DriveError Reply → Drive σ → Prop where
  | looked {request : Request} {reply : Except DriveError Reply} {after : Drive σ}
      (looks : request.reads = true) (looked : Looked service drive after) :
      Served service identity drive request reply after
  | created {request : CreateRequest} {result : Except DriveError File} {after : Drive σ}
      (created : Created service identity request drive result after) :
      Served service identity drive (.create request) (result.map .file) after
  | updated {path : String} {request : UpdateRequest} {result : Except DriveError File}
      {after : Drive σ}
      (updated : Updated service identity (Path.normalize path) request drive result after) :
      Served service identity drive (.update path request) (result.map .file) after
  | moved {source target : String} {names : Option (List String)}
      {result : Except DriveError BatchReport} {after : Drive σ}
      (moved : PathMoved service identity (Path.normalize source) (Path.normalize target) drive
        result after) :
      Served service identity drive (.move source target names) (result.map .report) after
  | deleted {path : String} {names : Option (List String)}
      {result : Except DriveError BatchReport} {after : Drive σ}
      (deleted : PathDeleted service identity (Path.normalize path) drive result after) :
      Served service identity drive (.delete path names) (result.map .report) after
  | recordsSet {path : String} {records : List PermissionRecord}
      {result : Except DriveError (List PermissionRecord)} {after : Drive σ}
      (set : RecordsSet service identity (Path.normalize path) records drive result after) :
      Served service identity drive (.setRecords path records) (result.map .records) after
  | shareIssued {path : String} {permissions : Permissions} {result : Except DriveError Share}
      {after : Drive σ}
      (issued : ShareIssued service identity (Path.normalize path) permissions drive result after) :
      Served service identity drive (.createShare path permissions) (result.map .share) after
  | shareTaken {id : String} {result : Except DriveError Unit} {after : Drive σ}
      (taken : ShareTaken id drive result after) :
      Served service identity drive (.deleteShare id) (result.map fun _ => .done) after

theorem serve_ends (service : Service σ) (identity : Identity) (request : Request)
    (hkeyed : drive.db.Keyed) :
    (service.serve identity request).Ends drive (Served service identity drive request) := by
  cases request with
  | effective path =>
    exact Ends.map (Ends.query (.looked rfl .unasked) : (service.held _ _).Ends _ _)
  | list path => exact Ends.map ((list_ends path).mono fun _ _ h => .looked rfl h)
  | download path rangeHeader =>
    exact Ends.map ((download_ends path rangeHeader).mono fun _ _ h => .looked rfl h)
  | create request =>
    exact Ends.map ((create_ends service identity request drive).mono fun _ _ h => .created h)
  | update path request =>
    exact Ends.map ((update_ends service identity path request drive).mono fun _ _ h => .updated h)
  | move source target names =>
    exact Ends.map ((movePath_ends service identity source target names hkeyed).mono fun _ _ h =>
      .moved h)
  | delete path names =>
    exact Ends.map ((deletePath_ends service identity path names hkeyed).mono fun _ _ h =>
      .deleted h)
  | recordsAt path =>
    exact Ends.map ((getPermissions_ends path).mono fun _ _ h => .looked rfl (h ▸ .unasked))
  | setRecords path records =>
    exact Ends.map ((setPermissions_ends service identity path records drive).mono fun _ _ h =>
      .recordsSet h)
  | createShare path permissions =>
    exact Ends.map ((createShare_ends service identity path permissions drive).mono fun _ _ h =>
      .shareIssued h)
  | openShare id =>
    exact Ends.map ((openShare_ends id).mono fun _ _ h => .looked rfl (h.2 ▸ .unasked))
  | downloadShared id path rangeHeader =>
    exact Ends.map ((downloadShared_ends id path rangeHeader).mono fun _ _ h => .looked rfl h.2)
  | deleteShare id =>
    exact Ends.map ((deleteShare_ends service identity id drive).mono fun _ _ h => .shareTaken h)
  | listShares => exact Ends.map (Ends.query (.looked rfl .unasked))

/-! ## Runs -/

section Preserves

variable {I : Database → Prop} {after : Drive σ}
  (changes : ∀ {db mid : Database}, db.Changes mid → I db → I mid)

include changes

theorem Moved.preserves {granted : Prop} {source target : String} {result : Except DriveError Unit}
    (h : Moved service granted source target drive result after) (hinv : I drive.db) :
    I after.db := by
  cases h with
  | refused => exact hinv
  | unmoved => exact hinv
  | moved _ _ prepared _ => exact changes (.moved prepared) hinv

theorem Removed.preserves {granted : Prop} {path : String} {result : Except DriveError Unit}
    (h : Removed service granted path drive result after) (hinv : I drive.db) : I after.db := by
  cases h with
  | refused => exact hinv
  | undeleted => exact hinv
  | removed _ prepared _ _ => exact changes (.deleted prepared) hinv

theorem Created.preserves {request : CreateRequest} {result : Except DriveError File}
    (h : Created service identity request drive result after) (hinv : I drive.db) :
    I after.db := by
  cases h with
  | refused => exact hinv
  | unstored => exact hinv
  | stored _ _ _ _ _ prepared _ =>
    split at prepared
    · exact changes (.put prepared) hinv
    · exact changes (.created prepared) hinv

theorem Updated.preserves {path : String} {request : UpdateRequest}
    {result : Except DriveError File}
    (h : Updated service identity path request drive result after) (hinv : I drive.db) :
    I after.db := by
  cases h with
  | refused => exact hinv
  | uncarried => exact hinv
  | changed _ _ _ _ prepared _ => exact changes (.updated prepared) hinv

theorem PathMoved.preserves {source target : String} {result : Except DriveError BatchReport}
    (h : PathMoved service identity source target drive result after) (hinv : I drive.db) :
    I after.db := by
  cases h with
  | refused => exact hinv
  | single _ _ moved => exact moved.preserves changes hinv
  | batch _ _ _ batch =>
    exact batch.preserves (I := fun drive => I drive.db)
      (fun _ _ _ _ _ hinv moved => moved.preserves changes hinv) hinv

theorem PathDeleted.preserves {path : String} {result : Except DriveError BatchReport}
    (h : PathDeleted service identity path drive result after) (hinv : I drive.db) :
    I after.db := by
  cases h with
  | refused => exact hinv
  | single removed => exact removed.preserves changes hinv
  | batch _ batch =>
    exact batch.preserves (I := fun drive => I drive.db)
      (fun _ _ _ _ _ hinv removed => removed.preserves changes hinv) hinv

/-- What every change of files and records leaves in place, and every change of shares, is in place
however a request ends. -/
theorem Served.preserves {request : Request} {reply : Except DriveError Reply}
    (h : Served service identity drive request reply after)
    (shares : ∀ {db : Database} {rows}, I db → I { db with shares := some rows })
    (hinv : I drive.db) : I after.db := by
  cases h with
  | looked _ looked =>
    cases looked with
    | unasked => exact hinv
    | asked => exact hinv
  | created created => exact created.preserves changes hinv
  | updated updated => exact updated.preserves changes hinv
  | moved moved => exact moved.preserves changes hinv
  | deleted deleted => exact deleted.preserves changes hinv
  | recordsSet set =>
    cases set with
    | refused => exact hinv
    | replaced _ prepared => exact changes (.replaced prepared) hinv
  | shareIssued issued =>
    cases issued with
    | refused => exact hinv
    | issued _ _ prepared =>
      obtain rfl := Database.createShare_eq_ok prepared
      exact shares hinv
  | shareTaken taken =>
    cases taken with
    | refused => exact hinv
    | taken prepared =>
      obtain rfl := Database.deleteShare_eq_ok prepared
      exact shares hinv

end Preserves

/-- What holds at the start of a run and of what every request comes to holds all along. -/
theorem Reaches.invariant {stores : ObjectStore σ → Prop} {start : Drive σ}
    {I : List Event → Drive σ → Prop} {history : List Event}
    (h : service.Reaches stores start history drive) (hkeyed : start.db.Keyed) (hstart : I [] start)
    (step : ∀ {history drive store identity request reply after}, stores store → drive.db.Keyed →
      I history drive → Served (service.withStore store) identity drive request reply after →
        I (history ++ [⟨identity, request, reply⟩]) after) :
    drive.db.Keyed ∧ I history drive := by
  induction h with
  | start => exact ⟨hkeyed, hstart⟩
  | @serve history drive after store identity request reply reached offered served ih =>
    obtain ⟨hk, hinv⟩ := ih
    -- What a request comes to is known of keyed metadata only, so that is carried along.
    have hserved : Served (service.withStore store) identity drive request reply after :=
      (serve_ends (service.withStore store) identity request hk).of_on served
    exact ⟨hserved.preserves Database.Changes.keyed id hk, step offered hk hinv hserved⟩

end FileDrive.Service
