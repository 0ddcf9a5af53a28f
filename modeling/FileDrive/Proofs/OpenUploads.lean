import FileDrive.Proofs.UploadedParts

/-!
# Uploads that stay open

An upload in parts is open from the call that begins it until one that completes or aborts it. When
a part cannot be sent, or the stream breaks off, the upload is aborted. But when the call that is to
complete it fails, no other call follows. So storing a stream leaves an upload open when everything
goes well up to that call, and that call fails (`Uncompleted`), and in no other case.
-/

namespace FileDrive.Bucket

open ServerM

variable {server now : Server} {stream : ByteStream} {key path contentType : String}
  {id number size : Nat} {sent : List (ByteArray × Nat)} {failure : Option IoError} {c : Call}

/-- No call of a list is made to fail, when the first one comes after a number of others. -/
def Passes (faults : Nat → Call → Option Nat) : Nat → List Call → Prop
  | _, [] => True
  | number, call :: rest => faults number call = none ∧ Passes faults (number + 1) rest

theorem passes_of_faultless {faults : Nat → Call → Option Nat} {calls : List Call} (number : Nat)
    (h : ∀ call ∈ calls, ∀ number, faults number call = none) : Passes faults number calls := by
  induction calls generalizing number with
  | nil => trivial
  | cons call rest ih =>
    exact ⟨h call List.mem_cons_self number,
      ih (number + 1) fun other hother => h other (List.mem_cons_of_mem _ hother)⟩

/-- Whether a call is one of those that make up an upload in parts. -/
def Call.ofUpload : Call → Bool
  | beginUpload _ _ | uploadPart _ _ _ _ | completeUpload _ _ _ | abortUpload _ _ => true
  | createBucket _ | headBucket _ | getObject _ _ | putObject _ _ _ | copyObject _ _
  | deleteObject _ => false

theorem Server.perform_uploads (server : Server) (h : c.ofUpload = false) :
    (server.perform c).2.uploads = server.uploads := by
  cases c with
  | beginUpload | uploadPart | completeUpload | abortUpload => cases h
  | createBucket | headBucket | getObject | putObject | copyObject | deleteObject =>
    dsimp only [perform]
    repeat' split
    all_goals rfl

/-- The other calls leave every upload as it is. -/
theorem Server.send_uploads (server : Server) (h : c.ofUpload = false) :
    (server.send c).2.uploads = server.uploads := by
  by_cases hgrants : server.Grants c
  · rw [hgrants.send]
    exact (server.logged c).perform_uploads h
  · obtain ⟨refusal, log, hrefused⟩ := send_refused hgrants
    rw [hrefused]

/-! ## An upload under way -/

theorem Server.Fresh.ne (h : server.Fresh) {upload : Upload} (hmem : upload ∈ server.uploads) :
    upload.id ≠ server.begun := Nat.ne_of_lt (h upload hmem)

/-- A server on which an upload is open that some parts have come for, beside those that were open
before. -/
structure Underway (server : Server) (key contentType : String) (sent : List (ByteArray × Nat))
    (now : Server) : Prop where
  reachable : now.reachable = true
  there : (!now.buckets.contains now.bucket) = false
  faults : now.faults = server.faults
  tagOf : now.tagOf = server.tagOf
  uploads : now.uploads =
    server.uploads ++ [⟨server.begun, key, contentType, sent.map Prod.swap⟩]

namespace Underway

theorem grants (h : Underway server key contentType sent now) (hc : c.key? = some key)
    (hkey : key ≠ "") (hfault : server.faults now.log.length c = none) : now.Grants c := by
  rw [← h.faults] at hfault
  refine ⟨?_, h.reachable, hfault⟩
  rw [hc]
  exact fun heq => hkey (Option.some.inj heq)

/-- A call that is not carried out leaves the upload open. -/
theorem refused (h : Underway server key contentType sent now)
    (hfault : server.faults now.log.length c ≠ none) :
    ∃ refusal, (now.send c).1 = .error refusal ∧
      Underway server key contentType sent (now.send c).2 := by
  have hnot : ¬now.Grants c := fun hgrants => hfault (h.faults ▸ hgrants.faultless)
  obtain ⟨refusal, log, hrefused⟩ := Server.send_refused hnot
  rw [hrefused]
  exact ⟨refusal, rfl, h.reachable, h.there, h.faults, h.tagOf, h.uploads⟩

theorem is_open (h : Underway server key contentType sent now) :
    now.uploads.any (·.id = server.begun) = true := by
  rw [h.uploads, List.any_append]
  simp

/-- One more part. -/
theorem part (h : Underway server key contentType sent now) (hfresh : server.Fresh)
    (hkey : key ≠ "") {part : ByteArray × Nat}
    (hfault : server.faults now.log.length (partCall key server.begun part) = none) :
    (now.send (partCall key server.begun part)).1 =
        .ok (.part (server.tagOf server.begun part.2 part.1)) ∧
      (now.send (partCall key server.begun part)).2.log.length = now.log.length + 1 ∧
      Underway server key contentType (sent ++ [part])
        (now.send (partCall key server.begun part)).2 := by
  have hopen : (now.logged (partCall key server.begun part)).uploads.any
    (·.id = server.begun) = true := h.is_open
  have hthere : (!(now.logged (partCall key server.begun part)).buckets.contains
    (now.logged (partCall key server.begun part)).bucket) = false := h.there
  rw [(h.grants (c := partCall key server.begun part) rfl hkey hfault).send]
  unfold partCall at hopen hthere ⊢
  simp only [Server.perform, hthere, hopen, Bool.false_eq_true, if_false, if_true]
  refine ⟨?_, List.length_append, h.reachable, h.there, h.faults, h.tagOf, ?_⟩
  · rw [← h.tagOf]
    rfl
  show now.uploads.map _ = _
  -- The number of this upload is later than those of the others.
  have hothers : server.uploads.map (fun upload => if upload.id = server.begun then
      { upload with parts := upload.parts ++ [part.swap] } else upload) = server.uploads := by
    refine (List.map_congr_left fun upload hmem => ?_).trans (List.map_id _)
    rw [if_neg (hfresh.ne hmem), id]
  rw [h.uploads, List.map_append, show (part.2, part.1) = part.swap from rfl, hothers]
  simp

theorem uploads_withoutUpload (h : Underway server key contentType sent now)
    (hfresh : server.Fresh) : (now.withoutUpload server.begun).uploads = server.uploads := by
  show now.uploads.filter _ = _
  have hothers : server.uploads.filter (·.id ≠ server.begun) = server.uploads :=
    List.filter_eq_self.2 fun upload hmem => decide_eq_true (hfresh.ne hmem)
  rw [h.uploads, List.filter_append, hothers]
  simp

/-- An upload that is aborted is not open any more. -/
theorem abort (h : Underway server key contentType sent now) (hfresh : server.Fresh)
    (hkey : key ≠ "")
    (hfault : server.faults now.log.length (.abortUpload key server.begun) = none) :
    (now.send (.abortUpload key server.begun)).2.uploads = server.uploads := by
  have hopen : (now.logged (.abortUpload key server.begun)).uploads.any
    (·.id = server.begun) = true := h.is_open
  have hthere : (!(now.logged (.abortUpload key server.begun)).buckets.contains
    (now.logged (.abortUpload key server.begun)).bucket) = false := h.there
  rw [(h.grants (c := .abortUpload _ _) rfl hkey hfault).send]
  simp only [Server.perform, hthere, hopen, Bool.false_eq_true, if_false, if_true]
  exact h.uploads_withoutUpload hfresh

/-- The upload is found by its number. -/
theorem found (h : Underway server key contentType sent now) (hfresh : server.Fresh) :
    now.uploads.find? (·.id = server.begun) =
      some ⟨server.begun, key, contentType, sent.map Prod.swap⟩ := by
  have hnew : server.uploads.find? (·.id = server.begun) = none :=
    List.find?_eq_none.2 fun upload hmem => by simpa using hfresh.ne hmem
  rw [h.uploads, List.find?_append, hnew]
  simp

/-- An upload that is completed with all its parts is not open any more. -/
theorem complete (h : Underway server key contentType sent now) (hfresh : server.Fresh)
    (hkey : key ≠ "") (hsome : sent ≠ []) (hnumbers : (sent.map Prod.snd).Pairwise (· < ·))
    (hfault : server.faults now.log.length (completion server.tagOf key server.begun sent) = none) :
    ∃ after, now.send (completion server.tagOf key server.begun sent) = (.ok .done, after) ∧
      after.uploads = server.uploads := by
  have hsend := (h.grants (c := completion server.tagOf key server.begun sent) rfl hkey hfault).send
  obtain ⟨logged, hlogged⟩ :
    ∃ logged, logged = now.logged (completion server.tagOf key server.begun sent) := ⟨_, rfl⟩
  rw [← hlogged] at hsend
  have hthere : (!logged.buckets.contains logged.bucket) = false := by
    rw [hlogged]
    exact h.there
  have hfound : logged.uploads.find? (·.id = server.begun) =
      some ⟨server.begun, key, contentType, sent.map Prod.swap⟩ := by
    rw [hlogged]
    exact h.found hfresh
  have htags : logged.tagOf = server.tagOf := by
    rw [hlogged]
    exact h.tagOf
  have hassembled := logged.assembled?_listing
    ⟨server.begun, key, contentType, sent.map Prod.swap⟩ (List.nil_append _).symm hsome hnumbers
  rw [htags] at hassembled
  unfold completion at hsend
  simp only [Server.perform, hthere, hfound, hassembled, Bool.false_eq_true, if_false] at hsend
  refine ⟨_, hsend, ?_⟩
  rw [hlogged]
  exact h.uploads_withoutUpload hfresh

end Underway

/-- Beginning an upload opens it. -/
theorem Server.Grants.beginUpload (h : server.Grants (.beginUpload key contentType))
    (hthere : (!server.buckets.contains server.bucket) = false) :
    (server.send (.beginUpload key contentType)).1 = .ok (.upload server.begun) ∧
      (server.send (.beginUpload key contentType)).2.log.length = server.log.length + 1 ∧
      Underway server key contentType [] (server.send (.beginUpload key contentType)).2 := by
  have hlogged : (!(server.logged (.beginUpload key contentType)).buckets.contains
    (server.logged (.beginUpload key contentType)).bucket) = false := hthere
  rw [h.send]
  simp only [Server.perform, hlogged, Bool.false_eq_true, if_false]
  exact ⟨rfl, List.length_append, h.reachable, hthere, rfl, rfl, rfl⟩

/-! ## Sending the parts -/

/-- The calls that send some parts of an upload. -/
def partCalls (key : String) (id number : Nat) (pieces : List ByteArray) : List Call :=
  (pieces.zipIdx number).map (partCall key id)

/-- How it ends to send parts until one of them is refused or the stream has ended. -/
inductive PartsSent (server : Server) (key contentType : String) (failure : Option IoError)
    (sent : List (ByteArray × Nat)) (number : Nat) (pieces : List ByteArray) (now : Server) :
    Except StorageError (List ListedPart) → Server → Prop where
  | all {after : Server} (whole : failure = none)
      (passed : Passes server.faults now.log.length (partCalls key server.begun number pieces))
      (calls : after.log.length = now.log.length + pieces.length)
      (underway : Underway server key contentType (sent ++ pieces.zipIdx number) after) :
      PartsSent server key contentType failure sent number pieces now
        (.ok (listing server.tagOf server.begun (pieces.zipIdx number))) after
  | stopped {after : Server} {gone : List (ByteArray × Nat)} (e : StorageError)
      (stopped : failure = none →
        ¬Passes server.faults now.log.length (partCalls key server.begun number pieces))
      (underway : Underway server key contentType gone after) :
      PartsSent server key contentType failure sent number pieces now (.error e) after

theorem uploadParts_leaves (pieces : List ByteArray) (hfresh : server.Fresh) (hkey : key ≠ "")
    (h : Underway server key contentType sent now) :
    (uploadParts key server.begun failure number pieces).Ends now
      (PartsSent server key contentType failure sent number pieces now) := by
  -- Whether the call for a part is made to fail depends on how many calls there were before it.
  induction pieces generalizing sent number now with
  | nil =>
    unfold uploadParts
    cases failure with
    | none => exact .all rfl trivial rfl (by rwa [List.zipIdx_nil, List.append_nil])
    | some cause => exact .stopped _ (fun hwhole => by cases hwhole) h
  | cons piece pieces ih =>
    unfold uploadParts
    apply Ends.bind
    apply Ends.call
    by_cases hfault :
        server.faults now.log.length (partCall key server.begun (piece, number)) = none
    · obtain ⟨htagged, hcalls, hnext⟩ := h.part hfresh hkey hfault
      rw [show (now.send (.uploadPart key server.begun number piece)).1 = _ from htagged]
      apply Ends.bind
      apply (ih hnext).mono
      intro result after hsent
      cases hsent with
      | all whole passed calls underway =>
        rw [hcalls] at passed calls
        refine .all whole ⟨hfault, passed⟩ ?_ ?_
        · show after.log.length = _
          rw [calls, List.length_cons]
          omega
        · rwa [List.append_assoc] at underway
      | stopped e stopped underway =>
        rw [hcalls] at stopped
        exact .stopped e (fun whole passed => stopped whole passed.2) underway
    · obtain ⟨refusal, hrefused, hstays⟩ := h.refused hfault
      rw [show (now.send (.uploadPart key server.begun number piece)).1 = _ from hrefused]
      exact .stopped _ (fun _ passed => hfault passed.1) hstays

/-! ## Sending a stream in parts -/

/-- Everything goes well until an upload of some parts, and then the end of their stream, is to be
completed, and that does not. -/
structure Uncompleted (server : Server) (key contentType : String) (pieces : List ByteArray)
    (failure : Option IoError) : Prop where
  addressed : key ≠ ""
  reachable : server.reachable = true
  there : server.bucket ∈ server.buckets
  whole : failure = none
  begins : server.faults server.log.length (.beginUpload key contentType) = none
  passed : Passes server.faults (server.log.length + 1) (partCalls key server.begun 1 pieces)
  refused : server.faults (server.log.length + 1 + pieces.length)
    (completion server.tagOf key server.begun (pieces.zipIdx 1)) ≠ none

theorem Uncompleted.grants {pieces : List ByteArray}
    (h : Uncompleted server key contentType pieces failure) :
    server.Grants (.beginUpload key contentType) :=
  ⟨fun heq => h.addressed (Option.some.inj heq), h.reachable, h.begins⟩

/-- What it leaves to send some parts as an upload: the uploads that were open before, or one more
that has all the parts. -/
inductive Leaves (server : Server) (key contentType : String) (pieces : List ByteArray)
    (failure : Option IoError) : Except StorageError Unit → Server → Prop where
  | closed {result : Except StorageError Unit} {after : Server}
      (completed : ¬Uncompleted server key contentType pieces failure)
      (same : after.uploads = server.uploads) :
      Leaves server key contentType pieces failure result after
  | opened {after : Server} (refusal : Refusal)
      (uncompleted : Uncompleted server key contentType pieces failure)
      (upload : after.uploads = server.uploads ++
        [⟨server.begun, key, contentType, (pieces.zipIdx 1).map Prod.swap⟩]) :
      Leaves server key contentType pieces failure
        (.error (backend ("multipart complete " ++ key) refusal)) after

theorem putInParts_leaves (hfresh : server.Fresh) (hsome : parts stream ≠ [])
    (haborts : ∀ number key id, server.faults number (.abortUpload key id) = none) :
    (putInParts key contentType stream).Ends server
      (Leaves server key contentType (parts stream) stream.failure) := by
  unfold putInParts
  generalize parts stream = pieces at hsome ⊢
  apply Ends.bind
  apply Ends.call
  by_cases hgrants : server.Grants (.beginUpload key contentType)
  swap
  · obtain ⟨refusal, log, hrefused⟩ := Server.send_refused hgrants
    rw [hrefused]
    exact .closed (fun h => hgrants h.grants) rfl
  by_cases hthere : server.bucket ∈ server.buckets
  swap
  · have hmissing : (!(server.logged (.beginUpload key contentType)).buckets.contains
        (server.logged (.beginUpload key contentType)).bucket) = true := by
      simpa [Server.logged] using hthere
    rw [hgrants.send]
    simp only [Server.perform, hmissing, if_true]
    exact .closed (fun h => hthere h.there) rfl
  have hkey : key ≠ "" := fun heq => hgrants.built (congrArg some heq)
  obtain ⟨hbegun, hcalls, hunderway⟩ := hgrants.beginUpload (by simpa using hthere)
  rw [hbegun]
  generalize (server.send (.beginUpload key contentType)).2 = begun at hcalls hunderway
  apply Ends.bind
  apply Ends.tryCatch
  apply (uploadParts_leaves pieces hfresh hkey hunderway).mono
  intro result sent hsent
  cases hsent with
  | stopped e stopped underway =>
    refine Ends.ignore_bind (Ends.discard (Ends.call (Ends.throw (.closed (fun h => ?_) ?_))))
    · rw [hcalls] at stopped
      exact stopped h.whole h.passed
    · exact underway.abort hfresh hkey (haborts _ key server.begun)
  | all whole passed calls underway =>
    rw [hcalls] at passed calls
    rw [List.nil_append] at underway
    have hpieces : pieces.zipIdx 1 ≠ [] := by simpa using hsome
    have hnumbers : ((pieces.zipIdx 1).map Prod.snd).Pairwise (· < ·) := by
      rw [List.zipIdx_map_snd]
      exact List.pairwise_lt_range' 1
    dsimp only
    apply Ends.discard
    apply Ends.call
    by_cases hfault : server.faults sent.log.length
        (completion server.tagOf key server.begun (pieces.zipIdx 1)) = none
    · obtain ⟨after, hdone, hclosed⟩ := underway.complete hfresh hkey hpieces hnumbers hfault
      rw [show sent.send (.completeUpload key server.begun _) = (.ok .done, after) from hdone]
      refine .closed (fun h => h.refused ?_) hclosed
      rwa [← calls]
    · obtain ⟨refusal, hrefused, hopen⟩ := underway.refused hfault
      rw [show (sent.send (.completeUpload key server.begun _)).1 = .error refusal from hrefused]
      rw [calls] at hfault
      exact .opened refusal
        ⟨hkey, hgrants.reachable, hthere, whole, hgrants.faultless, passed, hfault⟩ hopen.uploads

/-! ## Storing a stream -/

/-- What storing a stream leaves of the uploads, as it is sent in parts or is too short for that. -/
theorem putObject_leaves (hfresh : server.Fresh)
    (haborts : ∀ number key id, server.faults number (.abortUpload key id) = none) :
    (putObject path size stream contentType).Ends server fun result after =>
      (stream.data.size < partSize ∧ after.uploads = server.uploads) ∨
        (partSize ≤ stream.data.size ∧
          Leaves server (objectKey path) contentType (parts stream) stream.failure result
            after) := by
  unfold putObject
  dsimp only
  by_cases hshort : stream.data.size < partSize
  · rw [if_pos hshort]
    rcases hfailure : stream.failure with _ | cause
    · by_cases hright : stream.data.size = size
      · rw [if_neg (not_ne_iff.2 hright)]
        apply Ends.discard
        apply Ends.call
        exact Or.inl ⟨hshort, Server.send_uploads _ rfl⟩
      · rw [if_pos hright]
        exact Ends.throw_bind (Or.inl ⟨hshort, rfl⟩)
    · exact Ends.throw_bind (Or.inl ⟨hshort, rfl⟩)
  · rw [if_neg hshort]
    apply Ends.bind
    apply (putInParts_leaves hfresh (parts_ne_nil (Nat.not_lt.1 hshort)) haborts).mono
    intro result after hleaves
    cases hleaves with
    | opened refusal uncompleted upload =>
      exact Or.inr ⟨Nat.not_lt.1 hshort, .opened refusal uncompleted upload⟩
    | closed completed same =>
      rcases result with e | _
      · exact Or.inr ⟨Nat.not_lt.1 hshort, .closed completed same⟩
      dsimp only
      by_cases hright : stream.data.size = size
      · rw [if_neg (not_ne_iff.2 hright)]
        exact Or.inr ⟨Nat.not_lt.1 hshort, .closed completed same⟩
      · rw [if_pos hright]
        refine Ends.ignore_bind ?_
        unfold deleteObject
        refine Ends.discard (Ends.call (Ends.throw (Or.inr ⟨Nat.not_lt.1 hshort, ?_⟩)))
        exact .closed completed ((Server.send_uploads after rfl).trans same)

/-- Where uploads can be aborted, storing a stream leaves as many of them open as there were before,
wherever it fails; unless a long stream has been sent and then its upload is not completed. Then the
call fails, and the upload stays open with all its parts. A call to the server that fails is one that
the server has not carried out. -/
theorem put_leaves_uncompleted (hfresh : server.Fresh)
    (haborts : ∀ number key id, server.faults number (.abortUpload key id) = none)
    (path contentType : String) (size : Nat) (stream : ByteStream) :
    let put := store.put path size stream contentType server
    let unfinished := partSize ≤ stream.data.size ∧
      Uncompleted server (objectKey path) contentType (parts stream) stream.failure
    (¬unfinished → put.2.uploads = server.uploads) ∧
      (unfinished → put.2.uploads = server.uploads ++
          [⟨server.begun, objectKey path, contentType, ((parts stream).zipIdx 1).map Prod.swap⟩] ∧
        ∃ refusal,
          put.1 = .error (backend ("multipart complete " ++ objectKey path) refusal)) := by
  intro put unfinished
  have hends : (stream.data.size < partSize ∧ put.2.uploads = server.uploads) ∨
      (partSize ≤ stream.data.size ∧ Leaves server (objectKey path) contentType (parts stream)
        stream.failure put.1 put.2) := putObject_leaves hfresh haborts
  obtain ⟨hshort, hsame⟩ | ⟨hlong, hleaves⟩ := hends
  · exact ⟨fun _ => hsame, fun h => absurd hshort (Nat.not_lt.2 h.1)⟩
  generalize put.1 = result at hleaves ⊢
  cases hleaves with
  | closed completed same => exact ⟨fun _ => same, fun h => absurd h.2 completed⟩
  | opened refusal uncompleted upload =>
    exact ⟨fun h => absurd ⟨hlong, uncompleted⟩ h, fun _ => ⟨upload, refusal, rfl⟩⟩

/-- A long stream breaks off while another upload is open. -/
theorem put_leaves_uncompleted_of_broken_stream :
    let other : Upload := ⟨3, "b", "text/plain", []⟩
    let server : Server :=
      ⟨true, "drive", ["drive"], [], [other], 4, fun _ _ => none, fun _ _ _ => none, []⟩
    let broken : ByteStream := ⟨⟨Array.replicate (partSize + 1) 0⟩, some .notFound⟩
    let put := store.put "/a" broken.data.size broken "text/plain" server
    server.Fresh ∧ (∀ number key id, server.faults number (.abortUpload key id) = none) ∧
      put.2.uploads = [other] := by
  intro other server broken put
  have hfresh : server.Fresh := by
    intro upload hmem
    cases List.mem_singleton.1 hmem
    decide
  have haborts : ∀ number key id, server.faults number (.abortUpload key id) = none :=
    fun _ _ _ => rfl
  have hbroken : broken.failure ≠ none := nofun
  clear_value broken
  have hput := put_leaves_uncompleted hfresh haborts "/a" "text/plain" broken.data.size broken
  exact ⟨hfresh, haborts, hput.1 fun h => hbroken h.2.whole⟩

/-- The upload of a long stream cannot be completed, and nobody aborts it. -/
theorem upload_stays_open_uncompleted :
    let server : Server := ⟨true, "drive", ["drive"], [], [], 0,
      fun _ call => if call.name = "CompleteMultipartUpload" then some 403 else none,
      fun _ _ _ => none, []⟩
    let zeros : ByteStream := ⟨⟨Array.replicate partSize 0⟩, none⟩
    let put := store.put "/m" zeros.data.size zeros "text/plain" server
    server.Fresh ∧ (∀ number key id, server.faults number (.abortUpload key id) = none) ∧
      put.1.isOk = false ∧ server.uploads = [] ∧
      ∃ upload, upload ∈ put.2.uploads ∧ upload.key = "m" := by
  intro server zeros put
  have hfresh : server.Fresh := nofun
  have haborts : ∀ number key id, server.faults number (.abortUpload key id) = none := by
    intro number key id
    show (if "AbortMultipartUpload" = "CompleteMultipartUpload" then some 403 else none) = none
    exact if_neg (by decide)
  have hkey : objectKey "/m" = "m" := by decide +kernel
  have hwhole : zeros.failure = none := rfl
  have hlong : partSize ≤ zeros.data.size := by simp [zeros, ByteArray.size]
  clear_value zeros
  have hparts : Passes server.faults 1 (partCalls "m" 0 1 (parts zeros)) := by
    refine passes_of_faultless 1 fun call hcall number => ?_
    obtain ⟨part, -, rfl⟩ := List.mem_map.1 hcall
    show (if "UploadPart" = "CompleteMultipartUpload" then some 403 else none) = none
    exact if_neg (by decide)
  have huncompleted : Uncompleted server "m" "text/plain" (parts zeros) none :=
    ⟨by decide, rfl, List.mem_singleton_self _, rfl, by decide, hparts,
      by simp [server, completion, Call.name]⟩
  have hends : _ ∨ (_ ∧ Leaves server (objectKey "/m") "text/plain" (parts zeros) zeros.failure
    put.1 put.2) := putObject_leaves hfresh haborts
  obtain ⟨hshort, -⟩ | ⟨-, hleaves⟩ := hends
  · exact absurd hshort (Nat.not_lt.2 hlong)
  rw [hkey, hwhole] at hleaves
  generalize put.1 = result at hleaves ⊢
  cases hleaves with
  | closed completed => exact absurd huncompleted completed
  | opened refusal _ upload =>
    rw [upload]
    exact ⟨hfresh, haborts, rfl, rfl, _, List.mem_append_right _ (List.mem_singleton_self _), rfl⟩

end FileDrive.Bucket
