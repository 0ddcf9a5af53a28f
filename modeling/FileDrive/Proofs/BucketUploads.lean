import Mathlib.Logic.Basic
import FileDrive.Storage.Bucket

/-!
# What an upload to a bucket leaves

While the parts of a stream are sent, a server keeps its objects and all parts that have come
(`Sending`), and when the upload is completed, the parts that are listed are those that were sent
(`assembled?_listing`).

A stream that is shorter than one part is checked before anything is sent, and one that breaks off
is never completed, so neither changes an object. Only a long stream that can be read to its end is
there before its length is known. When the length is not the declared one, it is taken out again;
but completing it has already taken the place of what was under the key before.
-/

namespace FileDrive.Bucket

variable {α β : Type} {server after : Server}

namespace ServerM

variable {action : ServerM α} {next : α → ServerM β} {handler : StorageError → ServerM α}

/-- The result of an action and the server afterwards satisfy `P`. -/
def Ends (action : ServerM α) (server : Server) (P : Except StorageError α → Server → Prop) :
    Prop :=
  P (runOn action server).1 (runOn action server).2

/-! ## Single actions -/

theorem runOn_bind (action : ServerM α) (next : α → ServerM β) (server : Server) :
    runOn (action >>= next) server =
      match runOn action server with
      | (.ok value, after) => runOn (next value) after
      | (.error e, after) => (.error e, after) := by
  rw [runOn, ExceptT.run_bind, StateT.run_bind]
  rcases h : action.run.run server with ⟨result, after⟩
  cases result with
  | ok value => simp only [runOn, h]; rfl
  | error e => simp only [runOn, h]; rfl

theorem runOn_tryCatch (action : ServerM α) (handler : StorageError → ServerM α)
    (server : Server) :
    runOn (tryCatch action handler) server =
      match runOn action server with
      | (.ok value, after) => (.ok value, after)
      | (.error e, after) => runOn (handler e) after := by
  rcases h : runOn action server with ⟨result, after⟩
  have hrun : StateT.run action server = (result, after) := h
  change (ExceptT.tryCatch action handler).run.run server = _
  unfold ExceptT.tryCatch
  rw [ExceptT.run_mk, StateT.run_bind, hrun]
  cases result with
  | ok value => rfl
  | error e => rfl

theorem runOn_call (c : Call) (reason : Refusal → StorageError) (server : Server) :
    runOn (call c reason) server = ((server.send c).1.mapError reason, (server.send c).2) := by
  rcases h : server.send c with ⟨reply, after⟩
  have hget : runOn (get : ServerM Server) server = (.ok server, server) := rfl
  have hset : runOn (set after : ServerM PUnit) server = (.ok ⟨⟩, after) := rfl
  simp only [call, runOn_bind, hget, h, hset]
  cases reply with
  | ok reply => rfl
  | error refusal => rfl

/-! ## Rules -/

variable {P : Except StorageError β → Server → Prop}

theorem Ends.mono {P Q : Except StorageError α → Server → Prop} (h : action.Ends server P)
    (le : ∀ result after, P result after → Q result after) : action.Ends server Q :=
  le _ _ h

/-- What an action ends in, the result and the server at hand satisfy. -/
theorem Ends.of_runOn {P : Except StorageError α → Server → Prop} {result : Except StorageError α}
    (h : action.Ends server P) (hrun : runOn action server = (result, after)) : P result after := by
  unfold Ends at h
  rwa [hrun] at h

theorem Ends.bind
    (h : action.Ends server fun result after =>
      match result with
      | .ok value => (next value).Ends after P
      | .error e => P (.error e) after) :
    (action >>= next).Ends server P := by
  unfold Ends at *
  rw [runOn_bind]
  rcases hr : runOn action server with ⟨result, after⟩
  rw [hr] at h
  cases result with
  | ok value => exact h
  | error e => exact h

theorem Ends.get_bind {next : Server → ServerM β} (h : (next server).Ends server P) :
    ((get : ServerM Server) >>= next).Ends server P := Ends.bind h

theorem Ends.throw {e : StorageError} (h : P (.error e) server) :
    (MonadExcept.throw e : ServerM β).Ends server P := h

theorem Ends.throw_bind {e : StorageError} (h : P (.error e) server) :
    ((MonadExcept.throw e : ServerM α) >>= next).Ends server P := Ends.bind h

theorem Ends.tryCatch {P : Except StorageError α → Server → Prop}
    (h : action.Ends server fun result after =>
      match result with
      | .ok value => P (.ok value) after
      | .error e => (handler e).Ends after P) :
    (MonadExcept.tryCatch action handler).Ends server P := by
  unfold Ends at *
  rw [runOn_tryCatch]
  rcases hr : runOn action server with ⟨result, after⟩
  rw [hr] at h
  cases result with
  | ok value => exact h
  | error e => exact h

/-- Whatever an action comes to, what follows goes on. -/
theorem Ends.ignore_bind {action : ServerM Unit} {next : Unit → ServerM β}
    (h : action.Ends server fun _ after => (next ()).Ends after P) :
    (MonadExcept.tryCatch action (fun _ => pure ()) >>= next).Ends server P := by
  refine Ends.bind (Ends.tryCatch (h.mono fun result after hnext => ?_))
  cases result with
  | ok value => exact hnext
  | error e => exact hnext

theorem Ends.discard {P : Except StorageError Unit → Server → Prop}
    (h : action.Ends server fun result after => P (result.map fun _ => ()) after) :
    (discard action).Ends server P := by
  change (action >>= fun _ => pure ()).Ends server P
  refine Ends.bind (h.mono fun result after hr => ?_)
  cases result with
  | ok value => exact hr
  | error e => exact hr

theorem Ends.call {c : Call} {reason : Refusal → StorageError}
    {P : Except StorageError Reply → Server → Prop}
    (h : P ((server.send c).1.mapError reason) (server.send c).2) :
    (call c reason).Ends server P := by
  unfold Ends
  rw [runOn_call]
  exact h

end ServerM

/-! ## Calls -/

/-- Whether a call puts an object into the bucket or takes one out. -/
def Call.writes : Call → Bool
  | putObject _ _ _ | copyObject _ _ | deleteObject _ | completeUpload _ _ _ => true
  | createBucket _ | headBucket _ | getObject _ _ | beginUpload _ _ | uploadPart _ _ _ _
  | abortUpload _ _ => false

namespace Server

variable {c : Call} {key contentType : String} {data : ByteArray} {id number : Nat}

/-- The other calls leave every object as it is, whether they fail or not. -/
theorem perform_objects (h : c.writes = false) :
    (server.perform c).2.objects = server.objects := by
  cases c with
  | putObject | copyObject | deleteObject | completeUpload => cases h
  | createBucket | headBucket | getObject | beginUpload | uploadPart | abortUpload =>
    dsimp only [perform]
    repeat' split
    all_goals rfl

theorem send_objects (server : Server) (h : c.writes = false) :
    (server.send c).2.objects = server.objects := by
  unfold send
  split
  · rfl
  split
  · rfl
  split
  · rfl
  · exact perform_objects h

/-- What an object has taken the place of does not come back when it is taken out. -/
theorem withoutObject_of_withObject {object : StoredObject}
    (h : after.objects = (server.withObject key object).objects) :
    (after.withoutObject key).objects = (server.withoutObject key).objects := by
  simp [withoutObject, withObject, h, List.filter_filter]

/-- A server on which no call fails that is about an object. -/
structure Steady (server : Server) : Prop where
  reachable : server.reachable = true
  bucket : server.bucket ∈ server.buckets
  faultless : ∀ number call, server.faults number call = none

theorem Steady.perform (h : server.Steady) (c : Call) : (server.perform c).2.Steady := by
  obtain ⟨hreachable, hbucket, hfaultless⟩ := h
  cases c with
  | createBucket name =>
    dsimp only [Server.perform]
    split
    · exact ⟨hreachable, hbucket, hfaultless⟩
    · exact ⟨hreachable, List.mem_append_left _ hbucket, hfaultless⟩
  | headBucket | getObject | putObject | copyObject | deleteObject | beginUpload | uploadPart
  | completeUpload | abortUpload =>
    dsimp only [Server.perform]
    repeat' split
    all_goals exact ⟨hreachable, hbucket, hfaultless⟩

/-- The server with a call in its log. -/
def logged (server : Server) (c : Call) : Server := { server with log := server.log ++ [c] }

theorem Steady.logged (h : server.Steady) (c : Call) : (server.logged c).Steady :=
  ⟨h.reachable, h.bucket, h.faultless⟩

/-- A call reaches the server, and the server carries it out. -/
structure Grants (server : Server) (c : Call) : Prop where
  built : c.key? ≠ some ""
  reachable : server.reachable = true
  faultless : server.faults server.log.length c = none

theorem Grants.send (h : server.Grants c) :
    server.send c =
      (((server.logged c).perform c).1.mapError .status, ((server.logged c).perform c).2) := by
  unfold Server.send
  rw [if_neg h.built, if_neg (by simp [h.reachable])]
  simp only [h.faultless]
  rfl

/-- A call that is not carried out fails, and the server stays as it is but for its log. -/
theorem send_refused (h : ¬server.Grants c) :
    ∃ refusal log, server.send c = (.error refusal, { server with log }) := by
  unfold send
  by_cases hbuilt : c.key? = some ""
  · rw [if_pos hbuilt]
    exact ⟨_, _, rfl⟩
  rw [if_neg hbuilt]
  by_cases hreachable : server.reachable = true
  · rw [if_neg (by simp [hreachable])]
    rcases hfault : server.faults server.log.length c with _ | status
    · exact absurd ⟨hbuilt, hreachable, hfault⟩ h
    · exact ⟨_, _, rfl⟩
  · rw [if_pos (by simpa using hreachable)]
    exact ⟨_, _, rfl⟩

theorem send_unbuilt (h : c.key? = some key) (hkey : key = "") :
    server.send c = (.error .unbuilt, server) := by
  unfold send
  rw [if_pos (hkey ▸ h)]

/-- On a steady server a call with a key is carried out. -/
theorem Steady.send (h : server.Steady) (hc : c.key? = some key) (hkey : key ≠ "") :
    server.send c =
      (((server.logged c).perform c).1.mapError .status, ((server.logged c).perform c).2) := by
  have hbuilt : c.key? ≠ some "" := by simpa [hc] using hkey
  exact Grants.send ⟨hbuilt, h.reachable, h.faultless _ c⟩

theorem Steady.after_send (h : server.Steady) (hc : c.key? = some key) (hkey : key ≠ "") :
    (server.send c).2.Steady := by
  rw [h.send hc hkey]
  exact (h.logged c).perform c

theorem Steady.there (h : server.Steady) : (!server.buckets.contains server.bucket) = false := by
  simpa using h.bucket

/-- The upload that goes by a number once it has begun. -/
def begunUpload (server : Server) (key contentType : String) : Upload :=
  (server.uploads.find? (·.id = server.begun)).getD ⟨server.begun, key, contentType, []⟩

theorem id_begunUpload (server : Server) (key contentType : String) :
    (server.begunUpload key contentType).id = server.begun := by
  unfold begunUpload
  cases hfound : server.uploads.find? (·.id = server.begun) with
  | none => rw [Option.getD_none]
  | some upload =>
    rw [Option.getD_some]
    simpa using List.find?_some hfound

/-- The server once an upload has begun. -/
def uploading (server : Server) (key contentType : String) : Server :=
  { server.logged (.beginUpload key contentType) with
    begun := server.begun + 1
    uploads := server.uploads ++ [⟨server.begun, key, contentType, []⟩] }

theorem find?_uploading (server : Server) (key contentType : String) :
    (server.uploading key contentType).uploads.find? (·.id = server.begun) =
      some (server.begunUpload key contentType) := by
  show (server.uploads ++ [_]).find? _ = _
  rw [List.find?_append, begunUpload]
  cases server.uploads.find? (·.id = server.begun) with
  | none => simp
  | some upload => simp

theorem Steady.beginUpload (h : server.Steady) (hkey : key ≠ "") (contentType : String) :
    server.send (.beginUpload key contentType) =
      (.ok (.upload server.begun), server.uploading key contentType) := by
  rw [h.send (by rfl) hkey]
  simp only [Server.perform, (h.logged _).there, Bool.false_eq_true, if_false]
  rfl

theorem Steady.putObject (h : server.Steady) (hkey : key ≠ "") :
    (server.send (.putObject key contentType data)).1 = .ok .done := by
  rw [h.send (by rfl) hkey]
  simp only [Server.perform, (h.logged _).there, Bool.false_eq_true, if_false]
  rfl

theorem Steady.deleteObject (h : server.Steady) (hkey : key ≠ "") :
    (server.send (.deleteObject key)).2.objects = (server.withoutObject key).objects := by
  rw [h.send (by rfl) hkey]
  simp only [Server.perform, (h.logged _).there, Bool.false_eq_true, if_false]
  rfl

end Server

/-! ## Parts on a server -/

open ServerM

variable {key path contentType : String} {size id number : Nat} {stream : ByteStream}
  {now : Server} {upload : Upload} {sent : List (ByteArray × Nat)}

/-- The call that sends a part under its number. -/
def partCall (key : String) (id : Nat) (part : ByteArray × Nat) : Call :=
  .uploadPart key id part.2 part.1

/-- Parts that have been sent, as they are listed. -/
def listing (tagOf : Nat → Nat → ByteArray → Option String) (id : Nat)
    (sent : List (ByteArray × Nat)) : List ListedPart :=
  sent.map fun part => ⟨part.2, tagOf id part.2 part.1⟩

/-- The call that completes an upload of which some parts have been sent. -/
def completion (tagOf : Nat → Nat → ByteArray → Option String) (key : String) (id : Nat)
    (sent : List (ByteArray × Nat)) : Call := .completeUpload key id (listing tagOf id sent)

/-- The server with one more part of an upload. -/
def Server.withPart (server : Server) (id : Nat) (part : ByteArray × Nat) : Server :=
  { server with
    uploads := server.uploads.map fun upload =>
      if upload.id = id then { upload with parts := upload.parts ++ [part.swap] } else upload }

theorem find?_withPart (h : server.uploads.find? (·.id = id) = some upload)
    (part : ByteArray × Nat) :
    (server.withPart id part).uploads.find? (·.id = id) =
      some { upload with parts := upload.parts ++ [part.swap] } := by
  have hid : upload.id = id := by simpa using List.find?_some h
  show (server.uploads.map _).find? _ = _
  rw [List.find?_map]
  have hsame : ((fun upload : Upload => decide (upload.id = id)) ∘ fun upload =>
      if upload.id = id then { upload with parts := upload.parts ++ [part.swap] } else upload) =
        fun upload => decide (upload.id = id) := by
    funext upload
    rw [Function.comp_apply]
    split
    · rfl
    · rfl
  rw [hsame, h, Option.map_some, if_pos hid]

theorem Server.Steady.send_part (hs : server.Steady) (hkey : key ≠ "")
    (hopen : server.uploads.any (·.id = id)) (part : ByteArray × Nat) :
    server.send (partCall key id part) =
      (.ok (.part (server.tagOf id part.2 part.1)),
        (server.logged (partCall key id part)).withPart id part) := by
  rw [hs.send (c := partCall key id part) rfl hkey]
  have hhere : (server.logged (partCall key id part)).uploads.any (·.id = id) = true := hopen
  unfold partCall at hhere ⊢
  simp only [Server.perform, (hs.logged _).there, hhere, Bool.false_eq_true, if_false, if_true]
  rfl

/-- Of entries with different keys, each is found under its own. -/
theorem lookup_of_mem {α β : Type} [BEq α] [LawfulBEq α] {entries : List (α × β)} {entry : α × β}
    (h : (entries.map Prod.fst).Nodup) (hmem : entry ∈ entries) :
    entries.lookup entry.1 = some entry.2 := by
  obtain ⟨before, behind, rfl⟩ := List.append_of_mem hmem
  rw [List.map_append, List.map_cons] at h
  have hnew : before.lookup entry.1 = none := by
    rw [List.lookup_eq_none_iff]
    intro other hother
    rw [bne_iff_ne]
    exact fun heq => (List.nodup_append.1 h).2.2 _ (List.mem_map_of_mem hother) _
      List.mem_cons_self heq.symm
  rw [List.lookup_append, hnew, Option.none_or]
  exact List.lookup_cons_self

/-- The parts that came last are put together when all of them are listed in the order of their
numbers. -/
theorem Server.assembled?_listing (server : Server) (upload : Upload)
    {older : List (Nat × ByteArray)} (hparts : upload.parts = older ++ sent.map Prod.swap)
    (hsome : sent ≠ []) (hnumbers : (sent.map Prod.snd).Pairwise (· < ·)) :
    server.assembled? upload (listing server.tagOf upload.id sent) =
      some ((sent.map Prod.fst).foldl (· ++ ·) ByteArray.empty) := by
  have hkeys : ((sent.map Prod.swap).reverse.map Prod.fst).Nodup := by
    rw [List.map_reverse, List.Nodup, List.pairwise_reverse, List.map_map]
    exact hnumbers.imp fun hlt => Nat.ne_of_gt hlt
  have hlisted : ∀ part ∈ sent, server.listed? upload
      ⟨part.2, server.tagOf upload.id part.2 part.1⟩ = some part.1 := by
    intro part hpart
    have hmem : part.swap ∈ (sent.map Prod.swap).reverse :=
      List.mem_reverse.2 (List.mem_map_of_mem hpart)
    unfold Server.listed?
    rw [hparts, List.reverse_append, List.lookup_append,
      show (sent.map Prod.swap).reverse.lookup part.2 = some part.1 from lookup_of_mem hkeys hmem]
    simp
  have hall : (listing server.tagOf upload.id sent).mapM (server.listed? upload) =
      some (sent.map Prod.fst) := by
    clear hparts hsome hnumbers hkeys
    unfold listing
    induction sent with
    | nil => rfl
    | cons part sent ih =>
      rw [List.map_cons, List.mapM_cons, hlisted part List.mem_cons_self,
        ih fun other hother => hlisted other (List.mem_cons_of_mem part hother)]
      rfl
  have hup : (listing server.tagOf upload.id sent).Pairwise (·.number < ·.number) := by
    unfold listing
    rw [List.pairwise_map] at hnumbers ⊢
    exact hnumbers
  have hlong : listing server.tagOf upload.id sent ≠ [] := by
    simpa [listing] using hsome
  rw [Server.assembled?, if_pos ⟨hlong, hup⟩, hall, Option.map_some]

/-- A server on which some parts of an upload have been sent since it had begun, and nothing else
has happened. -/
structure Sending (server : Server) (key : String) (upload : Upload)
    (sent : List (ByteArray × Nat)) (now : Server) : Prop where
  steady : now.Steady
  objects : now.objects = server.objects
  tagOf : now.tagOf = server.tagOf
  found : now.uploads.find? (·.id = upload.id) =
    some { upload with parts := upload.parts ++ sent.map Prod.swap }
  log : now.log = server.log ++ sent.map (partCall key upload.id)

namespace Sending

/-- One more part. -/
theorem part (h : Sending server key upload sent now) (hkey : key ≠ "")
    (part : ByteArray × Nat) :
    (now.send (partCall key upload.id part)).1 =
        .ok (.part (server.tagOf upload.id part.2 part.1)) ∧
      Sending server key upload (sent ++ [part]) (now.send (partCall key upload.id part)).2 := by
  have hsteady := h.steady.after_send (c := partCall key upload.id part) rfl hkey
  have hopen : now.uploads.any (·.id = upload.id) = true :=
    List.any_eq_true.2 ⟨_, List.mem_of_find?_eq_some h.found, decide_eq_true rfl⟩
  rw [h.steady.send_part hkey hopen part] at hsteady ⊢
  refine ⟨by rw [h.tagOf], hsteady, h.objects, h.tagOf, ?_, ?_⟩
  · have hfound : (now.logged (partCall key upload.id part)).uploads.find? (·.id = upload.id) =
        some _ := h.found
    rw [find?_withPart hfound, List.map_append]
    simp
  · show now.log ++ [partCall key upload.id part] = _
    rw [h.log, List.map_append, List.append_assoc]
    rfl

/-- Completing the upload puts the parts that were sent under the key, one after another. -/
theorem complete (h : Sending server key upload sent now) (hkey : key ≠ "") (hsome : sent ≠ [])
    (hnumbers : (sent.map Prod.snd).Pairwise (· < ·)) :
    ∃ after, now.send (completion server.tagOf key upload.id sent) = (.ok .done, after) ∧
      after.Steady ∧
      after.objects = (server.withObject key
        ⟨upload.contentType, (sent.map Prod.fst).foldl (· ++ ·) ByteArray.empty⟩).objects ∧
      after.log = now.log ++ [completion server.tagOf key upload.id sent] := by
  have hafter := h.steady.after_send (c := completion server.tagOf key upload.id sent) rfl hkey
  have hsend := h.steady.send (c := completion server.tagOf key upload.id sent) rfl hkey
  obtain ⟨logged, hlogged⟩ :
    ∃ logged, logged = now.logged (completion server.tagOf key upload.id sent) := ⟨_, rfl⟩
  rw [← hlogged] at hsend
  have hthere : (!logged.buckets.contains logged.bucket) = false := by
    rw [hlogged]
    exact h.steady.there
  have hfound : logged.uploads.find? (·.id = upload.id) =
      some { upload with parts := upload.parts ++ sent.map Prod.swap } := by
    rw [hlogged]
    exact h.found
  have htags : logged.tagOf = server.tagOf := by
    rw [hlogged]
    exact h.tagOf
  have hassembled := logged.assembled?_listing
    { upload with parts := upload.parts ++ sent.map Prod.swap } rfl hsome hnumbers
  rw [htags] at hassembled
  unfold completion at hsend hafter
  simp only [Server.perform, hthere, hfound, hassembled, Bool.false_eq_true, if_false] at hsend
  rw [hsend] at hafter
  refine ⟨_, hsend, hafter, ?_, ?_⟩
  · show logged.objects.filter _ ++ _ = _
    rw [hlogged, show (now.logged _).objects = server.objects from h.objects]
    rfl
  · show logged.log = _
    rw [hlogged]
    rfl

end Sending

/-! ## Uploads in parts -/

/-- What meeting the end of a stream comes to. -/
def streamEnd {α : Type} (failure : Option IoError) (value : α) : Except StorageError α :=
  match failure with
  | none => .ok value
  | some cause => .error (.io cause)

/-- The parts that are sent one after another are numbered from the first one on, and all of them
are listed. -/
theorem uploadParts_sends (failure : Option IoError) (pieces : List ByteArray) (hkey : key ≠ "")
    (h : Sending server key upload sent now) :
    (uploadParts key upload.id failure number pieces).Ends now fun result after =>
      result = streamEnd failure (listing server.tagOf upload.id (pieces.zipIdx number)) ∧
        Sending server key upload (sent ++ pieces.zipIdx number) after := by
  -- Each part that is sent leaves the upload under way for the next one.
  induction pieces generalizing sent number now with
  | nil =>
    rw [List.zipIdx_nil, List.append_nil]
    unfold uploadParts
    cases failure with
    | none => exact ⟨rfl, h⟩
    | some cause => exact ⟨rfl, h⟩
  | cons piece pieces ih =>
    obtain ⟨hreply, hnext⟩ := h.part hkey (piece, number)
    unfold uploadParts
    apply Ends.bind
    apply Ends.call
    rw [show (now.send (.uploadPart key upload.id number piece)).1 = _ from hreply]
    apply Ends.bind
    apply (ih hnext).mono
    rintro _ after ⟨rfl, hsent⟩
    rw [List.append_assoc] at hsent
    cases failure with
    | none => exact ⟨rfl, hsent⟩
    | some cause => exact ⟨rfl, hsent⟩

/-- The calls of an upload in parts. -/
def uploadCalls (tagOf : Nat → Nat → ByteArray → Option String) (key contentType : String)
    (id : Nat) (pieces : List ByteArray) : List Call :=
  .beginUpload key contentType :: (pieces.zipIdx 1).map (partCall key id) ++
    [completion tagOf key id (pieces.zipIdx 1)]

/-- Once a stream has been sent in parts, the parts are under the key when it has come to its end,
and all objects are as they were when it has broken off. -/
theorem putInParts_sends (contentType : String) (hs : server.Steady) (hkey : key ≠ "")
    (hsome : parts stream ≠ []) :
    (putInParts key contentType stream).Ends server fun result after =>
      result = streamEnd stream.failure () ∧ after.Steady ∧
        match stream.failure with
        | some _ => after.objects = server.objects
        | none =>
          after.objects = (server.withObject key
            ⟨(server.begunUpload key contentType).contentType,
              (parts stream).foldl (· ++ ·) ByteArray.empty⟩).objects ∧
            after.log = server.log ++
              uploadCalls server.tagOf key contentType server.begun (parts stream) := by
  have hbegins := hs.beginUpload hkey contentType
  have hsteady := hs.after_send (c := .beginUpload key contentType) rfl hkey
  have hfound := server.find?_uploading key contentType
  have hlog : (server.uploading key contentType).log =
    server.log ++ [.beginUpload key contentType] := rfl
  have hobjects : (server.uploading key contentType).objects = server.objects := rfl
  have htagOf : (server.uploading key contentType).tagOf = server.tagOf := rfl
  rw [hbegins] at hsteady
  rw [← server.id_begunUpload key contentType] at hbegins hfound ⊢
  generalize server.begunUpload key contentType = upload at hbegins hfound ⊢
  generalize server.uploading key contentType = begun at *
  unfold putInParts
  generalize parts stream = pieces at hsome ⊢
  apply Ends.bind
  apply Ends.call
  rw [hbegins]
  have hsending : Sending begun key upload [] begun :=
    ⟨hsteady, rfl, rfl, by simpa using hfound, by simp⟩
  apply Ends.bind
  apply Ends.tryCatch
  apply (uploadParts_sends stream.failure pieces hkey hsending).mono
  rintro _ sent ⟨rfl, hsent⟩
  rw [List.nil_append] at hsent
  rcases hfailure : stream.failure with _ | cause
  · have hpieces : pieces.zipIdx 1 ≠ [] := by simpa using hsome
    have hnumbers : ((pieces.zipIdx 1).map Prod.snd).Pairwise (· < ·) := by
      rw [List.zipIdx_map_snd]
      exact List.pairwise_lt_range' 1
    obtain ⟨after, hdone, hafter, hput, hcalls⟩ := hsent.complete hkey hpieces hnumbers
    dsimp only [streamEnd]
    apply Ends.discard
    apply Ends.call
    rw [show sent.send (.completeUpload key upload.id _) = (.ok .done, after) from hdone]
    refine ⟨rfl, hafter, ?_, ?_⟩
    · rw [hput, List.zipIdx_map_fst, Server.withObject, Server.withObject, hobjects]
    · rw [hcalls, hsent.log, hlog, htagOf, uploadCalls, List.append_assoc, List.append_assoc,
        List.singleton_append, List.cons_append]
  · dsimp only [streamEnd]
    refine Ends.ignore_bind (Ends.discard (Ends.call ?_))
    refine Ends.throw ⟨rfl, hsent.steady.after_send rfl hkey, ?_⟩
    exact (Server.send_objects _ rfl).trans (hsent.objects.trans hobjects)

/-- A stream that is at least as long as a part has parts. -/
theorem parts_ne_nil (h : partSize ≤ stream.data.size) : parts stream ≠ [] := by
  have hsize : 0 < partSize := by decide
  have hwhole : partSize ≤ stream.data.size / partSize * partSize :=
    Nat.le_mul_of_pos_left partSize (Nat.div_pos h hsize)
  unfold parts chunks
  generalize partSize = size at h hsize hwhole ⊢
  rw [ne_eq, List.map_eq_nil_iff, List.range_eq_nil]
  apply Nat.ne_of_gt
  apply Nat.div_pos _ hsize
  split
  · rw [ByteArray.size_extract]
    have hle := Nat.div_mul_le_self stream.data.size size
    omega
  · omega

theorem deleteObject_ends (hs : server.Steady) (hkey : objectKey path ≠ "") :
    (deleteObject path).Ends server fun _ after =>
      after.objects = (server.withoutObject (objectKey path)).objects := by
  unfold deleteObject
  refine Ends.discard (Ends.call ?_)
  exact hs.deleteObject hkey

/-- How an upload to a steady server ends, and what it leaves in the bucket. -/
inductive Uploaded (server : Server) (path : String) (size : Nat) (stream : ByteStream) :
    Except StorageError Unit → Server → Prop where
  /-- No object can be kept under an empty key. -/
  | unaddressed {result : Except StorageError Unit} {after : Server} (key : objectKey path = "")
      (fails : result.isOk = false) (same : after.objects = server.objects) :
      Uploaded server path size stream result after
  | broken {cause : IoError} {after : Server} (failure : stream.failure = some cause)
      (same : after.objects = server.objects) :
      Uploaded server path size stream (.error (.io cause)) after
  | unsent {after : Server} (failure : stream.failure = none) (wrong : stream.data.size ≠ size)
      (short : stream.data.size < partSize) (same : after.objects = server.objects) :
      Uploaded server path size stream
        (.error (.sizeMismatch path size stream.data.size)) after
  /-- It has been completed, in the place of what was there, and has been taken out. -/
  | withdrawn {after : Server} (key : objectKey path ≠ "") (failure : stream.failure = none)
      (wrong : stream.data.size ≠ size) (long : partSize ≤ stream.data.size)
      (gone : after.objects = (server.withoutObject (objectKey path)).objects) :
      Uploaded server path size stream
        (.error (.sizeMismatch path size stream.data.size)) after
  | stored {after : Server} (failure : stream.failure = none) (right : stream.data.size = size) :
      Uploaded server path size stream (.ok ()) after

theorem putObject_ends (path : String) (size : Nat) (stream : ByteStream) (contentType : String)
    (hs : server.Steady) :
    (putObject path size stream contentType).Ends server (Uploaded server path size stream) := by
  unfold putObject
  dsimp only
  split
  · next hshort =>
    rcases hfailure : stream.failure with _ | cause
    · dsimp only
      split
      · next hwrong => exact Ends.throw_bind (.unsent hfailure hwrong hshort rfl)
      · next hright =>
        refine Ends.discard (Ends.call ?_)
        by_cases hkey : objectKey path = ""
        · rw [Server.send_unbuilt (c := .putObject _ _ _) rfl hkey]
          exact .unaddressed hkey rfl rfl
        · rw [hs.putObject hkey]
          exact .stored hfailure (not_ne_iff.1 hright)
    · exact Ends.throw_bind (.broken hfailure rfl)
  · next hlong =>
    refine Ends.bind ?_
    by_cases hkey : objectKey path = ""
    · refine Ends.bind (Ends.call ?_)
      rw [Server.send_unbuilt (c := .beginUpload _ _) rfl hkey]
      exact .unaddressed hkey rfl rfl
    · refine (putInParts_sends contentType hs hkey (parts_ne_nil (Nat.not_lt.1 hlong))).mono ?_
      rintro _ put ⟨rfl, hput, hleft⟩
      rcases hfailure : stream.failure with _ | cause
      · rw [hfailure] at hleft
        obtain ⟨hobjects, -⟩ := hleft
        by_cases hright : stream.data.size = size
        · rw [if_neg (not_ne_iff.2 hright)]
          exact .stored hfailure hright
        · rw [if_pos hright]
          refine Ends.ignore_bind ((deleteObject_ends hput hkey).mono fun _ after hgone => ?_)
          refine Ends.throw (.withdrawn hkey hfailure hright (Nat.not_lt.1 hlong) ?_)
          rw [hgone, Server.withoutObject_of_withObject hobjects]
      · rw [hfailure] at hleft
        exact .broken hfailure hleft

theorem withoutObject_of_free (h : server.objects.lookup key = none) :
    (server.withoutObject key).objects = server.objects := by
  refine List.filter_eq_self.2 fun object hmem => ?_
  have hother := bne_iff_ne.1 (List.lookup_eq_none_iff.1 h object hmem)
  exact decide_eq_true (Ne.symm hother)

theorem put_uploaded (hs : server.Steady)
    {result : Except StorageError Unit}
    (h : store.put path size stream contentType server = (result, after)) :
    Uploaded server path size stream result after := by
  have hends := putObject_ends path size stream contentType hs
  change runOn (putObject path size stream contentType) server = (result, after) at h
  unfold Ends at hends
  rwa [h] at hends

/-- A long stream of the wrong length takes the place of an object before it is taken out. -/
theorem put_withdrawn (contentType : String) (hs : server.Steady) (hkey : objectKey path ≠ "")
    (hlong : partSize ≤ stream.data.size) (hwhole : stream.failure = none)
    (hwrong : stream.data.size ≠ size) :
    (store.put path size stream contentType server).1 =
        .error (.sizeMismatch path size stream.data.size) ∧
      (store.put path size stream contentType server).2.objects =
        (server.withoutObject (objectKey path)).objects := by
  rcases hput : store.put path size stream contentType server with ⟨result, after⟩
  cases put_uploaded hs hput with
  | unaddressed key => exact absurd key hkey
  | broken failure =>
    rw [hwhole] at failure
    cases failure
  | unsent _ _ short => exact absurd short (Nat.not_lt.2 hlong)
  | withdrawn _ _ _ _ gone => exact ⟨rfl, gone⟩
  | stored _ right => exact absurd right hwrong

/-- What a failed upload leaves on a server on which no call fails. When the stream is shorter than
a part, breaks off, or has no object to take the place of, the bucket keeps what it held. Otherwise
the object that was there is gone. -/
theorem put_error_objects {e : StorageError} (hs : server.Steady)
    (h : store.put path size stream contentType server = (.error e, after)) :
    (stream.data.size < partSize ∨ stream.failure ≠ none ∨ objectKey path = "" ∨
        server.objects.lookup (objectKey path) = none → after.objects = server.objects) ∧
      (partSize ≤ stream.data.size → stream.failure = none → objectKey path ≠ "" →
        after.objects = (server.withoutObject (objectKey path)).objects) := by
  cases put_uploaded hs h with
  | unaddressed key _ same => exact ⟨fun _ => same, fun _ _ hkey => absurd key hkey⟩
  | broken failure same =>
    refine ⟨fun _ => same, fun _ hnone => ?_⟩
    rw [failure] at hnone
    cases hnone
  | unsent _ _ short same => exact ⟨fun _ => same, fun long => absurd short (Nat.not_lt.2 long)⟩
  | withdrawn key failure _ long gone =>
    refine ⟨?_, fun _ _ _ => gone⟩
    rintro (hshort | hbroken | hkey | hfree)
    · exact absurd hshort (Nat.not_lt.2 long)
    · exact absurd failure hbroken
    · exact absurd hkey key
    · rw [gone, withoutObject_of_free hfree]

/-- A short stream of the wrong length is to take the place of an object. -/
theorem put_error_objects_of_short_overwrite :
    let server : Server :=
      ⟨true, "drive", ["drive"], [("a", ⟨"text/plain", ⟨#[1]⟩⟩)], [], 0, fun _ _ => none,
        fun _ _ _ => none, []⟩
    let failed := store.put "/a" 5 ⟨⟨#[2]⟩, none⟩ "text/plain" server
    server.Steady ∧ failed.1.isOk = false ∧ failed.2.objects = server.objects := by
  intro server failed
  have hs : server.Steady := ⟨rfl, List.mem_singleton_self _, fun _ _ => rfl⟩
  have hfails : failed = (.error (.sizeMismatch "/a" 5 1), failed.2) := by rfl
  refine ⟨hs, by rw [hfails]; rfl, (put_error_objects hs hfails).1 (Or.inl (by decide))⟩

/-- A stream of one part that is declared to be one byte long takes an object with it. -/
theorem overwrite_by_long_stream_loses_object :
    let server : Server :=
      ⟨true, "drive", ["drive"], [("a", ⟨"text/plain", ⟨#[1]⟩⟩)], [], 0, fun _ _ => none,
        fun _ _ _ => none, []⟩
    let zeros : ByteStream := ⟨⟨Array.replicate partSize 0⟩, none⟩
    let failed := store.put "/a" 1 zeros "text/plain" server
    server.Steady ∧ failed.1.isOk = false ∧ server.objects.map (·.1) = ["a"] ∧
      failed.2.objects = [] := by
  intro server zeros failed
  have hs : server.Steady := ⟨rfl, List.mem_singleton_self _, fun _ _ => rfl⟩
  have hsize : zeros.data.size = partSize := Array.size_replicate
  have hwhole : zeros.failure = none := rfl
  clear_value zeros
  have hkey : objectKey "/a" = "a" := by decide +kernel
  have hroot : objectKey "/a" ≠ "" := by
    rw [hkey]
    decide
  have hwrong : zeros.data.size ≠ 1 := by
    rw [hsize]
    decide
  obtain ⟨hresult, hobjects⟩ :=
    put_withdrawn "text/plain" hs hroot (Nat.le_of_eq hsize.symm) hwhole hwrong
  have hnone : (server.withoutObject (objectKey "/a")).objects = [] := by
    simp [server, hkey, Server.withoutObject]
  exact ⟨hs, congrArg Except.isOk hresult, rfl, hobjects.trans hnone⟩

end FileDrive.Bucket
