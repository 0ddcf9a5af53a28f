import FileDrive.Proofs.StreamParts
import FileDrive.Proofs.Tables

/-!
# Uploads carry their streams

A server puts an object together from the parts that are listed when its upload is completed. They
are all the parts of the stream, in the order in which they were sent, so that an upload leaves the
bytes of its stream under its key and changes nothing else.
-/

namespace FileDrive.Bucket

open ServerM

/-! ## Parts on a server -/

variable {server : Server} {stream : ByteStream} {key path contentType : String}

/-- No upload that is under way has the number of one that has not begun. -/
def Server.Fresh (server : Server) : Prop := ∀ upload ∈ server.uploads, upload.id < server.begun

theorem Server.Fresh.perform (h : server.Fresh) (c : Call) : (server.perform c).2.Fresh := by
  cases c with
  | createBucket name =>
    dsimp only [Server.perform]
    split
    · exact h
    · exact h
  | headBucket name => exact h
  | getObject | putObject | copyObject | deleteObject =>
    dsimp only [Server.perform]
    repeat' split
    all_goals exact h
  | beginUpload key contentType =>
    dsimp only [Server.perform]
    split
    · exact h
    · intro upload hmem
      obtain hmem | hmem := List.mem_append.1 hmem
      · exact Nat.lt_succ_of_lt (h upload hmem)
      · cases List.mem_singleton.1 hmem
        exact Nat.lt_succ_self _
  | uploadPart key id number data =>
    dsimp only [Server.perform]
    split
    · exact h
    split
    · intro upload hmem
      obtain ⟨old, hold, rfl⟩ := List.mem_map.1 hmem
      have hlt := h old hold
      split
      · exact hlt
      · exact hlt
    · exact h
  | completeUpload key id parts =>
    dsimp only [Server.perform]
    split
    · exact h
    split
    · split
      · intro upload hmem
        exact h upload (List.mem_filter.1 hmem).1
      · exact h
    · exact h
  | abortUpload key id =>
    dsimp only [Server.perform]
    split
    · exact h
    split
    · intro upload hmem
      exact h upload (List.mem_filter.1 hmem).1
    · exact h

/-- Whatever is called, and whether it fails or not, uploads keep their own numbers. -/
theorem Server.Fresh.send (h : server.Fresh) (c : Call) : (server.send c).2.Fresh := by
  unfold Server.send
  split
  · exact h
  split
  · exact h
  dsimp only
  split
  · exact h
  · have hlogged : (server.logged c).Fresh := h
    exact hlogged.perform c

theorem lookup_withObject (server : Server) (key other : String) (object : StoredObject) :
    (server.withObject key object).objects.lookup other =
      if other = key then some object else server.objects.lookup other := by
  unfold Server.withObject
  rw [List.lookup_append, lookup_filter_key]
  by_cases h : other = key
  · rw [if_pos h, if_pos h, h]
    simp
  · rw [if_neg h, if_neg h]
    simp [List.lookup_cons, beq_eq_false_iff_ne.2 h]

/-- An upload that begins is the only one with its number. -/
theorem Server.Fresh.begunUpload (h : server.Fresh) (key contentType : String) :
    server.begunUpload key contentType = ⟨server.begun, key, contentType, []⟩ := by
  have hnew : server.uploads.find? (·.id = server.begun) = none := by
    rw [List.find?_eq_none]
    intro upload hmem
    have hlt := h upload hmem
    simp only [decide_eq_true_eq]
    omega
  rw [Server.begunUpload, hnew, Option.getD_none]

/-- What a server holds and has been called for once a stream is stored. -/
structure Kept (server : Server) (key contentType : String) (stream : ByteStream)
    (after : Server) : Prop where
  /-- The stream is under its key, and what is under the other keys stays. -/
  objects : ∀ other, after.objects.lookup other =
    if other = key then some ⟨contentType, stream.data⟩ else server.objects.lookup other
  short : stream.data.size < partSize →
    after.log = server.log ++ [.putObject key contentType stream.data]
  /-- The parts are numbered from one on, and the call that completes the upload lists all of them
  in this order. -/
  long : partSize ≤ stream.data.size → ∃ id pieces, Cuts partSize pieces stream.data ∧
    after.log = server.log ++ uploadCalls server.tagOf key contentType id pieces

theorem putObject_sends (hs : server.Steady) (hfresh : server.Fresh)
    (hwhole : stream.failure = none) (contentType : String) (hkey : objectKey path ≠ "") :
    (putObject path stream.data.size stream contentType).Ends server fun result after =>
      result = .ok () ∧ Kept server (objectKey path) contentType stream after := by
  unfold putObject
  dsimp only
  by_cases hshort : stream.data.size < partSize
  · rw [if_pos hshort, hwhole]
    dsimp only
    rw [if_neg (not_ne_iff.2 rfl)]
    apply Ends.discard
    apply Ends.call
    rw [hs.send (c := .putObject _ _ _) rfl hkey]
    simp only [Server.perform, (hs.logged _).there, Bool.false_eq_true, if_false]
    refine ⟨rfl, ?_, fun _ => rfl, fun hlong => absurd hshort (Nat.not_lt.2 hlong)⟩
    exact fun other => lookup_withObject server (objectKey path) other ⟨contentType, stream.data⟩
  · rw [if_neg hshort]
    apply Ends.bind
    apply (putInParts_sends contentType hs hkey (parts_ne_nil (Nat.not_lt.1 hshort))).mono
    rw [hwhole]
    rintro _ after ⟨rfl, -, hobjects, hlog⟩
    rw [hfresh.begunUpload, (cuts_parts hwhole).joined] at hobjects
    dsimp only [streamEnd]
    rw [if_neg (not_ne_iff.2 rfl)]
    refine ⟨rfl, ?_, fun h => absurd h hshort, fun _ => ⟨_, _, cuts_parts hwhole, hlog⟩⟩
    intro other
    show after.objects.lookup other = _
    rw [hobjects, lookup_withObject]

/-- Nothing is stored under an empty key. -/
theorem putObject_unaddressed (hwhole : stream.failure = none) (contentType : String)
    (hkey : objectKey path = "") :
    (putObject path stream.data.size stream contentType).Ends server fun result _ =>
      result ≠ .ok () := by
  unfold putObject
  dsimp only
  by_cases hshort : stream.data.size < partSize
  · rw [if_pos hshort, hwhole]
    dsimp only
    rw [if_neg (not_ne_iff.2 rfl)]
    apply Ends.discard
    apply Ends.call
    rw [Server.send_unbuilt (c := .putObject _ _ _) rfl hkey]
    intro h
    cases h
  · rw [if_neg hshort]
    apply Ends.bind
    unfold putInParts
    apply Ends.bind
    apply Ends.call
    rw [Server.send_unbuilt (c := .beginUpload _ _) rfl hkey]
    intro h
    cases h

/-- A stream that does not break off and is as long as it is declared to be is stored wherever there
is a key for it, read one part ahead. What is under the key afterwards are its bytes. A short stream
is sent at once; a longer one in parts that are numbered without gaps, are all listed in their order
and are the stream when they are joined. -/
theorem put_keeps_stream (hs : server.Steady) (hfresh : server.Fresh)
    (hwhole : stream.failure = none) (path contentType : String) :
    let put := store.put path stream.data.size stream contentType server
    put = runOn (putAhead path stream.data.size stream contentType) server ∧
      (put.1 = .ok () ↔ objectKey path ≠ "") ∧
      (put.1 = .ok () → Kept server (objectKey path) contentType stream put.2) := by
  intro put
  refine ⟨putObject_eq_putAhead path stream.data.size stream contentType server, ?_⟩
  by_cases hkey : objectKey path = ""
  · have hfails : put.1 ≠ .ok () := putObject_unaddressed hwhole contentType hkey
    exact ⟨⟨fun h => absurd h hfails, fun h => absurd hkey h⟩, fun h => absurd h hfails⟩
  · obtain ⟨hok, hkept⟩ := putObject_sends hs hfresh hwhole contentType hkey
    exact ⟨⟨fun _ => hkey, fun _ => hok⟩, fun _ => hkept⟩

/-- A stream of one part and a byte beside another object. -/
theorem put_keeps_stream_of_two_parts :
    let server : Server :=
      ⟨true, "drive", ["drive"], [("b", ⟨"text/plain", ⟨#[1]⟩⟩)], [], 0, fun _ _ => none,
        fun upload number _ => some (toString upload ++ "-" ++ toString number), []⟩
    let zeros : ByteStream := ⟨⟨Array.replicate (partSize + 1) 0⟩, none⟩
    let put := store.put "/a" zeros.data.size zeros "text/plain" server
    server.Steady ∧ server.Fresh ∧ zeros.failure = none ∧ put.1 = .ok () ∧
      put.2.objects.lookup "a" = some ⟨"text/plain", zeros.data⟩ ∧
      put.2.objects.lookup "b" = some ⟨"text/plain", ⟨#[1]⟩⟩ := by
  intro server zeros put
  have hs : server.Steady := ⟨rfl, List.mem_singleton_self _, fun _ _ => rfl⟩
  have hfresh : server.Fresh := by
    intro upload hmem
    cases hmem
  have hwhole : zeros.failure = none := rfl
  clear_value zeros
  have hkey : objectKey "/a" = "a" := by decide +kernel
  have hroot : objectKey "/a" ≠ "" := by
    rw [hkey]
    decide
  have hstored := put_keeps_stream hs hfresh hwhole "/a" "text/plain"
  have hok : put.1 = .ok () := hstored.2.1.2 hroot
  have hobjects := (hstored.2.2 hok).objects
  rw [hkey] at hobjects
  exact ⟨hs, hfresh, hwhole, hok, hobjects "a", hobjects "b"⟩

end FileDrive.Bucket
