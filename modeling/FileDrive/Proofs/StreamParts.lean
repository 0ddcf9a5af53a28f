import FileDrive.Proofs.BucketUploads

/-!
# The parts of a stream

A stream is cut into parts that are whole but for the last one and none of them empty (`Cuts`). They
are the parts that a loop sends which reads one part ahead of the one being sent (`sendAhead_eq`), so
that an upload does the same in either way (`putObject_eq_putAhead`).
-/

namespace FileDrive.Bucket

variable {data chunk : ByteArray} {stream source rest : ByteStream} {size : Nat}
  {key path contentType : String}

/-! ## Bytes cut into pieces -/

theorem extract_min (data : ByteArray) (i j : Nat) :
    data.extract i (min j data.size) = data.extract i j := by
  ext1
  rw [ByteArray.data_extract, ByteArray.data_extract, ← ByteArray.size_data]
  apply Array.extract_eq_extract_right.2
  omega

theorem chunks_of_empty (hsize : 0 < size) (h : data.size = 0) : chunks size data = [] := by
  unfold chunks
  rw [h, Nat.div_eq_of_lt (by omega)]
  rfl

/-- The first piece, then the pieces of what is behind it. -/
theorem chunks_cons (hsize : 0 < size) (h : 0 < data.size) :
    chunks size data = data.extract 0 size :: chunks size (data.extract size data.size) := by
  have hcount : (data.size + size - 1) / size = (data.size - size + size - 1) / size + 1 := by
    by_cases hle : size ≤ data.size
    · rw [Nat.sub_add_cancel hle, ← Nat.add_div_right _ hsize,
        show data.size - 1 + size = data.size + size - 1 by omega]
    · have hone : (data.size + size - 1) / size = 1 :=
        Nat.div_eq_of_lt_le (by omega) (by omega)
      have hnone : (data.size - size + size - 1) / size = 0 := Nat.div_eq_of_lt (by omega)
      rw [hone, hnone]
  unfold chunks
  rw [hcount, List.range_succ_eq_map, List.map_cons, List.map_map, ByteArray.size_extract,
    Nat.min_self, Nat.zero_mul, Nat.zero_add, Nat.one_mul]
  congr 1
  apply List.map_congr_left
  intro i _
  show data.extract ((i + 1) * size) ((i + 1 + 1) * size) =
    (data.extract size data.size).extract (i * size) ((i + 1) * size)
  rw [ByteArray.extract_extract, extract_min, Nat.succ_mul (i + 1), Nat.succ_mul i]
  congr 1 <;> omega

/-- The pieces in which a stream is sent, for any size of a piece. -/
def piecesOf (size : Nat) (stream : ByteStream) : List ByteArray :=
  chunks size (if stream.failure.isSome
    then stream.data.extract 0 (stream.data.size / size * size) else stream.data)

theorem parts_eq : parts stream = piecesOf partSize stream := rfl

theorem piecesOf_whole (h : stream.failure = none) :
    piecesOf size stream = chunks size stream.data := by
  unfold piecesOf
  rw [h]
  rfl

theorem piecesOf_broken {cause : IoError} (h : stream.failure = some cause) :
    piecesOf size stream =
      chunks size (stream.data.extract 0 (stream.data.size / size * size)) := by
  unfold piecesOf
  rw [h]
  rfl

/-- A stream without the bytes that it begins with. -/
def behind (size : Nat) (stream : ByteStream) : ByteStream :=
  ⟨stream.data.extract size stream.data.size, stream.failure⟩

theorem size_behind : (behind size stream).data.size = stream.data.size - size := by
  show (stream.data.extract size stream.data.size).size = _
  rw [ByteArray.size_extract, Nat.min_self]

theorem extract_append_behind (h : size ≤ stream.data.size) :
    stream.data.extract 0 size ++ (behind size stream).data = stream.data := by
  show stream.data.extract 0 size ++ stream.data.extract size stream.data.size = _
  rw [ByteArray.extract_append_extract, Nat.zero_min, Nat.max_eq_right h,
    ByteArray.extract_zero_size]

theorem piecesOf_long (hsize : 0 < size) (h : size ≤ stream.data.size) :
    piecesOf size stream = stream.data.extract 0 size :: piecesOf size (behind size stream) := by
  cases hfailure : stream.failure with
  | none =>
    have hrest : (behind size stream).failure = none := hfailure
    rw [piecesOf_whole hfailure, piecesOf_whole hrest]
    exact chunks_cons hsize (by omega)
  | some cause =>
    -- The whole pieces behind the first one are those of the stream but one.
    have hcount : stream.data.size / size * size =
        (stream.data.size - size) / size * size + size := by
      rw [Nat.div_eq_sub_div hsize h, Nat.succ_mul]
    have hle := Nat.div_mul_le_self stream.data.size size
    have hrest : (behind size stream).failure = some cause := hfailure
    rw [piecesOf_broken hfailure, piecesOf_broken hrest, size_behind]
    show _ = _ :: chunks size ((stream.data.extract size stream.data.size).extract 0 _)
    have hwhole : (stream.data.extract 0 (stream.data.size / size * size)).size =
        stream.data.size / size * size := by
      rw [ByteArray.size_extract, Nat.min_eq_left hle, Nat.sub_zero]
    rw [chunks_cons hsize (by omega), hwhole, ByteArray.extract_extract, ByteArray.extract_extract,
      ByteArray.extract_extract]
    congr 2 <;> congr 1 <;> omega

theorem piecesOf_short_of_broken {cause : IoError} (hsize : 0 < size)
    (h : stream.data.size < size) (hfailure : stream.failure = some cause) :
    piecesOf size stream = [] := by
  rw [piecesOf_broken hfailure, Nat.div_eq_of_lt h, Nat.zero_mul]
  apply chunks_of_empty hsize
  rw [ByteArray.extract_same, ByteArray.size_empty]

theorem chunks_of_short (hsome : 0 < data.size) (h : data.size < size) :
    chunks size data = [data] := by
  have hsize : 0 < size := by omega
  have hbehind : (data.extract size data.size).size = 0 := by
    rw [ByteArray.size_extract]
    omega
  rw [chunks_cons hsize hsome, chunks_of_empty hsize hbehind, ← extract_min,
    Nat.min_eq_right (by omega), ByteArray.extract_zero_size]

/-- Bytes cut into pieces: all but the last have the same size, none is empty or longer than that,
and together they are the bytes. -/
structure Cuts (size : Nat) (pieces : List ByteArray) (data : ByteArray) : Prop where
  joined : pieces.foldl (· ++ ·) ByteArray.empty = data
  whole : ∀ piece ∈ pieces.dropLast, piece.size = size
  filled : ∀ piece ∈ pieces, 0 < piece.size ∧ piece.size ≤ size

theorem foldl_append_pieces (start : ByteArray) (pieces : List ByteArray) :
    pieces.foldl (· ++ ·) start = start ++ pieces.foldl (· ++ ·) ByteArray.empty := by
  induction pieces generalizing start with
  | nil => exact ByteArray.append_empty.symm
  | cons piece pieces ih =>
    rw [List.foldl_cons, List.foldl_cons, ih, ih (ByteArray.empty ++ piece), ByteArray.empty_append,
      ByteArray.append_assoc]

theorem cuts_nil : Cuts size [] ByteArray.empty where
  joined := rfl
  whole := by
    intro piece h
    cases h
  filled := by
    intro piece h
    cases h

theorem cuts_singleton (hsome : 0 < data.size) (h : data.size ≤ size) : Cuts size [data] data where
  joined := ByteArray.empty_append
  whole := by
    intro piece hpiece
    cases hpiece
  filled := by
    intro piece hpiece
    cases List.mem_singleton.1 hpiece
    exact ⟨hsome, h⟩

theorem Cuts.cons {piece : ByteArray} {pieces : List ByteArray} (h : Cuts size pieces data)
    (hsize : 0 < size) (hpiece : piece.size = size) :
    Cuts size (piece :: pieces) (piece ++ data) where
  joined := by
    rw [List.foldl_cons, foldl_append_pieces, ByteArray.empty_append, h.joined]
  whole := by
    intro other hother
    cases pieces with
    | nil => cases hother
    | cons second more =>
      rw [List.dropLast_cons_of_ne_nil (by simp), List.mem_cons] at hother
      obtain rfl | hother := hother
      · exact hpiece
      · exact h.whole other hother
  filled := by
    intro other hother
    obtain rfl | hother := List.mem_cons.1 hother
    · omega
    · exact h.filled other hother

/-- A stream that does not break off is cut into the pieces in which it is sent. -/
theorem cuts_piecesOf (hsize : 0 < size) (h : stream.failure = none) :
    Cuts size (piecesOf size stream) stream.data := by
  induction hn : stream.data.size using Nat.strongRecOn generalizing stream with
  | ind n ih =>
    by_cases hlong : size ≤ stream.data.size
    · have hless : (behind size stream).data.size < n := by
        rw [size_behind]
        omega
      have hfirst : (stream.data.extract 0 size).size = size := by
        rw [ByteArray.size_extract, Nat.min_eq_left hlong, Nat.sub_zero]
      have hrest : (behind size stream).failure = none := h
      have hcuts := (ih _ hless hrest rfl).cons hsize hfirst
      rwa [← piecesOf_long hsize hlong, extract_append_behind hlong] at hcuts
    · rw [piecesOf_whole h]
      by_cases hsome : 0 < stream.data.size
      · rw [chunks_of_short hsome (by omega)]
        exact cuts_singleton hsome (by omega)
      · have hempty : stream.data.size = 0 := by omega
        rw [chunks_of_empty hsize hempty, ByteArray.size_eq_zero_iff.1 hempty]
        exact cuts_nil

theorem cuts_parts (h : stream.failure = none) : Cuts partSize (parts stream) stream.data := by
  rw [parts_eq]
  exact cuts_piecesOf (by decide) h

/-! ## Reading one part ahead -/

/-- Reads a part of a stream, which is whole unless the stream ends. When the stream breaks off
before the part is whole, nothing is read. -/
def readPart (size : Nat) (stream : ByteStream) : Except IoError (ByteArray × ByteStream) :=
  if size ≤ stream.data.size then .ok (stream.data.extract 0 size, behind size stream)
  else match stream.failure with
    | some cause => .error cause
    | none => .ok (stream.data, ByteStream.empty)

/-- What reading a part comes to. -/
theorem readPart_cases (size : Nat) (stream : ByteStream) :
    (size ≤ stream.data.size ∧
        readPart size stream = .ok (stream.data.extract 0 size, behind size stream)) ∨
      (stream.data.size < size ∧ stream.failure = none ∧
        readPart size stream = .ok (stream.data, ByteStream.empty)) ∨
      ∃ cause, stream.data.size < size ∧ stream.failure = some cause ∧
        readPart size stream = .error cause := by
  by_cases hlong : size ≤ stream.data.size
  · left
    exact ⟨hlong, if_pos hlong⟩
  · have hread : readPart size stream = match stream.failure with
        | some cause => .error cause
        | none => .ok (stream.data, ByteStream.empty) := if_neg hlong
    right
    cases hfailure : stream.failure with
    | none =>
      left
      rw [hfailure] at hread
      exact ⟨by omega, rfl, hread⟩
    | some cause =>
      right
      rw [hfailure] at hread
      exact ⟨cause, by omega, rfl, hread⟩

/-- No byte is lost or read twice. -/
theorem append_of_readPart (h : readPart size stream = .ok (chunk, rest)) :
    chunk ++ rest.data = stream.data := by
  obtain ⟨hlong, hread⟩ | ⟨-, -, hread⟩ | ⟨cause, -, -, hread⟩ := readPart_cases size stream
  · cases h.symm.trans hread
    exact extract_append_behind hlong
  · cases h.symm.trans hread
    exact ByteArray.append_empty
  · cases h.symm.trans hread

/-- Sends a part that has been read and then reads the next one, until that is empty. Lists the parts
that are sent behind others, and counts their bytes. -/
def sendAhead (size : Nat) (key : String) (upload number : Nat) (listed : List ListedPart)
    (total : Nat) (chunk : ByteArray) (source : ByteStream) : ServerM (List ListedPart × Nat) :=
  if chunk.size = 0 then pure (listed, total)
  else do
    let reply ← call (.uploadPart key upload number chunk)
      (backend ("upload part " ++ toString number ++ " of " ++ key))
    match _hread : readPart size source with
    | .ok (next, rest) =>
      sendAhead size key upload (number + 1) (listed ++ [⟨number, reply.tag?⟩])
        (total + chunk.size) next rest
    | .error cause => throw (.io cause)
termination_by chunk.size + source.data.size
decreasing_by
  have hsizes := congrArg ByteArray.size (append_of_readPart _hread)
  rw [ByteArray.size_append] at hsizes
  omega

variable {listed : List ListedPart} {upload number total : Nat}

theorem sendAhead_of_empty (h : chunk.size = 0) :
    sendAhead size key upload number listed total chunk source = pure (listed, total) := by
  rw [sendAhead, if_pos h]

theorem sendAhead_of_ne (h : chunk.size ≠ 0) :
    sendAhead size key upload number listed total chunk source = (do
      let reply ← call (.uploadPart key upload number chunk)
        (backend ("upload part " ++ toString number ++ " of " ++ key))
      match readPart size source with
      | .ok (next, rest) =>
        sendAhead size key upload (number + 1) (listed ++ [⟨number, reply.tag?⟩])
          (total + chunk.size) next rest
      | .error cause => throw (.io cause)) := by
  rw [sendAhead, if_neg h]
  congr 1
  funext _
  split <;> simp_all

/-- The loop sends the parts of the stream, each under the next number, lists them in this order,
and counts the bytes of the stream. -/
theorem sendAhead_eq (hsize : 0 < size)
    (hread : readPart size stream = .ok (chunk, rest)) :
    sendAhead size key upload number listed total chunk rest = (do
      let more ← uploadParts key upload stream.failure number (piecesOf size stream)
      pure (listed ++ more, total + stream.data.size)) := by
  induction hn : stream.data.size using Nat.strongRecOn
    generalizing stream chunk rest number listed total with
  | ind n ih =>
    obtain ⟨hlong, hwhole⟩ | ⟨hshort, hfailure, hlast⟩ | ⟨cause, -, -, hnone⟩ :=
      readPart_cases size stream
    · cases hread.symm.trans hwhole
      have hfirst : (stream.data.extract 0 size).size = size := by
        rw [ByteArray.size_extract, Nat.min_eq_left hlong, Nat.sub_zero]
      have hrest : (behind size stream).data.size = n - size := by rw [size_behind, hn]
      rw [sendAhead_of_ne (by omega), piecesOf_long hsize hlong, uploadParts, bind_assoc, hfirst]
      congr 1
      funext reply
      cases hnext : readPart size (behind size stream) with
      | ok read =>
        obtain ⟨next, more⟩ := read
        dsimp only
        rw [show total + n = total + size + (behind size stream).data.size by omega,
          ih _ (by omega) hnext rfl, bind_assoc]
        simp only [pure_bind, List.append_assoc, List.singleton_append]
        rfl
      | error cause =>
        obtain ⟨-, hother⟩ | ⟨-, -, hother⟩ | ⟨_, hshort, hfailure, hother⟩ :=
          readPart_cases size (behind size stream)
        · cases hnext.symm.trans hother
        · cases hnext.symm.trans hother
        · cases hnext.symm.trans hother
          rw [piecesOf_short_of_broken hsize hshort hfailure,
            show stream.failure = some cause from hfailure]
          rfl
    · cases hread.symm.trans hlast
      rw [piecesOf_whole hfailure, hfailure]
      by_cases hsome : 0 < stream.data.size
      · have hend : readPart size ByteStream.empty = .ok (ByteArray.empty, ByteStream.empty) :=
          if_neg (by
            show ¬size ≤ ByteArray.empty.size
            rw [ByteArray.size_empty]
            omega)
        rw [sendAhead_of_ne (by omega), chunks_of_short hsome hshort, uploadParts, bind_assoc, hend]
        congr 1
        funext reply
        dsimp only
        rw [sendAhead_of_empty ByteArray.size_empty, hn]
        rfl
      · rw [sendAhead_of_empty (by omega), chunks_of_empty hsize (by omega)]
        rw [show total + n = total by omega]
        show _ = pure (listed ++ [], total)
        rw [List.append_nil]
    · cases hread.symm.trans hnone

/-- Sends a stream in parts, the first of which has been read, and counts its bytes. -/
def putInPartsAhead (size : Nat) (key contentType : String) (first : ByteArray)
    (source : ByteStream) : ServerM Nat := do
  match ← call (.beginUpload key contentType) (backend ("multipart start " ++ key)) with
  | .upload id =>
    let (listed, total) ← try sendAhead size key id 1 [] 0 first source
      catch e =>
        try discard <| call (.abortUpload key id) (backend "abort")
        catch _ => pure ()
        throw e
    discard <| call (.completeUpload key id listed) (backend ("multipart complete " ++ key))
    return total
  | _ => throw (.backend ("S3 returned no upload id for " ++ key))

/-- Stores a stream of which one part is read ahead. Only when the first part is not whole is the
length of the stream known before something is sent. -/
def putAhead (path : String) (size : Nat) (stream : ByteStream) (contentType : String) :
    ServerM Unit := do
  let key := objectKey path
  match readPart partSize stream with
  | .error cause => throw (.io cause)
  | .ok (first, rest) =>
    let actual ← if first.size < partSize then do
        if first.size ≠ size then throw (.sizeMismatch path size first.size)
        discard <| call (.putObject key contentType first) (backend ("PUT " ++ key))
        pure first.size
      else putInPartsAhead partSize key contentType first rest
    if actual ≠ size then
      try deleteObject path
      catch _ => pure ()
      throw (.sizeMismatch path size actual)

open ServerM

/-- What is tried before a failure is passed on does not change the failure. -/
theorem runOn_ignore_throw {α : Type} (action : ServerM Unit) (e : StorageError) (server : Server) :
    runOn (do
      try action
      catch _ => pure ()
      throw e : ServerM α) server = (.error e, (runOn action server).2) := by
  rw [runOn_bind, runOn_tryCatch]
  rcases runOn action server with ⟨_ | _, after⟩
  · rfl
  · rfl

/-- When it is tried to send the parts of a stream, it does not matter how they are read. -/
theorem try_sendAhead_eq (hsize : 0 < size) (hread : readPart size stream = .ok (chunk, rest))
    (upload : Nat) (begun : Server) :
    runOn (do
      let (listed, total) ← try sendAhead size key upload 1 [] 0 chunk rest
        catch e =>
          try discard <| call (.abortUpload key upload) (backend "abort")
          catch _ => pure ()
          throw e
      discard <| call (.completeUpload key upload listed) (backend ("multipart complete " ++ key))
      return total) begun =
    runOn (do
      let listed ← try uploadParts key upload stream.failure 1 (piecesOf size stream)
        catch e =>
          try discard <| call (.abortUpload key upload) (backend "abort")
          catch _ => pure ()
          throw e
      discard <| call (.completeUpload key upload listed) (backend ("multipart complete " ++ key))
      return stream.data.size) begun := by
  rw [sendAhead_eq hsize hread, runOn_bind, runOn_bind, runOn_tryCatch, runOn_tryCatch, runOn_bind]
  rcases runOn (uploadParts key upload stream.failure 1 (piecesOf size stream)) begun
    with ⟨e | listed, sent⟩
  · dsimp only
    rw [runOn_ignore_throw, runOn_ignore_throw]
  · show runOn (discard (call (.completeUpload key upload ([] ++ listed)) _) >>=
      fun _ => pure (0 + stream.data.size)) sent = _
    rw [Nat.zero_add, List.nil_append]

theorem putInPartsAhead_eq (server : Server) (key contentType : String)
    (hread : readPart partSize stream = .ok (chunk, rest)) :
    runOn (putInPartsAhead partSize key contentType chunk rest) server =
      runOn (do
        putInParts key contentType stream
        pure stream.data.size) server := by
  have hsize : 0 < partSize := by decide
  unfold putInPartsAhead putInParts
  rw [bind_assoc, runOn_bind, runOn_bind]
  rcases runOn (call (.beginUpload key contentType) (backend ("multipart start " ++ key))) server
    with ⟨e | reply, begun⟩
  · rfl
  · cases reply with
    | done | object | part => rfl
    | upload id =>
      dsimp only
      rw [bind_assoc]
      exact try_sendAhead_eq hsize hread id begun

/-- A stream that is read one part ahead is stored as when all its parts are known. -/
theorem putObject_eq_putAhead (path : String) (size : Nat) (stream : ByteStream)
    (contentType : String) (server : Server) :
    runOn (putObject path size stream contentType) server =
      runOn (putAhead path size stream contentType) server := by
  unfold putObject putAhead
  dsimp only
  obtain ⟨hlong, hread⟩ | ⟨hshort, hfailure, hread⟩ | ⟨cause, hshort, hfailure, hread⟩ :=
    readPart_cases partSize stream
  · have hfirst : (stream.data.extract 0 partSize).size = partSize := by
      rw [ByteArray.size_extract, Nat.min_eq_left hlong, Nat.sub_zero]
    have hahead := putInPartsAhead_eq server (objectKey path) contentType hread
    rw [hread]
    dsimp only
    rw [if_neg (Nat.not_lt.2 hlong), hfirst, if_neg (Nat.lt_irrefl _), runOn_bind,
      runOn_bind (putInPartsAhead _ _ _ _ _), hahead, runOn_bind]
    rcases runOn (putInParts (objectKey path) contentType stream) server with ⟨e | _, put⟩
    · rfl
    · rfl
  · rw [hread, hfailure, if_pos hshort]
    dsimp only
    rw [if_pos hshort]
    by_cases hsize : stream.data.size = size
    · rw [if_neg (not_ne_iff.2 hsize), if_neg (not_ne_iff.2 hsize), runOn_bind]
      rcases runOn (discard (call (.putObject (objectKey path) contentType stream.data)
        (backend ("PUT " ++ objectKey path)))) server with ⟨e | _, put⟩
      · rfl
      · show (.ok (), put) = runOn (if stream.data.size ≠ size then _ else pure ()) put
        rw [if_neg (not_ne_iff.2 hsize)]
        rfl
    · rw [if_pos hsize, if_pos hsize]
      rfl
  · rw [hread, hfailure, if_pos hshort]
    rfl

end FileDrive.Bucket
