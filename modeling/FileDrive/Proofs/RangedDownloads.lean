import FileDrive.Proofs.OpenableFiles
import FileDrive.Proofs.RangeHeaders
import FileDrive.Proofs.ShareScope
import FileDrive.Proofs.UploadedParts
import FileDrive.Web.Handlers

/-!
# Downloads of ranges

A range is resolved against the size in the metadata and read from an object that knows nothing of
it. In every state of a drive the two sizes agree, so a download sends exactly the bytes that its
header asks for (`Downloaded`), and the answer to it announces these. A directory and a bucket send
the same ones.
-/

namespace FileDrive

open FileDrive.Text

variable {data : ByteArray} {path : String}

namespace ByteRange

variable {r : ByteRange}

/-- A range that lies in an object of some size. -/
structure Within (r : ByteRange) (size : Nat) : Prop where
  total : r.total = size
  ordered : r.first ≤ r.last
  inside : r.last < size

/-- The range covers the bytes from its first to its last. -/
theorem Within.slice (h : r.Within data.size) (hsize : data.size < wordBound) :
    r.slice data = data.extract r.first (r.last + 1) := by
  obtain ⟨-, hordered, hinside⟩ := h
  unfold ByteRange.slice
  rw [length_eq hordered (by omega)]
  congr 1
  omega

/-- As many bytes as the range counts. -/
theorem Within.size_extract (h : r.Within data.size) (hsize : data.size < wordBound) :
    (data.extract r.first (r.last + 1)).size = r.length := by
  obtain ⟨-, hordered, hinside⟩ := h
  rw [length_eq hordered (by omega), ByteArray.size_extract]
  omega

end ByteRange

namespace RangeRequest

/-- What a header is resolved to lies in the object. -/
theorem within_of_resolveHeader {header : Option String} {size : Nat} {r : ByteRange}
    (h : resolveHeader header size = .ok (some r)) : r.Within size := by
  cases header with
  | none => cases h
  | some text =>
    obtain ⟨request, hparse, h⟩ := bind_eq_ok.1 h
    have hresolve : request.resolve size = .ok r := by
      cases hr : request.resolve size with
      | error detail =>
        rw [hr] at h
        cases h
      | ok found =>
        rw [hr] at h
        cases h
        rfl
    obtain ⟨-, hordered, hinside, htotal⟩ :=
      asked_inter (parse_eq_ok.1 hparse).proper (resolve_eq_ok.1 hresolve)
    exact ⟨htotal, hordered, hinside⟩

theorem resolveHeader_some_ne_none (text : String) (size : Nat) :
    resolveHeader (some text) size ≠ .ok none := by
  intro h
  obtain ⟨request, -, h⟩ := bind_eq_ok.1 h
  cases hr : request.resolve size with
  | error detail =>
    rw [hr] at h
    cases h
  | ok found =>
    rw [hr] at h
    cases h

end RangeRequest

/-! ## Stores -/

/-- The bytes of an object that are in a range, all of them where there is no range. -/
def ByteRange.sent (data : ByteArray) : Option ByteRange → ByteArray
  | none => data
  | some r => data.extract r.first (r.last + 1)

/-- A store gives out the bytes of an object, whole and in every range that lies in it. -/
def ObjectStore.Gives {σ : Type} (store : ObjectStore σ) (path : String) (data : ByteArray)
    (objects : σ) : Prop :=
  ∀ range, (∀ r ∈ range, r.Within data.size) →
    (store.get path range objects).1 = .ok ⟨ByteRange.sent data range, none⟩

theorem Directory.gives {tree : Tree} {place : Place} (hplace : Directory.place path = .ok place)
    (hfind : tree.find place = .ok (some (.file data))) (hsize : data.size < wordBound) :
    Directory.store.Gives path data tree := by
  intro range hwithin
  show Directory.get path range tree = _
  have hopened : Directory.get path range tree = match range with
      | none => .ok ⟨data, none⟩
      | some r => if data.size ≤ r.first then
          .error (.rangeNotSatisfiable (r.contentRange ++ " outside " ++ path ++ " of " ++
            toString data.size ++ " bytes"))
        else .ok ⟨r.slice data, none⟩ := by
    unfold Directory.get
    simp only [hplace, hfind, bind, Except.bind, Except.mapError]
    cases range with
    | none => rfl
    | some r =>
      by_cases hfirst : data.size ≤ r.first
      · simp only [pure, Except.pure, hfirst, if_true]
        rfl
      · simp only [pure, Except.pure, hfirst, if_false]
  rw [hopened]
  cases range with
  | none => rfl
  | some r =>
    have hr := hwithin r rfl
    dsimp only
    rw [if_neg (Nat.not_le.2 (hr.ordered.trans_lt hr.inside)), hr.slice hsize]
    rfl

theorem ObjectStore.Gives.watched {σ : Type} {store : ObjectStore σ} {kept : Watched σ}
    (h : store.Gives path data kept.objects) : store.watched.Gives path data kept := h

/-- A server reads a header as it is resolved. -/
theorem Bucket.Server.ranged?_of_resolveHeader {text : String} {r : ByteRange}
    (h : RangeRequest.resolveHeader (some text) data.size = .ok (some r)) :
    ranged? data (some text) = some (r.slice data) := by
  obtain ⟨request, hparse, h⟩ := bind_eq_ok.1 h
  unfold RangeRequest.parse at hparse
  unfold RangeRequest.resolve at h
  rcases hchars : RangeRequest.ofChars? text.toList with _ | found
  · rw [hchars] at hparse
    cases hparse
  · rw [hchars] at hparse
    obtain rfl := Except.ok.inj hparse
    rcases hrange : found.resolve? data.size with _ | range
    · rw [hrange] at h
      cases h
    · rw [hrange] at h
      obtain rfl := Option.some.inj (Except.ok.inj h)
      have hasked : (some text).bind (fun text => RangeRequest.ofChars? text.toList) =
        some found := hchars
      rw [ranged?, hasked]
      dsimp only
      rw [hrange, Option.map_some]

/-- A range within an object is what its header asks a server for. -/
theorem ByteRange.Within.resolveHeader {r : ByteRange} (h : r.Within data.size)
    (hsize : data.size < wordBound) :
    RangeRequest.resolveHeader (some r.headerValue) data.size = .ok (some r) := by
  obtain ⟨htotal, hordered, hinside⟩ := h
  rw [← htotal] at hinside hsize ⊢
  exact ByteRange.resolveHeader_headerValue hordered hinside hsize

open Bucket ServerM in
theorem Bucket.gives {server : Bucket.Server} {contentType : String} (hs : server.Steady)
    (hkey : Bucket.objectKey path ≠ "")
    (hobject : server.objects.lookup (Bucket.objectKey path) = some ⟨contentType, data⟩)
    (hsize : data.size < wordBound) : Bucket.store.Gives path data server := by
  intro range hwithin
  have hsent : Server.ranged? data (range.map ByteRange.headerValue) =
      some (ByteRange.sent data range) := by
    cases range with
    | none => rfl
    | some r =>
      have hr := hwithin r rfl
      rw [Option.map_some, Server.ranged?_of_resolveHeader (hr.resolveHeader hsize),
        hr.slice hsize]
      rfl
  have hsend : (server.send (.getObject (objectKey path) (range.map ByteRange.headerValue))).1 =
      .ok (.object (ByteRange.sent data range)) := by
    rw [hs.send (c := .getObject _ _) rfl hkey]
    have hhere : (server.logged (.getObject (objectKey path)
        (range.map ByteRange.headerValue))).objects.lookup (objectKey path) =
          some ⟨contentType, data⟩ := hobject
    simp only [Server.perform, (hs.logged _).there, hhere, hsent, Bool.false_eq_true, if_false]
    rfl
  show (runOn (getObject path range) server).1 = _
  unfold getObject
  dsimp only
  rw [runOn_bind, runOn_call, hsend]
  rfl

/-- An object at a path that is not the root has a key. -/
theorem Bucket.objectKey_ne_empty (h : Path.Canonical path) (hroot : path ≠ Path.root) :
    Bucket.objectKey path ≠ "" := by
  obtain ⟨segs, hsegs, rfl⟩ := h
  cases segs with
  | nil => exact absurd rfl hroot
  | cons s rest =>
    obtain ⟨hne, -, -, hslash⟩ := hsegs s List.mem_cons_self
    obtain ⟨c, more, rfl⟩ := List.exists_cons_of_ne_nil hne
    intro hnone
    have htext := congrArg String.toList hnone
    unfold Bucket.objectKey at htext
    rw [String.toList_ofList, Path.toList_ofSegments (by simp), Path.spell_cons,
      List.cons_append] at htext
    have hc : c ≠ '/' := by
      rintro rfl
      exact hslash List.mem_cons_self
    rw [List.dropWhile_cons_of_pos (by simp), List.dropWhile_cons_of_neg (by simpa)] at htext
    cases htext

/-! ## Downloads -/

namespace Service

open FileDrive.DriveM FileDrive.Time FileDrive.Web

variable {σ : Type} {service : Service σ} {identity : Identity} {drive : Drive σ} {file : File}
  {row : FileRow} {header : Option String}

/-- What a download of a file that holds some bytes comes to, by the header that it is made with. -/
inductive Downloaded (data : ByteArray) : Option String → Except DriveError Download → Prop where
  | whole {file : File} (size : file.size = data.size) :
      Downloaded data none (.ok ⟨file, none, ⟨data, none⟩⟩)
  /-- Exactly the bytes from the first to the last of the range that the header is resolved to. -/
  | part {file : File} {header : String} {r : ByteRange} (size : file.size = data.size)
      (resolved : RangeRequest.resolveHeader (some header) data.size = .ok (some r))
      (within : r.Within data.size) :
      Downloaded data (some header)
        (.ok ⟨file, some r, ⟨data.extract r.first (r.last + 1), none⟩⟩)
  | unsatisfiable {header detail : String}
      (refused : RangeRequest.resolveHeader (some header) data.size = .error detail) :
      Downloaded data (some header) (.error (.rangeNotSatisfiable detail))

theorem openFile_downloaded (hsize : file.size = data.size)
    (hgives : service.store.Gives file.path data drive.objects) (header : Option String) :
    Downloaded data header ((service.openFile file header).on drive).1 := by
  unfold openFile
  rw [hsize, Int.toNat_natCast]
  cases hresolved : RangeRequest.resolveHeader header data.size with
  | error detail =>
    cases header with
    | none => cases hresolved
    | some text => exact .unsatisfiable hresolved
  | ok range =>
    have hwithin : ∀ r ∈ range, r.Within data.size := by
      rintro r rfl
      exact RangeRequest.within_of_resolveHeader hresolved
    dsimp only
    rw [on_bind, on_object, hgives range hwithin]
    cases range with
    | none =>
      cases header with
      | none => exact .whole hsize
      | some text => exact absurd hresolved (RangeRequest.resolveHeader_some_ne_none _ _)
    | some r =>
      cases header with
      | none => cases hresolved
      | some text => exact .part hsize hresolved (hwithin r rfl)

theorem download_downloaded (hordered : Ordered drive.db)
    (hrow : drive.db.rowAt (Path.normalize path) = some row) (hsize : row.size = data.size)
    (hread : service.resolver.Permits drive.db identity .read (Path.normalize path))
    (hgives : service.store.Gives (Path.normalize path) data drive.objects)
    (header : Option String) :
    Downloaded data header ((service.download identity path header).on drive).1 := by
  obtain ⟨held, hheld, hhas⟩ := hread
  have hroot : Path.normalize path ≠ Path.root :=
    (hordered.shaped.admissible _ row hrow).notRoot
  obtain ⟨rows, users, -, husers⟩ := hordered.tables
  have hfile : drive.db.file (Path.normalize path) = .ok (row.file users) :=
    (hordered.file_eq_ok husers).2 ⟨row, hrow, rfl⟩
  have hpath : filePath path = .ok (Path.normalize path) := if_neg hroot
  rw [download_on, hpath]
  dsimp only
  rw [hheld]
  dsimp only
  rw [if_pos hhas, hfile]
  apply openFile_downloaded hsize
  rwa [FileRow.path_file, Database.path_of_rowAt hrow]

/-- An answer announces as many bytes as it sends and, when it sends part of an object, which ones
of how many they are. -/
structure Announces (total : Nat) (download : Download) (response : Response) : Prop where
  body : response.body = .stream download.body
  length : response.headers.lookup "content-length" = some (toString download.body.data.size)
  range : response.headers.lookup "content-range" = download.range.map fun r =>
    "bytes " ++ toString r.first ++ "-" ++ toString r.last ++ "/" ++ toString total

theorem Downloaded.announces {download : Download} {attachment : Bool} {response : Response}
    (h : Downloaded data header (.ok download)) (hsize : data.size < wordBound)
    (hbuilt : downloadResponse download attachment = .ok response) :
    Announces data.size download response := by
  unfold downloadResponse at hbuilt
  dsimp only at hbuilt
  split at hbuilt
  · cases hbuilt
  · cases h with
    | whole size =>
      cases hbuilt
      refine ⟨rfl, ?_, rfl⟩
      rw [size, Int.toNat_natCast]
      rfl
    | part size resolved within =>
      cases hbuilt
      refine ⟨rfl, ?_, ?_⟩
      · rw [within.size_extract hsize]
        rfl
      · rw [← within.total]
        rfl

/-- In every state of a drive a file that a caller may read is sent as its header asks for, from the
bytes that were last uploaded for it, and the answer announces what is sent. A bucket that holds
these bytes gives the same ones for every range in them, which is what the range written in a header
means. -/
theorem Evolves.download_exact {service : Service (Watched Tree)} {history : List Event}
    {drive : Drive (Watched Tree)} {clock : Timestamp} {identity : Identity} {path : String}
    {row : FileRow}
    (h : service.Evolves Directory.Faulty (Drive.fresh ⟨Tree.empty, false⟩ clock) history drive)
    (hrow : drive.db.rowAt (Path.normalize path) = some row)
    (hread : service.resolver.Permits drive.db identity .read (Path.normalize path))
    (header : Option String) :
    let result := (((service.withStore Directory.store.watched).download identity path header).on
      drive).1
    ∃ place data, Directory.place (Path.normalize path) = .ok place ∧
      drive.objects.objects.entry? place = some (.file data) ∧
      lastUploads history (Path.normalize path) = some data ∧
      Downloaded data header result ∧
      (∀ download attachment response, result = .ok download →
        downloadResponse download attachment = .ok response →
          Announces data.size download response) ∧
      ∀ (server : Bucket.Server) contentType, server.Steady →
        server.objects.lookup (Bucket.objectKey (Path.normalize path)) = some ⟨contentType, data⟩ →
        ∀ range, (∀ r ∈ range, r.Within data.size) →
          (Bucket.store.get (Path.normalize path) range server).1 =
              (Directory.store.get (Path.normalize path) range drive.objects.objects).1 ∧
            ∀ r ∈ range, RangeRequest.resolveHeader (some r.headerValue) data.size = .ok (some r) := by
  intro result
  obtain ⟨place, data, hplace, hfind, hupload, hsize, hfits⟩ := h.found hrow
  have hbound : data.size < wordBound := by
    unfold Tree.largestFile at hfits
    unfold wordBound
    omega
  have hgives := Directory.gives hplace hfind hbound
  have hdownloaded : Downloaded data header result := by
    apply download_downloaded
    · exact h.ordered
    · exact hrow
    · exact hsize.symm
    · exact hread
    · exact hgives.watched
  have hadmissible := h.ordered.shaped.admissible _ row hrow
  have hkey : Bucket.objectKey (Path.normalize path) ≠ "" :=
    Bucket.objectKey_ne_empty hadmissible.canonical hadmissible.notRoot
  refine ⟨place, data, hplace, (Tree.find_eq_ok hfind).symm, hupload, hdownloaded, ?_, ?_⟩
  · intro download attachment response hresult hbuilt
    rw [hresult] at hdownloaded
    exact hdownloaded.announces hbound hbuilt
  · intro server contentType hsteady hobject range hwithin
    constructor
    · rw [Bucket.gives hsteady hkey hobject hbound range hwithin, hgives range hwithin]
    · exact fun r hr => (hwithin r hr).resolveHeader hbound

/-- An owner asks for the last two bytes of a file of three. -/
theorem download_exact_of_last_two :
    let ann : Identity := ⟨"ann", "ann", ["admins"], "", "", false⟩
    let steady := (Directory.store.withFaults .none).watched
    let service : Service (Watched Tree) :=
      ⟨steady, .enforcing "admins", 3, toString, fun _ => none⟩
    let creation : Request := .create ⟨"/f", "", false, ⟨3, "text/plain", ⟨⟨#[1, 2, 3]⟩, none⟩⟩⟩
    let created := (service.serve ann creation).on (Drive.fresh ⟨Tree.empty, false⟩ .epoch)
    (created.2.db.rowAt (Path.normalize "f")).isSome = true ∧
      service.resolver.Permits created.2.db ann .read (Path.normalize "f") ∧
      ∃ data, lastUploads [⟨ann, creation, created.1⟩] (Path.normalize "f") = some data ∧
        Downloaded data (some "bytes=-2")
          (((service.withStore Directory.store.watched).download ann "f" (some "bytes=-2")).on
            created.2).1 := by
  intro ann steady service creation created
  have hstart : service.Evolves Directory.Faulty _ [] (Drive.fresh ⟨Tree.empty, false⟩ .epoch) :=
    .start
  have hcreated := hstart.next ⟨.none, rfl⟩ ann creation
  have hthere : (created.2.db.rowAt (Path.normalize "f")).isSome = true := by decide +kernel
  have hread : service.resolver.Permits created.2.db ann .read (Path.normalize "f") :=
    ⟨.all, by decide +kernel, by decide⟩
  obtain ⟨row, hrow⟩ := Option.isSome_iff_exists.1 hthere
  obtain ⟨place, data, -, -, hupload, hdownloaded, -⟩ :=
    hcreated.download_exact hrow hread (some "bytes=-2")
  exact ⟨hthere, hread, data, hupload, hdownloaded⟩

end Service

end FileDrive
