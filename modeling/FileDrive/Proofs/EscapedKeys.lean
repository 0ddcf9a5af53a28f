import Mathlib.Logic.Basic
import FileDrive.Proofs.RangeHeaders
import FileDrive.Storage.Server

/-!
# Keys written with escapes

The source of a copy is the name of a bucket, a slash and a key that is written with escapes. To
read it undoes the escapes of the key (`percentDecode_encoded`), and no escape goes across the slash
(`percentDecode_slash`). The name of the bucket is written as it is, so it may hold what reads as an
escape. All the same the key that a server finds is the one that was written (`sourceKey?_eq_some`):
reading never lengthens a text and never takes a slash out of it.
-/

namespace FileDrive.Text

variable {b h l : UInt8} {high low : Nat} {rest : List UInt8}

/-! ## Bytes of a text -/

theorem toList_loop (bytes : ByteArray) (i : Nat) (read : List UInt8) :
    ByteArray.toList.loop bytes i read = read.reverse ++ bytes.data.toList.drop i := by
  fun_induction ByteArray.toList.loop bytes i read with
  | case1 i read hi ih =>
    have hnext : bytes.get! i = bytes.data.toList[i] := by
      show bytes.data[i]! = _
      rw [getElem!_pos bytes.data i hi, Array.getElem_toList]
    rw [ih, List.drop_eq_getElem_cons hi, hnext]
    simp
  | case2 i read hi =>
    have hend : bytes.data.toList.length ≤ i := Nat.not_lt.1 hi
    rw [List.drop_eq_nil_of_le hend, List.append_nil]

theorem toList_eq_toList_data (bytes : ByteArray) : bytes.toList = bytes.data.toList := by
  rw [ByteArray.toList, toList_loop]
  rfl

/-- The bytes of some characters. -/
def utf8 (s : List Char) : List UInt8 := s.flatMap String.utf8EncodeChar

theorem utf8_append (s t : List Char) : utf8 (s ++ t) = utf8 s ++ utf8 t := List.flatMap_append

theorem toList_toUTF8 (s : String) : s.toUTF8.toList = utf8 s.toList := by
  rw [toList_eq_toList_data, String.toUTF8_eq_toByteArray, ← String.utf8Encode_toList,
    List.utf8Encode]
  simp [utf8]

theorem utf8_injective {s t : List Char} (heq : utf8 s = utf8 t) : s = t := by
  have hbytes : (String.ofList s).toByteArray = (String.ofList t).toByteArray := by
    rw [String.toByteArray_ofList, String.toByteArray_ofList]
    exact congrArg List.toByteArray heq
  simpa using congrArg String.toList (String.toByteArray_inj.1 hbytes)

/-- A text that is read is read off its own bytes. -/
theorem utf8_of_percentDecoded {s t : String} (hread : percentDecoded? s = some t) :
    utf8 t.toList = percentDecode (utf8 s.toList) := by
  unfold percentDecoded? String.fromUTF8? at hread
  split at hread
  · obtain rfl := Option.some.inj hread
    rw [← toList_toUTF8, ← toList_toUTF8, toList_eq_toList_data]
    rfl
  · cases hread

/-- Bytes that are those of a text are read as this text. -/
theorem percentDecoded?_of_utf8 {s : String} {t : List Char}
    (hbytes : percentDecode (utf8 s.toList) = utf8 t) :
    percentDecoded? s = some (String.ofList t) := by
  have harray : bytesOf (percentDecode s.toUTF8.toList) = (String.ofList t).toByteArray := by
    rw [toList_toUTF8, hbytes, String.toByteArray_ofList, List.utf8Encode, bytesOf]
    ext1
    simp [utf8]
  unfold percentDecoded? String.fromUTF8?
  rw [harray, dif_pos (String.ofList t).isValidUTF8]
  rfl

/-! ## Escapes -/

theorem percentDecode_escape (hhigh : hexByte? h = some high) (hlow : hexByte? l = some low)
    (rest : List UInt8) :
    percentDecode (0x25 :: h :: l :: rest) =
      UInt8.ofNat (high * 16 + low) :: percentDecode rest := by
  rw [percentDecode, if_pos rfl, hhigh, hlow]

/-- Three bytes that are no escape do not start one. -/
theorem percentDecode_of_not_escape
    (hnot : ¬(b = 0x25 ∧ (hexByte? h).isSome ∧ (hexByte? l).isSome)) (rest : List UInt8) :
    percentDecode (b :: h :: l :: rest) = b :: percentDecode (h :: l :: rest) := by
  rw [percentDecode]
  by_cases hb : b = 0x25
  · rw [if_pos hb]
    rcases hhigh : hexByte? h with _ | high
    · rfl
    rcases hlow : hexByte? l with _ | low
    · rfl
    · exact absurd ⟨hb, by rw [hhigh]; rfl, by rw [hlow]; rfl⟩ hnot
  · rw [if_neg hb]

/-- What does not start an escape stands for itself. -/
theorem percentDecode_literal (hb : b ≠ 0x25) (rest : List UInt8) :
    percentDecode (b :: rest) = b :: percentDecode rest := by
  match rest with
  | [] => rfl
  | [_] => rfl
  | h :: l :: rest => exact percentDecode_of_not_escape (fun hescape => hb hescape.1) rest

theorem percentDecode_of_high (hhigh : hexByte? h = none) (b : UInt8) (rest : List UInt8) :
    percentDecode (b :: h :: rest) = b :: percentDecode (h :: rest) := by
  match rest with
  | [] => rfl
  | l :: rest => exact percentDecode_of_not_escape (by simp [hhigh]) rest

/-- What reading does at the first byte of a text: it reads an escape or passes the byte on. -/
theorem percentDecode_cons (b : UInt8) (rest : List UInt8) :
    (∃ h l more high low, b = 0x25 ∧ rest = h :: l :: more ∧ hexByte? h = some high ∧
        hexByte? l = some low ∧
        percentDecode (b :: rest) = UInt8.ofNat (high * 16 + low) :: percentDecode more) ∨
      percentDecode (b :: rest) = b :: percentDecode rest := by
  match rest with
  | [] => exact Or.inr rfl
  | [_] => exact Or.inr rfl
  | h :: l :: more =>
    by_cases hescape : b = 0x25 ∧ (hexByte? h).isSome ∧ (hexByte? l).isSome
    · obtain ⟨rfl, hh, hl⟩ := hescape
      obtain ⟨high, hhigh⟩ := Option.isSome_iff_exists.1 hh
      obtain ⟨low, hlow⟩ := Option.isSome_iff_exists.1 hl
      exact Or.inl ⟨h, l, more, high, low, rfl, rfl, hhigh, hlow,
        percentDecode_escape hhigh hlow more⟩
    · exact Or.inr (percentDecode_of_not_escape hescape more)

/-- What each byte is written as. -/
theorem utf8_encodeByte_ofNat : ∀ n < 256, utf8 (encodeByte (UInt8.ofNat n)) =
    if isUnreserved (Char.ofNat n) then [UInt8.ofNat n]
    else [0x25, UInt8.ofNat (hexCharUpper (n / 16)).toNat,
      UInt8.ofNat (hexCharUpper (n % 16)).toNat] := by
  decide +kernel

theorem hexByte?_hexCharUpper :
    ∀ n < 16, hexByte? (UInt8.ofNat (hexCharUpper n).toNat) = some n := by
  decide

theorem percentDecode_encodeByte (b : UInt8) (rest : List UInt8) :
    percentDecode (utf8 (encodeByte b) ++ rest) = b :: percentDecode rest := by
  have hb := UInt8.toNat_lt b
  have hwritten := utf8_encodeByte_ofNat b.toNat hb
  rw [UInt8.ofNat_toNat] at hwritten
  rw [hwritten]
  by_cases hplain : isUnreserved (Char.ofNat b.toNat) = true
  · rw [if_pos hplain]
    refine percentDecode_literal ?_ rest
    rintro rfl
    revert hplain
    decide
  · rw [if_neg hplain]
    have hhigh := hexByte?_hexCharUpper (b.toNat / 16) (by omega)
    have hlow := hexByte?_hexCharUpper (b.toNat % 16) (by omega)
    refine (percentDecode_escape hhigh hlow rest).trans ?_
    rw [show b.toNat / 16 * 16 + b.toNat % 16 = b.toNat by omega, UInt8.ofNat_toNat]

/-- Bytes that are written with escapes are read back. -/
theorem percentDecode_encoded (bytes : List UInt8) :
    percentDecode (utf8 (bytes.flatMap encodeByte)) = bytes := by
  induction bytes with
  | nil => rfl
  | cons b bytes ih => rw [List.flatMap_cons, utf8_append, percentDecode_encodeByte, ih]

theorem hexByte?_slash : hexByte? 0x2F = none := by decide

/-- No escape goes across a slash. -/
theorem percentDecode_slash (dir name : List UInt8) :
    percentDecode (dir ++ 0x2F :: name) = percentDecode dir ++ 0x2F :: percentDecode name := by
  have hslash : percentDecode (0x2F :: name) = 0x2F :: percentDecode name :=
    percentDecode_literal (by decide) name
  induction hn : dir.length using Nat.strongRecOn generalizing dir with
  | ind n ih =>
    match dir with
    | [] => exact hslash
    | [b] =>
      show percentDecode (b :: 0x2F :: name) = b :: 0x2F :: percentDecode name
      rw [percentDecode_of_high hexByte?_slash, hslash]
    | [b, h] =>
      show percentDecode (b :: h :: 0x2F :: name) = b :: h :: 0x2F :: percentDecode name
      rw [percentDecode_of_not_escape (by simp [hexByte?_slash]),
        percentDecode_of_high hexByte?_slash, hslash]
    | b :: h :: l :: more =>
      rw [List.length_cons, List.length_cons, List.length_cons] at hn
      show percentDecode (b :: h :: l :: (more ++ 0x2F :: name)) = _
      by_cases hescape : b = 0x25 ∧ (hexByte? h).isSome ∧ (hexByte? l).isSome
      · obtain ⟨rfl, hh, hl⟩ := hescape
        obtain ⟨high, hhigh⟩ := Option.isSome_iff_exists.1 hh
        obtain ⟨low, hlow⟩ := Option.isSome_iff_exists.1 hl
        rw [percentDecode_escape hhigh hlow, percentDecode_escape hhigh hlow,
          ih more.length (by omega) more rfl]
        rfl
      · have hrest := ih (more.length + 2) (by omega) (h :: l :: more) rfl
        rw [percentDecode_of_not_escape hescape, percentDecode_of_not_escape hescape]
        exact congrArg (b :: ·) hrest

theorem length_percentDecode_le (bytes : List UInt8) :
    (percentDecode bytes).length ≤ bytes.length := by
  induction hn : bytes.length using Nat.strongRecOn generalizing bytes with
  | ind n ih =>
    match bytes with
    | [] => simp [percentDecode]
    | b :: rest =>
      rw [List.length_cons] at hn
      obtain ⟨h, l, more, high, low, rfl, rfl, -, -, hread⟩ | hread := percentDecode_cons b rest
      · rw [List.length_cons, List.length_cons] at hn
        have hmore := ih more.length (by omega) more rfl
        rw [hread, List.length_cons]
        omega
      · have hrest := ih rest.length (by omega) rest rfl
        rw [hread, List.length_cons]
        omega

/-- Every slash of a text stands for itself. -/
theorem count_slash_le (bytes : List UInt8) :
    bytes.count 0x2F ≤ (percentDecode bytes).count 0x2F := by
  induction hn : bytes.length using Nat.strongRecOn generalizing bytes with
  | ind n ih =>
    match bytes with
    | [] => exact Nat.zero_le _
    | b :: rest =>
      rw [List.length_cons] at hn
      obtain ⟨h, l, more, high, low, rfl, rfl, hhigh, hlow, hread⟩ | hread :=
        percentDecode_cons b rest
      · rw [List.length_cons, List.length_cons] at hn
        have hmore := ih more.length (by omega) more rfl
        have hh : h ≠ 0x2F := by
          rintro rfl
          cases hexByte?_slash.symm.trans hhigh
        have hl : l ≠ 0x2F := by
          rintro rfl
          cases hexByte?_slash.symm.trans hlow
        rw [hread, List.count_cons_of_ne (by decide), List.count_cons_of_ne hh,
          List.count_cons_of_ne hl]
        exact hmore.trans List.count_le_count_cons
      · have hrest := ih rest.length (by omega) rest rfl
        rw [hread, List.count_cons, List.count_cons]
        omega

/-- When a text is read and what follows its slash is not, the one cannot make up for the other. -/
theorem eq_of_decoded_eq {dir name other : List UInt8}
    (heq : percentDecode dir ++ 0x2F :: name = dir ++ 0x2F :: other) : name = other := by
  rcases Nat.lt_or_eq_of_le (length_percentDecode_le dir) with hshort | hsame
  · -- What is read would be followed by a slash inside of what it is read off.
    obtain ⟨more, hdir⟩ : ∃ more, dir = percentDecode dir ++ more :=
      (List.prefix_of_prefix_length_le ⟨_, heq⟩ ⟨_, rfl⟩ hshort.le).imp fun _ => Eq.symm
    rcases more with _ | ⟨c, more⟩
    · have hlength := congrArg List.length hdir
      rw [List.append_nil] at hlength
      omega
    · have hnext : 0x2F :: name = c :: more ++ 0x2F :: other := by
        have hboth := heq
        rw [hdir, List.append_assoc] at hboth
        rw [← hdir] at hboth
        exact List.append_cancel_left hboth
      obtain rfl : 0x2F = c := (List.cons.inj hnext).1
      have hcount := congrArg (List.count 0x2F) hdir
      rw [List.count_append, List.count_cons_self] at hcount
      have hle := count_slash_le dir
      omega
  · exact (List.cons.inj (List.append_inj_right heq hsame)).2

end FileDrive.Text

namespace FileDrive.Bucket

open FileDrive.Text

variable {server : Server}

theorem utf8_slash (s t : List Char) : utf8 (s ++ '/' :: t) = utf8 s ++ 0x2F :: utf8 t := by
  rw [utf8_append]
  rfl

theorem toList_source (bucket key : String) :
    (bucket ++ "/" ++ percentEncode key).toList =
      bucket.toList ++ '/' :: (utf8 key.toList).flatMap encodeByte := by
  rw [String.toList_append, String.toList_append, percentEncode, toList_toUTF8,
    String.toList_ofList, String.toList_ofList, List.append_assoc]
  rfl

/-- The bytes that the source of a copy stands for. -/
theorem percentDecode_source (bucket key : String) :
    percentDecode (utf8 (bucket ++ "/" ++ percentEncode key).toList) =
      percentDecode (utf8 bucket.toList) ++ 0x2F :: utf8 key.toList := by
  rw [toList_source, utf8_slash, percentDecode_slash, percentDecode_encoded]

/-- The key that a server finds for the source of a copy is the one that was written. -/
theorem sourceKey?_eq_some {key found : String}
    (hfound : server.sourceKey? (server.bucket ++ "/" ++ percentEncode key) = some found) :
    found = key := by
  unfold Server.sourceKey? at hfound
  obtain ⟨source, hsource, hfound⟩ := Option.bind_eq_some_iff.1 hfound
  obtain ⟨behind, hafter, rfl⟩ := Option.map_eq_some_iff.1 hfound
  have hbytes := utf8_of_percentDecoded hsource
  rw [percentDecode_source, after?_eq_some.1 hafter, String.toList_append,
    List.append_assoc] at hbytes
  have hkey := eq_of_decoded_eq (hbytes.symm.trans (utf8_slash server.bucket.toList behind))
  rw [← utf8_injective hkey, String.ofList_toList]

/-- When the name of the bucket holds no escape, the key is found. -/
theorem sourceKey?_of_plain
    (hplain : percentDecode (utf8 server.bucket.toList) = utf8 server.bucket.toList)
    (key : String) :
    server.sourceKey? (server.bucket ++ "/" ++ percentEncode key) = some key := by
  have hread := percentDecode_source server.bucket key
  rw [hplain, ← utf8_slash] at hread
  unfold Server.sourceKey?
  rw [percentDecoded?_of_utf8 hread]
  show (after? _ _).map String.ofList = some key
  have hsplit : server.bucket.toList ++ '/' :: key.toList =
      (server.bucket ++ "/").toList ++ key.toList := by
    rw [String.toList_append, List.append_assoc]
    rfl
  rw [String.toList_ofList, hsplit, after?_append, Option.map_some, String.ofList_toList]

end FileDrive.Bucket
