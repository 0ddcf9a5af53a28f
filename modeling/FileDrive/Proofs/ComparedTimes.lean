import FileDrive.Proofs.ClockProgress
import FileDrive.Proofs.EscapedKeys
import FileDrive.Proofs.SessionCalls
import FileDrive.Proofs.StoredTimes
import Mathlib.Data.List.Permutation
import Mathlib.Data.Prod.Lex

/-!
# Times compared as text

The bytes of the texts of times are in the order of the times, to the microsecond
(`Timestamp.bytes_le_bytes_iff`). So a comparison of what is stored says the same as a comparison of
what is read back from it: a sweep takes out the sessions that are over, and a listing of shares
begins with the newest one.
-/

namespace FileDrive

namespace Text

variable {c d : Char} {s t : List Char}

/-! ## Texts of bytes -/

/-- The bytes of characters that have one byte each. -/
theorem utf8_cons (h : c.utf8Size = 1) (s : List Char) :
    utf8 (c :: s) = c.val.toUInt8 :: utf8 s := by
  rw [utf8, List.flatMap_cons, String.utf8EncodeChar_eq_singleton h]
  rfl

theorem toNat_byte (h : c.utf8Size = 1) : c.val.toUInt8.toNat = c.toNat := by
  have hsmall : c.val.toNat ≤ 127 := UInt32.le_iff_toNat_le.1 (Char.utf8Size_eq_one_iff.1 h)
  rw [UInt32.toNat_toUInt8]
  exact Nat.mod_eq_of_lt (by omega)

/-- Where every character is a byte, texts are in the order of their bytes. -/
theorem utf8_lt_utf8_iff (hs : ∀ c ∈ s, c.utf8Size = 1) (ht : ∀ c ∈ t, c.utf8Size = 1) :
    utf8 s < utf8 t ↔ s < t := by
  induction s generalizing t with
  | nil =>
    cases t with
    | nil => exact iff_of_false (List.not_lt_nil _) (List.not_lt_nil _)
    | cons d t =>
      rw [utf8_cons (ht d (by simp))]
      exact iff_of_true (List.nil_lt_cons _ _) (List.nil_lt_cons _ _)
  | cons c s ih =>
    cases t with
    | nil => exact iff_of_false (List.not_lt_nil _) (List.not_lt_nil _)
    | cons d t =>
      have hc := toNat_byte (hs c (by simp))
      have hd := toNat_byte (ht d (by simp))
      have hlt : c.val.toUInt8 < d.val.toUInt8 ↔ c < d := by
        rw [UInt8.lt_iff_toNat_lt, hc, hd]
        rfl
      have heq : c.val.toUInt8 = d.val.toUInt8 ↔ c = d := by
        rw [← UInt8.toNat_inj, hc, hd, Char.toNat_inj]
      have hrest : utf8 s < utf8 t ↔ s < t :=
        ih (fun c hc => hs c (List.mem_cons_of_mem _ hc))
          fun c hc => ht c (List.mem_cons_of_mem _ hc)
      rw [utf8_cons (hs c (by simp)), utf8_cons (ht d (by simp)), List.cons_lt_cons_iff,
        List.cons_lt_cons_iff, hlt, heq, hrest]

theorem utf8Size_of_isDigit (h : (digit? c).isSome = true) : c.utf8Size = 1 := by
  obtain ⟨d, hd⟩ := Option.isSome_iff_exists.1 h
  obtain ⟨⟨-, hnine⟩, -⟩ := digit?_eq_some.1 hd
  exact Char.utf8Size_eq_one_iff.2 (UInt32.le_trans hnine (by decide))

end Text

namespace Time

open FileDrive.Text

/-- The text of fields has one byte for each character. -/
theorem Fields.utf8Size_of_mem_text {f : Fields} {c : Char} (h : c ∈ f.text) : c.utf8Size = 1 := by
  have hdigit : ∀ {width n : Nat}, c ∈ lastDigits width n → c.utf8Size = 1 := fun hc =>
    utf8Size_of_isDigit (isDigit_of_mem_lastDigits hc)
  unfold text at h
  simp only [List.mem_append, List.mem_cons, List.not_mem_nil, or_false] at h
  rcases h with h | rfl | h | rfl | h | rfl | h | rfl | h | rfl | h | rfl | h | rfl
  all_goals first | exact hdigit h | decide

namespace Timestamp

variable {t u : Timestamp}

/-! ## Times and texts in the same order -/

theorem lt_or_eq_of_le (h : t ≤ u) : t < u ∨ t = u := by
  obtain ⟨seconds, nanos⟩ := t
  obtain ⟨seconds', nanos'⟩ := u
  change ¬ (seconds' < seconds ∨ seconds' = seconds ∧ nanos' < nanos) at h
  change (seconds < seconds' ∨ seconds = seconds' ∧ nanos < nanos') ∨ _
  rw [Timestamp.mk.injEq]
  omega

/-- What is smaller than a microsecond does not show in the text. -/
theorem stored_of_truncated_eq (ht : t.Storable) (hu : u.Storable)
    (h : t.truncated = u.truncated) : t.stored = u.stored := by
  obtain ⟨hseconds, hnanos⟩ := Timestamp.mk.inj h
  have hmicros : t.nanos / 1000 = u.nanos / 1000 := by omega
  unfold stored Fields.upToSecond Fields.clock
  rw [ofTimestamp_eq ht.nanos, ofTimestamp_eq hu.nanos, hseconds]
  dsimp only
  rw [hmicros]

/-- Times are in the order of their texts. -/
theorem stored_le_stored_iff (ht : t.Storable) (hu : u.Storable) :
    t.stored ≤ u.stored ↔ t.truncated ≤ u.truncated := by
  constructor
  · intro h hlt
    exact absurd (stored_lt_stored hu ht hlt) (not_lt_of_ge h)
  · intro h
    rcases lt_or_eq_of_le h with hlt | heq
    · exact le_of_lt (stored_lt_stored ht hu hlt)
    · exact le_of_eq (stored_of_truncated_eq ht hu heq)

theorem stored_eq_stored_iff (ht : t.Storable) (hu : u.Storable) :
    t.stored = u.stored ↔ t.truncated = u.truncated := by
  refine ⟨fun h => ?_, stored_of_truncated_eq ht hu⟩
  have hread := parse?_stored ht
  rw [h, parse?_stored hu, Option.some_inj] at hread
  exact hread.symm

/-- The bytes of the texts are in the order of the times. -/
theorem bytes_le_bytes_iff (ht : t.Storable) (hu : u.Storable) :
    t.stored.toUTF8.toList ≤ u.stored.toUTF8.toList ↔ t.truncated ≤ u.truncated := by
  have hsize : ∀ {v : Timestamp}, v.Storable → ∀ c ∈ v.stored.toList, c.utf8Size = 1 := by
    intro v hv c hc
    unfold stored at hc
    dsimp only at hc
    rw [Fields.toList_text hv.shown] at hc
    exact Fields.utf8Size_of_mem_text hc
  rw [← stored_le_stored_iff ht hu, toList_toUTF8, toList_toUTF8, ← List.not_lt,
    utf8_lt_utf8_iff (hsize hu) (hsize ht), ← String.lt_iff_toList_lt, not_lt]

theorem stored_lt_stored_iff (ht : t.Storable) (hu : u.Storable) :
    t.stored < u.stored ↔ t.truncated < u.truncated := by
  rw [← not_le, stored_le_stored_iff hu ht]
  exact not_not

/-- In whole microseconds, a time has come when its whole microseconds have. -/
theorem truncated_le_iff : t.truncated ≤ u ↔ t.truncated ≤ u.truncated := not_congr lt_truncated_iff

end Timestamp

end Time

open FileDrive.Time

/-! ## What is read back -/

/-- A session as it is read back: its time is in whole microseconds. -/
def Session.readBack (session : Session) : Session :=
  { session with expiry := session.expiry.truncated }

/-- A share as it is read back: its time is in whole microseconds. -/
def Share.readBack (share : Share) : Share := { share with createdAt := share.createdAt.truncated }

/-- The row of a share. -/
def ShareRow.ofShare (share : Share) : ShareRow :=
  ⟨share.id, share.path, share.permissions.mask, share.userId, share.createdAt.stored⟩

theorem SessionRow.session_ofSession {session : Session} (h : session.expiry.Storable) :
    (ofSession session).session = session.readBack := by
  unfold SessionRow.session ofSession Session.readBack
  dsimp only
  rw [Timestamp.ofStored_stored h]

theorem ShareRow.share_ofShare {share : Share} (h : share.createdAt.Storable) :
    (ofShare share).share = share.readBack := by
  unfold ShareRow.share ofShare Share.readBack
  dsimp only
  rw [Timestamp.ofStored_stored h, Permissions.ofMask_mask]

/-- Whether a session is over is the same by its text and by what is read back. -/
theorem Session.isExpired_readBack {session : Session} {now : Timestamp}
    (h : session.expiry.Storable) (hnow : now.Storable) :
    session.readBack.isExpired now =
      decide ((SessionRow.ofSession session).expiry ≤ now.stored) := by
  apply decide_eq_decide.2
  show session.expiry.truncated ≤ now ↔ session.expiry.stored ≤ now.stored
  rw [Timestamp.truncated_le_iff, Timestamp.stored_le_stored_iff h hnow]

/-! ## The order of a listing -/

/-- What rows of shares are listed by: the text of the time, the greatest first, then the id. -/
def ShareRow.rank (row : ShareRow) : Stringᵒᵈ ×ₗ String :=
  toLex (OrderDual.toDual row.createdAt, row.id)

/-- A share is listed before one that is older and, at one time, before one with a greater id. -/
def Share.ListedBefore (a b : Share) : Prop :=
  b.createdAt < a.createdAt ∨ b.createdAt = a.createdAt ∧ a.id < b.id

theorem ShareRow.rank_le_iff {a b : ShareRow} :
    (if a.createdAt = b.createdAt then decide (a.id ≤ b.id)
      else decide (b.createdAt ≤ a.createdAt)) = true ↔ a.rank ≤ b.rank := by
  unfold rank
  rw [Prod.Lex.toLex_le_toLex, OrderDual.toDual_lt_toDual, OrderDual.toDual_inj]
  split_ifs with htime
  · simp [htime]
  · simp [htime, Ne.symm htime, le_iff_lt_or_eq]

/-- What is read back of two rows is in the order of the rows. -/
theorem Share.listedBefore_readBack {a b : Share} (ha : a.createdAt.Storable)
    (hb : b.createdAt.Storable) (hid : a.id ≠ b.id)
    (h : (ShareRow.ofShare a).rank ≤ (ShareRow.ofShare b).rank) :
    a.readBack.ListedBefore b.readBack := by
  unfold ShareRow.rank at h
  rw [Prod.Lex.toLex_le_toLex, OrderDual.toDual_lt_toDual, OrderDual.toDual_inj] at h
  obtain hnewer | ⟨hsame, hle⟩ := h
  · exact Or.inl ((Timestamp.stored_lt_stored_iff hb ha).1 hnewer)
  · right
    constructor
    · exact ((Timestamp.stored_eq_stored_iff ha hb).1 hsame).symm
    · exact lt_of_le_of_ne hle hid

namespace Database

/-! ## Sessions and shares that come and go -/

/-- Calls that went well have left the given sessions and shares in a database that was empty. Their
times are stored. Users, files and records may have changed in any way. -/
inductive Remembers : List Session → List Share → Database → Prop where
  | empty : Remembers [] [] empty
  | sessionCreated {sessions : List Session} {shares : List Share} {db after : Database}
      {session found : Session} (before : Remembers sessions shares db)
      (storable : session.expiry.Storable)
      (made : db.createSession session = .ok (found, after)) :
      Remembers (sessions ++ [session]) shares after
  | sessionDeleted {sessions : List Session} {shares : List Share} {db after : Database}
      {id : String} (before : Remembers sessions shares db)
      (deleted : db.deleteSession id = .ok after) :
      Remembers (sessions.filter (·.id ≠ id)) shares after
  | expiredDeleted {sessions : List Session} {shares : List Share} {db after : Database}
      {now : Timestamp} {count : Nat} (before : Remembers sessions shares db)
      (storable : now.Storable) (deleted : db.deleteExpired now = .ok (count, after)) :
      Remembers (sessions.filter (!·.readBack.isExpired now)) shares after
  | shareCreated {sessions : List Session} {shares : List Share} {db after : Database}
      {share found : Share} (before : Remembers sessions shares db)
      (storable : share.createdAt.Storable)
      (made : db.createShare share.createdAt share.id share.path share.permissions share.userId =
        .ok (found, after)) :
      Remembers sessions (shares ++ [share]) after
  | shareDeleted {sessions : List Session} {shares : List Share} {db after : Database}
      {id : String} (before : Remembers sessions shares db)
      (deleted : db.deleteShare id = .ok after) :
      Remembers sessions (shares.filter (·.id ≠ id)) after
  | userPut {sessions : List Session} {shares : List Share} {db after : Database} {user : User}
      (before : Remembers sessions shares db) (put : db.putUser user = .ok after) :
      Remembers sessions shares after
  | filesChanged {sessions : List Session} {shares : List Share} {db after : Database}
      (before : Remembers sessions shares db) (changed : db.Changes after) :
      Remembers sessions shares after

/-- The tables of sessions and of shares have the rows of the given ones, no two with one id. -/
structure Tabulates (db : Database) (sessions : List Session) (shares : List Share) : Prop where
  sessionRows : ∃ users, db.Holds users (sessions.map .ofSession)
  shareRows : db.shares = some (shares.map .ofShare)
  sessionTimes : ∀ session ∈ sessions, session.expiry.Storable
  shareTimes : ∀ share ∈ shares, share.createdAt.Storable
  sessionIds : (sessions.map (·.id)).Nodup
  shareIds : (shares.map (·.id)).Nodup

namespace Tabulates

variable {db after : Database} {sessions : List Session} {shares : List Share} {session : Session}
  {share : Share} {id : String} {now : Timestamp}

/-! ## One call -/

theorem session_of_mem (h : db.Tabulates sessions shares) (hmem : session ∈ sessions) :
    db.session session.id = .ok session.readBack := by
  obtain ⟨users, hrows⟩ := h.sessionRows
  have hfound : (sessions.map SessionRow.ofSession).find? (·.id = session.id) =
      some (.ofSession session) := by
    rw [List.find?_map]
    exact congrArg (Option.map _) (find?_key_of_mem h.sessionIds hmem)
  rw [hrows.session, hfound]
  exact congrArg Except.ok (SessionRow.session_ofSession (h.sessionTimes session hmem))

theorem session_of_unknown (h : db.Tabulates sessions shares)
    (hnew : ∀ session ∈ sessions, session.id ≠ id) : db.session id = .error .sessionNotFound := by
  obtain ⟨users, hrows⟩ := h.sessionRows
  have hnone : (sessions.map SessionRow.ofSession).find? (·.id = id) = none := by
    rw [List.find?_map, Option.map_eq_none_iff, List.find?_eq_none]
    exact fun session hmem => mt of_decide_eq_true (hnew session hmem)
  rw [hrows.session, hnone]

theorem kept_sessions (h : db.Tabulates sessions shares) (keep : Session → Bool) :
    ({ db with sessions := some ((sessions.filter keep).map .ofSession) } : Database).Tabulates
      (sessions.filter keep) shares := by
  obtain ⟨users, hrows⟩ := h.sessionRows
  exact ⟨⟨users, hrows.withSessions _⟩, h.shareRows,
    fun session hmem => h.sessionTimes session (List.mem_of_mem_filter hmem), h.shareTimes,
    h.sessionIds.sublist (List.filter_sublist.map _), h.shareIds⟩

/-- When only some sessions are kept, the others are unknown. -/
theorem session_of_kept (h : db.Tabulates sessions shares) (keep : Session → Bool)
    (hmem : session ∈ sessions) :
    ({ db with sessions := some ((sessions.filter keep).map .ofSession) } : Database).session
      session.id = if keep session then .ok session.readBack else .error .sessionNotFound := by
  have hkept := h.kept_sessions keep
  by_cases hkeep : keep session = true
  · rw [if_pos hkeep]
    exact hkept.session_of_mem (List.mem_filter.2 ⟨hmem, hkeep⟩)
  · rw [if_neg hkeep]
    refine hkept.session_of_unknown fun other hother hsame => hkeep ?_
    obtain ⟨hother, hkeep⟩ := List.mem_filter.1 hother
    rwa [List.inj_on_of_nodup_map h.sessionIds hother hmem hsame] at hkeep

/-- A session with a new id is created, and read back as it is from then on. -/
theorem createSession (h : db.Tabulates sessions shares) (hstorable : session.expiry.Storable)
    (hfresh : ∀ other ∈ sessions, other.id ≠ session.id) :
    ∃ after, db.createSession session = .ok (session.readBack, after) ∧
      after.Tabulates (sessions ++ [session]) shares := by
  obtain ⟨users, hrows⟩ := h.sessionRows
  have hmade := hrows.createSession session fun row hrow => by
    obtain ⟨other, hother, rfl⟩ := List.mem_map.1 hrow
    exact hfresh other hother
  rw [SessionRow.session_ofSession hstorable] at hmade
  refine ⟨_, hmade, ⟨users, ?_⟩, h.shareRows, ?_, h.shareTimes,
    nodup_key_append hfresh h.sessionIds, h.shareIds⟩
  · rw [List.map_append, List.map_singleton]
    exact hrows.withSessions _
  · rw [List.forall_mem_append, List.forall_mem_singleton]
    exact ⟨h.sessionTimes, hstorable⟩

theorem fresh_of_createSession {found : Session} (h : db.Tabulates sessions shares)
    (made : db.createSession session = .ok (found, after)) :
    ∀ other ∈ sessions, other.id ≠ session.id := by
  intro other hother hsame
  obtain ⟨users, hrows⟩ := h.sessionRows
  obtain ⟨mid, hmid, -⟩ := bind_eq_ok.1 made
  obtain ⟨rows, hread, hmid⟩ := bind_eq_ok.1 hmid
  obtain rfl := Except.ok.inj (hrows.sessionRows.symm.trans hread)
  obtain ⟨rows', hinserted, -⟩ := bind_eq_ok.1 hmid
  have htaken : (sessions.map SessionRow.ofSession).any
      (fun row => (SessionRow.ofSession session).id = row.id) = true :=
    List.any_eq_true.2 ⟨_, List.mem_map_of_mem hother, decide_eq_true hsame.symm⟩
  rw [inserted, if_pos htaken] at hinserted
  cases hinserted

theorem deleteSession (h : db.Tabulates sessions shares) (id : String) :
    db.deleteSession id = .ok { db with
      sessions := some ((sessions.filter (·.id ≠ id)).map .ofSession) } := by
  obtain ⟨users, hrows⟩ := h.sessionRows
  rw [hrows.deleteSession, List.filter_map]
  rfl

/-- Taken out are the sessions that are over by what is read back of them, and these are counted. -/
theorem deleteExpired (h : db.Tabulates sessions shares) (hnow : now.Storable) :
    db.deleteExpired now = .ok (sessions.countP (·.readBack.isExpired now), { db with
      sessions := some ((sessions.filter (!·.readBack.isExpired now)).map .ofSession) }) := by
  obtain ⟨users, hrows⟩ := h.sessionRows
  have hover : ∀ session ∈ sessions, session.readBack.isExpired now =
      decide ((SessionRow.ofSession session).expiry ≤ now.stored) := fun session hmem =>
    Session.isExpired_readBack (h.sessionTimes session hmem) hnow
  have hcount : (sessions.map SessionRow.ofSession).countP
      (fun row => decide (row.expiry ≤ now.stored)) =
        sessions.countP (·.readBack.isExpired now) := by
    rw [List.countP_map]
    exact List.countP_congr fun session hmem => by rw [hover session hmem, Function.comp_apply]
  have hkept : (sessions.map SessionRow.ofSession).filter
      (fun row => !decide (row.expiry ≤ now.stored)) =
        (sessions.filter (!·.readBack.isExpired now)).map .ofSession := by
    rw [List.filter_map]
    exact congrArg _ (List.filter_congr fun session hmem => by
      rw [hover session hmem, Function.comp_apply])
  rw [hrows.deleteExpired, hcount, hkept]

theorem kept_shares (h : db.Tabulates sessions shares) (keep : Share → Bool) :
    ({ db with shares := some ((shares.filter keep).map .ofShare) } : Database).Tabulates sessions
      (shares.filter keep) := by
  obtain ⟨users, hrows⟩ := h.sessionRows
  exact ⟨⟨users, hrows.isOpen, hrows.users, hrows.sessions⟩, rfl, h.sessionTimes,
    fun share hmem => h.shareTimes share (List.mem_of_mem_filter hmem), h.sessionIds,
    h.shareIds.sublist (List.filter_sublist.map _)⟩

theorem shareTable (h : db.Tabulates sessions shares) :
    db.shareTable = shares.map .ofShare := by
  rw [Database.shareTable, h.shareRows, Option.getD_some]

theorem shareRows_eq (h : db.Tabulates sessions shares) :
    db.shareRows = .ok (shares.map .ofShare) := by
  obtain ⟨users, hrows⟩ := h.sessionRows
  exact rowsOf_eq_ok.2 ⟨hrows.isOpen, h.shareRows⟩

theorem share_of_mem (h : db.Tabulates sessions shares) (hmem : share ∈ shares) :
    db.share share.id = .ok share.readBack := by
  have hfound : (shares.map ShareRow.ofShare).find? (·.id = share.id) = some (.ofShare share) := by
    rw [List.find?_map]
    exact congrArg (Option.map _) (find?_key_of_mem h.shareIds hmem)
  unfold Database.share
  rw [h.shareRows_eq]
  dsimp only [bind, Except.bind]
  rw [hfound]
  exact congrArg Except.ok (ShareRow.share_ofShare (h.shareTimes share hmem))

/-- A share with a new id is created, and read back as it is from then on. -/
theorem createShare (h : db.Tabulates sessions shares) (hstorable : share.createdAt.Storable)
    (hfresh : ∀ other ∈ shares, other.id ≠ share.id) :
    ∃ after, db.createShare share.createdAt share.id share.path share.permissions share.userId =
        .ok (share.readBack, after) ∧ after.Tabulates sessions (shares ++ [share]) := by
  obtain ⟨users, hrows⟩ := h.sessionRows
  have hfree : ¬ (shares.map ShareRow.ofShare).any (·.id = share.id) = true := by
    rw [List.any_map, List.any_eq_true]
    rintro ⟨other, hother, hsame⟩
    exact hfresh other hother (of_decide_eq_true hsame)
  have hafter : ({ db with shares := some (shares.map .ofShare ++ [.ofShare share]) } :
      Database).Tabulates sessions (shares ++ [share]) := by
    refine ⟨⟨users, hrows.isOpen, hrows.users, hrows.sessions⟩, ?_, h.sessionTimes, ?_,
      h.sessionIds, nodup_key_append hfresh h.shareIds⟩
    · rw [List.map_append, List.map_singleton]
    · rw [List.forall_mem_append, List.forall_mem_singleton]
      exact ⟨h.shareTimes, hstorable⟩
  refine ⟨_, ?_, hafter⟩
  refine bind_eq_ok.2 ⟨_, h.shareRows_eq, ?_⟩
  dsimp only
  rw [if_neg hfree]
  exact bind_eq_ok.2 ⟨_, hafter.share_of_mem (List.mem_append_right _ List.mem_cons_self), rfl⟩

theorem fresh_of_createShare {found : Share} (h : db.Tabulates sessions shares)
    (made : db.createShare now share.id share.path share.permissions share.userId =
      .ok (found, after)) : ∀ other ∈ shares, other.id ≠ share.id := by
  intro other hother hsame
  obtain ⟨rows, hread, made⟩ := bind_eq_ok.1 made
  obtain rfl := Except.ok.inj (h.shareRows_eq.symm.trans hread)
  have htaken : (shares.map ShareRow.ofShare).any (·.id = share.id) = true :=
    List.any_eq_true.2 ⟨_, List.mem_map_of_mem hother, decide_eq_true hsame⟩
  dsimp only at made
  rw [if_pos htaken] at made
  exact throw_bind_ne_ok made

theorem shareDeleted (h : db.Tabulates sessions shares) (deleted : db.deleteShare id = .ok after) :
    after.Tabulates sessions (shares.filter (·.id ≠ id)) := by
  obtain rfl := deleteShare_eq_ok deleted
  rw [h.shareTable, List.filter_map]
  exact h.kept_shares _

theorem userPut {user : User} (h : db.Tabulates sessions shares)
    (put : db.putUser user = .ok after) : after.Tabulates sessions shares := by
  obtain ⟨users, hrows⟩ := h.sessionRows
  obtain ⟨rows, hput, -⟩ := hrows.putUser user
  obtain rfl := Except.ok.inj (hput.symm.trans put)
  exact ⟨⟨rows, hrows.withUsers rows⟩, h.shareRows, h.sessionTimes, h.shareTimes, h.sessionIds,
    h.shareIds⟩

theorem filesChanged (h : db.Tabulates sessions shares) (changed : db.Changes after) :
    after.Tabulates sessions shares := by
  obtain ⟨users, hrows⟩ := h.sessionRows
  obtain ⟨files, touched, hbecomes⟩ := changed.becomes
  have hsame := hbecomes.rest
  have hopen : after.rest.isOpen = true := by rw [hsame]; exact hrows.isOpen
  have husers : after.rest.users = some users := by rw [hsame]; exact hrows.users
  have hsessions : after.rest.sessions = some (sessions.map .ofSession) := by
    rw [hsame]
    exact hrows.sessions
  have hshares : after.rest.shares = some (shares.map .ofShare) := by
    rw [hsame]
    exact h.shareRows
  exact ⟨⟨users, hopen, husers, hsessions⟩, hshares, h.sessionTimes, h.shareTimes, h.sessionIds,
    h.shareIds⟩

/-- The shares of an issuer are listed as they are read back, the newest first. -/
theorem sharesOf (h : db.Tabulates sessions shares) (userId : String) :
    ∃ listed, db.sharesOf userId = .ok listed ∧
      listed.Perm ((shares.filter (·.userId = userId)).map Share.readBack) ∧
      listed.Pairwise Share.ListedBefore := by
  have hstorable : ∀ share ∈ shares.filter (·.userId = userId), share.createdAt.Storable :=
    fun share hmem => h.shareTimes share (List.mem_of_mem_filter hmem)
  have hids : ((shares.filter (·.userId = userId)).map (·.id)).Nodup :=
    h.shareIds.sublist (List.filter_sublist.map _)
  have hrows : (shares.map ShareRow.ofShare).filter (·.userId = userId) =
      (shares.filter (·.userId = userId)).map .ofShare := List.filter_map
  unfold Database.sharesOf
  rw [h.shareRows_eq]
  dsimp only [bind, Except.bind]
  rw [hrows]
  generalize shares.filter (·.userId = userId) = issued at hstorable hids
  have hsorted := pairwise_mergeSort_of_rank @ShareRow.rank_le_iff (issued.map .ofShare)
  generalize hsort : (issued.map ShareRow.ofShare).mergeSort _ = sorted at hsorted ⊢
  have hperm : sorted.Perm (issued.map .ofShare) := hsort ▸ List.mergeSort_perm _ _
  -- Ranks may be equal as far as the sort goes. That the order is strict comes from the ids.
  have hdistinct : sorted.Pairwise fun a b => a.id ≠ b.id := by
    refine List.pairwise_map.1 ((hperm.map ShareRow.id).nodup_iff.2 ?_)
    rwa [List.map_map]
  refine ⟨_, rfl, ?_, List.pairwise_map.2 ?_⟩
  · refine (hperm.map _).trans (List.Perm.of_eq ?_)
    rw [List.map_map]
    exact List.map_congr_left fun share hmem => ShareRow.share_ofShare (hstorable share hmem)
  · refine (hsorted.and hdistinct).imp_of_mem fun {a b} ha hb hab => ?_
    obtain ⟨share, hshare, rfl⟩ := List.mem_map.1 (hperm.mem_iff.1 ha)
    obtain ⟨other, hother, rfl⟩ := List.mem_map.1 (hperm.mem_iff.1 hb)
    rw [ShareRow.share_ofShare (hstorable share hshare),
      ShareRow.share_ofShare (hstorable other hother)]
    exact Share.listedBefore_readBack (hstorable share hshare) (hstorable other hother) hab.2 hab.1

end Tabulates

theorem tabulates_empty : empty.Tabulates [] [] :=
  ⟨⟨[], rfl, rfl, rfl⟩, rfl, by simp, by simp, List.nodup_nil, List.nodup_nil⟩

variable {db : Database} {sessions : List Session} {shares : List Share} {now : Timestamp}

/-- What the calls have left is what the tables have. -/
theorem Remembers.tabulates (h : Remembers sessions shares db) : db.Tabulates sessions shares := by
  induction h with
  | empty => exact tabulates_empty
  -- A creation that went well had a new id, and then it is known what it has come to.
  | sessionCreated _ storable made ih =>
    obtain ⟨_, hmade, hafter⟩ := ih.createSession storable (ih.fresh_of_createSession made)
    obtain ⟨-, rfl⟩ := Prod.mk.inj (Except.ok.inj (hmade.symm.trans made))
    exact hafter
  | sessionDeleted _ deleted ih =>
    obtain rfl := Except.ok.inj ((ih.deleteSession _).symm.trans deleted)
    exact ih.kept_sessions _
  | expiredDeleted _ storable deleted ih =>
    obtain ⟨-, rfl⟩ := Prod.mk.inj (Except.ok.inj ((ih.deleteExpired storable).symm.trans deleted))
    exact ih.kept_sessions _
  | shareCreated _ storable made ih =>
    obtain ⟨_, hmade, hafter⟩ := ih.createShare storable (ih.fresh_of_createShare made)
    obtain ⟨-, rfl⟩ := Prod.mk.inj (Except.ok.inj (hmade.symm.trans made))
    exact hafter
  | shareDeleted _ deleted ih => exact ih.shareDeleted deleted
  | userPut _ put ih => exact ih.userPut put
  | filesChanged _ changed ih => exact ih.filesChanged changed

/-- A session with a new id can always be added. -/
theorem Remembers.createSession (h : Remembers sessions shares db) (session : Session)
    (hstorable : session.expiry.Storable) (hfresh : ∀ other ∈ sessions, other.id ≠ session.id) :
    ∃ after, db.createSession session = .ok (session.readBack, after) ∧
      Remembers (sessions ++ [session]) shares after := by
  obtain ⟨after, hmade, -⟩ := h.tabulates.createSession hstorable hfresh
  exact ⟨after, hmade, h.sessionCreated hstorable hmade⟩

/-- A share with a new id can always be added. -/
theorem Remembers.createShare (h : Remembers sessions shares db) (share : Share)
    (hstorable : share.createdAt.Storable) (hfresh : ∀ other ∈ shares, other.id ≠ share.id) :
    ∃ after, db.createShare share.createdAt share.id share.path share.permissions share.userId =
        .ok (share.readBack, after) ∧ Remembers sessions (shares ++ [share]) after := by
  obtain ⟨after, hmade, -⟩ := h.tabulates.createShare hstorable hfresh
  exact ⟨after, hmade, h.shareCreated hstorable hmade⟩

/-- Times are read back to the microsecond from their texts, whose bytes are in the order of what is
read back. So, of all sessions that were created and still stand, a sweep takes out those that are
over by what is read back of them and no others, and the shares of an issuer are listed from the
newest to the oldest. -/
theorem Remembers.times_sort_as_text (h : Remembers sessions shares db) (hnow : now.Storable) :
    (∀ t u : Timestamp, t.Storable → u.Storable →
      Timestamp.parse? t.stored = some t.truncated ∧
        (t.stored.toUTF8.toList ≤ u.stored.toUTF8.toList ↔ t.truncated ≤ u.truncated) ∧
        (t.stored ≤ u.stored ↔ t.truncated ≤ u.truncated)) ∧
    (∀ session : Session, session.expiry.Storable → (∀ other ∈ sessions, other.id ≠ session.id) →
      ∃ after, db.createSession session = .ok (session.readBack, after) ∧
        Remembers (sessions ++ [session]) shares after) ∧
    (∃ after, db.deleteExpired now =
        .ok (sessions.countP (·.readBack.isExpired now), after) ∧
      after = { db with sessions := after.sessions } ∧
      (∀ session ∈ sessions, db.session session.id = .ok session.readBack ∧
        after.session session.id = if session.readBack.isExpired now then .error .sessionNotFound
          else .ok session.readBack) ∧
      ∀ id, (∀ session ∈ sessions, session.id ≠ id) →
        db.session id = .error .sessionNotFound ∧ after.session id = .error .sessionNotFound) ∧
    (∀ share : Share, share.createdAt.Storable → (∀ other ∈ shares, other.id ≠ share.id) →
      ∃ after, db.createShare share.createdAt share.id share.path share.permissions share.userId =
          .ok (share.readBack, after) ∧ Remembers sessions (shares ++ [share]) after) ∧
    ∀ userId, ∃ listed, db.sharesOf userId = .ok listed ∧
      listed.Perm ((shares.filter (·.userId = userId)).map Share.readBack) ∧
      listed.Pairwise Share.ListedBefore := by
  have htables := h.tabulates
  refine ⟨fun t u ht hu => ?_, h.createSession, ?_, h.createShare, htables.sharesOf⟩
  · exact ⟨Timestamp.parse?_stored ht, Timestamp.bytes_le_bytes_iff ht hu,
      Timestamp.stored_le_stored_iff ht hu⟩
  · refine ⟨_, htables.deleteExpired hnow, rfl, fun session hmem => ?_, fun id hnew => ?_⟩
    · refine ⟨htables.session_of_mem hmem, ?_⟩
      rw [htables.session_of_kept _ hmem]
      cases session.readBack.isExpired now <;> rfl
    · refine ⟨htables.session_of_unknown hnew, ?_⟩
      refine (htables.kept_sessions _).session_of_unknown fun session hmem => ?_
      exact hnew session (List.mem_of_mem_filter hmem)

/-- A session is over within the microsecond before the time that it was created with, and of two
shares the later one is listed first. -/
theorem Remembers.times_sort_as_text_of_two :
    let due (id : String) (nanos : Nat) : Session := ⟨id, "ann", "", "", "", ⟨0, nanos⟩⟩
    let issued (id : String) (seconds : Int) : Share := ⟨id, "/", .all, "ann", ⟨seconds, 0⟩⟩
    ∃ db, Remembers [due "a" 1999, due "b" 2000] [issued "s" 5, issued "t" 9] db ∧
      ∃ after, db.deleteExpired ⟨0, 1500⟩ = .ok (1, after) ∧
        after.session "a" = .error .sessionNotFound ∧ after.session "b" = .ok (due "b" 2000) ∧
        db.sharesOf "ann" = .ok [issued "t" 9, issued "s" 5] := by
  intro due issued
  have hstorable : ∀ nanos : Nat, nanos ≤ 2000 → Timestamp.Storable ⟨0, nanos⟩ := by
    intro nanos hnanos
    refine ⟨?_, ?_⟩
    · unfold nanosPerSecond
      show nanos < 1000000000
      omega
    · show 0 ≤ Timestamp.year ⟨0, 0⟩ ∧ Timestamp.year ⟨0, 0⟩ ≤ 9999
      decide
  obtain ⟨_, -, hfirst⟩ := Remembers.empty.createSession (due "a" 1999)
    (hstorable 1999 (by decide)) (by simp)
  obtain ⟨_, -, hsecond⟩ := hfirst.createSession (due "b" 2000)
    (hstorable 2000 (by decide)) (by simp [due])
  obtain ⟨_, -, hthird⟩ := hsecond.createShare (issued "s" 5) ⟨by decide, by decide⟩ (by simp)
  obtain ⟨db, -, hdb⟩ := hthird.createShare (issued "t" 9) ⟨by decide, by decide⟩
    (by simp [issued])
  obtain ⟨-, -, ⟨after, hdeleted, -, hsessions, -⟩, -, hlisted⟩ :=
    hdb.times_sort_as_text (hstorable 1500 (by decide))
  obtain ⟨listed, hanswer, hperm, hordered⟩ := hlisted "ann"
  have hcount : [due "a" 1999, due "b" 2000].countP (·.readBack.isExpired ⟨0, 1500⟩) = 1 := by
    decide
  have hover : (due "a" 1999).readBack.isExpired ⟨0, 1500⟩ = true := by decide
  have hstands : ¬ (due "b" 2000).readBack.isExpired ⟨0, 1500⟩ = true := by decide
  have hback : (due "b" 2000).readBack = due "b" 2000 := by decide
  have hshares : (issued "s" 5).readBack = issued "s" 5 ∧
      (issued "t" 9).readBack = issued "t" 9 := by
    decide
  have hunordered : ¬ (issued "s" 5).ListedBefore (issued "t" 9) := by
    unfold Share.ListedBefore
    decide
  refine ⟨db, hdb, after, ?_, ?_, ?_, ?_⟩
  · rw [← hcount]
    exact hdeleted
  · exact (hsessions (due "a" 1999) (by simp)).2.trans (if_pos hover)
  · have hkept := (hsessions (due "b" 2000) (by simp)).2
    rwa [if_neg hstands, hback] at hkept
  · have hpair := List.perm_pair.1 hperm
    rw [hshares.1, hshares.2] at hpair
    obtain rfl | rfl := hpair
    · exact absurd (List.rel_of_pairwise_cons hordered (by simp)) hunordered
    · exact hanswer

end Database

end FileDrive
