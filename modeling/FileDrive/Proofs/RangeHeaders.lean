import FileDrive.Range
import FileDrive.Proofs.StoredTimes
import Mathlib.Data.Nat.Digits.Lemmas
import Mathlib.Data.Set.Card
import Mathlib.Order.Interval.Finset.Nat
import Mathlib.Tactic.Ring

/-!
# Range headers

`RangeRequest.Asks` is the grammar of the headers that are accepted, `RangeRequest.asked` the set of
offsets that a request is about. A request is resolved to the part of that set that the object has
(`resolve_eq_ok_iff`), which is an interval (`asked_inter`).
-/

namespace FileDrive.Text

/-! ## Numbers in decimal digits -/

/-- The value of a text of decimal digits, the last one counting once. -/
def decimalValue (digits : List Char) : Nat :=
  Nat.ofDigits 10 (digits.reverse.map fun c => c.toNat - '0'.toNat)

theorem decimalValue_cons (c : Char) (digits : List Char) :
    decimalValue (c :: digits) =
      (c.toNat - '0'.toNat) * 10 ^ digits.length + decimalValue digits := by
  unfold decimalValue
  rw [List.reverse_cons, List.map_append, Nat.ofDigits_append, List.map_singleton,
    Nat.ofDigits_singleton, List.length_map, List.length_reverse]
  ring

theorem digit?_eq_some {c : Char} {d : Nat} :
    digit? c = some d ↔ ('0' ≤ c ∧ c ≤ '9') ∧ d = c.toNat - '0'.toNat := by
  unfold digit?
  split <;> simp_all [eq_comm]

theorem appendDigits_eq_some {s : List Char} {n m : Nat} :
    appendDigits n s = some m ↔
      (∀ c ∈ s, '0' ≤ c ∧ c ≤ '9') ∧ m = n * 10 ^ s.length + decimalValue s := by
  induction s generalizing n with
  | nil => simp [appendDigits, decimalValue, eq_comm]
  | cons c s ih =>
    have hstep (d : Nat) : (n * 10 + d) * 10 ^ s.length + decimalValue s =
        n * 10 ^ (s.length + 1) + (d * 10 ^ s.length + decimalValue s) := by
      rw [Nat.pow_succ]
      ring
    rw [appendDigits, List.length_cons, decimalValue_cons, ← hstep, List.forall_mem_cons]
    constructor
    · intro h
      obtain ⟨d, hd, hrest⟩ := Option.bind_eq_some_iff.1 h
      obtain ⟨hc, rfl⟩ := digit?_eq_some.1 hd
      obtain ⟨hs, hm⟩ := ih.1 hrest
      exact ⟨⟨hc, hs⟩, hm⟩
    · intro h
      obtain ⟨⟨hc, hs⟩, hm⟩ := h
      apply Option.bind_eq_some_iff.2
      exact ⟨_, digit?_eq_some.2 ⟨hc, rfl⟩, ih.2 ⟨hs, hm⟩⟩

/-- A number of 64 bits in ASCII digits, with a plus sign in front or without. -/
structure Numeral (text : List Char) (n : Nat) : Prop where
  /-- The text has digits, and nothing but digits behind the sign. -/
  digits : ∃ digits, (text = digits ∨ text = '+' :: digits) ∧ digits ≠ [] ∧
    (∀ c ∈ digits, '0' ≤ c ∧ c ≤ '9') ∧ n = decimalValue digits
  /-- The number fits into 64 bits. -/
  bounded : n < wordBound

theorem Numeral.ne_nil {text : List Char} {n : Nat} (h : Numeral text n) : text ≠ [] := by
  obtain ⟨digits, rfl | rfl, hne, _⟩ := h.digits
  · exact hne
  · simp

theorem readDigits_eq_some {s : List Char} {n : Nat} :
    readDigits s = some n ↔ s ≠ [] ∧ (∀ c ∈ s, '0' ≤ c ∧ c ≤ '9') ∧ n = decimalValue s := by
  cases s with
  | nil => simp [readDigits]
  | cons c s =>
    show appendDigits 0 (c :: s) = some n ↔ _
    rw [appendDigits_eq_some]
    simp

theorem readBelow_eq_some {text : List Char} {n : Nat} :
    readBelow wordBound text = some n ↔ Numeral text n := by
  have hread : readBelow wordBound text = some n ↔
      readDigits (if text.head? = some '+' then text.tail else text) = some n ∧ n < wordBound := by
    unfold readBelow
    constructor
    · intro h
      obtain ⟨m, hm, hif⟩ := Option.bind_eq_some_iff.1 h
      split at hif
      · cases hif
        exact ⟨hm, ‹_›⟩
      · cases hif
    · intro h
      apply Option.bind_eq_some_iff.2
      exact ⟨n, h.1, if_pos h.2⟩
  rw [hread, readDigits_eq_some]
  constructor
  · intro ⟨⟨hne, hdigits, hn⟩, hlt⟩
    refine ⟨⟨_, ?_, hne, hdigits, hn⟩, hlt⟩
    split
    · right
      exact (List.cons_head?_tail ‹_›).symm
    · left
      rfl
  · intro ⟨⟨digits, hshape, hne, hdigits, hn⟩, hlt⟩
    refine ⟨?_, hlt⟩
    obtain rfl | rfl := hshape
    · -- A digit is not the sign.
      have hsign : text.head? ≠ some '+' := by
        intro h
        have := hdigits '+' (List.mem_of_mem_head? h)
        revert this
        decide
      rw [if_neg hsign]
      exact ⟨hne, hdigits, hn⟩
    · exact ⟨hne, hdigits, hn⟩

theorem appendDigits_toString (n : Nat) : appendDigits 0 (toString n).toList = some n := by
  rw [show (toString n).toList = Nat.toDigits 10 n from Nat.toList_repr]
  obtain ⟨k, hk⟩ : ∃ k, (Nat.toDigits 10 n).length = k + 1 :=
    Nat.exists_eq_add_one.2 Nat.length_toDigits_pos
  have hlt : n < 10 ^ (k + 1) :=
    (Nat.length_toDigits_le_iff (by omega) (by omega)).1 (le_of_eq hk)
  have hdigits := replicate_append_toDigits hlt
  rw [hk, Nat.sub_self] at hdigits
  rw [show Nat.toDigits 10 n = lastDigits (k + 1) n from hdigits]
  exact appendDigits_lastDigits hlt

theorem isDigit_of_mem_toString {n : Nat} {c : Char} (h : c ∈ (toString n).toList) :
    '0' ≤ c ∧ c ≤ '9' :=
  (appendDigits_eq_some.1 (appendDigits_toString n)).1 c h

theorem numeral_toString {n : Nat} (h : n < wordBound) : Numeral (toString n).toList n := by
  obtain ⟨hdigits, hn⟩ := appendDigits_eq_some.1 (appendDigits_toString n)
  refine ⟨⟨_, .inl rfl, ?_, hdigits, by simpa using hn⟩, h⟩
  apply List.ne_nil_of_length_pos
  rw [show (toString n).toList = Nat.toDigits 10 n from Nat.toList_repr]
  exact Nat.length_toDigits_pos

/-! ## Texts cut and trimmed -/

theorem cutFirst_eq_some {sep : Char} {s before after : List Char} :
    cutFirst sep s = some (before, after) ↔ s = before ++ sep :: after ∧ sep ∉ before := by
  induction s generalizing before with
  | nil => simp [cutFirst]
  | cons c s ih =>
    rw [cutFirst]
    split
    · subst c
      cases before with
      | nil => simp [eq_comm]
      | cons b before => simp_all [eq_comm]
    · cases before with
      | nil => simp_all
      | cons b before =>
        rw [Option.map_eq_some_iff]
        constructor
        · intro ⟨(b', a'), hcut, heq⟩
          cases heq
          obtain ⟨rfl, hmem⟩ := ih.1 hcut
          refine ⟨rfl, ?_⟩
          rw [List.mem_cons, not_or]
          exact ⟨fun h => ‹¬ c = sep› h.symm, hmem⟩
        · intro ⟨heq, hmem⟩
          cases heq
          exact ⟨_, ih.2 ⟨rfl, fun h => hmem (List.mem_cons_of_mem _ h)⟩, rfl⟩

theorem after?_eq_some {start s rest : List Char} :
    after? start s = some rest ↔ s = start ++ rest := by
  constructor
  · intro h
    induction start generalizing s with
    | nil =>
      cases h
      rfl
    | cons a start ih =>
      cases s with
      | nil => cases h
      | cons c s =>
        rw [after?] at h
        split at h
        · subst c
          rw [ih h]
          rfl
        · cases h
  · intro h
    rw [h, after?_append]

/-- A text without blanks is trimmed already. -/
theorem trim_eq_self {s : List Char} (h : ∀ c ∈ s, isBlank c = false) : trim s = s := by
  have hdrop {t : List Char} (h : ∀ c ∈ t, isBlank c = false) : t.dropWhile isBlank = t := by
    cases t with
    | nil => rfl
    | cons c t => rw [List.dropWhile_cons_of_neg (by simp [h])]
  unfold trim trimEnd trimStart
  rw [hdrop h, hdrop (by simpa using h), List.reverse_reverse]

theorem isBlank_of_isDigit {c : Char} (h : '0' ≤ c ∧ c ≤ '9') : isBlank c = false := by
  have hlow : 0x30 ≤ c.toNat := h.1
  have hhigh : c.toNat ≤ 0x39 := h.2
  simp only [isBlank, Bool.or_eq_false_iff, Bool.and_eq_false_iff, decide_eq_false_iff_not,
    beq_eq_false_iff_ne]
  omega

end FileDrive.Text

namespace FileDrive.RangeRequest

open FileDrive.Text

/-! ## The headers that are accepted -/

/-- What the trimmed texts before and after the dash of a header ask for. -/
inductive Spells : (first last : List Char) → RangeRequest → Prop
  /-- Two numbers in order. -/
  | between {first last : List Char} {a b : Nat} (ha : Numeral first a) (hb : Numeral last b)
      (hle : a ≤ b) : Spells first last (.between a b)
  /-- A number and nothing behind the dash. -/
  | onward {first : List Char} {a : Nat} (ha : Numeral first a) : Spells first [] (.onward a)
  /-- A number and nothing before the dash. -/
  | final {last : List Char} {n : Nat} (hn : Numeral last n) : Spells [] last (.final n)

/-- A header that asks for part of an object: once it is trimmed, `bytes=` and a text that has no
comma, cut at its first dash. -/
def Asks (header : String) (request : RangeRequest) : Prop :=
  ∃ before after : List Char,
    trim header.toList = "bytes=".toList ++ (before ++ '-' :: after) ∧
      ',' ∉ before ++ '-' :: after ∧ '-' ∉ before ∧ Spells (trim before) (trim after) request

theorem ofBounds?_eq_some {first last : List Char} {request : RangeRequest} :
    ofBounds? first last = some request ↔ Spells first last request := by
  constructor
  · intro h
    unfold ofBounds? at h
    split at h
    · cases h
    · obtain ⟨n, hn, rfl⟩ := Option.map_eq_some_iff.1 h
      exact .final (readBelow_eq_some.1 hn)
    · obtain ⟨a, ha, rfl⟩ := Option.map_eq_some_iff.1 h
      exact .onward (readBelow_eq_some.1 ha)
    · obtain ⟨a, ha, h⟩ := Option.bind_eq_some_iff.1 h
      obtain ⟨b, hb, h⟩ := Option.bind_eq_some_iff.1 h
      split at h
      · cases h
      · cases h
        exact .between (readBelow_eq_some.1 ha) (readBelow_eq_some.1 hb) (by omega)
  · intro h
    cases h with
    | between ha hb hle =>
      have hfirst := readBelow_eq_some.2 ha
      have hlast := readBelow_eq_some.2 hb
      unfold ofBounds?
      split
      · exact absurd rfl ha.ne_nil
      · exact absurd rfl ha.ne_nil
      · exact absurd rfl hb.ne_nil
      · rw [hfirst, hlast]
        exact if_neg (by omega)
    | onward ha =>
      have hfirst := readBelow_eq_some.2 ha
      unfold ofBounds?
      split
      · exact absurd rfl ha.ne_nil
      · exact absurd rfl ha.ne_nil
      · rw [hfirst]
        rfl
      · exact absurd rfl ‹([] : List Char) = [] → False›
    | final hn =>
      have hlast := readBelow_eq_some.2 hn
      unfold ofBounds?
      split
      · exact absurd rfl hn.ne_nil
      · rw [hlast]
        rfl
      · exact absurd rfl hn.ne_nil
      · exact absurd rfl ‹([] : List Char) = [] → False›

theorem parse_eq_ok {header : String} {request : RangeRequest} :
    parse header = .ok request ↔ Asks header request := by
  have hparse : parse header = .ok request ↔ ofChars? header.toList = some request := by
    unfold parse
    split <;> simp_all
  rw [hparse]
  unfold ofChars? Asks
  constructor
  · intro h
    obtain ⟨spec, hspec, h⟩ := Option.bind_eq_some_iff.1 h
    split at h
    · cases h
    · obtain ⟨⟨before, after⟩, hcut, hbounds⟩ := Option.bind_eq_some_iff.1 h
      obtain ⟨rfl, hdash⟩ := cutFirst_eq_some.1 hcut
      exact ⟨before, after, after?_eq_some.1 hspec, ‹_›, hdash, ofBounds?_eq_some.1 hbounds⟩
  · intro ⟨before, after, htrim, hcomma, hdash, hspells⟩
    rw [htrim, after?_append, Option.bind_eq_bind, Option.bind_some, if_neg hcomma,
      cutFirst_eq_some.2 ⟨rfl, hdash⟩]
    exact ofBounds?_eq_some.2 hspells

/-- A header that asks for nothing is refused with its own text. -/
theorem parse_eq_error {header : String} (h : ∀ request, ¬Asks header request) :
    parse header = .error (invalid header) := by
  cases hparse : parse header with
  | ok request => exact absurd (parse_eq_ok.1 hparse) (h request)
  | error detail =>
    unfold parse at hparse
    split at hparse
    · cases hparse
    · exact hparse.symm

/-! ## The bytes that are asked for -/

/-- The offsets that a request is about in an object of `total` bytes. -/
def asked : RangeRequest → (total : Nat) → Set Nat
  | between first last, _ => Set.Icc first last
  | onward first, _ => Set.Ici first
  | final count, total => {offset | offset < total ∧ total ≤ offset + count}

/-- Where a request has two ends, they are in order. -/
def Proper : RangeRequest → Prop
  | between first last => first ≤ last
  | onward _ => True
  | final _ => True

theorem Spells.proper {first last : List Char} {request : RangeRequest}
    (h : Spells first last request) : request.Proper := by
  cases h with
  | between _ _ hle => exact hle
  | onward _ => trivial
  | final _ => trivial

theorem Asks.proper {header : String} {request : RangeRequest} (h : Asks header request) :
    request.Proper := by
  obtain ⟨before, after, -, -, -, hspells⟩ := h
  exact hspells.proper

theorem resolve_eq_ok {request : RangeRequest} {total : Nat} {r : ByteRange} :
    request.resolve total = .ok r ↔ request.resolve? total = some r := by
  unfold resolve
  split <;> simp_all

/-- A resolved range is the part of what was asked for that the object has. -/
theorem asked_inter {request : RangeRequest} {total : Nat} {r : ByteRange} (hproper : request.Proper)
    (h : request.resolve? total = some r) :
    request.asked total ∩ Set.Iio total = Set.Icc r.first r.last ∧
      r.first ≤ r.last ∧ r.last < total ∧ r.total = total := by
  unfold resolve? at h
  split at h
  · cases h
  · cases request with
    | between first last =>
      have hle : first ≤ last := hproper
      dsimp only at h
      split at h
      · cases h
        refine ⟨?_, by dsimp only; omega, by dsimp only; omega, rfl⟩
        ext offset
        simp only [asked, Set.mem_inter_iff, Set.mem_Icc, Set.mem_Iio]
        omega
      · cases h
    | onward first =>
      dsimp only at h
      split at h
      · cases h
        refine ⟨?_, by dsimp only; omega, by dsimp only; omega, rfl⟩
        ext offset
        simp only [asked, Set.mem_inter_iff, Set.mem_Ici, Set.mem_Icc, Set.mem_Iio]
        omega
      · cases h
    | final count =>
      dsimp only at h
      split at h
      · cases h
      · cases h
        refine ⟨?_, by dsimp only; omega, by dsimp only; omega, rfl⟩
        ext offset
        simp only [asked, Set.mem_inter_iff, Set.mem_ofPred_eq, Set.mem_Icc, Set.mem_Iio]
        omega

/-- A request is not satisfied only where the object has nothing of what is asked for. -/
theorem asked_inter_of_none {request : RangeRequest} {total : Nat}
    (h : request.resolve? total = none) : request.asked total ∩ Set.Iio total = ∅ := by
  apply Set.eq_empty_of_forall_notMem
  intro offset ⟨hasked, hlt⟩
  rw [Set.mem_Iio] at hlt
  unfold resolve? at h
  rw [if_neg (by omega)] at h
  cases request with
  | between first last =>
    obtain ⟨hle, -⟩ : first ≤ offset ∧ offset ≤ last := hasked
    dsimp only at h
    rw [if_pos (by omega)] at h
    cases h
  | onward first =>
    have hle : first ≤ offset := hasked
    dsimp only at h
    rw [if_pos (by omega)] at h
    cases h
  | final count =>
    obtain ⟨-, hle⟩ : offset < total ∧ total ≤ offset + count := hasked
    dsimp only at h
    rw [if_neg (by omega)] at h
    cases h

theorem exists_resolve_iff {request : RangeRequest} {total : Nat} (hproper : request.Proper) :
    (∃ r, request.resolve total = .ok r) ↔ (request.asked total ∩ Set.Iio total).Nonempty := by
  constructor
  · intro ⟨r, hr⟩
    obtain ⟨hset, hle, -⟩ := asked_inter hproper (resolve_eq_ok.1 hr)
    rw [hset]
    exact Set.nonempty_Icc.2 hle
  · intro hsome
    cases h : request.resolve? total with
    | some r => exact ⟨r, resolve_eq_ok.2 h⟩
    | none =>
      rw [asked_inter_of_none h] at hsome
      exact absurd hsome Set.not_nonempty_empty

end FileDrive.RangeRequest

namespace FileDrive.ByteRange

open FileDrive.Text

/-- The offsets from the first to the last of a range, and nothing that needs more than 64 bits. -/
structure Covers (r : ByteRange) (offsets : Set Nat) : Prop where
  /-- The range starts at the least of the offsets. -/
  first : IsLeast offsets r.first
  /-- The range ends at the greatest of the offsets. -/
  last : IsGreatest offsets r.last
  /-- The range is not turned round. -/
  ordered : r.first ≤ r.last
  /-- The range ends inside the object. -/
  inside : r.last < r.total
  /-- The number of bytes counted in 64 bits is the number counted without a bound. -/
  exact : r.length = r.last - r.first + 1
  /-- The number of bytes is the number of offsets. -/
  counted : r.length = offsets.ncard

theorem covers_Icc {r : ByteRange} (hle : r.first ≤ r.last) (hlast : r.last < r.total)
    (htotal : r.total < wordBound) : r.Covers (Set.Icc r.first r.last) := by
  have hlength : r.length = r.last - r.first + 1 := length_eq hle (by omega)
  have hcard : (Set.Icc r.first r.last).ncard = r.last + 1 - r.first := by
    rw [Set.ncard_eq_toFinset_card', Set.toFinset_Icc, Nat.card_Icc]
  exact {
    first := isLeast_Icc hle
    last := isGreatest_Icc hle
    ordered := hle
    inside := hlast
    exact := hlength
    counted := by omega }

/-- A header written for a range asks for its first and its last byte. -/
theorem asks_headerValue {r : ByteRange} (hle : r.first ≤ r.last) (hlast : r.last < wordBound) :
    RangeRequest.Asks r.headerValue (.between r.first r.last) := by
  have hnot {c : Char} (hc : ¬('0' ≤ c ∧ c ≤ '9')) (n : Nat) : c ∉ (toString n).toList :=
    fun h => hc (isDigit_of_mem_toString h)
  have hplain (n : Nat) : ∀ c ∈ (toString n).toList, isBlank c = false :=
    fun c h => isBlank_of_isDigit (isDigit_of_mem_toString h)
  have htext : r.headerValue.toList =
      "bytes=".toList ++ ((toString r.first).toList ++ '-' :: (toString r.last).toList) := by
    unfold headerValue
    rw [String.toList_append, String.toList_append, String.toList_append, List.append_assoc,
      List.append_assoc]
    rfl
  refine ⟨(toString r.first).toList, (toString r.last).toList, ?_, ?_, hnot (by decide) _, ?_⟩
  · rw [htext]
    apply trim_eq_self
    intro c hc
    rw [List.mem_append, List.mem_append, List.mem_cons] at hc
    obtain hc | hc | rfl | hc := hc
    · have hprefix : ("bytes=".toList.all fun c => !isBlank c) = true := by decide
      simpa using List.all_eq_true.1 hprefix c hc
    · exact hplain _ c hc
    · rfl
    · exact hplain _ c hc
  · rw [List.mem_append, List.mem_cons]
    intro h
    obtain h | h | h := h
    · exact hnot (by decide) _ h
    · exact absurd h (by decide)
    · exact hnot (by decide) _ h
  · rw [trim_eq_self (hplain _), trim_eq_self (hplain _)]
    exact .between (numeral_toString (by omega)) (numeral_toString hlast) hle

/-- The header written for a range is resolved to the range again. -/
theorem resolveHeader_headerValue {r : ByteRange} (hle : r.first ≤ r.last)
    (hlast : r.last < r.total) (htotal : r.total < wordBound) :
    RangeRequest.resolveHeader (some r.headerValue) r.total = .ok (some r) := by
  have hparse := RangeRequest.parse_eq_ok.2 (asks_headerValue hle (by omega : r.last < wordBound))
  have hresolve : (RangeRequest.between r.first r.last).resolve r.total = .ok r := by
    rw [RangeRequest.resolve_eq_ok]
    show (if r.total = 0 then none else if r.first < r.total then
      some ⟨r.first, min r.last (r.total - 1), r.total⟩ else none) = some r
    rw [if_neg (by omega), if_pos (by omega), Nat.min_eq_left (by omega)]
  show (do
    let request ← RangeRequest.parse r.headerValue
    some <$> request.resolve r.total) = _
  rw [hparse]
  show some <$> (RangeRequest.between r.first r.last).resolve r.total = _
  rw [hresolve]
  rfl

end FileDrive.ByteRange

namespace FileDrive.RangeRequest

open FileDrive.Text

/-- A header is taken where it asks for something, and refused with its own text otherwise. What it
asks for is resolved exactly where the object has some of it, to the least range with all of that;
and the header written for that range is resolved to the range again. -/
theorem range_is_what_is_asked_for (header : String) (total : Nat) (htotal : total < wordBound) :
    (∀ request, parse header = .ok request ↔ Asks header request) ∧
    ((∀ request, ¬Asks header request) → parse header = .error (invalid header)) ∧
    ∀ request, parse header = .ok request →
      ((∃ r, request.resolve total = .ok r) ↔ (request.asked total ∩ Set.Iio total).Nonempty) ∧
      ∀ r, request.resolve total = .ok r →
        r.total = total ∧ r.Covers (request.asked total ∩ Set.Iio total) ∧
        resolveHeader (some r.headerValue) r.total = .ok (some r) := by
  refine ⟨fun request => parse_eq_ok, parse_eq_error, ?_⟩
  intro request hparse
  have hproper : request.Proper := (parse_eq_ok.1 hparse).proper
  refine ⟨exists_resolve_iff hproper, ?_⟩
  intro r hresolve
  obtain ⟨hset, hle, hlast, rfl⟩ := asked_inter hproper (resolve_eq_ok.1 hresolve)
  rw [hset]
  exact ⟨rfl, ByteRange.covers_Icc hle hlast htotal,
    ByteRange.resolveHeader_headerValue hle hlast htotal⟩

/-- A range that ends behind the object, with a sign and with blanks in the header. -/
theorem range_is_what_is_asked_for_clamped :
    5 < wordBound ∧ parse " bytes=+2- 9 " = .ok (.between 2 9) ∧
      (between 2 9).resolve 5 = .ok ⟨2, 4, 5⟩ ∧
      (⟨2, 4, 5⟩ : ByteRange).Covers (Set.Icc 2 9 ∩ Set.Iio 5) := by
  have htotal : 5 < wordBound := by decide
  have hparse : parse " bytes=+2- 9 " = .ok (.between 2 9) := by decide +kernel
  have hresolve : (between 2 9).resolve 5 = .ok ⟨2, 4, 5⟩ := by rfl
  have hrange := (range_is_what_is_asked_for " bytes=+2- 9 " 5 htotal).2.2 _ hparse
  exact ⟨htotal, hparse, hresolve, (hrange.2 _ hresolve).2.1⟩

end FileDrive.RangeRequest
