import FileDrive.Proofs.EscapedKeys
import FileDrive.Web.Disposition

/-!
# Names of downloads

The header that names a download gives the name in quotes, or there a text with what is in the way
taken out and then the name itself with escapes (`Names`). What stands in quotes has no quote in it,
so a value falls into its parts in one way and gives one name (`Names.unique`), and nothing in a
value ends the line it is on.
-/

namespace FileDrive

namespace Text

/-- The characters that an escaped text is written with. -/
def isEscaping (c : Char) : Bool := isUnreserved c || c = '%'

theorem isUnreserved_bounds {c : Char} (h : isUnreserved c = true) :
    0x2D ≤ c.toNat ∧ c.toNat ≤ 0x7E := by
  simp only [isUnreserved, Bool.or_eq_true, decide_eq_true_eq] at h
  rcases h with (((h | rfl) | rfl) | rfl) | rfl
  · unfold Char.isAlphanum Char.isAlpha Char.isUpper Char.isLower Char.isDigit at h
    grind [Char.toNat, UInt32.le_iff_toNat_le]
  all_goals decide

theorem isEscaping_bounds {c : Char} (h : isEscaping c = true) :
    0x25 ≤ c.toNat ∧ c.toNat ≤ 0x7E := by
  rw [isEscaping, Bool.or_eq_true, decide_eq_true_eq] at h
  rcases h with h | rfl
  · have hbounds := isUnreserved_bounds h
    omega
  · decide

theorem isEscaping_encodeByte_ofNat :
    ∀ n < 256, (encodeByte (UInt8.ofNat n)).all isEscaping = true := by
  decide +kernel

theorem isEscaping_percentEncode (s : String) : (percentEncode s).toList.all isEscaping = true := by
  rw [percentEncode, String.toList_ofList, List.all_flatMap, List.all_eq_true]
  intro b _
  rw [← UInt8.ofNat_toNat (x := b)]
  exact isEscaping_encodeByte_ofNat b.toNat (UInt8.toNat_lt b)

/-- A text that is written with escapes is read back. -/
theorem percentDecoded?_percentEncode (s : String) :
    percentDecoded? (percentEncode s) = some s := by
  have hbytes : percentDecode (utf8 (percentEncode s).toList) = utf8 s.toList := by
    rw [percentEncode, String.toList_ofList, percentDecode_encoded, toList_toUTF8]
  rw [percentDecoded?_of_utf8 hbytes, String.ofList_toList]

end Text

namespace Web.Disposition

open FileDrive.Text

variable {kind name other value : String}

/-- What a download is for. -/
def kindOf (attachment : Bool) : String := if attachment then "attachment" else "inline"

/-- Whether a text can stand between the quotes of a header. -/
def isClear (s : String) : Bool := s.toList.all (!isAwkward ·)

/-- What stands in quotes and what stands behind them give a name: it is in the quotes, or it
follows with escapes. -/
inductive Gives (name : String) : (shown behind : String) → Prop where
  | shown : Gives name name ""
  | escaped {shown written : String} (escaping : written.toList.all isEscaping = true)
      (decoded : percentDecoded? written = some name) :
      Gives name shown ("; filename*=UTF-8''" ++ written)

/-- A value of a kind, with a text in quotes that can stand there, that gives a name. -/
def Names (kind name value : String) : Prop :=
  ∃ shown behind, value = kind ++ "; filename=\"" ++ shown ++ "\"" ++ behind ∧
    isClear shown = true ∧ Gives name shown behind

theorem isClear_of_isPlain (h : isPlain name = true) : isClear name = true := by
  rw [isPlain, List.all_eq_true] at h
  rw [isClear, List.all_eq_true]
  intro c hc
  exact (Bool.and_eq_true _ _ ▸ h c hc).2

/-- Nothing awkward is left in a sanitized name. -/
theorem isClear_sanitized (name : String) : isClear (sanitized name) = true := by
  rw [isClear, sanitized, String.toList_ofList, List.all_eq_true]
  intro c hc
  obtain ⟨d, hd, rfl⟩ := List.mem_map.1 hc
  have hcontrol : isControl d = false := by simpa using (List.mem_filter.1 hd).2
  by_cases hquote : d = '"' ∨ d = '\\'
  · rw [if_pos hquote]
    decide
  · rw [if_neg hquote]
    rw [not_or] at hquote
    simp [isAwkward, hcontrol, hquote.1, hquote.2]

theorem names_header (name : String) (attachment : Bool) :
    Names (kindOf attachment) name (header name attachment) := by
  unfold header
  dsimp only
  split
  · next hplain =>
    exact ⟨name, "", by rw [String.append_empty]; rfl, isClear_of_isPlain hplain, .shown⟩
  · refine ⟨sanitized name, _, ?_, isClear_sanitized name,
      .escaped (isEscaping_percentEncode name) (percentDecoded?_percentEncode name)⟩
    simp only [String.append_assoc]
    rfl

/-! ## What a value gives -/

theorem Gives.unique {shown behind : String} (h : Gives name shown behind)
    (k : Gives other shown behind) : name = other := by
  cases h with
  | shown =>
    generalize hnothing : "" = behind at k
    cases k with
    | shown => rfl
    | escaped => simp [String.ext_iff] at hnothing
  | @escaped shown written escaping decoded =>
    generalize hbehind : "; filename*=UTF-8''" ++ written = behind at k
    cases k with
    | shown => simp [String.ext_iff] at hbehind
    | @escaped shown written' escaping' decoded' =>
      have hwritten : written.toList = written'.toList := by
        simpa using congrArg String.toList hbehind
      rw [String.toList_injective hwritten, decoded', Option.some_inj] at decoded
      exact decoded.symm

theorem toList_value (kind shown behind : String) :
    (kind ++ "; filename=\"" ++ shown ++ "\"" ++ behind).toList =
      (kind ++ "; filename=\"").toList ++ (shown.toList ++ '"' :: behind.toList) := by
  simp only [String.toList_append, List.append_assoc]
  rfl

theorem quote_notMem (h : isClear name = true) : '"' ∉ name.toList := by
  intro hmem
  have hquote := List.all_eq_true.1 h _ hmem
  exact absurd hquote (by decide)

theorem append_quote_inj {a b s t : List Char} (ha : '"' ∉ a) (hb : '"' ∉ b)
    (h : a ++ '"' :: s = b ++ '"' :: t) : a = b ∧ s = t := by
  have hcut := congrArg (cutFirst '"') h
  rw [cutFirst_eq_some.2 ⟨rfl, ha⟩, cutFirst_eq_some.2 ⟨rfl, hb⟩] at hcut
  simpa using hcut

/-- A value gives one name. -/
theorem Names.unique (h : Names kind name value) (k : Names kind other value) : name = other := by
  obtain ⟨shown, behind, rfl, hclear, hgives⟩ := h
  obtain ⟨shown', behind', hvalue, hclear', hgives'⟩ := k
  have hlists := congrArg String.toList hvalue
  rw [toList_value, toList_value, List.append_cancel_left_eq] at hlists
  obtain ⟨hshown, hbehind⟩ := append_quote_inj (quote_notMem hclear) (quote_notMem hclear') hlists
  obtain rfl := String.toList_injective hshown
  obtain rfl := String.toList_injective hbehind
  exact hgives.unique hgives'

/-! ## What is nowhere in a value -/

theorem Gives.printable {shown behind : String} (h : Gives name shown behind) :
    behind.toList.all (fun c => !isControl c && c ≠ '"') = true := by
  cases h with
  | shown => rfl
  | @escaped shown written escaping decoded =>
    rw [String.toList_append, List.all_append, Bool.and_eq_true]
    refine ⟨by decide, List.all_eq_true.2 fun c hc => ?_⟩
    obtain ⟨hlow, hhigh⟩ := isEscaping_bounds (List.all_eq_true.1 escaping c hc)
    have hquote : c ≠ '"' := by
      rintro rfl
      revert hlow
      decide
    have hcontrol : isControl c = false := by
      unfold isControl
      simp
      omega
    simp [hcontrol, hquote]

theorem Names.printable (h : Names kind name value)
    (hkind : kind.toList.all (!isControl ·) = true) :
    value.toList.all (!isControl ·) = true := by
  obtain ⟨shown, behind, rfl, hclear, hgives⟩ := h
  have hshown : shown.toList.all (!isControl ·) = true := by
    rw [List.all_eq_true]
    intro c hc
    have hawkward := List.all_eq_true.1 hclear c hc
    rw [isAwkward, Bool.not_or, Bool.not_or, Bool.and_assoc, Bool.and_eq_true] at hawkward
    exact hawkward.1
  have hbehind : behind.toList.all (!isControl ·) = true := by
    rw [List.all_eq_true]
    intro c hc
    exact (Bool.and_eq_true _ _ ▸ List.all_eq_true.1 hgives.printable c hc).1
  have hquotes : (kind ++ "; filename=\"").toList.all (!isControl ·) = true := by
    rw [String.toList_append, List.all_append, hkind]
    decide
  rw [toList_value, List.all_append, List.all_append, List.all_cons, hquotes, hshown, hbehind]
  decide

/-- The quotes of a value are the two around the text that stands in quotes. -/
theorem Names.count_quote (h : Names kind name value) (hkind : '"' ∉ kind.toList) :
    value.toList.count '"' = 2 := by
  obtain ⟨shown, behind, rfl, hclear, hgives⟩ := h
  have hbehind : '"' ∉ behind.toList := by
    intro hmem
    have hquote := List.all_eq_true.1 hgives.printable _ hmem
    exact absurd hquote (by decide)
  have hopening : (kind ++ "; filename=\"").toList.count '"' = 1 := by
    rw [String.toList_append, List.count_append, List.count_eq_zero_of_not_mem hkind]
    decide
  rw [toList_value, List.count_append, List.count_append, List.count_cons_self, hopening,
    List.count_eq_zero_of_not_mem (quote_notMem hclear), List.count_eq_zero_of_not_mem hbehind]

/-- Every value names its download, in quotes or with escapes that are read back as the name, and it
has no control character, no quote but the two around the quoted text, and no other name. -/
theorem header_faithful (attachment : Bool) :
    (∀ name, Names (kindOf attachment) name (header name attachment) ∧
      (header name attachment).toList.all (!isControl ·) = true ∧
      (header name attachment).toList.count '"' = 2) ∧
      Function.Injective (header · attachment) := by
  refine ⟨fun name => ?_, fun name other heq => ?_⟩
  · have hnames := names_header name attachment
    exact ⟨hnames, hnames.printable (by cases attachment <;> decide),
      hnames.count_quote (by cases attachment <;> decide)⟩
  · have hother := names_header other attachment
    rw [show header other attachment = header name attachment from heq.symm] at hother
    exact (names_header name attachment).unique hother

example : header "a\"b\r\nX: é" true =
    "attachment; filename=\"a_bX: é\"; filename*=UTF-8''a%22b%0D%0AX%3A%20%C3%A9" := by
  decide +kernel

end Web.Disposition

end FileDrive
