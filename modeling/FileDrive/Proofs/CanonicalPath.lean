import Mathlib.Data.List.Induction
import FileDrive.Path

/-!
# Canonical paths

A canonical path is its segments: `ofSegments` spells them, `resolve` reads them back, and
`normalize` is the one followed by the other. So whatever is asked of canonical paths is a question
about lists of segments. To lie below is to have a proper prefix (`isBelow_ofSegments`), the
ancestors are the prefixes (`mem_ancestors_ofSegments`), and to rebase is to exchange a prefix
(`rebase_ofSegments`).
-/

namespace FileDrive

namespace Text

theorem pieces_cons_ne {sep c : Char} (h : c ≠ sep) (s : List Char) :
    ∃ first more, pieces sep s = first :: more ∧ pieces sep (c :: s) = (c :: first) :: more := by
  rcases hs : pieces sep s with _ | ⟨first, more⟩
  · exact absurd hs (pieces_ne_nil sep s)
  · exact ⟨first, more, rfl, by rw [pieces, if_neg h, hs]⟩

/-- Cutting at a separator cuts what stands on either side of it. -/
theorem pieces_append_sep (sep : Char) (a b : List Char) :
    pieces sep (a ++ sep :: b) = pieces sep a ++ pieces sep b := by
  induction a with
  | nil => simp [pieces]
  | cons c a ih =>
    by_cases hc : c = sep
    · subst hc
      simp [pieces, ih]
    · obtain ⟨first, more, ha, hca⟩ := pieces_cons_ne hc a
      rw [hca, List.cons_append, pieces, if_neg hc, ih, ha]
      rfl

theorem pieces_of_notMem {sep : Char} {s : List Char} (h : sep ∉ s) : pieces sep s = [s] := by
  induction s with
  | nil => rfl
  | cons c s ih =>
    have hc : c ≠ sep := fun e => h (by simp [e])
    rw [pieces, if_neg hc, ih fun hs => h (List.mem_cons_of_mem c hs)]

/-- No piece has the separator in it, nor a character that the text does not have. -/
theorem of_mem_pieces {sep : Char} {s p : List Char} (h : p ∈ pieces sep s) :
    sep ∉ p ∧ ∀ c ∈ p, c ∈ s := by
  induction s generalizing p with
  | nil =>
    rw [pieces_nil, List.mem_singleton] at h
    simp [h]
  | cons c s ih =>
    by_cases hc : c = sep
    · rw [pieces, if_pos hc, List.mem_cons] at h
      rcases h with rfl | h
      · simp
      · exact ⟨(ih h).1, fun d hd => List.mem_cons_of_mem c ((ih h).2 d hd)⟩
    · obtain ⟨first, more, hs, hcs⟩ := pieces_cons_ne hc s
      rw [hcs, List.mem_cons] at h
      rcases h with rfl | h
      · have hf := ih (p := first) (by simp [hs])
        refine ⟨fun hm => ?_, fun d hd => ?_⟩
        · rcases List.mem_cons.1 hm with e | hm
          · exact hc e.symm
          · exact hf.1 hm
        · rcases List.mem_cons.1 hd with rfl | hd
          · exact List.mem_cons_self
          · exact List.mem_cons_of_mem c (hf.2 d hd)
      · have hm := ih (p := p) (by simp [hs, h])
        exact ⟨hm.1, fun d hd => List.mem_cons_of_mem c (hm.2 d hd)⟩

end Text

namespace Path

open FileDrive.Text

/-- Segments as canonical paths have them. -/
def AreSegments (segs : List (List Char)) : Prop := ∀ s ∈ segs, IsSegment s

variable {segs dir rest : List (List Char)} {path : String}

theorem AreSegments.append (h : AreSegments segs) (k : AreSegments rest) :
    AreSegments (segs ++ rest) := by
  intro s hs
  rcases List.mem_append.1 hs with hs | hs
  · exact h s hs
  · exact k s hs

theorem AreSegments.of_prefix (h : AreSegments segs) (k : dir <+: segs) : AreSegments dir :=
  fun s hs => h s (k.subset hs)

theorem AreSegments.of_append_right (h : AreSegments (dir ++ rest)) : AreSegments rest :=
  fun s hs => h s (List.mem_append_right _ hs)

/-! ## Spelling and reading back -/

@[simp] theorem spell_nil : spell [] = [] := rfl

@[simp] theorem spell_cons (s : List Char) (segs : List (List Char)) :
    spell (s :: segs) = '/' :: (s ++ spell segs) := rfl

theorem spell_append (a b : List (List Char)) : spell (a ++ b) = spell a ++ spell b := by
  simp [spell]

@[simp] theorem toList_root : root.toList = ['/'] := rfl

theorem toList_ofSegments (h : segs ≠ []) : (ofSegments segs).toList = spell segs := by
  rw [ofSegments, if_neg h, String.toList_ofList]

theorem pieces_spell (h : ∀ s ∈ segs, '/' ∉ s) : pieces '/' (spell segs) = [] :: segs := by
  induction segs using List.reverseRecOn with
  | nil => rfl
  | append_singleton segs s ih =>
    have hs : '/' ∉ s := h s (by simp)
    have hspell : spell (segs ++ [s]) = spell segs ++ '/' :: s := by simp [spell_append]
    rw [hspell, pieces_append_sep, ih fun t ht => h t (by simp [ht]), pieces_of_notMem hs]
    rfl

theorem AreSegments.noSlash (h : AreSegments segs) : ∀ s ∈ segs, '/' ∉ s :=
  fun s hs => (h s hs).2.2.2

theorem foldl_push (h : AreSegments segs) (stack : List (List Char)) :
    segs.foldl push stack = segs.reverse ++ stack := by
  induction segs generalizing stack with
  | nil => rfl
  | cons s segs ih =>
    obtain ⟨hne, hdot, hdots, -⟩ := h s (by simp)
    have hs : push stack s = s :: stack := by
      rw [push, if_neg (by simp [hne, hdot]), if_neg hdots]
    rw [List.foldl_cons, hs, ih fun t ht => h t (by simp [ht])]
    simp

/-- What a text between slashes leaves on the stack are segments. -/
theorem areSegments_push {stack : List (List Char)} {s : List Char} (h : AreSegments stack)
    (hs : '/' ∉ s) : AreSegments (push stack s) := by
  unfold push
  split_ifs with hblank hdots
  · exact h
  · exact fun t ht => h t (List.mem_of_mem_tail ht)
  · intro t ht
    rcases List.mem_cons.1 ht with rfl | ht
    · exact ⟨fun e => hblank (Or.inl e), fun e => hblank (Or.inr e), hdots, hs⟩
    · exact h t ht

theorem areSegments_foldl_push {texts stack : List (List Char)} (h : AreSegments stack)
    (ht : ∀ s ∈ texts, '/' ∉ s) : AreSegments (texts.foldl push stack) := by
  induction texts generalizing stack with
  | nil => exact h
  | cons s texts ih =>
    exact ih (areSegments_push h (ht s (by simp))) fun t hm => ht t (by simp [hm])

theorem areSegments_resolve (s : List Char) : AreSegments (resolve s) := by
  have h : AreSegments ((pieces '/' s).foldl push []) :=
    areSegments_foldl_push (by simp [AreSegments]) fun p hp => (of_mem_pieces hp).1
  exact fun t ht => h t (by simpa [resolve] using ht)

theorem resolve_append_slash (a b : List Char) :
    resolve (a ++ '/' :: b) = ((pieces '/' b).foldl push (resolve a).reverse).reverse := by
  simp [resolve, pieces_append_sep]

theorem resolve_spell (h : AreSegments segs) : resolve (spell segs) = segs := by
  have hnil : push [] [] = [] := by simp [push]
  rw [resolve, pieces_spell h.noSlash, List.foldl_cons, hnil, foldl_push h]
  simp

theorem resolve_ofSegments (h : AreSegments segs) : resolve (ofSegments segs).toList = segs := by
  by_cases hs : segs = []
  · subst hs
    rfl
  · rw [toList_ofSegments hs, resolve_spell h]

theorem ofSegments_injective {a b : List (List Char)} (ha : AreSegments a) (hb : AreSegments b)
    (h : ofSegments a = ofSegments b) : a = b := by
  rw [← resolve_ofSegments ha, h, resolve_ofSegments hb]

theorem ofSegments_eq_root (h : AreSegments segs) : ofSegments segs = root ↔ segs = [] := by
  refine ⟨fun e => ?_, fun e => by rw [e, ofSegments_nil]⟩
  exact ofSegments_injective h (by simp [AreSegments]) (by rw [e, ofSegments_nil])

theorem normalize_ofSegments (h : AreSegments segs) :
    normalize (ofSegments segs) = ofSegments segs := by
  rw [normalize, resolve_ofSegments h]

theorem canonical_ofSegments (h : AreSegments segs) : Canonical (ofSegments segs) := ⟨segs, h, rfl⟩

theorem canonical_normalize (path : String) : Canonical (normalize path) :=
  canonical_ofSegments (areSegments_resolve _)

@[simp] theorem normalize_normalize (path : String) : normalize (normalize path) = normalize path :=
  normalize_ofSegments (areSegments_resolve _)

/-- A canonical path is spelled as `normalize` spells it. -/
theorem canonical_iff : Canonical path ↔ normalize path = path := by
  constructor
  · rintro ⟨segs, h, rfl⟩
    exact normalize_ofSegments h
  · intro h
    rw [← h]
    exact canonical_normalize path

theorem segments_ofSegments (h : AreSegments segs) : segments (ofSegments segs) = segs := by
  have hkeep : segs.filter (· ≠ []) = segs :=
    List.filter_eq_self.2 fun s hs => by simpa using (h s hs).1
  by_cases hs : segs = []
  · subst hs
    rfl
  · rw [segments, toList_ofSegments hs, pieces_spell h.noSlash, List.filter_cons_of_neg (by simp),
      hkeep]

theorem mem_foldl_push {texts stack : List (List Char)} {s : List Char}
    (h : s ∈ texts.foldl push stack) : s ∈ stack ∨ s ∈ texts := by
  induction texts generalizing stack with
  | nil => exact Or.inl h
  | cons t texts ih =>
    rcases ih h with hs | hs
    · unfold push at hs
      split_ifs at hs with hblank hdots
      · exact Or.inl hs
      · exact Or.inl (List.mem_of_mem_tail hs)
      · rcases List.mem_cons.1 hs with rfl | hs
        · exact Or.inr List.mem_cons_self
        · exact Or.inl hs
    · exact Or.inr (List.mem_cons_of_mem t hs)

theorem mem_toList_ofSegments {c : Char} (h : c ∈ (ofSegments segs).toList) :
    c = '/' ∨ ∃ s ∈ segs, c ∈ s := by
  by_cases hs : segs = []
  · rw [hs, ofSegments_nil, toList_root, List.mem_singleton] at h
    exact Or.inl h
  · rw [toList_ofSegments hs, spell, List.mem_flatMap] at h
    obtain ⟨s, hs, hc⟩ := h
    rcases List.mem_cons.1 hc with rfl | hc
    · exact Or.inl rfl
    · exact Or.inr ⟨s, hs, hc⟩

theorem mem_toList_of_mem_segment {c : Char} {s : List Char} (hs : s ∈ segs) (hc : c ∈ s) :
    c ∈ (ofSegments segs).toList := by
  rw [toList_ofSegments (List.ne_nil_of_mem hs), spell, List.mem_flatMap]
  exact ⟨s, hs, List.mem_cons_of_mem _ hc⟩

/-- The characters of a normalized path are slashes and those of the path. -/
theorem mem_toList_normalize {c : Char} (h : c ∈ (normalize path).toList) :
    c = '/' ∨ c ∈ path.toList := by
  rcases mem_toList_ofSegments h with rfl | ⟨s, hs, hc⟩
  · exact Or.inl rfl
  · rw [resolve, List.mem_reverse] at hs
    rcases mem_foldl_push hs with hs | hs
    · exact absurd hs List.not_mem_nil
    · exact Or.inr ((of_mem_pieces hs).2 c hc)

theorem notMem_nul_normalize (h : '\x00' ∉ path.toList) : '\x00' ∉ (normalize path).toList :=
  fun hmem => h ((mem_toList_normalize hmem).resolve_left (by decide))

/-! ## Above and below -/

theorem spell_append_slash_prefix (hdir : AreSegments dir) (hsegs : AreSegments segs) :
    spell dir ++ ['/'] <+: spell segs ↔ dir <+: segs ∧ dir ≠ segs := by
  constructor
  · rintro ⟨t, ht⟩
    have hcut : [] :: segs = ([] :: dir) ++ pieces '/' t := by
      rw [← pieces_spell hsegs.noSlash, ← ht, List.append_assoc, List.singleton_append,
        pieces_append_sep, pieces_spell hdir.noSlash]
    have hsplit : segs = dir ++ pieces '/' t := by simpa using hcut
    refine ⟨⟨_, hsplit.symm⟩, fun e => pieces_ne_nil '/' t ?_⟩
    simpa [e] using hsplit
  · rintro ⟨⟨rest, rfl⟩, hne⟩
    cases rest with
    | nil => exact absurd (by simp) hne
    | cons s rest => exact ⟨s ++ spell rest, by simp [spell_append]⟩

/-- Behind the stem of a directory the segments of what lies below it go on. -/
theorem toList_stem (h : AreSegments dir) :
    (stem (ofSegments dir)).toList = spell dir ++ ['/'] := by
  by_cases hd : dir = []
  · subst hd
    rfl
  · have hroot : ofSegments dir ≠ root := fun e => hd ((ofSegments_eq_root h).1 e)
    rw [stem, if_neg hroot, String.toList_append, toList_ofSegments hd]
    rfl

/-- What lies below a path starts with its text. -/
theorem toList_prefix_of_isBelow {other : String} (h : isBelow path other = true) :
    other.toList <+: path.toList := by
  rw [isBelow, Bool.and_eq_true, List.isPrefixOf_iff_prefix] at h
  refine List.IsPrefix.trans ?_ h.2
  unfold stem
  split
  · next hroot => exact hroot ▸ List.prefix_refl root.toList
  · rw [String.toList_append]
    exact List.prefix_append _ _

/-- A canonical path lies below another one when its segments go on where those of the other one
end. -/
theorem isBelow_ofSegments (hsegs : AreSegments segs) (hdir : AreSegments dir) :
    isBelow (ofSegments segs) (ofSegments dir) = true ↔ dir <+: segs ∧ dir ≠ segs := by
  have hne : ofSegments segs ≠ ofSegments dir ↔ dir ≠ segs :=
    ⟨fun h e => h (by rw [e]), fun h e => h (ofSegments_injective hsegs hdir e).symm⟩
  rw [isBelow, Bool.and_eq_true, decide_eq_true_eq, hne, List.isPrefixOf_iff_prefix,
    toList_stem hdir]
  by_cases hs : segs = []
  · subst hs
    refine ⟨fun h => ?_, fun h => absurd (List.prefix_nil.1 h.1) h.2⟩
    cases dir with
    | nil => exact absurd rfl h.1
    | cons s dir =>
      have hlen := h.2.length_le
      simp at hlen
  · rw [toList_ofSegments hs, spell_append_slash_prefix hdir hsegs]
    tauto

/-- What a directory is the prefix of lies below it. -/
theorem isBelow_append (h : AreSegments (dir ++ rest)) (hrest : rest ≠ []) :
    isBelow (ofSegments (dir ++ rest)) (ofSegments dir) = true :=
  (isBelow_ofSegments h (h.of_prefix (List.prefix_append _ _))).2
    ⟨List.prefix_append _ _, fun e => hrest (by simpa using e)⟩

theorem tailBelow_append (h : AreSegments (dir ++ rest)) (hrest : rest ≠ []) :
    '/' :: tailBelow (ofSegments (dir ++ rest)) (ofSegments dir) = spell rest := by
  obtain ⟨s, more, rfl⟩ := List.exists_cons_of_ne_nil hrest
  have hlong : dir ++ s :: more ≠ [] := by simp
  have hsplit : spell (dir ++ s :: more) = (spell dir ++ ['/']) ++ (s ++ spell more) := by
    simp [spell_append]
  rw [tailBelow, toList_stem (h.of_prefix (List.prefix_append _ _)), toList_ofSegments hlong,
    hsplit,
    List.drop_left, spell_cons]

/-- To join a directory with what stands behind another stem is to append the segments there. -/
theorem join_tail {tail : List Char} (hdir : AreSegments dir) (hrest : AreSegments rest)
    (htail : '/' :: tail = spell rest) :
    join (ofSegments dir) (String.ofList tail) = ofSegments (dir ++ rest) := by
  have htexts : [] :: pieces '/' tail = [] :: rest := by
    rw [← pieces_spell hrest.noSlash, ← htail]
    rfl
  have hresolve : resolve (ofSegments dir ++ "/" ++ String.ofList tail).toList = dir ++ rest := by
    have htext : (ofSegments dir ++ "/" ++ String.ofList tail).toList =
        (ofSegments dir).toList ++ '/' :: tail := by simp
    rw [htext, resolve_append_slash, resolve_ofSegments hdir, (List.cons.inj htexts).2,
      foldl_push hrest]
    simp
  rw [join, normalize, hresolve]

/-- To rebase a path is to exchange the segments that it starts with. -/
theorem rebase_ofSegments {target : List (List Char)} (h : AreSegments (dir ++ rest))
    (ht : AreSegments target) :
    rebase (ofSegments (dir ++ rest)) (ofSegments dir) (ofSegments target) =
      some (ofSegments (target ++ rest)) := by
  by_cases hrest : rest = []
  · subst hrest
    simp
  · have hne : ofSegments (dir ++ rest) ≠ ofSegments dir := fun e => by
      have hbelow := isBelow_append h hrest
      rw [e, isBelow_self] at hbelow
      exact Bool.false_ne_true hbelow
    rw [rebase, if_neg hne, if_pos (isBelow_append h hrest),
      join_tail ht h.of_append_right (tailBelow_append h hrest)]

/-- A canonical path that is rebased, not being the directory itself, is that directory with more
segments, and so is what it becomes. -/
theorem rebase_eq_some {source target moved : String} (hpath : Canonical path)
    (hs : Canonical source) (ht : Canonical target) (hne : path ≠ source)
    (h : rebase path source target = some moved) :
    ∃ dir newDir rest, AreSegments (dir ++ rest) ∧ AreSegments newDir ∧ rest ≠ [] ∧
      path = ofSegments (dir ++ rest) ∧ source = ofSegments dir ∧ target = ofSegments newDir ∧
      moved = ofSegments (newDir ++ rest) := by
  obtain ⟨segs, hsegs, rfl⟩ := hpath
  obtain ⟨dir, hdir, rfl⟩ := hs
  obtain ⟨newDir, hnew, rfl⟩ := ht
  by_cases hbelow : isBelow (ofSegments segs) (ofSegments dir) = true
  · obtain ⟨⟨rest, rfl⟩, hlong⟩ := (isBelow_ofSegments hsegs hdir).1 hbelow
    rw [rebase_ofSegments hsegs hnew, Option.some_inj] at h
    have hrest : rest ≠ [] := fun e => hlong (by rw [e, List.append_nil])
    exact ⟨dir, newDir, rest, hsegs, hnew, hrest, rfl, rfl, rfl, h.symm⟩
  · rw [rebase, if_neg hne, if_neg hbelow] at h
    cases h

/-- What was rebased can be rebased back. -/
theorem rebase_back {source target moved : String} (hpath : Canonical path) (hs : Canonical source)
    (ht : Canonical target) (hne : path ≠ source) (h : rebase path source target = some moved) :
    rebase moved target source = some path := by
  obtain ⟨dir, newDir, rest, hsegs, hnew, -, rfl, rfl, rfl, rfl⟩ := rebase_eq_some hpath hs ht hne h
  exact rebase_ofSegments (hnew.append hsegs.of_append_right)
    (hsegs.of_prefix (List.prefix_append dir rest))

theorem canonical_of_rebase {source target moved : String} (ht : Canonical target)
    (h : rebase path source target = some moved) : Canonical moved := by
  unfold rebase at h
  split at h
  · exact Option.some.inj h ▸ ht
  · split at h
    · rw [← Option.some.inj h]
      exact canonical_normalize _
    · cases h

/-- To rebase between different directories is to change the path. -/
theorem rebase_ne {source target moved : String} (hs : Canonical source) (ht : Canonical target)
    (hne : source ≠ target) (h : rebase path source target = some moved) : moved ≠ path := by
  intro e
  by_cases hsame : path = source
  · rw [hsame, rebase_self, Option.some_inj] at h
    exact hne (hsame.symm.trans (e.symm.trans h.symm))
  · have hpath : Canonical path := e ▸ canonical_of_rebase ht h
    obtain ⟨dir, newDir, rest, hsegs, hnew, -, rfl, rfl, rfl, rfl⟩ :=
      rebase_eq_some hpath hs ht hsame h
    have hsegments := ofSegments_injective (hnew.append hsegs.of_append_right) hsegs e
    exact hne (congrArg ofSegments (List.append_cancel_right hsegments).symm)

/-- A path that is rebased, not to below its own directory, does not come to lie below itself. -/
theorem isBelow_of_rebase {source target moved : String} (hpath : Canonical path)
    (hs : Canonical source) (ht : Canonical target) (hne : path ≠ source)
    (hinto : isBelow target source = false) (h : rebase path source target = some moved) :
    isBelow moved path = false := by
  obtain ⟨dir, newDir, rest, hsegs, hnew, -, rfl, rfl, rfl, rfl⟩ := rebase_eq_some hpath hs ht hne h
  have hdir : AreSegments dir := hsegs.of_prefix (List.prefix_append dir rest)
  rw [← Bool.not_eq_true, isBelow_ofSegments hnew hdir] at hinto
  rw [← Bool.not_eq_true, isBelow_ofSegments (hnew.append hsegs.of_append_right) hsegs]
  rintro ⟨hstart, hlong⟩
  have hlen := hstart.length_le
  rw [List.length_append, List.length_append] at hlen
  have hbegins : dir <+: newDir :=
    List.prefix_of_prefix_length_le ((List.prefix_append dir rest).trans hstart)
      (List.prefix_append newDir rest) (by omega)
  by_cases hsame : dir = newDir
  · exact hlong (by rw [hsame])
  · exact hinto ⟨hbegins, hsame⟩

/-! ## Ancestors -/

theorem mem_chain {above : List Char} {a : String} :
    a ∈ chain above segs ↔
      ∃ pre, pre ≠ [] ∧ pre <+: segs ∧ a = String.ofList (above ++ spell pre) := by
  induction segs generalizing above with
  | nil =>
    simp only [chain, List.not_mem_nil, List.prefix_nil, false_iff]
    rintro ⟨pre, hne, he, -⟩
    exact hne he
  | cons s segs ih =>
    rw [chain, List.mem_cons, ih]
    constructor
    · rintro (rfl | ⟨pre, -, hpre, rfl⟩)
      · exact ⟨[s], by simp, by simp, by simp⟩
      · exact ⟨s :: pre, by simp, by simpa using hpre, by simp⟩
    · rintro ⟨pre, hne, hpre, rfl⟩
      obtain ⟨t, pre, rfl⟩ := List.exists_cons_of_ne_nil hne
      obtain ⟨rfl, hmore⟩ := List.cons_prefix_cons.1 hpre
      by_cases hp : pre = []
      · exact Or.inl (by simp [hp])
      · exact Or.inr ⟨pre, hp, hmore, by simp⟩

/-- The ancestors of a path are the prefixes of its segments. -/
theorem mem_ancestors_ofSegments (h : AreSegments segs) {a : String} :
    a ∈ ancestors (ofSegments segs) ↔ ∃ pre, pre <+: segs ∧ a = ofSegments pre := by
  rw [ancestors, segments_ofSegments h, List.mem_cons, mem_chain]
  constructor
  · rintro (rfl | ⟨pre, hne, hpre, rfl⟩)
    · exact ⟨[], List.nil_prefix, rfl⟩
    · exact ⟨pre, hpre, by simp [ofSegments, hne]⟩
  · rintro ⟨pre, hpre, rfl⟩
    by_cases hp : pre = []
    · exact Or.inl (by simp [hp])
    · exact Or.inr ⟨pre, hp, hpre, by simp [ofSegments, hp]⟩

/-- On the chain of a path are the path itself and paths that it lies below. -/
theorem eq_or_isBelow_of_mem_ancestors {a : String} (hpath : Canonical path)
    (ha : a ∈ ancestors path) : a = path ∨ isBelow path a = true := by
  obtain ⟨segs, hsegs, rfl⟩ := hpath
  obtain ⟨pre, hpre, rfl⟩ := (mem_ancestors_ofSegments hsegs).1 ha
  by_cases hsame : pre = segs
  · exact Or.inl (congrArg ofSegments hsame)
  · exact Or.inr ((isBelow_ofSegments hsegs (AreSegments.of_prefix hsegs hpre)).2
      ⟨hpre, hsame⟩)

/-- Below the directory that a path is rebased from, nothing is above the rebased path, unless the
path is moved upwards. -/
theorem isBelow_of_mem_ancestors_rebase {source target moved other : String}
    (hpath : Canonical path) (hs : Canonical source) (ht : Canonical target) (hne : path ≠ source)
    (hinto : isBelow target source = false) (h : rebase path source target = some moved)
    (hmoved : path ≠ moved) (hother : other ∈ ancestors moved)
    (hbelow : isBelow other source = true) : isBelow source target = true := by
  obtain ⟨dir, newDir, rest, hsegs, hnew, -, rfl, rfl, rfl, rfl⟩ := rebase_eq_some hpath hs ht hne h
  have hdir : AreSegments dir := hsegs.of_prefix (List.prefix_append dir rest)
  have hsegments : AreSegments (newDir ++ rest) := hnew.append hsegs.of_append_right
  have hdiffer : dir ≠ newDir := fun e => hmoved (by rw [e])
  obtain ⟨pre, hpre, rfl⟩ := (mem_ancestors_ofSegments hsegments).1 hother
  have hlies := ((isBelow_ofSegments (hsegments.of_prefix hpre) hdir).1 hbelow).1.trans hpre
  rcases List.prefix_or_prefix_of_prefix hlies (List.prefix_append newDir rest) with hup | hdown
  · rw [(isBelow_ofSegments hnew hdir).2 ⟨hup, hdiffer⟩] at hinto
    cases hinto
  · exact (isBelow_ofSegments hdir hnew).2 ⟨hdown, hdiffer.symm⟩

theorem chain_append (above : List Char) (a b : List (List Char)) :
    chain above (a ++ b) = chain above a ++ chain (above ++ spell a) b := by
  induction a generalizing above with
  | nil => simp [chain]
  | cons s a ih => simp [chain, ih]

/-- The paths between the root and a path are the prefixes in between. -/
theorem mem_between_ofSegments (h : AreSegments segs) {a : String} :
    a ∈ (ancestors (ofSegments segs)).tail.dropLast ↔
      ∃ pre, pre ≠ [] ∧ pre <+: segs ∧ pre ≠ segs ∧ a = ofSegments pre := by
  rw [ancestors, segments_ofSegments h, List.tail_cons]
  rcases List.eq_nil_or_concat segs with rfl | ⟨front, s, hsplit⟩
  · simp only [chain, List.dropLast_nil, List.not_mem_nil, List.prefix_nil, false_iff]
    rintro ⟨pre, hne, he, -⟩
    exact hne he
  · rw [List.concat_eq_append] at hsplit
    subst hsplit
    have hlast : (chain [] (front ++ [s])).dropLast = chain [] front := by
      rw [chain_append]
      simp [chain]
    rw [hlast, mem_chain]
    constructor
    · rintro ⟨pre, hne, hpre, rfl⟩
      refine ⟨pre, hne, hpre.trans (List.prefix_append _ _), fun e => ?_, by simp [ofSegments, hne]⟩
      have hlen := hpre.length_le
      rw [e, List.length_append, List.length_singleton] at hlen
      omega
    · rintro ⟨pre, hne, hpre, hshort, rfl⟩
      rcases List.prefix_concat_iff.1 hpre with e | hpre
      · exact absurd e hshort
      · exact ⟨pre, hne, hpre, by simp [ofSegments, hne]⟩

end Path

end FileDrive
