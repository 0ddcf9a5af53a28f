import FileDrive.Proofs.CanonicalPath
import FileDrive.Proofs.EffectivePermissions

/-!
# What a list of records means

Whoever is exempt from the records holds every capability. Everybody else holds what some record
that applies to the path allows and none that applies denies (`has_resolve`). This is a statement
about the set of records that apply, so neither the order of a list nor what else is in it matters
(`resolve_eq_of_applicable`), and a list in which more is denied gives less (`Stricter`).

A record applies by where it stands and whom it is about. Whom it is about is decided by its kind
before its name: a group and a user of the same name are different principals, and no record about
a user is about a guest.
-/

namespace FileDrive

variable {identity : Identity} {record : PermissionRecord} {records others : List PermissionRecord}
  {path adminGroup : String} {owner : Option String} {c : Capability}

namespace Path

/-- The ancestors of a path, in whatever spelling, are the prefixes of its segments. -/
theorem mem_ancestors {a : String} :
    a ∈ ancestors path ↔ ∃ pre, pre <+: segments path ∧ a = ofSegments pre := by
  rw [ancestors, List.mem_cons, mem_chain]
  constructor
  · rintro (rfl | ⟨pre, hne, hpre, rfl⟩)
    · exact ⟨[], List.nil_prefix, rfl⟩
    · exact ⟨pre, hpre, by simp [ofSegments, hne]⟩
  · rintro ⟨pre, hpre, rfl⟩
    by_cases hnil : pre = []
    · exact Or.inl (by simp [hnil])
    · exact Or.inr ⟨pre, hnil, hpre, by simp [ofSegments, hnil]⟩

theorem root_mem_ancestors (path : String) : root ∈ ancestors path := List.mem_cons_self

/-- A path stands at the end of its own chain. -/
theorem mem_ancestors_self (h : Canonical path) : path ∈ ancestors path := by
  obtain ⟨segs, hsegs, rfl⟩ := h
  exact mem_ancestors.2 ⟨segs, (segments_ofSegments hsegs).symm ▸ List.prefix_refl segs, rfl⟩

end Path

/-! ## Records that apply -/

namespace PermissionRecord

/-- A record about everyone concerns anybody, one about a group its members, and one about a user
whoever has that subject and is no guest. -/
def Concerns (record : PermissionRecord) (identity : Identity) : Prop :=
  record.kind = .everyone ∨
    (record.kind = .group ∧ record.principal ∈ identity.groups) ∨
      (record.kind = .user ∧ identity.isGuest = false ∧ record.principal = identity.subject)

/-- A record applies to a path when it stands on the chain from the root to the path and concerns
the caller. -/
structure Applicable (record : PermissionRecord) (path : String) (identity : Identity) : Prop where
  on_chain : record.path ∈ Path.ancestors path
  concerns : record.Concerns identity

theorem appliesTo_iff : record.appliesTo identity = true ↔ record.Concerns identity := by
  unfold appliesTo Concerns Identity.inGroup
  cases record.kind with
  | user => simp
  | group => simp
  | everyone => simp

theorem countsOn_iff :
    record.CountsOn (Path.ancestors path) identity ↔ record.Applicable path identity :=
  ⟨fun h => ⟨h.1, appliesTo_iff.1 h.2⟩, fun h => ⟨h.on_chain, appliesTo_iff.2 h.concerns⟩⟩

/-- The record with more denied. -/
def denying (record : PermissionRecord) (denied : Permissions) : PermissionRecord :=
  { record with deny := record.deny.add denied }

theorem applicable_denying {denied : Permissions} :
    (record.denying denied).Applicable path identity ↔ record.Applicable path identity :=
  ⟨fun h => ⟨h.on_chain, h.concerns⟩, fun h => ⟨h.on_chain, h.concerns⟩⟩

/-- A list of records in which more is denied: its records are those of another one, each denying as
much or more, and after them some that allow nothing. -/
def Stricter (records others : List PermissionRecord) : Prop :=
  ∃ changed denials, others = changed ++ denials ∧
    List.Forall₂ (fun record other => ∃ denied, other = record.denying denied) records changed ∧
    ∀ denial ∈ denials, denial.allow = Permissions.none

end PermissionRecord

open PermissionRecord

/-- Some record that applies allows a capability. -/
def AllowedOn (records : List PermissionRecord) (path : String) (identity : Identity)
    (c : Capability) : Prop :=
  ∃ record ∈ records, record.Applicable path identity ∧ record.allow.has c = true

/-- Some record that applies denies a capability. -/
def DeniedOn (records : List PermissionRecord) (path : String) (identity : Identity)
    (c : Capability) : Prop :=
  ∃ record ∈ records, record.Applicable path identity ∧ record.deny.has c = true

theorem AllowedOn.mono (h : AllowedOn records path identity c)
    (hsub : ∀ record : PermissionRecord, record.Applicable path identity →
      record ∈ records → record ∈ others) : AllowedOn others path identity c := by
  obtain ⟨record, hrecord, happlies, hallow⟩ := h
  exact ⟨record, hsub record happlies hrecord, happlies, hallow⟩

theorem DeniedOn.mono (h : DeniedOn records path identity c)
    (hsub : ∀ record : PermissionRecord, record.Applicable path identity →
      record ∈ records → record ∈ others) : DeniedOn others path identity c := by
  obtain ⟨record, hrecord, happlies, hdeny⟩ := h
  exact ⟨record, hsub record happlies hrecord, happlies, hdeny⟩

/-- What is allowed in a list in which more is denied, was allowed before. -/
theorem AllowedOn.of_stricter (h : Stricter records others)
    (hallowed : AllowedOn others path identity c) : AllowedOn records path identity c := by
  obtain ⟨changed, denials, rfl, hchanged, hnone⟩ := h
  obtain ⟨other, hother, happlies, hallow⟩ := hallowed
  rcases List.mem_append.1 hother with hmem | hmem
  · obtain ⟨i, hi, rfl⟩ := List.mem_iff_getElem.1 hmem
    have hlen : i < records.length := by rwa [hchanged.length_eq]
    obtain ⟨denied, hdenied⟩ := hchanged.get hlen hi
    change changed[i] = records[i].denying denied at hdenied
    rw [hdenied] at happlies hallow
    exact ⟨records[i], List.getElem_mem hlen, applicable_denying.1 happlies, hallow⟩
  · rw [hnone other hmem, Permissions.has_none] at hallow
    exact absurd hallow Bool.false_ne_true

/-- What was denied before is denied in a list in which more is. -/
theorem DeniedOn.stricter (h : Stricter records others)
    (hdenied : DeniedOn records path identity c) : DeniedOn others path identity c := by
  obtain ⟨changed, denials, rfl, hchanged, -⟩ := h
  obtain ⟨record, hrecord, happlies, hdeny⟩ := hdenied
  obtain ⟨i, hi, rfl⟩ := List.mem_iff_getElem.1 hrecord
  have hlen : i < changed.length := by rwa [← hchanged.length_eq]
  obtain ⟨denied, hmore⟩ := hchanged.get hi hlen
  change changed[i] = records[i].denying denied at hmore
  refine ⟨changed[i], List.mem_append_left _ (List.getElem_mem hlen), ?_, ?_⟩
  · rw [hmore]
    exact applicable_denying.2 happlies
  · rw [hmore, denying, Permissions.has_add, hdeny, Bool.true_or]

/-! ## Resolving -/

/-- The records do not count for the administrators, nor for the owner of the file, who is no
guest. -/
def Identity.Exempt (identity : Identity) (adminGroup : String) (owner : Option String) : Prop :=
  adminGroup ∈ identity.groups ∨ (identity.isGuest = false ∧ owner = some identity.subject)

namespace Resolver

theorem exempt_iff : identity.Exempt adminGroup owner ↔
    (enforcing adminGroup).isAdmin identity = true ∨ owner.any identity.owns = true := by
  unfold Identity.Exempt isAdmin Identity.inGroup
  rw [List.contains_iff_mem]
  cases owner with
  | none => simp
  | some subject => simp [Identity.owns, and_comm]

theorem resolve_of_exempt (h : identity.Exempt adminGroup owner) :
    (enforcing adminGroup).resolve path identity owner records = .all := by
  rw [resolve]
  rcases exempt_iff.1 h with hadmin | howns
  · rw [if_pos hadmin]
  · rw [if_pos howns, ite_self]

theorem resolve_of_not_exempt (h : ¬ identity.Exempt adminGroup owner) :
    (enforcing adminGroup).resolve path identity owner records =
      granted (Path.ancestors path) records identity := by
  rw [exempt_iff, not_or] at h
  rw [resolve, if_neg h.1, if_neg h.2]

/-- Who is not exempt holds what a record that applies allows and none that applies denies. -/
theorem has_resolve (h : ¬ identity.Exempt adminGroup owner) :
    ((enforcing adminGroup).resolve path identity owner records).has c = true ↔
      AllowedOn records path identity c ∧ ¬ DeniedOn records path identity c := by
  rw [resolve_of_not_exempt h, has_granted]
  simp only [countsOn_iff, AllowedOn, DeniedOn, not_exists, not_and, Bool.not_eq_true]

/-- Only the records that apply matter, and only whether they are there. -/
theorem resolve_eq_of_applicable
    (h : ∀ record : PermissionRecord, record.Applicable path identity →
      (record ∈ records ↔ record ∈ others)) :
    (enforcing adminGroup).resolve path identity owner records =
      (enforcing adminGroup).resolve path identity owner others := by
  by_cases hexempt : identity.Exempt adminGroup owner
  · rw [resolve_of_exempt hexempt, resolve_of_exempt hexempt]
  · have hthere := fun record happlies => (h record happlies).1
    have hback := fun record happlies => (h record happlies).2
    refine Permissions.ext fun c => ?_
    rw [Bool.eq_iff_iff, has_resolve hexempt, has_resolve hexempt]
    constructor
    · rintro ⟨hallowed, hopen⟩
      exact ⟨hallowed.mono hthere, fun hdenied => hopen (hdenied.mono hback)⟩
    · rintro ⟨hallowed, hopen⟩
      exact ⟨hallowed.mono hback, fun hdenied => hopen (hdenied.mono hthere)⟩

/-- To deny more gives no capability. -/
theorem has_of_stricter (h : Stricter records others)
    (hhas : ((enforcing adminGroup).resolve path identity owner others).has c = true) :
    ((enforcing adminGroup).resolve path identity owner records).has c = true := by
  by_cases hexempt : identity.Exempt adminGroup owner
  · rw [resolve_of_exempt hexempt, Permissions.has_all]
  · rw [has_resolve hexempt] at hhas ⊢
    exact ⟨hhas.1.of_stricter h, fun hdenied => hhas.2 (hdenied.stricter h)⟩

/-- What resolving gives: everything to those who are exempt, and to everybody else what some record
that applies allows and none that applies denies. The chain of a path has the root and the path
itself on it. -/
theorem resolve_exact (adminGroup path : String) (identity : Identity) (owner : Option String)
    (records : List PermissionRecord) :
    (Path.root ∈ Path.ancestors path ∧ (Path.Canonical path → path ∈ Path.ancestors path)) ∧
      (identity.Exempt adminGroup owner →
        (enforcing adminGroup).resolve path identity owner records = .all) ∧
      (¬ identity.Exempt adminGroup owner → ∀ c,
        ((enforcing adminGroup).resolve path identity owner records).has c = true ↔
          AllowedOn records path identity c ∧ ¬ DeniedOn records path identity c) ∧
      (∀ others : List PermissionRecord,
        (∀ record : PermissionRecord, record.Applicable path identity →
          (record ∈ records ↔ record ∈ others)) →
        (enforcing adminGroup).resolve path identity owner others =
          (enforcing adminGroup).resolve path identity owner records) ∧
      (∀ others, Stricter records others → ∀ c,
        ((enforcing adminGroup).resolve path identity owner others).has c = true →
          ((enforcing adminGroup).resolve path identity owner records).has c = true) :=
  ⟨⟨Path.root_mem_ancestors path, Path.mem_ancestors_self⟩, resolve_of_exempt,
    fun hexempt _ => has_resolve hexempt, fun _ hsame => (resolve_eq_of_applicable hsame).symm,
    fun _ hstricter _ => has_of_stricter hstricter⟩

/-- A user named like a group is given nothing by what the group is, and a denial at the root holds
all the way down. -/
theorem resolve_exact_beside_namesake :
    let ann : Identity := ⟨"staff", "ann", ["editors"], "", "", false⟩
    let records : List PermissionRecord :=
      [.user "/a" "staff" (.ofList [.read, .update, .delete]) .none,
        .group "/a" "staff" (.ofList [.share]) .none,
        .everyone "/" .none (.ofList [.delete])]
    ¬ ann.Exempt "admins" (some "bob") ∧
      ∀ c, ((enforcing "admins").resolve "/a/f" ann (some "bob") records).has c = true →
        (c = .read ∨ c = .update) ∧ AllowedOn records "/a/f" ann c ∧
          ¬ DeniedOn records "/a/f" ann c := by
  intro ann records
  have hnot : ¬ ann.Exempt "admins" (some "bob") := by
    rintro (hadmin | ⟨-, howner⟩)
    · exact absurd hadmin (by decide)
    · exact absurd howner (by decide)
  obtain ⟨-, -, hexact, -⟩ := resolve_exact "admins" "/a/f" ann (some "bob") records
  refine ⟨hnot, fun c hc => ⟨?_, (hexact hnot c).1 hc⟩⟩
  revert hc
  cases c <;> decide

end Resolver

end FileDrive
