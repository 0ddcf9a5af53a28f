import FileDrive.Proofs.CanonicalPath

/-!
# Following a path

To normalize a path is to follow the texts between its slashes from the root on, each of which leads
to where one is, up, or down to an entry. Where a path leads to is all that counts for what follows:
the rest can be resolved from there (`resolve_of_resolve`), and at the root up leads nowhere
(`resolve_up`).
-/

namespace FileDrive.Path

open FileDrive.Text

variable {a b s : List Char}

/-- What follows a slash is resolved from where the text before it leads to. -/
theorem resolve_of_resolve (h : resolve a = resolve b) (s : List Char) :
    resolve (a ++ '/' :: s) = resolve (b ++ '/' :: s) := by
  rw [resolve_append_slash, resolve_append_slash, h]

/-- A normalized path leads to where the path leads to. -/
theorem resolve_normalize (path : String) : resolve (normalize path).toList = resolve path.toList :=
  resolve_ofSegments (areSegments_resolve _)

/-- Nothing leads up from the root. -/
theorem resolve_up (s : List Char) : resolve ('.' :: '.' :: '/' :: s) = resolve s := by
  have hroot : resolve ['.', '.'] = resolve [] := by decide
  calc resolve (['.', '.'] ++ '/' :: s) = resolve ([] ++ '/' :: s) := resolve_of_resolve hroot s
    _ = resolve s := by rw [resolve_append_slash, resolve]; rfl

theorem normalize_up (path : String) : normalize ("../" ++ path) = normalize path := by
  have htexts : ("../" ++ path).toList = '.' :: '.' :: '/' :: path.toList := by
    rw [String.toList_append]
    rfl
  rw [normalize, htexts, resolve_up, normalize]

/-- Normalizing gives the canonical spelling of every path and leaves canonical paths as they are.
To follow a path in steps leads to the same place as to follow it at once, and no number of steps
upwards leads above the root. -/
theorem normalize_in_steps :
    (∀ path, Canonical (normalize path)) ∧ (∀ path, Canonical path ↔ normalize path = path) ∧
      (∀ path, normalize (normalize path) = normalize path) ∧
      (∀ dir rest, normalize (dir ++ "/" ++ rest) = normalize (normalize dir ++ "/" ++ rest)) ∧
      (∀ path, normalize ("../" ++ path) = normalize path) ∧
      ∀ n path, normalize (String.join (List.replicate n "../") ++ path) = normalize path := by
  refine ⟨canonical_normalize, fun _ => canonical_iff, normalize_normalize, fun dir rest => ?_,
    normalize_up, fun n path => ?_⟩
  · have hsplit (dir : String) :
        (dir ++ "/" ++ rest).toList = dir.toList ++ '/' :: rest.toList := by simp
    rw [normalize, hsplit, ← resolve_of_resolve (resolve_normalize dir), ← hsplit, ← normalize]
  · induction n with
    | zero => simp
    | succ n ih =>
      rw [List.replicate_succ, String.join_cons, String.append_assoc, normalize_up, ih]

end FileDrive.Path
