import FileDrive.Drive

/-!
# What actions on a drive end in

An action, carried out on a drive, ends in a result and in a drive. `Ends` says of both that they
satisfy a postcondition, and there is one rule for each thing that an action can do first. A rule
asks about what follows only in the case that it follows: when the metadata refuse or the object
store fails, the action ends there and then.

The rules leave nothing open: `Ends` is about the one result that there is.
-/

namespace FileDrive.DriveM

open FileDrive.Time

variable {σ α β : Type} {drive : Drive σ} {action : DriveM σ α} {next : α → DriveM σ β}

/-- What an action comes to on a drive: its result and the drive afterwards. -/
def on (action : DriveM σ α) (drive : Drive σ) : Except DriveError α × Drive σ :=
  action.run.run drive

/-- The result of an action and the drive afterwards satisfy `P`. -/
def Ends (action : DriveM σ α) (drive : Drive σ) (P : Except DriveError α → Drive σ → Prop) :
    Prop :=
  P (action.on drive).1 (action.on drive).2

/-! ## Single actions -/

theorem on_bind (action : DriveM σ α) (next : α → DriveM σ β) (drive : Drive σ) :
    (action >>= next).on drive =
      match action.on drive with
      | (.ok value, after) => (next value).on after
      | (.error e, after) => (.error e, after) := by
  rw [on, ExceptT.run_bind, StateT.run_bind]
  rcases h : action.run.run drive with ⟨result, after⟩
  cases result with
  | ok value => simp only [on, h]; rfl
  | error e => simp only [on, h]; rfl

theorem on_map (f : α → β) (action : DriveM σ α) (drive : Drive σ) :
    (f <$> action).on drive = ((action.on drive).1.map f, (action.on drive).2) := by
  rw [map_eq_pure_bind, on_bind]
  rcases action.on drive with ⟨result, after⟩
  cases result <;> rfl

@[simp] theorem on_get (drive : Drive σ) :
    (get : DriveM σ (Drive σ)).on drive = (.ok drive, drive) := rfl

@[simp] theorem on_set (after drive : Drive σ) :
    (set after : DriveM σ PUnit).on drive = (.ok ⟨⟩, after) := rfl

@[simp] theorem on_lift (result : Except DriveError α) (drive : Drive σ) :
    (liftM result : DriveM σ α).on drive = (result, drive) := rfl

@[simp] theorem on_query (ask : Database → Except DriveError α) (drive : Drive σ) :
    (query ask).on drive = (ask drive.db, drive) := by
  rw [query, on_bind, on_get]
  cases h : ask drive.db with
  | ok answer => simp only [h]; rfl
  | error e => simp only [h]; rfl

@[simp] theorem on_now (drive : Drive σ) :
    (now : DriveM σ Timestamp).on drive =
      (.ok drive.clock.next, { drive with clock := drive.clock.next }) := rfl

@[simp] theorem on_draw (supply : Nat → String) (drive : Drive σ) :
    (draw supply : DriveM σ String).on drive =
      (.ok (supply drive.drawn), { drive with drawn := drive.drawn + 1 }) := rfl

@[simp] theorem on_commit (db : Database) (drive : Drive σ) :
    (commit db : DriveM σ Unit).on drive = (.ok (), { drive with db }) := rfl

/-- A call of the object store leaves what it leaves behind, also when it fails. -/
theorem on_object (call : σ → Except StorageError α × σ) (drive : Drive σ) :
    (object call).on drive =
      ((call drive.objects).1.mapError .ofStorage,
        { drive with objects := (call drive.objects).2 }) := by
  rw [object, on_bind, on_get]
  rcases h : call drive.objects with ⟨result, objects⟩
  simp only [h, on_bind, on_set]
  cases result with
  | ok answer => rfl
  | error e => rfl

/-! ## Rules -/

variable {P : Except DriveError β → Drive σ → Prop}

theorem Ends.mono {P Q : Except DriveError α → Drive σ → Prop} (h : action.Ends drive P)
    (le : ∀ result after, P result after → Q result after) : action.Ends drive Q :=
  le _ _ h

/-- What an action ends in, the result and the drive at hand satisfy. -/
theorem Ends.of_on {P : Except DriveError α → Drive σ → Prop} {result : Except DriveError α}
    {after : Drive σ} (h : action.Ends drive P) (hon : action.on drive = (result, after)) :
    P result after := by
  unfold Ends at h
  rwa [hon] at h

/-- What every successful end satisfies, the one at hand does. -/
theorem Ends.of_ok {P : α → Drive σ → Prop} {value : α} {after : Drive σ}
    (h : action.Ends drive fun result after => ∀ value, result = .ok value → P value after)
    (hon : action.on drive = (.ok value, after)) : P value after := h.of_on hon value rfl

/-- Two actions in a row: the second one runs only when the first one went well. -/
theorem Ends.bind
    (h : action.Ends drive fun result after =>
      match result with
      | .ok value => (next value).Ends after P
      | .error e => P (.error e) after) :
    (action >>= next).Ends drive P := by
  unfold Ends at *
  rw [on_bind]
  rcases hr : action.on drive with ⟨result, after⟩
  rw [hr] at h
  cases result with
  | ok value => exact h
  | error e => exact h

theorem Ends.pure {value : β} (h : P (.ok value) drive) :
    (pure value : DriveM σ β).Ends drive P := h

theorem Ends.throw {e : DriveError} (h : P (.error e) drive) :
    (MonadExcept.throw e : DriveM σ β).Ends drive P := h

/-- What stands behind a failure is not carried out. -/
theorem Ends.throw_bind {e : DriveError} (h : P (.error e) drive) :
    ((MonadExcept.throw e : DriveM σ α) >>= next).Ends drive P := Ends.bind h

/-- A check in front of what follows. -/
theorem Ends.guard {c : Prop} [Decidable c] {e : DriveError} {next : Unit → DriveM σ β}
    (refused : c → P (.error e) drive) (passed : ¬ c → (next ()).Ends drive P) :
    (if c then MonadExcept.throw e >>= next else next ()).Ends drive P := by
  by_cases h : c
  · rw [if_pos h]
    exact Ends.throw_bind (refused h)
  · rw [if_neg h]
    exact passed h

theorem Ends.map {f : α → β} (h : action.Ends drive fun result after => P (result.map f) after) :
    (f <$> action).Ends drive P := by
  rw [map_eq_pure_bind]
  refine Ends.bind (h.mono fun result after hr => ?_)
  cases result with
  | ok value => exact hr
  | error e => exact hr

theorem Ends.query {ask : Database → Except DriveError β} (h : P (ask drive.db) drive) :
    (query ask).Ends drive P := by
  unfold Ends
  rw [on_query]
  exact h

theorem Ends.query_bind {ask : Database → Except DriveError α}
    (refused : ∀ e, ask drive.db = .error e → P (.error e) drive)
    (answered : ∀ answer, ask drive.db = .ok answer → (next answer).Ends drive P) :
    (DriveM.query ask >>= next).Ends drive P := by
  refine Ends.bind (Ends.query ?_)
  cases h : ask drive.db with
  | ok answer => exact answered answer h
  | error e => exact refused e h

theorem Ends.lift_bind {result : Except DriveError α}
    (refused : ∀ e, result = .error e → P (.error e) drive)
    (passed : ∀ value, result = .ok value → (next value).Ends drive P) :
    ((liftM result : DriveM σ α) >>= next).Ends drive P := by
  refine Ends.bind ?_
  unfold Ends
  rw [on_lift]
  cases h : result with
  | ok value => exact passed value h
  | error e => exact refused e h

theorem Ends.now_bind {next : Timestamp → DriveM σ β}
    (h : (next drive.clock.next).Ends { drive with clock := drive.clock.next } P) :
    (DriveM.now >>= next).Ends drive P := Ends.bind h

theorem Ends.draw_bind {supply : Nat → String} {next : String → DriveM σ β}
    (h : (next (supply drive.drawn)).Ends { drive with drawn := drive.drawn + 1 } P) :
    (DriveM.draw supply >>= next).Ends drive P := Ends.bind h

theorem Ends.get_bind {next : Drive σ → DriveM σ β} (h : (next drive).Ends drive P) :
    ((MonadState.get : DriveM σ (Drive σ)) >>= next).Ends drive P := Ends.bind h

theorem Ends.commit_bind {db : Database} {next : Unit → DriveM σ β}
    (h : (next ()).Ends { drive with db } P) : (DriveM.commit db >>= next).Ends drive P :=
  Ends.bind h

/-- A change of the metadata that takes effect at once, before what follows. -/
theorem Ends.change_bind {prepare : Database → Except DriveError Database}
    {next : Unit → DriveM σ β} (refused : ∀ e, prepare drive.db = .error e → P (.error e) drive)
    (changed : ∀ db, prepare drive.db = .ok db → (next ()).Ends { drive with db } P) :
    (DriveM.change prepare >>= next).Ends drive P := by
  unfold DriveM.change
  exact Ends.bind (Ends.query_bind refused changed)

theorem Ends.object {call : σ → Except StorageError β × σ}
    (failed : ∀ e objects, call drive.objects = (.error e, objects) →
      P (.error (.ofStorage e)) { drive with objects })
    (done : ∀ answer objects, call drive.objects = (.ok answer, objects) →
      P (.ok answer) { drive with objects }) :
    (DriveM.object call).Ends drive P := by
  unfold Ends
  rw [on_object]
  rcases h : call drive.objects with ⟨result, objects⟩
  cases result with
  | ok answer => exact done answer objects h
  | error e => exact failed e objects h

theorem Ends.object_bind {call : σ → Except StorageError α × σ}
    (failed : ∀ e objects, call drive.objects = (.error e, objects) →
      P (.error (.ofStorage e)) { drive with objects })
    (done : ∀ answer objects, call drive.objects = (.ok answer, objects) →
      (next answer).Ends { drive with objects } P) :
    (DriveM.object call >>= next).Ends drive P :=
  Ends.bind (Ends.object failed done)

theorem Ends.attempt {P : Except DriveError (Except DriveError α) → Drive σ → Prop}
    (h : action.Ends drive fun result after => P (.ok result) after) :
    (DriveM.attempt action).Ends drive P := h

/-- An attempt goes on whatever came of it. -/
theorem Ends.attempt_bind {next : Except DriveError α → DriveM σ β}
    (h : action.Ends drive fun result after => (next result).Ends after P) :
    (DriveM.attempt action >>= next).Ends drive P := Ends.bind h

end FileDrive.DriveM
