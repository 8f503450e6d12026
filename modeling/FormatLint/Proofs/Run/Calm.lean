import FormatLint.Proofs.World
import FormatLint.Run

/-!
What actions leave behind. A calm action only adds warnings, a firm one is never rejected, and from
these two kinds a run is put together that, where it is rejected, has only added warnings.
-/

namespace FormatLint

/-- Whether a failure says that arguments or configuration cannot be used. -/
def Error.isRejection : Error → Bool
  | .argumentInvalid .. | .argumentMissing .. | .configurationConflict .. | .config .. => true
  | .io .. | .engine .. => false

theorem Error.ofFault_isRejection (operation : String) (p : Path) (fault : SystemFault) :
    (ofFault operation p fault).isRejection = false := rfl

namespace Action

/-- Whatever comes of it, all that it may do is to add warnings. -/
def Calm (programs : Programs) (a : Action α) : Prop :=
  ∀ world, ∃ err, ((a programs).run world).2 = { world with err }

/-- It may fail, but it is not rejected. -/
def Firm (programs : Programs) (a : Action α) : Prop :=
  ∀ world e after, (a programs).run world = (.error e, after) → e.isRejection = false

/-- Where it is rejected, all that it may have done is to add warnings. -/
def Harmless (programs : Programs) (a : Action α) : Prop :=
  ∀ world e after, (a programs).run world = (.error e, after) → e.isRejection = true →
    ∃ err, after = { world with err }

variable {programs : Programs} {a : Action α} {f : α → Action β}

section Calm

theorem Calm.run (calm : Calm programs a) {world after : World} {result : Except Error α}
    (ran : (a programs).run world = (result, after)) : ∃ err, after = { world with err } := by
  obtain ⟨err, left⟩ := calm world
  rw [ran] at left
  exact ⟨err, left⟩

theorem calm_pure (value : α) : Calm programs (pure value) := fun world => ⟨world.err, rfl⟩

theorem calm_throw (e : Error) : Calm programs (throw e : Action α) := fun world => ⟨world.err, rfl⟩

theorem Calm.bind (calm : Calm programs a) (rest : ∀ value, Calm programs (f value)) :
    Calm programs (a >>= f) := by
  intro world
  rw [run_bind]
  cases ran : (a programs).run world with
  | mk result mid =>
    obtain ⟨err, rfl⟩ := calm.run ran
    cases result with
    | error e => exact ⟨err, rfl⟩
    | ok value =>
      obtain ⟨err', left⟩ := rest value { world with err }
      exact ⟨err', left⟩

theorem calm_ofExcept (result : Except Error α) : Calm programs (ofExcept result) := by
  cases result with
  | ok value => exact calm_pure value
  | error e => exact calm_throw e

theorem calm_read (f : FileSystem → Except Error α) : Calm programs (read f) :=
  fun world => ⟨world.err, by rw [run_read]⟩

theorem calm_warning (f : FileSystem → Sink → Except Error α × Sink) :
    Calm programs (warning f) :=
  fun world => ⟨(f world.files world.err).2, by rw [run_warning]⟩

theorem calm_absolute (wrap : SystemFault → Error) (p : Path) : Calm programs (absolute wrap p) :=
  fun world => ⟨world.err, by rw [run_absolute]⟩

theorem calm_start {engine : String} {invocation : Invocation}
    (aloof : ∀ fs, ((programs invocation).run fs).2 = fs) :
    Calm programs (start engine invocation) := by
  intro world
  have started : (start engine invocation programs).run world =
      (change (Error.notStarted engine invocation.program) (programs invocation) programs).run world :=
    rfl
  refine ⟨world.err, ?_⟩
  rw [started, run_change, aloof]

theorem calm_option_mapM {f : α → Action β} (each : ∀ value, Calm programs (f value))
    (given : Option α) : Calm programs (given.mapM f) := by
  cases given with
  | none => exact calm_pure none
  | some value => exact (each value).bind fun found => calm_pure (some found)

theorem calm_list_mapM {f : α → Action β} (each : ∀ value, Calm programs (f value))
    (values : List α) : Calm programs (values.mapM f) := by
  induction values with
  | nil => exact calm_pure []
  | cons value values ih =>
    rw [List.mapM_cons]
    exact (each value).bind fun first => ih.bind fun rest => calm_pure (first :: rest)

end Calm

section Firm

theorem firm_pure (value : α) : Firm programs (pure value) := by
  intro world e after ran
  cases ran

theorem firm_throw {e : Error} (kind : e.isRejection = false) :
    Firm programs (throw e : Action α) := by
  intro world e' after ran
  cases ran
  exact kind

theorem Firm.bind (firm : Firm programs a) (rest : ∀ value, Firm programs (f value)) :
    Firm programs (a >>= f) := by
  intro world e after ran
  rcases Action.bind_error ran with failed | ⟨value, mid, -, failed⟩
  · exact firm _ _ _ failed
  · exact rest value _ _ _ failed

theorem firm_ofExcept {result : Except Error α}
    (kind : ∀ e, result = .error e → e.isRejection = false) : Firm programs (ofExcept result) := by
  cases result with
  | ok value => exact firm_pure value
  | error e => exact firm_throw (kind e rfl)

theorem firm_change {wrap : SystemFault → Error} (kind : ∀ fault, (wrap fault).isRejection = false)
    (a : FileAction α) : Firm programs (change wrap a) := by
  intro world e after ran
  rw [run_change] at ran
  cases failed : (a.run world.files).1 with
  | ok value =>
    rw [failed] at ran
    cases ran
  | error fault =>
    rw [failed] at ran
    cases ran
    exact kind fault

theorem firm_start (engine : String) (invocation : Invocation) :
    Firm programs (start engine invocation) := by
  have kind (fault : SystemFault) :
      (Error.notStarted engine invocation.program fault).isRejection = false := by
    rw [Error.notStarted]
    split <;> rfl
  exact fun world => firm_change kind (programs invocation) world

theorem firm_absolute {wrap : SystemFault → Error} (kind : ∀ fault, (wrap fault).isRejection = false)
    (p : Path) : Firm programs (absolute wrap p) := by
  rw [absolute]
  refine Firm.bind (fun world e after ran => by cases ran) fun world => ?_
  split
  · exact firm_pure _
  · exact firm_throw (kind _)

theorem firm_list_mapM {f : α → Action β} {values : List α}
    (each : ∀ value ∈ values, Firm programs (f value)) : Firm programs (values.mapM f) := by
  induction values with
  | nil => exact firm_pure []
  | cons value values ih =>
    have rest := ih fun other member => each other (List.mem_cons_of_mem _ member)
    rw [List.mapM_cons]
    exact (each value List.mem_cons_self).bind fun first => rest.bind fun more =>
      firm_pure (first :: more)

end Firm

section Harmless

theorem Calm.harmless (calm : Calm programs a) : Harmless programs a :=
  fun _ _ _ ran _ => calm.run ran

theorem Firm.harmless (firm : Firm programs a) : Harmless programs a := by
  intro world e after ran rejected
  rw [firm world e after ran] at rejected
  cases rejected

theorem Calm.bind_error (calm : Calm programs a) {world after : World} {e : Error}
    (ran : ((a >>= f) programs).run world = (.error e, after)) :
    (∃ err, after = { world with err }) ∨
      ∃ value err, (f value programs).run { world with err } = (.error e, after) := by
  rcases Action.bind_error ran with failed | ⟨value, mid, passed, failed⟩
  · exact .inl (calm.run failed)
  · obtain ⟨err, rfl⟩ := calm.run passed
    exact .inr ⟨value, err, failed⟩

theorem Calm.bind_harmless (calm : Calm programs a) (rest : ∀ value, Harmless programs (f value)) :
    Harmless programs (a >>= f) := by
  intro world e after ran rejected
  rcases calm.bind_error ran with left | ⟨value, err, failed⟩
  · exact left
  · obtain ⟨err', left⟩ := rest value _ e after failed rejected
    exact ⟨err', left⟩

end Harmless

end Action

end FormatLint
