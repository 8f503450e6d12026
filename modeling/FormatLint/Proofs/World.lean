import FormatLint.World

/-!
Runs of actions. A run that succeeds went through each of its parts, in order, and one that fails
failed in one of them.
-/

namespace FormatLint

namespace FileAction

variable {fs : FileSystem}

theorem run_bind (a : FileAction α) (f : α → FileAction β) (fs : FileSystem) :
    (a >>= f).run fs =
      match a.run fs with
      | (.ok value, after) => (f value).run after
      | (.error fault, after) => (.error fault, after) := by
  change (ExceptT.bindCont f =<< a.run) fs = _
  change (ExceptT.bindCont f (a.run fs).1).run (a.run fs).2 = _
  cases a.run fs with
  | mk result after => cases result <;> rfl

theorem run_tryCatch (a : FileAction α) (handle : SystemFault → FileAction α) (fs : FileSystem) :
    (tryCatch a handle).run fs =
      match a.run fs with
      | (.ok value, after) => (.ok value, after)
      | (.error fault, after) => (handle fault).run after := by
  simp only [tryCatch, tryCatchThe, MonadExceptOf.tryCatch, ExceptT.tryCatch, ExceptT.run, ExceptT.mk,
    bind, StateT.bind]
  cases a fs with
  | mk result after => cases result <;> rfl

theorem run_ofRead (read : FileSystem → Except SystemFault α) (fs : FileSystem) :
    (ofRead read).run fs = (read fs, fs) := by
  have opened : (get : FileAction FileSystem).run fs = (.ok fs, fs) := rfl
  rw [ofRead, run_bind, opened]
  dsimp only
  cases read fs <;> rfl

end FileAction

namespace Action

variable {programs : Programs} {world after : World}

theorem run_bind (a : Action α) (f : α → Action β) (programs : Programs) (world : World) :
    ((a >>= f) programs).run world =
      match (a programs).run world with
      | (.ok value, after) => (f value programs).run after
      | (.error e, after) => (.error e, after) := by
  change (ExceptT.bindCont (fun v => f v programs) ((a programs).run world).1).run
    ((a programs).run world).2 = _
  cases (a programs).run world with
  | mk result after => cases result <;> rfl

theorem run_tryCatch (a : Action α) (handle : Error → Action α) (programs : Programs)
    (world : World) :
    ((tryCatch a handle) programs).run world =
      match (a programs).run world with
      | (.ok value, after) => (.ok value, after)
      | (.error e, after) => (handle e programs).run after := by
  simp only [tryCatch, tryCatchThe, MonadExceptOf.tryCatch, ExceptT.tryCatch, ExceptT.run, ExceptT.mk,
    bind, StateT.bind]
  cases a programs world with
  | mk result after => cases result <;> rfl

theorem bind_ok {a : Action α} {f : α → Action β} {value : β}
    (ran : ((a >>= f) programs).run world = (.ok value, after)) :
    ∃ first mid, (a programs).run world = (.ok first, mid) ∧
      (f first programs).run mid = (.ok value, after) := by
  rw [run_bind] at ran
  split at ran
  · rename_i first mid both
    exact ⟨first, mid, both, ran⟩
  · cases ran

theorem run_bind_ok {a : Action α} {f : α → Action β} {value : α} {mid : World}
    (ran : (a programs).run world = (.ok value, mid)) :
    ((a >>= f) programs).run world = (f value programs).run mid := by
  rw [run_bind, ran]

theorem bind_error {a : Action α} {f : α → Action β} {e : Error}
    (ran : ((a >>= f) programs).run world = (.error e, after)) :
    (a programs).run world = (.error e, after) ∨
      ∃ first mid, (a programs).run world = (.ok first, mid) ∧
        (f first programs).run mid = (.error e, after) := by
  rw [run_bind] at ran
  split at ran
  · rename_i first mid both
    exact .inr ⟨first, mid, both, ran⟩
  · rename_i failed mid both
    cases ran
    exact .inl both

theorem bind_cases {a : Action α} {f : α → Action β} {result : Except Error β}
    (ran : ((a >>= f) programs).run world = (result, after)) :
    (∃ e, result = .error e ∧ (a programs).run world = (.error e, after)) ∨
      ∃ value mid, (a programs).run world = (.ok value, mid) ∧
        (f value programs).run mid = (result, after) := by
  cases result with
  | ok value =>
    obtain ⟨first, mid, ranFirst, rest⟩ := bind_ok ran
    exact .inr ⟨first, mid, ranFirst, rest⟩
  | error e =>
    rcases bind_error ran with failed | rest
    · exact .inl ⟨e, rfl, failed⟩
    · exact .inr rest

theorem ofExcept_ok {result : Except Error α} {value : α}
    (ran : (ofExcept result programs).run world = (.ok value, after)) :
    result = .ok value ∧ after = world := by
  cases result with
  | ok other =>
    cases ran
    exact ⟨rfl, rfl⟩
  | error e => cases ran

theorem run_read (f : FileSystem → Except Error α) (programs : Programs) (world : World) :
    (read f programs).run world = (f world.files, world) := by
  have opened : (read f programs).run world = (ofExcept (f world.files) programs).run world := rfl
  rw [opened]
  cases f world.files <;> rfl

theorem run_warning (f : FileSystem → Sink → Except Error α × Sink) (programs : Programs)
    (world : World) :
    (warning f programs).run world =
      ((f world.files world.err).1, { world with err := (f world.files world.err).2 }) := by
  have opened : (warning f programs).run world =
      (ofExcept (f world.files world.err).1 programs).run
        { world with err := (f world.files world.err).2 } := rfl
  rw [opened]
  cases (f world.files world.err).1 <;> rfl

theorem run_absolute (wrap : SystemFault → Error) (p : Path) (programs : Programs) (world : World) :
    (absolute wrap p programs).run world =
      (match Path.absolute? world.files.cwd p with
        | some q => .ok q
        | none => .error (wrap .emptyPath), world) := by
  have opened : ((get : Action World) programs).run world = (.ok world, world) := rfl
  rw [absolute, run_bind, opened]
  dsimp only
  cases Path.absolute? world.files.cwd p <;> rfl

theorem run_change (wrap : SystemFault → Error) (a : FileAction α) (programs : Programs)
    (world : World) :
    (change wrap a programs).run world =
      ((a.run world.files).1.mapError wrap, { world with files := (a.run world.files).2 }) := by
  have opened : ((get : Action World) programs).run world = (.ok world, world) := rfl
  rw [change, run_bind, opened]
  cases both : a.run world.files with
  | mk result files => cases result <;> simp [both] <;> rfl

theorem change_ok {wrap : SystemFault → Error} {a : FileAction α} {value : α}
    (ran : (change wrap a programs).run world = (.ok value, after)) :
    ∃ files, a.run world.files = (.ok value, files) ∧ after = { world with files } := by
  rw [run_change] at ran
  cases both : a.run world.files with
  | mk result files =>
    rw [both] at ran
    cases result with
    | error fault => cases ran
    | ok other =>
      cases ran
      exact ⟨files, rfl, rfl⟩

end Action

end FormatLint
