/-
What the strategies leave alone. They reach a locator's memory in five ways
only: they count calls of helpers, ask for the compiler configuration, let the
two fallback searches at the files, and look installed packages up. A run of
strategies is made of these (`made_tryStrategies`), and that is all that is
known of it in what follows: what the five keep is kept by a run
(`Made.keeps`), and since none of them touches the answers, a run goes on in
the same way whatever has been answered before (`Made.blind`).

The look-up stands apart, since it alone depends on what is asked.
-/
import ImportResolution.Locator.Resolve
import ImportResolution.Proofs.Steady

namespace ImportResolution.Locator

variable {l : Locator} {kind : Memory → Prop}

-- ================================================================ runs

@[simp] theorem run_onFiles {α : Type} (search : Search α) (m : Memory) :
    onFiles search m = ((search m.packages.files).1,
      { m with packages.files := (search m.packages.files).2 }) :=
  rfl

-- ========================================================= configuration

/-- The compiler configuration that the files have. -/
def configAt (l : Locator) (s : FileStore) : Option CompilerConfig :=
  match (l.collaborators.loadConfig s).1 with
  | .ok config => config
  | .error _ => none

theorem configAt_eq (l : Locator) (s : FileStore) :
    l.configAt s = (l.collaborators.loadConfig s).1.toOption.join := by
  unfold configAt
  cases (l.collaborators.loadConfig s).1 with
  | ok config => rfl
  | error fault => rfl

/-- A configuration that was asked for is answered from memory. -/
theorem compilerConfig?_of_known {m : Memory} {known : Option CompilerConfig}
    (h : m.config = some known) : l.compilerConfig? m = (known, m) := by
  simp only [compilerConfig?, run_bind, run_get, h, run_pure]

/-- A configuration that was not asked for is loaded, and what comes of it is
kept. -/
theorem compilerConfig?_of_unknown {m : Memory} (h : m.config = none) :
    l.compilerConfig? m
      = (l.configAt m.store,
          { m.withStore (l.collaborators.loadConfig m.store).2 with
            config := some (l.configAt m.store)
            calls := { m.calls with config := m.calls.config + 1 } }) := by
  have hrun : l.compilerConfig? m
      = let loaded := onStore l.collaborators.loadConfig
          { m with calls := { m.calls with config := m.calls.config + 1 } }
        let known := match loaded.1 with
          | .ok config => config
          | .error _ => none
        (known, { loaded.2 with config := some known }) := by
    simp only [compilerConfig?, run_bind, run_get, run_modify, h]
    rfl
  rw [hrun]
  rfl

-- =========================================================== strategies

/-- Work of a locator for a specifier in a context. Installed packages are
looked up only in work that asks for them. -/
inductive Made (l : Locator) (specifier context : String) (asks : Prop) :
    {α : Type} → Step α → Prop where
  | pure {α : Type} (a : α) : Made l specifier context asks (pure a)
  | bind {α β : Type} {work : Step α} {next : α → Step β}
      (h : Made l specifier context asks work)
      (hn : ∀ a, Made l specifier context asks (next a)) :
      Made l specifier context asks (work >>= next)
  | count (count : Calls → Calls) :
      Made l specifier context asks
        (modify fun m : Memory => { m with calls := count m.calls })
  | config : Made l specifier context asks l.compilerConfig?
  | language (config : CompilerConfig) (asked file : String) :
      Made l specifier context asks (onFiles (l.collaborators.language config asked file))
  | runtime (asked file : String) :
      Made l specifier context asks (onFiles (l.collaborators.runtime asked file))
  | packages (h : asks) :
      Made l specifier context asks (onPackages (l.installedPackages.resolve specifier context))

section Made

variable {specifier context : String} {asks : Prop}

theorem made_tryAliases (asked : String) :
    Made l specifier context asks (l.tryAliases asked) := by
  refine .bind .config fun config => ?_
  cases config with
  | none => exact .pure _
  | some config => exact .pure _

theorem made_tryModuleSearch {resolver : ModuleResolver}
    (h : ∀ asked file, Made l specifier context asks (onFiles (resolver asked file)))
    (asked file : String) :
    Made l specifier context asks (l.tryModuleSearch resolver asked file) := by
  refine .bind (h _ _) fun answer => ?_
  cases answer with
  | ok path => exact .pure _
  | error fault => exact .pure _

theorem made_tryLanguage (asked file : String) :
    Made l specifier context asks (l.tryLanguage asked file) := by
  unfold tryLanguage
  split
  · refine .bind .config fun config => ?_
    cases config with
    | none => exact .pure _
    | some config =>
        simp only
        split
        · refine .bind (.count fun calls => { calls with language := calls.language + 1 })
            fun _ => ?_
          exact made_tryModuleSearch (.language config) asked file
        · exact .pure _
  · exact .pure _

theorem made_tryRuntime (asked file : String) :
    Made l specifier context asks (l.tryRuntime asked file) := by
  unfold tryRuntime
  split
  · refine .bind (.count fun calls => { calls with runtime := calls.runtime + 1 }) fun _ => ?_
    exact made_tryModuleSearch .runtime asked file
  · exact .pure _

/-- Only one strategy looks installed packages up. -/
theorem made_attempt {strategy : Strategy} (hasks : strategy = .external → asks)
    (file : String) :
    Made l specifier context asks (l.attempt specifier context file strategy) := by
  cases strategy with
  | relative => exact .pure _
  | pathMapping => exact made_tryAliases specifier
  | builtin => exact .pure _
  | external => exact .bind (.packages (hasks rfl)) fun _ => .pure _
  | languageFallback => exact made_tryLanguage specifier file
  | workspacePackage => exact .pure _
  | runtimeFallback => exact made_tryRuntime specifier file

theorem made_tryStrategies (file : String) (strategies : List Strategy) :
    Made l specifier context True (l.tryStrategies specifier context file strategies) := by
  induction strategies with
  | nil => exact .pure _
  | cons strategy rest ih =>
      refine .bind (made_attempt (fun _ => trivial) file) fun attempt => ?_
      cases attempt with
      | resolved id => exact .pure _
      | rejected => exact .pure _
      | skipped => exact ih

end Made

-- ========================================================= what is kept

/-- The ways in which strategies reach the memory whatever is asked keep it of a
kind. -/
structure Frame (l : Locator) (kind : Memory → Prop) : Prop where
  count : ∀ count : Calls → Calls,
    Keeps kind (modify fun m : Memory => { m with calls := count m.calls })
  config : Keeps kind l.compilerConfig?
  language : ∀ config specifier file,
    Keeps kind (onFiles (l.collaborators.language config specifier file))
  runtime : ∀ specifier file, Keeps kind (onFiles (l.collaborators.runtime specifier file))

/-- What all the ways keep is kept by all work that is made of them. -/
theorem Made.keeps (h : Frame l kind) {specifier context : String} {asks : Prop}
    (hpackages : asks →
      Keeps kind (onPackages (l.installedPackages.resolve specifier context)))
    {α : Type} {work : Step α} (hw : Made l specifier context asks work) : Keeps kind work := by
  induction hw with
  | pure a => exact Keeps.pure a
  | bind _ _ ih ihn => exact Keeps.bind ih ihn
  | count count => exact h.count count
  | config => exact h.config
  | language config asked file => exact h.language config asked file
  | runtime asked file => exact h.runtime asked file
  | packages hasks => exact hpackages hasks

/-- Only the look-up of installed packages reaches the memory in another way. -/
theorem Frame.attempt_of_ne (h : Frame l kind) (specifier context file : String)
    {strategy : Strategy} (hne : strategy ≠ .external) :
    Keeps kind (l.attempt specifier context file strategy) := by
  have hmade : Made l specifier context False (l.attempt specifier context file strategy) :=
    made_attempt hne file
  exact hmade.keeps h False.elim

-- ============================================================ the answers

theorem compilerConfig?_blind (l : Locator) (m : Memory)
    (answers : Memo (String × String) (Option String)) :
    l.compilerConfig? { m with answers }
      = ((l.compilerConfig? m).1, { (l.compilerConfig? m).2 with answers }) := by
  obtain ⟨packages, earlier, config, calls⟩ := m
  cases config with
  | some known => rw [compilerConfig?_of_known rfl, compilerConfig?_of_known rfl]
  | none =>
      rw [compilerConfig?_of_unknown rfl, compilerConfig?_of_unknown rfl]
      rfl

/-- Work of a locator neither looks at the answers nor changes them. -/
theorem Made.blind {specifier context : String} {asks : Prop} {α : Type} {work : Step α}
    (h : Made l specifier context asks work) (m : Memory)
    (answers : Memo (String × String) (Option String)) :
    work { m with answers } = ((work m).1, { (work m).2 with answers }) := by
  induction h generalizing m with
  | pure a => rfl
  | @bind α β work next _ _ ih ihn =>
      show next (work { m with answers }).1 (work { m with answers }).2 = _
      rw [ih m]
      exact ihn (work m).1 (work m).2
  | count count => rfl
  | config => exact l.compilerConfig?_blind m answers
  | language config asked file => rfl
  | runtime asked file => rfl
  | packages hasks => rfl

theorem compilerConfig?_answers (l : Locator) (m : Memory) :
    (l.compilerConfig? m).2.answers = m.answers :=
  congrArg (·.2.answers) (l.compilerConfig?_blind m m.answers)

/-- Strategies leave the answers to their caller. -/
theorem tryStrategies_answers (l : Locator) (specifier context file : String)
    (strategies : List Strategy) (m : Memory) :
    (l.tryStrategies specifier context file strategies m).2.answers = m.answers :=
  congrArg (·.2.answers) ((made_tryStrategies file strategies).blind m m.answers)

end ImportResolution.Locator
