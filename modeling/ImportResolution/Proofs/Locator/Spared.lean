/-
What a call leaves alone. The strategies are tried in one order, so when one of them
decides only those before it have been attempted (`Attempts.before_decided`). Each helper
belongs to one strategy, which alone asks it and only where the settings allow it
(`callsOf_attempt`, `exchange_attempt`). So a call spares every helper whose strategy
stands behind the one that decides, and every helper that is switched off.

# What it is to spare a helper

That a helper is not called can be read off its count, but the count is kept beside the
calls. It can also be seen from outside: with anything else in the place of the helper
the call would be answered in the same way and would leave the same memory. A helper is
spared if both hold (`Spares`). Both are read off the attempts that are made: what each
of them keeps is kept by the call (`Attempts.invariant`), and locators that agree on each
of them agree on the call (`Attempts.congr`).
-/
import ImportResolution.Proofs.Locator.Counts
import ImportResolution.Proofs.Locator.Recovery

namespace ImportResolution

-- ============================================================== helpers

/-- A helper that looks outside, other than the one that loads the configuration. -/
inductive Helper where
  /-- It finds installed packages. -/
  | packages
  /-- It is the compiler's own search. -/
  | language
  /-- It is the runtime's own search. -/
  | runtime
deriving DecidableEq, Repr

/-- The strategy that asks a helper. -/
def Helper.strategy : Helper → Strategy
  | .packages => .external
  | .language => .languageFallback
  | .runtime => .runtimeFallback

/-- In the order of trial a strategy is another one or stands before it. -/
def Strategy.UpTo (next strategy : Strategy) : Prop :=
  next = strategy ∨ [next, strategy].Sublist Strategy.order

instance (next strategy : Strategy) : Decidable (next.UpTo strategy) :=
  inferInstanceAs (Decidable (_ ∨ _))

/-- The helpers with one of them taken from others. -/
def Collaborators.exchange (c : Collaborators) (other : Collaborators) : Helper → Collaborators
  | .packages => { c with locatePackage := other.locatePackage }
  | .language => { c with language := other.language }
  | .runtime => { c with runtime := other.runtime }

namespace Locator

open WorkspacePath (normalize ofGiven isRelative)

variable {l : Locator} {specifier context file : String} {m : Memory} {strategy : Strategy}
  {h : Helper}

/-- Whether the settings let a helper be asked. -/
def allows (l : Locator) : Helper → Bool
  | .packages => true
  | .language => l.settings.languageFallback
  | .runtime => l.settings.runtimeFallback

/-- A strategy asks its own helper, if it may. -/
def Asks (l : Locator) (strategy : Strategy) (h : Helper) : Prop :=
  strategy = h.strategy ∧ l.allows h = true

/-- How often a helper was called. -/
def Memory.callsOf (m : Memory) : Helper → Nat
  | .packages => m.packages.searches
  | .language => m.calls.language
  | .runtime => m.calls.runtime

/-- A call is made without a helper: the helper has been called as often as before, and
with any other in its place the call has the same answer and leaves the same memory. -/
structure Spares (l : Locator) (c : Call) (m : Memory) (h : Helper) : Prop where
  count : (l.resolveCall c m).2.callsOf h = m.callsOf h
  blind : ∀ other : Collaborators,
    (l.withHelpers (l.collaborators.exchange other h)).resolveCall c m = l.resolveCall c m

-- ============================================================= attempts

/-- Locators that agree on every attempt that is made agree on the run. -/
theorem Attempts.congr {l' : Locator} {strategies : List Strategy}
    (hagree : ∀ strategy m', Attempts l specifier context file strategies m strategy m' →
      l'.attempt specifier context file strategy m'
        = l.attempt specifier context file strategy m') :
    l'.tryStrategies specifier context file strategies m
      = l.tryStrategies specifier context file strategies m := by
  induction strategies generalizing m with
  | nil => rfl
  | cons strategy rest ih =>
      rw [tryStrategies_cons, tryStrategies_cons, hagree strategy m .here]
      cases hattempt : l.attempt specifier context file strategy m with
      | mk attempt m' =>
          cases attempt with
          | resolved id => rfl
          | rejected => rfl
          | skipped =>
              refine ih fun next m'' hattempts => hagree next m'' (.later (by rw [hattempt]) ?_)
              rw [hattempt]
              exact hattempts

theorem mem_of_decided {strategies : List Strategy}
    (hdecided : (l.tryStrategies specifier context file strategies m).1.2 = .decided strategy) :
    strategy ∈ strategies := by
  induction strategies generalizing m with
  | nil => cases hdecided
  | cons first rest ih =>
      rw [tryStrategies_cons] at hdecided
      cases hattempt : l.attempt specifier context file first m with
      | mk attempt m' =>
          rw [hattempt] at hdecided
          cases attempt with
          | resolved id => exact List.mem_cons.mpr (Or.inl (Source.decided.inj hdecided).symm)
          | rejected => exact List.mem_cons.mpr (Or.inl (Source.decided.inj hdecided).symm)
          | skipped => exact List.mem_cons_of_mem _ (ih hdecided)

/-- What is attempted decides, or stands before what decides. -/
theorem Attempts.before_decided {strategies : List Strategy} {next : Strategy} {m' : Memory}
    (hattempts : Attempts l specifier context file strategies m next m')
    (hdecided : (l.tryStrategies specifier context file strategies m).1.2 = .decided strategy) :
    next = strategy ∨ [next, strategy].Sublist strategies := by
  induction hattempts with
  | @here first rest m =>
      rw [tryStrategies_cons] at hdecided
      cases hattempt : l.attempt specifier context file first m with
      | mk attempt m' =>
          rw [hattempt] at hdecided
          cases attempt with
          | resolved id => exact Or.inl (Source.decided.inj hdecided)
          | rejected => exact Or.inl (Source.decided.inj hdecided)
          | skipped =>
              have hlater := mem_of_decided hdecided
              exact Or.inr (List.Sublist.cons_cons first (List.singleton_sublist.mpr hlater))
  | later skipped _ ih =>
      rw [tryStrategies_of_skipped skipped] at hdecided
      exact (ih hdecided).imp_right (List.Sublist.cons _)

-- ============================================================ one attempt

theorem callsOf_compilerConfig? (l : Locator) (h : Helper) (m : Memory) :
    (l.compilerConfig? m).2.callsOf h = m.callsOf h := by
  cases hk : m.config with
  | some known => rw [compilerConfig?_of_known hk]
  | none =>
      rw [compilerConfig?_of_unknown hk]
      cases h <;> rfl

theorem callsOf_tryModuleSearch (h : Helper) (resolver : ModuleResolver) (specifier file : String)
    (m : Memory) : (l.tryModuleSearch resolver specifier file m).2.callsOf h = m.callsOf h := by
  rw [tryModuleSearch, run_bind]
  cases (onFiles (resolver specifier (FilePath.join l.workspaceRoot file)) m).1 with
  | ok path => cases h <;> rfl
  | error fault => cases h <;> rfl

/-- An attempt calls no helper but its own, and that only if it is allowed. -/
theorem callsOf_attempt (hasks : ¬ Asks l strategy h) (m : Memory) :
    (l.attempt specifier context file strategy m).2.callsOf h = m.callsOf h := by
  cases strategy with
  | relative => rfl
  | builtin => rfl
  | workspacePackage => rfl
  | pathMapping =>
      rw [attempt_pathMapping_snd]
      exact l.callsOf_compilerConfig? h m
  | external =>
      cases h with
      | packages => exact absurd ⟨rfl, rfl⟩ hasks
      | language => rfl
      | runtime => rfl
  | languageFallback =>
      rw [attempt, tryLanguage]
      split
      · next hallowed =>
        rw [run_bind]
        cases (l.compilerConfig? m).1 with
        | none => exact l.callsOf_compilerConfig? h m
        | some config =>
            simp only
            split
            · rw [run_bind, callsOf_tryModuleSearch, run_modify]
              refine Eq.trans ?_ (l.callsOf_compilerConfig? h m)
              cases h with
              | packages => rfl
              | language => exact absurd ⟨rfl, hallowed⟩ hasks
              | runtime => rfl
            · exact l.callsOf_compilerConfig? h m
      · rfl
  | runtimeFallback =>
      rw [attempt, tryRuntime]
      split
      · next hallowed =>
        rw [run_bind, callsOf_tryModuleSearch, run_modify]
        cases h with
        | packages => rfl
        | language => rfl
        | runtime => exact absurd ⟨rfl, hallowed⟩ hasks
      · rfl

section Exchange

variable (l : Locator) (other : Collaborators) (h : Helper)

theorem exchange_compilerConfig? :
    (l.withHelpers (l.collaborators.exchange other h)).compilerConfig? = l.compilerConfig? := by
  have hload : (l.collaborators.exchange other h).loadConfig = l.collaborators.loadConfig := by
    cases h <;> rfl
  unfold compilerConfig? withHelpers
  rw [hload]

theorem exchange_installedPackages (hne : h ≠ .packages) :
    (l.withHelpers (l.collaborators.exchange other h)).installedPackages = l.installedPackages := by
  cases h with
  | packages => exact absurd rfl hne
  | language => rfl
  | runtime => rfl

theorem exchange_language (hne : h ≠ .language) :
    (l.collaborators.exchange other h).language = l.collaborators.language := by
  cases h with
  | packages => rfl
  | language => exact absurd rfl hne
  | runtime => rfl

theorem exchange_runtime (hne : h ≠ .runtime) :
    (l.collaborators.exchange other h).runtime = l.collaborators.runtime := by
  cases h with
  | packages => rfl
  | language => rfl
  | runtime => exact absurd rfl hne

theorem withHelpers_tryModuleSearch (c : Collaborators) :
    (l.withHelpers c).tryModuleSearch = l.tryModuleSearch := by
  funext resolver specifier file
  unfold tryModuleSearch
  rfl

end Exchange

/-- An attempt can tell no other helper from its own, and that only if it is allowed. -/
theorem exchange_attempt (hasks : ¬ Asks l strategy h) (other : Collaborators) :
    (l.withHelpers (l.collaborators.exchange other h)).attempt specifier context file strategy
      = l.attempt specifier context file strategy := by
  cases strategy with
  | relative => simp only [attempt, withHelpers_tryRelative]
  | pathMapping =>
      simp only [attempt, tryAliases, exchange_compilerConfig?]
      rfl
  | builtin => rfl
  | external =>
      have hother : h ≠ .packages := by
        rintro rfl
        exact hasks ⟨rfl, rfl⟩
      simp only [attempt, exchange_installedPackages l other h hother]
  | languageFallback =>
      cases hallowed : l.settings.languageFallback with
      | false =>
          simp only [attempt, tryLanguage, withHelpers, hallowed, Bool.false_eq_true, if_false]
      | true =>
          have hother : h ≠ .language := by
            rintro rfl
            exact hasks ⟨rfl, hallowed⟩
          have hlanguage := exchange_language l other h hother
          simp only [attempt, tryLanguage, exchange_compilerConfig?, withHelpers_tryModuleSearch]
          simp only [withHelpers, hlanguage]
  | workspacePackage => rfl
  | runtimeFallback =>
      cases hallowed : l.settings.runtimeFallback with
      | false =>
          simp only [attempt, tryRuntime, withHelpers, hallowed, Bool.false_eq_true, if_false]
      | true =>
          have hother : h ≠ .runtime := by
            rintro rfl
            exact hasks ⟨rfl, hallowed⟩
          have hruntime := exchange_runtime l other h hother
          simp only [attempt, tryRuntime, withHelpers_tryModuleSearch]
          simp only [withHelpers, hruntime]

/-- An attempt that asks no helper leaves the answers for packages and the descriptors
alone: of all that is known of packages it reaches the files at most. -/
theorem caches_attempt (hne : ∀ h : Helper, strategy ≠ h.strategy) (m : Memory) :
    (l.attempt specifier context file strategy m).2.packages.answers = m.packages.answers ∧
      (l.attempt specifier context file strategy m).2.packages.files.descriptors
        = m.packages.files.descriptors := by
  cases strategy with
  | relative => exact ⟨rfl, rfl⟩
  | builtin => exact ⟨rfl, rfl⟩
  | workspacePackage => exact ⟨rfl, rfl⟩
  | pathMapping =>
      obtain ⟨s, hs⟩ := l.packages_compilerConfig? m
      rw [attempt_pathMapping_snd, hs]
      exact ⟨rfl, rfl⟩
  | external => exact absurd rfl (hne .packages)
  | languageFallback => exact absurd rfl (hne .language)
  | runtimeFallback => exact absurd rfl (hne .runtime)

-- ================================================================ calls

section Calls

variable {c : Call}

/-- A call spares a helper that no attempt asks. -/
theorem spares_of_attempts
    (hasks : ∀ strategy m', Call.Attempts l ⟨c, m⟩ strategy m' → ¬ Asks l strategy h) :
    Spares l c m h := by
  cases hk : m.answers.peek? c.slot with
  | some answer =>
      refine ⟨?_, fun other => ?_⟩
      · rw [resolveCall_of_known hk]
        cases h <;> rfl
      · rw [resolveCall_of_known hk, resolveCall_of_known hk]
  | none =>
      refine ⟨?_, fun other => ?_⟩
      · have hcount : (l.outcome c (m.asked c)).2.callsOf h = m.callsOf h := by
          let kind : Memory → Prop := fun m' => m'.callsOf h = m.callsOf h
          have hstart : kind (m.asked c) := by
            cases h <;> rfl
          exact (Attempts.invariant (fun strategy m' hattempts (hm' : kind m') =>
            (callsOf_attempt (hasks strategy m' hattempts) m').trans hm') hstart).2
        obtain ⟨_, answers, hmemory, -⟩ := resolveCall_of_unknown (l := l) hk
        rw [hmemory, ← hcount]
        cases h <;> rfl
      · have houtcome : (l.withHelpers (l.collaborators.exchange other h)).outcome c (m.asked c)
            = l.outcome c (m.asked c) :=
          Attempts.congr fun strategy m' hattempts =>
            congrFun (exchange_attempt (hasks strategy m' hattempts) other) m'
        rw [resolveCall_of_unknown_run hk, resolveCall_of_unknown_run hk, houtcome]

/-- What the answer to a call names as its source has decided among the strategies. -/
theorem decided_of_source (h : (l.resolveCall c m).1.source = .decided strategy) :
    (l.outcome c (m.asked c)).1.2 = .decided strategy := by
  cases hk : m.answers.peek? c.slot with
  | some answer =>
      rw [resolveCall_of_known hk] at h
      cases h
  | none =>
      rw [resolveCall_fst_of_unknown hk] at h
      exact h

/-- A call spares every helper whose strategy stands behind the one that decides. -/
theorem spares_of_decided (hsource : (l.resolveCall c m).1.source = .decided strategy)
    (hbehind : ¬ h.strategy.UpTo strategy) : Spares l c m h := by
  refine spares_of_attempts fun next m' hattempts hasks => hbehind ?_
  rw [← hasks.1]
  exact hattempts.before_decided (decided_of_source hsource)

/-- A call spares every helper that is switched off. -/
theorem spares_of_disabled (hoff : l.allows h = false) : Spares l c m h := by
  refine spares_of_attempts fun next m' _ hasks => Bool.false_ne_true ?_
  rw [← hoff, hasks.2]

/-- If no strategy that asks a helper stands before the one that decides, nothing is
learned of packages. -/
theorem caches_of_decided (hsource : (l.resolveCall c m).1.source = .decided strategy)
    (hbehind : ∀ h : Helper, ¬ h.strategy.UpTo strategy) :
    (l.resolveCall c m).2.packages.answers = m.packages.answers ∧
      (l.resolveCall c m).2.packages.files.descriptors = m.packages.files.descriptors := by
  cases hk : m.answers.peek? c.slot with
  | some answer =>
      rw [resolveCall_of_known hk]
      exact ⟨rfl, rfl⟩
  | none =>
      have hdecided := decided_of_source hsource
      obtain ⟨_, answers, hmemory, -⟩ := resolveCall_of_unknown (l := l) hk
      rw [hmemory]
      let kind : Memory → Prop := fun m' => m'.packages.answers = m.packages.answers ∧
        m'.packages.files.descriptors = m.packages.files.descriptors
      have hstart : kind (m.asked c) := ⟨rfl, rfl⟩
      refine (Attempts.invariant (fun next m' hattempts (hm' : kind m') => ?_) hstart).2
      have hne : ∀ h : Helper, next ≠ h.strategy := by
        rintro h rfl
        exact hbehind h (hattempts.before_decided hdecided)
      obtain ⟨hanswers, hdescriptors⟩ := caches_attempt hne m'
      exact ⟨hanswers.trans hm'.1, hdescriptors.trans hm'.2⟩

/-- A relative specifier is decided by its path alone: nothing but the answers changes. -/
theorem frame_of_relative (hrelative : isRelative c.specifier = true) :
    (l.resolveCall c m).2.config = m.config ∧ (l.resolveCall c m).2.packages = m.packages ∧
      (l.resolveCall c m).2.calls = m.calls := by
  cases hk : m.answers.peek? c.slot with
  | some answer =>
      rw [resolveCall_of_known hk]
      exact ⟨rfl, rfl, rfl⟩
  | none =>
      obtain ⟨_, answers, hmemory, -⟩ := resolveCall_of_unknown (l := l) hk
      rw [hmemory, outcome, tryStrategies_of_relative hrelative]
      exact ⟨rfl, rfl, rfl⟩

end Calls

/-- The strategies behind the one that decides do no work, whatever is remembered. For a
relative specifier neither the configuration nor anything known of packages changes, the
files with their readings among it. Where an alias or a module of the runtime decides, no
package and no descriptor is looked up, and all helpers are spared; where an installed
package decides, both searches are; where the compiler's search or the name of a project
decides, the runtime's search is. A search that is switched off is always spared. -/
theorem no_work_after_decision (l : Locator) (c : Call) (m : Memory) :
    (isRelative c.specifier = true →
      (l.resolveCall c m).2.config = m.config ∧ (l.resolveCall c m).2.packages = m.packages ∧
        (l.resolveCall c m).2.calls = m.calls) ∧
    ((l.resolveCall c m).1.source = .decided .pathMapping ∨
        (l.resolveCall c m).1.source = .decided .builtin →
      (l.resolveCall c m).2.packages.answers = m.packages.answers ∧
        (l.resolveCall c m).2.packages.files.descriptors = m.packages.files.descriptors ∧
        ∀ h, Spares l c m h) ∧
    ((l.resolveCall c m).1.source = .decided .external →
      Spares l c m .language ∧ Spares l c m .runtime) ∧
    ((l.resolveCall c m).1.source = .decided .languageFallback ∨
        (l.resolveCall c m).1.source = .decided .workspacePackage → Spares l c m .runtime) ∧
    (l.settings.languageFallback = false → Spares l c m .language) ∧
    (l.settings.runtimeFallback = false → Spares l c m .runtime) := by
  refine ⟨frame_of_relative, ?_, fun hsource => ⟨?_, ?_⟩, ?_, fun hoff => ?_, fun hoff => ?_⟩
  · rintro (hsource | hsource)
    · have hbehind (h : Helper) : ¬ h.strategy.UpTo .pathMapping := by
        cases h <;> decide
      obtain ⟨hanswers, hdescriptors⟩ := caches_of_decided hsource hbehind
      exact ⟨hanswers, hdescriptors, fun h => spares_of_decided hsource (hbehind h)⟩
    · have hbehind (h : Helper) : ¬ h.strategy.UpTo .builtin := by
        cases h <;> decide
      obtain ⟨hanswers, hdescriptors⟩ := caches_of_decided hsource hbehind
      exact ⟨hanswers, hdescriptors, fun h => spares_of_decided hsource (hbehind h)⟩
  · exact spares_of_decided hsource (by decide)
  · exact spares_of_decided hsource (by decide)
  · rintro (hsource | hsource)
    · exact spares_of_decided hsource (by decide)
    · exact spares_of_decided hsource (by decide)
  · exact spares_of_disabled hoff
  · exact spares_of_disabled hoff

/-- A workspace with a project that is named like a package, and the package itself. -/
def homonymous : WorkspaceGraph :=
  ⟨[.ofRoot "lib" "libs/lib" (some "@org/lib")], [.npm "dep" "1.0.0"]⟩

/-- A package as installed at the root of that workspace. -/
def homonymousFiles : FileStore :=
  .ofFiles [("/ws/node_modules/dep/package.json",
    "\x7b\"name\":\"dep\",\"version\":\"1.0.0\"\x7d")]

/-- There a path, a module of the runtime, the package and the project decide in turn. -/
theorem no_work_after_homonymous :
    let l := ofGraph "/ws" .standard homonymous
    let m := Memory.ofStore homonymousFiles
    (isRelative "./y" = true ∧
      (l.resolveCall ⟨"./y", "app", "app/x.ts"⟩ m).2.packages = m.packages) ∧
    ((l.resolveCall ⟨"fs/promises", "app", "app/x.ts"⟩ m).1.source = .decided .builtin ∧
      ∀ h, Spares l ⟨"fs/promises", "app", "app/x.ts"⟩ m h) ∧
    ((l.resolveCall ⟨"dep", "app", "app/x.ts"⟩ m).1.source = .decided .external ∧
      Spares l ⟨"dep", "app", "app/x.ts"⟩ m .runtime) ∧
    ((l.resolveCall ⟨"@org/lib", "app", "app/x.ts"⟩ m).1.source = .decided .workspacePackage ∧
      Spares l ⟨"@org/lib", "app", "app/x.ts"⟩ m .runtime) ∧
    Spares (ofGraph "/ws" { Settings.standard with runtimeFallback := false } homonymous)
      ⟨"other", "app", "app/x.ts"⟩ m .runtime := by
  intro l m
  have hrelative : isRelative "./y" = true := by decide +kernel
  have hbuiltin : (l.resolveCall ⟨"fs/promises", "app", "app/x.ts"⟩ m).1.source
      = .decided .builtin := by decide +kernel
  have hexternal : (l.resolveCall ⟨"dep", "app", "app/x.ts"⟩ m).1.source
      = .decided .external := by decide +kernel
  have hproject : (l.resolveCall ⟨"@org/lib", "app", "app/x.ts"⟩ m).1.source
      = .decided .workspacePackage := by decide +kernel
  exact ⟨⟨hrelative, ((no_work_after_decision l ⟨"./y", "app", "app/x.ts"⟩ m).1 hrelative).2.1⟩,
    ⟨hbuiltin, ((no_work_after_decision l _ m).2.1 (Or.inr hbuiltin)).2.2⟩,
    ⟨hexternal, ((no_work_after_decision l _ m).2.2.1 hexternal).2⟩,
    ⟨hproject, (no_work_after_decision l _ m).2.2.2.1 (Or.inr hproject)⟩,
    (no_work_after_decision _ _ m).2.2.2.2.2 rfl⟩

end Locator

end ImportResolution
