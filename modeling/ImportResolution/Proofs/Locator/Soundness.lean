/-
Where answers come from. A node that a locator answers is an installed package
whose descriptor has its name and version, a project that declares the package
that was asked for, or the project that owns a path: the path of a relative
specifier, the target of an alias, or the file that a fallback search found
(`Grounds`). This holds of all that is answered and of all that is remembered,
whatever happened before and whatever the helpers do (`answers_grounded`).

# The invariant

Answers outlive the files that they were found in, so their grounds refer to
the calls that were made and to what was remembered when they were made.
`Remembers` says this of what calls share, the known packages, the descriptors
and the configuration. It holds of a new locator, every attempt keeps it
(`Midway.attempt`), and so it holds throughout a history.
-/
import ImportResolution.Proofs.FilePath
import ImportResolution.Proofs.Locator.History
import ImportResolution.Proofs.Locator.Slots
import ImportResolution.Proofs.ProjectRoots

namespace ImportResolution

open FileStore (SameFiles)
open PackageFiles (Looks descriptorAt)

-- ============================================================== helpers

/-- The helpers only look: the loader leaves the files alone, and the fallback
searches get at descriptors by looking them up. -/
structure Collaborators.OnlyLook (c : Collaborators) : Prop where
  loadConfig : ∀ s, SameFiles (c.loadConfig s).2 s
  language : ∀ config specifier file, Looks (c.language config specifier file)
  runtime : ∀ specifier file, Looks (c.runtime specifier file)

/-- The usual helpers only look. -/
theorem Collaborators.onlyLook_standard (root : String) (settings : Settings) :
    (Collaborators.standard root settings).OnlyLook where
  loadConfig := fun s =>
    (CompilerConfig.steady_load settings.installedDirectory settings.configFiles root s).keeps
      (SameFiles.refl s)
  language := fun config specifier file =>
    (ModuleSearch.Compiler.lenient_resolve _ config specifier file).looks
  runtime := fun specifier file =>
    (ModuleSearch.Runtime.lenient_resolve _ specifier file).looks

namespace Locator

open ProjectRoots (Owns)
open WorkspacePath (ofGiven isRelative)

variable {l : Locator}

-- ============================================================== grounds

/-- A known package is installed under a name for a context: when a call looked
it up, the name led to a path, and the descriptor that was found there, in
files that some call met if the helpers only look, has the name and the
version of the package. -/
inductive Installed (l : Locator) (past : List Asked) (package context : String) :
    String → Prop where
  | intro {a m path d e} (asked : a ∈ past)
      (named : Specifier.packageName a.call.specifier = package)
      (seen : WorkspacePath.normalize a.call.context = context)
      (attempted : Call.Attempts l a .external m)
      (located : l.collaborators.locatePackage m.store package
        (FilePath.clean (FilePath.join l.workspaceRoot context)) = some path)
      (found : (PackageFiles.descriptor? path m.packages.files).1 = some d)
      (read : l.collaborators.OnlyLook →
        ∃ b ∈ past, descriptorAt b.memory.store (FilePath.clean path) = some d)
      (known : e ∈ l.externals) (described : d.nameAndVersion? = some (e.packageName, e.version)) :
      Installed l past package context e.name

/-- What a call that was put to the strategies may have been answered for. -/
inductive Grounds (l : Locator) (past : List Asked) (a : Asked) : String → Prop where
  /-- The path of a relative specifier belongs to a project. -/
  | relative {id} (relative : isRelative a.call.specifier = true)
      (owns : Owns l.projects l.settings.installedDirectory
        (relativeTarget a.call.specifier (ofGiven a.call.file)) id) : Grounds l past a id
  /-- The target of an alias of the configuration in force, which was loaded,
  belongs to a project. -/
  | aliased {m s config target p id} (attempted : Call.Attempts l a .pathMapping m)
      (inForce : (l.compilerConfig? m).1 = some config) (loaded : l.configAt s = some config)
      (declared : target ∈ (config.aliases.expand a.call.specifier).getD [])
      (leads : FilePath.relativeTo? l.workspaceRoot
        (FilePath.clean (FilePath.join config.aliasBase target)) = some p)
      (owns : Owns l.projects l.settings.installedDirectory p id) : Grounds l past a id
  /-- A known package is installed. -/
  | installed {id} (installed : Installed l past (Specifier.packageName a.call.specifier)
      (WorkspacePath.normalize a.call.context) id) : Grounds l past a id
  /-- A project declares the package. -/
  | declared {project} (mem : project ∈ l.projects)
      (declares : project.metadata.packageName
        = some (Specifier.packageName a.call.specifier)) : Grounds l past a project.name
  /-- The file that the compiler's search found belongs to a project. -/
  | language {m s config file p id} (attempted : Call.Attempts l a .languageFallback m)
      (inForce : (l.compilerConfig? m).1 = some config) (loaded : l.configAt s = some config)
      (found : (l.collaborators.language config a.call.specifier
        (FilePath.join l.workspaceRoot (ofGiven a.call.file))
        (l.compilerConfig? m).2.packages.files).1 = .ok file)
      (leads : FilePath.relativeTo? l.workspaceRoot file = some p)
      (owns : Owns l.projects l.settings.installedDirectory p id) : Grounds l past a id
  /-- The file that the runtime's search found belongs to a project. -/
  | runtime {m file p id} (attempted : Call.Attempts l a .runtimeFallback m)
      (found : (l.collaborators.runtime a.call.specifier
        (FilePath.join l.workspaceRoot (ofGiven a.call.file)) m.packages.files).1 = .ok file)
      (leads : FilePath.relativeTo? l.workspaceRoot file = some p)
      (owns : Owns l.projects l.settings.installedDirectory p id) : Grounds l past a id

variable {past past' : List Asked} {a : Asked} {m : Memory} {id : String}

theorem Installed.mono {package context : String} (h : Installed l past package context id)
    (hsub : past ⊆ past') : Installed l past' package context id := by
  cases h with
  | intro asked named seen attempted located found read known described =>
      refine .intro (hsub asked) named seen attempted located found (fun hl => ?_) known described
      obtain ⟨b, hb, hd⟩ := read hl
      exact ⟨b, hsub hb, hd⟩

theorem Grounds.mono (h : Grounds l past a id) (hsub : past ⊆ past') : Grounds l past' a id := by
  cases h with
  | relative relative owns => exact .relative relative owns
  | aliased attempted inForce loaded declared leads owns =>
      exact .aliased attempted inForce loaded declared leads owns
  | installed installed => exact .installed (installed.mono hsub)
  | declared mem declares => exact .declared mem declares
  | language attempted inForce loaded found leads owns =>
      exact .language attempted inForce loaded found leads owns
  | runtime attempted found leads owns => exact .runtime attempted found leads owns

-- ======================================================= what is shared

/-- What calls share is what was found in the course of the calls so far. -/
structure Remembers (l : Locator) (past : List Asked) (m : Memory) : Prop where
  packages : ∀ package context id,
    m.packages.answers.peek? (package, context) = some (some id) →
      Installed l past package context id
  config : ∀ config, m.config = some (some config) → ∃ s, l.configAt s = some config
  descriptors : l.collaborators.OnlyLook → ∀ path d,
    m.packages.files.descriptors.peek? path = some (some d) →
      ∃ b ∈ past, descriptorAt b.memory.store path = some d

theorem remembers_ofStore (l : Locator) (s : FileStore) : Remembers l [] (.ofStore s) := by
  constructor
  · intro package context id h
    cases h
  · intro config h
    cases h
  · intro _ path d h
    cases h

theorem Remembers.mono (h : Remembers l past m) (hsub : past ⊆ past') : Remembers l past' m where
  packages := fun package context id hk => (h.packages package context id hk).mono hsub
  config := h.config
  descriptors := by
    intro hl path d hk
    obtain ⟨b, hb, hd⟩ := h.descriptors hl path d hk
    exact ⟨b, hsub hb, hd⟩

/-- In the midst of a call, what is shared is as before, and the files are those
that the call met if the helpers only look. -/
structure Midway (l : Locator) (past : List Asked) (a : Asked) (m : Memory) : Prop where
  remembers : Remembers l past m
  store : l.collaborators.OnlyLook → SameFiles m.store a.memory.store

/-- The configuration that is answered was loaded. -/
theorem Remembers.compilerConfig? (h : Remembers l past m) {config : CompilerConfig}
    (hc : (l.compilerConfig? m).1 = some config) : ∃ s, l.configAt s = some config := by
  cases hk : m.config with
  | some known =>
      rw [compilerConfig?_of_known hk] at hc
      exact h.config config (hk.trans (congrArg some hc))
  | none =>
      rw [compilerConfig?_of_unknown hk] at hc
      exact ⟨m.store, hc⟩

/-- Asking for the configuration brings nothing to mind but that. -/
theorem Remembers.after_compilerConfig? (h : Remembers l past m) :
    Remembers l past (l.compilerConfig? m).2 := by
  cases hk : m.config with
  | some known =>
      rw [compilerConfig?_of_known hk]
      exact h
  | none =>
      rw [compilerConfig?_of_unknown hk]
      refine ⟨h.packages, fun config hc => ?_, h.descriptors⟩
      exact ⟨m.store, Option.some.inj hc⟩

theorem Midway.after_compilerConfig? (h : Midway l past a m) :
    Midway l past a (l.compilerConfig? m).2 := by
  refine ⟨h.remembers.after_compilerConfig?, fun hl => ?_⟩
  cases hk : m.config with
  | some known =>
      rw [compilerConfig?_of_known hk]
      exact h.store hl
  | none =>
      rw [compilerConfig?_of_unknown hk]
      exact (hl.loadConfig m.store).trans (h.store hl)

/-- Looking at the files keeps what is shared, as long as the packages that it
brings to mind are installed. -/
theorem Midway.grown {m' : Memory} (h : Midway l past a m) (ha : a ∈ past)
    (hpackages : ∀ package context id,
      m'.packages.answers.peek? (package, context) = some (some id) →
        Installed l past package context id)
    (hconfig : m'.config = m.config)
    (hfiles : l.collaborators.OnlyLook → m.packages.files.Grown m'.packages.files) :
    Midway l past a m' := by
  refine ⟨⟨hpackages, ?_, fun hl path d hk => ?_⟩, fun hl => (hfiles hl).1.trans (h.store hl)⟩
  · rw [hconfig]
    exact h.remembers.config
  · rcases (hfiles hl).2 path d hk with hk | hd
    · exact h.remembers.descriptors hl path d hk
    · exact ⟨a, ha, by rw [← PackageFiles.descriptorAt_eq (h.store hl)]; exact hd⟩

theorem frame_midway (ha : a ∈ past) : Frame l (Midway l past a) where
  count := fun _ _ h =>
    ⟨⟨h.remembers.packages, h.remembers.config, h.remembers.descriptors⟩, h.store⟩
  config := fun _ h => h.after_compilerConfig?
  language := fun config specifier file _ h =>
    h.grown ha h.remembers.packages rfl fun hl => (hl.language config specifier file).grown _
  runtime := fun specifier file _ h =>
    h.grown ha h.remembers.packages rfl fun hl => (hl.runtime specifier file).grown _

-- ============================================================ attempts

/-- A look-up that is made answers an installed package. -/
theorem Midway.lookUp (h : Midway l past a m) (ha : a ∈ past)
    (hattempts : Call.Attempts l a .external m)
    (hanswer : (l.installedPackages.lookUp (Specifier.packageName a.call.specifier)
      (WorkspacePath.normalize a.call.context) m.packages).1 = some id) :
    Installed l past (Specifier.packageName a.call.specifier)
      (WorkspacePath.normalize a.call.context) id := by
  rw [InstalledPackages.lookUp_run] at hanswer
  cases hlocate : l.installedPackages.locate m.packages.files.store
      (Specifier.packageName a.call.specifier) (FilePath.clean (FilePath.join
        l.installedPackages.workspaceRoot (WorkspacePath.normalize a.call.context))) with
  | none =>
      rw [hlocate] at hanswer
      cases hanswer
  | some path =>
      rw [hlocate] at hanswer
      obtain ⟨d, hd, hdescribed⟩ := Option.bind_eq_some_iff.mp hanswer
      rw [InstalledPackages.described?_eq] at hdescribed
      obtain ⟨⟨name, version⟩, hname, hfind⟩ := Option.bind_eq_some_iff.mp hdescribed
      obtain ⟨e, hexternal, hid⟩ := Option.bind_eq_some_iff.mp hfind
      obtain rfl := Option.some.inj hid
      have hdescribes := List.find?_some hexternal
      simp only [External.describes] at hdescribes
      rw [Bool.and_eq_true, beq_iff_eq, beq_iff_eq] at hdescribes
      obtain ⟨rfl, rfl⟩ := hdescribes
      refine .intro ha rfl rfl hattempts hlocate hd (fun hl => ?_)
        (List.mem_of_find?_eq_some hexternal) hname
      -- the descriptor was remembered, or it is read in the files of this call
      have hspec := (PackageFiles.descriptor?_spec path m.packages.files).2.1
      cases hk : m.packages.files.descriptors.peek? (FilePath.clean path) with
      | some answer =>
          rw [hk, Option.getD_some, hd] at hspec
          exact h.remembers.descriptors hl _ d (by rw [hk, ← hspec])
      | none =>
          rw [hk, Option.getD_none, hd] at hspec
          refine ⟨a, ha, ?_⟩
          rw [← PackageFiles.descriptorAt_eq (h.store hl)]
          exact hspec.symm

/-- What is known of packages is asked for an installed one. -/
theorem Midway.external (h : Midway l past a m) (ha : a ∈ past)
    (hattempts : Call.Attempts l a .external m) :
    (∀ id, (l.installedPackages.resolve a.call.specifier (WorkspacePath.normalize a.call.context)
        m.packages).1 = some id →
      Installed l past (Specifier.packageName a.call.specifier)
        (WorkspacePath.normalize a.call.context) id) ∧
    Midway l past a (l.attempt a.call.specifier (WorkspacePath.normalize a.call.context)
      (ofGiven a.call.file) .external m).2 := by
  have hrun : (l.attempt a.call.specifier (WorkspacePath.normalize a.call.context)
      (ofGiven a.call.file) .external m).2
      = { m with packages := (l.installedPackages.resolve a.call.specifier
          (WorkspacePath.normalize a.call.context) m.packages).2 } := rfl
  rw [hrun]
  rcases l.installedPackages.resolve_cases a.call.specifier (WorkspacePath.normalize a.call.context)
    m.packages with ⟨answer, hk, hanswer, hfiles, hkept⟩ | ⟨hk, hanswer, hfiles, hkept⟩
  · rw [hanswer]
    refine ⟨fun id hid => h.remembers.packages _ _ id (hk.trans (congrArg some hid)),
      h.grown ha (fun package context id hpackage => ?_) rfl fun _ => ?_⟩
    · rw [hkept] at hpackage
      exact h.remembers.packages package context id hpackage
    · rw [hfiles]
      exact PackageFiles.Grown.refl _
  · rw [hanswer]
    have hlookUp : ∀ id, (l.installedPackages.lookUp (Specifier.packageName a.call.specifier)
        (WorkspacePath.normalize a.call.context) m.packages).1 = some id →
        Installed l past (Specifier.packageName a.call.specifier)
          (WorkspacePath.normalize a.call.context) id :=
      fun id => h.lookUp ha hattempts
    refine ⟨hlookUp, h.grown ha (fun package context id hpackage => ?_) rfl fun _ => ?_⟩
    · rw [hkept] at hpackage
      rcases Memo.kept_or_new hpackage with hearlier | ⟨-, hkey, hnew⟩
      · exact h.remembers.packages package context id hearlier
      · obtain ⟨rfl, rfl⟩ := Prod.mk.inj hkey
        exact hlookUp id hnew
    · rw [hfiles]
      exact l.installedPackages.grown_lookUp ..

/-- Whatever strategy is attempted, what is shared stays what was found. -/
theorem Midway.attempt {strategy : Strategy} (h : Midway l past a m) (ha : a ∈ past)
    (hattempts : Call.Attempts l a strategy m) :
    Midway l past a (l.attempt a.call.specifier (WorkspacePath.normalize a.call.context)
      (ofGiven a.call.file) strategy m).2 := by
  by_cases hne : strategy = .external
  · subst hne
    exact (h.external ha hattempts).2
  · exact (frame_midway ha).attempt_of_ne _ _ _ hne m h

/-- The project of a file owns the path to it. -/
theorem owns_of_projectOfFile? {path : String} (h : l.projectOfFile? path = some id) :
    ∃ p, FilePath.relativeTo? l.workspaceRoot path = some p ∧
      Owns l.projects l.settings.installedDirectory p id := by
  obtain ⟨p, hp, howner⟩ := Option.bind_eq_some_iff.mp h
  rw [l.roots_eq, ProjectRoots.projectOf?_iff, (FilePath.isNormal_relativeTo? hp).ofGiven_eq]
    at howner
  exact ⟨p, hp, howner⟩

/-- A file that a search has found is treated like any other: that it is not
installed is asked twice. -/
theorem projectOfFound?_eq (l : Locator) (path : String) :
    l.projectOfFound? path = l.projectOfFile? path := by
  unfold projectOfFound? projectOfFile?
  refine Option.bind_congr fun p hp => ?_
  by_cases hinstalled : l.isInstalled p = true
  · rw [if_pos hinstalled]
    exact (projectOf?_of_isInstalled (FilePath.isNormal_relativeTo? hp) hinstalled).symm
  · rw [if_neg hinstalled]

theorem eq_some_of_ofOption {found : Option String} (h : Attempt.ofOption found = .resolved id) :
    found = some id := by
  cases found with
  | none => cases h
  | some id' => exact congrArg some (Attempt.resolved.inj h)

/-- A fallback search resolves to the project of the file that it finds. -/
theorem file_of_tryModuleSearch {resolver : ModuleResolver} {specifier file : String}
    (h : (l.tryModuleSearch resolver specifier file m).1 = .resolved id) :
    ∃ path, (resolver specifier (FilePath.join l.workspaceRoot file) m.packages.files).1
        = .ok path ∧ l.projectOfFile? path = some id := by
  simp only [tryModuleSearch, run_bind, run_onFiles] at h
  cases hfound : (resolver specifier (FilePath.join l.workspaceRoot file) m.packages.files).1 with
  | ok path =>
      rw [hfound] at h
      exact ⟨path, rfl, (l.projectOfFound?_eq path).symm.trans (eq_some_of_ofOption h)⟩
  | error fault =>
      rw [hfound] at h
      cases h

/-- A relative specifier resolves to the project that owns its path. -/
theorem owns_of_tryRelative {specifier file : String}
    (h : l.tryRelative specifier file = .resolved id) :
    isRelative specifier = true ∧
      Owns l.projects l.settings.installedDirectory (relativeTarget specifier file) id := by
  cases hrelative : isRelative specifier with
  | false =>
      rw [tryRelative, if_neg (by rw [hrelative]; exact Bool.false_ne_true)] at h
      cases h
  | true =>
      rw [tryRelative_of_relative hrelative] at h
      cases howner : l.roots.projectOf? (relativeTarget specifier file) with
      | none =>
          rw [howner] at h
          cases h
      | some project =>
          rw [howner] at h
          obtain rfl := Attempt.resolved.inj h
          rw [l.roots_eq, ProjectRoots.projectOf?_iff, relativeTarget,
            (WorkspacePath.isNormal_join _ _).ofGiven_eq] at howner
          exact ⟨rfl, howner⟩

/-- An alias resolves to the project of one of its targets. -/
theorem target_of_tryAliases {specifier : String}
    (h : (l.tryAliases specifier m).1 = .resolved id) :
    ∃ config target, (l.compilerConfig? m).1 = some config ∧
      target ∈ (config.aliases.expand specifier).getD [] ∧
      l.projectOfFile? (FilePath.clean (FilePath.join config.aliasBase target)) = some id := by
  simp only [tryAliases, run_bind] at h
  cases hconfig : (l.compilerConfig? m).1 with
  | none =>
      rw [hconfig] at h
      cases h
  | some config =>
      rw [hconfig] at h
      obtain ⟨target, htarget, hproject⟩ := List.exists_of_findSome?_eq_some (eq_some_of_ofOption h)
      exact ⟨config, target, rfl, htarget, hproject⟩

/-- The compiler's search resolves to the project of the file that it finds. -/
theorem file_of_tryLanguage {specifier file : String}
    (h : (l.tryLanguage specifier file m).1 = .resolved id) :
    ∃ config path, (l.compilerConfig? m).1 = some config ∧
      (l.collaborators.language config specifier (FilePath.join l.workspaceRoot file)
        (l.compilerConfig? m).2.packages.files).1 = .ok path ∧
      l.projectOfFile? path = some id := by
  unfold tryLanguage at h
  split at h
  · rw [run_bind] at h
    cases hconfig : (l.compilerConfig? m).1 with
    | none =>
        rw [hconfig] at h
        cases h
    | some config =>
        rw [hconfig] at h
        simp only at h
        split at h
        · obtain ⟨path, hpath, hproject⟩ := file_of_tryModuleSearch
            (m := { (l.compilerConfig? m).2 with
              calls.language := (l.compilerConfig? m).2.calls.language + 1 }) h
          exact ⟨config, path, rfl, hpath, hproject⟩
        · cases h
  · cases h

/-- The runtime's search resolves to the project of the file that it finds. -/
theorem file_of_tryRuntime {specifier file : String}
    (h : (l.tryRuntime specifier file m).1 = .resolved id) :
    ∃ path, (l.collaborators.runtime specifier (FilePath.join l.workspaceRoot file)
        m.packages.files).1 = .ok path ∧ l.projectOfFile? path = some id := by
  unfold tryRuntime at h
  split at h
  · exact file_of_tryModuleSearch (m := { m with calls.runtime := m.calls.runtime + 1 }) h
  · cases h

/-- An attempt that resolves has grounds. -/
theorem Midway.grounds {strategy : Strategy} (h : Midway l past a m) (ha : a ∈ past)
    (hattempts : Call.Attempts l a strategy m)
    (hresolved : (l.attempt a.call.specifier (WorkspacePath.normalize a.call.context)
      (ofGiven a.call.file) strategy m).1 = .resolved id) : Grounds l past a id := by
  cases strategy with
  | relative =>
      have htried : l.tryRelative a.call.specifier (ofGiven a.call.file) = .resolved id := hresolved
      obtain ⟨hrelative, howns⟩ := owns_of_tryRelative htried
      exact .relative hrelative howns
  | pathMapping =>
      obtain ⟨config, target, hconfig, htarget, hproject⟩ := target_of_tryAliases hresolved
      obtain ⟨s, hs⟩ := h.remembers.compilerConfig? hconfig
      obtain ⟨p, hp, howns⟩ := owns_of_projectOfFile? hproject
      exact .aliased hattempts hconfig hs htarget hp howns
  | builtin =>
      have htried : l.tryBuiltins a.call.specifier = .resolved id := hresolved
      unfold tryBuiltins at htried
      split at htried <;> cases htried
  | external => exact .installed ((h.external ha hattempts).1 id (eq_some_of_ofOption hresolved))
  | languageFallback =>
      obtain ⟨config, file, hconfig, hfile, hproject⟩ := file_of_tryLanguage hresolved
      obtain ⟨s, hs⟩ := h.remembers.compilerConfig? hconfig
      obtain ⟨p, hp, howns⟩ := owns_of_projectOfFile? hproject
      exact .language hattempts hconfig hs hfile hp howns
  | workspacePackage =>
      obtain ⟨project, hproject, rfl⟩ :=
        Option.map_eq_some_iff.mp (eq_some_of_ofOption hresolved)
      have hdeclares := List.find?_some hproject
      exact .declared (List.mem_of_find?_eq_some hproject) (beq_iff_eq.mp hdeclares)
  | runtimeFallback =>
      obtain ⟨file, hfile, hproject⟩ := file_of_tryRuntime hresolved
      obtain ⟨p, hp, howns⟩ := owns_of_projectOfFile? hproject
      exact .runtime hattempts hfile hp howns

-- =========================================================== histories

/-- What a locator remembers is what was found in the course of its history, and
each answer has grounds in a call of its slot. -/
structure Sound (l : Locator) (past : List Asked) (m : Memory) : Prop where
  remembers : Remembers l past m
  answers : ∀ slot id, m.answers.peek? slot = some (some id) →
    ∃ a ∈ past, a.call.slot = slot ∧ Grounds l past a id

/-- A call that finds no answer in memory has grounds for the node that it
answers, and keeps what is shared. -/
theorem Sound.outcome (h : Sound l past m) (c : Call) :
    (∀ id, (l.outcome c (m.asked c)).1.1 = some id → Grounds l (past ++ [⟨c, m⟩]) ⟨c, m⟩ id) ∧
      Remembers l (past ++ [⟨c, m⟩]) (l.outcome c (m.asked c)).2 := by
  have ha : (⟨c, m⟩ : Asked) ∈ past ++ [⟨c, m⟩] := by simp
  have hr := h.remembers.mono (List.subset_append_left past [⟨c, m⟩])
  have hstart : Midway l (past ++ [⟨c, m⟩]) ⟨c, m⟩ (m.asked c) :=
    ⟨⟨hr.packages, hr.config, hr.descriptors⟩, fun _ => SameFiles.refl _⟩
  obtain ⟨hattempts, hend⟩ := Attempts.invariant
    (fun strategy m' hatt hm => Midway.attempt hm ha hatt) hstart
  refine ⟨fun id hid => ?_, hend.remembers⟩
  obtain ⟨strategy, m', hatt, hresolved⟩ := exists_attempt_of_some hid
  exact (hattempts strategy m' hatt).grounds ha hatt hresolved

/-- A call answers and remembers what has grounds. -/
theorem Sound.resolveCall (h : Sound l past m) (c : Call) :
    Sound l (past ++ [⟨c, m⟩]) (l.resolveCall c m).2 ∧
      ∀ id, (l.resolveCall c m).1.result = some id →
        ∃ a ∈ past ++ [⟨c, m⟩], a.call.slot = c.slot ∧ Grounds l (past ++ [⟨c, m⟩]) a id := by
  have hsub : past ⊆ past ++ [⟨c, m⟩] := List.subset_append_left ..
  have hr := h.remembers.mono hsub
  have hanswers : ∀ slot id, m.answers.peek? slot = some (some id) →
      ∃ a ∈ past ++ [⟨c, m⟩], a.call.slot = slot ∧ Grounds l (past ++ [⟨c, m⟩]) a id := by
    intro slot id hk
    obtain ⟨a, ha, hslot, hgrounds⟩ := h.answers slot id hk
    exact ⟨a, hsub ha, hslot, hgrounds.mono hsub⟩
  cases hk : m.answers.peek? c.slot with
  | some answer =>
      rw [resolveCall_of_known hk]
      refine ⟨⟨⟨hr.packages, hr.config, hr.descriptors⟩, fun slot id hslot => ?_⟩, fun id hid => ?_⟩
      · rw [Memory.asked, Memo.peek?_get?] at hslot
        exact hanswers slot id hslot
      · exact hanswers c.slot id (hk.trans (congrArg some hid))
  | none =>
      obtain ⟨hresult, answers, hmemory, hkept⟩ := resolveCall_of_unknown (l := l) hk
      obtain ⟨hgrounds, hremembers⟩ := h.outcome c
      have hself : ∀ id, (l.outcome c (m.asked c)).1.1 = some id →
          ∃ a ∈ past ++ [⟨c, m⟩], a.call.slot = c.slot ∧ Grounds l (past ++ [⟨c, m⟩]) a id :=
        fun id hid => ⟨⟨c, m⟩, by simp, rfl, hgrounds id hid⟩
      rw [hresult, hmemory]
      refine ⟨⟨⟨hremembers.packages, hremembers.config, hremembers.descriptors⟩,
        fun slot id hslot => ?_⟩, hself⟩
      rw [hkept] at hslot
      rcases Memo.kept_or_new hslot with hearlier | ⟨-, rfl, hnew⟩
      · exact hanswers slot id hearlier
      · exact hself id hnew

/-- Throughout its history a locator remembers what has grounds. -/
theorem History.sound (h : History l past m) : Sound l past m := by
  induction h with
  | start s =>
      refine ⟨remembers_ofStore l s, fun slot id hk => ?_⟩
      cases hk
  | call h c ih => exact (ih.resolveCall c).1
  | @expand past m h specifier ih =>
      have hrun : (l.expandAliases specifier m).2 = (l.compilerConfig? m).2 := rfl
      rw [hrun]
      refine ⟨ih.remembers.after_compilerConfig?, ?_⟩
      rw [compilerConfig?_answers]
      exact ih.answers
  | files h s ih =>
      exact ⟨⟨ih.remembers.packages, ih.remembers.config, ih.remembers.descriptors⟩, ih.answers⟩

/-- All that is answered and all that is remembered has grounds: a node that is
remembered was found for a call of the slot that remembers it, a known package
that is remembered is installed, and a node that is answered was found for
this call or an earlier one that asked for the same thing. -/
theorem answers_grounded (h : History l past m) :
    (∀ slot id, m.answers.peek? slot = some (some id) →
      ∃ a ∈ past, a.call.slot = slot ∧ Grounds l past a id) ∧
    (∀ package context id, m.packages.answers.peek? (package, context) = some (some id) →
      Installed l past package context id) ∧
    ∀ c id, (l.resolveCall c m).1.result = some id →
      ∃ a ∈ past ++ [⟨c, m⟩], a.call.Agrees c ∧ Grounds l (past ++ [⟨c, m⟩]) a id := by
  have hs := h.sound
  refine ⟨hs.answers, hs.remembers.packages, fun c id hid => ?_⟩
  obtain ⟨a, ha, hslot, hgrounds⟩ := (hs.resolveCall c).2 id hid
  exact ⟨a, ha, Call.agrees_of_slot_eq hslot, hgrounds⟩

/-- A new locator answers a relative import, and the answer has grounds. -/
theorem answers_grounded_relative :
    let l := ofGraph "/ws" .standard ⟨[.ofRoot "shared" "libs/shared" none], []⟩
    let c : Call := ⟨"../shared/x", "libs/app", "libs/app/y.ts"⟩
    (l.resolveCall c (.ofStore .empty)).1.result = some "shared" ∧
      ∃ a ∈ [(⟨c, .ofStore .empty⟩ : Asked)], a.call.Agrees c ∧
        Grounds l [⟨c, .ofStore .empty⟩] a "shared" := by
  intro l c
  have hresult : (l.resolveCall c (.ofStore .empty)).1.result = some "shared" := by
    decide +kernel
  exact ⟨hresult, (answers_grounded (.start .empty)).2.2 c "shared" hresult⟩

end Locator

end ImportResolution
