/-
What a locator makes of files and helpers that fail. A package descriptor that
cannot be understood is to all strategies a descriptor that says nothing, and
a configuration that cannot be loaded is no configuration: if the one is put in
the place of the other, the locator replies to everything as before
(`replies_recover`).

# The two runs

A run with the failure and a run without it are followed side by side. They
remember different descriptors, so their memories are not the same; but each
remembers what its own files say (`Memory.Over`), all work of a strategy has
one answer over both (`SeesAlike.agree_attempt`), and so the answers that they
remember stay the same (`Abreast`, kept by each reply).
-/
import ImportResolution.Proofs.CompilerConfig.Reading
import ImportResolution.Proofs.Locator.Recall

namespace ImportResolution

open FileStore (SameFiles)
open PackageFiles (Matched Over descriptorAt)

/-- A descriptor that says nothing describes no package. -/
theorem InstalledPackages.described?_blank (p : InstalledPackages) : p.described? .blank = none :=
  rfl

/-- The same packages are installed where the stores match, if they are located by
what files there are. -/
theorem InstalledPackages.installedAt_of_matched {p : InstalledPackages} {s t : FileStore}
    (h : Matched s t) (hlocate : p.locate s = p.locate t) : p.installedAt s = p.installedAt t := by
  have hdescribed (u : FileStore) (path : String) :
      (descriptorAt u path).bind p.described?
        = p.described? ((descriptorAt u path).getD .blank) := by
    cases descriptorAt u path with
    | none => exact p.described?_blank.symm
    | some d => rfl
  funext package context
  unfold installedAt
  simp only [hlocate, hdescribed, h.descriptors]

namespace Locator

variable {l : Locator} {c : Collaborators} {s t : FileStore}

-- ============================================================= requests

/-- What a locator is asked: to resolve a specifier or to expand it. -/
inductive Request where
  | call (c : Call)
  | expand (specifier : String)
deriving DecidableEq, Repr

/-- What it replies: a result with its source, or the targets of an alias. -/
inductive Reply where
  | resolution (r : Resolution)
  | targets (targets : Option (List String))
deriving DecidableEq, Repr

/-- The reply to a request. -/
def reply (l : Locator) : Request → Step Reply
  | .call c => return .resolution (← l.resolveCall c)
  | .expand specifier => return .targets (← l.expandAliases specifier)

/-- The replies to some requests, one after the other. -/
def replies (l : Locator) : List Request → Step (List Reply)
  | [] => return []
  | request :: rest => do
    let first ← l.reply request
    let others ← l.replies rest
    return first :: others

-- ============================================================== helpers

theorem withHelpers_tryRelative (l : Locator) (c : Collaborators) (specifier file : String) :
    (l.withHelpers c).tryRelative specifier file = l.tryRelative specifier file := by
  have hinstalled : (l.withHelpers c).isInstalled = l.isInstalled := rfl
  have hroots : (l.withHelpers c).roots = l.roots := rfl
  unfold tryRelative
  rw [hinstalled, hroots]

/-- The locator with another way to load the configuration. -/
def withLoader (l : Locator) (loadConfig : Reading (Option CompilerConfig)) : Locator :=
  l.withHelpers { l.collaborators with loadConfig }

/-- With other helpers, over the files of `t`, the locator sees what it sees with its
own over those of `s`. -/
structure SeesAlike (l : Locator) (c : Collaborators) (s t : FileStore) : Prop where
  functional : l.collaborators.Functional
  functional' : c.Functional
  config : l.configAt s = (l.withHelpers c).configAt t
  installed : l.installedPackages.installedAt s
    = (l.withHelpers c).installedPackages.installedAt t
  language : ∀ config specifier file, Agree (Over s) (Over t)
    (l.collaborators.language config specifier file) (c.language config specifier file)
  runtime : ∀ specifier file, Agree (Over s) (Over t)
    (l.collaborators.runtime specifier file) (c.runtime specifier file)

namespace SeesAlike

variable (h : SeesAlike l c s t)

include h

-- ============================================================= attempts

theorem agree_compilerConfig? :
    Agree (Memory.Over l s) (Memory.Over (l.withHelpers c) t) l.compilerConfig?
      (l.withHelpers c).compilerConfig? := by
  refine ⟨l.configAt s, answers_compilerConfig? h.functional, ?_⟩
  rw [h.config]
  exact answers_compilerConfig? h.functional'

omit h in
theorem agree_count (count : Calls → Calls) :
    Agree (Memory.Over l s) (Memory.Over (l.withHelpers c) t)
      (modify fun m : Memory => { m with calls := count m.calls })
      (modify fun m : Memory => { m with calls := count m.calls }) :=
  ⟨⟨⟩, answers_count count, answers_count count⟩

omit h in
/-- Two searches that find one file lead to one project. -/
theorem agree_tryModuleSearch {resolver resolver' : ModuleResolver} (specifier file : String)
    (h : ∀ file, Agree (Over s) (Over t) (resolver specifier file) (resolver' specifier file)) :
    Agree (Memory.Over l s) (Memory.Over (l.withHelpers c) t)
      (l.tryModuleSearch resolver specifier file)
      ((l.withHelpers c).tryModuleSearch resolver' specifier file) := by
  obtain ⟨a, ha, ha'⟩ := h (FilePath.join l.workspaceRoot file)
  refine Agree.bind ⟨a, answers_onFiles ha, answers_onFiles ha'⟩ fun answer => ?_
  cases answer with
  | ok path => exact Agree.pure _
  | error fault => exact Agree.pure _

theorem agree_tryAliases (specifier : String) :
    Agree (Memory.Over l s) (Memory.Over (l.withHelpers c) t) (l.tryAliases specifier)
      ((l.withHelpers c).tryAliases specifier) := by
  refine Agree.bind h.agree_compilerConfig? fun config => ?_
  cases config with
  | none => exact Agree.pure _
  | some config => exact Agree.pure _

theorem agree_tryLanguage (specifier file : String) :
    Agree (Memory.Over l s) (Memory.Over (l.withHelpers c) t) (l.tryLanguage specifier file)
      ((l.withHelpers c).tryLanguage specifier file) := by
  unfold tryLanguage
  show Agree _ _ (if l.settings.languageFallback then _ else _)
    (if l.settings.languageFallback then _ else _)
  split
  · refine Agree.bind h.agree_compilerConfig? fun config => ?_
    cases config with
    | none => exact Agree.pure _
    | some config =>
        simp only
        split
        · refine Agree.bind (agree_count fun calls => { calls with language := calls.language + 1 })
            fun _ => ?_
          exact agree_tryModuleSearch specifier file (h.language config specifier)
        · exact Agree.pure _
  · exact Agree.pure _

theorem agree_tryRuntime (specifier file : String) :
    Agree (Memory.Over l s) (Memory.Over (l.withHelpers c) t) (l.tryRuntime specifier file)
      ((l.withHelpers c).tryRuntime specifier file) := by
  unfold tryRuntime
  show Agree _ _ (if l.settings.runtimeFallback then _ else _)
    (if l.settings.runtimeFallback then _ else _)
  split
  · refine Agree.bind (agree_count fun calls => { calls with runtime := calls.runtime + 1 })
      fun _ => ?_
    exact agree_tryModuleSearch specifier file (h.runtime specifier)
  · exact Agree.pure _

theorem agree_resolve (specifier context : String) :
    Agree (Memory.Over l s) (Memory.Over (l.withHelpers c) t)
      (onPackages (l.installedPackages.resolve specifier context))
      (onPackages ((l.withHelpers c).installedPackages.resolve specifier context)) := by
  refine ⟨l.installedPackages.installedAt s (Specifier.packageName specifier) context,
    answers_onPackages (InstalledPackages.answers_resolve
      (fun _ hu => h.functional.locatePackage hu) specifier context), ?_⟩
  rw [h.installed]
  exact answers_onPackages (InstalledPackages.answers_resolve
    (fun _ hu => h.functional'.locatePackage hu) specifier context)

/-- What a strategy says is the same. -/
theorem agree_attempt (specifier context file : String) (strategy : Strategy) :
    Agree (Memory.Over l s) (Memory.Over (l.withHelpers c) t)
      (l.attempt specifier context file strategy)
      ((l.withHelpers c).attempt specifier context file strategy) := by
  cases strategy with
  | relative =>
      simp only [attempt, withHelpers_tryRelative]
      exact Agree.pure (l.tryRelative specifier file)
  | pathMapping => exact h.agree_tryAliases specifier
  | builtin => exact Agree.pure _
  | external => exact Agree.bind (h.agree_resolve specifier context) fun _ => Agree.pure _
  | languageFallback => exact h.agree_tryLanguage specifier file
  | workspacePackage => exact Agree.pure _
  | runtimeFallback => exact h.agree_tryRuntime specifier file

theorem agree_tryStrategies (specifier context file : String) (strategies : List Strategy) :
    Agree (Memory.Over l s) (Memory.Over (l.withHelpers c) t)
      (l.tryStrategies specifier context file strategies)
      ((l.withHelpers c).tryStrategies specifier context file strategies) := by
  induction strategies with
  | nil => exact Agree.pure _
  | cons strategy rest ih =>
      refine Agree.bind (h.agree_attempt specifier context file strategy) fun attempt => ?_
      cases attempt with
      | resolved id => exact Agree.pure _
      | rejected => exact Agree.pure _
      | skipped => exact ih

end SeesAlike

-- ========================================================== side by side

/-- Each run remembers what its own files say, and both have given the same
answers. -/
structure Abreast (l : Locator) (c : Collaborators) (s t : FileStore) (m m' : Memory) : Prop where
  shared : Memory.Over l s m
  shared' : Memory.Over (l.withHelpers c) t m'
  answers : ∀ slot, m.answers.peek? slot = m'.answers.peek? slot

theorem abreast_ofStore (l : Locator) (c : Collaborators) (s t : FileStore) :
    Abreast l c s t (.ofStore s) (.ofStore t) :=
  ⟨over_ofStore l s, over_ofStore _ t, fun _ => rfl⟩

namespace Abreast

variable {m m' : Memory}

/-- A call gets the same result from the same source. -/
theorem resolveCall (h : SeesAlike l c s t) (hm : Abreast l c s t m m') (call : Call) :
    (l.resolveCall call m).1 = ((l.withHelpers c).resolveCall call m').1 ∧
      Abreast l c s t (l.resolveCall call m).2 ((l.withHelpers c).resolveCall call m').2 := by
  have hasked : Memory.Over l s (m.asked call) := hm.shared.congr rfl rfl
  have hasked' : Memory.Over (l.withHelpers c) t (m'.asked call) := hm.shared'.congr rfl rfl
  have hslot := hm.answers call.slot
  cases hk : m.answers.peek? call.slot with
  | some answer =>
      have hk' := hslot.symm.trans hk
      rw [resolveCall_of_known hk, resolveCall_of_known hk']
      refine ⟨rfl, hasked, hasked', fun slot => ?_⟩
      rw [Memory.asked, Memory.asked, Memo.peek?_get?, Memo.peek?_get?]
      exact hm.answers slot
  | none =>
      have hk' := hslot.symm.trans hk
      have houtcome : Agree (Memory.Over l s) (Memory.Over (l.withHelpers c) t) (l.outcome call)
          ((l.withHelpers c).outcome call) := h.agree_tryStrategies ..
      have hanswer := houtcome.answer_eq hasked hasked'
      obtain ⟨hover, hover'⟩ := houtcome.keeps hasked hasked'
      obtain ⟨-, answers, hmemory, hkept⟩ := resolveCall_of_unknown (l := l) hk
      obtain ⟨-, answers', hmemory', hkept'⟩ := resolveCall_of_unknown (l := l.withHelpers c) hk'
      refine ⟨?_, ?_⟩
      · rw [resolveCall_fst_of_unknown hk, resolveCall_fst_of_unknown hk', hanswer]
      · rw [hmemory, hmemory']
        refine ⟨hover.congr rfl rfl, hover'.congr rfl rfl, fun slot => ?_⟩
        show answers.peek? slot = answers'.peek? slot
        rw [hkept, hkept', hanswer, hm.answers]

/-- A specifier is expanded to the same targets. -/
theorem expandAliases (h : SeesAlike l c s t) (hm : Abreast l c s t m m') (specifier : String) :
    (l.expandAliases specifier m).1 = ((l.withHelpers c).expandAliases specifier m').1 ∧
      Abreast l c s t (l.expandAliases specifier m).2
        ((l.withHelpers c).expandAliases specifier m').2 := by
  have hagree : Agree (Memory.Over l s) (Memory.Over (l.withHelpers c) t)
      (l.expandAliases specifier) ((l.withHelpers c).expandAliases specifier) :=
    h.agree_compilerConfig?.bind fun _ => Agree.pure _
  obtain ⟨hover, hover'⟩ := hagree.keeps hm.shared hm.shared'
  refine ⟨hagree.answer_eq hm.shared hm.shared', hover, hover', fun slot => ?_⟩
  show (l.compilerConfig? m).2.answers.peek? slot
    = ((l.withHelpers c).compilerConfig? m').2.answers.peek? slot
  rw [compilerConfig?_answers, compilerConfig?_answers, hm.answers]

/-- A request gets the same reply. -/
theorem reply (h : SeesAlike l c s t) (hm : Abreast l c s t m m') (request : Request) :
    (l.reply request m).1 = ((l.withHelpers c).reply request m').1 ∧
      Abreast l c s t (l.reply request m).2 ((l.withHelpers c).reply request m').2 := by
  cases request with
  | call call =>
      obtain ⟨hanswer, hnext⟩ := hm.resolveCall h call
      exact ⟨congrArg Reply.resolution hanswer, hnext⟩
  | expand specifier =>
      obtain ⟨hanswer, hnext⟩ := hm.expandAliases h specifier
      exact ⟨congrArg Reply.targets hanswer, hnext⟩

/-- Any number of requests get the same replies. -/
theorem replies (h : SeesAlike l c s t) (hm : Abreast l c s t m m') (requests : List Request) :
    (l.replies requests m).1 = ((l.withHelpers c).replies requests m').1 := by
  induction requests generalizing m m' with
  | nil => rfl
  | cons request rest ih =>
      obtain ⟨hfirst, hnext⟩ := hm.reply h request
      show (l.reply request m).1 :: (l.replies rest (l.reply request m).2).1 = _
      rw [hfirst, ih hnext]
      rfl

end Abreast

-- ============================================================= failures

/-- With the usual helpers a locator sees alike where descriptors that cannot be
understood are emptied, unless they are read as configurations. -/
theorem seesAlike_emptied {root : String} {settings : Settings} {graph : WorkspaceGraph}
    {paths : List String} (descriptors : ∀ path ∈ paths, descriptorAt s path = none)
    (configs : ∀ path ∈ paths, ¬ CompilerConfig.ReadFor settings.installedDirectory
      settings.configFiles (FilePath.clean root) s path) :
    SeesAlike (ofGraph root settings graph) (.standard (FilePath.clean root) settings) s
      (s.emptied paths) where
  functional := Collaborators.functional_standard _ settings
  functional' := Collaborators.functional_standard _ settings
  config := by
    rw [configAt_eq, configAt_eq]
    exact congrArg (·.toOption.join) (CompilerConfig.load_emptied configs).symm
  installed := by
    have hmatched := PackageFiles.matched_emptied descriptors
    refine InstalledPackages.installedAt_of_matched hmatched ?_
    funext package dir
    show InstalledPackages.nearestDescriptor? _ s package dir
      = InstalledPackages.nearestDescriptor? _ (s.emptied paths) package dir
    unfold InstalledPackages.nearestDescriptor?
    rw [hmatched.places.1]
  language := fun config specifier file =>
    (ModuleSearch.Compiler.lenient_resolve _ config specifier file).agree
      (PackageFiles.matched_emptied descriptors)
  runtime := fun specifier file =>
    (ModuleSearch.Runtime.lenient_resolve _ specifier file).agree
      (PackageFiles.matched_emptied descriptors)

/-- A locator sees alike if its loader, which fails, is replaced by one that reports
no configuration. -/
theorem seesAlike_withLoader {loadConfig : Reading (Option CompilerConfig)} {fault : Fault}
    (hl : l.collaborators.Functional) (hload : ∀ u, Steady (SameFiles · u) loadConfig)
    (fails : (l.collaborators.loadConfig s).1 = .error fault)
    (reports : (loadConfig s).1 = .ok none) :
    SeesAlike l { l.collaborators with loadConfig } s s where
  functional := hl
  functional' := ⟨hload, hl.locatePackage, hl.language, hl.runtime⟩
  config := by
    rw [configAt_eq, configAt_eq, fails]
    exact congrArg (·.toOption.join) reports.symm
  installed := rfl
  language := fun config specifier file => (hl.language s config specifier file).agree
  runtime := fun specifier file => (hl.runtime s specifier file).agree

-- ========================================== a loader that does not fail

/-- The locator with a loader that reports no configuration where its own fails, and
does the same to the files. -/
def recovered (l : Locator) : Locator :=
  l.withLoader fun s => match l.collaborators.loadConfig s with
    | (.ok config, s) => (.ok config, s)
    | (.error _, s) => (.ok none, s)

theorem recovered_configAt (l : Locator) (s : FileStore) :
    l.recovered.configAt s = l.configAt s ∧
      (l.recovered.collaborators.loadConfig s).2 = (l.collaborators.loadConfig s).2 := by
  rw [configAt_eq, configAt_eq]
  simp only [recovered, withLoader, withHelpers]
  cases l.collaborators.loadConfig s with
  | mk answer s' =>
      cases answer with
      | ok config => exact ⟨rfl, rfl⟩
      | error fault => exact ⟨rfl, rfl⟩

theorem recovered_compilerConfig? (l : Locator) :
    l.recovered.compilerConfig? = l.compilerConfig? := by
  funext m
  obtain ⟨hconfig, hstore⟩ := l.recovered_configAt m.store
  cases hk : m.config with
  | some known => rw [compilerConfig?_of_known hk, compilerConfig?_of_known hk]
  | none => rw [compilerConfig?_of_unknown hk, compilerConfig?_of_unknown hk, hconfig, hstore]

theorem recovered_attempt (l : Locator) : l.recovered.attempt = l.attempt := by
  funext specifier context file strategy
  cases strategy with
  | relative => simp only [attempt, recovered, withLoader, withHelpers_tryRelative]
  | pathMapping =>
      simp only [attempt, tryAliases, recovered_compilerConfig?]
      rfl
  | builtin => rfl
  | external => rfl
  | languageFallback =>
      simp only [attempt, tryLanguage, recovered_compilerConfig?]
      rfl
  | workspacePackage => rfl
  | runtimeFallback => rfl

theorem recovered_tryStrategies (l : Locator) (specifier context file : String)
    (strategies : List Strategy) :
    l.recovered.tryStrategies specifier context file strategies
      = l.tryStrategies specifier context file strategies := by
  induction strategies with
  | nil => rfl
  | cons strategy rest ih => rw [tryStrategies, tryStrategies, recovered_attempt, ih]

/-- Whether the loader fails or reports no configuration is the same to a
locator. -/
theorem recovered_replies (l : Locator) (requests : List Request) :
    l.recovered.replies requests = l.replies requests := by
  have hreply : l.recovered.reply = l.reply := by
    funext request
    cases request with
    | call c => simp only [reply, resolveCall, resolve, recovered_tryStrategies]
    | expand specifier => simp only [reply, expandAliases, recovered_compilerConfig?]
  induction requests with
  | nil => rfl
  | cons request rest ih => rw [replies, replies, hreply, ih]

-- ============================================================== recovery

/-- Malformed inputs are recovered as empty ones. With the usual helpers a locator
gives the same replies where files that hold no descriptor that could be
understood are emptied, none of them read as a configuration. Whatever its
helpers are, a loader that fails is to it one that reports no configuration; and
if its helpers go by the files alone, it gives the same replies with any other
loader that reports none. -/
theorem replies_recover (s : FileStore) (requests : List Request) :
    (∀ root settings graph (paths : List String),
      (∀ path ∈ paths, descriptorAt s path = none) →
      (∀ path ∈ paths, ¬ CompilerConfig.ReadFor settings.installedDirectory
        settings.configFiles (FilePath.clean root) s path) →
      ((ofGraph root settings graph).replies requests (.ofStore (s.emptied paths))).1
        = ((ofGraph root settings graph).replies requests (.ofStore s)).1) ∧
    (∀ (l : Locator) (m : Memory), l.recovered.replies requests m = l.replies requests m) ∧
    ∀ (l : Locator) loadConfig fault, l.collaborators.Functional →
      (∀ t, Steady (SameFiles · t) loadConfig) →
      (l.collaborators.loadConfig s).1 = .error fault → (loadConfig s).1 = .ok none →
      ((l.withLoader loadConfig).replies requests (.ofStore s)).1
        = (l.replies requests (.ofStore s)).1 := by
  refine ⟨?descriptors, ?recovered, ?loader⟩
  case descriptors =>
    intro root settings graph paths descriptors configs
    exact ((abreast_ofStore ..).replies (seesAlike_emptied descriptors configs) requests).symm
  case recovered =>
    intro l m
    rw [recovered_replies]
  case loader =>
    intro l loadConfig fault hl hload fails reports
    exact ((abreast_ofStore ..).replies (seesAlike_withLoader hl hload fails reports) requests).symm

/-- A workspace with a malformed configuration, and a package with a malformed
descriptor and an index file. -/
def failingFiles : FileStore :=
  .ofFiles [("/ws/tsconfig.json", "\x7b"), ("/ws/libs/shared/package.json", "\x7b"),
    ("/ws/libs/shared/index.js", "")]

/-- The package is found as if its descriptor were empty, and nothing is expanded as
if there were no configuration. -/
theorem replies_recover_failing :
    let l := ofGraph "/ws" .standard ⟨[.ofRoot "shared" "libs/shared" none], []⟩
    let requests : List Request :=
      [.call ⟨"/ws/libs/shared", "apps/app", "apps/app/main.ts"⟩, .expand "@ws/shared"]
    let answers : List Reply :=
      [.resolution ⟨some "shared", .decided .runtimeFallback⟩, .targets none]
    (l.replies requests (.ofStore failingFiles)).1 = answers ∧
      (l.replies requests
        (.ofStore (failingFiles.emptied ["/ws/libs/shared/package.json"]))).1 = answers ∧
      (l.recovered.replies requests (.ofStore failingFiles)).1 = answers := by
  intro l requests answers
  obtain ⟨hdescriptors, hrecovered, hloader⟩ := replies_recover failingFiles requests
  have hfind : failingFiles.findUpwards? Settings.standard.configFiles (FilePath.clean "/ws")
      = some "/ws/tsconfig.json" := by decide +kernel
  have hload : (ConfigFile.load failingFiles (FilePath.clean "/ws/tsconfig.json")).1
      = .error (ConfigFile.malformed "/ws/tsconfig.json") := by decide +kernel
  have hfails : (l.collaborators.loadConfig failingFiles).1
      = .error (ConfigFile.malformed "/ws/tsconfig.json") :=
    CompilerConfig.load_of_unreadable hfind hload
  have hreports : ((l.withLoader fun s => (.ok none, s)).replies requests
      (.ofStore failingFiles)).1 = answers := by decide +kernel
  have hreplies : (l.replies requests (.ofStore failingFiles)).1 = answers := by
    rw [← hloader l (fun s => (.ok none, s)) _ (Collaborators.functional_standard _ _)
      (fun t => Steady.pure (Except.ok none)) hfails rfl]
    exact hreports
  refine ⟨hreplies, ?_, ?_⟩
  · rw [hdescriptors "/ws" .standard _ ["/ws/libs/shared/package.json"] ?malformed ?unread]
    exact hreplies
    case malformed =>
      intro path hpath
      rw [List.mem_singleton.mp hpath]
      decide +kernel
    case unread =>
      intro path hpath hread
      have hclean := CompilerConfig.clean_eq_of_readFor hfind hload hread
      rw [List.mem_singleton.mp hpath] at hclean
      revert hclean
      decide +kernel
  · rw [hrecovered]
    exact hreplies

end Locator

end ImportResolution
