/-
What the command for aliases shows beside what the locator of the same workspace
makes of a specifier. Both expand a specifier through the aliases of the nearest
compiler configuration, but the command looks for it from the root as the root is
spelled, and the locator from the cleaned root. A walk up from a root with a `..`
in it passes directories that do not lie around the workspace, and a configuration
in one of them is shown though no import is ever resolved with it.

The two agree, whatever the files, the settings, the graph and the specifier are,
exactly if the spelled root is direct (`paths_shows_expansion_iff`). All that
matters of the spelling is where the walk goes: what the two find is one file
under two spellings, and the aliases of a file are those of its cleaned path.
-/
import ImportResolution.Proofs.CommandLine.Tasks
import ImportResolution.Proofs.CompilerConfig.Circles
import ImportResolution.Proofs.FilePath.Detours
import ImportResolution.Proofs.Locator.Frame

namespace ImportResolution

open FilePath (Direct ancestors clean components join)
open FileStore (SameFiles)

variable {s : FileStore} {installed path root : String} {names : List String}

-- ======================================================== configurations

namespace CompilerConfig

/-- The nearest file is configured, if there is one. -/
theorem load_fst (installed : String) (names : List String) (root : String) (s : FileStore) :
    (load installed names root s).1
      = match s.findUpwards? names root with
        | none => .ok none
        | some path => (ofFile installed path s).1.map some := by
  rw [load_run]
  cases s.findUpwards? names root with
  | none => rfl
  | some path =>
      show (ExceptT.map some (ofFile installed path) s).1 = _
      simp only [ExceptT.map, ExceptT.mk, bind, StateT.bind]
      cases ofFile installed path s with
      | mk answer s' =>
          cases answer with
          | error fault => rfl
          | ok config => rfl

/-- The aliases of a file are those of its cleaned path. -/
theorem aliases_ofFile (installed path : String) (s : FileStore) :
    (ofFile installed path s).1.map (·.aliases)
      = (inForce installed (clean path) s).1.map fun options =>
          (options.aliases.map Prod.fst).getD .empty := by
  rw [ofFile_fst]
  cases (inForce installed (clean path) s).1 with
  | error fault => rfl
  | ok options => rfl

/-- From a direct root the same aliases are found as from the cleaned root. -/
theorem aliases_load_of_direct (h : Direct root) (installed : String) (names : List String)
    (s : FileStore) :
    (load installed names root s).1.map (Option.map (·.aliases))
      = (load installed names (clean root) s).1.map (Option.map (·.aliases)) := by
  have hsome (path : String) :
      ((ofFile installed path s).1.map some).map (Option.map (·.aliases))
        = ((ofFile installed path s).1.map (·.aliases)).map some := by
    cases (ofFile installed path s).1 with
    | error fault => rfl
    | ok config => rfl
  have hfound := FileStore.findUpwards?_of_direct h s names
  rw [load_fst, load_fst]
  cases hspelled : s.findUpwards? names root with
  | none =>
      rw [hspelled] at hfound
      rw [Option.map_eq_none_iff.mp hfound.symm]
  | some path =>
      rw [hspelled] at hfound
      obtain ⟨path', hcleaned, hpath⟩ := Option.map_eq_some_iff.mp hfound.symm
      simp only [hcleaned, hsome, aliases_ofFile, hpath]

/-- The nearest file is all there is to the configuration if it extends nothing. -/
theorem load_of_aliases {text : String} {table : AliasTable}
    (hfound : s.findUpwards? names root = some path) (hc : s.content? path = some text)
    (hf : ConfigFile.ofText? text = some ⟨none, none, some table⟩) :
    (load installed names root s).1
      = .ok (some ⟨clean path, none, table, directoryOf (clean path)⟩) := by
  have hclean : s.content? (clean path) = some text := by
    rw [FileStore.content?, FilePath.clean_clean]
    exact hc
  have hends : Ends installed s [] (clean path)
      (.ok ⟨none, some (table, directoryOf (clean path))⟩) :=
    ends_of_no_entry rfl (load_of_content hclean hf) rfl
  rw [load_fst, hfound]
  show (ofFile installed path s).1.map some = _
  rw [ofFile_fst, hends.inForce_eq]
  simp only [Except.map, Option.map_some, Option.none_or, Option.getD_some]

end CompilerConfig

namespace CommandLine

-- ============================================================ both sides

/-- What the locator of a workspace makes of a specifier by the aliases. -/
def Workspace.expansion (w : Workspace) (specifier : String) : Task (Option (List String)) := do
  let l ← w.locator
  let (targets, _) ← Workspace.fresh (l.expandAliases specifier)
  return targets

variable {w : Workspace} {specifier : String} {settings : Settings} {file : Option String}
  {graph : WorkspaceGraph}

/-- The command shows the aliases of the configuration that is found from the
spelled root. -/
theorem pathsReport_eq_ok_iff {report : PathsReport} :
    (pathsReport w specifier s).1 = .ok report
      ↔ ∃ settings file config, (w.settings s).1 = .ok (settings, file) ∧
          (CompilerConfig.load settings.installedDirectory settings.configFiles w.root s).1
            = .ok config ∧
          report = ⟨specifier, config.map (·.path), config.bind (·.aliases.expand specifier)⟩ := by
  have hsame : SameFiles (w.settings s).2 s := w.steady_settings.keeps (SameFiles.refl s)
  have hconfig (settings : Settings) :
      (w.compilerConfig settings (w.settings s).2).1 = (w.compilerConfig settings s).1 :=
    (w.steady_compilerConfig settings).answer_eq hsame (SameFiles.refl s)
  unfold pathsReport
  rw [bind_eq_ok_iff]
  constructor
  · rintro ⟨⟨settings, file⟩, hsettings, h⟩
    obtain ⟨config, hload, hreport⟩ := bind_eq_ok_iff.mp h
    rw [hconfig] at hload
    exact ⟨settings, file, config, hsettings, reading_eq_ok_iff.mp hload,
      (Except.ok.inj hreport).symm⟩
  · rintro ⟨settings, file, config, hsettings, hload, rfl⟩
    refine ⟨(settings, file), hsettings, bind_eq_ok_iff.mpr ⟨config, ?_, rfl⟩⟩
    rw [hconfig]
    exact reading_eq_ok_iff.mpr hload

/-- The locator of a workspace with settings and a graph. -/
theorem locator_of_ok (hsettings : (w.settings s).1 = .ok (settings, file))
    (hgraph : (w.loadGraph s).1 = .ok graph) :
    (w.locator s).1 = .ok (.ofGraph w.root settings graph) ∧ SameFiles (w.locator s).2 s := by
  have hsame : SameFiles (w.settings s).2 s := w.steady_settings.keeps (SameFiles.refl s)
  refine ⟨bind_eq_ok_iff.mpr ⟨_, hsettings, bind_eq_ok_iff.mpr ⟨graph, ?_, rfl⟩⟩, ?_⟩
  · rw [w.steady_loadGraph.answer_eq hsame (SameFiles.refl s)]
    exact hgraph
  · have hsteady : Steady (SameFiles · s) w.locator :=
      Steady.bindExcept w.steady_settings fun _ =>
        Steady.bindExcept w.steady_loadGraph fun _ => Steady.pure _
    exact hsteady.keeps (SameFiles.refl s)

/-- The configuration of the locator is the one that is found from the cleaned root,
if it can be used. -/
theorem configAt_ofGraph (root : String) (settings : Settings) (graph : WorkspaceGraph)
    (s : FileStore) :
    (Locator.ofGraph root settings graph).configAt s
      = (CompilerConfig.load settings.installedDirectory settings.configFiles (clean root)
          s).1.toOption.join := by
  have hload : (Locator.ofGraph root settings graph).collaborators.loadConfig
      = CompilerConfig.load settings.installedDirectory settings.configFiles (clean root) := rfl
  rw [Locator.configAt, hload]
  cases (CompilerConfig.load settings.installedDirectory settings.configFiles (clean root) s).1 with
  | error fault => rfl
  | ok config => cases config <;> rfl

/-- The locator uses the aliases of that configuration. -/
theorem expansion_of_ok (hsettings : (w.settings s).1 = .ok (settings, file))
    (hgraph : (w.loadGraph s).1 = .ok graph) (specifier : String) :
    (w.expansion specifier s).1
      = .ok (((Locator.ofGraph w.root settings graph).configAt s).bind
          (·.aliases.expand specifier)) := by
  obtain ⟨hlocator, hsame⟩ := locator_of_ok hsettings hgraph
  have hconfig : (Locator.ofGraph w.root settings graph).configAt (w.locator s).2
      = (Locator.ofGraph w.root settings graph).configAt s := by
    have hload := CompilerConfig.steady_load settings.installedDirectory settings.configFiles
      (clean w.root) s
    rw [configAt_ofGraph, configAt_ofGraph, hload.answer_eq hsame (SameFiles.refl s)]
  refine bind_eq_ok_iff.mpr ⟨_, hlocator, congrArg Except.ok ?_⟩
  show ((Locator.ofGraph w.root settings graph).compilerConfig? (.ofStore (w.locator s).2)).1.bind
    (·.aliases.expand specifier) = _
  rw [Locator.compilerConfig?_of_unknown rfl]
  exact congrArg (Option.bind · _) hconfig

-- ============================================================= agreement

/-- From a direct root the command shows what the locator uses. -/
theorem expansion_of_direct {report : PathsReport} (h : Direct w.root)
    (hreport : (pathsReport w specifier s).1 = .ok report)
    (hgraph : (w.loadGraph s).1 = .ok graph) :
    (w.expansion specifier s).1 = .ok report.candidates := by
  obtain ⟨settings, file, config, hsettings, hload, rfl⟩ := pathsReport_eq_ok_iff.mp hreport
  have hjoin (answer : Except Fault (Option CompilerConfig)) :
      answer.toOption.join.map (·.aliases)
        = (answer.map (Option.map (·.aliases))).toOption.join := by
    cases answer with
    | error fault => rfl
    | ok config => cases config <;> rfl
  have haliases : ((Locator.ofGraph w.root settings graph).configAt s).map (·.aliases)
      = config.map (·.aliases) := by
    rw [configAt_ofGraph, hjoin, ← CompilerConfig.aliases_load_of_direct h, hload, ← hjoin]
    cases config <;> rfl
  have hexpand (config : Option CompilerConfig) :
      config.bind (·.aliases.expand specifier)
        = (config.map (·.aliases)).bind (·.expand specifier) := by
    cases config <;> rfl
  rw [expansion_of_ok hsettings hgraph, hexpand, haliases, ← hexpand]

-- ========================================================== disagreement

section Aliases

variable {text : String} {table : AliasTable} (hsettings : (w.settings s).1 = .ok (settings, file))
  (hc : s.content? path = some text)
  (hf : ConfigFile.ofText? text = some ⟨none, none, some table⟩)

include hsettings hc hf

/-- What is shown where the nearest file from the spelled root extends nothing. -/
theorem pathsReport_of_aliases (hfound : s.findUpwards? settings.configFiles w.root = some path)
    (specifier : String) :
    (pathsReport w specifier s).1
      = .ok ⟨specifier, some (clean path), table.expand specifier⟩ :=
  pathsReport_eq_ok_iff.mpr
    ⟨settings, file, _, hsettings, CompilerConfig.load_of_aliases hfound hc hf, rfl⟩

/-- What is used where the nearest file from the cleaned root extends nothing. -/
theorem expansion_of_aliases (hgraph : (w.loadGraph s).1 = .ok graph)
    (hfound : s.findUpwards? settings.configFiles (clean w.root) = some path)
    (specifier : String) : (w.expansion specifier s).1 = .ok (table.expand specifier) := by
  rw [expansion_of_ok hsettings hgraph, configAt_ofGraph,
    CompilerConfig.load_of_aliases hfound hc hf]
  rfl

end Aliases

/-- A configuration file that gives `x` one target. -/
def aliasText (target : String) : String :=
  "\x7b\"compilerOptions\":\x7b\"paths\":\x7b\"x\":[\"" ++ target ++ "\"]\x7d\x7d\x7d"

/-- Such a file in a directory is the only file there is. -/
def aliasedAt (dir : String) : FileStore :=
  .ofFiles [(join dir "tsconfig.base.json", aliasText "y")]

theorem content?_aliasedAt (dir path : String) :
    (aliasedAt dir).content? path
      = if clean path = clean (join dir "tsconfig.base.json") then some (aliasText "y") else none :=
  Table.lookup_cons_ite ..

theorem isFile_aliasedAt {dir path : String} :
    (aliasedAt dir).isFile path = true ↔ clean path = clean (join dir "tsconfig.base.json") := by
  rw [FileStore.isFile, content?_aliasedAt]
  split <;> simp_all

theorem components_baseName : components "tsconfig.base.json" = [.name "tsconfig.base.json"] := by
  decide

/-- Under another name, or from elsewhere, nothing is found. -/
theorem findUpwards?_aliasedAt_eq_none {dir root : String} {names : List String}
    (h : ∀ name ∈ names, components name = [.name name] ∧
      (name = "tsconfig.base.json" → ∀ e ∈ ancestors root, clean e ≠ clean dir)) :
    (aliasedAt dir).findUpwards? names root = none := by
  refine FileStore.findUpwards?_eq_none_iff.mpr fun e he name hname => ?_
  obtain ⟨hcomponents, helsewhere⟩ := h name hname
  refine Bool.eq_false_iff.mpr fun hfile => ?_
  obtain ⟨hdir, hbase⟩ := (FilePath.clean_join_name_iff hcomponents components_baseName).mp
    (isFile_aliasedAt.mp hfile)
  exact helsewhere hbase e he hdir

/-- The file is found on every walk that passes its directory. -/
theorem exists_found_aliasedAt {dir : String} (hdir : dir ∈ ancestors root) :
    ∃ path, (aliasedAt dir).findUpwards? Settings.standard.configFiles root = some path ∧
      (aliasedAt dir).content? path = some (aliasText "y") := by
  obtain ⟨path, hfound⟩ : ∃ path,
      (aliasedAt dir).findUpwards? Settings.standard.configFiles root = some path := by
    refine Option.ne_none_iff_exists'.mp fun hnone => ?_
    have hmissing := FileStore.findUpwards?_eq_none_iff.mp hnone dir hdir _ (List.mem_cons_self ..)
    rw [isFile_aliasedAt.mpr rfl] at hmissing
    cases hmissing
  have hfile := isFile_aliasedAt.mp (FileStore.isFile_of_findUpwards? hfound)
  exact ⟨path, hfound, by rw [content?_aliasedAt, if_pos hfile]⟩

/-- It is not found from a cleaned root that its directory does not lie around. -/
theorem not_found_aliasedAt {dir : String} (hdetour : clean dir ∉ ancestors (clean root)) :
    (aliasedAt dir).findUpwards? Settings.standard.configFiles (clean root) = none := by
  have hnames : ∀ name ∈ Settings.standard.configFiles, components name = [.name name] := by decide
  refine findUpwards?_aliasedAt_eq_none fun name hname =>
    ⟨hnames name hname, fun _ e he hclean => ?_⟩
  rw [FilePath.clean_of_mem_ancestors (FilePath.clean_clean root) he] at hclean
  exact hdetour (hclean ▸ he)

/-- A configuration in a directory that is passed on a detour is shown, and not used. -/
theorem exists_disagreement {dir : String} (hdir : dir ∈ ancestors root)
    (hdetour : clean dir ∉ ancestors (clean root)) :
    ∃ (w : Workspace) (specifier : String) (s : FileStore) (report : PathsReport)
      (graph : WorkspaceGraph), w.root = root ∧ (pathsReport w specifier s).1 = .ok report ∧
        (w.loadGraph s).1 = .ok graph ∧ (w.expansion specifier s).1 ≠ .ok report.candidates := by
  -- the configuration can be read as a graph too, so that one file is enough
  let w : Workspace := ⟨root, join dir "tsconfig.base.json", "/", [], []⟩
  obtain ⟨graph, htext⟩ : ∃ graph, WorkspaceGraph.ofText? (aliasText "y") = some graph :=
    Option.isSome_iff_exists.mp (by decide +kernel)
  have hgraph : (w.loadGraph (aliasedAt dir)).1 = .ok graph :=
    w.loadGraph_eq_ok_iff.mpr ⟨_, by rw [content?_aliasedAt, if_pos rfl], htext⟩
  have hsettings : (w.settings (aliasedAt dir)).1 = .ok (.standard, none) := by
    refine Workspace.settings_of_none (findUpwards?_aliasedAt_eq_none fun name hname => ?_) rfl rfl
    rw [List.mem_singleton.mp hname]
    exact ⟨by decide, fun h => absurd h (by decide)⟩
  have htable : ConfigFile.ofText? (aliasText "y") = some ⟨none, none, some ⟨[("x", ["y"])]⟩⟩ := by
    decide +kernel
  obtain ⟨path, hfound, hcontent⟩ := exists_found_aliasedAt hdir
  have hshown : (pathsReport w "x" (aliasedAt dir)).1
      = .ok ⟨"x", some (clean path), some ["y"]⟩ :=
    pathsReport_of_aliases hsettings hcontent htable hfound "x"
  have hused : (w.expansion "x" (aliasedAt dir)).1 = .ok none := by
    rw [expansion_of_ok hsettings hgraph, configAt_ofGraph, CompilerConfig.load_fst,
      not_found_aliasedAt hdetour]
    rfl
  refine ⟨w, "x", aliasedAt dir, _, graph, rfl, hshown, hgraph, ?_⟩
  rw [hused]
  exact nofun

/-- For the workspaces at a root, whatever the files, the settings, the graph and the
specifier are, the command shows what the locator uses exactly if the root is
direct. -/
theorem paths_shows_expansion_iff (root : String) :
    (∀ (w : Workspace) (specifier : String) (s : FileStore) (report : PathsReport)
      (graph : WorkspaceGraph), w.root = root → (pathsReport w specifier s).1 = .ok report →
        (w.loadGraph s).1 = .ok graph → (w.expansion specifier s).1 = .ok report.candidates)
      ↔ Direct root := by
  constructor
  · intro h dir hdir
    refine Decidable.byContradiction fun hdetour => ?_
    obtain ⟨w, specifier, s, report, graph, hroot, hreport, hgraph, hne⟩ :=
      exists_disagreement hdir hdetour
    exact hne (h w specifier s report graph hroot hreport hgraph)
  · rintro h w specifier s report graph rfl hreport hgraph
    exact expansion_of_direct h hreport hgraph

/-- A configuration for a directory beside the workspace, and one for all around. -/
def besideFiles : FileStore :=
  .ofFiles [("/ws/lib/tsconfig.json", aliasText "one"), ("/tsconfig.json", aliasText "two"),
    ("/ws/app/locus-graph.json", "\x7b\x7d")]

/-- From a root that is spelled through the directory beside it the command shows the
aliases of that directory. -/
theorem paths_shows_beside :
    let w : Workspace := ⟨"/ws/lib/../app", "/ws/lib/../app/locus-graph.json", "/", [], []⟩
    (pathsReport w "x" besideFiles).1 = .ok ⟨"x", some "/ws/lib/tsconfig.json", some ["one"]⟩ ∧
      (∃ graph, (w.loadGraph besideFiles).1 = .ok graph) ∧
      (w.expansion "x" besideFiles).1 = .ok (some ["two"]) := by
  intro w
  have hsettings : (w.settings besideFiles).1 = .ok (.standard, none) :=
    Workspace.settings_of_none (by decide +kernel) rfl rfl
  obtain ⟨graph, hgraph⟩ : ∃ graph, (w.loadGraph besideFiles).1 = .ok graph := by
    obtain ⟨graph, htext⟩ : ∃ graph, WorkspaceGraph.ofText? "\x7b\x7d" = some graph :=
      Option.isSome_iff_exists.mp (by decide +kernel)
    exact ⟨graph, w.loadGraph_eq_ok_iff.mpr ⟨_, by decide +kernel, htext⟩⟩
  have hbeside : besideFiles.content? "/ws/lib/tsconfig.json" = some (aliasText "one") := by
    decide +kernel
  have haround : besideFiles.content? "/tsconfig.json" = some (aliasText "two") := by
    decide +kernel
  have hone : ConfigFile.ofText? (aliasText "one")
      = some ⟨none, none, some ⟨[("x", ["one"])]⟩⟩ := by decide +kernel
  have htwo : ConfigFile.ofText? (aliasText "two")
      = some ⟨none, none, some ⟨[("x", ["two"])]⟩⟩ := by decide +kernel
  refine ⟨?_, ⟨graph, hgraph⟩, ?_⟩
  · have hclean : clean "/ws/lib/tsconfig.json" = "/ws/lib/tsconfig.json" := by decide +kernel
    rw [pathsReport_of_aliases hsettings hbeside hone (by decide +kernel) "x", hclean,
      AliasTable.expand, List.lookup_cons_self]
  · exact expansion_of_aliases hsettings haround htwo hgraph (by decide +kernel) "x"

end CommandLine

end ImportResolution
