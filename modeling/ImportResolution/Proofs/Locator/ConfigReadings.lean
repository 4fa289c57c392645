/-
How often a locator reads the files of its compiler configuration. It asks for the
configuration when it first needs it and keeps what came of it, so the search through
extended configurations is made at most once; but this search keeps no files, and loads
one that is inherited along several ways once for each. So a configuration file is read
at most once, whatever the locator is asked, exactly if there is no such file
(`config_read_once_iff`). Which files are loaded at all is told by `Loads.mem_iff`.

What is read apart from that are package descriptors, each at most once. The count of all
readings is therefore known at any time from the files that the search loads, whether the
configuration was asked for, and which descriptors are remembered (`Tallied`), and every
step of the locator keeps it so.
-/
import ImportResolution.Proofs.CompilerConfig.Loads
import ImportResolution.Proofs.Locator.Recovery
import ImportResolution.Proofs.Locator.Soundness
import ImportResolution.Proofs.PackageFiles.Fetches

namespace ImportResolution

open FilePath (clean)
open FileStore (SameFiles)
open CompilerConfig (ConfigLoads ConfigEnds ReadOn Loads LoadsAll configEnds_iff
  configLoads_of_found load_of_content load_readings loads_of_no_entry)

namespace PackageFiles

variable {s : FileStore} {log : List String} {f : PackageFiles}

/-- The readings are those that there were in `s`, one of each of some files, and one of
each descriptor that is remembered. -/
structure Tallied (s : FileStore) (log : List String) (f : PackageFiles) : Prop where
  same : SameFiles f.store s
  readings : ∀ path, f.store.readingsOf path
    = s.readingsOf path + (log.map clean).count (clean path)
      + if (f.descriptors.peek? (clean path)).isSome then 1 else 0

theorem tallied_ofStore (s : FileStore) : Tallied s [] (.ofStore s) :=
  ⟨SameFiles.refl s, fun _ => rfl⟩

/-- A descriptor that was not remembered is read once, and remembered. -/
theorem tallied_descriptor? (path : String) : Keeps (Tallied s log) (descriptor? path) := by
  intro f h
  obtain ⟨hsame, -, hkept⟩ := descriptor?_spec path f
  refine ⟨hsame.trans h.same, fun other => ?_⟩
  rw [readingsOf_descriptor?, h.readings, hkept]
  by_cases hother : clean other = clean path
  · rw [hother]
    cases f.descriptors.peek? (clean path) <;> simp
  · simp [hother]

/-- Reading some files, with no thought of the descriptors, adds one reading of each. -/
theorem Tallied.readOn {t : FileStore} (h : Tallied s [] f) (hsame : SameFiles t s)
    (hread : ReadOn f.store log t) : Tallied s log { f with store := t } := by
  refine ⟨hsame, fun path => ?_⟩
  rw [hread path, h.readings path, List.map_nil, List.count_nil, Nat.add_zero,
    Nat.add_right_comm]

theorem Looks.tallied {α : Type} {search : Search α} (h : Looks search) :
    Keeps (Tallied s log) search := by
  induction h with
  | pure a => exact Keeps.pure a
  | files _ => exact fun f hf => hf
  | descriptor path => exact tallied_descriptor? path
  | bind _ _ ih ihn => exact Keeps.bind ih ihn

end PackageFiles

open PackageFiles (Tallied Looks)

theorem InstalledPackages.tallied_resolve (p : InstalledPackages) (specifier context : String)
    {s : FileStore} {log : List String} {m : Memory} (h : Tallied s log m.files) :
    Tallied s log (p.resolve specifier context m).2.files := by
  rcases p.resolve_cases specifier context m with ⟨_, _, _, hfiles, _⟩ | ⟨_, _, hfiles, _⟩
  · rw [hfiles]
    exact h
  · rw [hfiles, lookUp_run]
    split
    · exact h
    · exact PackageFiles.tallied_descriptor? _ _ h

namespace Locator

variable {l : Locator} {s : FileStore} {log : List String}

-- ============================================================ the tally

/-- The readings are told by the descriptors that are remembered and, once the
configuration was asked for, by the files that are loaded for it. -/
def ConfigTallied (s : FileStore) (log : List String) (m : Memory) : Prop :=
  Tallied s (if m.config.isSome then log else []) m.packages.files

theorem ConfigTallied.readingsOf {m : Memory} (h : ConfigTallied s log m) (path : String) :
    m.store.readingsOf path = s.readingsOf path
      + (if m.config.isSome then (log.map clean).count (clean path) else 0)
      + if (m.packages.files.descriptors.peek? (clean path)).isSome then 1 else 0 := by
  refine (h.readings path).trans ?_
  cases m.config <;> rfl

/-- The loader leaves the files as they are and reads some of them, each time. -/
def LoaderReads (l : Locator) (s : FileStore) (log : List String) : Prop :=
  ∀ t, SameFiles t s →
    SameFiles (l.collaborators.loadConfig t).2 s ∧ ReadOn t log (l.collaborators.loadConfig t).2

theorem tallied_compilerConfig? (hload : l.LoaderReads s log) :
    Keeps (ConfigTallied s log) l.compilerConfig? := by
  intro m h
  unfold ConfigTallied at h ⊢
  cases hk : m.config with
  | some known =>
      rw [compilerConfig?_of_known hk]
      exact h
  | none =>
      rw [compilerConfig?_of_unknown hk]
      rw [hk] at h
      obtain ⟨hsame, hread⟩ := hload m.store h.same
      exact h.readOn hsame hread

theorem frame_configTallied (hload : l.LoaderReads s log) (hlook : l.collaborators.OnlyLook) :
    Frame l (ConfigTallied s log) where
  count := fun _ _ h => h
  config := tallied_compilerConfig? hload
  language := fun config specifier file _ h => (hlook.language config specifier file).tallied _ h
  runtime := fun specifier file _ h => (hlook.runtime specifier file).tallied _ h

theorem tallied_resolveCall (hload : l.LoaderReads s log) (hlook : l.collaborators.OnlyLook)
    (c : Call) : Keeps (ConfigTallied s log) (l.resolveCall c) := by
  intro m h
  cases hk : m.answers.peek? c.slot with
  | some answer =>
      rw [resolveCall_of_known hk]
      exact h
  | none =>
      rw [resolveCall_of_unknown_run hk]
      exact (made_tryStrategies _ _).keeps (frame_configTallied hload hlook)
        (fun _ _ h => l.installedPackages.tallied_resolve _ _ h) (m.asked c) h

theorem tallied_replies (hload : l.LoaderReads s log) (hlook : l.collaborators.OnlyLook)
    (requests : List Request) : Keeps (ConfigTallied s log) (l.replies requests) := by
  induction requests with
  | nil => exact Keeps.pure _
  | cons request rest ih =>
      refine Keeps.bind ?_ fun first => Keeps.bind ih fun others => Keeps.pure _
      cases request with
      | call c => exact Keeps.bind (tallied_resolveCall hload hlook c) fun _ => Keeps.pure _
      | expand specifier =>
          exact Keeps.bind (Keeps.bind (tallied_compilerConfig? hload) fun _ => Keeps.pure _)
            fun _ => Keeps.pure _

-- ================================================================= once

variable {installed root : String} {names : List String}

/-- The usual loader, where the root of the workspace is clean. -/
theorem loadConfig_ofGraph (hroot : clean root = root) (settings : Settings)
    (graph : WorkspaceGraph) : (ofGraph root settings graph).collaborators.loadConfig
      = CompilerConfig.load settings.installedDirectory settings.configFiles root :=
  congrArg (CompilerConfig.load settings.installedDirectory settings.configFiles) hroot

theorem loaderReads_of_load
    (hload : l.collaborators.loadConfig = CompilerConfig.load installed names root)
    (hlog : ConfigLoads installed names root s log) : l.LoaderReads s log := by
  intro t ht
  rw [hload]
  exact load_readings hlog ht

/-- To expand a specifier, a locator that knows nothing reads the configuration only. -/
theorem tallied_expand (hload : l.LoaderReads s log) (specifier : String) :
    Tallied s log (l.replies [.expand specifier] (.ofStore s)).2.packages.files :=
  (PackageFiles.tallied_ofStore s).readOn (hload s (SameFiles.refl s)).1
    (hload s (SameFiles.refl s)).2

/-- However a locator is used, a file is read once for each time that the search for the
configuration loads it, if the configuration was ever asked for, and once more if it is
remembered as a package descriptor. So apart from descriptors every file is read at most
once, in all uses, exactly if the search ends without having loaded a file twice. -/
theorem config_read_once_iff
    (hload : l.collaborators.loadConfig = CompilerConfig.load installed names root)
    (hlook : l.collaborators.OnlyLook) (s : FileStore) :
    (∀ log, ConfigLoads installed names root s log → ∀ requests path,
      let m := (l.replies requests (.ofStore s)).2
      m.store.readingsOf path = s.readingsOf path
        + (if m.config.isSome then (log.map clean).count (clean path) else 0)
        + if (m.packages.files.descriptors.peek? (clean path)).isSome then 1 else 0) ∧
    ((ConfigEnds installed names root s ∧ ∀ requests path,
      let m := (l.replies requests (.ofStore s)).2
      m.store.readingsOf path ≤ s.readingsOf path + 1
        + if (m.packages.files.descriptors.peek? (clean path)).isSome then 1 else 0) ↔
    ∃ log, ConfigLoads installed names root s log ∧ (log.map clean).Nodup) := by
  have hcount : ∀ log, ConfigLoads installed names root s log → ∀ requests,
      ConfigTallied s log (l.replies requests (.ofStore s)).2 :=
    fun log hlog requests => tallied_replies (loaderReads_of_load hload hlog) hlook requests _
      (PackageFiles.tallied_ofStore s)
  refine ⟨fun log hlog requests path => (hcount log hlog requests).readingsOf path, ?once, ?distinct⟩
  case once =>
    rintro ⟨hends, hbound⟩
    obtain ⟨log, hlog⟩ := configEnds_iff.mp hends
    refine ⟨log, hlog, List.nodup_iff_count_le_one.mpr fun cleaned => ?_⟩
    by_cases hmem : cleaned ∈ log.map clean
    · obtain ⟨path, -, rfl⟩ := List.mem_map.mp hmem
      have htally := (tallied_expand (loaderReads_of_load hload hlog) "").readings path
      have hle := hbound [.expand ""] path
      simp only [Memory.store, htally] at hle
      omega
    · rw [List.count_eq_zero.mpr hmem]
      exact Nat.zero_le 1
  case distinct =>
    rintro ⟨log, hlog, hnodup⟩
    refine ⟨configEnds_iff.mpr ⟨log, hlog⟩, fun requests path => ?_⟩
    have hle := List.nodup_iff_count_le_one.mp hnodup (clean path)
    have hreadings := (hcount log hlog requests).readingsOf path
    split at hreadings <;> omega

/-- A file that extends two others. -/
def branchingFiles : FileStore :=
  .ofFiles [("/ws/tsconfig.json", "\x7b\"extends\":[\"/ws/a.json\",\"/ws/b.json\"]\x7d"),
    ("/ws/a.json", "\x7b\x7d"), ("/ws/b.json", "\x7b\x7d")]

/-- No file is read twice where two others are extended that extend nothing. -/
theorem config_read_once_branching :
    let l := ofGraph "/ws" .standard ⟨[], []⟩
    ConfigEnds "node_modules" Settings.standard.configFiles "/ws" branchingFiles ∧
      ∀ requests path,
        let m := (l.replies requests (.ofStore branchingFiles)).2
        m.store.readingsOf path ≤ branchingFiles.readingsOf path + 1
          + if (m.packages.files.descriptors.peek? (clean path)).isSome then 1 else 0 := by
  intro l
  have hroot : clean "/ws" = "/ws" := by decide +kernel
  have hfind : branchingFiles.findUpwards? Settings.standard.configFiles "/ws"
      = some "/ws/tsconfig.json" := by decide +kernel
  have hclean : clean "/ws/tsconfig.json" = "/ws/tsconfig.json" := by decide +kernel
  have hread : branchingFiles.content? "/ws/tsconfig.json"
      = some "\x7b\"extends\":[\"/ws/a.json\",\"/ws/b.json\"]\x7d" := by decide +kernel
  have hread' : branchingFiles.content? "/ws/a.json" = some "\x7b\x7d" := by decide +kernel
  have hread'' : branchingFiles.content? "/ws/b.json" = some "\x7b\x7d" := by decide +kernel
  have hfile : ConfigFile.ofText? "\x7b\"extends\":[\"/ws/a.json\",\"/ws/b.json\"]\x7d"
      = some ⟨some (.many ["/ws/a.json", "/ws/b.json"]), none, none⟩ := by decide +kernel
  have hempty : ConfigFile.ofText? "\x7b\x7d" = some ⟨none, none, none⟩ := by decide +kernel
  have hloads : Loads "node_modules" branchingFiles [] "/ws/tsconfig.json"
      ["/ws/tsconfig.json", "/ws/a.json", "/ws/b.json"] true :=
    .file rfl (congrArg Prod.fst (load_of_content hread hfile)) <|
      .next (by decide +kernel)
        (loads_of_no_entry (by decide +kernel)
          (congrArg Prod.fst (load_of_content hread' hempty)) rfl) <|
      .next (by decide +kernel)
        (loads_of_no_entry (by decide +kernel)
          (congrArg Prod.fst (load_of_content hread'' hempty)) rfl) .done
  have hlog : ConfigLoads "node_modules" Settings.standard.configFiles "/ws" branchingFiles
      ["/ws/tsconfig.json", "/ws/a.json", "/ws/b.json"] :=
    configLoads_of_found hfind hclean hloads
  exact (config_read_once_iff (loadConfig_ofGraph hroot _ _) (Collaborators.onlyLook_standard _ _)
    branchingFiles).2.mpr ⟨_, hlog, by decide +kernel⟩

/-- Two files that are extended, and extend one and the same. -/
def diamondFiles : FileStore :=
  .ofFiles [("/ws/tsconfig.json", "\x7b\"extends\":[\"./a.json\",\"./b.json\"]\x7d"),
    ("/ws/a.json", "\x7b\"extends\":\"./base.json\"\x7d"),
    ("/ws/b.json", "\x7b\"extends\":\"./base.json\"\x7d"), ("/ws/base.json", "\x7b\x7d")]

/-- The file at which the two ways meet is read twice when a specifier is expanded, though
it is never looked at as a descriptor. -/
theorem readings_of_diamond :
    let m := ((ofGraph "/ws" .standard ⟨[], []⟩).replies [.expand "x"] (.ofStore diamondFiles)).2
    diamondFiles.readingsOf "/ws/base.json" = 0 ∧ m.store.readingsOf "/ws/base.json" = 2 ∧
      m.packages.files.descriptors.peek? (clean "/ws/base.json") = none := by
  intro m
  have hroot : clean "/ws" = "/ws" := by decide +kernel
  have hfind : diamondFiles.findUpwards? Settings.standard.configFiles "/ws"
      = some "/ws/tsconfig.json" := by decide +kernel
  have hclean : clean "/ws/tsconfig.json" = "/ws/tsconfig.json" := by decide +kernel
  have hread : diamondFiles.content? "/ws/tsconfig.json"
      = some "\x7b\"extends\":[\"./a.json\",\"./b.json\"]\x7d" := by decide +kernel
  have hread' : ∀ side ∈ ["/ws/a.json", "/ws/b.json"], diamondFiles.content? side
      = some "\x7b\"extends\":\"./base.json\"\x7d" := by decide +kernel
  have hread'' : diamondFiles.content? "/ws/base.json" = some "\x7b\x7d" := by decide +kernel
  have hfile : ConfigFile.ofText? "\x7b\"extends\":[\"./a.json\",\"./b.json\"]\x7d"
      = some ⟨some (.many ["./a.json", "./b.json"]), none, none⟩ := by decide +kernel
  have hfile' : ConfigFile.ofText? "\x7b\"extends\":\"./base.json\"\x7d"
      = some ⟨some (.one "./base.json"), none, none⟩ := by decide +kernel
  have hempty : ConfigFile.ofText? "\x7b\x7d" = some ⟨none, none, none⟩ := by decide +kernel
  have hnew : ∀ side ∈ ["/ws/a.json", "/ws/b.json"],
      ["/ws/tsconfig.json"].any (FilePath.same side) = false ∧
        ["/ws/tsconfig.json", side].any (FilePath.same "/ws/base.json") = false := by
    decide +kernel
  have hleft : CompilerConfig.parentFile? diamondFiles "node_modules"
      (CompilerConfig.directoryOf "/ws/tsconfig.json") "./a.json" = some "/ws/a.json" := by
    decide +kernel
  have hright : CompilerConfig.parentFile? diamondFiles "node_modules"
      (CompilerConfig.directoryOf "/ws/tsconfig.json") "./b.json" = some "/ws/b.json" := by
    decide +kernel
  have hfound : ∀ side ∈ ["/ws/a.json", "/ws/b.json"], CompilerConfig.parentFile? diamondFiles
      "node_modules" (CompilerConfig.directoryOf side) "./base.json" = some "/ws/base.json" := by
    decide +kernel
  have hside : ∀ side ∈ ["/ws/a.json", "/ws/b.json"],
      Loads "node_modules" diamondFiles ["/ws/tsconfig.json"] side [side, "/ws/base.json"] true :=
    fun side h =>
      .file (hnew side h).1 (congrArg Prod.fst (load_of_content (hread' side h) hfile')) <|
        .next (hfound side h)
          (loads_of_no_entry (hnew side h).2
            (congrArg Prod.fst (load_of_content hread'' hempty)) rfl) .done
  have hparents : LoadsAll "node_modules" diamondFiles [] "/ws/tsconfig.json"
      ["./a.json", "./b.json"]
      (["/ws/a.json", "/ws/base.json"] ++ (["/ws/b.json", "/ws/base.json"] ++ [])) true :=
    .next hleft (hside "/ws/a.json" (by decide)) <|
      .next hright (hside "/ws/b.json" (by decide)) .done
  have hloads : Loads "node_modules" diamondFiles [] "/ws/tsconfig.json"
      ["/ws/tsconfig.json", "/ws/a.json", "/ws/base.json", "/ws/b.json", "/ws/base.json"] true :=
    .file rfl (congrArg Prod.fst (load_of_content hread hfile)) hparents
  have hlog : ConfigLoads "node_modules" Settings.standard.configFiles "/ws" diamondFiles
      ["/ws/tsconfig.json", "/ws/a.json", "/ws/base.json", "/ws/b.json", "/ws/base.json"] :=
    configLoads_of_found hfind hclean hloads
  have hnone : diamondFiles.readingsOf "/ws/base.json" = 0 := by decide +kernel
  have hcount : (["/ws/tsconfig.json", "/ws/a.json", "/ws/base.json", "/ws/b.json",
      "/ws/base.json"].map clean).count (clean "/ws/base.json") = 2 := by decide +kernel
  have htally := (tallied_expand (loaderReads_of_load
    (loadConfig_ofGraph hroot .standard ⟨[], []⟩) hlog) "x").readings "/ws/base.json"
  rw [hnone, hcount] at htally
  exact ⟨hnone, htally, rfl⟩

end Locator

end ImportResolution
