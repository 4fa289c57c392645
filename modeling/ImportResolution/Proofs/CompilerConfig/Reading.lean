/-
The files that a configuration is read from. The search reads the files that it
gets to, one after another, and of all other files it sees no more than whether
they are there. So where other files hold something else, it ends with the
same answer or does not end either (`load_congr`).

Which files are read depends on what was read before. The two searches are
followed side by side: as long as both have read the same they get to the same
path, and what they get to is read by both (`Follows.follow`).
-/
import ImportResolution.Proofs.CompilerConfig.Circles
import ImportResolution.Proofs.FilePath
import ImportResolution.Proofs.PackageFiles

namespace ImportResolution.CompilerConfig

open FileStore (SameFiles)

variable {installed start path entry parent : String} {chain before entries rest : List String}
  {s t : FileStore} {config : ConfigFile} {earlier options : Options}
  {answer : Except Fault Options}

-- ===================================================== without counting

/-- The outcome of following some entries of a file, whatever is counted. -/
def Led (installed : String) (s : FileStore) (chain : List String) (path : String)
    (entries : List String) (earlier : Options) (answer : Except Fault Options) : Prop :=
  ∃ s', Inherits installed chain path entries earlier s answer s'

theorem Led.transfer (hst : SameFiles s t)
    (h : Led installed s chain path entries earlier answer) :
    Led installed t chain path entries earlier answer := by
  obtain ⟨s', h⟩ := h
  induction entries generalizing s t earlier with
  | nil =>
      cases h
      exact ⟨t, .done⟩
  | cons entry rest ih =>
      have hparent := parentFile?_eq hst
      cases h with
      | missing found => exact ⟨t, .missing (hparent ▸ found)⟩
      | failed found follows =>
          obtain ⟨t', -, hf⟩ := follows.transfer.2 t hst
          exact ⟨t', .failed (hparent ▸ found) hf⟩
      | next found follows inherits =>
          obtain ⟨t₁, ht₁, hf⟩ := follows.transfer.2 t hst
          obtain ⟨t₂, hi⟩ := ih (follows.transfer.1.trans (hst.trans ht₁.symm)) inherits
          exact ⟨t₂, .next (hparent ▸ found) hf hi⟩

theorem Led.failed {fault : Fault}
    (found : parentFile? s installed (directoryOf path) entry = some parent)
    (ends : Ends installed s (chain ++ [path]) parent (.error fault)) :
    Led installed s chain path (entry :: rest) earlier (.error fault) := by
  obtain ⟨s', follows⟩ := ends
  exact ⟨s', .failed found follows⟩

theorem Led.next (found : parentFile? s installed (directoryOf path) entry = some parent)
    (ends : Ends installed s (chain ++ [path]) parent (.ok options))
    (led : Led installed s chain path rest (earlier.overlay options) answer) :
    Led installed s chain path (entry :: rest) earlier answer := by
  obtain ⟨s', follows⟩ := ends
  obtain ⟨s'', inherits⟩ := led.transfer follows.transfer.1.symm
  exact ⟨s'', .next found follows inherits⟩

theorem Led.append {middle : Options}
    (h : Led installed s chain path before earlier (.ok middle))
    (h' : Led installed s chain path rest middle answer) :
    Led installed s chain path (before ++ rest) earlier answer := by
  obtain ⟨s', h⟩ := h
  obtain ⟨s'', h'⟩ := h'.transfer h.sameFiles.symm
  exact ⟨s'', h.append h'⟩

theorem Ends.file (new : chain.any (FilePath.same path) = false)
    (load : (ConfigFile.load s path).1 = .ok config)
    (led : Led installed s chain path config.entries .unknown answer) :
    Ends installed s chain path
      (answer.map (·.overlay (.stated config (directoryOf path)))) := by
  obtain ⟨s', inherits⟩ := led.transfer (FileStore.sameFiles_load _ _ s path).symm
  exact ⟨s', .file new (Prod.ext load rfl) inherits⟩

theorem Reached.next (h : Reached installed s start chain path)
    (new : chain.any (FilePath.same path) = false) (load : (ConfigFile.load s path).1 = .ok config)
    (entries : config.entries = before ++ entry :: rest)
    (led : Led installed s chain path before .unknown (.ok earlier))
    (found : parentFile? s installed (directoryOf path) entry = some parent) :
    Reached installed s start (chain ++ [path]) parent := by
  obtain ⟨s', inherits⟩ := led.transfer (FileStore.sameFiles_load _ _ s path).symm
  exact .entry h new (Prod.ext load rfl) entries inherits found

/-- From a file that cannot be read the search gets nowhere else. -/
theorem Reached.eq_start_of_unreadable {fault : Fault}
    (h : Reached installed s start chain path) (load : (ConfigFile.load s start).1 = .error fault) :
    path = start := by
  induction h with
  | start => rfl
  | entry reached new load' entries inherits found ih =>
      rw [ih, Prod.ext_iff, load] at load'
      cases load'.1

-- ============================================================ side by side

/-- Both stores have the same files, and they hold the same wherever both searches
get to. -/
structure SameReads (installed start : String) (s t : FileStore) : Prop where
  files : s.isFile = t.isFile
  contents : ∀ chain path, Reached installed s start chain path →
    Reached installed t start chain path → chain.any (FilePath.same path) = false →
    s.content? path = t.content? path

namespace SameReads

theorem symm (h : SameReads installed start s t) : SameReads installed start t s :=
  ⟨h.files.symm, fun chain path ht hs new => (h.contents chain path hs ht new).symm⟩

theorem parentFile?_eq (h : SameReads installed start s t) (dir entry : String) :
    parentFile? s installed dir entry = parentFile? t installed dir entry := by
  unfold parentFile?
  rw [h.files]

theorem load_eq (h : SameReads installed start s t) (hs : Reached installed s start chain path)
    (ht : Reached installed t start chain path) (new : chain.any (FilePath.same path) = false) :
    (ConfigFile.load s path).1 = (ConfigFile.load t path).1 := by
  unfold ConfigFile.load
  rw [FileStore.load_run, FileStore.load_run, h.contents chain path hs ht new]

end SameReads

/-- Both searches have come through the same first entries of a file. -/
structure Abreast (installed start : String) (s t : FileStore) (chain : List String)
    (path : String) (config : ConfigFile) (before : List String) (earlier : Options) : Prop where
  reached : Reached installed s start chain path
  reached' : Reached installed t start chain path
  new : chain.any (FilePath.same path) = false
  load : (ConfigFile.load s path).1 = .ok config
  load' : (ConfigFile.load t path).1 = .ok config
  led : Led installed s chain path before .unknown (.ok earlier)
  led' : Led installed t chain path before .unknown (.ok earlier)

namespace Abreast

/-- Both searches get to the file that the next entry means. -/
theorem reached_next (h : Abreast installed start s t chain path config before earlier)
    (entries : config.entries = before ++ entry :: rest)
    (found : parentFile? s installed (directoryOf path) entry = some parent)
    (found' : parentFile? t installed (directoryOf path) entry = some parent) :
    Reached installed s start (chain ++ [path]) parent ∧
      Reached installed t start (chain ++ [path]) parent :=
  ⟨h.reached.next h.new h.load entries h.led found,
    h.reached'.next h.new h.load' entries h.led' found'⟩

/-- Both searches have come through one more entry. -/
theorem past (h : Abreast installed start s t chain path config before earlier)
    (found : parentFile? s installed (directoryOf path) entry = some parent)
    (found' : parentFile? t installed (directoryOf path) entry = some parent)
    (ends : Ends installed s (chain ++ [path]) parent (.ok options))
    (ends' : Ends installed t (chain ++ [path]) parent (.ok options)) :
    Abreast installed start s t chain path config (before ++ [entry])
      (earlier.overlay options) where
  reached := h.reached
  reached' := h.reached'
  new := h.new
  load := h.load
  load' := h.load'
  led := h.led.append (.next found ends ⟨s, .done⟩)
  led' := h.led'.append (.next found' ends' ⟨t, .done⟩)

end Abreast

/-- Where one search ends, the other ends with the same answer. -/
theorem Follows.follow (h : SameReads installed start s t) {s₀ s₁ : FileStore}
    (hfollows : Follows installed chain path s₀ answer s₁) (hs₀ : SameFiles s₀ s)
    (hs : Reached installed s start chain path) (ht : Reached installed t start chain path) :
    Ends installed t chain path answer := by
  induction hfollows using Follows.rec
    (motive_2 := fun chain path entries earlier s₀ answer _ _ => SameFiles s₀ s →
      ∀ config before, Abreast installed start s t chain path config before earlier →
        config.entries = before ++ entries →
          Led installed t chain path entries earlier answer) with
  | circle again => exact ⟨t, .circle again⟩
  | @unreadable chain path s₀ s₁ fault new load =>
      have hload : (ConfigFile.load s path).1 = .error fault :=
        (hs₀.load_eq _ _ path).symm.trans (congrArg Prod.fst load)
      have hload' := (h.load_eq hs ht new).symm.trans hload
      exact ⟨(ConfigFile.load t path).2, .unreadable new (Prod.ext hload' rfl)⟩
  | @file chain path s₀ s₁ s₂ config inherited new load inherits ih =>
      have hload : (ConfigFile.load s path).1 = .ok config :=
        (hs₀.load_eq _ _ path).symm.trans (congrArg Prod.fst load)
      have hload' := (h.load_eq hs ht new).symm.trans hload
      refine Ends.file new hload' (ih ((SameFiles.of_load _ _ load).trans hs₀) config [] ?_ rfl)
      exact ⟨hs, ht, new, hload, hload', ⟨s, .done⟩, ⟨t, .done⟩⟩
  | done => exact ⟨t, .done⟩
  | missing found =>
      rename_i hs₀ config before habreast hentries
      rw [parentFile?_eq hs₀, h.parentFile?_eq] at found
      exact ⟨t, .missing found⟩
  | failed found follows ih =>
      rename_i hs₀ config before habreast hentries
      rw [parentFile?_eq hs₀] at found
      have found' := (h.parentFile?_eq _ _).symm.trans found
      obtain ⟨hs, ht⟩ := habreast.reached_next hentries found found'
      exact Led.failed found' (ih hs₀ hs ht)
  | next found follows inherits ih ih' =>
      rename_i hs₀ config before habreast hentries
      rw [parentFile?_eq hs₀] at found
      have found' := (h.parentFile?_eq _ _).symm.trans found
      obtain ⟨hs, ht⟩ := habreast.reached_next hentries found found'
      have hends := ih hs₀ hs ht
      have habreast' := habreast.past found found' (Ends.transfer hs₀ ⟨_, follows⟩) hends
      refine Led.next found' hends (ih' (follows.transfer.1.trans hs₀) config _ habreast' ?_)
      rw [hentries, List.append_assoc, List.singleton_append]

-- ======================================================== configurations

namespace SameReads

theorem ends_iff (h : SameReads installed path s t) :
    Ends installed s [] path answer ↔ Ends installed t [] path answer :=
  ⟨fun ⟨_, hs⟩ => hs.follow h (SameFiles.refl s) .start .start,
    fun ⟨_, ht⟩ => ht.follow h.symm (SameFiles.refl t) .start .start⟩

/-- The options in force are the same, and so is whether there are any. -/
theorem inForce_eq (h : SameReads installed path s t) :
    (inForce installed path s).1 = (inForce installed path t).1 := by
  by_cases hs : ∃ answer, Ends installed s [] path answer
  · obtain ⟨answer, hs⟩ := hs
    rw [hs.inForce_eq, (h.ends_iff.mp hs).inForce_eq]
  · have ht : ¬ ∃ answer, Ends installed t [] path answer :=
      fun ⟨answer, ht⟩ => hs ⟨answer, h.ends_iff.mpr ht⟩
    rw [← optionsOf_isSome_iff, Option.not_isSome_iff_eq_none] at hs ht
    rw [inForce, inForce, hs, ht]
    rfl

end SameReads

/-- The search from a file reads the file at a path, under whatever spelling. -/
def Reads (installed : String) (s : FileStore) (start path : String) : Prop :=
  ∃ chain met, Reached installed s start chain met ∧ chain.any (FilePath.same met) = false ∧
    FilePath.clean met = FilePath.clean path

/-- The file at a path is read for the configuration of a directory. -/
def ReadFor (installed : String) (names : List String) (root : String) (s : FileStore)
    (path : String) : Prop :=
  ∃ start, s.findUpwards? names root = some start ∧ Reads installed s (FilePath.clean start) path

theorem map_ofFile_fst (path : String) (s : FileStore) :
    ((some <$> ofFile installed path : Reading _) s).1 = (ofFile installed path s).1.map some := by
  show ((ofFile installed path >>= fun config => pure (some config)) s).1 = _
  simp only [bind, ExceptT.bind, ExceptT.mk, StateT.bind]
  cases ofFile installed path s with
  | mk answer s' => cases answer <;> rfl

/-- Where no file that is read for it holds anything else, the configuration of a
directory is the same. -/
theorem load_congr {names : List String} {root : String} (files : s.isFile = t.isFile)
    (contents : ∀ path, ReadFor installed names root s path → s.content? path = t.content? path) :
    (load installed names root s).1 = (load installed names root t).1 := by
  have hfind : t.findUpwards? names root = s.findUpwards? names root := by
    unfold FileStore.findUpwards?
    rw [files]
  rw [load_run, load_run, hfind]
  cases hstart : s.findUpwards? names root with
  | none => rfl
  | some start =>
      have hreads : SameReads installed (FilePath.clean start) s t :=
        ⟨files, fun chain path hs _ new =>
          contents path ⟨start, hstart, chain, path, hs, new, rfl⟩⟩
      simp only [map_ofFile_fst, ofFile_fst, hreads.inForce_eq]

section Unreadable

variable {names : List String} {root : String} {fault : Fault}
  (hfind : s.findUpwards? names root = some start)
  (load : (ConfigFile.load s (FilePath.clean start)).1 = .error fault)

include hfind load

/-- Where the nearest file cannot be read, its fault is the answer. -/
theorem load_of_unreadable : (CompilerConfig.load installed names root s).1 = .error fault := by
  have hends : Ends installed s [] (FilePath.clean start) (.error fault) :=
    ⟨(ConfigFile.load s (FilePath.clean start)).2, .unreadable rfl (Prod.ext load rfl)⟩
  rw [load_run, hfind]
  show ((some <$> ofFile installed start : Reading _) s).1 = _
  rw [map_ofFile_fst, ofFile_eq_error_iff.mpr hends.inForce_eq]
  rfl

/-- Where the nearest file cannot be read, no other file is. -/
theorem clean_eq_of_readFor (h : ReadFor installed names root s path) :
    FilePath.clean path = FilePath.clean start := by
  obtain ⟨start', hstart, chain, met, hreached, -, hmet⟩ := h
  obtain rfl := Option.some.inj (hfind.symm.trans hstart)
  rw [← hmet, hreached.eq_start_of_unreadable load, FilePath.clean_clean]

end Unreadable

/-- Emptying files that are not read for it does not change the configuration of
a directory. -/
theorem load_emptied {names paths : List String} {root : String}
    (h : ∀ path ∈ paths, ¬ ReadFor installed names root s path) :
    (load installed names root (s.emptied paths)).1 = (load installed names root s).1 := by
  refine (load_congr (FileStore.samePlaces_emptied s paths).1 fun path hread => ?_).symm
  rw [FileStore.content?_emptied]
  by_cases hmem : FilePath.clean path ∈ paths.map FilePath.clean
  · obtain ⟨path', hpath', hclean⟩ := List.mem_map.mp hmem
    obtain ⟨start, hstart, chain, met, hreached, new, hmet⟩ := hread
    exact absurd ⟨start, hstart, chain, met, hreached, new, hmet.trans hclean.symm⟩ (h path' hpath')
  · simp only [if_neg hmem, Option.map_id_fun', id_eq]

end ImportResolution.CompilerConfig
