/-
What the compiler finds for a specifier. Wherever a specifier may lead, through the
aliases, from the base URL or in an installed directory, there is a place
(`places`), and each place stands for some candidates. The compiler answers the first
candidate of the first places that is a file (`answer_eq_first`): neither an ending that
stands in for another, nor an entry of a descriptor, nor a directory that is passed because
it is not there keeps it from a file.
-/
import ImportResolution.Proofs.ModuleSearch.Found

namespace ImportResolution.ModuleSearch.Compiler

open FilePath (Component IsEnding NamesBeforeLast OfNames Under ancestors clean isAbsolute join)
open FileStore (Operation after)
open PackageFiles (Over)
open Text

variable {s : FileStore} {installed specifier file place rest : String}
  {config : CompilerConfig}

-- ============================================================== endings

theorem isEnding_of_mem : ∀ ending ∈ endings ++ [".mts", ".cts"], IsEnding ending := by
  decide +kernel

theorem isEnding_of_mem_sources : ∀ source ∈ sources,
    IsEnding source.1 ∧ ∀ replacement ∈ source.2, IsEnding replacement := by
  decide +kernel

theorem hasModuleEnding_join (base : String) (hrest : isAbsolute rest = false) :
    hasModuleEnding (join base rest) = hasModuleEnding rest := by
  refine Bool.eq_iff_iff.mpr ?_
  rw [hasModuleEnding, hasModuleEnding, List.any_eq_true, List.any_eq_true]
  refine exists_congr fun ending => and_congr_right fun hending => ?_
  rw [endsWith, endsWith,
    FilePath.dropEnd?_join base hrest (isEnding_of_mem ending hending).no_slash, Option.isSome_map]

/-- The sources of what is joined are those of what was joined. -/
theorem sourceFiles_join (base : String) (hrest : isAbsolute rest = false) :
    sourceFiles (join base rest) = (sourceFiles rest).map (join base) := by
  rw [sourceFiles, sourceFiles, List.map_flatMap]
  refine List.flatMap_congr fun ⟨ending, replacements⟩ hsource => ?_
  obtain ⟨hending, hreplacements⟩ := isEnding_of_mem_sources _ hsource
  dsimp only at hending hreplacements ⊢
  rw [FilePath.dropEnd?_join base hrest hending.no_slash]
  cases hstem : dropEnd? rest ending with
  | none => rfl
  | some stem =>
      rw [dropEnd?_eq_some_iff.mp hstem, FilePath.isAbsolute_append hending.no_slash] at hrest
      exact withEndings_join hreplacements base hrest

theorem regular : spelling.Regular where
  endings ending hending := isEnding_of_mem ending (List.mem_append_left _ hending)
  files_join base rest hrest := by
    have hends : ∀ ending ∈ endings, IsEnding ending :=
      fun ending hending => isEnding_of_mem ending (List.mem_append_left _ hending)
    show files (join base rest) = (files rest).map (join base)
    rw [files, files, hasModuleEnding_join base hrest, sourceFiles_join base hrest,
      withEndings_join hends base hrest]
    split
    · simp only [List.map_append, List.map_cons, List.map_nil]
    · rfl

/-- One ending may stand for another, so a text that consists of names but for its last
segment stands for paths of names. -/
theorem ofNames_of_mem_files (hrest : NamesBeforeLast rest) :
    ∀ path ∈ spelling.files rest, OfNames path := by
  have hreplaced {stem ending other : String} (hending : IsEnding ending)
      (hother : IsEnding other) (hstem : rest = stem ++ ending) : OfNames (stem ++ other) := by
    have hlonger := hrest ending hending
    rw [hstem, String.append_assoc] at hlonger
    exact hlonger.change_ending (hending.append hending) hother
  intro path hpath
  rcases List.mem_append.mp hpath with hpath | hpath
  · split at hpath
    · next hmodule =>
      rcases List.mem_append.mp hpath with hpath | hpath
      · obtain ⟨source, hsource, hpath⟩ := List.mem_flatMap.mp hpath
        obtain ⟨hending, hreplacements⟩ := isEnding_of_mem_sources source hsource
        dsimp only at hpath
        split at hpath
        · next stem hstem =>
          obtain ⟨other, hother, rfl⟩ := List.mem_map.mp hpath
          exact hreplaced hending (hreplacements other hother) (dropEnd?_eq_some_iff.mp hstem)
        · cases hpath
      · obtain ⟨ending, hending, hends⟩ := List.any_eq_true.mp hmodule
        obtain ⟨stem, hstem⟩ := exists_append_of_endsWith hends
        have hends := isEnding_of_mem ending hending
        rw [List.mem_singleton.mp hpath, hstem]
        exact hreplaced hends hends hstem
    · cases hpath
  · obtain ⟨ending, hending, rfl⟩ := List.mem_map.mp hpath
    exact hrest ending (regular.endings ending hending)

-- ========================================================= declarations

theorem not_mem_flatMap_flatChar (cs : List Char) : '/' ∉ cs.flatMap flatChar := by
  intro hmem
  obtain ⟨c, -, hc⟩ := List.mem_flatMap.mp hmem
  unfold flatChar at hc
  split at hc
  · revert hc
    decide
  · next hslash => exact hslash (List.mem_singleton.mp hc).symm

/-- Type declarations are looked for under one name in a directory of their own. -/
theorem exists_declarationPackage (package : String) :
    ∃ name : String, '/' ∉ name.toList ∧
      declarationPackage package = "@types" ++ "/" ++ name := by
  refine ⟨String.ofList ((withoutStart package "@").toList.flatMap flatChar), ?_, rfl⟩
  rw [String.toList_ofList]
  exact not_mem_flatMap_flatChar _

theorem namesBeforeLast_declarationPackage (package : String) :
    NamesBeforeLast (declarationPackage package) := by
  intro ending h
  obtain ⟨name, hslash, hname⟩ := exists_declarationPackage package
  have htypes : OfNames "@types" := by decide
  rw [hname, String.append_assoc, FilePath.ofNames_append_slash]
  refine ⟨htypes, FilePath.ofNames_of_not_mem ?_ ?_⟩
  · rw [String.toList_append, List.mem_append]
    exact fun hmem => hmem.elim hslash h.no_slash
  · rw [String.toList_append]
    exact h.isName_append name.toList

/-- The declarations are not looked for outside the installed directory, even if their
name is a segment of dots. -/
theorem under_declarationPackage (place package : String) :
    Under place (join place (declarationPackage package)) := by
  have hrelative := (namesBeforeLast_declarationPackage package).isAbsolute_eq
  obtain ⟨name, hslash, hname⟩ := exists_declarationPackage package
  have hsteps : FilePath.steps (declarationPackage package).toList
      = .name "@types" :: (Component.ofSegment? name.toList).toList := by
    have htypes : FilePath.steps "@types".toList = [.name "@types"] := by decide
    have hlast : FilePath.steps name.toList = (Component.ofSegment? name.toList).toList := by
      rw [FilePath.steps, splitOn_of_not_mem hslash]
      cases h : Component.ofSegment? name.toList <;> simp [h]
    rw [hname, String.toList_append, String.toList_append, show "/".toList = ['/'] from rfl,
      List.append_assoc, List.singleton_append, FilePath.steps_append_slash, htypes, hlast]
    rfl
  unfold Under
  rw [FilePath.settled_join hrelative, hsteps, List.foldl_cons, FilePath.settle_name]
  unfold Component.ofSegment?
  split
  · exact ⟨[.name "@types"], by simp, by simp⟩
  · split
    · exact ⟨[], by simp, by simp [FilePath.settle]⟩
    · exact ⟨[.name "@types", .name (String.ofList name.toList)], by simp,
        by simp [FilePath.settle]⟩

-- =============================================================== places

/-- Where a specifier may lead, in the order of the search. -/
def places (installed : String) (config : CompilerConfig) (specifier file : String) :
    List String :=
  configured config specifier ++
    (ancestors (importingDirectory file)).flatMap (installedPlaces installed specifier)

theorem ofNames_subpath {subpath : String} (h : OfNames specifier)
    (hsub : Specifier.subpath? specifier = some subpath) : OfNames subpath := by
  have hdrop : dropStart? specifier (Specifier.packageName specifier ++ "/") = some subpath := by
    unfold Specifier.subpath? at hsub
    split at hsub
    · cases hsub
    · exact hsub
  rw [dropStart?_eq_some_iff.mp hdrop, FilePath.ofNames_append_slash] at h
  exact h.2

/-- To ask for the installed directory first makes no difference. -/
theorem holds?_eq (hs : s.Housed) (h : OfNames specifier) (dir : String) :
    holds? s installed specifier dir
      = ((installedPlaces installed specifier dir).flatMap (spelling.candidates s)).find?
          s.isFile := by
  rw [holds?, installedPlaces, Spelling.findSome?_found? regular hs]
  split
  · rfl
  · next hplace =>
    have hplace := Bool.eq_false_iff.mpr hplace
    have hself := FilePath.under_self (join dir installed)
    have hdeclared := under_declarationPackage (join dir installed)
      (Specifier.packageName specifier)
    refine (List.find?_eq_none.mpr fun path hpath => Bool.eq_false_iff.mp ?_).symm
    rw [List.flatMap_cons, List.flatMap_singleton, List.mem_append] at hpath
    rcases hpath with hpath | hpath
    · exact Spelling.isFile_candidates_eq_false regular hs hplace hself h.plain.isAbsolute_eq
        (hself.join h.plain) (ofNames_of_mem_files h.beforeLast) path hpath
    · unfold declarationPlace at hpath
      split at hpath
      · next subpath hsub =>
        have hnames := ofNames_subpath h hsub
        exact Spelling.isFile_candidates_eq_false regular hs hplace hdeclared
          hnames.plain.isAbsolute_eq (hdeclared.join hnames.plain)
          (ofNames_of_mem_files hnames.beforeLast) path hpath
      · have hnames := namesBeforeLast_declarationPackage (Specifier.packageName specifier)
        exact Spelling.isFile_candidates_eq_false regular hs hplace hself hnames.isAbsolute_eq
          hdeclared (ofNames_of_mem_files hnames) path hpath

-- =============================================================== answers

/-- What is found is a file, whatever the specifier. -/
theorem isFile_of_answer {path : String}
    (h : answer s installed config specifier file = .ok path) : s.isFile path = true := by
  have hfound := orNotFound_eq_ok_iff.mp h
  split at hfound
  · exact Spelling.isFile_of_found? hfound
  · rcases Option.or_eq_some_iff.mp hfound with hfound | ⟨-, hfound⟩
    · obtain ⟨place, -, hplace⟩ := List.exists_of_findSome?_eq_some hfound
      exact Spelling.isFile_of_found? hplace
    · obtain ⟨dir, -, hdir⟩ := List.exists_of_findSome?_eq_some hfound
      unfold holds? at hdir
      split at hdir
      · obtain ⟨place, -, hplace⟩ := List.exists_of_findSome?_eq_some hdir
        exact Spelling.isFile_of_found? hplace
      · cases hdir

/-- The compiler answers the first candidate that is a file. -/
theorem answer_eq_first (hs : s.Housed) (h : OfNames specifier) :
    answer s installed config specifier file
      = orNotFound specifier (((places installed config specifier file).flatMap
          (spelling.candidates s)).find? s.isFile) := by
  have hwalk : (ancestors (importingDirectory file)).findSome? (holds? s installed specifier)
      = (((ancestors (importingDirectory file)).flatMap
          (installedPlaces installed specifier)).flatMap (spelling.candidates s)).find?
            s.isFile := by
    rw [List.flatMap_assoc, List.find?_flatMap, funext (holds?_eq hs h)]
  simp only [answer, isPath_eq_false h, Bool.false_eq_true, if_false]
  rw [hwalk, Spelling.findSome?_found? regular hs, places, List.flatMap_append,
    List.find?_append]

/-- Where a specifier may lead: to a target of the closest alias, from the base URL, and
for each directory from that of the importing file outwards to what is installed under
its name or to the type declarations for it. -/
inductive MayLeadTo (installed : String) (config : CompilerConfig) (specifier file : String) :
    String → Prop where
  | target {targets : List String} {target : String}
      (hclosest : config.aliases.closest? specifier = some targets) (htarget : target ∈ targets) :
      MayLeadTo installed config specifier file (clean (join config.aliasBase target))
  | base {base : String} (hbase : config.baseUrl = some base) :
      MayLeadTo installed config specifier file (join base specifier)
  | package {dir : String} (hdir : dir ∈ ancestors (importingDirectory file)) :
      MayLeadTo installed config specifier file (join (join dir installed) specifier)
  | declarations {dir : String} (hdir : dir ∈ ancestors (importingDirectory file)) :
      MayLeadTo installed config specifier file (declarationPlace (join dir installed) specifier)

/-- A place that the specifier may lead to is tried, cleaned or as it is, with each ending
and with an index file inside it. -/
theorem MayLeadTo.exists_candidate (h : OfNames specifier)
    (hplace : MayLeadTo installed config specifier file place) {ending : String}
    (hending : ending ∈ endings) :
    ∃ tried ∈ places installed config specifier file,
      clean (tried ++ ending) = clean (place ++ ending) ∧
      clean (join tried "index" ++ ending) = clean (join place "index" ++ ending) := by
  have hends := regular.endings ending hending
  have hindex : OfNames "index" := by decide
  cases hplace with
  | target hclosest htarget =>
      refine ⟨_, List.mem_append_left _ (List.mem_append_left _ ?_), rfl, rfl⟩
      rw [hclosest]
      exact List.mem_map_of_mem htarget
  | @base base hbase =>
      refine ⟨clean (join base specifier), List.mem_append_left _ (List.mem_append_right _ ?_),
        ?_, ?_⟩
      · rw [hbase]
        exact List.mem_singleton_self _
      · rw [FilePath.clean_join_append base h hends, FilePath.clean_clean,
          FilePath.join_append base h.plain.isAbsolute_eq hends.no_slash]
      · rw [FilePath.join_append _ hindex.plain.isAbsolute_eq hends.no_slash,
          FilePath.join_append _ hindex.plain.isAbsolute_eq hends.no_slash,
          ← FilePath.clean_join]
  | package hdir =>
      refine ⟨_, List.mem_append_right _ (List.mem_flatMap.mpr ⟨_, hdir, ?_⟩), rfl, rfl⟩
      exact List.mem_cons_self ..
  | declarations hdir =>
      refine ⟨_, List.mem_append_right _ (List.mem_flatMap.mpr ⟨_, hdir, ?_⟩), rfl, rfl⟩
      exact List.mem_cons_of_mem _ (List.mem_cons_self ..)

/-- Whatever is remembered of the descriptors, the compiler finds only files. For a
specifier of names it answers the first file among all candidates, in the order of the
places that the specifier may lead to; so it finds nothing only if at none of these places
there is a file with one of the endings, nor an index file inside. -/
theorem resolve_finds_first (operations : List Operation) (installed : String)
    (config : CompilerConfig) (specifier file : String) {m : PackageFiles}
    (hm : Over (after operations) m) :
    let s := after operations
    let answer := (resolve installed config specifier file m).1
    (∀ path, answer = .ok path → s.isFile path = true) ∧
    (OfNames specifier →
      answer = orNotFound specifier (((places installed config specifier file).flatMap
        (spelling.candidates s)).find? s.isFile) ∧
      ∀ named, answer = .error (.moduleNotFound named) →
        ∀ place, MayLeadTo installed config specifier file place → ∀ ending ∈ endings,
          s.isFile (place ++ ending) = false ∧
            s.isFile (join place "index" ++ ending) = false) := by
  intro s answer
  have hs : s.Housed := FileStore.housed_after operations
  have hanswer : answer = Compiler.answer s installed config specifier file :=
    (answers_resolve installed config file m hm).1
  rw [hanswer]
  refine ⟨fun path => isFile_of_answer, fun h => ⟨answer_eq_first hs h, ?_⟩⟩
  intro named hnamed place hplace ending hending
  rw [answer_eq_first hs h, orNotFound_eq_error_iff, List.find?_eq_none] at hnamed
  obtain ⟨tried, htried, hfile, hindex⟩ := hplace.exists_candidate h hending
  have hnot : ∀ q ∈ spelling.candidates s tried, s.isFile q = false := fun q hq =>
    Bool.eq_false_iff.mpr (hnamed.1 q (List.mem_flatMap.mpr ⟨tried, htried, hq⟩))
  constructor
  · rw [← FileStore.isFile_clean, ← hfile, FileStore.isFile_clean]
    exact hnot _ (List.mem_append_left _ (List.mem_append_right _ (List.mem_map_of_mem hending)))
  · rw [← FileStore.isFile_clean, ← hindex, FileStore.isFile_clean]
    exact hnot _ (List.mem_append_right _ (List.mem_append_right _ (List.mem_map_of_mem hending)))

/-- A specifier with the ending of a compiled file leads from the base URL to the source. -/
theorem resolve_finds_first_source :
    let operations : List Operation := [.add "/ws/util.ts" "", .read "/ws/tsconfig.json"]
    let config : CompilerConfig := ⟨"/ws/tsconfig.json", some "/ws/app/..", .empty, "/ws"⟩
    Over (after operations) (.ofStore (after operations)) ∧ OfNames "util.js" ∧
      (resolve "node_modules" config "util.js" "/ws/app/x.ts" (.ofStore (after operations))).1
        = .ok "/ws/util.ts" := by
  intro operations config
  have hover := PackageFiles.over_ofStore (after operations)
  have hnames : OfNames "util.js" := by decide
  have hfirst := resolve_finds_first operations "node_modules" config "util.js" "/ws/app/x.ts"
    hover
  refine ⟨hover, hnames, (hfirst.2 hnames).1.trans (orNotFound_eq_ok_iff.mpr ?_)⟩
  decide +kernel

end ImportResolution.ModuleSearch.Compiler
