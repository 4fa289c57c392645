/-
The searches of the compiler and of the runtime from an importing file that is spelled with
detours. Whatever is joined to a directory is found the same under another spelling of the
directory (`Spelling.found?_join`), so a directory of the walk has the same to say however
it is spelled. But the walk goes up from the importing file as it is spelled, and where the
spelling has a `..` it may pass directories that do not lie around the file.

Whatever the files are, the compiler finds the same for an importing file and for its
cleaned path exactly if the walk passes no such directory; the runtime may still pass
installed directories, which it does not look into (`findsSame_clean_iff`). Any other
directory off the way makes a difference as soon as a single file is installed for it
(`installedOnly`).
-/
import ImportResolution.Proofs.ModuleSearch.Compiler
import ImportResolution.Proofs.ModuleSearch.Runtime

namespace ImportResolution

namespace FilePath

variable {p a b rest text : String}

-- ================================================================ walks

theorem fileName?_eq_some_iff :
    fileName? p = some text ↔ (components p).getLast? = some (.name text) := by
  unfold fileName?
  split
  · next found hlast => rw [hlast, Option.some.injEq, Option.some.injEq, Component.name.injEq]
  · next hlast => exact iff_of_false nofun fun h => hlast text h

/-- A name at the end of a path is still there when the path is cleaned. -/
theorem settled_of_fileName? (h : fileName? p = some text) :
    ∃ before, components p = before ++ [.name text] ∧
      settled p = (before.foldl settle []).reverse ++ [.name text] := by
  obtain ⟨before, hbefore⟩ := List.getLast?_eq_some_iff.mp (fileName?_eq_some_iff.mp h)
  refine ⟨before, hbefore, ?_⟩
  rw [settled_concat hbefore, settle_name, List.reverse_cons]

theorem fileName?_clean (h : fileName? p = some text) : fileName? (clean p) = some text := by
  obtain ⟨before, -, hsettled⟩ := settled_of_fileName? h
  exact fileName?_of_name ((components_clean p).trans hsettled)

/-- A search that finds the same under the cleaned paths of a walk finds on it what it
finds on the walk from the cleaned path, if whatever lies off the way has nothing. -/
theorem findSome?_walk_clean {α : Type} {find : String → Option α}
    (hsame : ∀ d ∈ ancestors p, find d = find (clean d))
    (hwalk : ∀ d ∈ ancestors p, clean d ∈ ancestors (clean p) ∨ find (clean d) = none) :
    (ancestors p).findSome? find = (ancestors (clean p)).findSome? find := by
  have hcongr {l : List String} (h : ∀ d ∈ l, find d = find (clean d)) :
      l.findSome? find = l.findSome? (find ∘ clean) := by
    have hfound := congrArg (List.findSome? id) (List.map_congr_left h)
    rwa [List.findSome?_map, List.findSome?_map] at hfound
  rw [hcongr hsame, hcongr fun d hd => by rw [clean_of_mem_ancestors (clean_clean p) hd]]
  refine @findSome?_ancestors_clean p α (find ∘ clean)
    (fun e => e ∈ ancestors (clean p) ∨ find (clean e) = none)
    (fun d => congrArg find (clean_clean d).symm) (fun d hd => ?_)
    fun e he houtside => he.resolve_left houtside
  rw [clean_clean]
  exact hwalk d hd

theorem clean_join_congr (h : clean a = clean b) (rest : String) :
    clean (join a rest) = clean (join b rest) := by
  rw [clean_join a, clean_join b, h]

theorem clean_join_plain_iff (h : Plain rest) :
    clean (join a rest) = clean (join b rest) ↔ clean a = clean b := by
  rw [clean_eq_iff, clean_eq_iff, settled_join_plain a h, settled_join_plain b h,
    List.append_left_inj]

/-- A file lies in the directory that is its parent. -/
theorem exists_parent?_of_fileName? (h : fileName? p = some text) :
    ∃ dir, parent? p = some dir ∧ settled p = settled dir ++ [.name text] := by
  obtain ⟨before, hbefore, hsettled⟩ := settled_of_fileName? h
  obtain ⟨dir, hdir, heq⟩ := exists_parent?_of_concat hbefore Component.noConfusion
  refine ⟨dir, hdir, ?_⟩
  rw [hsettled, settled, heq]

/-- The directory of a file can be taken before or after cleaning. -/
theorem importingDirectory_clean {file name : String} (h : fileName? file = some name) :
    ModuleSearch.importingDirectory (clean file)
      = clean (ModuleSearch.importingDirectory file) := by
  obtain ⟨dir, hdir, hstays⟩ := exists_parent?_of_fileName? h
  rw [ModuleSearch.importingDirectory, ModuleSearch.importingDirectory, hdir,
    parent?_clean_of_stays hstays Component.noConfusion, Option.getD_some, Option.getD_some]

end FilePath

namespace ModuleSearch

open FilePath (IsEnding OfNames Plain ancestors clean components fileName? isAbsolute join settled)
open FileStore (Operation after)
open PackageFiles (Over)

variable {s : FileStore} {installed specifier file dir d e p q : String}

-- ====================================================== spelled directories

theorem isDirectory_congr (h : clean p = clean q) : s.isDirectory p = s.isDirectory q := by
  rw [FileStore.isDirectory, FileStore.isDirectory, h]

theorem descriptorIn_congr (h : clean p = clean q) : descriptorIn s p = descriptorIn s q := by
  rw [descriptorIn, descriptorIn, FilePath.clean_join_congr h]

theorem find?_join_congr (names : List String) (h : clean p = clean q) :
    ((names.map (join p)).find? s.isFile).map clean
      = ((names.map (join q)).find? s.isFile).map clean := by
  rw [s.find?_join_clean names p, s.find?_join_clean names q, h]

section Spelling

variable {spelling : Spelling} (hspelling : spelling.Regular)

include hspelling

theorem Spelling.find?_inside_congr (h : clean p = clean q) :
    ((spelling.inside s p).find? s.isFile).map clean
      = ((spelling.inside s q).find? s.isFile).map clean := by
  have hentries : spelling.entryFiles p = spelling.entryFiles q := by
    funext entry
    rw [Spelling.entryFiles, Spelling.entryFiles, FilePath.clean_join_congr h]
  have hindex : isAbsolute "index" = false := by decide
  rw [Spelling.inside, Spelling.inside, descriptorIn_congr h, hentries, List.find?_append,
    List.find?_append, Option.map_or, Option.map_or, Spelling.indexes, Spelling.indexes,
    withEndings_join hspelling.endings p hindex, withEndings_join hspelling.endings q hindex,
    find?_join_congr _ h]

/-- What is joined to a directory stands for the same file under another spelling of the
directory. -/
theorem Spelling.found?_join (h : clean p = clean q) (rest : String) :
    (spelling.found? s (join p rest)).map clean = (spelling.found? s (join q rest)).map clean := by
  cases hrest : isAbsolute rest with
  | true => rw [join, join, if_pos hrest, if_pos hrest]
  | false =>
      have hjoin := FilePath.clean_join_congr h rest
      have hopens : spelling.opens s (join p rest) = spelling.opens s (join q rest) := by
        rw [Spelling.opens, Spelling.opens, isDirectory_congr hjoin]
      rw [Spelling.found?, Spelling.found?, Option.map_or, Option.map_or,
        hspelling.files_join p hrest, hspelling.files_join q hrest, find?_join_congr _ h, hopens]
      split
      · rw [find?_inside_congr hspelling hjoin]
      · rfl

end Spelling

-- ============================================================== outcomes

/-- The file that an answer leads to, if it leads to one, under its cleaned path. -/
def outcome (answer : Except Fault String) : Option String :=
  answer.toOption.map clean

theorem outcome_orNotFound (specifier : String) (found : Option String) :
    outcome (orNotFound specifier found) = found.map clean := by
  cases found <;> rfl

namespace Runtime

theorem decider?_congr (h : clean p = clean q) :
    decider? s specifier p = decider? s specifier q := by
  rw [decider?, decider?, descriptorIn_congr h]

theorem offer?_congr (h : clean p = clean q) (descriptor : PackageDescriptor) :
    offer? s p descriptor = offer? s q descriptor := by
  simp only [offer?, FilePath.clean_join_congr h]

/-- A directory of the walk says the same under another spelling, unless it is named as the
installed directory. -/
theorem outcome_says?_congr {origin origin' : String} (h : clean d = clean e)
    (hd : fileName? d ≠ some installed) (he : fileName? e ≠ some installed) :
    (says? s installed specifier origin d).map outcome
      = (says? s installed specifier origin' e).map outcome := by
  have hplace := FilePath.clean_join_congr h installed
  have hpackage : clean (packageDir installed specifier d)
      = clean (packageDir installed specifier e) := FilePath.clean_join_congr hplace _
  rw [says?, says?, if_neg hd, if_neg he, isDirectory_congr hplace, decider?_congr hpackage]
  split
  · cases decider? s specifier (packageDir installed specifier e) with
    | some descriptor =>
        dsimp only
        rw [offer?_congr hpackage]
        cases offer? s (packageDir installed specifier e) descriptor <;> rfl
    | none =>
        have hok : outcome ∘ Except.ok = some ∘ clean := rfl
        dsimp only
        rw [Option.map_map, Option.map_map, hok, ← Option.map_map, ← Option.map_map,
          Spelling.found?_join regular hplace]
  · rfl

theorem says?_named {origin : String} (h : fileName? d = some installed) :
    says? s installed specifier origin d = none := by
  rw [says?, if_pos h]

theorem outcome_answer :
    outcome (answer s installed specifier file)
      = if isPath specifier then
          (spelling.found? s (clean (join (importingDirectory file) specifier))).map clean
        else ((ancestors (importingDirectory file)).findSome? fun d =>
          (says? s installed specifier (importingDirectory file) d).map outcome).getD none := by
  simp only [answer]
  split
  · exact outcome_orNotFound ..
  · rw [← Function.comp_def (Option.map outcome), ← List.map_findSome?]
    cases (ancestors (importingDirectory file)).findSome? _ <;> rfl

/-- The runtime finds the same from the cleaned path if the walk looks into no directory
off the way, and into none that is the installed directory under another spelling. -/
theorem outcome_answer_clean {name : String} (hfile : fileName? file = some name)
    (h : ∀ d ∈ ancestors (importingDirectory file), fileName? d ≠ some installed →
      clean d ∈ ancestors (importingDirectory (clean file)) ∧
        fileName? (clean d) ≠ some installed) :
    outcome (answer s installed specifier file)
      = outcome (answer s installed specifier (clean file)) := by
  rw [FilePath.importingDirectory_clean hfile] at h
  rw [outcome_answer, outcome_answer, FilePath.importingDirectory_clean hfile,
    ← FilePath.clean_join]
  split
  · rfl
  · have horigin : (fun d => (says? s installed specifier (clean (importingDirectory file)) d).map
          outcome)
        = fun d => (says? s installed specifier (importingDirectory file) d).map outcome := by
      funext d
      by_cases hd : fileName? d = some installed
      · rw [says?_named hd, says?_named hd]
      · exact outcome_says?_congr rfl hd hd
    rw [horigin, FilePath.findSome?_walk_clean]
    · intro d hd
      by_cases hname : fileName? d = some installed
      · rw [says?_named hname, says?_named (FilePath.fileName?_clean hname)]
      · exact outcome_says?_congr (FilePath.clean_clean d).symm hname (h d hd hname).2
    · intro d hd
      by_cases hname : fileName? d = some installed
      · rw [says?_named (FilePath.fileName?_clean hname)]
        exact Or.inr rfl
      · exact Or.inl (h d hd hname).1

end Runtime

namespace Compiler

variable {config : CompilerConfig}

theorem holds?_congr (h : clean d = clean e) :
    (holds? s installed specifier d).map clean = (holds? s installed specifier e).map clean := by
  have hplace := FilePath.clean_join_congr h installed
  rw [holds?, holds?, isDirectory_congr hplace]
  split
  · have hdeclared : (spelling.found? s (declarationPlace (join d installed) specifier)).map clean
        = (spelling.found? s (declarationPlace (join e installed) specifier)).map clean := by
      unfold declarationPlace
      split
      · exact Spelling.found?_join regular (FilePath.clean_join_congr hplace _) _
      · exact Spelling.found?_join regular hplace _
    rw [List.map_findSome?, List.map_findSome?]
    simp only [installedPlaces, List.findSome?_cons, Function.comp_apply, hdeclared,
      Spelling.found?_join regular hplace specifier]
  · rfl

theorem outcome_answer :
    outcome (answer s installed config specifier file)
      = if isPath specifier then
          (spelling.found? s (clean (join (importingDirectory file) specifier))).map clean
        else (((configured config specifier).findSome? (spelling.found? s)).map clean).or
          ((ancestors (importingDirectory file)).findSome? fun d =>
            (holds? s installed specifier d).map clean) := by
  simp only [answer, outcome_orNotFound]
  split
  · rfl
  · rw [Option.map_or, ← Function.comp_def (Option.map clean), ← List.map_findSome?]

/-- The compiler finds the same from the cleaned path if the walk passes no directory off
the way. -/
theorem outcome_answer_clean {name : String} (hfile : fileName? file = some name)
    (h : ∀ d ∈ ancestors (importingDirectory file),
      clean d ∈ ancestors (importingDirectory (clean file))) :
    outcome (answer s installed config specifier file)
      = outcome (answer s installed config specifier (clean file)) := by
  rw [FilePath.importingDirectory_clean hfile] at h
  rw [outcome_answer, outcome_answer, FilePath.importingDirectory_clean hfile,
    ← FilePath.clean_join, FilePath.findSome?_walk_clean]
  · exact fun d _ => holds?_congr (FilePath.clean_clean d).symm
  · exact fun d hd => Or.inl (h d hd)

end Compiler

-- ============================================================== detours

/-- What is added where a single file is installed for a directory. -/
def installedOnly (installed dir : String) : List Operation :=
  [.add (join (join dir installed) "@scope/pkg.js") ""]

section InstalledOnly

variable {base rest : String}

theorem isFile_installedOnly :
    (after (installedOnly installed dir)).isFile p = true
      ↔ clean p = clean (join (join dir installed) "@scope/pkg.js") := by
  show (FileStore.empty.add _ "").isFile p = true ↔ _
  rw [FileStore.isFile, FileStore.content?_add]
  split
  · next hsame => exact iff_of_true rfl hsame
  · next hother => exact iff_of_false Bool.false_ne_true hother

/-- What is joined to a directory is this file only if it has the name of the file. -/
theorem fileName?_of_installedOnly (hrest : OfNames rest)
    (h : (after (installedOnly installed dir)).isFile (join base rest) = true) :
    fileName? rest = some "pkg.js" := by
  have hfile : OfNames "@scope/pkg.js" := by decide
  have hlast : (components "@scope/pkg.js").getLast? = some (.name "pkg.js") := by decide
  rw [isFile_installedOnly, FilePath.clean_eq_iff, FilePath.settled_join_plain base hrest.plain,
    FilePath.settled_join_plain _ hfile.plain] at h
  have hends := congrArg List.getLast? h
  rwa [List.getLast?_append_of_ne_nil _ hrest.components_ne_nil,
    List.getLast?_append_of_ne_nil _ hfile.components_ne_nil, hlast,
    ← FilePath.fileName?_eq_some_iff] at hends

theorem descriptorIn_installedOnly (path : String) :
    descriptorIn (after (installedOnly installed dir)) path = none := by
  have hname : OfNames PackageFiles.descriptorName := by decide
  have hother : fileName? PackageFiles.descriptorName ≠ some "pkg.js" := by decide
  exact Option.eq_none_iff_forall_ne_some.mpr fun descriptor h =>
    hother (fileName?_of_installedOnly hname (isFile_of_descriptorIn h))

/-- The candidates of a path that are this file. -/
theorem isFile_candidates_installedOnly {spelling : Spelling} (hspelling : spelling.Regular)
    (hrest : isAbsolute rest = false)
    (hfiles : ∀ name ∈ spelling.files rest, OfNames name ∧
      (fileName? name = some "pkg.js" → name = "@scope/pkg.js"))
    (hindexes : ∀ ending ∈ spelling.endings, fileName? ("index" ++ ending) ≠ some "pkg.js") :
    (∃ path ∈ spelling.candidates (after (installedOnly installed dir)) (join base rest),
      (after (installedOnly installed dir)).isFile path = true)
      ↔ "@scope/pkg.js" ∈ spelling.files rest ∧ clean base = clean (join dir installed) := by
  have hfile : OfNames "@scope/pkg.js" := by decide
  have hindex : OfNames "index" := by decide
  constructor
  · rintro ⟨path, hpath, hthere⟩
    rcases List.mem_append.mp hpath with hpath | hpath
    · rw [hspelling.files_join base hrest] at hpath
      obtain ⟨name, hname, rfl⟩ := List.mem_map.mp hpath
      obtain ⟨hnames, honly⟩ := hfiles name hname
      obtain rfl := honly (fileName?_of_installedOnly hnames hthere)
      rw [isFile_installedOnly, FilePath.clean_join_plain_iff hfile.plain] at hthere
      exact ⟨hname, hthere⟩
    · rw [Spelling.inside, descriptorIn_installedOnly] at hpath
      obtain ⟨ending, hending, rfl⟩ := List.mem_map.mp hpath
      have hends := hspelling.endings ending hending
      rw [FilePath.join_append _ hindex.plain.isAbsolute_eq hends.no_slash] at hthere
      exact absurd (fileName?_of_installedOnly (hindex.append_ending hends) hthere)
        (hindexes ending hending)
  · rintro ⟨hmem, hbase⟩
    refine ⟨join base "@scope/pkg.js", List.mem_append_left _ ?_, ?_⟩
    · rw [hspelling.files_join base hrest]
      exact List.mem_map_of_mem hmem
    · rw [isFile_installedOnly, FilePath.clean_join_plain_iff hfile.plain]
      exact hbase

theorem ofNames_scoped : OfNames "@scope/pkg" := by
  decide

variable (hinstalled : Plain installed)

-- ================================================ a file for the runtime

theorem Runtime.exists_ok_of_says? {origin : String} {a : Except Fault String}
    (h : says? (after (installedOnly installed dir)) installed "@scope/pkg" origin e = some a) :
    ∃ path, a = .ok path := by
  have hname : fileName? e ≠ some installed := fun hname => by
    rw [says?_named hname] at h
    cases h
  have hnone : decider? (after (installedOnly installed dir)) "@scope/pkg"
      (packageDir installed "@scope/pkg" e) = none := by
    rw [decider?, descriptorIn_installedOnly]
    split <;> rfl
  rw [says?_eq (FileStore.housed_after _) ofNames_scoped hname, hnone] at h
  obtain ⟨path, -, rfl⟩ := Option.map_eq_some_iff.mp h
  exact ⟨path, rfl⟩

include hinstalled in
theorem Runtime.yields_installedOnly :
    Yields (after (installedOnly installed dir)) installed "@scope/pkg" e
      ↔ fileName? e ≠ some installed ∧ clean e = clean dir := by
  have hsilent : ¬ ∃ descriptor, Decides (after (installedOnly installed dir)) "@scope/pkg"
      (packageDir installed "@scope/pkg" e) descriptor := by
    rintro ⟨descriptor, -, hd, -⟩
    rw [descriptorIn_installedOnly] at hd
    cases hd
  have hfiles : ∀ name ∈ spelling.files "@scope/pkg", OfNames name ∧
      (fileName? name = some "pkg.js" → name = "@scope/pkg.js") := by decide +kernel
  have hindexes : ∀ ending ∈ spelling.endings,
      fileName? ("index" ++ ending) ≠ some "pkg.js" := by decide +kernel
  have hmem : "@scope/pkg.js" ∈ spelling.files "@scope/pkg" := by decide +kernel
  rw [Yields, or_iff_right hsilent, isFile_candidates_installedOnly regular (by decide) hfiles
    hindexes, and_iff_right hmem, FilePath.clean_join_plain_iff hinstalled]

include hinstalled in
theorem Runtime.outcome_installedOnly :
    outcome (answer (after (installedOnly installed dir)) installed "@scope/pkg" file) = none
      ↔ ∀ e ∈ ancestors (importingDirectory file), fileName? e ≠ some installed →
        clean e ≠ clean dir := by
  have hmissing : answer (after (installedOnly installed dir)) installed "@scope/pkg" file
      = .error (.moduleNotFound "@scope/pkg") ↔ _ :=
    answer_eq_moduleNotFound_iff ofNames_scoped (FileStore.housed_after _)
  simp only [yields_installedOnly hinstalled, true_and, not_and] at hmissing
  rw [← hmissing, answer_eq ofNames_scoped]
  cases hfound : (ancestors (importingDirectory file)).findSome? (says?
      (after (installedOnly installed dir)) installed "@scope/pkg" (importingDirectory file)) with
  | none => exact iff_of_true rfl rfl
  | some a =>
      obtain ⟨e, -, he⟩ := List.exists_of_findSome?_eq_some hfound
      obtain ⟨path, rfl⟩ := exists_ok_of_says? he
      exact iff_of_false nofun nofun

-- =============================================== a file for the compiler

/-- A configuration with neither a base URL nor aliases. -/
def plainConfig : CompilerConfig :=
  ⟨"/tsconfig.json", none, .empty, "/"⟩

include hinstalled in
theorem Compiler.isFile_candidates_installedOnly :
    (∃ place ∈ installedPlaces installed "@scope/pkg" e, ∃ path ∈ spelling.candidates
      (after (installedOnly installed dir)) place,
        (after (installedOnly installed dir)).isFile path = true) ↔ clean e = clean dir := by
  have hdeclared : declarationPlace (join e installed) "@scope/pkg"
      = join (join e installed) "@types/scope__pkg" := by
    have hpackage : declarationPackage (Specifier.packageName "@scope/pkg")
        = "@types/scope__pkg" := by decide +kernel
    have hsub : Specifier.subpath? "@scope/pkg" = none := by decide +kernel
    rw [declarationPlace, hsub, hpackage]
  have hfiles : ∀ rest ∈ ["@scope/pkg", "@types/scope__pkg"], ∀ name ∈ spelling.files rest,
      OfNames name ∧ (fileName? name = some "pkg.js" → name = "@scope/pkg.js") := by
    decide +kernel
  have hindexes : ∀ ending ∈ spelling.endings,
      fileName? ("index" ++ ending) ≠ some "pkg.js" := by decide +kernel
  have hmem : "@scope/pkg.js" ∈ spelling.files "@scope/pkg" := by decide +kernel
  have hnot : "@scope/pkg.js" ∉ spelling.files "@types/scope__pkg" := by decide +kernel
  rw [installedPlaces, hdeclared, List.exists_mem_cons_iff, List.exists_mem_cons_iff,
    ModuleSearch.isFile_candidates_installedOnly regular (by decide)
      (hfiles _ (List.mem_cons_self ..)) hindexes,
    ModuleSearch.isFile_candidates_installedOnly regular (by decide)
      (hfiles _ (List.mem_cons_of_mem _ (List.mem_cons_self ..))) hindexes,
    and_iff_right hmem, FilePath.clean_join_plain_iff hinstalled]
  simp [hnot]

include hinstalled in
theorem Compiler.outcome_installedOnly :
    outcome (answer (after (installedOnly installed dir)) installed plainConfig "@scope/pkg" file)
      = none ↔ ∀ e ∈ ancestors (importingDirectory file), clean e ≠ clean dir := by
  have hplaces : places installed plainConfig "@scope/pkg" file
      = (ancestors (importingDirectory file)).flatMap
          (installedPlaces installed "@scope/pkg") := rfl
  rw [answer_eq_first (FileStore.housed_after _) ofNames_scoped, outcome_orNotFound,
    Option.map_eq_none_iff, List.find?_eq_none, hplaces]
  simp only [ne_eq, ← Compiler.isFile_candidates_installedOnly hinstalled, List.mem_flatMap]
  grind

end InstalledOnly

-- ========================================================== the condition

section Condition

variable {resolve : ModuleResolver} {answer : FileStore → String → String → Except Fault String}
  (hanswers : ∀ s specifier file,
    Answers (Over s) (resolve specifier file) (answer s specifier file))

/-- Whatever the files are and whatever is remembered of them, a search finds the same for
two importing files. -/
def FindsSame (resolve : ModuleResolver) (file file' : String) : Prop :=
  ∀ operations specifier m m', Over (after operations) m → Over (after operations) m' →
    outcome (resolve specifier file m).1 = outcome (resolve specifier file' m').1

include hanswers

theorem findsSame_iff {file' : String} :
    FindsSame resolve file file' ↔ ∀ operations specifier,
      outcome (answer (after operations) specifier file)
        = outcome (answer (after operations) specifier file') := by
  have hanswer {operations : List Operation} {specifier m} (hm : Over (after operations) m)
      (file : String) : (resolve specifier file m).1 = answer (after operations) specifier file :=
    (hanswers _ specifier file m hm).1
  constructor
  · intro h operations specifier
    have hover := PackageFiles.over_ofStore (after operations)
    rw [← hanswer hover file, ← hanswer hover file']
    exact h operations specifier _ _ hover hover
  · intro h operations specifier m m' hm hm'
    rw [hanswer hm, hanswer hm']
    exact h operations specifier

/-- A file that is installed for a directory of the walk is found from the cleaned path
only if the search looks into this directory there. -/
theorem FindsSame.around {looks : String → Prop} {name : String}
    (hsees : ∀ dir file, outcome (answer (after (installedOnly installed dir)) "@scope/pkg" file)
      = none ↔ ∀ e ∈ ancestors (importingDirectory file), looks e → clean e ≠ clean dir)
    (hfile : fileName? file = some name) (h : FindsSame resolve file (clean file))
    (hdir : dir ∈ ancestors (importingDirectory file)) (hlooks : looks dir) :
    clean dir ∈ ancestors (importingDirectory (clean file)) ∧ looks (clean dir) := by
  have hsame := (findsSame_iff hanswers).mp h (installedOnly installed dir) "@scope/pkg"
  have hfound := mt (hsees dir file).mp fun hnone => hnone dir hdir hlooks rfl
  rw [hsame, hsees, FilePath.importingDirectory_clean hfile] at hfound
  simp only [ne_eq, Classical.not_forall, Classical.not_not, exists_prop] at hfound
  obtain ⟨e, he, hthere, heq⟩ := hfound
  rw [FilePath.clean_of_mem_ancestors (FilePath.clean_clean _) he] at heq
  rw [FilePath.importingDirectory_clean hfile]
  exact heq ▸ ⟨he, hthere⟩

end Condition

/-- The runtime finds the same for an importing file and for its cleaned path exactly if
every directory that it looks into on the walk from the file as it is spelled lies around
the file, and none is the installed directory under another spelling; and the compiler
does exactly if every directory of that walk lies around the file. -/
theorem findsSame_clean_iff {name : String} (hinstalled : Plain installed)
    (hfile : fileName? file = some name) :
    (FindsSame (Runtime.resolve installed) file (clean file) ↔
      ∀ d ∈ ancestors (importingDirectory file), fileName? d ≠ some installed →
        clean d ∈ ancestors (importingDirectory (clean file)) ∧
          fileName? (clean d) ≠ some installed) ∧
    ((∀ config, FindsSame (Compiler.resolve installed config) file (clean file)) ↔
      ∀ d ∈ ancestors (importingDirectory file),
        clean d ∈ ancestors (importingDirectory (clean file))) := by
  have hruntime : ∀ s specifier file, Answers (Over s) (Runtime.resolve installed specifier file)
      (Runtime.answer s installed specifier file) :=
    fun _ _ file => Runtime.answers_resolve installed file
  have hcompiler : ∀ config s specifier file,
      Answers (Over s) (Compiler.resolve installed config specifier file)
        (Compiler.answer s installed config specifier file) :=
    fun config _ _ file => Compiler.answers_resolve installed config file
  refine ⟨⟨fun h d => h.around hruntime
      (fun _ _ => Runtime.outcome_installedOnly hinstalled) hfile, fun h => ?_⟩,
    ⟨fun h d hd => ?_, fun h config => ?_⟩⟩
  · exact (findsSame_iff hruntime).mpr fun _ _ => Runtime.outcome_answer_clean hfile h
  · have hsees (dir file : String) : outcome (Compiler.answer (after (installedOnly installed dir))
        installed plainConfig "@scope/pkg" file) = none ↔
          ∀ e ∈ ancestors (importingDirectory file), True → clean e ≠ clean dir := by
      simp only [Compiler.outcome_installedOnly hinstalled, forall_const]
    exact ((h plainConfig).around (hcompiler plainConfig) hsees hfile hd trivial).1
  · exact (findsSame_iff (hcompiler config)).mpr fun _ _ => Compiler.outcome_answer_clean hfile h

/-- A walk may turn back to where it has been; and where it passes the inside of the
installed directory, the runtime does not look into it. -/
theorem findsSame_clean_iff_turning :
    Plain "node_modules" ∧ fileName? "/ws/app/../app/x.ts" = some "x.ts" ∧
      FindsSame (Runtime.resolve "node_modules") "/ws/app/../app/x.ts" "/ws/app/x.ts" ∧
      (∀ config, FindsSame (Compiler.resolve "node_modules" config)
        "/ws/app/../app/x.ts" "/ws/app/x.ts") ∧
      FindsSame (Runtime.resolve "node_modules") "/ws/node_modules/../app/x.ts" "/ws/app/x.ts" ∧
      ¬ ∀ config, FindsSame (Compiler.resolve "node_modules" config)
        "/ws/node_modules/../app/x.ts" "/ws/app/x.ts" := by
  have hcomponents : components "node_modules" = [.name "node_modules"] := by decide
  have hinstalled := FilePath.plain_of_name hcomponents
  have hturning : fileName? "/ws/app/../app/x.ts" = some "x.ts" := by decide +kernel
  have hpassing : fileName? "/ws/node_modules/../app/x.ts" = some "x.ts" := by decide +kernel
  have hclean : clean "/ws/app/../app/x.ts" = "/ws/app/x.ts" := by decide +kernel
  have hclean' : clean "/ws/node_modules/../app/x.ts" = "/ws/app/x.ts" := by decide +kernel
  obtain ⟨hruntime, hcompiler⟩ := findsSame_clean_iff hinstalled hturning
  obtain ⟨hruntime', hcompiler'⟩ := findsSame_clean_iff hinstalled hpassing
  rw [hclean] at hruntime hcompiler
  rw [hclean'] at hruntime' hcompiler'
  exact ⟨hinstalled, hturning, hruntime.mpr (by decide +kernel),
    hcompiler.mpr (by decide +kernel), hruntime'.mpr (by decide +kernel),
    mt hcompiler'.mp (by decide +kernel)⟩

/-- Of a file beside the directory that a detour leads through, both searches find a
package that is installed for that directory; from the cleaned path they find nothing. -/
theorem findsSame_beside :
    let m := PackageFiles.ofStore (after [.add "/ws/node_modules/pkg/index.js" ""])
    let file := "/ws/../other/x.js"
    isAbsolute file = true ∧ fileName? file = some "x.js" ∧ clean file = "/other/x.js" ∧
      outcome (Runtime.resolve "node_modules" "pkg" file m).1
        = some "/ws/node_modules/pkg/index.js" ∧
      outcome (Runtime.resolve "node_modules" "pkg" "/other/x.js" m).1 = none ∧
      outcome (Compiler.resolve "node_modules" plainConfig "pkg" file m).1
        = some "/ws/node_modules/pkg/index.js" ∧
      outcome (Compiler.resolve "node_modules" plainConfig "pkg" "/other/x.js" m).1 = none := by
  intro m file
  decide +kernel

end ModuleSearch

end ImportResolution
