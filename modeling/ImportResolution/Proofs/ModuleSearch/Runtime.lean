/-
What the runtime finds for a specifier of names. The search of the runtime leaves a
directory of the walk early in many ways: it passes the installed directory itself, asks
for the directory it would look into, and takes the word of a package that declares entry
points. None of them loses a file: a directory of the walk yields something (`Yields`)
exactly if a package there has entry points that decide or one of the files that the
specifier may stand for is there (`says?_eq_none_iff`), and where no directory does the
specifier leads to nothing. The first directory that yields something decides alone
(`answer_of_first`).
-/
import ImportResolution.Proofs.ModuleSearch.Found

namespace ImportResolution.ModuleSearch.Runtime

open FilePath (IsEnding OfNames ancestors clean fileName? join)
open FileStore (Operation after)
open PackageFiles (Over)

variable {s : FileStore} {installed specifier file dir origin : String}

-- ============================================================= deciding

/-- The package in a directory has entry points, and the specifier asks for the package
as a whole: they decide what it means. -/
def Decides (s : FileStore) (specifier packageDir : String) (descriptor : PackageDescriptor) :
    Prop :=
  Specifier.subpath? specifier = none ∧ descriptorIn s packageDir = some descriptor ∧
    descriptor.entryPoints.isSome = true

theorem decider?_eq_some_iff {packageDir : String} {descriptor : PackageDescriptor} :
    decider? s specifier packageDir = some descriptor
      ↔ Decides s specifier packageDir descriptor := by
  unfold decider? Decides
  split
  · next hsub =>
    rw [Option.filter_eq_some_iff, and_iff_right (Option.isNone_iff_eq_none.mp hsub)]
  · next hsub => exact iff_of_false nofun fun h => hsub (Option.isNone_iff_eq_none.mpr h.1)

-- ============================================================== yielding

/-- A directory of the walk has something for a specifier: a package whose entry points
decide, or a file that the specifier may stand for. -/
def Yields (s : FileStore) (installed specifier dir : String) : Prop :=
  fileName? dir ≠ some installed ∧
    ((∃ descriptor, Decides s specifier (packageDir installed specifier dir) descriptor) ∨
      ∃ path ∈ spelling.candidates s (join (join dir installed) specifier),
        s.isFile path = true)

theorem regular : spelling.Regular where
  endings := by decide +kernel
  files_join base rest hrest := by
    have hends : ∀ ending ∈ endings, IsEnding ending := by decide +kernel
    show join base rest :: withEndings (join base rest) endings = _
    rw [withEndings_join hends base hrest]
    rfl

/-- A specifier of names stands for paths of names. -/
theorem ofNames_of_mem_files (h : OfNames specifier) :
    ∀ path ∈ spelling.files specifier, OfNames path := by
  refine List.forall_mem_cons.mpr ⟨h, fun path hpath => ?_⟩
  obtain ⟨ending, hending, rfl⟩ := List.mem_map.mp hpath
  exact h.append_ending (regular.endings ending hending)

/-- To ask for the installed directory first makes no difference. -/
theorem says?_eq (hs : s.Housed) (h : OfNames specifier) (hdir : fileName? dir ≠ some installed) :
    says? s installed specifier origin dir
      = match decider? s specifier (packageDir installed specifier dir) with
        | some descriptor =>
          some ((offer? s (packageDir installed specifier dir) descriptor).elim
            (.error (.packageNotFound (Specifier.packageName specifier) origin)) .ok)
        | none =>
          ((spelling.candidates s (join (join dir installed) specifier)).find?
            s.isFile).map .ok := by
  rw [says?, if_neg hdir, Spelling.found?_eq_find? regular hs]
  split
  · cases decider? s specifier (packageDir installed specifier dir) <;> rfl
  · next hplace =>
    have hplace := Bool.eq_false_iff.mpr hplace
    have hself := FilePath.under_self (join dir installed)
    have hnone : decider? s specifier (packageDir installed specifier dir) = none := by
      refine Option.eq_none_iff_forall_ne_some.mpr fun descriptor hd => ?_
      have hin := (decider?_eq_some_iff.mp hd).2.1
      rw [packageDir, descriptorIn_eq_none hs hplace
        (hself.join (ofNames_packageName h).plain)] at hin
      cases hin
    have hfiles := Spelling.isFile_candidates_eq_false regular hs hplace hself
      h.plain.isAbsolute_eq (hself.join h.plain) (ofNames_of_mem_files h)
    rw [hnone, List.find?_eq_none.mpr fun path hpath => Bool.eq_false_iff.mp (hfiles path hpath)]
    rfl

theorem says?_eq_none_iff (hs : s.Housed) (h : OfNames specifier) (origin : String) :
    says? s installed specifier origin dir = none ↔ ¬ Yields s installed specifier dir := by
  by_cases hdir : fileName? dir = some installed
  · rw [says?, if_pos hdir]
    exact iff_of_true rfl fun hyields => hyields.1 hdir
  · rw [says?_eq hs h hdir, Yields, and_iff_right hdir]
    simp only [← decider?_eq_some_iff]
    cases decider? s specifier (packageDir installed specifier dir) with
    | some descriptor => simp
    | none => simp [List.find?_eq_none]

-- ============================================================== offering

/-- What a package answers by its entry points alone: the file that its target leads to,
or else that there is no such package. -/
inductive Offers (s : FileStore) (specifier origin packageDir : String)
    (descriptor : PackageDescriptor) : Except Fault String → Prop where
  | file {target : String} (htarget : descriptor.rootTarget? conditions = some target)
      (hfile : s.isFile (clean (join packageDir target)) = true) :
      Offers s specifier origin packageDir descriptor (.ok (clean (join packageDir target)))
  | nothing (h : ∀ target, descriptor.rootTarget? conditions = some target →
      s.isFile (clean (join packageDir target)) = false) :
      Offers s specifier origin packageDir descriptor
        (.error (.packageNotFound (Specifier.packageName specifier) origin))

theorem offers_offer? (packageDir : String) (descriptor : PackageDescriptor) :
    Offers s specifier origin packageDir descriptor
      ((offer? s packageDir descriptor).elim
        (.error (.packageNotFound (Specifier.packageName specifier) origin)) .ok) := by
  unfold offer?
  cases htarget : descriptor.rootTarget? conditions with
  | none =>
      refine .nothing fun target h => ?_
      rw [htarget] at h
      cases h
  | some target =>
      rw [Option.bind_some, List.find?_singleton]
      split
      · next hfile => exact .file htarget hfile
      · next hfile =>
        refine .nothing fun other h => ?_
        rw [← Option.some.inj (htarget.symm.trans h)]
        exact Bool.eq_false_iff.mpr hfile

/-- A directory of the walk names a file that is there, or says that there is no such
package. -/
theorem says?_cases {a : Except Fault String}
    (h : says? s installed specifier origin dir = some a) :
    (∃ path, a = .ok path ∧ s.isFile path = true) ∨
      a = .error (.packageNotFound (Specifier.packageName specifier) origin) := by
  unfold says? at h
  split at h
  · cases h
  split at h
  · split at h
    · next descriptor hd =>
      have hoffers : Offers s specifier origin (packageDir installed specifier dir) descriptor a :=
        Option.some.inj h ▸ offers_offer? _ descriptor
      cases hoffers with
      | file htarget hfile => exact Or.inl ⟨_, rfl, hfile⟩
      | nothing _ => exact Or.inr rfl
    · obtain ⟨found, hfound, heq⟩ := Option.map_eq_some_iff.mp h
      exact Or.inl ⟨found, heq.symm, Spelling.isFile_of_found? hfound⟩
  · cases h

-- =============================================================== answers

/-- What is found is a file, whatever the specifier. -/
theorem isFile_of_answer {path : String} (h : answer s installed specifier file = .ok path) :
    s.isFile path = true := by
  simp only [answer] at h
  split at h
  · exact Spelling.isFile_of_found? (orNotFound_eq_ok_iff.mp h)
  · cases hfound : (ancestors (importingDirectory file)).findSome?
        (says? s installed specifier (importingDirectory file)) with
    | none =>
        rw [hfound] at h
        cases h
    | some a =>
        rw [hfound, Option.getD_some] at h
        obtain ⟨d, -, hd⟩ := List.exists_of_findSome?_eq_some hfound
        rcases says?_cases hd with ⟨found, rfl, hfile⟩ | rfl
        · exact Except.ok.inj h ▸ hfile
        · cases h

section Answer

variable (h : OfNames specifier)

include h

theorem answer_eq :
    answer s installed specifier file
      = ((ancestors (importingDirectory file)).findSome?
          (says? s installed specifier (importingDirectory file))).getD
        (.error (.moduleNotFound specifier)) := by
  simp only [answer, isPath_eq_false h, Bool.false_eq_true, if_false]

/-- A specifier leads to nothing exactly if no directory of the walk yields anything. -/
theorem answer_eq_moduleNotFound_iff (hs : s.Housed) {named : String} :
    answer s installed specifier file = .error (.moduleNotFound named)
      ↔ named = specifier ∧
        ∀ d ∈ ancestors (importingDirectory file), ¬ Yields s installed specifier d := by
  simp only [← says?_eq_none_iff hs h (importingDirectory file)]
  rw [answer_eq h, ← List.findSome?_eq_none_iff]
  cases hfound : (ancestors (importingDirectory file)).findSome?
      (says? s installed specifier (importingDirectory file)) with
  | none =>
      rw [Option.getD_none, Except.error.injEq, Fault.moduleNotFound.injEq]
      exact ⟨fun heq => ⟨heq.symm, rfl⟩, fun heq => heq.1.symm⟩
  | some a =>
      refine iff_of_false (fun heq => ?_) fun heq => ?_
      · obtain ⟨d, -, hd⟩ := List.exists_of_findSome?_eq_some hfound
        rw [Option.getD_some] at heq
        rcases says?_cases hd with ⟨found, rfl, -⟩ | rfl
        · cases heq
        · cases heq
      · cases heq.2

/-- The first directory of the walk that yields something decides alone. -/
theorem answer_of_first (hs : s.Housed) {inner outer : List String} {a : Except Fault String}
    (hwalk : ancestors (importingDirectory file) = inner ++ dir :: outer)
    (hinner : ∀ d ∈ inner, ¬ Yields s installed specifier d)
    (hdir : says? s installed specifier (importingDirectory file) dir = some a) :
    answer s installed specifier file = a := by
  have hnone : inner.findSome? (says? s installed specifier (importingDirectory file)) = none :=
    List.findSome?_eq_none_iff.mpr fun d hd => (says?_eq_none_iff hs h _).mpr (hinner d hd)
  rw [answer_eq h, hwalk, List.findSome?_append, hnone, List.findSome?_cons, hdir]
  rfl

end Answer

/-- Whatever is remembered of the descriptors, for a specifier of names the runtime finds
only files, and it finds nothing only if there is nothing to find for any directory from
that of the importing file outwards: neither what the specifier names in the installed
directory, as it stands or with an ending, nor an index file inside it. Where nothing
nearer yields anything, a package with entry points decides alone what its name means:
the file that its target leads to, or that there is no such package. -/
theorem resolve_misses_nothing (operations : List Operation) (installed : String)
    (h : OfNames specifier) (file : String) {m : PackageFiles} (hm : Over (after operations) m) :
    let s := after operations
    let walk := ancestors (importingDirectory file)
    let answer := (resolve installed specifier file m).1
    (∀ path, answer = .ok path → s.isFile path = true) ∧
    (∀ named, answer = .error (.moduleNotFound named)
      ↔ named = specifier ∧ ∀ d ∈ walk, ¬ Yields s installed specifier d) ∧
    (∀ named, answer = .error (.moduleNotFound named) →
      ∀ d ∈ walk, fileName? d ≠ some installed →
        let path := join (join d installed) specifier
        s.isFile path = false ∧ ∀ ending ∈ endings,
          s.isFile (path ++ ending) = false ∧ s.isFile (join path "index" ++ ending) = false) ∧
    ∀ inner d outer descriptor, walk = inner ++ d :: outer →
      (∀ e ∈ inner, ¬ Yields s installed specifier e) → fileName? d ≠ some installed →
      Decides s specifier (packageDir installed specifier d) descriptor →
      Offers s specifier (importingDirectory file) (packageDir installed specifier d) descriptor
        answer := by
  intro s walk answer
  have hs : s.Housed := FileStore.housed_after operations
  have hanswer : answer = Runtime.answer s installed specifier file :=
    (answers_resolve installed file m hm).1
  refine ⟨fun path hpath => isFile_of_answer (hanswer ▸ hpath), fun named => ?_, ?_,
    fun inner d outer descriptor hwalk hinner hname hdecides => ?_⟩
  · rw [hanswer]
    exact answer_eq_moduleNotFound_iff h hs
  · intro named hnamed d hd hname path
    rw [hanswer, answer_eq_moduleNotFound_iff h hs] at hnamed
    -- all of these files are candidates, and one that is there would be yielded
    have hnot : ∀ q ∈ spelling.candidates s path, s.isFile q = false := by
      refine fun q hq => Bool.eq_false_iff.mpr fun hfile => hnamed.2 d hd ?_
      exact ⟨hname, Or.inr ⟨q, hq, hfile⟩⟩
    have hindex : ∀ q ∈ spelling.indexes path, s.isFile q = false := fun q hq =>
      hnot q (List.mem_append_right _ (List.mem_append_right _ hq))
    refine ⟨hnot path (List.mem_append_left _ (List.mem_cons_self ..)),
      fun ending he => ⟨?_, ?_⟩⟩
    · exact hnot _ (List.mem_append_left _ (List.mem_cons_of_mem _ (List.mem_map_of_mem he)))
    · exact hindex _ (List.mem_map_of_mem he)
  · rw [hanswer, answer_of_first h hs hwalk hinner (by
      rw [says?_eq hs h hname, decider?_eq_some_iff.mpr hdecides])]
    exact offers_offer? _ descriptor

/-- The entry points of a package lead to a file that is missing: neither its main entry
nor its index file stands in, nor the copy further out. -/
theorem resolve_misses_nothing_without_target :
    let operations : List Operation := [
      .add "/ws/node_modules/pkg/package.json" "\x7b\"exports\":\"./x.js\",\"main\":\"y.js\"\x7d",
      .add "/ws/node_modules/pkg/y.js" "", .add "/ws/node_modules/pkg/index.js" "",
      .add "/node_modules/pkg/index.js" ""]
    OfNames "pkg" ∧ Over (after operations) (.ofStore (after operations)) ∧
      (resolve "node_modules" "pkg" "/ws/app/x.js" (.ofStore (after operations))).1
        = .error (.packageNotFound "pkg" "/ws/app") := by
  intro operations
  have hnames : OfNames "pkg" := by decide
  have hover := PackageFiles.over_ofStore (after operations)
  refine ⟨hnames, hover, ?_⟩
  have hdescriptor : (descriptorIn (after operations) "/ws/node_modules/pkg").map
      (fun d => (d.entryPoints.isSome, d.rootTarget? conditions)) = some (true, some "./x.js") := by
    decide +kernel
  obtain ⟨descriptor, hd, heq⟩ := Option.map_eq_some_iff.mp hdescriptor
  obtain ⟨hentry, htarget⟩ := Prod.mk.inj heq
  have hdir : packageDir "node_modules" "pkg" "/ws" = "/ws/node_modules/pkg" := by decide +kernel
  have hdecides : Decides (after operations) "pkg" (packageDir "node_modules" "pkg" "/ws")
      descriptor :=
    hdir ▸ ⟨by decide, hd, hentry⟩
  have hinner : ¬ Yields (after operations) "node_modules" "pkg" "/ws/app" := by
    rw [← says?_eq_none_iff (FileStore.housed_after operations) hnames "/ws/app",
      ← Option.isNone_iff_eq_none]
    decide +kernel
  have hmisses := resolve_misses_nothing operations "node_modules" hnames "/ws/app/x.js" hover
  have hoffers := hmisses.2.2.2 ["/ws/app"] "/ws" ["/"] descriptor (by decide +kernel)
    (List.forall_mem_singleton.mpr hinner) (by decide +kernel) hdecides
  have horigin : importingDirectory "/ws/app/x.js" = "/ws/app" := by decide +kernel
  have hpackage : Specifier.packageName "pkg" = "pkg" := by decide
  rw [hdir, horigin] at hoffers
  generalize (resolve "node_modules" "pkg" "/ws/app/x.js" (.ofStore (after operations))).1 = answer
    at hoffers ⊢
  cases hoffers with
  | nothing _ => rw [hpackage]
  | @file target htarget' hfile =>
      have hmissing : (after operations).isFile (clean (join "/ws/node_modules/pkg" "./x.js"))
          = false := by decide +kernel
      rw [htarget] at htarget'
      rw [← Option.some.inj htarget', hmissing] at hfile
      cases hfile

end ImportResolution.ModuleSearch.Runtime
