/-
Where the paths of a search get their spelling from, and what that does to the
circles. A relative or absolute entry is cleaned before it is followed; the
entry of a package is put after the directory that it is installed in, as it
stands. So a path that a search gets to is straight as long as entries of
packages only go down.

# Straight searches

Two straight paths to one file have the same components, so where packages are
named by names alone every return is noticed (`attentive_of_plain`): the search
ends, and it tells of every circle.

# Endless searches

A package entry that climbs can lead back to the file that states it, and each
time the path gets longer. If there is always a next path that is new, the
search has no answer (`optionsOf_eq_none_of_endless`).
-/
import ImportResolution.Proofs.CompilerConfig.Circles
import ImportResolution.Proofs.FilePath

namespace ImportResolution.CompilerConfig

open FilePath (components Straight Plain plain_of_name)
open FileStore (SameFiles)

variable {installed start path : String} {chain : List String} {s : FileStore}

-- ==================================================== straight searches

theorem plain_usualName : Plain "tsconfig.json" :=
  plain_of_name (show components "tsconfig.json" = [.name "tsconfig.json"] by decide)

theorem straight_spellings {q : String} (h : Straight (components path))
    (hq : q ∈ spellings path) : Straight (components q) := by
  unfold spellings at hq
  split at hq
  · rw [List.mem_singleton.mp hq]
    exact h
  · simp only [List.mem_cons, List.not_mem_nil, or_false] at hq
    rcases hq with rfl | rfl | rfl
    · exact h.append_ending (by decide) (by decide)
    · exact h.join plain_usualName
    · exact h

theorem straight_directoryOf (h : Straight (components path)) :
    Straight (components (directoryOf path)) := by
  unfold directoryOf
  cases hd : FilePath.parent? path with
  | none => exact FilePath.straight_nil
  | some d =>
      rw [Option.getD_some, FilePath.components_parent? hd]
      exact h.of_prefix (List.dropLast_prefix _)

/-- An entry is told without `..` where it names a package. -/
def PlainEntry (entry : String) : Prop :=
  WorkspacePath.isRelative entry = true ∨ FilePath.isAbsolute entry = true ∨ Plain entry

theorem straight_candidates {dir entry q : String} (hinstalled : Plain installed)
    (hdir : Straight (components dir)) (hentry : PlainEntry entry)
    (hq : q ∈ candidates installed dir entry) : Straight (components q) := by
  unfold candidates at hq
  by_cases hpath : (WorkspacePath.isRelative entry || FilePath.isAbsolute entry) = true
  · rw [if_pos hpath] at hq
    exact straight_spellings (FilePath.straight_clean _) hq
  · rw [if_neg hpath] at hq
    have hplain : Plain entry := by
      rw [Bool.or_eq_true] at hpath
      exact (or_assoc.mpr hentry).resolve_left hpath
    obtain ⟨d, hd, hq⟩ := List.mem_flatMap.mp hq
    have hstraight := hdir.of_prefix (FilePath.prefix_of_mem_ancestors hd)
    exact straight_spellings ((hstraight.join hinstalled).join hplain) hq

/-- The entries of all configuration files name packages without `..`. -/
def PlainEntries (s : FileStore) : Prop :=
  ∀ path file s', ConfigFile.load s path = (.ok file, s') → ∀ entry ∈ file.entries,
    PlainEntry entry

theorem Reached.straight (hinstalled : Plain installed) (hentries : PlainEntries s)
    (hstart : Straight (components start)) (h : Reached installed s start chain path) :
    Straight (components path) ∧ ∀ q ∈ chain, Straight (components q) := by
  induction h with
  | start => exact ⟨hstart, nofun⟩
  | @entry chain path s₁ s₂ file before entry after earlier parent reached new load entries
      inherits found ih =>
      obtain ⟨hpath, hchain⟩ := ih
      have hentry : PlainEntry entry := by
        refine hentries path file s₁ load entry ?_
        rw [entries]
        exact List.mem_append_right before (List.mem_cons_self ..)
      refine ⟨?_, fun q hq => ?_⟩
      · exact straight_candidates hinstalled (straight_directoryOf hpath) hentry
          (List.mem_of_find?_eq_some found)
      · rcases List.mem_append.mp hq with hq | hq
        · exact hchain q hq
        · rw [List.mem_singleton.mp hq]
          exact hpath

/-- Where packages are named by names alone, every return is noticed. -/
theorem attentive_of_plain (hinstalled : Plain installed) (hentries : PlainEntries s)
    (path : String) : Attentive installed s (FilePath.clean path) := by
  rintro chain p hreached ⟨q, hq, hclean⟩
  obtain ⟨hp, hchain⟩ :=
    hreached.straight hinstalled hentries (FilePath.straight_clean path)
  refine List.any_eq_true.mpr ⟨q, hq, FilePath.same_iff.mpr ?_⟩
  exact hp.components_eq_of_clean_eq (hchain q hq) hclean.symm

/-- Where packages are named by names alone, every search ends. -/
theorem isSome_optionsOf_of_plain (hinstalled : Plain installed) (hentries : PlainEntries s)
    (path : String) : (optionsOf installed [] (FilePath.clean path) s).isSome :=
  optionsOf_isSome_iff.mpr (Reached.start.ends (attentive_of_plain hinstalled hentries path))

-- ===================================================== endless searches

/-- The path is new, and the first entry of its file leads on. -/
def LeadsOn (installed : String) (s : FileStore) (chain : List String) (path parent : String) :
    Prop :=
  chain.any (FilePath.same path) = false ∧ ∃ file s' entry rest,
    ConfigFile.load s path = (.ok file, s') ∧ file.entries = entry :: rest ∧
      parentFile? s installed (directoryOf path) entry = some parent

/-- Where each path leads on to another there is no derivation. -/
theorem not_follows_of_endless {P : List String → String → Prop}
    (hnext : ∀ chain path, P chain path →
      ∃ parent, LeadsOn installed s chain path parent ∧ P (chain ++ [path]) parent)
    {t t' : FileStore} {answer : Except Fault Options} (hts : SameFiles t s)
    (hfollows : Follows installed chain path t answer t') : ¬ P chain path := by
  induction hfollows using Follows.rec
    (motive_2 := fun chain path entries _ t _ _ _ => SameFiles t s →
      ∀ entry rest parent, entries = entry :: rest →
        parentFile? s installed (directoryOf path) entry = some parent →
        ¬ P (chain ++ [path]) parent) with
  | circle again =>
      intro h
      obtain ⟨parent, ⟨hnew, -⟩, -⟩ := hnext _ _ h
      rw [again] at hnew
      cases hnew
  | unreadable new load =>
      intro h
      obtain ⟨parent, ⟨-, file, s', entry, rest, hload, -⟩, -⟩ := hnext _ _ h
      obtain ⟨t', hother, -⟩ := hts.load_transfer _ _ load
      cases hload.symm.trans hother
  | file new load inherits ih =>
      intro h
      obtain ⟨parent, ⟨-, file', s', entry, rest, hload, hentries, hfound⟩, hparent⟩ := hnext _ _ h
      obtain ⟨t', hother, -⟩ := hts.load_transfer _ _ load
      obtain rfl := Except.ok.inj (congrArg Prod.fst (hload.symm.trans hother))
      have hs₁ := (SameFiles.of_load _ _ load).trans hts
      exact ih hs₁ entry rest parent hentries hfound hparent
  | done =>
      rename_i hentries hfound
      cases hentries
  | missing found =>
      rename_i hts entry rest parent hentries hfound
      obtain ⟨rfl, rfl⟩ := List.cons_eq_cons.mp hentries
      rw [parentFile?_eq hts, hfound] at found
      cases found
  | failed found follows ih =>
      rename_i hts entry rest parent hentries hfound
      obtain ⟨rfl, rfl⟩ := List.cons_eq_cons.mp hentries
      rw [parentFile?_eq hts, hfound] at found
      obtain rfl := Option.some.inj found
      exact ih hts
  | next found follows inherits ih ih' =>
      rename_i hts entry rest parent hentries hfound
      obtain ⟨rfl, rfl⟩ := List.cons_eq_cons.mp hentries
      rw [parentFile?_eq hts, hfound] at found
      obtain rfl := Option.some.inj found
      exact ih hts

/-- Where each path leads on to another the search has no answer. -/
theorem optionsOf_eq_none_of_endless {P : List String → String → Prop}
    (hnext : ∀ chain path, P chain path →
      ∃ parent, LeadsOn installed s chain path parent ∧ P (chain ++ [path]) parent)
    (h : P chain path) : optionsOf installed chain path s = none := by
  cases hsearch : optionsOf installed chain path s with
  | none => rfl
  | some outcome =>
      obtain ⟨answer, s'⟩ := outcome
      exact absurd h
        (not_follows_of_endless hnext (SameFiles.refl s) (follows_of_optionsOf hsearch))
-- ======================================================== one such search

/-- A package entry that names a JSON file is found where it is installed next
to the file that states it. -/
theorem parentFile?_of_installed {dir entry : String}
    (hrelative : WorkspacePath.isRelative entry = false)
    (habsolute : FilePath.isAbsolute entry = false)
    (hjson : FilePath.extension? (FilePath.join (FilePath.join dir installed) entry)
      = some "json")
    (hfile : s.isFile (FilePath.join (FilePath.join dir installed) entry) = true) :
    parentFile? s installed dir entry
      = some (FilePath.join (FilePath.join dir installed) entry) := by
  obtain ⟨outwards, hdirs⟩ := FilePath.ancestors_eq_cons dir
  rw [parentFile?, candidates, hrelative, habsolute, if_neg (by decide), hdirs,
    List.flatMap_cons, spellings, if_pos hjson, List.singleton_append, List.find?_cons_of_pos hfile]

theorem components_installed {dir entry : String} (hdir : components dir ≠ [])
    (hinstalled : Plain installed) (hentry : FilePath.isAbsolute entry = false) :
    components (FilePath.join (FilePath.join dir installed) entry)
      = components dir ++ components installed ++ FilePath.steps entry.toList := by
  have hdir' : dir ≠ "" := by
    rintro rfl
    exact hdir rfl
  have hpackages : components (FilePath.join dir installed)
      = components dir ++ components installed := by
    rw [FilePath.components_join hdir' hinstalled.isAbsolute_eq, hinstalled.steps_eq]
  have hpackages' : FilePath.join dir installed ≠ "" := by
    intro hempty
    rw [hempty] at hpackages
    exact hdir (List.append_eq_nil_iff.mp hpackages.symm).1
  rw [FilePath.components_join hpackages' hentry, hpackages]

/-- A file that extends itself through a package entry, which climbs as far as
it goes down. -/
def endlessFiles : FileStore :=
  .ofFiles [("/ws/tsconfig.json", "\x7b\"extends\":\"x/../../tsconfig.json\"\x7d")]

/-- The directory of the file, in some spelling, is `/ws`. -/
def Circling (dir : List FilePath.Component) : Prop :=
  dir.foldl FilePath.settle [] = [.name "ws", .root]

/-- A spelling of the file that is longer than those on the chain. -/
def Endless (chain : List String) (path : String) : Prop :=
  ∃ dir, components path = dir ++ [.name "tsconfig.json"] ∧ Circling dir ∧
    ∀ q ∈ chain, (components q).length < (components path).length

theorem Circling.content? {dir : List FilePath.Component}
    (h : Circling dir) (hpath : components path = dir ++ [.name "tsconfig.json"]) :
    endlessFiles.content? path
      = some "\x7b\"extends\":\"x/../../tsconfig.json\"\x7d" := by
  have hclean : FilePath.clean path = "/ws/tsconfig.json" := by
    rw [FilePath.clean, FilePath.settled, hpath, List.foldl_append, h]
    decide +kernel
  rw [FileStore.content?, hclean]
  decide +kernel

/-- From each spelling the entry leads on to one that is longer. -/
theorem Endless.next (h : Endless chain path) :
    ∃ parent, LeadsOn "node_modules" endlessFiles chain path parent ∧
      Endless (chain ++ [path]) parent := by
  obtain ⟨dir, hpath, hdir, hchain⟩ := h
  obtain ⟨d, hparent, hd⟩ := FilePath.exists_parent?_of_concat hpath nofun
  have hdirectory : directoryOf path = d := by rw [directoryOf, hparent, Option.getD_some]
  let entry := "x/../../tsconfig.json"
  let next := FilePath.join (FilePath.join d "node_modules") entry
  let climb : List FilePath.Component := [.name "node_modules", .name "x", .up, .up]
  have hnext : components next = (dir ++ climb) ++ [.name "tsconfig.json"] := by
    have hne : components d ≠ [] := by
      rw [hd]
      rintro rfl
      cases hdir
    have hmodules : components "node_modules" = [.name "node_modules"] := by decide
    have hsteps : FilePath.steps entry.toList = [.name "x", .up, .up, .name "tsconfig.json"] := by
      decide +kernel
    rw [components_installed hne (plain_of_name hmodules) (by decide), hd, hmodules, hsteps,
      List.append_assoc, List.append_assoc]
    rfl
  have hclimb : Circling (dir ++ climb) := by
    rw [Circling, List.foldl_append, hdir]
    rfl
  have hfound : parentFile? endlessFiles "node_modules" (directoryOf path) entry = some next := by
    rw [hdirectory]
    refine parentFile?_of_installed (by decide) (by decide) ?_ ?_
    · rw [FilePath.extension?, FilePath.fileName?_of_name hnext]
      decide +kernel
    · rw [FileStore.isFile, hclimb.content? hnext]
      rfl
  have hfile : ConfigFile.ofText? "\x7b\"extends\":\"x/../../tsconfig.json\"\x7d"
      = some ⟨some (.one entry), none, none⟩ := by decide +kernel
  have hlonger : (components path).length < (components next).length := by
    simp [hpath, hnext, climb]
  refine ⟨next, ⟨?_, _, _, entry, [], load_of_content (hdir.content? hpath) hfile, rfl, hfound⟩,
    dir ++ climb, hnext, hclimb, ?_⟩
  · refine List.any_eq_false.mpr fun q hq hsame => ?_
    have hlength := hchain q hq
    rw [FilePath.same_iff.mp hsame] at hlength
    exact Nat.lt_irrefl _ hlength
  · intro q hq
    rcases List.mem_append.mp hq with hq | hq
    · exact Nat.lt_trans (hchain q hq) hlonger
    · rw [List.mem_singleton.mp hq]
      exact hlonger

/-- The search from that file never ends. -/
theorem optionsOf_endlessFiles :
    optionsOf "node_modules" [] "/ws/tsconfig.json" endlessFiles = none :=
  optionsOf_eq_none_of_endless (P := Endless) (fun _ _ h => h.next)
    ⟨[.root, .name "ws"], by decide +kernel, rfl, nofun⟩

end ImportResolution.CompilerConfig
