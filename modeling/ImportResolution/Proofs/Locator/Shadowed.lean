/-
Installed packages that repeat the name and the version of an earlier one. The search for
them walks through the packages with a list of what it has met, and finds a package
exactly if one at an earlier place has its name and version
(`duplicateExternals_eq_repeats`).

A descriptor is matched to the first package that it describes. So the packages that
repeat nothing are the ones that are matched (`find?_of_mem_originals`), whatever stands in
their shadow may be left out of the search for the first (`find?_originals`), and a
locator that never heard of the shadowed packages cannot be told apart from one that
did, call after call (`resolveAll_without_duplicates`).
-/
import ImportResolution.Proofs.Locator.Declared

namespace ImportResolution

namespace WorkspaceGraph

variable {externals before rest : List External} {e : External} {name version : String}

-- ============================================================== repeats

/-- A package with its place among others: one at an earlier place has its name and its
version. -/
def repeatsEarlier (externals : List External) (e : External × Nat) : Bool :=
  (externals.take e.2).any (·.describes e.1.packageName e.1.version)

/-- The packages that repeat an earlier one, in order. -/
def repeats (externals : List External) : List External :=
  (externals.zipIdx.filter (repeatsEarlier externals)).map Prod.fst

/-- The packages at all other places, in order. -/
def originals (externals : List External) : List External :=
  (externals.zipIdx.filter (!repeatsEarlier externals ·)).map Prod.fst

theorem repeatsEarlier_length :
    repeatsEarlier (before ++ e :: rest) (e, before.length)
      = before.any (·.describes e.packageName e.version) := by
  rw [repeatsEarlier, List.take_left]

theorem describes_iff :
    e.describes name version = true ↔ (e.packageName, e.version) = (name, version) := by
  rw [External.describes, Bool.and_eq_true, beq_iff_eq, beq_iff_eq, Prod.mk.injEq]

theorem any_describes_iff :
    before.any (·.describes name version) = true
      ↔ (name, version) ∈ before.map fun e => (e.packageName, e.version) := by
  simp only [List.any_eq_true, List.mem_map, describes_iff]

/-- What has been met is what stands before. -/
theorem shadowed_eq {seen : List (String × String)}
    (hseen : ∀ pair, pair ∈ seen ↔ pair ∈ before.map fun e => (e.packageName, e.version)) :
    shadowed seen rest
      = ((rest.zipIdx before.length).filter (repeatsEarlier (before ++ rest))).map Prod.fst := by
  induction rest generalizing seen before with
  | nil => rfl
  | cons e rest ih =>
      have hmet : (e.packageName, e.version) ∈ seen
          ↔ repeatsEarlier (before ++ e :: rest) (e, before.length) = true := by
        rw [hseen, repeatsEarlier_length, any_describes_iff]
      have hnext := @ih (before ++ [e])
      rw [List.append_assoc, List.singleton_append, List.length_append, List.length_singleton]
        at hnext
      rw [shadowed, List.zipIdx_cons]
      by_cases he : (e.packageName, e.version) ∈ seen
      · rw [if_pos he, List.filter_cons_of_pos (hmet.mp he), List.map_cons, hnext fun pair => ?_]
        -- a pair that was met is met again
        rw [hseen, List.map_append, List.mem_append, List.map_singleton, List.mem_singleton]
        refine (or_iff_left_of_imp ?_).symm
        rintro rfl
        exact (hseen _).mp he
      · rw [if_neg he, List.filter_cons_of_neg (mt hmet.mpr he), hnext fun pair => ?_]
        rw [List.mem_cons, hseen, List.map_append, List.mem_append, List.map_singleton,
          List.mem_singleton, or_comm]

/-- A graph lists just the packages whose name and version stand at an earlier place. -/
theorem duplicateExternals_eq_repeats (g : WorkspaceGraph) :
    g.duplicateExternals = repeats g.externals :=
  @shadowed_eq [] g.externals [] fun _ => Iff.rfl

-- ============================================================ originals

/-- Nothing before describes what is looked for, so a repeat cannot be the first to do
so. -/
theorem find?_originals_from (hnone : before.any (·.describes name version) = false) :
    ((((rest.zipIdx before.length).filter (!repeatsEarlier (before ++ rest) ·)).map
        Prod.fst).find? (·.describes name version))
      = rest.find? (·.describes name version) := by
  induction rest generalizing before with
  | nil => rfl
  | cons e rest ih =>
      have hnext := @ih (before ++ [e])
      rw [List.append_assoc, List.singleton_append, List.length_append, List.length_singleton,
        List.any_append, hnone, Bool.false_or, List.any_cons, List.any_nil, Bool.or_false] at hnext
      rw [List.zipIdx_cons]
      cases he : e.describes name version with
      | true =>
          obtain ⟨hname, hversion⟩ := Prod.mk.inj (describes_iff.mp he)
          have horiginal : repeatsEarlier (before ++ e :: rest) (e, before.length) = false := by
            rw [repeatsEarlier_length, hname, hversion, hnone]
          rw [List.filter_cons_of_pos (by rw [horiginal]; rfl), List.map_cons, List.find?_cons,
            List.find?_cons, he]
      | false =>
          rw [List.find?_cons, he, ← hnext he, List.filter_cons]
          split
          · rw [List.map_cons, List.find?_cons, he]
          · rfl

/-- The first package of a name and a version is found without the repeats. -/
theorem find?_originals (externals : List External) (name version : String) :
    (originals externals).find? (·.describes name version)
      = externals.find? (·.describes name version) :=
  @find?_originals_from [] externals name version rfl

/-- A package that repeats nothing is the first of its name and version. -/
theorem find?_of_mem_originals (h : e ∈ originals externals) :
    externals.find? (·.describes e.packageName e.version) = some e := by
  obtain ⟨⟨e, i⟩, hmem, rfl⟩ := List.mem_map.mp h
  obtain ⟨hplace, horiginal⟩ := List.mem_filter.mp hmem
  obtain ⟨hi, he⟩ := List.getElem?_eq_some_iff.mp (List.mem_zipIdx_iff_getElem?.mp hplace)
  rw [Bool.not_eq_true', repeatsEarlier, List.any_eq_false] at horiginal
  refine List.find?_eq_some_iff_append.mpr ⟨describes_iff.mpr rfl, externals.take i,
    externals.drop (i + 1), ?_, fun earlier hearlier => ?_⟩
  · rw [← he, List.getElem_cons_drop, List.take_append_drop]
  · rw [Bool.not_eq_true', ← Bool.not_eq_true]
    exact horiginal earlier hearlier

end WorkspaceGraph

-- ============================================================== locators

namespace Locator

open WorkspaceGraph (repeats originals)

/-- A locator that is built without the repeats cannot be told apart. -/
theorem alike_originals (root : String) (settings : Settings) (projects : List Project)
    (externals : List External) (collaborators : Collaborators) :
    Alike (build root settings projects (originals externals) collaborators)
      (build root settings projects externals collaborators) where
  workspaceRoot := rfl
  settings := rfl
  collaborators := rfl
  projectOf? := rfl
  packageOwner? := rfl
  described? := by
    funext descriptor
    rw [InstalledPackages.described?_eq, InstalledPackages.described?_eq]
    congr 1
    funext declared
    exact congrArg (Option.bind · _)
      (WorkspaceGraph.find?_originals externals declared.1 declared.2)

/-- The packages that a graph lists as duplicates are, in order, those at a place before
which another has their name and version, and they are the shadowed ones. Without them a
locator answers every run of calls with the same results from the same sources and comes
to remember the same, whatever the settings, the helpers, the files and what has been
remembered are; and each of the others is what is found for its name and version. -/
theorem resolveAll_without_duplicates (g : WorkspaceGraph) :
    g.duplicateExternals = repeats g.externals ∧
      ∀ (root : String) (settings : Settings) (collaborators : Collaborators),
        let l := build root settings g.projects g.externals collaborators
        (∀ (calls : List Call) (m : Memory),
          (build root settings g.projects (originals g.externals) collaborators).resolveAll calls m
            = l.resolveAll calls m) ∧
        ∀ e ∈ originals g.externals, ∀ descriptor : PackageDescriptor,
          descriptor.nameAndVersion? = some (e.packageName, e.version) →
            l.installedPackages.described? descriptor = some e.name := by
  refine ⟨g.duplicateExternals_eq_repeats, fun root settings collaborators => ⟨?_, ?_⟩⟩
  · intro calls m
    rw [(alike_originals root settings g.projects g.externals collaborators).resolveAll_eq]
  · intro e he descriptor hdeclared
    rw [InstalledPackages.described?_eq, hdeclared]
    exact congrArg (Option.bind · _) (WorkspaceGraph.find?_of_mem_originals he)

/-- A graph with three nodes for one package, two of them equal, and one for another
version of it. -/
def threeCopies : WorkspaceGraph :=
  ⟨[.ofRoot "app" "apps/app" none], [.npm "dep" "1.0.0", .npm "dep" "2.0.0",
    ⟨"npm:dep-copy", "dep", "1.0.0"⟩, .npm "dep" "1.0.0"]⟩

/-- Of the equal nodes the first stays, and it is the one that is found. -/
theorem resolveAll_without_copies :
    let l := build "/ws" .standard threeCopies.projects threeCopies.externals
      (.standard "/ws" .standard)
    let calls : List Call :=
      [⟨"dep", "apps/app", "apps/app/x.ts"⟩, ⟨"dep/sub", "apps/app", "apps/app/y.ts"⟩]
    let descriptor : PackageDescriptor := { (default : PackageDescriptor) with
      name := some "dep", version := some "1.0.0" }
    threeCopies.duplicateExternals = [⟨"npm:dep-copy", "dep", "1.0.0"⟩, .npm "dep" "1.0.0"] ∧
      originals threeCopies.externals = [.npm "dep" "1.0.0", .npm "dep" "2.0.0"] ∧
      (build "/ws" .standard threeCopies.projects [.npm "dep" "1.0.0", .npm "dep" "2.0.0"]
          (.standard "/ws" .standard)).resolveAll calls (.ofStore .empty)
        = l.resolveAll calls (.ofStore .empty) ∧
      l.installedPackages.described? descriptor = some "npm:dep@1.0.0" := by
  intro l calls descriptor
  obtain ⟨hlisted, hbuilt⟩ := resolveAll_without_duplicates threeCopies
  obtain ⟨halike, hfound⟩ := hbuilt "/ws" .standard (.standard "/ws" .standard)
  have horiginals : originals threeCopies.externals
      = [.npm "dep" "1.0.0", .npm "dep" "2.0.0"] := by decide +kernel
  rw [horiginals] at halike hfound
  exact ⟨hlisted.trans (by decide +kernel), horiginals, halike calls (.ofStore .empty),
    hfound (.npm "dep" "1.0.0") (List.mem_cons_self ..) descriptor rfl⟩

end Locator

end ImportResolution
