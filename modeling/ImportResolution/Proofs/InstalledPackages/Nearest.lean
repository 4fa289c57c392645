/-
Which known package a specifier leads to. The directories from that of the
context outwards are gone through until one has the package installed, and the
descriptor that is found there decides alone. What it declares is matched to
the first known package of this name and version.

# What is remembered

Nothing of this depends on what was asked before, neither of packages nor of
the descriptors that are shared with other searches: whatever is remembered was
found in the same files (`over_after`). So the answer after any questions can
be read off the files (`resolve_after`), and it is spelled out there step by
step: the search outwards (`nearestDescriptor?_eq_some_iff`), the descriptor
(`described?_eq_some_iff`), and the two together (`installedAt_eq_some_iff`).
-/
import ImportResolution.Proofs.FilePath
import ImportResolution.Proofs.InstalledPackages

namespace ImportResolution.InstalledPackages

open Specifier (packageName)

variable {p : InstalledPackages} {s : FileStore} {installed package start id : String}

-- ============================================================= questions

/-- What may be asked of the files, with what is known of packages at hand. -/
inductive Question where
  /-- The known package that a specifier leads to in a context. -/
  | package (specifier context : String)
  /-- The descriptor at a path. -/
  | descriptor (path : String)

/-- What is remembered after a question. -/
def afterQuestion (p : InstalledPackages) (m : Memory) : Question → Memory
  | .package specifier context => (p.resolve specifier context m).2
  | .descriptor path => (withFiles (PackageFiles.descriptor? path) m).2

/-- What is remembered after some questions, one after the other. -/
def after (p : InstalledPackages) (questions : List Question) (m : Memory) : Memory :=
  questions.foldl p.afterQuestion m

/-- The known packages, looked for where the usual locator looks. -/
def usual (root installed : String) (externals : List External) : InstalledPackages :=
  ⟨root, externals, nearestDescriptor? installed⟩

theorem locate_usual (root installed : String) (externals : List External) {s t : FileStore}
    (h : FileStore.SameFiles t s) :
    (usual root installed externals).locate t = (usual root installed externals).locate s := by
  funext package dir
  show nearestDescriptor? installed t package dir = nearestDescriptor? installed s package dir
  unfold nearestDescriptor?
  rw [h.isFile_eq]

section Questions

variable (hp : ∀ t, FileStore.SameFiles t s → p.locate t = p.locate s)

include hp

theorem over_afterQuestion {m : Memory} (h : Memory.Over p s m) (q : Question) :
    Memory.Over p s (p.afterQuestion m q) := by
  cases q with
  | package specifier context => exact (answers_resolve hp specifier context m h).2
  | descriptor path => exact ⟨(PackageFiles.answers_descriptor? path m.files h.1).2, h.2⟩

theorem over_after (questions : List Question) {m : Memory} (h : Memory.Over p s m) :
    Memory.Over p s (p.after questions m) := by
  induction questions generalizing m with
  | nil => exact h
  | cons q rest ih => exact ih (over_afterQuestion hp h q)

/-- After any questions a specifier leads to what the files have. -/
theorem resolve_after (questions : List Question) (specifier context : String) :
    (p.resolve specifier context (p.after questions (.ofStore s))).1
      = p.installedAt s (packageName specifier) context :=
  (answers_resolve hp specifier context _ (over_after hp questions (over_ofStore p s))).1

end Questions

-- ============================================================= outwards

/-- Where a package that is installed for a directory has its descriptor. -/
def descriptorPath (installed package dir : String) : String :=
  FilePath.join (FilePath.join (FilePath.join dir installed) package) PackageFiles.descriptorName

/-- Going outwards from a directory, itself included, this is the first that has
the package installed. -/
def Nearest (installed : String) (s : FileStore) (package start dir : String) : Prop :=
  ∃ inner outer, FilePath.ancestors start = inner ++ dir :: outer ∧
    s.isFile (descriptorPath installed package dir) = true ∧
    ∀ d ∈ inner, s.isFile (descriptorPath installed package d) = false

theorem nearestDescriptor?_eq_some_iff {path : String} :
    nearestDescriptor? installed s package start = some path
      ↔ ∃ dir, Nearest installed s package (FilePath.clean start) dir ∧
        descriptorPath installed package dir = path := by
  have hmap : nearestDescriptor? installed s package start
      = ((FilePath.ancestors (FilePath.clean start)).find?
          (s.isFile ∘ descriptorPath installed package)).map
            (descriptorPath installed package) :=
    List.find?_map ..
  rw [hmap, Option.map_eq_some_iff]
  refine exists_congr fun dir => and_congr_left fun _ => ?_
  rw [List.find?_eq_some_iff_append]
  constructor
  · rintro ⟨hfile, inner, outer, hdirs, hinner⟩
    refine ⟨inner, outer, hdirs, hfile, fun d hd => ?_⟩
    simpa using hinner d hd
  · rintro ⟨inner, outer, hdirs, hfile, hinner⟩
    refine ⟨hfile, inner, outer, hdirs, fun d hd => ?_⟩
    simpa using hinner d hd

/-- There is one nearest installation at most, since the search ends at each. -/
theorem Nearest.path_eq {dir dir' : String}
    (h : Nearest installed s package (FilePath.clean start) dir)
    (h' : Nearest installed s package (FilePath.clean start) dir') :
    descriptorPath installed package dir = descriptorPath installed package dir' := by
  have hfound := nearestDescriptor?_eq_some_iff.mpr ⟨dir, h, rfl⟩
  have hfound' := nearestDescriptor?_eq_some_iff.mpr ⟨dir', h', rfl⟩
  exact Option.some.inj (hfound.symm.trans hfound')

-- =========================================================== descriptors

/-- The first of the known packages that has a name and a version. -/
def FirstOf (externals : List External) (name version : String) (e : External) : Prop :=
  e.packageName = name ∧ e.version = version ∧
    ∃ earlier later, externals = earlier ++ e :: later ∧
      ∀ d ∈ earlier, ¬ (d.packageName = name ∧ d.version = version)

/-- A file holds a descriptor whose name and version are those of a known
package; of several with both, this is the identifier of the first. -/
def Tells (externals : List External) (s : FileStore) (path id : String) : Prop :=
  ∃ text descriptor name version e, s.content? path = some text ∧
    PackageDescriptor.ofText? text = some descriptor ∧
    descriptor.nameAndVersion? = some (name, version) ∧
    FirstOf externals name version e ∧ e.name = id

theorem find?_describes {externals : List External} {name version : String} {e : External} :
    externals.find? (·.describes name version) = some e ↔ FirstOf externals name version e := by
  have hdescribes (d : External) :
      d.describes name version = true ↔ d.packageName = name ∧ d.version = version := by
    rw [External.describes, Bool.and_eq_true, beq_iff_eq, beq_iff_eq]
  rw [List.find?_eq_some_iff_append, hdescribes, FirstOf, and_assoc]
  simp only [Bool.not_eq_true', ← Bool.not_eq_true, hdescribes]

/-- What is matched through the index by name is the first of all known
packages. -/
theorem described?_eq_some_iff {descriptor : PackageDescriptor} :
    p.described? descriptor = some id
      ↔ ∃ name version e, descriptor.nameAndVersion? = some (name, version) ∧
        FirstOf p.externals name version e ∧ e.name = id := by
  rw [described?_eq, Option.bind_eq_some_iff]
  constructor
  · rintro ⟨⟨name, version⟩, hdeclared, hfound⟩
    obtain ⟨e, he, hid⟩ := Option.bind_eq_some_iff.mp hfound
    exact ⟨name, version, e, hdeclared, find?_describes.mp he, Option.some.inj hid⟩
  · rintro ⟨name, version, e, hdeclared, he, rfl⟩
    exact ⟨(name, version), hdeclared,
      Option.bind_eq_some_iff.mpr ⟨e, find?_describes.mpr he, rfl⟩⟩

theorem descriptorAt_bind_eq_some_iff {path : String} :
    (PackageFiles.descriptorAt s (FilePath.clean path)).bind p.described? = some id
      ↔ Tells p.externals s path id := by
  -- the descriptor is read under the cleaned path, and that is the same file
  have hcontent : s.content? (FilePath.clean path) = s.content? path := by
    unfold FileStore.content?
    rw [FilePath.clean_clean]
  rw [Option.bind_eq_some_iff]
  constructor
  · rintro ⟨descriptor, hd, hdescribed⟩
    obtain ⟨text, htext, hparsed⟩ := PackageFiles.descriptorAt_eq_some_iff.mp hd
    rw [hcontent] at htext
    obtain ⟨name, version, e, hdeclared, hfirst, hid⟩ := described?_eq_some_iff.mp hdescribed
    exact ⟨text, descriptor, name, version, e, htext, hparsed, hdeclared, hfirst, hid⟩
  · rintro ⟨text, descriptor, name, version, e, htext, hparsed, hdeclared, hfirst, hid⟩
    rw [← hcontent] at htext
    exact ⟨descriptor, PackageFiles.descriptorAt_eq_some_iff.mpr ⟨text, htext, hparsed⟩,
      described?_eq_some_iff.mpr ⟨name, version, e, hdeclared, hfirst, hid⟩⟩

-- ========================================================= installations

/-- The files have a known package for a context exactly if the nearest
installation tells it. -/
theorem installedAt_eq_some_iff {root context : String} {externals : List External} :
    (usual root installed externals).installedAt s package context = some id
      ↔ ∃ dir, Nearest installed s package (FilePath.clean (FilePath.join root context)) dir ∧
        Tells externals s (descriptorPath installed package dir) id := by
  have hrun : (usual root installed externals).installedAt s package context
      = (nearestDescriptor? installed s package
          (FilePath.clean (FilePath.join root context))).bind fun path =>
        (PackageFiles.descriptorAt s (FilePath.clean path)).bind
          (usual root installed externals).described? := rfl
  rw [hrun, Option.bind_eq_some_iff]
  constructor
  · rintro ⟨path, hpath, htells⟩
    obtain ⟨dir, hnearest, rfl⟩ := nearestDescriptor?_eq_some_iff.mp hpath
    rw [FilePath.clean_clean] at hnearest
    exact ⟨dir, hnearest, descriptorAt_bind_eq_some_iff.mp htells⟩
  · rintro ⟨dir, hnearest, htells⟩
    rw [← FilePath.clean_clean] at hnearest
    exact ⟨_, nearestDescriptor?_eq_some_iff.mpr ⟨dir, hnearest, rfl⟩,
      descriptorAt_bind_eq_some_iff.mpr htells⟩

/-- Whatever was asked before, a specifier leads to a known package exactly if
the nearest installation of its package tells this one. The nearest one decides
alone: if it tells nothing, because it is malformed or matches nothing, then
the specifier leads nowhere, whatever is installed further out. And all
specifiers of a package lead to the same in a context, whenever they are
asked. -/
theorem resolve_exact (root installed : String) (externals : List External) (s : FileStore)
    (past : List Question) (specifier context : String) :
    let p := usual root installed externals
    let package := packageName specifier
    let start := FilePath.clean (FilePath.join root context)
    let answer := (p.resolve specifier context (p.after past (.ofStore s))).1
    (∀ id, answer = some id ↔ ∃ dir, Nearest installed s package start dir ∧
      Tells externals s (descriptorPath installed package dir) id) ∧
    (∀ dir, Nearest installed s package start dir →
      (∀ id, ¬ Tells externals s (descriptorPath installed package dir) id) → answer = none) ∧
    ∀ other questions, packageName other = package →
      (p.resolve other context (p.after questions (.ofStore s))).1 = answer := by
  intro p package start answer
  have hanswer : answer = p.installedAt s package context :=
    resolve_after (fun _ => locate_usual root installed externals) past specifier context
  refine ⟨fun id => ?_, fun dir hnearest hsilent => ?_, fun other questions hother => ?_⟩
  · rw [hanswer]
    exact installedAt_eq_some_iff
  · rw [hanswer, Option.eq_none_iff_forall_ne_some]
    intro id hid
    obtain ⟨dir', hnearest', htells⟩ := installedAt_eq_some_iff.mp hid
    -- an installation further out is not the nearest
    rw [hnearest'.path_eq hnearest] at htells
    exact hsilent id htells
  · rw [hanswer, ← hother]
    exact resolve_after (fun _ => locate_usual root installed externals) questions other context

/-- A project has a malformed copy of a package of which the workspace has a good
one: the project is told of none. -/
theorem resolve_exact_malformed :
    let externals : List External := [⟨"npm:dep@1", "dep", "1"⟩]
    let s := FileStore.ofFiles [("/ws/app/node_modules/dep/package.json", "\x7b"),
      ("/ws/node_modules/dep/package.json", "\x7b\"name\":\"dep\",\"version\":\"1\"\x7d")]
    let p := usual "/ws" "node_modules" externals
    Nearest "node_modules" s "dep" "/ws/app" "/ws/app" ∧
      Tells externals s (descriptorPath "node_modules" "dep" "/ws") "npm:dep@1" ∧
      (p.resolve "dep/sub" "app" (p.after [.package "dep" "."] (.ofStore s))).1 = none := by
  intro externals s p
  have hnearest : Nearest "node_modules" s "dep" "/ws/app" "/ws/app" :=
    ⟨[], ["/ws", "/"], by decide +kernel, by decide +kernel, nofun⟩
  have hfirst : FirstOf externals "dep" "1" ⟨"npm:dep@1", "dep", "1"⟩ :=
    ⟨rfl, rfl, [], [], rfl, nofun⟩
  have houter : Tells externals s (descriptorPath "node_modules" "dep" "/ws") "npm:dep@1" := by
    have hparsed : (PackageDescriptor.ofText?
        "\x7b\"name\":\"dep\",\"version\":\"1\"\x7d").bind (·.nameAndVersion?)
          = some ("dep", "1") := by decide +kernel
    obtain ⟨descriptor, hd, hdeclared⟩ := Option.bind_eq_some_iff.mp hparsed
    exact ⟨_, descriptor, "dep", "1", _, by decide +kernel, hd, hdeclared, hfirst, rfl⟩
  have hsilent (id : String) :
      ¬ Tells externals s (descriptorPath "node_modules" "dep" "/ws/app") id := by
    rintro ⟨text, descriptor, -, -, -, htext, hparsed, -⟩
    have hbrace : s.content? (descriptorPath "node_modules" "dep" "/ws/app") = some "\x7b" := by
      decide +kernel
    rw [hbrace] at htext
    have hbroken : PackageDescriptor.ofText? "\x7b" = none := by decide +kernel
    rw [← Option.some.inj htext, hbroken] at hparsed
    cases hparsed
  have hpackage : packageName "dep/sub" = "dep" := by decide +kernel
  have hstart : FilePath.clean (FilePath.join "/ws" "app") = "/ws/app" := by decide +kernel
  have hexact := (resolve_exact "/ws" "node_modules" externals s [.package "dep" "."] "dep/sub"
    "app").2.1 "/ws/app"
  rw [hpackage, hstart] at hexact
  exact ⟨hnearest, houter, hexact hnearest hsilent⟩

end ImportResolution.InstalledPackages
