/-
The counts that a locator shows. Its answers, the known packages and the descriptors
are three memories that are asked in the same way, a look-up and, after a miss, an
answer; so each of them is a ledger of what it was asked for (`Memo.Ledger`), and the
counts are read off the ledgers.

What the memories were asked for is told by the run itself (`askedIn`). Every call
asks for its slot. A call that is not answered from memory comes to some of the
strategies (`Asked.attempted`), and it asks for its package exactly if it comes to
the one for installed packages, since no other looks there and this one looks once
(`ledger_tryStrategies`). The configuration is not counted, but it is there as soon as
some call has come to the second strategy, which no relative specifier does
(`config_of_bare`).
-/
import ImportResolution.Proofs.Locator.Relative
import ImportResolution.Proofs.Locator.Soundness
import ImportResolution.Proofs.PackageFiles.Fetches

namespace ImportResolution

open WorkspacePath (normalize ofGiven isRelative)

-- ============================================================ packages

namespace InstalledPackages

/-- A package is asked for once, whatever its specifier asks for inside it. -/
theorem resolve_ledger (p : InstalledPackages) {m : Memory} {asked : List (String × String)}
    (h : m.answers.Ledger asked) (specifier context : String) :
    (p.resolve specifier context m).2.answers.Ledger
      (asked ++ [(Specifier.packageName specifier, context)]) := by
  cases hk : m.answers.peek? (Specifier.packageName specifier, context) with
  | some answer =>
      rw [resolve_of_known hk]
      exact h.of_known hk
  | none =>
      rw [resolve_of_unknown hk]
      simp only [lookUp_answers]
      exact h.of_unknown hk _

end InstalledPackages

-- ========================================================= descriptors

namespace PackageFiles

/-- The descriptors are remembered as some look-ups have left them. -/
def Accounted (f : PackageFiles) : Prop :=
  ∃ asked, f.descriptors.Ledger asked

theorem accounted_descriptor? (path : String) : Keeps Accounted (descriptor? path) := by
  rintro f ⟨asked, h⟩
  exact ⟨_, descriptor?_ledger h path⟩

/-- A search that does with the files as it likes, but gets at the descriptors only by
looking them up. -/
inductive ByLookUp : {α : Type} → Search α → Prop where
  | pure {α : Type} (a : α) : ByLookUp (pure a)
  | files {α : Type} (work : FileStore → α × FileStore) :
      ByLookUp fun f => ((work f.store).1, { f with store := (work f.store).2 })
  | descriptor (path : String) : ByLookUp (descriptor? path)
  | bind {α β : Type} {search : Search α} {next : α → Search β} (h : ByLookUp search)
      (hn : ∀ a, ByLookUp (next a)) : ByLookUp (search >>= next)

theorem Looks.byLookUp {α : Type} {search : Search α} (h : Looks search) : ByLookUp search := by
  induction h with
  | pure a => exact .pure a
  | @files α look _ => exact .files fun s => (look s, s)
  | descriptor path => exact .descriptor path
  | bind _ _ ih ihn => exact .bind ih ihn

theorem ByLookUp.accounted {α : Type} {search : Search α} (h : ByLookUp search) :
    Keeps Accounted search := by
  induction h with
  | pure a => exact Keeps.pure a
  | files work => exact fun f hf => hf
  | descriptor path => exact accounted_descriptor? path
  | bind _ _ ih ihn => exact Keeps.bind ih ihn

end PackageFiles

open PackageFiles (Accounted ByLookUp)

/-- The fallback searches get at the descriptors by looking them up. -/
structure Collaborators.SearchByLookUp (c : Collaborators) : Prop where
  language : ∀ config specifier file, ByLookUp (c.language config specifier file)
  runtime : ∀ specifier file, ByLookUp (c.runtime specifier file)

theorem Collaborators.OnlyLook.searchByLookUp {c : Collaborators} (h : c.OnlyLook) :
    c.SearchByLookUp :=
  ⟨fun config specifier file => (h.language config specifier file).byLookUp,
    fun specifier file => (h.runtime specifier file).byLookUp⟩

theorem InstalledPackages.accounted_resolve (p : InstalledPackages) (specifier context : String)
    {m : Memory} (h : Accounted m.files) :
    Accounted (p.resolve specifier context m).2.files := by
  rcases p.resolve_cases specifier context m with ⟨_, _, _, hfiles, _⟩ | ⟨_, _, hfiles, _⟩
  · rw [hfiles]
    exact h
  · rw [hfiles, lookUp_run]
    split
    · exact h
    · exact PackageFiles.accounted_descriptor? _ _ h

namespace Locator

variable {l : Locator} {specifier context file : String} {m : Memory}

-- ============================================================== frames

/-- Of what is known of packages the configuration reaches the files only. -/
theorem packages_compilerConfig? (l : Locator) (m : Memory) :
    ∃ s, (l.compilerConfig? m).2.packages = (m.withStore s).packages := by
  cases hk : m.config with
  | some known =>
      rw [compilerConfig?_of_known hk]
      exact ⟨m.store, rfl⟩
  | none =>
      rw [compilerConfig?_of_unknown hk]
      exact ⟨_, rfl⟩

theorem frame_packages (l : Locator) (answers : Memo (String × String) (Option String)) :
    Frame l fun m => m.packages.answers = answers where
  count := fun _ _ h => h
  config := by
    intro m h
    obtain ⟨s, hs⟩ := l.packages_compilerConfig? m
    simp only [hs]
    exact h
  language := fun _ _ _ _ h => h
  runtime := fun _ _ _ h => h

theorem frame_accounted (hl : l.collaborators.SearchByLookUp) :
    Frame l fun m => Accounted m.packages.files where
  count := fun _ _ h => h
  config := by
    intro m h
    obtain ⟨s, hs⟩ := l.packages_compilerConfig? m
    simp only [hs]
    exact h
  language := fun config specifier file m h => (hl.language config specifier file).accounted _ h
  runtime := fun specifier file m h => (hl.runtime specifier file).accounted _ h

theorem config_compilerConfig? (l : Locator) (m : Memory) :
    (l.compilerConfig? m).2.config.isSome = true := by
  cases hk : m.config with
  | some known =>
      rw [compilerConfig?_of_known hk, hk]
      rfl
  | none =>
      rw [compilerConfig?_of_unknown hk]
      rfl

theorem frame_config (l : Locator) : Frame l fun m => m.config.isSome = true where
  count := fun _ _ h => h
  config := fun m _ => l.config_compilerConfig? m
  language := fun _ _ _ _ h => h
  runtime := fun _ _ _ h => h

-- ============================================================ attempts

/-- The strategies that are attempted in turn: all up to the first that decides. -/
def attempted (l : Locator) (specifier context file : String) :
    List Strategy → Memory → List Strategy
  | [], _ => []
  | strategy :: rest, m =>
    strategy :: match l.attempt specifier context file strategy m with
      | (.skipped, m') => l.attempted specifier context file rest m'
      | _ => []

theorem attempted_subset (strategies : List Strategy) (m : Memory) :
    l.attempted specifier context file strategies m ⊆ strategies := by
  induction strategies generalizing m with
  | nil => exact List.Subset.refl _
  | cons strategy rest ih =>
      unfold attempted
      refine List.cons_subset_cons strategy ?_
      split
      · exact ih _
      · exact List.nil_subset _

/-- They are the strategies that a run comes to. -/
theorem mem_attempted_iff {strategies : List Strategy} {next : Strategy} :
    next ∈ l.attempted specifier context file strategies m
      ↔ ∃ m', Attempts l specifier context file strategies m next m' := by
  induction strategies generalizing m with
  | nil =>
      refine ⟨fun h => absurd h List.not_mem_nil, fun ⟨m', h⟩ => ?_⟩
      cases h
  | cons strategy rest ih =>
      rw [attempted, List.mem_cons]
      constructor
      · rintro (rfl | h)
        · exact ⟨m, .here⟩
        · split at h
          · next m'' hattempt =>
            obtain ⟨m', hrest⟩ := ih.mp h
            refine ⟨m', .later (by rw [hattempt]) ?_⟩
            rw [hattempt]
            exact hrest
          · cases h
      · rintro ⟨m', h⟩
        cases h with
        | here => exact Or.inl rfl
        | later skipped attempts =>
            cases hattempt : l.attempt specifier context file strategy m with
            | mk attempt m'' =>
                rw [hattempt] at skipped attempts
                obtain rfl : attempt = .skipped := skipped
                exact Or.inr (ih.mpr ⟨m', attempts⟩)

/-- The packages are asked for the one that is named, once, if the strategy for
installed packages is attempted. -/
theorem ledger_tryStrategies {strategies : List Strategy} (hn : strategies.Nodup)
    {asked : List (String × String)} (h : m.packages.answers.Ledger asked) :
    (l.tryStrategies specifier context file strategies m).2.packages.answers.Ledger
      (asked ++ if .external ∈ l.attempted specifier context file strategies m then
        [(Specifier.packageName specifier, context)] else []) := by
  induction strategies generalizing m asked with
  | nil =>
      rw [attempted, if_neg List.not_mem_nil, List.append_nil]
      exact h
  | cons strategy rest ih =>
      obtain ⟨hnew, hrest⟩ := List.nodup_cons.mp hn
      rw [tryStrategies_cons, attempted]
      by_cases hexternal : strategy = .external
      · subst hexternal
        rw [if_pos List.mem_cons_self]
        have hasked : (l.attempt specifier context file .external m).2.packages.answers.Ledger
            (asked ++ [(Specifier.packageName specifier, context)]) :=
          l.installedPackages.resolve_ledger h specifier context
        cases hattempt : l.attempt specifier context file .external m with
        | mk attempt m' =>
            rw [hattempt] at hasked
            cases attempt with
            | resolved id => exact hasked
            | rejected => exact hasked
            | skipped =>
                have hafter := ih hrest hasked
                rw [if_neg fun hmem => hnew (attempted_subset _ _ hmem), List.append_nil] at hafter
                exact hafter
      · have hsame := (frame_packages l m.packages.answers).attempt_of_ne specifier context file
          hexternal m rfl
        have hmem (others : List Strategy) :
            .external ∈ strategy :: others ↔ .external ∈ others :=
          List.mem_cons.trans (or_iff_right (Ne.symm hexternal))
        cases hattempt : l.attempt specifier context file strategy m with
        | mk attempt m' =>
            rw [hattempt] at hsame
            rw [← hsame] at h
            cases attempt with
            | resolved id => simpa [hmem] using h
            | rejected => simpa [hmem] using h
            | skipped => simpa only [hmem] using ih hrest h

/-- To look for an alias is to load the configuration. -/
theorem attempt_pathMapping_snd (specifier context file : String) (m : Memory) :
    (l.attempt specifier context file .pathMapping m).2 = (l.compilerConfig? m).2 := by
  rw [attempt, tryAliases, run_bind]
  cases (l.compilerConfig? m).1 with
  | none => rfl
  | some config => rfl

/-- A specifier that is not relative is looked for among the aliases, which loads the
configuration. -/
theorem config_of_bare (hbare : isRelative specifier = false) (m : Memory) :
    (l.tryStrategies specifier context file Strategy.order m).2.config.isSome = true := by
  have hrelative : l.attempt specifier context file .relative m = (.skipped, m) := by
    simp only [attempt, tryRelative, hbare, Bool.false_eq_true, if_false, run_pure]
  have hloaded : (l.attempt specifier context file .pathMapping m).2.config.isSome = true := by
    rw [attempt_pathMapping_snd]
    exact l.config_compilerConfig? m
  -- the strategies after these two leave it loaded
  have hrest (strategies : List Strategy) (m' : Memory) (h : m'.config.isSome = true) :
      (l.tryStrategies specifier context file strategies m').2.config.isSome = true :=
    (made_tryStrategies file strategies).keeps (frame_config l) (fun _ _ h => h) m' h
  unfold Strategy.order
  rw [tryStrategies_of_skipped (by rw [hrelative]), hrelative, tryStrategies_cons]
  cases hattempt : l.attempt specifier context file .pathMapping m with
  | mk attempt m' =>
      rw [hattempt] at hloaded
      cases attempt with
      | resolved id => exact hloaded
      | rejected => exact hloaded
      | skipped => exact hrest _ m' hloaded

-- =============================================================== calls

namespace Asked

/-- The answer to the call was not in memory. -/
def Missed (a : Asked) : Prop :=
  a.memory.answers.peek? a.call.slot = none

/-- The strategies that a call came to: none if it was answered from memory. -/
def attempted (l : Locator) (a : Asked) : List Strategy :=
  match a.memory.answers.peek? a.call.slot with
  | some _ => []
  | none => l.attempted a.call.specifier (normalize a.call.context) (ofGiven a.call.file)
      Strategy.order (a.memory.asked a.call)

/-- The package that a call names, in its context. -/
def package (a : Asked) : String × String :=
  (Specifier.packageName a.call.specifier, normalize a.call.context)

end Asked

/-- The packages of the calls that came to the strategy for installed packages. -/
def packagesAsked (l : Locator) (past : List Asked) : List (String × String) :=
  (past.filter (.external ∈ ·.attempted l)).map (·.package)

theorem packagesAsked_concat (l : Locator) (past : List Asked) (a : Asked) :
    l.packagesAsked (past ++ [a])
      = l.packagesAsked past ++ if .external ∈ a.attempted l then [a.package] else [] := by
  rw [packagesAsked, List.filter_append, List.map_append]
  by_cases h : .external ∈ a.attempted l
  · simp [packagesAsked, h]
  · simp [packagesAsked, h]

/-- After some calls each memory was asked for what the calls tell. -/
structure Counted (l : Locator) (past : List Asked) (m : Memory) : Prop where
  answers : m.answers.Ledger (past.map (·.call.slot))
  packages : m.packages.answers.Ledger (l.packagesAsked past)
  descriptors : l.collaborators.SearchByLookUp → Accounted m.packages.files
  config : m.config.isSome = true ↔ ∃ a ∈ past, a.Missed ∧ isRelative a.call.specifier = false

theorem counted_ofStore (l : Locator) (s : FileStore) : Counted l [] (.ofStore s) where
  answers := Memo.ledger_empty
  packages := Memo.ledger_empty
  descriptors := fun _ => ⟨[], Memo.ledger_empty⟩
  config := by
    constructor
    · intro h
      cases h
    · rintro ⟨a, ha, _⟩
      cases ha

variable {past : List Asked}

theorem Counted.withStore (h : Counted l past m) (s : FileStore) :
    Counted l past (m.withStore s) :=
  ⟨h.answers, h.packages, h.descriptors, h.config⟩

/-- A call that is answered from memory asks for its slot only. -/
theorem Counted.of_known (h : Counted l past m) {c : Call} {answer : Option String}
    (hk : m.answers.peek? c.slot = some answer) :
    Counted l (past ++ [⟨c, m⟩]) (l.resolveCall c m).2 := by
  rw [resolveCall_of_known hk]
  refine ⟨?_, ?_, h.descriptors, h.config.trans ?_⟩
  · rw [List.map_append]
    exact h.answers.of_known hk
  · have hnone : Asked.attempted l ⟨c, m⟩ = [] := by
      simp only [Asked.attempted, hk]
    rw [packagesAsked_concat, hnone, if_neg List.not_mem_nil, List.append_nil]
    exact h.packages
  · have hhit : ¬ Asked.Missed ⟨c, m⟩ := by
      simp only [Asked.Missed, hk, reduceCtorEq, not_false_eq_true]
    simp only [List.mem_append, List.mem_singleton, or_and_right, exists_or, exists_eq_left,
      hhit, false_and, or_false]

/-- Any other call asks for its package if it comes to the strategy for it, and for the
configuration unless its specifier is relative. -/
theorem Counted.of_unknown (h : Counted l past m) {c : Call}
    (hk : m.answers.peek? c.slot = none) :
    Counted l (past ++ [⟨c, m⟩]) (l.resolveCall c m).2 := by
  rw [resolveCall_of_unknown_run hk]
  have hmissed : Asked.Missed ⟨c, m⟩ := hk
  have hattempted : Asked.attempted l ⟨c, m⟩
      = l.attempted c.specifier (normalize c.context) (ofGiven c.file) Strategy.order
          (m.asked c) := by
    simp only [Asked.attempted, hk]
  refine ⟨?_, ?_, fun hl => ?_, ?_⟩
  · rw [List.map_append]
    simp only [outcome, tryStrategies_answers]
    exact h.answers.of_unknown hk _
  · rw [packagesAsked_concat, hattempted]
    exact ledger_tryStrategies Strategy.nodup_order h.packages
  · exact (made_tryStrategies _ _).keeps (frame_accounted hl)
      (fun _ _ => l.installedPackages.accounted_resolve _ _) (m.asked c) (h.descriptors hl)
  · simp only [List.mem_append, List.mem_singleton, or_and_right, exists_or, exists_eq_left,
      hmissed, true_and]
    cases hc : isRelative c.specifier with
    | true =>
        rw [outcome, tryStrategies_of_relative hc]
        simp only [Bool.true_eq_false, or_false]
        exact h.config
    | false =>
        simp only [or_true, iff_true]
        exact config_of_bare hc (m.asked c)

theorem Counted.call (h : Counted l past m) (c : Call) :
    Counted l (past ++ [⟨c, m⟩]) (l.resolveCall c m).2 := by
  cases hk : m.answers.peek? c.slot with
  | some answer => exact h.of_known hk
  | none => exact h.of_unknown hk

-- =============================================================== turns

/-- The files change, or do not, and then a call is made. -/
structure Turn where
  change : FileStore → FileStore
  call : Call

/-- What happens in a turn. -/
def Turn.events (t : Turn) : List Event :=
  [.files t.change, .call t.call]

/-- The memory after some turns. -/
def afterTurns (l : Locator) (turns : List Turn) (m : Memory) : Memory :=
  l.after (turns.flatMap (·.events)) m

/-- The calls of some turns, each with all that was remembered when it was made. -/
def askedIn (l : Locator) : List Turn → Memory → List Asked
  | [], _ => []
  | t :: rest, m =>
    ⟨t.call, m.withStore (t.change m.store)⟩
      :: l.askedIn rest (l.resolveCall t.call (m.withStore (t.change m.store))).2

theorem map_call_askedIn (l : Locator) (turns : List Turn) (m : Memory) :
    (l.askedIn turns m).map (·.call) = turns.map (·.call) := by
  induction turns generalizing m with
  | nil => rfl
  | cons t rest ih => exact congrArg (t.call :: ·) (ih _)

theorem counted_afterTurns (h : Counted l past m) (turns : List Turn) :
    Counted l (past ++ l.askedIn turns m) (l.afterTurns turns m) := by
  induction turns generalizing past m with
  | nil =>
      rw [askedIn, List.append_nil]
      exact h
  | cons t rest ih =>
      have hturn := (h.withStore (t.change m.store)).call t.call
      rw [askedIn, List.append_cons]
      exact ih hturn

/-- What the counts of a locator tell after any run of calls on it, whatever happens to
the files in between: how many calls there were, how many slots they had and how many
packages were asked for by the calls that came to the strategy for them, and whether a
call that was not answered from memory had a specifier that is not relative. There is a
descriptor for each one that was missed, since no search can leave one in any other way
than by looking it up. -/
theorem counts_tell_run (l : Locator) (s : FileStore) (turns : List Turn) :
    let m := l.afterTurns turns (.ofStore s)
    let asked := l.askedIn turns (.ofStore s)
    let slots := (turns.map (·.call.slot)).dedup
    let packages := (l.packagesAsked asked).dedup
    (m.answers.hits + m.answers.misses = turns.length ∧
      m.answers.size = slots.length ∧ m.answers.misses = slots.length) ∧
    (m.packages.answers.size = packages.length ∧
      m.packages.answers.misses = packages.length) ∧
    (l.collaborators.SearchByLookUp →
      m.packages.files.descriptors.size = m.packages.files.descriptors.misses) ∧
    (m.config.isSome = true ↔ ∃ a ∈ asked, a.Missed ∧ isRelative a.call.specifier = false) := by
  intro m asked slots packages
  have hcounted : Counted l asked m := counted_afterTurns (counted_ofStore l s) turns
  have hslots : asked.map (·.call.slot) = turns.map (·.call.slot) := by
    have hcalls := congrArg (List.map Call.slot) (l.map_call_askedIn turns (.ofStore s))
    rw [List.map_map, List.map_map] at hcalls
    exact hcalls
  have hanswers := hcounted.answers
  rw [hslots] at hanswers
  refine ⟨⟨?_, hanswers.size_eq, hanswers.missed.trans hanswers.size_eq⟩,
    ⟨hcounted.packages.size_eq, hcounted.packages.missed.trans hcounted.packages.size_eq⟩,
    fun hl => ?_, hcounted.config⟩
  · rw [hanswers.counted, List.length_map]
  · obtain ⟨paths, hpaths⟩ := hcounted.descriptors hl
    exact hpaths.missed.symm

/-- In a workspace with the usual helpers a package is asked for twice, under two
spellings of the project's root, and in between a path is. -/
theorem counts_tell_respelled :
    let l := ofGraph "/ws" .standard ⟨[], []⟩
    let turns : List Turn :=
      [⟨id, ⟨"react", "apps/a", "apps/a/x.ts"⟩⟩,
        ⟨fun s => s.add "/ws/apps/a/y.ts" "", ⟨"./y", "apps/a", "apps/a/x.ts"⟩⟩,
        ⟨id, ⟨"react", "./apps/b/../a", "apps/a/y.ts"⟩⟩]
    let m := l.afterTurns turns (.ofStore .empty)
    l.collaborators.SearchByLookUp ∧ m.answers.hits + m.answers.misses = 3 ∧ m.answers.size = 2 ∧
      m.packages.files.descriptors.size = m.packages.files.descriptors.misses ∧
      m.config.isSome = true := by
  intro l turns
  have hlook : l.collaborators.SearchByLookUp :=
    (Collaborators.onlyLook_standard _ _).searchByLookUp
  have htwo : (turns.map (·.call.slot)).dedup.length = 2 := by decide +kernel
  have hbare : isRelative "react" = false := by decide
  obtain ⟨⟨hcalls, hslots, _⟩, _, hdescriptors, hconfig⟩ := counts_tell_run l .empty turns
  exact ⟨hlook, hcalls, hslots.trans htwo, hdescriptors hlook,
    hconfig.mpr ⟨_, List.mem_cons_self, rfl, hbare⟩⟩

end Locator

end ImportResolution
