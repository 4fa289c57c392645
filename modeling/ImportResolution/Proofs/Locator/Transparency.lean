/-
What a locator remembers besides its answers cannot be told from its attempts:
the descriptors that were read, the packages that were looked up and the
compiler configuration are all shared between projects, and each of them holds
only what the files say. So the outcome of the strategies for an import is one
function of the files (`outcomeAt`), as long as the helpers are functions of
the files themselves (`Collaborators.Functional`). The usual helpers are.
-/
import ImportResolution.Proofs.CompilerConfig.Derivation
import ImportResolution.Proofs.InstalledPackages
import ImportResolution.Proofs.Locator.Frame
import ImportResolution.Proofs.ModuleSearch

namespace ImportResolution

open FileStore (SameFiles)
open PackageFiles (Over)

-- ============================================================= helpers

/-- The helpers are functions of their arguments and of the files: they answer
the same however often files were read and whichever descriptors are
remembered, and they leave the files alone. -/
structure Collaborators.Functional (c : Collaborators) : Prop where
  loadConfig : ∀ s, Steady (SameFiles · s) c.loadConfig
  locatePackage : ∀ {s t}, SameFiles s t → c.locatePackage s = c.locatePackage t
  language : ∀ s config specifier file, Steady (Over s) (c.language config specifier file)
  runtime : ∀ s specifier file, Steady (Over s) (c.runtime specifier file)

/-- The usual helpers are functions of the files. -/
theorem Collaborators.functional_standard (root : String) (settings : Settings) :
    (Collaborators.standard root settings).Functional where
  loadConfig := CompilerConfig.steady_load settings.installedDirectory settings.configFiles root
  locatePackage := by
    intro s t h
    funext package dir
    show InstalledPackages.nearestDescriptor? _ s package dir
      = InstalledPackages.nearestDescriptor? _ t package dir
    unfold InstalledPackages.nearestDescriptor?
    rw [h.isFile_eq]
  language := fun s config specifier file =>
    (ModuleSearch.Compiler.lenient_resolve _ config specifier file).looks.steady s
  runtime := fun s specifier file =>
    (ModuleSearch.Runtime.lenient_resolve _ specifier file).looks.steady s

namespace Locator

/-- The locator with other helpers. -/
def withHelpers (l : Locator) (helpers : Collaborators) : Locator :=
  { l with collaborators := helpers }

variable {l : Locator} {s : FileStore} {α : Type}

-- ============================================================== memory

/-- All that is remembered besides the answers is what the files of the store
say. -/
def Memory.Over (l : Locator) (s : FileStore) (m : Memory) : Prop :=
  InstalledPackages.Memory.Over l.installedPackages s m.packages ∧
    ∀ known, m.config = some known → known = l.configAt s

theorem over_ofStore (l : Locator) (s : FileStore) : Memory.Over l s (.ofStore s) := by
  refine ⟨InstalledPackages.over_ofStore _ s, ?_⟩
  intro known h
  cases h

/-- Neither the answers nor the counts have a say in what else is remembered. -/
theorem Memory.Over.congr {m m' : Memory} (h : Memory.Over l s m)
    (hp : m'.packages = m.packages) (hc : m'.config = m.config) : Memory.Over l s m' := by
  unfold Memory.Over
  rw [hp, hc]
  exact h

-- =============================================================== steps

theorem answers_onPackages {work : StateM InstalledPackages.Memory α} {a : α}
    (h : Answers (InstalledPackages.Memory.Over l.installedPackages s) work a) :
    Answers (Memory.Over l s) (onPackages work) a := by
  intro m hm
  obtain ⟨hanswer, hover⟩ := h m.packages hm.1
  exact ⟨hanswer, hover, hm.2⟩

theorem answers_onFiles {search : Search α} {a : α} (h : Answers (Over s) search a) :
    Answers (Memory.Over l s) (onFiles search) a := by
  refine answers_onPackages fun p hp => ?_
  obtain ⟨hanswer, hover⟩ := h p.files hp.1
  exact ⟨hanswer, hover, hp.2⟩

theorem steady_onFiles {search : Search α} (h : Steady (Over s) search) :
    Steady (Memory.Over l s) (onFiles search) := by
  obtain ⟨a, ha⟩ := h
  exact (answers_onFiles ha).steady

/-- A call of a helper is counted. -/
theorem answers_count (count : Calls → Calls) :
    Answers (Memory.Over l s) (modify fun m : Memory => { m with calls := count m.calls }) ⟨⟩ :=
  fun _ hm => ⟨rfl, hm.congr rfl rfl⟩

/-- Remembered or not, the configuration is the one that the files have. -/
theorem answers_compilerConfig? (hl : l.collaborators.Functional) :
    Answers (Memory.Over l s) l.compilerConfig? (l.configAt s) := by
  intro m hm
  cases hk : m.config with
  | some known =>
      rw [compilerConfig?_of_known hk]
      exact ⟨hm.2 known hk, hm⟩
  | none =>
      have hsame : SameFiles m.store s := hm.1.1.1
      have hconfig : l.configAt m.store = l.configAt s := by
        unfold configAt
        rw [(hl.loadConfig s).answer_eq hsame (SameFiles.refl s)]
      rw [compilerConfig?_of_unknown hk, hconfig]
      refine ⟨rfl, ⟨⟨(hl.loadConfig s).keeps hsame, hm.1.1.2⟩, hm.1.2⟩, ?_⟩
      intro known h
      exact (Option.some.inj h).symm

-- ============================================================ attempts

/-- What work of a locator comes to depends on the files alone. -/
theorem Made.steady (hl : l.collaborators.Functional) {specifier context : String} {asks : Prop}
    {work : Step α} (h : Made l specifier context asks work) :
    Steady (Memory.Over l s) work := by
  induction h with
  | pure a => exact Steady.pure a
  | bind _ _ ih ihn => exact Steady.bind ih ihn
  | count count => exact (answers_count count).steady
  | config => exact (answers_compilerConfig? hl).steady
  | language config asked file => exact steady_onFiles (hl.language s config asked file)
  | runtime asked file => exact steady_onFiles (hl.runtime s asked file)
  | packages hasks =>
      have hp : ∀ t, SameFiles t s →
          l.installedPackages.locate t = l.installedPackages.locate s :=
        fun t h => hl.locatePackage h
      exact (answers_onPackages (InstalledPackages.answers_resolve hp specifier context)).steady

/-- What the strategies come to for an import, given the files: the node that
they lead to, if any. -/
def outcomeAt (l : Locator) (s : FileStore) (specifier context file : String) : Option String :=
  (l.tryStrategies specifier context file Strategy.order (.ofStore s)).1.1

/-- Whatever is remembered, the strategies come to what the files say. -/
theorem tryStrategies_of_over (hl : l.collaborators.Functional) {m : Memory}
    (hm : Memory.Over l s m) (specifier context file : String) :
    (l.tryStrategies specifier context file Strategy.order m).1.1
        = l.outcomeAt s specifier context file ∧
      Memory.Over l s (l.tryStrategies specifier context file Strategy.order m).2 := by
  have h : Steady (Memory.Over l s)
      (l.tryStrategies specifier context file Strategy.order) :=
    (made_tryStrategies file Strategy.order).steady hl
  refine ⟨?_, h.keeps hm⟩
  unfold outcomeAt
  rw [h.answer_eq hm (over_ofStore l s)]

end Locator

end ImportResolution
