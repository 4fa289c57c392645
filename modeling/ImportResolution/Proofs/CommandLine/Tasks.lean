/-
Tasks of a command. A task reads files and may fail, and it is done if each of
its parts is done (`bind_eq_ok_iff`). What the settings, the graph and the
compiler configuration come to depends on the files alone, so it does not matter
in which order a command loads them.
-/
import ImportResolution.CommandLine.Commands
import ImportResolution.Proofs.CompilerConfig.Derivation

namespace ImportResolution

open FileStore (SameFiles)

variable {s : FileStore} {α β : Type}

-- ============================================================= readings

theorem FileStore.steady_read (path : String) :
    Steady (SameFiles · s) (FileStore.read · path) := by
  refine ⟨(s.read path).1, fun t ht => ⟨?_, ht⟩⟩
  simp only [FileStore.read, ht.content?_eq]

theorem FileStore.read_eq_ok_iff {path text : String} :
    (s.read path).1 = .ok text ↔ s.content? path = some text := by
  unfold FileStore.read
  cases s.content? path with
  | none => exact ⟨nofun, nofun⟩
  | some content =>
      exact ⟨fun h => congrArg some (Except.ok.inj h), fun h => congrArg _ (Option.some.inj h)⟩

namespace Settings

/-- What the answer of reading a file comes to as settings. -/
def ofAnswer (path : String) : Except Fault String → Except Fault Settings
  | .error fault => .error fault
  | .ok content =>
    match parse content with
    | .error (.settingsSyntax _ detail line column) =>
      .error (.settingsSyntax (some path) detail line column)
    | answer => answer

theorem ofFile_run (s : FileStore) (path : String) :
    ofFile s path = (ofAnswer path (s.read path).1, (s.read path).2) := by
  unfold ofFile ofAnswer
  cases s.read path with
  | mk answer s' =>
      cases answer with
      | error fault => rfl
      | ok content =>
          simp only
          cases parse content with
          | ok settings => rfl
          | error fault => cases fault <;> rfl

/-- The settings of a directory are those of its files. -/
theorem steady_load (directory : String) : Steady (SameFiles · s) (load · directory) := by
  have hfind (t : FileStore) (ht : SameFiles t s) :
      findFile? t directory fileName = findFile? s directory fileName := by
    rw [findFile?, findFile?, ht.findUpwards?_eq]
  cases h : findFile? s directory fileName with
  | none =>
      refine ⟨.ok (standard, none), fun t ht => ?_⟩
      show (load t directory).1 = _ ∧ SameFiles (load t directory).2 s
      rw [load, hfind t ht, h]
      exact ⟨rfl, ht⟩
  | some path =>
      obtain ⟨answer, hanswer⟩ := ((FileStore.steady_read path (s := s)).map (ofAnswer path)).map
        (Except.map fun settings => (settings, some path))
      refine ⟨answer, fun t ht => ?_⟩
      show (load t directory).1 = _ ∧ SameFiles (load t directory).2 s
      rw [load, hfind t ht, h]
      simp only [ofFile_run]
      exact hanswer t ht

/-- The standard settings meet every demand. -/
theorem validate_standard : standard.validate = .ok standard := by
  have hdirectory : isDirectoryName standard.installedDirectory = true := by decide +kernel
  have hnames : standard.configFiles.any (Text.trim · == "") = false := by decide +kernel
  rw [validate, hdirectory, hnames]
  rfl

theorem steady_loadLayered (directory : String) (environment options : List (String × String)) :
    Steady (SameFiles · s) (loadLayered · directory environment options) := by
  refine ⟨(loadLayered s directory environment options).1, fun t ht => ?_⟩
  have hanswer := (steady_load directory).answer_eq ht (SameFiles.refl s)
  have hkeeps := (steady_load directory).keeps ht
  show (loadLayered t directory environment options).1 = _ ∧
    SameFiles (loadLayered t directory environment options).2 s
  unfold loadLayered
  revert hanswer hkeeps
  cases load t directory with
  | mk answer t' =>
      rintro rfl hkeeps
      exact ⟨rfl, hkeeps⟩

end Settings

namespace CommandLine

-- ================================================================ tasks

/-- A task of two parts is done if both are. -/
theorem bind_eq_ok_iff {task : Task α} {next : α → Task β} {b : β} :
    ((task >>= next) s).1 = .ok b
      ↔ ∃ a, (task s).1 = .ok a ∧ (next a (task s).2).1 = .ok b := by
  show (ExceptT.bindCont next (task s).1 (task s).2).1 = _ ↔ _
  cases (task s).1 with
  | error failure => exact ⟨nofun, nofun⟩
  | ok a =>
      refine ⟨fun h => ⟨a, rfl, h⟩, ?_⟩
      rintro ⟨a', ha, h⟩
      obtain rfl := Except.ok.inj ha
      exact h

theorem mapError_eq_ok_iff {ε ε' : Type} {answer : Except ε α} {f : ε → ε'} {a : α} :
    answer.mapError f = .ok a ↔ answer = .ok a := by
  cases answer with
  | error fault => exact ⟨nofun, nofun⟩
  | ok b => exact ⟨fun h => congrArg _ (Except.ok.inj h), fun h => congrArg _ (Except.ok.inj h)⟩

theorem reading_run (r : Reading α) (s : FileStore) :
    reading r s = ((r s).1.mapError .ofFault, (r s).2) := by
  unfold reading
  cases r s with
  | mk answer s' =>
      cases answer with
      | error fault => rfl
      | ok a => rfl

theorem doing_run (what : String) (task : Task α) (s : FileStore) :
    doing what task s = ((task s).1.mapError (·.within what), (task s).2) := by
  unfold doing
  cases task s with
  | mk answer s' =>
      cases answer with
      | error failure => rfl
      | ok a => rfl

theorem reading_eq_ok_iff {r : Reading α} {a : α} :
    (reading r s).1 = .ok a ↔ (r s).1 = .ok a := by
  rw [reading_run, mapError_eq_ok_iff]

theorem doing_eq_ok_iff {what : String} {task : Task α} {a : α} :
    (doing what task s).1 = .ok a ↔ (task s).1 = .ok a := by
  rw [doing_run, mapError_eq_ok_iff]

theorem steady_reading {r : Reading α} (h : Steady (SameFiles · s) r) :
    Steady (SameFiles · s) (reading r) :=
  funext (reading_run r) ▸ h.map (Except.mapError Failure.ofFault)

theorem steady_doing (what : String) {task : Task α} (h : Steady (SameFiles · s) task) :
    Steady (SameFiles · s) (doing what task) :=
  funext (doing_run what task) ▸ h.map (Except.mapError (·.within what))

-- ============================================================ workspaces

namespace Workspace

variable (w : Workspace)

theorem steady_settings : Steady (SameFiles · s) w.settings :=
  steady_doing _ (steady_reading (Settings.steady_loadLayered _ _ _))

/-- Without a settings file and overrides the settings are the standard ones. -/
theorem settings_of_none {w : Workspace}
    (hfind : s.findUpwards? [Settings.fileName] w.root = none) (henvironment : w.environment = [])
    (hoptions : w.options = []) : (w.settings s).1 = .ok (.standard, none) := by
  refine doing_eq_ok_iff.mpr (reading_eq_ok_iff.mpr ?_)
  show (Settings.loadLayered s w.root _ _).1 = _
  rw [henvironment, hoptions, Settings.loadLayered, Settings.load, Settings.findFile?, hfind]
  show (Settings.standard.validate >>= fun settings => pure (settings, none)) = _
  rw [Settings.validate_standard]
  rfl

theorem steady_loadGraph : Steady (SameFiles · s) w.loadGraph := by
  refine Steady.bindExcept (steady_doing _ (steady_reading (FileStore.steady_read w.graph)))
    fun content => ?_
  split
  · exact Steady.pure _
  · exact Steady.pure _

/-- The graph is the one that its file holds. -/
theorem loadGraph_eq_ok_iff {graph : WorkspaceGraph} :
    (w.loadGraph s).1 = .ok graph
      ↔ ∃ text, s.content? w.graph = some text ∧ WorkspaceGraph.ofText? text = some graph := by
  unfold loadGraph
  rw [bind_eq_ok_iff]
  simp only [doing_eq_ok_iff, reading_eq_ok_iff, FileStore.read_eq_ok_iff]
  refine exists_congr fun text => and_congr_right fun _ => ?_
  cases WorkspaceGraph.ofText? text with
  | none =>
      refine iff_of_false (fun h => ?_) (Option.some_ne_none graph).symm
      cases h
  | some found =>
      exact ⟨fun h => congrArg some (Except.ok.inj h), fun h => congrArg _ (Option.some.inj h)⟩

theorem steady_compilerConfig (settings : Settings) :
    Steady (SameFiles · s) (w.compilerConfig settings) :=
  steady_reading (CompilerConfig.steady_load ..)

end Workspace

end CommandLine

end ImportResolution
