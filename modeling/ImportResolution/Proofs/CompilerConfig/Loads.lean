/-
The files that a search through extended configurations loads, in the order in which it
loads them. It loads every file that it enters, and it enters a file for every entry that
means it, so a file that is inherited along several ways is loaded once for each. What is
loaded depends on the files alone (`Loads.unique`), there is such a list exactly if the
search ends (`Loads.ends`, `Follows.loads`), and the readings that a search counts are
those of the list (`load_readings`). If the search comes to options, the list has all
files that the start extends at whatever distance, and no others (`Loads.mem_iff`).
-/
import ImportResolution.Proofs.CompilerConfig.Reading
import ImportResolution.Proofs.CompilerConfig.Trails
import ImportResolution.Proofs.FileStore

namespace ImportResolution.CompilerConfig

open FileStore (SameFiles)
open FilePath (clean)
open Relation (ReflTransGen)

-- ================================================================= loads

mutual

/-- From a path, met on the way along a chain, the search loads some files, and comes to
options or to a fault. -/
inductive Loads (installed : String) (s : FileStore) :
    List String → String → List String → Bool → Prop where
  | circle {chain path} (again : chain.any (FilePath.same path) = true) :
      Loads installed s chain path [] false
  | unreadable {chain path fault} (new : chain.any (FilePath.same path) = false)
      (load : (ConfigFile.load s path).1 = .error fault) :
      Loads installed s chain path [path] false
  | file {chain path file log ok} (new : chain.any (FilePath.same path) = false)
      (load : (ConfigFile.load s path).1 = .ok file)
      (parents : LoadsAll installed s chain path file.entries log ok) :
      Loads installed s chain path (path :: log) ok

/-- For the remaining entries of a file the search loads some files, and comes to options
or to a fault. -/
inductive LoadsAll (installed : String) (s : FileStore) :
    List String → String → List String → List String → Bool → Prop where
  | done {chain path} : LoadsAll installed s chain path [] [] true
  | missing {chain path entry rest}
      (found : parentFile? s installed (directoryOf path) entry = none) :
      LoadsAll installed s chain path (entry :: rest) [] false
  | failed {chain path entry rest parent log}
      (found : parentFile? s installed (directoryOf path) entry = some parent)
      (first : Loads installed s (chain ++ [path]) parent log false) :
      LoadsAll installed s chain path (entry :: rest) log false
  | next {chain path entry rest parent log later ok}
      (found : parentFile? s installed (directoryOf path) entry = some parent)
      (first : Loads installed s (chain ++ [path]) parent log true)
      (others : LoadsAll installed s chain path rest later ok) :
      LoadsAll installed s chain path (entry :: rest) (log ++ later) ok

end

variable {installed path : String} {chain log : List String} {s s' t : FileStore}
  {answer : Except Fault Options} {ok : Bool}

/-- A file that extends nothing is all that is loaded. -/
theorem loads_of_no_entry {file : ConfigFile} (hnew : chain.any (FilePath.same path) = false)
    (hload : (ConfigFile.load s path).1 = .ok file) (hentries : file.entries = []) :
    Loads installed s chain path [path] true := by
  have hparents : LoadsAll installed s chain path file.entries [] true := by
    rw [hentries]
    exact .done
  exact .file hnew hload hparents

/-- A search loads the same files whenever it is made. -/
theorem Loads.unique {log' : List String} {ok' : Bool} (h : Loads installed s chain path log ok)
    (h' : Loads installed s chain path log' ok') : log = log' ∧ ok = ok' := by
  induction h using Loads.rec
    (motive_2 := fun chain path entries log ok _ =>
      ∀ log' ok', LoadsAll installed s chain path entries log' ok' → log = log' ∧ ok = ok')
    generalizing log' ok' with
  | circle again =>
      cases h' with
      | circle => exact ⟨rfl, rfl⟩
      | unreadable new => simp [again] at new
      | file new => simp [again] at new
  | unreadable new load =>
      cases h' with
      | circle again => simp [again] at new
      | unreadable => exact ⟨rfl, rfl⟩
      | file _ load' => cases load.symm.trans load'
  | file new load parents ih =>
      cases h' with
      | circle again => simp [again] at new
      | unreadable _ load' => cases load.symm.trans load'
      | file _ load' parents' =>
          cases load.symm.trans load'
          obtain ⟨rfl, rfl⟩ := ih _ _ parents'
          exact ⟨rfl, rfl⟩
  | done =>
      rename_i h'
      cases h'
      exact ⟨rfl, rfl⟩
  | missing found =>
      rename_i h'
      cases h' with
      | missing => exact ⟨rfl, rfl⟩
      | failed found' => cases found.symm.trans found'
      | next found' => cases found.symm.trans found'
  | failed found first ih =>
      rename_i h'
      cases h' with
      | missing found' => cases found.symm.trans found'
      | failed found' first' =>
          cases found.symm.trans found'
          exact ih first'
      | next found' first' =>
          cases found.symm.trans found'
          cases (ih first').2
  | next found first others ih ih' =>
      rename_i h'
      cases h' with
      | missing found' => cases found.symm.trans found'
      | failed found' first' =>
          cases found.symm.trans found'
          cases (ih first').2
      | next found' first' others' =>
          cases found.symm.trans found'
          obtain ⟨rfl, -⟩ := ih first'
          obtain ⟨rfl, rfl⟩ := ih' _ _ others'
          exact ⟨rfl, rfl⟩

/-- A search for which there is a list of files loaded ends. -/
theorem Loads.ends (h : Loads installed s chain path log ok) :
    ∃ answer, Ends installed s chain path answer ∧ answer.toBool = ok := by
  induction h using Loads.rec
    (motive_2 := fun chain path entries log ok _ => ∀ earlier,
      ∃ answer, Led installed s chain path entries earlier answer ∧ answer.toBool = ok) with
  | circle again => exact ⟨_, ⟨s, .circle again⟩, rfl⟩
  | unreadable new load => exact ⟨_, ⟨_, .unreadable new (Prod.ext load rfl)⟩, rfl⟩
  | @file chain path file log ok new load parents ih =>
      obtain ⟨inherited, hled, hok⟩ := ih .unknown
      have hload : ConfigFile.load s path = (.ok file, (ConfigFile.load s path).2) :=
        Prod.ext load rfl
      obtain ⟨s', hinherits⟩ := hled.transfer (SameFiles.of_load _ _ hload).symm
      refine ⟨_, ⟨s', .file new hload hinherits⟩, ?_⟩
      cases inherited with
      | error fault => exact hok
      | ok options => exact hok
  | done => exact ⟨_, ⟨s, .done⟩, rfl⟩
  | missing found => exact ⟨_, ⟨s, .missing found⟩, rfl⟩
  | failed found first ih =>
      obtain ⟨answer, hends, hok⟩ := ih
      cases answer with
      | error fault => exact ⟨_, Led.failed found hends, rfl⟩
      | ok options => cases hok
  | next found first others ih ih' =>
      rename_i earlier
      obtain ⟨answer, hends, hok⟩ := ih
      cases answer with
      | error fault => cases hok
      | ok options =>
          obtain ⟨answer', hled, hok'⟩ := ih' (earlier.overlay options)
          exact ⟨answer', Led.next found hends hled, hok'⟩

-- ================================================================= reach

/-- What is loaded is extended from the path on, over any number of files. -/
theorem Loads.reached (h : Loads installed s chain path log ok) :
    ∀ p ∈ log, ReflTransGen (Extending installed s) path p := by
  induction h using Loads.rec
    (motive_2 := fun _ path entries log _ _ => ∀ p ∈ log, ∃ entry ∈ entries, ∃ parent,
      parentFile? s installed (directoryOf path) entry = some parent ∧
        ReflTransGen (Extending installed s) parent p) with
  | circle again => exact fun p hp => absurd hp List.not_mem_nil
  | unreadable new load =>
      intro p hp
      rw [List.mem_singleton.mp hp]
  | @file chain path file log ok new load parents ih =>
      intro p hp
      rcases List.mem_cons.mp hp with rfl | hp
      · exact ReflTransGen.refl
      · obtain ⟨entry, hentry, parent, hfound, hreach⟩ := ih p hp
        exact hreach.head ⟨file, entry, load, hentry, hfound⟩
  | done =>
      rename_i hp
      exact absurd hp List.not_mem_nil
  | missing found =>
      rename_i hp
      exact absurd hp List.not_mem_nil
  | failed found first ih =>
      rename_i p hp
      exact ⟨_, List.mem_cons_self, _, found, ih p hp⟩
  | next found first others ih ih' =>
      rename_i p hp
      rcases List.mem_append.mp hp with hp | hp
      · exact ⟨_, List.mem_cons_self, _, found, ih p hp⟩
      · obtain ⟨entry, hentry, reach⟩ := ih' p hp
        exact ⟨entry, List.mem_cons_of_mem _ hentry, reach⟩

/-- A search that comes to options loads its start, and with each file all that this one
extends. -/
theorem Loads.closed (h : Loads installed s chain path log ok) (hok : ok = true) :
    path ∈ log ∧ ∀ p ∈ log, ∀ q, Extending installed s p q → q ∈ log := by
  induction h using Loads.rec
    (motive_2 := fun _ path entries log ok _ => ok = true →
      (∀ entry ∈ entries, ∀ parent, parentFile? s installed (directoryOf path) entry = some parent →
        parent ∈ log) ∧ ∀ p ∈ log, ∀ q, Extending installed s p q → q ∈ log) with
  | circle again => cases hok
  | unreadable new load => cases hok
  | @file chain path file log ok new load parents ih =>
      obtain ⟨hparents, hclosed⟩ := ih hok
      refine ⟨List.mem_cons_self, fun p hp q hext => List.mem_cons_of_mem _ ?_⟩
      rcases List.mem_cons.mp hp with rfl | hp
      · obtain ⟨file', entry, load', hentry, hfound⟩ := hext
        cases load.symm.trans load'
        exact hparents entry hentry q hfound
      · exact hclosed p hp q hext
  | done => exact ⟨fun _ h => absurd h List.not_mem_nil, fun _ h => absurd h List.not_mem_nil⟩
  | missing found => rename_i hok; cases hok
  | failed found first ih => rename_i hok; cases hok
  | @next chain path entry rest parent log later ok found first others ih ih' =>
      rename_i hok
      obtain ⟨hfirst, hclosed⟩ := ih rfl
      obtain ⟨hparents, hclosed'⟩ := ih' hok
      refine ⟨fun e he p hp => ?_, fun p hp q hext => ?_⟩
      · rcases List.mem_cons.mp he with rfl | he
        · cases found.symm.trans hp
          exact List.mem_append_left _ hfirst
        · exact List.mem_append_right _ (hparents e he p hp)
      · exact (List.mem_append.mp hp).elim
          (fun hp => List.mem_append_left _ (hclosed p hp q hext))
          (fun hp => List.mem_append_right _ (hclosed' p hp q hext))

/-- A search that comes to options loads the files that its start extends, over any
number of files, and the start. -/
theorem Loads.mem_iff {p : String} (h : Loads installed s chain path log true) :
    p ∈ log ↔ ReflTransGen (Extending installed s) path p := by
  refine ⟨h.reached p, fun hreach => ?_⟩
  obtain ⟨hstart, hclosed⟩ := h.closed rfl
  induction hreach with
  | refl => exact hstart
  | tail _ hext ih => exact hclosed _ ih _ hext

-- ============================================================== readings

/-- The readings of one store are those of another and one of each of some files. -/
def ReadOn (s : FileStore) (log : List String) (s' : FileStore) : Prop :=
  ∀ p, s'.readingsOf p = s.readingsOf p + (log.map clean).count (clean p)

theorem readOn_nil (s : FileStore) : ReadOn s [] s :=
  fun _ => rfl

theorem ReadOn.append {s₁ s₂ : FileStore} {later : List String} (h : ReadOn s log s₁)
    (h' : ReadOn s₁ later s₂) : ReadOn s (log ++ later) s₂ := by
  intro p
  rw [h', h, List.map_append, List.count_append, Nat.add_assoc]

theorem readOn_of_load {loaded : Except Fault ConfigFile}
    (h : ConfigFile.load s path = (loaded, s')) : ReadOn s [path] s' := by
  intro p
  rw [ConfigFile.load, FileStore.load_run] at h
  obtain ⟨-, rfl⟩ := Prod.mk.inj h
  rw [FileStore.readingsOf_countReading, List.map_singleton, List.count_singleton]
  exact congrArg _ (if_congr (beq_iff_eq.trans eq_comm).symm rfl rfl)

/-- A search that ends loads some files, and the readings of these are what it counts. -/
theorem Follows.loads (h : Follows installed chain path s answer s') (hst : SameFiles s t) :
    ∃ log, Loads installed t chain path log answer.toBool ∧ ReadOn s log s' := by
  induction h using Follows.rec
    (motive_2 := fun chain path entries _ s answer s' _ => SameFiles s t →
      ∃ log, LoadsAll installed t chain path entries log answer.toBool ∧ ReadOn s log s') with
  | circle again => exact ⟨[], .circle again, readOn_nil _⟩
  | unreadable new load =>
      have hload := (hst.load_eq _ _ _).symm.trans (congrArg Prod.fst load)
      exact ⟨[_], .unreadable new hload, readOn_of_load load⟩
  | @file chain path s s₁ s₂ file inherited new load inherits ih =>
      have hload := (hst.load_eq _ _ path).symm.trans (congrArg Prod.fst load)
      obtain ⟨log, hlog, hread⟩ := ih ((SameFiles.of_load _ _ load).trans hst)
      refine ⟨path :: log, ?_, (readOn_of_load load).append hread⟩
      cases inherited with
      | error fault => exact .file new hload hlog
      | ok options => exact .file new hload hlog
  | done => exact ⟨[], .done, readOn_nil _⟩
  | missing found =>
      rename_i hst
      rw [parentFile?_eq hst] at found
      exact ⟨[], .missing found, readOn_nil _⟩
  | failed found follows ih =>
      rename_i hst
      obtain ⟨log, hlog, hread⟩ := ih hst
      rw [parentFile?_eq hst] at found
      exact ⟨log, .failed found hlog, hread⟩
  | next found follows inherits ih ih' =>
      rename_i hst
      obtain ⟨log, hlog, hread⟩ := ih hst
      obtain ⟨later, hlater, hread'⟩ := ih' (follows.transfer.1.trans hst)
      rw [parentFile?_eq hst] at found
      exact ⟨log ++ later, .next found hlog hlater, hread.append hread'⟩

-- ========================================================= configuration

/-- The files that are loaded for the configuration of a workspace; none where no file
with one of the names is found. -/
def ConfigLoads (installed : String) (names : List String) (root : String) (s : FileStore)
    (log : List String) : Prop :=
  match s.findUpwards? names root with
  | none => log = []
  | some path => ∃ ok, Loads installed s [] (clean path) log ok

/-- The search for the configuration of a workspace ends, if it begins. -/
def ConfigEnds (installed : String) (names : List String) (root : String) (s : FileStore) : Prop :=
  ∀ path, s.findUpwards? names root = some path →
    (optionsOf installed [] (clean path) s).isSome

variable {names : List String} {root : String}

theorem configLoads_of_found (hfind : s.findUpwards? names root = some path)
    (hclean : clean path = path) (h : Loads installed s [] path log ok) :
    ConfigLoads installed names root s log := by
  rw [ConfigLoads, hfind]
  exact ⟨ok, hclean.symm ▸ h⟩

theorem configEnds_iff :
    ConfigEnds installed names root s ↔ ∃ log, ConfigLoads installed names root s log := by
  unfold ConfigEnds ConfigLoads
  cases s.findUpwards? names root with
  | none => simp
  | some path =>
      simp only [Option.some.injEq, forall_eq', optionsOf_isSome_iff]
      constructor
      · rintro ⟨answer, s', hfollows⟩
        obtain ⟨log, hlog, -⟩ := hfollows.loads (SameFiles.refl s)
        exact ⟨log, _, hlog⟩
      · rintro ⟨log, ok, hlog⟩
        obtain ⟨answer, hends, -⟩ := hlog.ends
        exact ⟨answer, hends⟩

/-- What loading the configuration does to the store is done by the search. -/
theorem load_snd (installed : String) (names : List String) (root : String) (s : FileStore) :
    (load installed names root s).2
      = match s.findUpwards? names root with
        | none => s
        | some path => (inForce installed (clean path) s).2 := by
  rw [load_run]
  cases s.findUpwards? names root with
  | none => rfl
  | some path =>
      simp only [Functor.map, ExceptT.map, ExceptT.mk, ofFile, bind, ExceptT.bind, StateT.bind]
      cases inForce installed (clean path) s with
      | mk answer s' => cases answer <;> rfl

/-- Loading the configuration counts the readings of the files that are loaded. -/
theorem load_readings (h : ConfigLoads installed names root s log) (hst : SameFiles t s) :
    SameFiles (load installed names root t).2 s ∧ ReadOn t log (load installed names root t).2 := by
  refine ⟨(steady_load installed names root s).keeps hst, ?_⟩
  unfold ConfigLoads at h
  rw [load_snd, hst.findUpwards?_eq]
  cases hfind : s.findUpwards? names root with
  | none =>
      rw [hfind] at h
      rw [h]
      exact readOn_nil t
  | some path =>
      rw [hfind] at h
      obtain ⟨ok, hloads⟩ := h
      obtain ⟨answer, hends, -⟩ := hloads.ends
      obtain ⟨t', hfollows⟩ := hends.transfer hst.symm
      obtain ⟨log', hlog', hread⟩ := hfollows.loads hst
      obtain ⟨rfl, -⟩ := hloads.unique hlog'
      simp only [inForce, hfollows.optionsOf_eq, Option.getD_some]
      exact hread

end ImportResolution.CompilerConfig
