/-
When a search through extended configurations ends, and when it tells of a
circle. A search comes back to a file when it meets a path that leads to the
same file as a path on the chain; it notices this only if the two paths have
the same components, and paths of packages keep the spelling of their entries.

# What decides

If every return is noticed, the files on a chain are all different, so no
chain is longer than there are files and the search ends; and a return that is
reached ends it with the fault that names the circle. Conversely that fault is
only ever told by a search that noticed. So the search ends and tells of every
circle exactly if every return that it reaches is noticed
(`circles_told_iff`).

Otherwise the search may have no answer at all. The fault that stands for the
missing answer cannot be taken for one, since a search that ends tells other
faults only (`inForce_eq_extendsTooDeep_iff`).
-/
import ImportResolution.Proofs.CompilerConfig.Derivation

namespace ImportResolution.CompilerConfig

open FileStore (SameFiles)

variable {installed start path : String} {chain : List String} {s : FileStore}

-- ============================================================= the ways

/-- The search from `start` gets to a path along a chain: each file on the way
can be read and is new, the entry that is followed means the next path, and the
entries before it have led to options. -/
inductive Reached (installed : String) (s : FileStore) (start : String) :
    List String → String → Prop where
  | start : Reached installed s start [] start
  | entry {chain path s₁ s₂ file before entry after earlier parent}
      (reached : Reached installed s start chain path)
      (new : chain.any (FilePath.same path) = false)
      (load : ConfigFile.load s path = (.ok file, s₁))
      (entries : file.entries = before ++ entry :: after)
      (inherits : Inherits installed chain path before .unknown s₁ (.ok earlier) s₂)
      (found : parentFile? s installed (directoryOf path) entry = some parent) :
      Reached installed s start (chain ++ [path]) parent

/-- The path leads to the file of a path on the chain. -/
def Returns (chain : List String) (path : String) : Prop :=
  ∃ q ∈ chain, FilePath.clean q = FilePath.clean path

/-- Every return that the search reaches is noticed. -/
def Attentive (installed : String) (s : FileStore) (start : String) : Prop :=
  ∀ chain path, Reached installed s start chain path → Returns chain path →
    chain.any (FilePath.same path) = true

-- ========================================================== composition

/-- Entries that lead to options, and then the others. -/
theorem Inherits.append {before rest : List String} {earlier middle : Options}
    {s₁ s₂ : FileStore} {answer : Except Fault Options}
    (h : Inherits installed chain path before earlier s (.ok middle) s₁)
    (h' : Inherits installed chain path rest middle s₁ answer s₂) :
    Inherits installed chain path (before ++ rest) earlier s answer s₂ := by
  induction before generalizing earlier s with
  | nil =>
      cases h
      exact h'
  | cons entry more ih =>
      cases h with
      | next found follows inherits => exact .next found follows (ih inherits)

/-- Following entries changes no file. -/
theorem Inherits.sameFiles {entries : List String} {earlier : Options} {s' : FileStore}
    {answer : Except Fault Options}
    (h : Inherits installed chain path entries earlier s answer s') : SameFiles s' s := by
  induction entries generalizing earlier s with
  | nil =>
      cases h
      exact SameFiles.refl _
  | cons entry rest ih =>
      cases h with
      | missing => exact SameFiles.refl _
      | failed found follows => exact follows.transfer.1
      | next found follows inherits => exact (ih inherits).trans follows.transfer.1

/-- The outcome of a search, whatever it counts. -/
def Ends (installed : String) (s : FileStore) (chain : List String) (path : String)
    (answer : Except Fault Options) : Prop :=
  ∃ s', Follows installed chain path s answer s'

theorem Ends.transfer {t : FileStore} {answer : Except Fault Options} (hst : SameFiles s t)
    (h : Ends installed s chain path answer) : Ends installed t chain path answer := by
  obtain ⟨s', hs⟩ := h
  obtain ⟨t', -, ht⟩ := hs.transfer.2 t hst
  exact ⟨t', ht⟩

/-- A fault that a search meets on its way is its answer. -/
theorem Reached.ends_error {fault : Fault} (h : Reached installed s start chain path)
    (hp : Ends installed s chain path (.error fault)) :
    Ends installed s [] start (.error fault) := by
  induction h with
  | start => exact hp
  | @entry chain path s₁ s₂ file before entry after earlier parent reached new load entries
      inherits found ih =>
      have hs₂ : SameFiles s s₂ :=
        ((inherits.sameFiles).trans (SameFiles.of_load _ _ load)).symm
      obtain ⟨s₃, hfollows⟩ := hp.transfer hs₂
      have hfound : parentFile? s₂ installed (directoryOf path) entry = some parent := by
        rw [← parentFile?_eq hs₂]
        exact found
      have hall : Inherits installed chain path file.entries .unknown s₁ (.error fault) s₃ := by
        rw [entries]
        exact inherits.append (.failed hfound hfollows)
      exact ih ⟨s₃, .file new load hall⟩

-- ======================================================== what is told

/-- A file that cannot be read or decoded is no circle. -/
theorem load_ne_circular {circle : List String} {s' : FileStore} :
    ConfigFile.load s path ≠ (.error (.circularExtends circle), s') := by
  intro h
  rcases FileStore.load_eq_error _ _ (congrArg Prod.fst h) with hfault | hfault
  · cases hfault
  · cases hfault

/-- A fault that a search ends with: a circle that it noticed, a file that is no
configuration file, or an entry that means no file. -/
inductive Offence : Fault → Prop where
  | circle {before last} (again : before.any (FilePath.same last) = true) :
      Offence (.circularExtends (before ++ [last]))
  | unreadable {path fault s s'} (load : ConfigFile.load s path = (.error fault, s')) : Offence fault
  | missing (entry path) : Offence (parentMissing entry path)

theorem Offence.circular {circle : List String} (h : Offence (.circularExtends circle)) :
    ∃ before last, circle = before ++ [last] ∧ before.any (FilePath.same last) = true := by
  cases h with
  | circle again => exact ⟨_, _, rfl, again⟩
  | unreadable load => exact absurd load load_ne_circular

theorem Offence.ne_extendsTooDeep {fault : Fault} (h : Offence fault) (p : String) :
    fault ≠ .extendsTooDeep p := by
  rintro rfl
  cases h with
  | unreadable load =>
      rcases FileStore.load_eq_error _ _ (congrArg Prod.fst load) with hfault | hfault
      · cases hfault
      · cases hfault

/-- A fault is told where it arises, and passed on from there unchanged. -/
theorem Follows.offence {s' : FileStore} {answer : Except Fault Options}
    (h : Follows installed chain path s answer s') {fault : Fault}
    (hanswer : answer = .error fault) : Offence fault := by
  induction h using Follows.rec
    (motive_2 := fun _ _ _ _ _ answer _ _ => answer = .error fault → Offence fault) with
  | circle again =>
      cases hanswer
      exact .circle again
  | unreadable new load =>
      cases hanswer
      exact .unreadable load
  | @file chain path s s₁ s₂ file inherited new load inherits ih =>
      cases inherited with
      | error fault => exact ih hanswer
      | ok options => cases hanswer
  | done => rename_i h; cases h
  | missing found =>
      rename_i h
      cases h
      exact .missing _ _
  | failed found follows ih => rename_i h; exact ih h
  | next found follows inherits ih ih' => rename_i h; exact ih' h

-- ============================================================ the bound

/-- A file that was loaded is there. -/
theorem isFile_of_load {file : ConfigFile} {s' : FileStore}
    (h : ConfigFile.load s path = (.ok file, s')) : s.isFile path = true := by
  obtain ⟨text, hc, -⟩ := (FileStore.load_eq_ok_iff _ _).mp (congrArg Prod.fst h)
  rw [FileStore.isFile, hc]
  rfl

/-- The files on a chain are there, and they are different if every return is
noticed. -/
theorem Reached.chain_files (h : Reached installed s start chain path)
    (ha : Attentive installed s start) :
    (chain.map FilePath.clean).Nodup ∧ ∀ q ∈ chain, FilePath.clean q ∈ Table.keys s.files := by
  induction h with
  | start => exact ⟨List.nodup_nil, fun q hq => absurd hq List.not_mem_nil⟩
  | @entry chain path s₁ s₂ file before entry after earlier parent reached new load entries
      inherits found ih =>
      obtain ⟨hnodup, hfiles⟩ := ih
      constructor
      · rw [List.map_append, List.map_singleton, List.nodup_append]
        refine ⟨hnodup, List.pairwise_singleton .., ?_⟩
        intro a ha' b hb hab
        obtain ⟨q, hq, rfl⟩ := List.mem_map.mp ha'
        rw [List.mem_singleton] at hb
        have hnoticed := ha chain path reached ⟨q, hq, hab.trans hb⟩
        rw [new] at hnoticed
        cases hnoticed
      · intro q hq
        rcases List.mem_append.mp hq with hq | hq
        · exact hfiles q hq
        · rw [List.mem_singleton] at hq
          subst hq
          exact FileStore.clean_mem_keys_of_isFile (isFile_of_load load)

/-- No chain is longer than there are files. -/
theorem Reached.chain_length_le (h : Reached installed s start chain path)
    (ha : Attentive installed s start) : chain.length ≤ s.files.length := by
  obtain ⟨hnodup, hfiles⟩ := h.chain_files ha
  have hsub : chain.map FilePath.clean ⊆ Table.keys s.files := by
    intro p hp
    obtain ⟨q, hq, rfl⟩ := List.mem_map.mp hp
    exact hfiles q hq
  have hle := List.Nodup.length_le_of_subset hnodup hsub
  rw [List.length_map, Table.keys, List.length_map] at hle
  exact hle

/-- If the search ends from every path that a file leads to, the remaining
entries of the file lead to an answer. -/
theorem Reached.inherits_ends {file : ConfigFile} {s₁ : FileStore}
    (h : Reached installed s start chain path) (hnew : chain.any (FilePath.same path) = false)
    (hload : ConfigFile.load s path = (.ok file, s₁))
    (hends : ∀ parent, Reached installed s start (chain ++ [path]) parent →
      ∃ answer, Ends installed s (chain ++ [path]) parent answer)
    {before rest : List String} {earlier : Options} {s₂ : FileStore}
    (hentries : file.entries = before ++ rest)
    (hbefore : Inherits installed chain path before .unknown s₁ (.ok earlier) s₂) :
    ∃ answer s₃, Inherits installed chain path rest earlier s₂ answer s₃ := by
  induction rest generalizing before earlier s₂ with
  | nil => exact ⟨_, s₂, .done⟩
  | cons entry after ih =>
      have hs₂ : SameFiles s s₂ :=
        (hbefore.sameFiles.trans (SameFiles.of_load _ _ hload)).symm
      cases hfound : parentFile? s installed (directoryOf path) entry with
      | none =>
          rw [parentFile?_eq hs₂] at hfound
          exact ⟨_, s₂, .missing hfound⟩
      | some parent =>
          obtain ⟨answer, hanswer⟩ :=
            hends parent (.entry h hnew hload hentries hbefore hfound)
          obtain ⟨s₃, hfollows⟩ := hanswer.transfer hs₂
          rw [parentFile?_eq hs₂] at hfound
          cases answer with
          | error fault => exact ⟨_, s₃, .failed hfound hfollows⟩
          | ok options =>
              have hone : Inherits installed chain path [entry] earlier s₂
                  (.ok (earlier.overlay options)) s₃ :=
                .next hfound hfollows .done
              obtain ⟨answer, s₄, hrest⟩ := ih
                (by rw [hentries, List.append_assoc, List.singleton_append])
                (hbefore.append hone)
              exact ⟨answer, s₄, .next hfound hfollows hrest⟩

/-- If every return is noticed, the search ends from wherever it gets to. -/
theorem Reached.ends (h : Reached installed s start chain path)
    (ha : Attentive installed s start) : ∃ answer, Ends installed s chain path answer := by
  -- each file that joins the chain leaves fewer that can still join
  induction hn : s.files.length - chain.length using Nat.strongRecOn generalizing chain path with
  | ind n ih =>
      cases hnew : chain.any (FilePath.same path) with
      | true => exact ⟨_, s, .circle hnew⟩
      | false =>
          cases hload : ConfigFile.load s path with
          | mk loaded s₁ =>
              cases loaded with
              | error fault => exact ⟨_, s₁, .unreadable hnew hload⟩
              | ok file =>
                  obtain ⟨answer, s₂, hinherits⟩ := h.inherits_ends hnew hload
                    (fun parent hparent => by
                      have hle := hparent.chain_length_le ha
                      have hlen : (chain ++ [path]).length = chain.length + 1 := by simp
                      exact ih (s.files.length - (chain ++ [path]).length) (by omega) hparent rfl)
                    (List.nil_append _).symm .done
                  exact ⟨_, s₂, .file hnew hload hinherits⟩

-- ============================================================= the circles

theorem optionsOf_isSome_iff :
    (optionsOf installed chain path s).isSome ↔ ∃ answer, Ends installed s chain path answer := by
  rw [Option.isSome_iff_exists]
  constructor
  · rintro ⟨⟨answer, s'⟩, h⟩
    exact ⟨answer, s', follows_of_optionsOf h⟩
  · rintro ⟨answer, s', h⟩
    exact ⟨(answer, s'), h.optionsOf_eq⟩

theorem Ends.inForce_eq {answer : Except Fault Options} (h : Ends installed s [] path answer) :
    (inForce installed path s).1 = answer := by
  obtain ⟨s', h⟩ := h
  rw [inForce, h.optionsOf_eq, Option.getD_some]

theorem ends_of_inForce {fault : Fault} (h : (inForce installed path s).1 = .error fault)
    (hsome : (optionsOf installed [] path s).isSome) :
    Ends installed s [] path (.error fault) := by
  obtain ⟨answer, hends⟩ := optionsOf_isSome_iff.mp hsome
  rw [hends.inForce_eq] at h
  rw [← h]
  exact hends

/-- The fault that stands where the search has no answer stands nowhere else: no search that
ends tells it. -/
theorem inForce_eq_extendsTooDeep_iff {p : String} :
    (inForce installed path s).1 = .error (.extendsTooDeep p)
      ↔ p = path ∧ optionsOf installed [] path s = none := by
  constructor
  · intro h
    cases hsearch : optionsOf installed [] path s with
    | none =>
        rw [inForce, hsearch] at h
        cases h
        exact ⟨rfl, rfl⟩
    | some found =>
        obtain ⟨s', hfollows⟩ := ends_of_inForce h (hsearch ▸ rfl)
        exact absurd rfl ((hfollows.offence rfl).ne_extendsTooDeep p)
  · rintro ⟨rfl, hsearch⟩
    rw [inForce, hsearch]
    rfl

/-- The configuration of a file is read off its options. -/
theorem ofFile_fst (installed path : String) (s : FileStore) :
    (ofFile installed path s).1
      = (inForce installed (FilePath.clean path) s).1.map fun options =>
        { path := FilePath.clean path
          baseUrl := options.baseUrl
          aliases := (options.aliases.map Prod.fst).getD .empty
          aliasBase := (options.baseUrl.or (options.aliases.map Prod.snd)).getD
            (((FilePath.parent? path).map FilePath.clean).getD "") } := by
  simp only [ofFile, bind, ExceptT.bind, ExceptT.mk, StateT.bind]
  cases inForce installed (FilePath.clean path) s with
  | mk answer s' =>
      cases answer with
      | error fault => rfl
      | ok options => rfl

/-- Without options a file is configured with nothing but its own place. -/
theorem ofFile_of_unknown (h : (inForce installed (FilePath.clean path) s).1 = .ok .unknown) :
    (ofFile installed path s).1 = .ok ⟨FilePath.clean path, none, .empty,
      ((FilePath.parent? path).map FilePath.clean).getD ""⟩ := by
  rw [ofFile_fst, h]
  rfl

theorem ofFile_eq_error_iff {fault : Fault} :
    (ofFile installed path s).1 = .error fault
      ↔ (inForce installed (FilePath.clean path) s).1 = .error fault := by
  rw [ofFile_fst]
  cases (inForce installed (FilePath.clean path) s).1 with
  | error f =>
      constructor
      · intro h
        exact congrArg Except.error (Except.error.inj h)
      · intro h
        exact congrArg Except.error (Except.error.inj h)
  | ok options =>
      constructor
      · intro h
        cases h
      · intro h
        cases h

/-- The search for the options of a file ends and tells of every circle that it
reaches exactly if it notices every return. -/
theorem circles_told_iff (installed path : String) (s : FileStore) :
    ((optionsOf installed [] (FilePath.clean path) s).isSome ∧
      ∀ chain p, Reached installed s (FilePath.clean path) chain p → Returns chain p →
        (ofFile installed path s).1 = .error (.circularExtends (chain ++ [p])))
      ↔ Attentive installed s (FilePath.clean path) := by
  constructor
  · rintro ⟨hsome, htold⟩ chain p hreached hreturns
    have herror := ofFile_eq_error_iff.mp (htold chain p hreached hreturns)
    obtain ⟨s', hfollows⟩ := ends_of_inForce herror hsome
    obtain ⟨before, last, hcircle, hany⟩ := (hfollows.offence rfl).circular
    obtain ⟨rfl, hlast⟩ := List.append_inj' hcircle rfl
    cases hlast
    exact hany
  · intro ha
    refine ⟨optionsOf_isSome_iff.mpr (Reached.start.ends ha), fun chain p hreached hreturns => ?_⟩
    have hnoticed : Ends installed s chain p (.error (.circularExtends (chain ++ [p]))) :=
      ⟨s, .circle (ha chain p hreached hreturns)⟩
    exact ofFile_eq_error_iff.mpr (hreached.ends_error hnoticed).inForce_eq

-- ======================================================= a missed circle

theorem load_of_content {text : String} {file : ConfigFile} (hc : s.content? path = some text)
    (hf : ConfigFile.ofText? text = some file) :
    ConfigFile.load s path = (.ok file, s.countReading path) := by
  rw [ConfigFile.load, FileStore.load_run, hc]
  simp only [hf, Option.elim]

/-- A file that extends one other, from which the search ends with options. -/
theorem ends_of_entry {s₁ : FileStore} {file : ConfigFile} {entry parent : String}
    {options : Options} (hnew : chain.any (FilePath.same path) = false)
    (hload : ConfigFile.load s path = (.ok file, s₁)) (hentries : file.entries = [entry])
    (hfound : parentFile? s installed (directoryOf path) entry = some parent)
    (h : Ends installed s (chain ++ [path]) parent (.ok options)) :
    Ends installed s chain path
      (.ok ((Options.unknown.overlay options).overlay (.stated file (directoryOf path)))) := by
  have hs := (SameFiles.of_load _ _ hload).symm
  obtain ⟨s', hfollows⟩ := h.transfer hs
  rw [parentFile?_eq hs] at hfound
  have hinherits : Inherits installed chain path file.entries .unknown s₁
      (.ok (Options.unknown.overlay options)) s' := by
    rw [hentries]
    exact .next hfound hfollows .done
  exact ⟨s', .file hnew hload hinherits⟩

/-- A file that extends nothing. -/
theorem ends_of_no_entry {s₁ : FileStore} {file : ConfigFile}
    (hnew : chain.any (FilePath.same path) = false)
    (hload : ConfigFile.load s path = (.ok file, s₁)) (hentries : file.entries = []) :
    Ends installed s chain path
      (.ok (Options.unknown.overlay (.stated file (directoryOf path)))) := by
  have hinherits : Inherits installed chain path file.entries .unknown s₁ (.ok .unknown) s₁ := by
    rw [hentries]
    exact .done
  exact ⟨s₁, .file hnew hload hinherits⟩

/-- A file that extends itself through a package entry, and a file that the same
entry means when it is seen from the longer spelling. -/
def circlingFiles : FileStore :=
  .ofFiles [("/ws/app/tsconfig.json",
      "\x7b\"extends\":\"x/../../ws/lib/../app/tsconfig.json\"\x7d"),
    ("/ws/lib/ws/app/tsconfig.json", "\x7b\x7d")]

/-- The search comes back to the file that it started from, reads it again
under another spelling and ends with a configuration. -/
theorem circle_untold :
    (∃ p, Reached "node_modules" circlingFiles "/ws/app/tsconfig.json"
        ["/ws/app/tsconfig.json"] p ∧ Returns ["/ws/app/tsconfig.json"] p) ∧
      (ofFile "node_modules" "/ws/app/tsconfig.json" circlingFiles).1
        = .ok ⟨"/ws/app/tsconfig.json", none, .empty, "/ws/app"⟩ := by
  let start := "/ws/app/tsconfig.json"
  let entry := "x/../../ws/lib/../app/tsconfig.json"
  let again := "/node_modules/x/../../ws/lib/../app/tsconfig.json"
  let last := "/node_modules/x/../../ws/lib/node_modules/x/../../ws/lib/../app/tsconfig.json"
  let text := "\x7b\"extends\":\"x/../../ws/lib/../app/tsconfig.json\"\x7d"
  have hfile : ConfigFile.ofText? text = some ⟨some (.one entry), none, none⟩ := by decide +kernel
  have hlast : ConfigFile.ofText? "\x7b\x7d" = some ⟨none, none, none⟩ := by decide +kernel
  have hread : circlingFiles.content? start = some text := by decide +kernel
  have hload := load_of_content hread hfile
  have hfound : parentFile? circlingFiles "node_modules" (directoryOf start) entry
      = some again := by decide +kernel
  have hread' : circlingFiles.content? again = some text := by decide +kernel
  have hload' := load_of_content hread' hfile
  have hfound' : parentFile? circlingFiles "node_modules" (directoryOf again) entry
      = some last := by decide +kernel
  have hread'' : circlingFiles.content? last = some "\x7b\x7d" := by decide +kernel
  have hload'' := load_of_content hread'' hlast
  have hends : Ends "node_modules" circlingFiles [] start (.ok ⟨none, none⟩) :=
    ends_of_entry rfl hload rfl hfound <|
      ends_of_entry (by decide +kernel) hload' rfl hfound' <|
        ends_of_no_entry (by decide +kernel) hload'' rfl
  refine ⟨⟨again, ?_, start, List.mem_singleton_self _, by decide +kernel⟩, ?_⟩
  · exact .entry .start rfl hload (List.nil_append [entry]).symm .done hfound
  · have hclean : FilePath.clean start = start := by decide +kernel
    have hbase : ((FilePath.parent? start).map FilePath.clean).getD "" = "/ws/app" := by
      decide +kernel
    have hunknown := hends.inForce_eq
    rw [← hclean] at hunknown
    rw [ofFile_of_unknown hunknown, hclean, hbase]

end ImportResolution.CompilerConfig
