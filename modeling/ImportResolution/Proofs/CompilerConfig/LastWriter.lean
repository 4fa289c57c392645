/-
What a configuration is made of. A search that ends with options has visited
files one after the other: for each file those that its entries mean, in the
order of the entries, and then the file itself (`Lists`). There is one such
listing at most (`Lists.unique`), and in it a file stands as often as it was
reached.

# The last writer

Laying options over options is associative, so the search comes to the options
of the listed files laid one over the other (`Follows.told`), and these are,
option by option, what the last file states that states the option at all
(`stack_eq`). An alias table is taken as a whole, together with the directory
of its file.

# The directory of the start

Where neither a base nor a table is stated, alias targets are seen from the
directory of the start. This is the one directory that is taken of a path as it
was given and cleaned afterwards; of all visited files, the start included, it
is taken of the path that was visited, and the start is visited under its
cleaned path. The two orders lead to different directories exactly if the given
path ends in a `..` that is carried out (`clean_directoryOf_iff`).
-/
import ImportResolution.Proofs.CompilerConfig.Circles
import ImportResolution.Proofs.FilePath.Parents
import Mathlib.Data.List.Induction

namespace ImportResolution.CompilerConfig

open FilePath (EndsBack)
open FileStore (SameFiles)

-- ============================================================== overlays

namespace Options

@[simp] theorem unknown_overlay (o : Options) : unknown.overlay o = o := by
  obtain ⟨baseUrl, aliases⟩ := o
  simp [overlay, unknown]

@[simp] theorem overlay_unknown (o : Options) : o.overlay unknown = o := by
  obtain ⟨baseUrl, aliases⟩ := o
  simp [overlay, unknown]

theorem overlay_assoc (a b c : Options) :
    (a.overlay b).overlay c = a.overlay (b.overlay c) := by
  simp [overlay, Option.or_assoc]

end Options

-- ================================================================ visits

/-- A file that was visited, under the path that led to it. -/
structure Visit where
  path : String
  file : ConfigFile

namespace Visit

/-- The directory that the options of the file are seen from. -/
def directory (v : Visit) : String :=
  directoryOf v.path

/-- The base that the file states, seen from its directory. -/
def baseUrl? (v : Visit) : Option String :=
  v.file.baseUrl.map fun base => FilePath.clean (FilePath.join v.directory base)

/-- The alias table that the file declares, with its directory. -/
def aliases? (v : Visit) : Option (AliasTable × String) :=
  v.file.aliases.map fun table => (table, v.directory)

/-- The options that the file states itself. -/
def stated (v : Visit) : Options :=
  ⟨v.baseUrl?, v.aliases?⟩

end Visit

/-- What the last of some files states that states anything. -/
def lastOf {α : Type} (option : Visit → Option α) (seq : List Visit) : Option α :=
  seq.reverse.findSome? option

theorem lastOf_concat {α : Type} (option : Visit → Option α) (seq : List Visit) (v : Visit) :
    lastOf option (seq ++ [v]) = (option v).or (lastOf option seq) := by
  unfold lastOf
  rw [List.reverse_append, List.reverse_singleton, List.singleton_append, List.findSome?_cons]
  cases option v <;> rfl

/-- The options of some files, each laid over those before it. -/
def stack (seq : List Visit) : Options :=
  seq.foldl (fun earlier v => earlier.overlay v.stated) .unknown

theorem stack_concat (seq : List Visit) (v : Visit) :
    stack (seq ++ [v]) = (stack seq).overlay v.stated := by
  rw [stack, List.foldl_append]
  rfl

theorem stack_append (a b : List Visit) : stack (a ++ b) = (stack a).overlay (stack b) := by
  induction b using List.reverseRecOn with
  | nil => rw [List.append_nil, stack, stack, List.foldl_nil, Options.overlay_unknown]
  | append_singleton b v ih =>
      rw [← List.append_assoc, stack_concat, stack_concat, ih, Options.overlay_assoc]

theorem stack_eq (seq : List Visit) :
    stack seq = ⟨lastOf Visit.baseUrl? seq, lastOf Visit.aliases? seq⟩ := by
  induction seq using List.reverseRecOn with
  | nil => rfl
  | append_singleton seq v ih =>
      rw [stack_concat, ih, lastOf_concat, lastOf_concat]
      rfl

-- ============================================================== listings

mutual

/-- The files that are visited for a path: those that the entries of its file
mean, and then the file. -/
inductive Lists (installed : String) (s : FileStore) : String → List Visit → Prop where
  | file {path file seq} (load : (ConfigFile.load s path).1 = .ok file)
      (parents : ListsAll installed s path file.entries seq) :
      Lists installed s path (seq ++ [⟨path, file⟩])

/-- The files that are visited for some entries of the file at a path, in the
order of the entries. -/
inductive ListsAll (installed : String) (s : FileStore) :
    String → List String → List Visit → Prop where
  | done {path} : ListsAll installed s path [] []
  | next {path entry rest parent first others}
      (found : parentFile? s installed (directoryOf path) entry = some parent)
      (visits : Lists installed s parent first)
      (later : ListsAll installed s path rest others) :
      ListsAll installed s path (entry :: rest) (first ++ others)

end

variable {installed path : String} {chain : List String} {s s' : FileStore}
  {answer : Except Fault Options} {options : Options}

/-- A path has one listing at most. -/
theorem Lists.unique {seq seq' : List Visit} (h : Lists installed s path seq)
    (h' : Lists installed s path seq') : seq' = seq := by
  refine Lists.rec
    (motive_1 := fun path seq _ => ∀ seq', Lists installed s path seq' → seq' = seq)
    (motive_2 := fun path entries seq _ =>
      ∀ seq', ListsAll installed s path entries seq' → seq' = seq)
    ?file ?done ?next h seq' h'
  case file =>
    intro path file seq load _ ih seq' h'
    cases h' with
    | file load' parents' =>
        obtain rfl := Except.ok.inj (load.symm.trans load')
        rw [ih _ parents']
  case done =>
    intro path seq' h'
    cases h' with
    | done => rfl
  case next =>
    intro path entry rest parent first others found _ _ ih ih' seq' h'
    cases h' with
    | next found' visits' later' =>
        obtain rfl := Option.some.inj (found.symm.trans found')
        rw [ih _ visits', ih' _ later']

/-- The options of an answer are those of the files listed in some way, laid one
over the other. -/
def Told (answer : Except Fault Options) (lists : List Visit → Prop) (earlier : Options) : Prop :=
  ∀ options, answer = .ok options → ∃ seq, lists seq ∧ earlier.overlay (stack seq) = options

theorem told_error {fault : Fault} {lists : List Visit → Prop} {earlier : Options} :
    Told (.error fault) lists earlier :=
  fun _ hok => nomatch hok

/-- A search that ends with options has visited the files of a listing, and the
options are theirs. -/
theorem Follows.told (h : Follows installed chain path s answer s') {t : FileStore}
    (ht : SameFiles s t) : Told answer (Lists installed t path) .unknown := by
  refine Follows.rec
    (motive_1 := fun _ path s answer _ _ =>
      SameFiles s t → Told answer (Lists installed t path) .unknown)
    (motive_2 := fun _ path entries earlier s answer _ _ =>
      SameFiles s t → Told answer (ListsAll installed t path entries) earlier)
    ?circle ?unreadable ?file ?done ?missing ?failed ?next h ht
  case circle => exact fun _ _ => told_error
  case unreadable => exact fun _ _ _ => told_error
  case file =>
    intro chain path s s₁ s₂ file inherited _ load _ ih ht options hok
    cases inherited with
    | error fault => cases hok
    | ok earlier =>
        obtain rfl := Except.ok.inj hok
        obtain ⟨seq, hseq, rfl⟩ := ih ((SameFiles.of_load _ _ load).trans ht) earlier rfl
        have hload : (ConfigFile.load t path).1 = .ok file := by
          have hsame := ht.load_eq ConfigFile.ofText? ConfigFile.malformed path
          exact hsame.symm.trans (congrArg Prod.fst load)
        -- the file itself comes last, on top of all that it inherits
        refine ⟨seq ++ [⟨path, file⟩], .file hload hseq, ?_⟩
        rw [stack_concat, ← Options.overlay_assoc]
        rfl
  case done =>
    intro chain path earlier s _ options hok
    obtain rfl := Except.ok.inj hok
    exact ⟨[], .done, Options.overlay_unknown _⟩
  case missing => exact fun _ _ => told_error
  case failed => exact fun _ _ _ _ => told_error
  case next =>
    intro chain path entry rest earlier s s₁ s₂ parent first answer found follows _ ih ih' ht
      options hok
    obtain ⟨seq, hseq, rfl⟩ := ih ht first rfl
    obtain ⟨others, hothers, hstack⟩ := ih' (follows.transfer.1.trans ht) options hok
    rw [parentFile?_eq ht] at found
    refine ⟨seq ++ others, .next found hseq hothers, ?_⟩
    rw [Options.unknown_overlay, Options.overlay_assoc, ← stack_append] at hstack
    exact hstack

theorem lists_of_inForce (h : (inForce installed path s).1 = .ok options) :
    ∃ seq, Lists installed s path seq ∧ stack seq = options := by
  unfold inForce at h
  cases hfound : optionsOf installed [] path s with
  | none =>
      rw [hfound] at h
      cases h
  | some found =>
      rw [hfound] at h
      obtain ⟨seq, hseq, hstack⟩ :=
        (follows_of_optionsOf hfound).told (SameFiles.refl s) options h
      rw [Options.unknown_overlay] at hstack
      exact ⟨seq, hseq, hstack⟩

-- ============================================================ the result

theorem clean_directoryOf_iff (path : String) :
    FilePath.clean (directoryOf path) = directoryOf (FilePath.clean path) ↔ ¬ EndsBack path :=
  FilePath.clean_parent_iff path

/-- Where alias targets are seen from: the base if one is stated, else the
directory of the table that counts, else a directory to start from. -/
def aliasBaseOf (seq : List Visit) (start : String) : String :=
  ((lastOf Visit.baseUrl? seq).or ((lastOf Visit.aliases? seq).map Prod.snd)).getD start

theorem aliasBaseOf_eq_iff {seq : List Visit} {start start' : String} :
    aliasBaseOf seq start = aliasBaseOf seq start'
      ↔ (lastOf Visit.baseUrl? seq).isSome ∨ (lastOf Visit.aliases? seq).isSome ∨
        start = start' := by
  unfold aliasBaseOf
  cases lastOf Visit.baseUrl? seq with
  | some base => simp
  | none =>
      cases lastOf Visit.aliases? seq with
      | some declared => simp
      | none => simp

/-- A configuration is written by the last of the visited files, option by
option. Its base is that of the last file with a base, cleaned and seen from the
directory of the file; its aliases are the table of the last file with a table,
as it stands there; and alias targets are seen from the base, else from the
directory of that file, else from the cleaned directory of the start as given.
The last of these is the directory of the start as visited exactly if something
is stated or the start does not end in a `..` that is carried out. -/
theorem ofFile_last_writer {config : CompilerConfig}
    (h : (ofFile installed path s).1 = .ok config) :
    ∃ seq, (∀ seq', Lists installed s (FilePath.clean path) seq' ↔ seq' = seq) ∧
      config.path = FilePath.clean path ∧
      config.baseUrl = lastOf Visit.baseUrl? seq ∧
      config.aliases = ((lastOf Visit.aliases? seq).map Prod.fst).getD .empty ∧
      config.aliasBase = aliasBaseOf seq (FilePath.clean (directoryOf path)) ∧
      (config.aliasBase = aliasBaseOf seq (directoryOf (FilePath.clean path))
        ↔ (lastOf Visit.baseUrl? seq).isSome ∨ (lastOf Visit.aliases? seq).isSome ∨
          ¬ EndsBack path) ∧
      ∀ v ∈ seq, (FilePath.clean v.directory = directoryOf (FilePath.clean v.path)
        ↔ ¬ EndsBack v.path) := by
  rw [ofFile_fst] at h
  cases hoptions : (inForce installed (FilePath.clean path) s).1 with
  | error fault =>
      rw [hoptions] at h
      cases h
  | ok options =>
      rw [hoptions] at h
      obtain rfl := Except.ok.inj h
      obtain ⟨seq, hseq, rfl⟩ := lists_of_inForce hoptions
      have hbase : ((FilePath.parent? path).map FilePath.clean).getD ""
          = FilePath.clean (directoryOf path) := by
        unfold directoryOf
        cases FilePath.parent? path <;> rfl
      have hunique (seq' : List Visit) :
          Lists installed s (FilePath.clean path) seq' ↔ seq' = seq := by
        refine ⟨hseq.unique, ?_⟩
        rintro rfl
        exact hseq
      refine ⟨seq, hunique, rfl, ?_⟩
      simp only [stack_eq, hbase]
      refine ⟨trivial, trivial, rfl, ?_, fun v _ => clean_directoryOf_iff v.path⟩
      rw [← clean_directoryOf_iff]
      exact aliasBaseOf_eq_iff

/-- A file and the one that it extends: both declare aliases, and the other has a
base. -/
def extendingFiles : FileStore :=
  .ofFiles [
    ("/ws/tsconfig.json", "\x7bextends:'./lib/base.json',compilerOptions:\x7bpaths:\x7b\x7d\x7d\x7d"),
    ("/ws/lib/base.json", "\x7bcompilerOptions:\x7bbaseUrl:'.',paths:\x7ba:['b']\x7d\x7d\x7d")]

/-- The base is inherited and the aliases are not: the table of the file itself is
empty, and an empty table counts. -/
theorem ofFile_last_writer_extending :
    let config : CompilerConfig := ⟨"/ws/tsconfig.json", some "/ws/lib", .empty, "/ws/lib"⟩
    (ofFile "node_modules" "/ws/tsconfig.json" extendingFiles).1 = .ok config ∧
      ∃ seq, (∀ seq', Lists "node_modules" extendingFiles "/ws/tsconfig.json" seq' ↔ seq' = seq) ∧
        config.baseUrl = lastOf Visit.baseUrl? seq ∧
        config.aliases = ((lastOf Visit.aliases? seq).map Prod.fst).getD .empty := by
  intro config
  let start := "/ws/tsconfig.json"
  let base := "/ws/lib/base.json"
  let text := "\x7bextends:'./lib/base.json',compilerOptions:\x7bpaths:\x7b\x7d\x7d\x7d"
  let text' := "\x7bcompilerOptions:\x7bbaseUrl:'.',paths:\x7ba:['b']\x7d\x7d\x7d"
  have hfile : ConfigFile.ofText? text = some ⟨some (.one "./lib/base.json"), none, some .empty⟩ := by
    decide +kernel
  have hfile' : ConfigFile.ofText? text' = some ⟨none, some ".", some ⟨[("a", ["b"])]⟩⟩ := by
    decide +kernel
  have hread : extendingFiles.content? start = some text := by decide +kernel
  have hread' : extendingFiles.content? base = some text' := by decide +kernel
  have hfound : parentFile? extendingFiles "node_modules" (directoryOf start) "./lib/base.json"
      = some base := by decide +kernel
  have hends' : Ends "node_modules" extendingFiles [start] base (.ok _) :=
    ends_of_no_entry (by decide +kernel) (load_of_content hread' hfile') rfl
  have hends : Ends "node_modules" extendingFiles [] start (.ok _) :=
    ends_of_entry rfl (load_of_content hread hfile) rfl hfound hends'
  have hclean : FilePath.clean start = start := by decide +kernel
  have hok : (ofFile "node_modules" start extendingFiles).1 = .ok config := by
    rw [ofFile_fst, hclean, hends.inForce_eq]
    decide +kernel
  obtain ⟨seq, hlists, -, hbaseUrl, haliases, -⟩ := ofFile_last_writer hok
  rw [hclean] at hlists
  exact ⟨hok, seq, hlists, hbaseUrl, haliases⟩

/-- The start is given by a path that goes on behind the file and comes back. The
file is found, but its alias targets are seen from the path that was given, and
not from the directory of the file. -/
theorem start_directory_as_given :
    let s := FileStore.ofFiles [("/ws/tsconfig.json", "\x7b\x7d")]
    let given := "/ws/tsconfig.json/x/.."
    (ofFile "node_modules" given s).1
        = .ok ⟨"/ws/tsconfig.json", none, .empty, "/ws/tsconfig.json/x"⟩ ∧
      ¬ ∀ config, (ofFile "node_modules" given s).1 = .ok config →
        ∃ seq, Lists "node_modules" s (FilePath.clean given) seq ∧
          config.aliasBase = aliasBaseOf seq (directoryOf (FilePath.clean given)) := by
  intro s given
  have hfile : ConfigFile.ofText? "\x7b\x7d" = some ⟨none, none, none⟩ := by decide +kernel
  have hclean : FilePath.clean given = "/ws/tsconfig.json" := by decide +kernel
  have hread : s.content? "/ws/tsconfig.json" = some "\x7b\x7d" := by decide +kernel
  have hload := load_of_content hread hfile
  have hends : Ends "node_modules" s [] "/ws/tsconfig.json" (.ok .unknown) :=
    ends_of_no_entry rfl hload rfl
  have hok : (ofFile "node_modules" given s).1
      = .ok ⟨"/ws/tsconfig.json", none, .empty, "/ws/tsconfig.json/x"⟩ := by
    have hunknown := hends.inForce_eq
    rw [← hclean] at hunknown
    have hbase : ((FilePath.parent? given).map FilePath.clean).getD "" = "/ws/tsconfig.json/x" := by
      decide +kernel
    rw [ofFile_of_unknown hunknown, hclean, hbase]
  refine ⟨hok, fun hall => ?_⟩
  obtain ⟨seq, hseq, hbase⟩ := hall _ hok
  rw [hclean] at hseq hbase
  have hlists : Lists "node_modules" s "/ws/tsconfig.json"
      [⟨"/ws/tsconfig.json", ⟨none, none, none⟩⟩] :=
    .file (congrArg Prod.fst hload) .done
  rw [hlists.unique hseq] at hbase
  exact absurd hbase (by decide +kernel)

end ImportResolution.CompilerConfig
