/-
What the search through extended configurations keeps of its way, and the circles that it
tells. On its way it keeps which files it has entered and not left, and the same files in
order; the first decide whether a file is met again, the second is what is told. Both
are changed for every file and for every file changed back, so what carries all of this
is that a search that comes to options leaves its trail as it was (`Trail.Left`): then
the files of an entry that was followed are gone from the trail when the next entry is
followed, and the trail at each call is the way to it and nothing else (`Called.way`).

So a circle that is told is one (`told_circles_are_real`): each of its files extends
the next, the last one is among those before it and no other is met twice, where files
are the same whose paths have the same components. A file that is inherited along
several branches is not on the trail when it is met again.
-/
import ImportResolution.Proofs.CompilerConfig.Circles
import Mathlib.Data.List.Chain
import Mathlib.Logic.Relation

namespace ImportResolution.CompilerConfig

open FileStore (SameFiles)
open Relation (TransGen)

variable {installed start path : String} {chain : List String} {s s' : FileStore}
  {answer : Except Fault Options}

-- ================================================================= ways

/-- One configuration extends another: an entry of the one means the other. -/
def Extending (installed : String) (s : FileStore) (path parent : String) : Prop :=
  ∃ file entry, (ConfigFile.load s path).1 = .ok file ∧ entry ∈ file.entries ∧
    parentFile? s installed (directoryOf path) entry = some parent

/-- A chain leads from the start to a path, over configurations that extend one another
and are all different. -/
structure Way (installed : String) (s : FileStore) (start : String) (chain : List String)
    (path : String) : Prop where
  head : (chain ++ [path]).head? = some start
  walk : (chain ++ [path]).IsChain (Extending installed s)
  distinct : chain.Pairwise fun p q => FilePath.same p q = false

theorem way_start (installed : String) (s : FileStore) (start : String) :
    Way installed s start [] start :=
  ⟨rfl, List.isChain_singleton _, List.Pairwise.nil⟩

theorem Way.step {parent : String} (h : Way installed s start chain path)
    (new : chain.any (FilePath.same path) = false) (hext : Extending installed s path parent) :
    Way installed s start (chain ++ [path]) parent where
  head := by rw [List.head?_append, h.head, Option.some_or]
  walk := by
    refine List.isChain_append.mpr ⟨h.walk, List.isChain_singleton _, fun p hp q hq => ?_⟩
    rw [List.getLast?_concat] at hp
    cases hp
    cases hq
    exact hext
  distinct := by
    refine List.pairwise_append.mpr ⟨h.distinct, List.pairwise_singleton .., fun p hp q hq => ?_⟩
    rw [List.mem_singleton.mp hq]
    rw [List.any_eq_false] at new
    rw [FilePath.same, Bool.beq_comm]
    exact Bool.not_eq_true _ ▸ new p hp

/-- What a file extends is a matter of the files, at whichever time they are looked at. -/
theorem extending_of_sameFiles {s₁ s₂ : FileStore} {file : ConfigFile} {entry parent : String}
    (h₁ : SameFiles s₁ s) (hload : (ConfigFile.load s₁ path).1 = .ok file)
    (hentry : entry ∈ file.entries) (h₂ : SameFiles s₂ s)
    (hfound : parentFile? s₂ installed (directoryOf path) entry = some parent) :
    Extending installed s path parent := by
  refine ⟨file, entry, (h₁.load_eq _ _ path).symm.trans hload, hentry, ?_⟩
  rw [← parentFile?_eq h₂]
  exact hfound

-- ============================================================= the calls

/-- A search from a start comes to a path, with a trail and a store: it begins at the
start, and it gets from a file to what an entry of it means when the entries before it
have led to options. -/
inductive Called (installed start : String) (s : FileStore) :
    String → Trail → FileStore → Prop where
  | start : Called installed start s start ⟨[], []⟩ s
  | entry {path t s₁ s₂ s₃ file before entry after earlier t' parent}
      (called : Called installed start s path t s₁)
      (new : t.hasVisited path = false)
      (load : ConfigFile.load s₁ path = (.ok file, s₂))
      (entries : file.entries = before ++ entry :: after)
      (inherits : Trail.inheritedBy installed path before .unknown (t.enter path) s₂
        = some (.ok earlier, t', s₃))
      (found : parentFile? s₃ installed (directoryOf path) entry = some parent) :
      Called installed start s parent t' s₃

/-- At each call the trail is the way to it, and the files are as they were. -/
theorem Called.way {t : Trail} (h : Called installed start s path t s') :
    t.Agrees ∧ Way installed s start t.chain path ∧ SameFiles s' s := by
  induction h with
  | start => exact ⟨Trail.agrees_of_chain [], way_start installed s start, SameFiles.refl s⟩
  | @entry path t s₁ s₂ s₃ file before entry after earlier t' parent called new load entries
      inherits found ih =>
      obtain ⟨hagrees, hway, hsame⟩ := ih
      obtain ⟨hinherits, hleft⟩ := (Trail.derives installed).2 path _ _ _ _ _ inherits t.chain rfl
        (hagrees.enter path)
      obtain rfl := hleft.restored _ rfl
      have hsame₃ : SameFiles s₃ s :=
        hinherits.sameFiles.trans ((SameFiles.of_load _ _ load).trans hsame)
      have hext : Extending installed s path parent :=
        extending_of_sameFiles hsame (congrArg Prod.fst load) (by simp [entries]) hsame₃ found
      exact ⟨hagrees.enter path, hway.step ((hagrees path).symm.trans new) hext, hsame₃⟩

-- =========================================================== the circles

/-- What is told as a circle: a walk from the start over configurations that extend one
another, the last one the same as one before it and no other met twice. The circle goes
from that one back to it. -/
structure Circle (installed : String) (s : FileStore) (start : String) (circle : List String) :
    Prop where
  head : circle.head? = some start
  walk : circle.IsChain (Extending installed s)
  closed : ∃ before last, circle = before ++ [last] ∧
    (before.Pairwise fun p q => FilePath.same p q = false) ∧
    ∃ q ∈ before, FilePath.same q last = true ∧ TransGen (Extending installed s) q last

theorem Way.circle (h : Way installed s start chain path)
    (again : chain.any (FilePath.same path) = true) :
    Circle installed s start (chain ++ [path]) := by
  obtain ⟨q, hq, hsame⟩ := List.any_eq_true.mp again
  refine ⟨h.head, h.walk, chain, path, rfl, h.distinct, q, hq, ?_, ?_⟩
  · rw [FilePath.same, Bool.beq_comm]
    exact hsame
  · have hclosure : (chain ++ [path]).IsChain (TransGen (Extending installed s)) :=
      h.walk.imp fun _ _ => TransGen.single
    have hpairs := List.isChain_iff_pairwise.mp hclosure
    exact (List.pairwise_append.mp hpairs).2.2 q hq path (List.mem_singleton_self path)

/-- A fault that names a circle names one. -/
theorem Follows.circle_told {s₁ s₂ : FileStore} (h : Follows installed chain path s₁ answer s₂)
    {circle : List String} (hanswer : answer = .error (.circularExtends circle)) :
    SameFiles s₁ s → Way installed s start chain path → Circle installed s start circle := by
  induction h using Follows.rec
    (motive_2 := fun chain path entries _ s₁ answer _ _ =>
      answer = .error (.circularExtends circle) → SameFiles s₁ s →
      (∀ entry ∈ entries, ∀ parent, parentFile? s installed (directoryOf path) entry = some parent →
        Way installed s start (chain ++ [path]) parent) → Circle installed s start circle) with
  | circle again =>
      intro _ hway
      cases hanswer
      exact hway.circle again
  | unreadable new load =>
      cases hanswer
      exact absurd load load_ne_circular
  | @file chain path s₁ s₂ s₃ file inherited new load inherits ih =>
      intro hsame hway
      cases inherited with
      | ok options => cases hanswer
      | error fault =>
          refine ih hanswer ((SameFiles.of_load _ _ load).trans hsame) fun entry hentry parent hp => ?_
          exact hway.step new (extending_of_sameFiles hsame (congrArg Prod.fst load) hentry
            (SameFiles.refl s) hp)
  | done =>
      rename_i hanswer _ _
      cases hanswer
  | missing found =>
      rename_i hanswer _ _
      cases hanswer
  | failed found follows ih =>
      rename_i hanswer hsame hways
      rw [parentFile?_eq hsame] at found
      exact ih hanswer hsame (hways _ List.mem_cons_self _ found)
  | next found follows inherits ih ih' =>
      rename_i hanswer hsame hways
      exact ih' hanswer (follows.transfer.1.trans hsame) fun entry hentry =>
        hways entry (List.mem_cons_of_mem _ hentry)

theorem circle_of_ofFile {circle : List String}
    (h : (ofFile installed path s).1 = .error (.circularExtends circle)) :
    Circle installed s (FilePath.clean path) circle := by
  have hfault := ofFile_eq_error_iff.mp h
  unfold inForce at hfault
  cases hsearch : optionsOf installed [] (FilePath.clean path) s with
  | none =>
      rw [hsearch] at hfault
      cases hfault
  | some found =>
      rw [hsearch] at hfault
      exact (follows_of_optionsOf hsearch).circle_told hfault (SameFiles.refl s)
        (way_start installed s _)

/-- Whenever the search is called for a file, and when it has entered it, the visited
files are those on the chain, which leads from the start to this file over different
files; so they are when it returns, and if it has come to options its trail is restored. A
fault that names a circle names one; and where no file leads back to itself there is no
such fault, however many ways lead to a file. -/
theorem told_circles_are_real (installed path : String) (s : FileStore) :
    (∀ p t s', Called installed (FilePath.clean path) s p t s' →
      (∀ q, t.hasVisited q = t.chain.any (FilePath.same q)) ∧
      (∀ q, (t.enter p).hasVisited q = (t.enter p).chain.any (FilePath.same q)) ∧
      Way installed s (FilePath.clean path) t.chain p ∧
      ∀ answer t' s'', Trail.optionsOf installed p t s' = some (answer, t', s'') →
        (∀ q, t'.hasVisited q = t'.chain.any (FilePath.same q)) ∧
        ∀ options, answer = .ok options → t' = t) ∧
    (∀ circle, (ofFile installed path s).1 = .error (.circularExtends circle) →
      Circle installed s (FilePath.clean path) circle) ∧
    ((∀ p q, TransGen (Extending installed s) p q → FilePath.same p q = false) →
      ∀ circle, (ofFile installed path s).1 ≠ .error (.circularExtends circle)) := by
  refine ⟨fun p t s' h => ?_, fun circle => circle_of_ofFile, fun hfree circle h => ?_⟩
  · obtain ⟨hagrees, hway, -⟩ := h.way
    refine ⟨hagrees, hagrees.enter p, hway, fun answer t' s'' hsearch => ?_⟩
    obtain ⟨-, hleft⟩ := (Trail.derives installed).1 p t s' _ hsearch hagrees
    exact ⟨hleft.agrees, hleft.restored⟩
  · obtain ⟨before, last, -, -, q, -, hsame, hback⟩ := (circle_of_ofFile h).closed
    rw [hfree q last hback] at hsame
    cases hsame

-- ============================================== a circle and a repetition

/-- Two files that extend each other. -/
def mutualFiles : FileStore :=
  .ofFiles [("/ws/tsconfig.json", "\x7b\"extends\":\"/ws/a.json\"\x7d"),
    ("/ws/a.json", "\x7b\"extends\":\"/ws/tsconfig.json\"\x7d")]

/-- A file that extends another one twice. -/
def repeatingFiles : FileStore :=
  .ofFiles [("/ws/tsconfig.json", "\x7b\"extends\":[\"/ws/a.json\",\"/ws/a.json\"]\x7d"),
    ("/ws/a.json", "\x7b\x7d")]

/-- What extends what among the repeating files. -/
theorem extending_repeatingFiles {p q : String} (h : Extending "node_modules" repeatingFiles p q) :
    FilePath.clean p = "/ws/tsconfig.json" ∧ q = "/ws/a.json" := by
  obtain ⟨file, entry, hload, hentry, hfound⟩ := h
  obtain ⟨text, hcontent, htext⟩ := (FileStore.load_eq_ok_iff _ _).mp hload
  have hfiles : repeatingFiles.files
      = [("/ws/tsconfig.json", "\x7b\"extends\":[\"/ws/a.json\",\"/ws/a.json\"]\x7d"),
        ("/ws/a.json", "\x7b\x7d")] := by decide +kernel
  rw [FileStore.content?, hfiles] at hcontent
  simp only [List.lookup_cons, List.lookup_nil] at hcontent
  split at hcontent
  · next hp =>
    cases hcontent
    have hfile : file = ⟨some (.many ["/ws/a.json", "/ws/a.json"]), none, none⟩ :=
      Option.some.inj (htext.symm.trans (by decide +kernel))
    obtain rfl : entry = "/ws/a.json" := by
      simpa [hfile, ConfigFile.entries, Extends.entries] using hentry
    have habsolute : FilePath.isAbsolute "/ws/a.json" = true := by decide +kernel
    have hspelled : spellings (FilePath.clean "/ws/a.json") = ["/ws/a.json"] := by decide +kernel
    rw [parentFile?, candidates, habsolute, Bool.or_true, if_pos rfl, FilePath.join,
      if_pos habsolute, hspelled] at hfound
    exact ⟨beq_iff_eq.mp hp, List.mem_singleton.mp (List.mem_of_find?_eq_some hfound)⟩
  · split at hcontent
    · cases hcontent
      have hfile : file = ⟨none, none, none⟩ :=
        Option.some.inj (htext.symm.trans (by decide +kernel))
      rw [hfile] at hentry
      cases hentry
    · cases hcontent

/-- The circle of two files is told, and the file that is extended twice is not. -/
theorem told_of_mutual_not_of_repeating :
    (ofFile "node_modules" "/ws/tsconfig.json" mutualFiles).1 = .error (.circularExtends
        ["/ws/tsconfig.json", "/ws/a.json", "/ws/tsconfig.json"]) ∧
      Circle "node_modules" mutualFiles "/ws/tsconfig.json"
        ["/ws/tsconfig.json", "/ws/a.json", "/ws/tsconfig.json"] ∧
      ∀ circle, (ofFile "node_modules" "/ws/tsconfig.json" repeatingFiles).1
        ≠ .error (.circularExtends circle) := by
  have hclean : FilePath.clean "/ws/tsconfig.json" = "/ws/tsconfig.json" := by decide +kernel
  have hfile : ConfigFile.ofText? "\x7b\"extends\":\"/ws/a.json\"\x7d"
      = some ⟨some (.one "/ws/a.json"), none, none⟩ := by decide +kernel
  have hfile' : ConfigFile.ofText? "\x7b\"extends\":\"/ws/tsconfig.json\"\x7d"
      = some ⟨some (.one "/ws/tsconfig.json"), none, none⟩ := by decide +kernel
  have hread : mutualFiles.content? "/ws/tsconfig.json"
      = some "\x7b\"extends\":\"/ws/a.json\"\x7d" := by decide +kernel
  have hread' : mutualFiles.content? "/ws/a.json"
      = some "\x7b\"extends\":\"/ws/tsconfig.json\"\x7d" := by decide +kernel
  have hfound : parentFile? mutualFiles "node_modules" (directoryOf "/ws/tsconfig.json")
      "/ws/a.json" = some "/ws/a.json" := by decide +kernel
  have hfound' : parentFile? mutualFiles "node_modules" (directoryOf "/ws/a.json")
      "/ws/tsconfig.json" = some "/ws/tsconfig.json" := by decide +kernel
  have hreached : Reached "node_modules" mutualFiles "/ws/tsconfig.json"
      ["/ws/tsconfig.json", "/ws/a.json"] "/ws/tsconfig.json" :=
    .entry (.entry .start rfl (load_of_content hread hfile) (List.nil_append _).symm .done hfound)
      (by decide +kernel) (load_of_content hread' hfile') (List.nil_append _).symm .done hfound'
  have hagain : Ends "node_modules" mutualFiles ["/ws/tsconfig.json", "/ws/a.json"]
      "/ws/tsconfig.json" (.error (.circularExtends
        ["/ws/tsconfig.json", "/ws/a.json", "/ws/tsconfig.json"])) :=
    ⟨_, .circle (by decide +kernel)⟩
  have hends := hreached.ends_error hagain
  have htold : (ofFile "node_modules" "/ws/tsconfig.json" mutualFiles).1 = .error (.circularExtends
      ["/ws/tsconfig.json", "/ws/a.json", "/ws/tsconfig.json"]) := by
    rw [ofFile_eq_error_iff, hclean]
    exact hends.inForce_eq
  have hcircle := (told_circles_are_real "node_modules" "/ws/tsconfig.json" mutualFiles).2.1 _ htold
  rw [hclean] at hcircle
  refine ⟨htold, hcircle,
    (told_circles_are_real "node_modules" "/ws/tsconfig.json" repeatingFiles).2.2 fun p q h => ?_⟩
  obtain ⟨_, hfirst, -⟩ := TransGen.head'_iff.mp h
  obtain ⟨_, -, hlast⟩ := TransGen.tail'_iff.mp h
  have hp := (extending_repeatingFiles hfirst).1
  obtain rfl := (extending_repeatingFiles hlast).2
  refine Bool.eq_false_iff.mpr fun hsame => ?_
  have heq : FilePath.clean p = FilePath.clean "/ws/a.json" := by
    rw [FilePath.clean, FilePath.clean, FilePath.settled, FilePath.settled, beq_iff_eq.mp hsame]
  rw [hp] at heq
  exact absurd heq (by decide +kernel)

end ImportResolution.CompilerConfig
