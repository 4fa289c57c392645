/-
What a store holds after files were added to it and read from it in any order:
the files that were added, each with what it was given last; the directories
around them and no others; and one reading for each that was made
(`after_faithful`).

Adding a file enters its directories from the inside outwards, and stops at the
first that is known. That nothing is left out by it rests on one property of what
is known: with a directory, all that lie around it are known. It need not be
carried along, since it follows from what is known being exactly what lies around
the files (`Reflects.directories`).
-/
import ImportResolution.Proofs.FilePath.Detours
import Mathlib.Algebra.BigOperators.Group.List.Lemmas
import Mathlib.Algebra.Ring.Nat
import Mathlib.Data.List.Dedup
import Mathlib.Data.List.Induction
import Mathlib.Logic.Relation

namespace ImportResolution

-- ====================================================== around a path

namespace FilePath

variable {p d e : String}

/-- A path lies in a directory: the directory is its parent, the parent of its
parent, or further out. -/
def LiesIn : String → String → Prop :=
  Relation.TransGen fun p d => parent? p = some d

theorem LiesIn.length_lt (h : LiesIn p d) : d.toList.length < p.toList.length := by
  induction h with
  | single h => exact length_parent_lt h
  | tail _ h ih => exact Nat.lt_trans (length_parent_lt h) ih

theorem liesIn_of_mem_ancestors_parent (h : parent? p = some d) (he : e ∈ ancestors d) :
    LiesIn p e := by
  induction d using ancestors.induct generalizing p with
  | case1 d parent hparent ih =>
      rw [ancestors_of_parent? hparent] at he
      rcases List.mem_cons.mp he with rfl | he
      · exact .single h
      · exact .head h (ih hparent he)
  | case2 d hnone =>
      rw [ancestors_of_parent?_eq_none hnone] at he
      rw [List.mem_singleton.mp he]
      exact .single h

/-- The walk up from a path passes what the path lies in. -/
theorem mem_tail_ancestors_iff : e ∈ (ancestors p).tail ↔ LiesIn p e := by
  constructor
  · intro he
    cases hparent : parent? p with
    | some d =>
        rw [ancestors_of_parent? hparent] at he
        exact liesIn_of_mem_ancestors_parent hparent he
    | none =>
        rw [ancestors_of_parent?_eq_none hparent] at he
        exact absurd he List.not_mem_nil
  · intro h
    induction h using Relation.TransGen.head_induction_on with
    | single h =>
        rw [ancestors_of_parent? h]
        exact mem_ancestors_self _
    | head h _ ih =>
        rw [ancestors_of_parent? h]
        exact List.mem_of_mem_tail ih

/-- Each path that a walk passes lies in those that it passes later. -/
theorem pairwise_ancestors (p : String) : (ancestors p).Pairwise LiesIn := by
  induction p using ancestors.induct with
  | case1 p parent hparent ih =>
      rw [ancestors_of_parent? hparent]
      exact List.pairwise_cons.mpr ⟨fun e => liesIn_of_mem_ancestors_parent hparent, ih⟩
  | case2 p hnone =>
      rw [ancestors_of_parent?_eq_none hnone]
      exact List.pairwise_singleton _ _

end FilePath

open FilePath (clean clean_clean LiesIn)

namespace FileStore

-- ============================================================ entering

/-- Directories that are entered from the inside outwards are all known in the end,
if with each that was known before the later ones were known too. -/
theorem mem_enter {known outwards : List String} {d : String} (hdistinct : outwards.Nodup)
    (hknown : outwards.Pairwise fun d e => d ∈ known → e ∈ known) :
    d ∈ enter known outwards ↔ d ∈ known ∨ d ∈ outwards := by
  induction outwards generalizing known with
  | nil => exact (or_iff_left List.not_mem_nil).symm
  | cons dir rest ih =>
      obtain ⟨hdir, hrest⟩ := List.pairwise_cons.mp hknown
      obtain ⟨hnew, hdistinct⟩ := List.nodup_cons.mp hdistinct
      unfold enter
      split
      · next hmem =>
        refine ⟨Or.inl, ?_⟩
        rintro (h | h)
        · exact h
        · rcases List.mem_cons.mp h with rfl | h
          · exact hmem
          · exact hdir d h hmem
      · next hmem =>
        have hknown' : rest.Pairwise fun d e => d ∈ dir :: known → e ∈ dir :: known := by
          refine hrest.imp_of_mem fun hd _ himp hd' => List.mem_cons_of_mem _ (himp ?_)
          -- no later directory is the one that was just entered
          refine (List.mem_cons.mp hd').resolve_left fun heq => hnew ?_
          rw [← heq]
          exact hd
        rw [ih hdistinct hknown', List.mem_cons, List.mem_cons, or_assoc, or_left_comm]

-- ========================================================== operations

/-- What is done to a store. -/
inductive Operation where
  /-- A file is added, or given another content. -/
  | add (path content : String)
  /-- A file is read, whether or not it is there. -/
  | read (path : String)
deriving DecidableEq, Repr

namespace Operation

/-- The store once the operation is done. -/
def result (s : FileStore) : Operation → FileStore
  | .add path content => s.add path content
  | .read path => (s.read path).2

/-- The content that the operation gives to a path, under whatever spelling. -/
def gives? (path : String) : Operation → Option String
  | .add other content => if clean other = clean path then some content else none
  | .read _ => none

/-- The cleaned path that the operation reads. -/
def reads? : Operation → Option String
  | .add _ _ => none
  | .read path => some (clean path)

end Operation

/-- The store after some operations, first to last. -/
def after (operations : List Operation) : FileStore :=
  operations.foldl Operation.result empty

/-- The contents that a path was given, first to last. -/
def contentsGiven (operations : List Operation) (path : String) : List String :=
  operations.filterMap (·.gives? path)

/-- The cleaned paths that were read, one for each reading. -/
def pathsRead (operations : List Operation) : List String :=
  operations.filterMap (·.reads?)

/-- A store holds what some operations have left. -/
structure Reflects (operations : List Operation) (s : FileStore) : Prop where
  content : ∀ path, s.content? path = (contentsGiven operations path).getLast?
  directories : ∀ d, d ∈ s.directories
    ↔ ∃ path content, .add path content ∈ operations ∧ LiesIn (clean path) d
  readings : ∀ path, s.readingsOf path = (pathsRead operations).count (clean path)
  total : s.totalReadings = (pathsRead operations).length

theorem reflects_empty : Reflects [] empty where
  content := fun _ => rfl
  directories := fun _ => ⟨fun h => absurd h List.not_mem_nil,
    fun ⟨_, _, h, _⟩ => absurd h List.not_mem_nil⟩
  readings := fun _ => rfl
  total := rfl

variable {operations : List Operation} {s : FileStore} {path content : String}

theorem content?_add (s : FileStore) (path content other : String) :
    (s.add path content).content? other
      = if clean other = clean path then some content else s.content? other :=
  Table.lookup_put ..

/-- The directories around a file are known once it is added, and no others come to
be known. -/
theorem mem_directories_add {d : String}
    (hclosed : ∀ e f, e ∈ s.directories → LiesIn e f → f ∈ s.directories) :
    d ∈ (s.add path content).directories ↔ d ∈ s.directories ∨ LiesIn (clean path) d := by
  have hwalk : (FilePath.ancestors (clean path)).tail.Pairwise LiesIn :=
    (FilePath.pairwise_ancestors _).sublist (List.tail_sublist _)
  have hdistinct : (FilePath.ancestors (clean path)).tail.Nodup :=
    hwalk.imp fun h heq => by
      have hlt := h.length_lt
      rw [heq] at hlt
      exact Nat.lt_irrefl _ hlt
  rw [← FilePath.mem_tail_ancestors_iff]
  exact mem_enter hdistinct (hwalk.imp fun h he => hclosed _ _ he h)

theorem Reflects.add (h : Reflects operations s) (path content : String) :
    Reflects (operations ++ [.add path content]) (s.add path content) where
  content := by
    intro other
    rw [content?_add, h.content, contentsGiven, contentsGiven, List.filterMap_append]
    by_cases hsame : clean other = clean path
    · simp [Operation.gives?, hsame]
    · simp [Operation.gives?, hsame, Ne.symm hsame]
  directories := by
    intro d
    have hclosed : ∀ e f, e ∈ s.directories → LiesIn e f → f ∈ s.directories := by
      intro e f he hf
      obtain ⟨q, c, hmem, hq⟩ := (h.directories e).mp he
      exact (h.directories f).mpr ⟨q, c, hmem, hq.trans hf⟩
    rw [mem_directories_add hclosed, h.directories]
    constructor
    · rintro (⟨q, c, hmem, hq⟩ | hd)
      · exact ⟨q, c, List.mem_append_left _ hmem, hq⟩
      · exact ⟨path, content, List.mem_append_right _ (List.mem_singleton_self _), hd⟩
    · rintro ⟨q, c, hmem, hq⟩
      rcases List.mem_append.mp hmem with hmem | hmem
      · exact Or.inl ⟨q, c, hmem, hq⟩
      · obtain ⟨rfl, rfl⟩ := Operation.add.inj (List.mem_singleton.mp hmem)
        exact Or.inr hq
  readings := by
    intro other
    rw [pathsRead, List.filterMap_append]
    exact (h.readings other).trans (congrArg _ (List.append_nil _).symm)
  total := by
    rw [pathsRead, List.filterMap_append]
    exact h.total.trans (congrArg _ (List.append_nil _).symm)

theorem readingsOf_countReading (s : FileStore) (path other : String) :
    (s.countReading path).readingsOf other
      = s.readingsOf other + if clean other = clean path then 1 else 0 := by
  unfold countReading readingsOf
  rw [Table.lookup_put]
  by_cases hsame : clean other = clean path
  · rw [if_pos hsame, if_pos hsame, hsame, Option.getD_some]
  · rw [if_neg hsame, if_neg hsame, Nat.add_zero]

theorem Reflects.read (h : Reflects operations s) (path : String) :
    Reflects (operations ++ [.read path]) (s.read path).2 where
  content := by
    intro other
    rw [contentsGiven, List.filterMap_append]
    exact (h.content other).trans (congrArg _ (List.append_nil _).symm)
  directories := by
    intro d
    refine (h.directories d).trans ?_
    simp
  readings := by
    intro other
    have hpaths : pathsRead (operations ++ [.read path]) = pathsRead operations ++ [clean path] :=
      List.filterMap_append
    show (s.countReading path).readingsOf other = _
    rw [readingsOf_countReading, h.readings, hpaths, List.count_append, List.count_singleton]
    by_cases hsame : clean other = clean path
    · rw [if_pos hsame, if_pos (beq_iff_eq.mpr hsame.symm)]
    · rw [if_neg hsame, if_neg fun h => hsame (beq_iff_eq.mp h).symm]
  total := by
    have hpaths : pathsRead (operations ++ [.read path]) = pathsRead operations ++ [clean path] :=
      List.filterMap_append
    rw [hpaths, List.length_append, ← h.total]
    rfl

/-- The store holds what the operations have left. -/
theorem reflects_after (operations : List Operation) : Reflects operations (after operations) := by
  induction operations using List.reverseRecOn with
  | nil => exact reflects_empty
  | append_singleton operations last ih =>
      rw [after, List.foldl_concat]
      cases last with
      | add path content => exact ih.add path content
      | read path => exact ih.read path

theorem clean_of_mem_pathsRead (h : path ∈ pathsRead operations) : clean path = path := by
  obtain ⟨operation, -, hreads⟩ := List.mem_filterMap.mp h
  cases operation with
  | add other content => cases hreads
  | read other =>
      rw [← Option.some.inj hreads]
      exact clean_clean other

theorem isSome_getLast?_contentsGiven :
    (contentsGiven operations path).getLast?.isSome = true
      ↔ ∃ other content, .add other content ∈ operations ∧ clean other = clean path := by
  rw [List.getLast?_isSome, ne_eq, contentsGiven, List.filterMap_eq_nil_iff]
  constructor
  · intro hsome
    by_contra hnone
    refine hsome fun operation hmem => ?_
    cases operation with
    | add other content => exact if_neg fun hsame => hnone ⟨other, content, hmem, hsame⟩
    | read other => rfl
  · rintro ⟨other, content, hmem, hsame⟩ hnone
    have hgives := hnone _ hmem
    rw [Operation.gives?, if_pos hsame] at hgives
    cases hgives

/-- After any operations on a store without files, a path is a file exactly if a file
was added under some spelling of it, and it is read as what it was given last; where
nothing was added the fault says that nothing is there. A path is a directory exactly
if some file that was added lies in it. Every reading is counted for its path, found
or not, and the readings of all paths together are all that were made. -/
theorem after_faithful (operations : List Operation) (path : String) :
    let s := after operations
    (s.isFile path = true ↔ ∃ other content, .add other content ∈ operations ∧
      clean other = clean path) ∧
    (s.read path).1 = ((contentsGiven operations path).getLast?.elim
      (.error (missing (clean path))) .ok) ∧
    (missing (clean path)).isNotFound = true ∧
    (s.isDirectory path = true ↔ ∃ other content, .add other content ∈ operations ∧
      LiesIn (clean other) (clean path)) ∧
    s.readingsOf path = (pathsRead operations).count (clean path) ∧
    s.totalReadings = ((pathsRead operations).dedup.map s.readingsOf).sum := by
  intro s
  have h := reflects_after operations
  refine ⟨?_, ?_, rfl, ?_, h.readings path, ?_⟩
  · rw [isFile, h.content]
    exact isSome_getLast?_contentsGiven
  · rw [FileStore.read, h.content]
    cases (contentsGiven operations path).getLast? <;> rfl
  · rw [isDirectory, List.contains_iff_mem, h.directories]
  · have hcounts : (pathsRead operations).dedup.map s.readingsOf
        = (pathsRead operations).dedup.map fun q => (pathsRead operations).count q := by
      refine List.map_congr_left fun q hq => ?_
      rw [h.readings, clean_of_mem_pathsRead (List.mem_dedup.mp hq)]
    rw [h.total, hcounts, List.sum_map_count_dedup_eq_length]

end FileStore

end ImportResolution
