/-
Files in their directories. A store is housed if every directory that a file lies in is
known (`Housed`), as it is after any additions and readings. In a housed store it makes
no difference to a search for files whether it first asks for a directory around them:
where names lead from a directory to a file, the directory is there.
-/
import ImportResolution.Proofs.FilePath.Names
import ImportResolution.Proofs.FileStore

namespace ImportResolution

-- ============================================================== inside

namespace FilePath

variable {p d base rest : String}

/-- Names lead from a directory to what lies in it. -/
theorem liesIn_of_settled_append {names : List Component} (h : settled p = settled d ++ names)
    (hne : names ≠ []) (hnames : ∀ c ∈ names, ∃ text, c = .name text) :
    LiesIn (clean p) (clean d) := by
  induction names using List.reverseRecOn generalizing p with
  | nil => exact absurd rfl hne
  | append_singleton init last ih =>
      obtain ⟨text, rfl⟩ := hnames last (List.mem_append_right _ (List.mem_singleton_self _))
      have hcomponents : components (clean p) = settled d ++ init ++ [.name text] := by
        rw [components_clean, h, List.append_assoc]
      obtain ⟨parent, hparent, heq⟩ :=
        exists_parent?_of_concat hcomponents Component.noConfusion
      have hclean : clean parent = parent := by
        refine clean_of_mem_ancestors (clean_clean p) ?_
        rw [ancestors_of_parent? hparent]
        exact List.mem_cons_of_mem _ (mem_ancestors_self _)
      have hsettled : settled parent = settled d ++ init := by
        have hstraight := straight_clean p
        rw [hcomponents, ← heq] at hstraight
        rw [hstraight.of_append.settled_eq, heq]
      rw [← hclean] at hparent
      by_cases hinit : init = []
      · rw [hinit, List.append_nil] at hsettled
        rw [clean_eq_iff.mpr hsettled] at hparent
        exact .single hparent
      · exact .head hparent
          (ih hsettled hinit fun c hc => hnames c (List.mem_append_left _ hc))

/-- Names lead from the directory to the path, unless it is the directory itself. -/
def Under (d p : String) : Prop :=
  ∃ names, (∀ c ∈ names, ∃ text, c = .name text) ∧ settled p = settled d ++ names

theorem under_self (d : String) : Under d d :=
  ⟨[], nofun, (List.append_nil _).symm⟩

theorem Under.join (h : Under d p) (hrest : Plain rest) : Under d (join p rest) := by
  obtain ⟨names, hnames, hp⟩ := h
  refine ⟨names ++ components rest, List.forall_mem_append.mpr ⟨hnames, hrest⟩, ?_⟩
  rw [settled_join_plain p hrest, hp, List.append_assoc]

/-- What names lead to from under a directory lies in the directory. -/
theorem Under.liesIn_join (h : Under d p) (hrest : OfNames rest) :
    LiesIn (clean (FilePath.join p rest)) (clean d) := by
  obtain ⟨names, hnames, hp⟩ := h
  have hsettled : settled (FilePath.join p rest) = settled d ++ (names ++ components rest) := by
    rw [settled_join_plain p hrest.plain, hp, List.append_assoc]
  exact liesIn_of_settled_append hsettled
    (List.append_ne_nil_of_right_ne_nil _ hrest.components_ne_nil)
    (List.forall_mem_append.mpr ⟨hnames, hrest.plain⟩)

end FilePath

namespace FileStore

open FilePath (LiesIn clean join)

variable {s : FileStore} {path dir : String}

/-- Every directory that a file lies in is known. -/
def Housed (s : FileStore) : Prop :=
  ∀ path dir, s.isFile path = true → LiesIn (clean path) (clean dir) → s.isDirectory dir = true

/-- Additions and readings leave all files in known directories. -/
theorem housed_after (operations : List Operation) : (after operations).Housed := by
  intro path dir hfile hin
  have h := reflects_after operations
  rw [isFile, h.content, isSome_getLast?_contentsGiven] at hfile
  obtain ⟨other, content, hmem, hsame⟩ := hfile
  rw [isDirectory, List.contains_iff_mem, h.directories]
  exact ⟨other, content, hmem, hsame ▸ hin⟩

/-- Where there is no directory there is no file in it. -/
theorem Housed.isFile_eq_false (h : s.Housed) (hdir : s.isDirectory dir = false)
    (hin : LiesIn (clean path) (clean dir)) : s.isFile path = false := by
  refine Bool.eq_false_iff.mpr fun hfile => ?_
  rw [h path dir hfile hin] at hdir
  cases hdir

end FileStore

end ImportResolution
