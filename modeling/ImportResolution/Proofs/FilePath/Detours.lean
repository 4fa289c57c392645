/-
Walks up from a directory. A walk takes parents as they are spelled, so from a
path with a `..` in it a walk also passes the directory that the `..` leads back
from, which need not lie around the directory that the walk starts in. Seen in
cleaned paths every step of a walk goes out to the parent, back down to a
directory inside, or nowhere (`clean_parent_cases`).

A path is direct if no step of its walk leaves what lies around its start
(`Direct`). Then a search that goes by cleaned paths finds the same on the walk
from the path as on the walk from the cleaned path (`findSome?_of_direct`):
whatever lies further out is passed on the way out for the first time.
-/
import ImportResolution.FileStore
import ImportResolution.Proofs.FilePath.Parents

namespace ImportResolution.FilePath

variable {p d : String}

-- ================================================================ walks

theorem ancestors_of_parent? (h : parent? p = some d) : ancestors p = p :: ancestors d := by
  rw [ancestors]
  split
  · next d' hd' => rw [Option.some.inj (h.symm.trans hd')]
  · next hnone =>
    rw [hnone] at h
    cases h

theorem ancestors_of_parent?_eq_none (h : parent? p = none) : ancestors p = [p] := by
  rw [ancestors]
  split
  · next d' hd' =>
    rw [hd'] at h
    cases h
  · rfl

theorem mem_ancestors_self (p : String) : p ∈ ancestors p := by
  obtain ⟨rest, h⟩ := ancestors_eq_cons p
  rw [h]
  exact List.mem_cons_self ..

/-- A walk does not come back to where it starts. -/
theorem not_mem_ancestors_parent (h : parent? p = some d) : p ∉ ancestors d := by
  intro hmem
  obtain ⟨c, hc, -⟩ := exists_last_of_parent? h
  have hlength := (prefix_of_mem_ancestors hmem).length_le
  rw [hc, List.length_append, List.length_singleton] at hlength
  omega

/-- Unless the path goes back at its end, a step up is a step up in cleaned paths. -/
theorem clean_parent_of_not_endsBack (h : parent? p = some d) (hback : ¬ EndsBack p) :
    parent? (clean p) = some (clean d) ∨ clean p = clean d := by
  obtain ⟨c, hc, hlast⟩ := exists_last_of_parent? h
  rcases hlast with ⟨segment, hsegment⟩ | ⟨rfl, rfl⟩
  · obtain ⟨hsettled, hroot⟩ := settled_of_not_endsBack hback hc hsegment
    refine Or.inl (parent?_clean_of_stays ?_ hroot)
    rw [hsettled, settled]
  · -- the path is a `.`
    refine Or.inr ?_
    rw [clean, settled_concat hc]
    rfl

/-- From a path that goes back at its end a step up is, in cleaned paths, a step back
down, or none at the root. -/
theorem clean_parent_of_endsBack (h : parent? p = some d) (hback : EndsBack p) :
    parent? (clean d) = some (clean p) ∨ clean p = clean d := by
  obtain ⟨before, hbefore, hup⟩ := hback
  have hd : settled d = (before.foldl settle []).reverse := by
    rw [settled, components_parent? h, hbefore, List.dropLast_concat]
  have hp := settled_concat hbefore
  cases hkept : before.foldl settle [] with
  | nil =>
      rw [hkept] at hup
      exact absurd rfl hup
  | cons last earlier =>
      rw [hkept] at hup hp hd
      cases last with
      | current => exact absurd rfl hup
      | up => exact absurd rfl hup
      | root =>
          refine Or.inr ?_
          rw [clean, clean, hp, hd]
          rfl
      | name text =>
          have hlonger : settled d = settled p ++ [.name text] := by
            rw [hp, hd, List.reverse_cons]
            rfl
          exact Or.inl (parent?_clean_of_stays hlonger Component.noConfusion)

/-- One step up is, in cleaned paths, a step out, a step back down, or none. -/
theorem clean_parent_cases (h : parent? p = some d) :
    parent? (clean p) = some (clean d) ∨ parent? (clean d) = some (clean p) ∨
      clean p = clean d := by
  by_cases hback : EndsBack p
  · exact Or.inr (clean_parent_of_endsBack h hback)
  · exact (clean_parent_of_not_endsBack h hback).imp_right Or.inr

-- ========================================================= cleaned walks

theorem not_endsBack_clean (p : String) : ¬ EndsBack (clean p) := by
  rintro ⟨before, hbefore, hup⟩
  have hstraight := straight_clean p
  rw [hbefore] at hstraight
  have hearlier := hstraight.of_concat
  rw [Straight, List.foldl_append, hearlier] at hstraight
  rw [hearlier] at hup
  exact hup (hstraight.trans List.reverse_concat)

/-- A walk from a cleaned path passes cleaned paths only. -/
theorem clean_of_mem_ancestors {q e : String} (hq : clean q = q) (he : e ∈ ancestors q) :
    clean e = e := by
  induction q using ancestors.induct with
  | case1 q parent hparent ih =>
      have hclean : clean parent = parent := by
        have hexchange := (clean_parent_iff q).mpr (hq ▸ not_endsBack_clean q)
        rwa [hq, hparent, Option.getD_some] at hexchange
      rw [ancestors_of_parent? hparent] at he
      rcases List.mem_cons.mp he with rfl | he
      · exact hq
      · exact ih hclean he
  | case2 q hnone =>
      rw [ancestors_of_parent?_eq_none hnone] at he
      rw [List.mem_singleton.mp he]
      exact hq

-- ========================================================= direct paths

/-- Every directory that the walk up from the path passes lies around the directory
that the path leads to. -/
def Direct (p : String) : Prop :=
  ∀ d ∈ ancestors p, clean d ∈ ancestors (clean p)

/-- A cleaned path is direct. -/
theorem direct_clean (p : String) : Direct (clean p) := by
  intro d hd
  rw [clean_clean, clean_of_mem_ancestors (clean_clean p) hd]
  exact hd

instance (p : String) : Decidable (Direct p) :=
  inferInstanceAs (Decidable (∀ d ∈ ancestors p, clean d ∈ ancestors (clean p)))

/-- Without a `..` no step of a walk leads back down. -/
theorem direct_of_no_up (h : .up ∉ components p) : Direct p := by
  induction p using ancestors.induct with
  | case2 p hp =>
      intro e he
      rw [ancestors_of_parent?_eq_none hp] at he
      rw [List.mem_singleton.mp he]
      exact mem_ancestors_self _
  | case1 p d hd ih =>
      have hback : ¬ EndsBack p := by
        rintro ⟨before, hbefore, -⟩
        exact h (hbefore ▸ List.mem_append_right _ (List.mem_singleton_self _))
      have hparent : Direct d := by
        refine ih fun hup => h ?_
        rw [components_parent? hd] at hup
        exact (List.dropLast_subset _) hup
      intro e he
      rw [ancestors_of_parent? hd] at he
      rcases List.mem_cons.mp he with rfl | he
      · exact mem_ancestors_self _
      · rcases clean_parent_of_not_endsBack hd hback with hout | hstay
        · rw [ancestors_of_parent? hout]
          exact List.mem_cons_of_mem _ (hparent e he)
        · rw [hstay]
          exact hparent e he

example : Direct "/../ws/./app" := by decide +kernel

example : ¬ Direct "/ws/lib/../app" := by decide +kernel

/-- A search that goes by cleaned paths, where the walk from `p` stays within some
directories of which none has anything unless it is around `p`. -/
theorem findSome?_ancestors_clean {α : Type} {find : String → Option α} {within : String → Prop}
    (hfind : ∀ d, find d = find (clean d)) (hwalk : ∀ d ∈ ancestors p, within (clean d))
    (hnone : ∀ d, within d → d ∉ ancestors (clean p) → find d = none) :
    (ancestors p).findSome? find = (ancestors (clean p)).findSome? find := by
  induction p using ancestors.induct with
  | case2 p hp =>
      rw [ancestors_of_parent?_eq_none hp,
        ancestors_of_parent?_eq_none (parent?_clean_of_parent?_eq_none hp),
        List.findSome?_singleton, List.findSome?_singleton, hfind]
  | case1 p d hd ih =>
      rw [ancestors_of_parent? hd] at hwalk ⊢
      have hself : within (clean p) := hwalk p (List.mem_cons_self ..)
      have hrest : ∀ e ∈ ancestors d, within (clean e) :=
        fun e he => hwalk e (List.mem_cons_of_mem _ he)
      rw [List.findSome?_cons, hfind p]
      cases hfound : find (clean p) with
      | some a =>
          obtain ⟨outwards, houtwards⟩ := ancestors_eq_cons (clean p)
          rw [houtwards, List.findSome?_cons, hfound]
      | none =>
          rcases clean_parent_cases hd with hout | hback | hstay
          · -- a step out: the cleaned walk takes it too
            rw [ancestors_of_parent? hout, List.findSome?_cons, hfound]
            refine ih hrest fun e he houtside => ?_
            by_cases hself : e = clean p
            · rw [hself, hfound]
            · refine hnone e he fun hmem => ?_
              rw [ancestors_of_parent? hout] at hmem
              exact (List.mem_cons.mp hmem).elim hself houtside
          · -- a step back down, to a directory that has nothing
            have hdown : find (clean d) = none :=
              hnone _ (hrest d (mem_ancestors_self d)) (not_mem_ancestors_parent hback)
            have hih := ih hrest fun e he houtside => hnone e he fun hmem => by
              rw [ancestors_of_parent? hback] at houtside
              exact houtside (List.mem_cons_of_mem _ hmem)
            rw [ancestors_of_parent? hback, List.findSome?_cons, hdown] at hih
            exact hih
          · rw [hstay] at hnone ⊢
            exact ih hrest hnone

/-- On the walk from a direct path is found what is found on the walk from the
cleaned path. -/
theorem findSome?_of_direct {α : Type} {find : String → Option α} (h : Direct p)
    (hfind : ∀ d, find d = find (clean d)) :
    (ancestors p).findSome? find = (ancestors (clean p)).findSome? find :=
  findSome?_ancestors_clean hfind h fun _ hwithin houtside => absurd hwithin houtside

-- ================================================================ joins

/-- What is joined to a path is carried out after the path. -/
theorem settled_join {base rest : String} (hrest : isAbsolute rest = false) :
    settled (join base rest)
      = ((steps rest.toList).foldl settle (settled base).reverse).reverse := by
  by_cases hbase : base = ""
  · rw [hbase, join_empty, settled_eq_foldl, hrest]
    rfl
  · rw [settled, components_join hbase hrest, List.foldl_append, settled, List.reverse_reverse]

/-- What is joined to a path is where it is if the path is cleaned first. -/
theorem clean_join (base rest : String) :
    clean (join base rest) = clean (join (clean base) rest) := by
  cases hrest : isAbsolute rest with
  | true => rw [join, join, if_pos hrest, if_pos hrest]
  | false =>
      have hbase : settled (clean base) = settled base := by
        rw [(straight_clean base).settled_eq, components_clean]
      rw [clean, clean, settled_join hrest, settled_join hrest, hbase]

theorem clean_eq_iff {q : String} : clean p = clean q ↔ settled p = settled q := by
  refine ⟨fun h => ?_, fun h => by rw [clean, clean, h]⟩
  rw [← components_clean, ← components_clean, h]

/-- A name that is joined to a path stays at its end. -/
theorem settled_join_name {dir name text : String} (h : components name = [.name text]) :
    settled (join dir name) = settled dir ++ [.name text] := by
  have hplain := plain_of_name h
  rw [settled_join hplain.isAbsolute_eq, hplain.steps_eq, h, List.foldl_cons, List.foldl_nil,
    settle_name, List.reverse_cons, List.reverse_reverse]

/-- Two files are the same if they have one name in one directory. -/
theorem clean_join_name_iff {dir dir' name name' text text' : String}
    (hname : components name = [.name text]) (hname' : components name' = [.name text']) :
    clean (join dir name) = clean (join dir' name') ↔ clean dir = clean dir' ∧ text = text' := by
  rw [clean_eq_iff, clean_eq_iff, settled_join_name hname, settled_join_name hname',
    List.append_singleton_inj, Component.name.injEq]

end ImportResolution.FilePath

namespace ImportResolution.FileStore

open FilePath (Direct ancestors clean join)

-- ============================================================= searches

theorem isFile_clean (s : FileStore) (path : String) : s.isFile (clean path) = s.isFile path := by
  rw [isFile, isFile, content?, content?, FilePath.clean_clean]

/-- The file that is found in a directory is found there if the directory is
cleaned first. -/
theorem find?_join_clean (s : FileStore) (names : List String) (dir : String) :
    ((names.map (join dir)).find? s.isFile).map clean
      = ((names.map (join (clean dir))).find? s.isFile).map clean := by
  have hfile (name : String) :
      (s.isFile ∘ join dir) name = (s.isFile ∘ join (clean dir)) name := by
    rw [Function.comp, Function.comp, ← isFile_clean, FilePath.clean_join, isFile_clean]
  have hclean : clean ∘ join dir = clean ∘ join (clean dir) := funext (FilePath.clean_join dir)
  rw [List.find?_map, List.find?_map, funext hfile, Option.map_map, Option.map_map, hclean]

theorem findUpwards?_eq_none_iff {s : FileStore} {names : List String} {dir : String} :
    s.findUpwards? names dir = none
      ↔ ∀ d ∈ ancestors dir, ∀ name ∈ names, s.isFile (join d name) = false := by
  simp only [findUpwards?, List.findSome?_eq_none_iff, List.find?_eq_none, List.mem_map,
    forall_exists_index, and_imp, forall_apply_eq_imp_iff₂, Bool.not_eq_true]

theorem isFile_of_findUpwards? {s : FileStore} {names : List String} {dir path : String}
    (h : s.findUpwards? names dir = some path) : s.isFile path = true := by
  obtain ⟨d, -, hfound⟩ := List.exists_of_findSome?_eq_some h
  exact List.find?_some hfound

/-- From a direct path the file is found that is found from the cleaned path. -/
theorem findUpwards?_of_direct {dir : String} (h : Direct dir) (s : FileStore)
    (names : List String) :
    (s.findUpwards? names dir).map clean = (s.findUpwards? names (clean dir)).map clean := by
  rw [findUpwards?, findUpwards?, List.map_findSome?, List.map_findSome?]
  exact FilePath.findSome?_of_direct h (find?_join_clean s names)

end ImportResolution.FileStore
