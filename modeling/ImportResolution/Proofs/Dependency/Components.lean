/-
The components of places are the groups of places that lead to each other.

A collection ends closed: what it has collected leads only to places that it has
collected or that are still to do, and then nothing is to do any more. So it holds
exactly the places that lead on from where it began (`mem_reached_iff`), and two
places are joined exactly if each leads to the other. Of the places that are joined
only the first gives a group, so each place is in one group and in no other
(`isStrong_components`).
-/
import ImportResolution.Dependency.Search
import Mathlib.Data.List.Nodup
import Mathlib.Logic.Relation
import Mathlib.Order.Fin.Basic
import Mathlib.Order.WellFounded

namespace ImportResolution.Places

open Relation (ReflTransGen)

variable {n : Nat} {next : Fin n → List (Fin n)}

/-- A place leads on to another, over any number of steps. -/
def LeadsTo (next : Fin n → List (Fin n)) : Fin n → Fin n → Prop :=
  ReflTransGen fun i j => j ∈ next i

/-- Two places lead to each other. -/
def Mutual (next : Fin n → List (Fin n)) (i j : Fin n) : Prop :=
  LeadsTo next i j ∧ LeadsTo next j i

theorem Mutual.refl (i : Fin n) : Mutual next i i :=
  ⟨ReflTransGen.refl, ReflTransGen.refl⟩

theorem Mutual.symm {i j : Fin n} (h : Mutual next i j) : Mutual next j i :=
  ⟨h.2, h.1⟩

theorem Mutual.trans {i j k : Fin n} (hij : Mutual next i j) (hjk : Mutual next j k) :
    Mutual next i k :=
  ⟨hij.1.trans hjk.1, hjk.2.trans hij.2⟩

-- ========================================================== collecting

/-- What is collected was collected before, or a place that was to do leads to it. -/
theorem leadsTo_of_mem_collect {collected todo : List (Fin n)} {j : Fin n}
    (h : j ∈ collect next collected todo) : j ∈ collected ∨ ∃ i ∈ todo, LeadsTo next i j := by
  induction collected, todo using collect.induct next with
  | case1 collected =>
      rw [collect] at h
      exact Or.inl h
  | case2 collected i todo hi ih =>
      rw [collect, if_pos hi] at h
      exact (ih h).imp_right fun ⟨k, hk, hlead⟩ => ⟨k, List.mem_cons_of_mem i hk, hlead⟩
  | case3 collected i todo hi ih =>
      rw [collect, if_neg hi] at h
      rcases ih h with h | ⟨k, hk, hlead⟩
      · rcases List.mem_cons.mp h with rfl | h
        · exact Or.inr ⟨j, List.mem_cons_self, ReflTransGen.refl⟩
        · exact Or.inl h
      · rcases List.mem_append.mp hk with hk | hk
        · exact Or.inr ⟨i, List.mem_cons_self, hlead.head hk⟩
        · exact Or.inr ⟨k, List.mem_cons_of_mem i hk, hlead⟩

/-- What was collected or to do is collected. -/
theorem mem_collect {collected todo : List (Fin n)} {j : Fin n} (h : j ∈ collected ∨ j ∈ todo) :
    j ∈ collect next collected todo := by
  induction collected, todo using collect.induct next with
  | case1 collected =>
      rw [collect]
      exact h.resolve_right List.not_mem_nil
  | case2 collected i todo hi ih =>
      rw [collect, if_pos hi]
      refine ih (h.elim Or.inl fun h => ?_)
      rcases List.mem_cons.mp h with rfl | h
      · exact Or.inl hi
      · exact Or.inr h
  | case3 collected i todo hi ih =>
      rw [collect, if_neg hi]
      refine ih ?_
      rw [List.mem_cons, List.mem_append]
      rcases h with h | h
      · exact Or.inl (Or.inr h)
      · exact (List.mem_cons.mp h).elim (Or.inl ∘ Or.inl) (Or.inr ∘ Or.inr)

/-- If all steps from what was collected go to what was collected or is to do, then no
step goes out of what is collected in the end. -/
theorem collect_closed {collected todo : List (Fin n)}
    (h : ∀ i ∈ collected, ∀ j ∈ next i, j ∈ collected ∨ j ∈ todo) :
    ∀ i ∈ collect next collected todo, ∀ j ∈ next i, j ∈ collect next collected todo := by
  induction collected, todo using collect.induct next with
  | case1 collected =>
      rw [collect]
      exact fun i hi j hj => (h i hi j hj).resolve_right List.not_mem_nil
  | case2 collected i todo hi ih =>
      rw [collect, if_pos hi]
      refine ih fun k hk j hj => (h k hk j hj).elim Or.inl fun hmem => ?_
      rcases List.mem_cons.mp hmem with rfl | hmem
      · exact Or.inl hi
      · exact Or.inr hmem
  | case3 collected i todo hi ih =>
      rw [collect, if_neg hi]
      refine ih fun k hk j hj => ?_
      rw [List.mem_cons, List.mem_append]
      rcases List.mem_cons.mp hk with rfl | hk
      · exact Or.inr (Or.inl hj)
      · rcases h k hk j hj with hmem | hmem
        · exact Or.inl (Or.inr hmem)
        · exact (List.mem_cons.mp hmem).elim (Or.inl ∘ Or.inl) (Or.inr ∘ Or.inr)

/-- What is reached from a place is what it leads to. -/
theorem mem_reached_iff {i j : Fin n} : j ∈ reached next i ↔ LeadsTo next i j := by
  constructor
  · intro h
    obtain ⟨k, hk, hlead⟩ := (leadsTo_of_mem_collect h).resolve_left List.not_mem_nil
    rwa [List.mem_singleton.mp hk] at hlead
  · intro h
    induction h with
    | refl => exact mem_collect (Or.inr (List.mem_singleton_self i))
    | tail _ hstep ih => exact collect_closed (fun _ h => absurd h List.not_mem_nil) _ ih _ hstep

theorem joined_iff {i j : Fin n} :
    joined (Vector.ofFn (reached next)) i j = true ↔ Mutual next i j := by
  simp only [joined, Fin.getElem_fin, Vector.getElem_ofFn, Bool.and_eq_true,
    List.contains_iff_mem, mem_reached_iff]
  rfl

-- ========================================================== components

/-- Groups of places are the components: each place is in one group, once, together
with the places with which it leads to each other. -/
structure IsStrong (next : Fin n → List (Fin n)) (components : List (List (Fin n))) : Prop where
  covers : ∀ i, i ∈ components.flatten
  nodup : components.flatten.Nodup
  together : ∀ c ∈ components, ∀ i ∈ c, ∀ j, j ∈ c ↔ Mutual next i j

theorem one_lt_length_iff_ne_singleton {α : Type} {l : List α} {a : α} (ha : a ∈ l) :
    1 < l.length ↔ l ≠ [a] := by
  match l, ha with
  | [b], ha => simp [List.mem_singleton.mp ha]
  | b :: c :: rest, _ => simp

/-- A place is in a group with others exactly if it leads to another place and back. -/
theorem IsStrong.mem_larger_iff {components : List (List (Fin n))} (h : IsStrong next components)
    {i : Fin n} : i ∈ (components.filter (1 < ·.length)).flatten ↔ ∃ j ≠ i, Mutual next i j := by
  have hgroup {c : List (Fin n)} (hc : c ∈ components) (hi : i ∈ c) :
      1 < c.length ↔ ∃ j ≠ i, Mutual next i j := by
    have hnodup : c.Nodup := (List.nodup_flatten.mp h.nodup).1 c hc
    rw [one_lt_length_iff_ne_singleton hi, hnodup.ne_singleton_iff,
      or_iff_right (List.ne_nil_of_mem hi)]
    exact exists_congr fun j => and_comm.trans (and_congr_right fun _ => h.together c hc i hi j)
  simp only [List.mem_flatten, List.mem_filter, decide_eq_true_eq]
  constructor
  · rintro ⟨c, ⟨hc, hlarge⟩, hi⟩
    exact (hgroup hc hi).mp hlarge
  · intro hmutual
    obtain ⟨c, hc, hi⟩ := List.mem_flatten.mp (h.covers i)
    exact ⟨c, ⟨hc, (hgroup hc hi).mpr hmutual⟩, hi⟩

theorem mem_group_iff {i j : Fin n} :
    j ∈ (List.finRange n).filter (joined (Vector.ofFn (reached next)) i) ↔ Mutual next i j := by
  rw [List.mem_filter, joined_iff]
  exact and_iff_right (List.mem_finRange j)

/-- A group is found at a place that is joined to none before it. -/
theorem mem_firsts_iff {i : Fin n} :
    i ∈ (List.finRange n).filter (fun i => (List.finRange n).all fun j =>
      i ≤ j || !joined (Vector.ofFn (reached next)) i j) ↔ ∀ j, Mutual next i j → i ≤ j := by
  simp only [List.mem_filter, List.mem_finRange, true_and, List.all_eq_true, forall_const,
    Bool.or_eq_true, decide_eq_true_eq, Bool.not_eq_true', ← Bool.not_eq_true, joined_iff,
    or_iff_not_imp_right, not_not]

/-- The groups that are found are the components. -/
theorem isStrong_components (next : Fin n → List (Fin n)) : IsStrong next (components next) := by
  refine ⟨fun i => ?_, List.nodup_flatten.mpr ⟨fun c hc => ?_, ?_⟩, fun c hc i hi j => ?_⟩
  · obtain ⟨k, hk, hfirst⟩ := wellFounded_lt.has_min {k | Mutual next i k} ⟨i, Mutual.refl i⟩
    have hmem := mem_firsts_iff.mpr fun j hj => not_lt.mp (hfirst j (Mutual.trans hk hj))
    exact List.mem_flatten.mpr ⟨_, List.mem_map_of_mem hmem, mem_group_iff.mpr hk.symm⟩
  · obtain ⟨k, -, rfl⟩ := List.mem_map.mp hc
    exact (List.nodup_finRange n).filter _
  · -- Two first places that are joined to one place are joined to each other.
    refine List.pairwise_map.mpr (((List.nodup_finRange n).filter _).imp_of_mem ?_)
    intro i j hi hj hne k hik hjk
    have hmutual := (mem_group_iff.mp hik).trans (mem_group_iff.mp hjk).symm
    exact hne (le_antisymm (mem_firsts_iff.mp hi j hmutual) (mem_firsts_iff.mp hj i hmutual.symm))
  · obtain ⟨k, -, rfl⟩ := List.mem_map.mp hc
    rw [mem_group_iff] at hi ⊢
    exact ⟨hi.symm.trans, hi.trans⟩

end ImportResolution.Places
