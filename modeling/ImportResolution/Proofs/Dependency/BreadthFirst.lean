/-
The search for a way back finds the first one there is: a shorter way comes before a
longer one, and of two equally long ones the one whose names come first.

The search tries the steps between places in the order of the ways that they would
complete, which is what `Explored` keeps: the places stand in the order of the ways on
which they were reached, every step tried so far has come to a place that has a way no
later than the one over this step, and so a place that is reached for the first time
gets a later way than all before it. When a step leads back to the start, any other
walk back must take some step that was not tried yet, and all these come later
(`Explored.le_of_walk`). When nothing is left to try, every step of every walk was
tried, and none of them led back.
-/
import ImportResolution.Dependency.Search
import Mathlib.Data.List.Lex
import Mathlib.Data.Prod.Lex
import Mathlib.Data.String.Basic
import Mathlib.Order.Fin.Basic

namespace ImportResolution.Places

-- ================================================================ walks

/-- A walk from a start, as the list of what it comes by, and where it ends. -/
inductive Walk {α : Type} (R : α → α → Prop) (start : α) : List α → α → Prop where
  | start : Walk R start [start] start
  | step {l : List α} {a b : α} : Walk R start l a → R a b → Walk R start (l ++ [b]) b

/-- A walk that comes back to its start with one more step. -/
def Walk.Returns {α : Type} (R : α → α → Prop) (start : α) (l : List α) : Prop :=
  ∃ a, Walk R start l a ∧ R a start

theorem Walk.length_pos {α : Type} {R : α → α → Prop} {start a : α} {l : List α}
    (h : Walk R start l a) : 0 < l.length := by
  cases h <;> simp

-- ================================================================ order

variable {n : Nat} (name : Fin n → String)

/-- What ways are compared by: first their length, then the names on them. -/
def rank (way : List (Fin n)) : ℕ ×ₗ List String :=
  toLex (way.length, way.map name)

variable {name}

theorem rank_lt_iff {a b : List (Fin n)} : rank name a < rank name b ↔
    a.length < b.length ∨ a.length = b.length ∧ a.map name < b.map name :=
  Prod.Lex.toLex_lt_toLex

theorem rank_lt_of_length_lt {a b : List (Fin n)} (h : a.length < b.length) :
    rank name a < rank name b :=
  rank_lt_iff.mpr (Or.inl h)

/-- Of two equally long lists the one that comes first does so whatever follows. -/
theorem lex_append {α : Type} {r : α → α → Prop} {a b : List α} (h : List.Lex r a b)
    (hlength : a.length = b.length) (c d : List α) : List.Lex r (a ++ c) (b ++ d) := by
  induction h with
  | nil => cases hlength
  | rel h => exact List.Lex.rel h
  | cons _ ih => exact List.Lex.cons (ih (Nat.succ.inj hlength))

/-- An earlier way stays earlier when both go on equally far. -/
theorem rank_append_lt {a b : List (Fin n)} (h : rank name a < rank name b)
    {c d : List (Fin n)} (hlength : c.length = d.length) :
    rank name (a ++ c) < rank name (b ++ d) := by
  rw [rank_lt_iff] at h ⊢
  rw [List.length_append, List.length_append, List.map_append, List.map_append]
  rcases h with h | ⟨hsame, hlt⟩
  · exact Or.inl (by omega)
  · exact Or.inr ⟨by omega, lex_append hlt (by simpa using hsame) _ _⟩

theorem rank_append_le {a b : List (Fin n)} (h : rank name a ≤ rank name b)
    (c : List (Fin n)) : rank name (a ++ c) ≤ rank name (b ++ c) := by
  rcases h.lt_or_eq with h | h
  · exact (rank_append_lt h rfl).le
  · obtain ⟨hlength, hnames⟩ := Prod.mk.inj (toLex.injective h)
    rw [rank, rank, List.length_append, List.length_append, List.map_append, List.map_append,
      hlength, hnames]

theorem rank_concat_lt {i j : Fin n} (h : name i < name j) (a : List (Fin n)) :
    rank name (a ++ [i]) < rank name (a ++ [j]) := by
  refine rank_lt_iff.mpr (Or.inr ⟨by simp, ?_⟩)
  rw [List.map_append, List.map_append]
  exact List.Lex.append_left _ (List.Lex.rel h) _

variable (name) in
/-- A walk that returns to its start, comes by no place twice, and comes before all
others that return. -/
structure FirstReturn (next : Fin n → List (Fin n)) (start : Fin n) (l : List (Fin n)) :
    Prop where
  returns : Walk.Returns (fun i j => j ∈ next i) start l
  nodup : l.Nodup
  first : ∀ l', Walk.Returns (fun i j => j ∈ next i) start l' → rank name l ≤ rank name l'

-- ================================================================= ways

/-- A place has the way that it had, when another place is reached. -/
theorem wayTo_cons_of_ne {i j before : Fin n} (h : j ≠ i) (earlier : List (Fin n × Fin n)) :
    wayTo i ((j, before) :: earlier) = wayTo i earlier :=
  if_neg h

theorem wayTo_cons_self (i before : Fin n) (earlier : List (Fin n × Fin n)) :
    wayTo i ((i, before) :: earlier) = wayTo before earlier ++ [i] :=
  if_pos rfl

/-- A place that was not reached from another one is its own way. -/
theorem wayTo_of_not_mem {i : Fin n} {previous : List (Fin n × Fin n)}
    (h : i ∉ previous.map Prod.fst) : wayTo i previous = [i] := by
  induction previous with
  | nil => rfl
  | cons e earlier ih =>
      obtain ⟨hne, hrest⟩ := not_or.mp (mt List.mem_cons.mpr h)
      exact (wayTo_cons_of_ne (Ne.symm hne) earlier).trans (ih hrest)

namespace Frontier

/-- The way on which a place was reached. -/
def way (f : Frontier n) (i : Fin n) : List (Fin n) :=
  wayTo i f.previous

/-- The places in the order in which they were reached. -/
def order (start : Fin n) (f : Frontier n) : List (Fin n) :=
  start :: (f.previous.map Prod.fst).reverse

variable {next : Fin n → List (Fin n)} {start : Fin n} {f : Frontier n}
  {done : List (Fin n)} {tried : List (Fin n × Fin n)}

variable (name next start) in
/-- What the search knows when it has tried some steps, and is done with or at some
places. -/
structure Explored (f : Frontier n) (done : List (Fin n)) (tried : List (Fin n × Fin n)) :
    Prop where
  /-- All other places that were reached are in the queue. -/
  order_eq : f.order start = done ++ f.queue
  /-- A place was reached on a walk over places that were reached, each once. -/
  walk : ∀ i ∈ f.order start, Walk (fun i j => j ∈ next i) start (f.way i) i ∧
    (f.way i).Nodup ∧ f.way i ⊆ f.order start
  /-- A place that was reached later has a later way. -/
  increasing : (f.order start).Pairwise fun i j => rank name (f.way i) < rank name (f.way j)
  /-- A place was reached over a step that was tried. -/
  entry : ∀ i j, (j, i) ∈ f.previous → (i, j) ∈ tried ∧ f.way j = f.way i ++ [j]
  /-- A step is tried from a place that was reached. It did not lead to the start, and
  the place that it led to was reached, no later than over this step. -/
  arrived : ∀ i j, (i, j) ∈ tried → i ∈ f.order start ∧ j ≠ start ∧ j ∈ f.order start ∧
    rank name (f.way j) ≤ rank name (f.way i ++ [j])

/-- The steps from some places. -/
def steps (next : Fin n → List (Fin n)) (places : List (Fin n)) : List (Fin n × Fin n) :=
  places.flatMap fun i => (next i).map (i, ·)

theorem mem_steps {places : List (Fin n)} {i j : Fin n} :
    (i, j) ∈ steps next places ↔ i ∈ places ∧ j ∈ next i := by
  simp [steps]

theorem mem_order_iff {i : Fin n} :
    i ∈ f.order start ↔ i = start ∨ i ∈ f.previous.map Prod.fst := by
  rw [order, List.mem_cons, List.mem_reverse]

theorem mem_order {i : Fin n} : i ∈ f.order start ↔ i = start ∨ ∃ j, (i, j) ∈ f.previous := by
  simp [order]

/-- Nothing was tried yet. -/
theorem explored_ofStart : Explored name next start (ofStart start) [] [] where
  order_eq := rfl
  walk i hi := by
    rw [List.mem_singleton.mp hi]
    exact ⟨Walk.start, List.pairwise_singleton .., List.Subset.refl _⟩
  increasing := List.pairwise_singleton ..
  entry _ _ h := absurd h List.not_mem_nil
  arrived _ _ h := absurd h List.not_mem_nil

namespace Explored

/-- The start is where every way begins. -/
theorem way_start (h : Explored name next start f done tried) : f.way start = [start] := by
  refine wayTo_of_not_mem fun hmem => lt_irrefl (rank name (f.way start)) ?_
  exact List.rel_of_pairwise_cons h.increasing (List.mem_reverse.mpr hmem)

/-- If a step comes later than all steps tried so far, it comes later than the ways of
all places reached so far. -/
theorem rank_lt_of_later (h : Explored name next start f done tried) {i j : Fin n}
    (hi : i ∈ f.order start)
    (hlater : ∀ p q, (p, q) ∈ tried → rank name (f.way p ++ [q]) < rank name (f.way i ++ [j]))
    {k : Fin n} (hk : k ∈ f.order start) : rank name (f.way k) < rank name (f.way i ++ [j]) := by
  rcases mem_order.mp hk with rfl | ⟨p, hp⟩
  · have hpos := (h.walk i hi).1.length_pos
    refine rank_lt_of_length_lt ?_
    rw [h.way_start, List.length_append]
    exact Nat.lt_add_of_pos_left hpos
  · obtain ⟨htried, hway⟩ := h.entry p k hp
    rw [hway]
    exact hlater p k htried

/-- A step to a place that was reached before leaves everything as it is. -/
theorem reach_of_mem (h : Explored name next start f done tried) {i j : Fin n}
    (hi : i ∈ f.order start) (hj : j ∈ f.order start) (hne : j ≠ start)
    (hlater : ∀ p q, (p, q) ∈ tried → rank name (f.way p ++ [q]) < rank name (f.way i ++ [j])) :
    Explored name next start (f.reach i j) done (tried ++ [(i, j)]) := by
  have hsame : f.reach i j = f := by
    have hkey := (mem_order_iff.mp hj).resolve_left hne
    rw [← not_not (a := j ∈ _), ← lookup_eq_none_iff] at hkey
    unfold Frontier.reach
    split
    · rfl
    · contradiction
  rw [hsame]
  refine ⟨h.order_eq, h.walk, h.increasing, fun p q hpq => ?_, fun p q hpq => ?_⟩
  · exact (h.entry p q hpq).imp_left (List.mem_append_left _)
  · rcases List.mem_append.mp hpq with hpq | hpq
    · exact h.arrived p q hpq
    · cases List.mem_singleton.mp hpq
      exact ⟨hi, hne, hj, (h.rank_lt_of_later hi hlater hj).le⟩

/-- A step to a place that was not reached before gives it the last way of all. -/
theorem reach_of_not_mem (h : Explored name next start f done tried) {i j : Fin n}
    (hi : i ∈ f.order start) (hj : j ∈ next i) (hnew : j ∉ f.order start)
    (hlater : ∀ p q, (p, q) ∈ tried → rank name (f.way p ++ [q]) < rank name (f.way i ++ [j])) :
    Explored name next start (f.reach i j) done (tried ++ [(i, j)]) := by
  obtain ⟨hne, hkey⟩ := not_or.mp (mt mem_order_iff.mpr hnew)
  have hreach : f.reach i j = ⟨(j, i) :: f.previous, f.queue ++ [j]⟩ := by
    rw [Frontier.reach, lookup_eq_none_iff.mpr hkey]
  generalize f.reach i j = f' at hreach
  have horder : f'.order start = f.order start ++ [j] := by
    rw [hreach, order, order, List.map_cons, List.reverse_cons, List.cons_append]
  have hold {k : Fin n} (hk : k ∈ f.order start) : f'.way k = f.way k := by
    rw [hreach]
    exact wayTo_cons_of_ne (ne_of_mem_of_not_mem hk hnew).symm _
  have hway : f'.way j = f.way i ++ [j] := by
    rw [hreach]
    exact wayTo_cons_self j i f.previous
  have hmem {k : Fin n} : k ∈ f'.order start ↔ k ∈ f.order start ∨ k = j := by
    rw [horder, List.mem_append, List.mem_singleton]
  refine ⟨?_, fun k hk => ?_, ?_, fun p q hpq => ?_, fun p q hpq => ?_⟩
  · rw [horder, h.order_eq, hreach, List.append_assoc]
  · rcases hmem.mp hk with hk | rfl
    · obtain ⟨hwalk, hnodup, hsubset⟩ := h.walk k hk
      rw [hold hk]
      exact ⟨hwalk, hnodup, fun q hq => hmem.mpr (Or.inl (hsubset hq))⟩
    · obtain ⟨hwalk, hnodup, hsubset⟩ := h.walk i hi
      rw [hway]
      refine ⟨hwalk.step hj, ?_, fun q hq => hmem.mpr ?_⟩
      · exact List.nodup_append.mpr ⟨hnodup, List.pairwise_singleton .., fun q hq r hr => by
          rw [List.mem_singleton.mp hr]
          exact ne_of_mem_of_not_mem (hsubset hq) hnew⟩
      · exact (List.mem_append.mp hq).imp (fun hq => hsubset hq) List.mem_singleton.mp
  · rw [horder]
    refine List.pairwise_append.mpr ⟨h.increasing.imp_of_mem ?_, List.pairwise_singleton .., ?_⟩
    · intro p q hp hq hlt
      rwa [hold hp, hold hq]
    · intro p hp q hq
      rw [List.mem_singleton.mp hq, hold hp, hway]
      exact h.rank_lt_of_later hi hlater hp
  · rw [hreach] at hpq
    rcases List.mem_cons.mp hpq with heq | hpq
    · cases heq
      exact ⟨List.mem_append_right _ (List.mem_singleton_self _), hold hi ▸ hway⟩
    · obtain ⟨htried, hentry⟩ := h.entry p q hpq
      obtain ⟨hp, -, hq, -⟩ := h.arrived p q htried
      rw [hold hp, hold hq]
      exact ⟨List.mem_append_left _ htried, hentry⟩
  · rcases List.mem_append.mp hpq with hpq | hpq
    · obtain ⟨hp, hstart, hq, hle⟩ := h.arrived p q hpq
      rw [hold hp, hold hq]
      exact ⟨hmem.mpr (Or.inl hp), hstart, hmem.mpr (Or.inl hq), hle⟩
    · cases List.mem_singleton.mp hpq
      rw [hold hi, hway]
      exact ⟨hmem.mpr (Or.inl hi), hne, hmem.mpr (Or.inr rfl), le_rfl⟩

theorem reach (h : Explored name next start f done tried) {i j : Fin n}
    (hi : i ∈ f.order start) (hj : j ∈ next i) (hne : j ≠ start)
    (hlater : ∀ p q, (p, q) ∈ tried → rank name (f.way p ++ [q]) < rank name (f.way i ++ [j])) :
    Explored name next start (f.reach i j) done (tried ++ [(i, j)]) := by
  by_cases hmem : j ∈ f.order start
  · exact h.reach_of_mem hi hmem hne hlater
  · exact h.reach_of_not_mem hi hj hmem hlater

/-- Every walk comes only by places that were reached, no later than on the walk, or it
comes by a step that was not tried. -/
theorem le_of_walk (h : Explored name next start f done tried) {bound : ℕ ×ₗ List String}
    (hbound : ∀ i ∈ f.order start, ∀ j ∈ next i, (i, j) ∉ tried →
      bound ≤ rank name (f.way i ++ [j]))
    {l : List (Fin n)} {i : Fin n} (hwalk : Walk (fun i j => j ∈ next i) start l i) :
    i ∈ f.order start ∧ rank name (f.way i) ≤ rank name l ∨ bound ≤ rank name l := by
  induction hwalk with
  | start =>
      rw [h.way_start]
      exact Or.inl ⟨List.mem_cons_self, le_rfl⟩
  | @step l i j _ hstep ih =>
      rcases ih with ⟨hi, hle⟩ | hle
      · have hon := rank_append_le hle [j]
        by_cases htried : (i, j) ∈ tried
        · obtain ⟨-, -, hj, hway⟩ := h.arrived i j htried
          exact Or.inl ⟨hj, hway.trans hon⟩
        · exact Or.inr ((hbound i hi j hstep htried).trans hon)
      · exact Or.inr (hle.trans (rank_lt_of_length_lt (by simp)).le)

/-- Every walk that returns to the start comes by a step that was not tried. -/
theorem le_of_returns (h : Explored name next start f done tried) {bound : ℕ ×ₗ List String}
    (hbound : ∀ i ∈ f.order start, ∀ j ∈ next i, (i, j) ∉ tried →
      bound ≤ rank name (f.way i ++ [j]))
    {l : List (Fin n)} (hl : Walk.Returns (fun i j => j ∈ next i) start l) :
    bound ≤ rank name (l ++ [start]) := by
  obtain ⟨i, hwalk, hstep⟩ := hl
  rcases h.le_of_walk hbound hwalk with ⟨hi, hle⟩ | hle
  · have huntried : (i, start) ∉ tried := fun htried => (h.arrived i start htried).2.1 rfl
    exact (hbound i hi start hstep huntried).trans (rank_append_le hle [start])
  · exact hle.trans (rank_lt_of_length_lt (by simp)).le

-- ============================================================ expanding

/-- The steps that were tried before the one to the next successor come earlier. -/
theorem rank_lt_of_mem_tried {i j : Fin n} {seen rest : List (Fin n)}
    (h : Explored name next start f (done ++ [i]) (steps next done ++ seen.map (i, ·)))
    (hsorted : (seen ++ j :: rest).Pairwise (name · < name ·)) {p q : Fin n}
    (hpq : (p, q) ∈ steps next done ++ seen.map (i, ·)) :
    rank name (f.way p ++ [q]) < rank name (f.way i ++ [j]) := by
  rcases List.mem_append.mp hpq with hpq | hpq
  · have hincreasing := h.increasing
    rw [h.order_eq, List.append_assoc] at hincreasing
    exact rank_append_lt ((List.pairwise_append.mp hincreasing).2.2 p (mem_steps.mp hpq).1 i
      List.mem_cons_self) rfl
  · obtain ⟨k, hk, heq⟩ := List.mem_map.mp hpq
    obtain ⟨rfl, rfl⟩ := Prod.mk.inj heq
    exact rank_concat_lt ((List.pairwise_append.mp hsorted).2.2 k hk j List.mem_cons_self) _

/-- The steps that are still to be tried do not come before the one to the next
successor. -/
theorem rank_le_of_not_mem_tried {i j : Fin n} {seen rest : List (Fin n)}
    (h : Explored name next start f (done ++ [i]) (steps next done ++ seen.map (i, ·)))
    (hnext : next i = seen ++ j :: rest) (hsorted : (next i).Pairwise (name · < name ·))
    {p q : Fin n} (hp : p ∈ f.order start) (hq : q ∈ next p)
    (hpq : (p, q) ∉ steps next done ++ seen.map (i, ·)) :
    rank name (f.way i ++ [j]) ≤ rank name (f.way p ++ [q]) := by
  have hincreasing := h.increasing
  rw [h.order_eq, List.append_assoc] at hincreasing hp
  obtain ⟨hdone, hseen⟩ := not_or.mp (mt List.mem_append.mpr hpq)
  have hlater := (List.mem_append.mp hp).resolve_left fun hp => hdone (mem_steps.mpr ⟨hp, hq⟩)
  rcases List.mem_cons.mp hlater with rfl | hp
  · rw [hnext] at hq hsorted
    have hq := (List.mem_append.mp hq).resolve_left fun hq => hseen (List.mem_map_of_mem hq)
    rcases List.mem_cons.mp hq with rfl | hq
    · exact le_rfl
    · have hpairs := (List.pairwise_append.mp hsorted).2.1
      exact (rank_concat_lt (List.rel_of_pairwise_cons hpairs hq) _).le
  · have hpairs := (List.pairwise_append.mp hincreasing).2.1
    have hlt := List.rel_of_pairwise_cons hpairs hp
    exact (rank_append_lt hlt (c := [j]) (d := [q]) rfl).le

end Explored

/-- The successors of a place are tried in turn until one is the start, and then there
is no earlier way back. -/
theorem Explored.expand {i : Fin n} {seen rest : List (Fin n)}
    (h : Explored name next start f (done ++ [i]) (steps next done ++ seen.map (i, ·)))
    (hnext : next i = seen ++ rest) (hsorted : (next i).Pairwise (name · < name ·)) :
    match expand start i rest f with
    | .ok f' => Explored name next start f' (done ++ [i]) (steps next (done ++ [i]))
    | .error way => ∃ l, way = l ++ [start] ∧ FirstReturn name next start l := by
  have hi : i ∈ f.order start := by
    rw [h.order_eq]
    simp
  induction rest generalizing f seen with
  | nil =>
      have hsteps : steps next (done ++ [i]) = steps next done ++ seen.map (i, ·) := by
        simp [steps, hnext]
      rw [hsteps]
      exact h
  | cons j rest ih =>
      have hj : j ∈ next i := by simp [hnext]
      rw [Frontier.expand]
      by_cases hback : j = start
      · rw [if_pos hback]
        obtain ⟨hwalk, hnodup, -⟩ := h.walk i hi
        refine ⟨f.way i, rfl, ⟨i, hwalk, hback ▸ hj⟩, hnodup, fun l' hl' => ?_⟩
        have hle := h.le_of_returns (fun p hp q => h.rank_le_of_not_mem_tried hnext hsorted hp) hl'
        rw [hback] at hle
        exact le_of_not_gt fun hlt => (rank_append_lt hlt rfl).not_ge hle
      · rw [if_neg hback]
        have htry := h.reach hi hj hback fun p q => h.rank_lt_of_mem_tried (hnext ▸ hsorted)
        have hseen : seen.map (i, ·) ++ [(i, j)] = (seen ++ [j]).map (i, ·) := by simp
        rw [List.append_assoc, hseen] at htry
        refine ih htry (by simp [hnext]) ?_
        rw [htry.order_eq]
        simp

/-- The successors of the next place in the queue are tried. -/
theorem Explored.expand_next {previous : List (Fin n × Fin n)} {i : Fin n} {queue : List (Fin n)}
    (h : Explored name next start ⟨previous, i :: queue⟩ done (steps next done))
    (hsorted : (next i).Pairwise (name · < name ·)) :
    match Frontier.expand start i (next i) ⟨previous, queue⟩ with
    | .ok f' => Explored name next start f' (done ++ [i]) (steps next (done ++ [i]))
    | .error way => ∃ l, way = l ++ [start] ∧ FirstReturn name next start l := by
  have hpop : Explored name next start ⟨previous, queue⟩ (done ++ [i])
      (steps next done ++ [].map (i, ·)) := by
    rw [List.map_nil, List.append_nil]
    exact ⟨h.order_eq.trans (List.append_cons ..), h.walk, h.increasing, h.entry, h.arrived⟩
  exact hpop.expand rfl hsorted

-- ============================================================ searching

section

variable {previous : List (Fin n × Fin n)} {i : Fin n} {queue way : List (Fin n)}

theorem search_nil : Frontier.search next start ⟨previous, []⟩ = none := by
  rw [Frontier.search]

theorem search_of_error (h : Frontier.expand start i (next i) ⟨previous, queue⟩ = .error way) :
    Frontier.search next start ⟨previous, i :: queue⟩ = some way := by
  rw [Frontier.search]
  split <;> simp_all

theorem search_of_ok (h : Frontier.expand start i (next i) ⟨previous, queue⟩ = .ok f) :
    Frontier.search next start ⟨previous, i :: queue⟩ = f.search next start := by
  rw [Frontier.search]
  split <;> simp_all

end

/-- The search finds the first way back to the start, if there is one. -/
theorem Explored.search (hsorted : ∀ i, (next i).Pairwise (name · < name ·))
    (h : Explored name next start f done (steps next done)) :
    match f.search next start with
    | some way => ∃ l, way = l ++ [start] ∧ FirstReturn name next start l
    | none => ∀ l, ¬ Walk.Returns (fun i j => j ∈ next i) start l := by
  induction f using Frontier.search.induct next start generalizing done with
  | case1 previous =>
      rw [search_nil]
      intro l hl
      -- Every step from a place that was reached has been tried, so no bound is too high.
      have hle : rank name (l ++ [start] ++ [start]) ≤ rank name (l ++ [start]) := by
        refine h.le_of_returns (fun i hi j hj huntried => ?_) hl
        rw [h.order_eq, List.append_nil] at hi
        exact absurd (mem_steps.mpr ⟨hi, hj⟩) huntried
      exact hle.not_gt (rank_lt_of_length_lt (by simp))
  | case2 previous i queue way hway =>
      have hexpand := h.expand_next (hsorted i)
      rw [hway] at hexpand
      rw [search_of_error hway]
      exact hexpand
  | case3 previous i queue f' hf' _ ih =>
      have hexpand := h.expand_next (hsorted i)
      rw [hf'] at hexpand
      rw [search_of_ok hf']
      exact ih hexpand

end Frontier

/-- The way back that is found is the first of all, and if none is found there is
none. -/
theorem wayBack?_spec {next : Fin n → List (Fin n)}
    (hsorted : ∀ i, (next i).Pairwise (name · < name ·)) (start : Fin n) :
    match wayBack? next start with
    | some way => ∃ l, way = l ++ [start] ∧ FirstReturn name next start l
    | none => ∀ l, ¬ Walk.Returns (fun i j => j ∈ next i) start l :=
  Frontier.Explored.search hsorted Frontier.explored_ofStart

end ImportResolution.Places
