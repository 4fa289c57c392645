/-
Search among places that lead on to one another. `next` tells the successors of
each place, in the order in which they are tried.

There are two searches. One collects all places that a place leads to, and from
it come the components, the groups of places that lead to each other. The other
looks for the shortest way from a place back to it, breadth first, and remembers
of each place that it reaches which one it was reached from.
-/

namespace ImportResolution.Places

variable {n : Nat}

/-- How many places are not among some. -/
def missing (places : List (Fin n)) : Nat :=
  (List.finRange n).countP fun i => !places.contains i

theorem countP_lt_countP {α : Type} {p q : α → Bool} {l : List α} {a : α} (ha : a ∈ l)
    (hp : p a = true) (hq : q a = false) (h : ∀ b ∈ l, q b = true → p b = true) :
    l.countP q < l.countP p := by
  induction l with
  | nil => cases ha
  | cons b rest ih =>
      have hle : rest.countP q ≤ rest.countP p :=
        List.countP_mono_left fun c hc => h c (List.mem_cons_of_mem b hc)
      rcases List.mem_cons.mp ha with rfl | ha
      · rw [List.countP_cons_of_pos hp, List.countP_cons_of_neg (by rw [hq]; decide)]
        omega
      · have hlt := ih ha fun c hc => h c (List.mem_cons_of_mem b hc)
        have hb : (if q b then 1 else 0) ≤ if p b then 1 else 0 := by
          by_cases hqb : q b = true
          · simp only [hqb, h b List.mem_cons_self hqb, if_true, Nat.le_refl]
          · rw [if_neg hqb]
            exact Nat.zero_le _
        rw [List.countP_cons, List.countP_cons]
        exact Nat.add_lt_add_of_lt_of_le hlt hb

/-- With a place that was not among some, fewer are missing. -/
theorem missing_cons_lt {i : Fin n} {places : List (Fin n)} (h : i ∉ places) :
    missing (i :: places) < missing places := by
  refine countP_lt_countP (List.mem_finRange i) (by simpa using h) (by simp) fun j _ hj => ?_
  simp only [Bool.not_eq_true', List.contains_eq_mem, List.mem_cons, decide_eq_false_iff_not,
    not_or] at hj ⊢
  exact hj.2

-- =========================================================== components

/-- The places collected so far with all that those to do lead to. Only a place that
was not collected before leads on. -/
def collect (next : Fin n → List (Fin n)) (collected : List (Fin n)) :
    List (Fin n) → List (Fin n)
  | [] => collected
  | i :: todo =>
    if i ∈ collected then collect next collected todo
    else collect next (i :: collected) (next i ++ todo)
termination_by todo => (missing collected, todo.length)
decreasing_by
  · exact Prod.Lex.right _ (Nat.lt_succ_self _)
  · next h => exact Prod.Lex.left _ _ (missing_cons_lt h)

/-- The places that a place leads to, itself included. -/
def reached (next : Fin n → List (Fin n)) (i : Fin n) : List (Fin n) :=
  collect next [] [i]

/-- Whether two places lead to each other, if it was collected for each place what it
leads to. -/
def joined (collections : Vector (List (Fin n)) n) (i j : Fin n) : Bool :=
  collections[i].contains j && collections[j].contains i

/-- The groups of places that lead to each other, each found at its first place. -/
def components (next : Fin n → List (Fin n)) : List (List (Fin n)) :=
  let joined := joined (Vector.ofFn (reached next))
  let firsts := (List.finRange n).filter fun i =>
    (List.finRange n).all fun j => i ≤ j || !joined i j
  firsts.map fun i => (List.finRange n).filter (joined i)

-- ======================================================== breadth first

/-- What a search has come to. -/
structure Frontier (n : Nat) where
  /-- The places that were reached, the latest first, each with the one that it was
  reached from. -/
  previous : List (Fin n × Fin n)
  /-- The places whose successors are still to be tried, in turn. -/
  queue : List (Fin n)

/-- The way to a place. The one that it was reached from was itself reached before. -/
def wayTo (i : Fin n) : List (Fin n × Fin n) → List (Fin n)
  | [] => [i]
  | (j, before) :: earlier => if j = i then wayTo before earlier ++ [i] else wayTo i earlier

theorem lookup_eq_none_iff {i : Fin n} {previous : List (Fin n × Fin n)} :
    previous.lookup i = none ↔ i ∉ previous.map Prod.fst := by
  simp only [List.lookup_eq_none_iff, bne_iff_ne, List.mem_map, not_exists, not_and]
  exact forall_congr' fun e => imp_congr_right fun _ => ne_comm

namespace Frontier

/-- The search when nothing was reached yet. -/
def ofStart (start : Fin n) : Frontier n := ⟨[], [start]⟩

/-- A successor of a place is reached, unless it was before. -/
def reach (f : Frontier n) (i next : Fin n) : Frontier n :=
  match f.previous.lookup next with
  | some _ => f
  | none => ⟨(next, i) :: f.previous, f.queue ++ [next]⟩

/-- How much there still is to try: the places that may be reached, and those in the
queue. -/
def remaining (f : Frontier n) : Nat :=
  missing (f.previous.map Prod.fst) + f.queue.length

theorem remaining_reach_le (f : Frontier n) (i next : Fin n) :
    (f.reach i next).remaining ≤ f.remaining := by
  unfold reach
  split
  · exact Nat.le_refl _
  · next h =>
    have hlt := missing_cons_lt (lookup_eq_none_iff.mp h)
    simp only [remaining, List.map_cons, List.length_append, List.length_singleton]
    omega

/-- The successors of a place in turn: one that is the start closes a way, any other
is reached. -/
def expand (start i : Fin n) : List (Fin n) → Frontier n → Except (List (Fin n)) (Frontier n)
  | [], f => .ok f
  | next :: rest, f =>
    if next = start then .error (wayTo i f.previous ++ [start])
    else expand start i rest (f.reach i next)

theorem remaining_expand_le {start i : Fin n} {rest : List (Fin n)} {f f' : Frontier n}
    (h : expand start i rest f = .ok f') : f'.remaining ≤ f.remaining := by
  induction rest generalizing f with
  | nil =>
      cases h
      exact Nat.le_refl _
  | cons next rest ih =>
      unfold expand at h
      split at h
      · cases h
      · exact Nat.le_trans (ih h) (f.remaining_reach_le i next)

/-- The first way back to the start, from the places in the queue on. -/
def search (next : Fin n → List (Fin n)) (start : Fin n) : Frontier n → Option (List (Fin n))
  | ⟨_, []⟩ => none
  | ⟨previous, i :: queue⟩ =>
    match he : expand start i (next i) ⟨previous, queue⟩ with
    | .error way => some way
    | .ok f =>
      have := remaining_expand_le he
      search next start f
termination_by f => f.remaining
decreasing_by
  simp only [remaining, List.length_cons] at this ⊢
  omega

end Frontier

/-- The first way from a place back to it, breadth first. -/
def wayBack? (next : Fin n → List (Fin n)) (start : Fin n) : Option (List (Fin n)) :=
  (Frontier.ofStart start).search next start

end ImportResolution.Places
