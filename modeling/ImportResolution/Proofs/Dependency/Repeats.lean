/-
Asking again. A call whose slot has an answer looks the answer up and does
nothing else, and an answer stays whatever happens (`remains_after`). So the
second of two equal calls gets the answer of the first, however long ago that
was and whatever has become of the files, and no more is left of it than one
hit in the count (`resolveCall_of_remains`). A batch of records that is run
again makes the calls of the first run, and each of them is answered in this
way: the graph is the same (`edgesOf_of_remains`).

That no helper is at work when a question is asked again is said twice: nothing
that a helper could change has changed, its counter included, and the outcome
is the same with any other helpers in its place (`withHelpers`).
-/
import ImportResolution.Proofs.Locator.Events

namespace ImportResolution.Locator

variable {l : Locator}

-- ============================================================ one call

/-- The memory with some more answers found in it. -/
def Memory.hit (m : Memory) (times : Nat) : Memory :=
  { m with answers.hits := m.answers.hits + times }

@[simp] theorem Memory.hit_zero (m : Memory) : m.hit 0 = m :=
  rfl

theorem Memory.hit_hit (m : Memory) (a b : Nat) : (m.hit a).hit b = m.hit (a + b) := by
  unfold Memory.hit
  rw [Nat.add_assoc]

theorem asked_of_known {m : Memory} {c : Call} {answer : Option String}
    (h : m.answers.peek? c.slot = some answer) : m.asked c = m.hit 1 := by
  unfold Memory.asked Memo.get?
  rw [h]
  rfl

/-- As long as answers stay, a call that is made again is answered as before, and
it leaves nothing but a hit. -/
theorem resolveCall_of_remains (helpers : Collaborators) {c : Call} {m later : Memory}
    (h : Remains (l.resolveCall c m).2 later) :
    (l.withHelpers helpers).resolveCall c later
      = (⟨(l.resolveCall c m).1.result, .cache⟩, later.hit 1) := by
  have hk := h c.slot _ (peek?_resolveCall_self l c m)
  rw [resolveCall_of_known hk, asked_of_known hk]

-- ============================================================== batches

/-- As long as answers stay, records that are taken again lead to the same edges,
and they leave a hit for each call. -/
theorem edgesOf_of_remains (helpers : Collaborators) (records : List ImportRecord)
    {m later : Memory} (h : Remains (l.edgesOf records m).2 later) :
    (l.withHelpers helpers).edgesOf records later
      = ((l.edgesOf records m).1, later.hit (l.callsOf records).length) := by
  induction records generalizing m later with
  | nil => rfl
  | cons r rest ih =>
      have hcallOf : (l.withHelpers helpers).callOf? r = l.callOf? r := rfl
      rw [edgesOf_cons, edgeOf?_run] at h
      rw [edgesOf_cons, edgesOf_cons, edgeOf?_run, edgeOf?_run, hcallOf]
      cases hc : l.callOf? r with
      | none =>
          have hcalls : l.callsOf (r :: rest) = l.callsOf rest := List.filterMap_cons_none hc
          rw [hc] at h
          rw [hcalls]
          simp only [ih h]
      | some c =>
          have hcalls : l.callsOf (r :: rest) = c :: l.callsOf rest := List.filterMap_cons_some hc
          rw [hc] at h
          -- the call of `r` is answered by what its first run has left
          have hagain := resolveCall_of_remains helpers
            ((remains_edgesOf l rest (l.resolveCall c m).2).trans h)
          have hnext : Remains (l.edgesOf rest (l.resolveCall c m).2).2 (later.hit 1) := h
          have hrest := ih hnext
          rw [Memory.hit_hit, Nat.add_comm] at hrest
          simp only [hagain, hrest, hcalls, List.length_cons]

/-- What was asked once is answered from memory for good. Whatever happens after
a call, the same call gets the answer that it got, a missing one included; no
helper is asked, no file is read, and nothing changes but the count of answers
found. The same records give the same graph, at the price of one hit for each
call that they make. -/
theorem asked_again (l : Locator) (m : Memory) (events : List Event) (helpers : Collaborators) :
    (∀ c : Call,
      let later := l.after events (l.resolveCall c m).2
      (l.withHelpers helpers).resolveCall c later
        = (⟨(l.resolveCall c m).1.result, .cache⟩, later.hit 1)) ∧
    ∀ records : List ImportRecord,
      let later := l.after events (l.inferGraph records m).2
      (l.withHelpers helpers).inferGraph records later
        = ((l.inferGraph records m).1, later.hit (l.callsOf records).length) := by
  constructor
  · intro c later
    exact resolveCall_of_remains helpers (remains_after l events _)
  · intro records later
    have hremains : Remains (l.edgesOf records m).2 later := remains_after l events _
    have hagain := edgesOf_of_remains helpers records hremains
    have hrun : (l.withHelpers helpers).inferGraph records later
        = (l.graphOf ((l.withHelpers helpers).edgesOf records later).1,
            ((l.withHelpers helpers).edgesOf records later).2) := rfl
    rw [hrun, hagain]
    rfl

end ImportResolution.Locator
