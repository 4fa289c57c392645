/-
What can have happened to a locator. Calls come one after another, aliases are
expanded in between, and the files may change between any two of these
(`History`). Inside a call that is not answered from memory the strategies are
attempted in turn (`Attempts`): whatever an attempt keeps, as long as it is
attempted at all, holds when each strategy is attempted and at the end
(`Attempts.invariant`), and a node is answered because some attempt resolved
to it (`exists_attempt_of_some`).
-/
import ImportResolution.Proofs.Locator.Recall

namespace ImportResolution.Locator

variable {l : Locator}

-- ============================================================== history

/-- A call that was made, with all that was remembered when it was made. -/
structure Asked where
  call : Call
  memory : Memory

/-- The calls that were made, oldest first, have led to a memory. -/
inductive History (l : Locator) : List Asked → Memory → Prop where
  /-- The locator is new. -/
  | start (s : FileStore) : History l [] (.ofStore s)
  /-- A call is made. -/
  | call {past m} (h : History l past m) (c : Call) :
      History l (past ++ [⟨c, m⟩]) (l.resolveCall c m).2
  /-- Aliases are expanded. -/
  | expand {past m} (h : History l past m) (specifier : String) :
      History l past (l.expandAliases specifier m).2
  /-- The files change. -/
  | files {past m} (h : History l past m) (s : FileStore) : History l past (m.withStore s)

-- ============================================================= attempts

/-- In a run of strategies from one memory, a strategy is attempted on another:
those before it have nothing to say. -/
inductive Attempts (l : Locator) (specifier context file : String) :
    List Strategy → Memory → Strategy → Memory → Prop where
  | here {strategy rest m} : Attempts l specifier context file (strategy :: rest) m strategy m
  | later {strategy rest m next m'}
      (skipped : (l.attempt specifier context file strategy m).1 = .skipped)
      (attempts : Attempts l specifier context file rest
        (l.attempt specifier context file strategy m).2 next m') :
      Attempts l specifier context file (strategy :: rest) m next m'

variable {specifier context file : String} {strategies : List Strategy} {m : Memory}

/-- The first strategy decides, or else the others are tried. -/
theorem tryStrategies_cons (strategy : Strategy) (rest : List Strategy) (m : Memory) :
    l.tryStrategies specifier context file (strategy :: rest) m
      = match l.attempt specifier context file strategy m with
        | (.resolved id, m') => ((some id, .decided strategy), m')
        | (.rejected, m') => ((none, .decided strategy), m')
        | (.skipped, m') => l.tryStrategies specifier context file rest m' := by
  rw [tryStrategies, run_bind]
  cases l.attempt specifier context file strategy m with
  | mk attempt m' =>
      cases attempt with
      | resolved id => rfl
      | rejected => rfl
      | skipped => rfl

theorem tryStrategies_of_skipped {strategy : Strategy}
    (h : (l.attempt specifier context file strategy m).1 = .skipped) (rest : List Strategy) :
    l.tryStrategies specifier context file (strategy :: rest) m
      = l.tryStrategies specifier context file rest
          (l.attempt specifier context file strategy m).2 := by
  rw [tryStrategies, run_bind, h]

/-- A node is answered because an attempt resolved to it. -/
theorem exists_attempt_of_some {id : String}
    (h : (l.tryStrategies specifier context file strategies m).1.1 = some id) :
    ∃ strategy m', Attempts l specifier context file strategies m strategy m' ∧
      (l.attempt specifier context file strategy m').1 = .resolved id := by
  induction strategies generalizing m with
  | nil => cases h
  | cons strategy rest ih =>
      rw [tryStrategies_cons] at h
      cases hattempt : l.attempt specifier context file strategy m with
      | mk attempt m' =>
          rw [hattempt] at h
          cases attempt with
          | resolved id' =>
              obtain rfl := Option.some.inj h
              exact ⟨strategy, m, .here, by rw [hattempt]⟩
          | rejected => cases h
          | skipped =>
              obtain ⟨next, m'', hattempts, hresolved⟩ := ih h
              refine ⟨next, m'', .later (by rw [hattempt]) ?_, hresolved⟩
              rw [hattempt]
              exact hattempts

/-- What holds at the start and is kept by each attempt that is made holds at
every attempt and at the end. -/
theorem Attempts.invariant {kind : Memory → Prop}
    (hstep : ∀ strategy m', Attempts l specifier context file strategies m strategy m' →
      kind m' → kind (l.attempt specifier context file strategy m').2) (h : kind m) :
    (∀ strategy m', Attempts l specifier context file strategies m strategy m' → kind m') ∧
      kind (l.tryStrategies specifier context file strategies m).2 := by
  induction strategies generalizing m with
  | nil =>
      refine ⟨fun _ _ hattempts => ?_, h⟩
      cases hattempts
  | cons strategy rest ih =>
      have hnext := hstep strategy m .here h
      cases hattempt : l.attempt specifier context file strategy m with
      | mk attempt m' =>
          rw [hattempt] at hnext
          have hrest (hskipped : attempt = .skipped) := ih (m := m') (fun next m'' hattempts =>
            hstep next m'' (.later (by rw [hattempt, hskipped])
              (by rw [hattempt]; exact hattempts))) hnext
          constructor
          · intro next m'' hattempts
            cases hattempts with
            | here => exact h
            | later skipped attempts =>
                rw [hattempt] at skipped attempts
                exact (hrest skipped).1 next m'' attempts
          · rw [tryStrategies_cons, hattempt]
            cases attempt with
            | resolved id => exact hnext
            | rejected => exact hnext
            | skipped => exact (hrest rfl).2

/-- In a call that finds no answer in memory, a strategy is attempted. -/
def Call.Attempts (l : Locator) (a : Asked) (strategy : Strategy) (m : Memory) : Prop :=
  Locator.Attempts l a.call.specifier (WorkspacePath.normalize a.call.context)
    (WorkspacePath.ofGiven a.call.file) Strategy.order (a.memory.asked a.call) strategy m

end ImportResolution.Locator
