/-
What may happen to a locator between two calls: other calls, batches of records
to infer a graph from, questions for aliases, and changes of any kind to the files.
Each of these is made of three steps, a call, the loading of the compiler
configuration and a change of the files, so what these three keep is kept by
any run of events (`after_keeps`).

Answers are written once. That is the first thing kept: a slot that has an
answer has this answer for good (`remains_after`).
-/
import ImportResolution.Proofs.Dependency.Records
import ImportResolution.Proofs.Locator.History

namespace ImportResolution.Locator

variable {l : Locator} {kind : Memory → Prop}

-- ============================================================== events

/-- What may happen to a locator. -/
inductive Event where
  /-- A specifier is resolved. -/
  | call (c : Call)
  /-- The graph of some records is inferred. -/
  | infer (records : List ImportRecord)
  /-- Aliases are expanded. -/
  | expand (specifier : String)
  /-- Files are added, replaced or taken away. -/
  | files (change : FileStore → FileStore)

/-- The memory after an event. -/
def afterEvent (l : Locator) (m : Memory) : Event → Memory
  | .call c => (l.resolveCall c m).2
  | .infer records => (l.inferGraph records m).2
  | .expand specifier => (l.expandAliases specifier m).2
  | .files change => m.withStore (change m.store)

/-- The memory after some events, one after the other. -/
def after (l : Locator) (events : List Event) (m : Memory) : Memory :=
  events.foldl l.afterEvent m

-- ================================================================ runs

theorem keeps_edgesOf (hcall : ∀ c, Keeps kind (l.resolveCall c)) (records : List ImportRecord) :
    Keeps kind (l.edgesOf records) := by
  induction records with
  | nil => exact Keeps.pure _
  | cons r rest ih =>
      intro m hm
      -- a record makes one call, or none if its project is not known
      rw [edgesOf_cons, edgeOf?_run]
      cases l.callOf? r with
      | none => exact ih m hm
      | some c => exact ih _ (hcall c m hm)

/-- What a call, the loading of the configuration and a change of the files keep
is kept by an event. -/
theorem afterEvent_keeps (hcall : ∀ c, Keeps kind (l.resolveCall c))
    (hconfig : Keeps kind l.compilerConfig?) (hfiles : ∀ s m, kind m → kind (m.withStore s))
    {m : Memory} (h : kind m) (e : Event) : kind (l.afterEvent m e) := by
  cases e with
  | call c => exact hcall c m h
  | infer records => exact keeps_edgesOf hcall records m h
  | expand specifier => exact hconfig m h
  | files change => exact hfiles _ m h

theorem after_keeps (hcall : ∀ c, Keeps kind (l.resolveCall c))
    (hconfig : Keeps kind l.compilerConfig?) (hfiles : ∀ s m, kind m → kind (m.withStore s))
    (events : List Event) {m : Memory} (h : kind m) : kind (l.after events m) := by
  induction events generalizing m with
  | nil => exact h
  | cons e rest ih => exact ih (afterEvent_keeps hcall hconfig hfiles h e)

/-- Some history of calls has led to the memory. -/
def Reachable (l : Locator) (m : Memory) : Prop :=
  ∃ past, History l past m

/-- A locator that has come through some events has a history: batches of records
bring nothing that calls would not bring. -/
theorem reachable_after (l : Locator) (s : FileStore) (events : List Event) :
    Reachable l (l.after events (.ofStore s)) := by
  have hstart : Reachable l (.ofStore s) := ⟨[], .start s⟩
  refine after_keeps (fun c m h => ?_) (fun m h => ?_) (fun s' m h => ?_) events hstart
  · obtain ⟨past, h⟩ := h
    exact ⟨_, h.call c⟩
  · obtain ⟨past, h⟩ := h
    -- the configuration is asked for as if some aliases were expanded
    exact ⟨past, h.expand ""⟩
  · obtain ⟨past, h⟩ := h
    exact ⟨past, h.files s'⟩

-- ============================================================= answers

/-- Whatever slot had an answer still has it. -/
def Remains (earlier later : Memory) : Prop :=
  ∀ slot answer, earlier.answers.peek? slot = some answer →
    later.answers.peek? slot = some answer

theorem Remains.refl (m : Memory) : Remains m m :=
  fun _ _ h => h

theorem Remains.trans {m m' m'' : Memory} (h : Remains m m') (h' : Remains m' m'') :
    Remains m m'' :=
  fun slot answer hk => h' slot answer (h slot answer hk)

theorem Remains.congr {m m' m'' : Memory} (h : Remains m m') (ha : m''.answers = m'.answers) :
    Remains m m'' := by
  intro slot answer hk
  rw [ha]
  exact h slot answer hk

theorem keeps_remains_resolveCall (l : Locator) (m : Memory) (c : Call) :
    Keeps (Remains m) (l.resolveCall c) := by
  intro m' h slot answer hk
  rw [peek?_resolveCall, h slot answer hk, Option.some_or]

theorem remains_edgesOf (l : Locator) (records : List ImportRecord) (m : Memory) :
    Remains m (l.edgesOf records m).2 :=
  keeps_edgesOf (keeps_remains_resolveCall l m) records m (.refl m)

/-- Whatever happens, answers stay. -/
theorem remains_after (l : Locator) (events : List Event) (m : Memory) :
    Remains m (l.after events m) :=
  after_keeps (keeps_remains_resolveCall l m)
    (fun m' h => h.congr (compilerConfig?_answers l m')) (fun _ _ h => h) events (.refl m)

end ImportResolution.Locator
