/-
What a locator answers when it is asked one thing after another. Calls with
one key and one context share a slot of its memory, and all of them get what
the first of them came to.

# The invariant

`Recalls` says what the memory is after some calls: everything besides the
answers is what the files say (`Memory.Over`), and the answer in a slot is what
a new locator would have answered to the first of the calls of that slot. A
call keeps it (`recalls_resolve`), and so does a run of calls. The answers of a
run can then be read off the calls (`recalls_resolveAll`), and calls of other
slots have no part in them.
-/
import ImportResolution.Proofs.Locator.Transparency

namespace ImportResolution.Locator

variable {l : Locator} {s : FileStore}

-- =============================================================== calls

/-- One question to a locator: a specifier in a file of the project at a
context, as given. -/
structure Call where
  specifier : String
  context : String
  file : String
deriving DecidableEq, Repr

namespace Call

/-- What the answer to a call is remembered under. -/
def slot (c : Call) : String × String :=
  (memoryKey c.specifier (WorkspacePath.ofGiven c.file), WorkspacePath.normalize c.context)

/-- The first of some calls that has a slot. -/
def first? (slot : String × String) (calls : List Call) : Option Call :=
  calls.find? (·.slot == slot)

end Call

/-- The answer to a call. -/
def resolveCall (l : Locator) (c : Call) : Step Resolution :=
  l.resolve c.specifier c.context c.file

/-- The answers to some calls, one after the other. -/
def resolveAll (l : Locator) : List Call → Step (List Resolution)
  | [] => return []
  | c :: rest => do
    let answer ← l.resolveCall c
    let answers ← l.resolveAll rest
    return answer :: answers

/-- The answer of a locator that remembers nothing. -/
def freshAnswer (l : Locator) (s : FileStore) (c : Call) : Option String :=
  (l.resolveCall c (.ofStore s)).1.result

-- ================================================================ runs

/-- The outcome of the strategies for a call. -/
def outcome (l : Locator) (c : Call) : Step (Option String × Source) :=
  l.tryStrategies c.specifier (WorkspacePath.normalize c.context) (WorkspacePath.ofGiven c.file)
    Strategy.order

/-- The memory once the answer to a call was looked for in it. -/
def Memory.asked (m : Memory) (c : Call) : Memory :=
  { m with answers := (m.answers.get? c.slot).2 }

/-- A call whose slot has an answer is answered from memory. -/
theorem resolveCall_of_known {m : Memory} {c : Call} {answer : Option String}
    (h : m.answers.peek? c.slot = some answer) :
    l.resolveCall c m = (⟨answer, .cache⟩, m.asked c) := by
  have hget := m.answers.get?_fst c.slot
  rw [h] at hget
  unfold Call.slot at hget
  simp only [resolveCall, resolve, run_bind, run_get, run_modify, hget]
  rfl

/-- A call whose slot has no answer is put to the strategies. -/
theorem resolveCall_of_unknown_run {m : Memory} {c : Call}
    (h : m.answers.peek? c.slot = none) :
    l.resolveCall c m
      = let tried := l.outcome c (m.asked c)
        let kept := tried.2.answers.insert c.slot tried.1.1
        (⟨kept.1, tried.1.2⟩, { tried.2 with answers := kept.2 }) := by
  have hget := m.answers.get?_fst c.slot
  rw [h] at hget
  unfold Call.slot at hget
  simp only [resolveCall, resolve, run_bind, run_get, run_modify, hget]
  rfl

/-- The strategies for a call leave the answers as they are. -/
theorem peek?_outcome (l : Locator) (c : Call) (m : Memory) (slot : String × String) :
    (l.outcome c (m.asked c)).2.answers.peek? slot = m.answers.peek? slot := by
  rw [outcome, tryStrategies_answers]
  exact Memo.peek?_get? m.answers c.slot slot

/-- A call whose slot has no answer is answered what the strategies come to. -/
theorem resolveCall_fst_of_unknown {m : Memory} {c : Call}
    (h : m.answers.peek? c.slot = none) :
    (l.resolveCall c m).1
      = ⟨(l.outcome c (m.asked c)).1.1, (l.outcome c (m.asked c)).1.2⟩ := by
  have hnone := (peek?_outcome l c m c.slot).trans h
  rw [resolveCall_of_unknown_run h]
  simp only [Memo.insert_fst_of_none hnone]

/-- What the strategies come to is kept for the slot of the call and for no
other. -/
theorem resolveCall_of_unknown {m : Memory} {c : Call} (h : m.answers.peek? c.slot = none) :
    (l.resolveCall c m).1.result = (l.outcome c (m.asked c)).1.1 ∧
      ∃ answers, (l.resolveCall c m).2 = { (l.outcome c (m.asked c)).2 with answers } ∧
        ∀ slot, answers.peek? slot = (m.answers.peek? slot).or
          (if slot = c.slot then some (l.outcome c (m.asked c)).1.1 else none) := by
  refine ⟨congrArg (·.result) (resolveCall_fst_of_unknown h), ?_⟩
  rw [resolveCall_of_unknown_run h]
  refine ⟨_, rfl, fun slot => ?_⟩
  rw [Memo.peek?_insert, peek?_outcome]

/-- Whatever a call finds in memory, its slot has its answer afterwards, and the
other slots are as before. -/
theorem peek?_resolveCall (l : Locator) (c : Call) (m : Memory) (slot : String × String) :
    (l.resolveCall c m).2.answers.peek? slot = (m.answers.peek? slot).or
      (if slot = c.slot then some (l.resolveCall c m).1.result else none) := by
  cases hk : m.answers.peek? c.slot with
  | some answer =>
      rw [resolveCall_of_known hk]
      show (m.answers.get? c.slot).2.peek? slot = _
      rw [Memo.peek?_get?]
      by_cases hslot : slot = c.slot
      · rw [hslot, hk, Option.some_or]
      · rw [if_neg hslot, Option.or_none]
  | none =>
      obtain ⟨hresult, answers, hmemory, hanswers⟩ := resolveCall_of_unknown (l := l) hk
      rw [hresult, hmemory]
      exact hanswers slot

/-- The slot of a call has the answer that was given. -/
theorem peek?_resolveCall_self (l : Locator) (c : Call) (m : Memory) :
    (l.resolveCall c m).2.answers.peek? c.slot = some (l.resolveCall c m).1.result := by
  rw [peek?_resolveCall, if_pos rfl]
  cases hk : m.answers.peek? c.slot with
  | some answer =>
      rw [resolveCall_of_known hk]
      rfl
  | none => rw [Option.none_or]

-- ====================================================== what is recalled

section Functional

variable (hl : l.collaborators.Functional)

include hl

/-- Over the files a call whose slot has no answer gets what the strategies come
to there. -/
theorem outcome_of_over {m : Memory} (hm : Memory.Over l s m) (c : Call) :
    (l.outcome c (m.asked c)).1.1 = l.outcomeAt s c.specifier
        (WorkspacePath.normalize c.context) (WorkspacePath.ofGiven c.file) ∧
      Memory.Over l s (l.outcome c (m.asked c)).2 := by
  have hasked : Memory.Over l s (m.asked c) := hm.congr rfl rfl
  exact tryStrategies_of_over hl hasked ..

/-- A locator that remembers nothing answers what the strategies come to. -/
theorem freshAnswer_eq (s : FileStore) (c : Call) :
    l.freshAnswer s c = l.outcomeAt s c.specifier (WorkspacePath.normalize c.context)
      (WorkspacePath.ofGiven c.file) :=
  (resolveCall_of_unknown rfl).1.trans (outcome_of_over hl (over_ofStore l s) c).1

end Functional

/-- After some calls all that is remembered is what the files say, and each
slot has what a new locator would answer to the first of its calls. -/
structure Recalls (l : Locator) (s : FileStore) (past : List Call) (m : Memory) : Prop where
  shared : Memory.Over l s m
  answers : ∀ slot, m.answers.peek? slot = (Call.first? slot past).map (l.freshAnswer s)

theorem recalls_ofStore (l : Locator) (s : FileStore) : Recalls l s [] (.ofStore s) :=
  ⟨over_ofStore l s, fun _ => rfl⟩

namespace Call

/-- The call that decides the answer to a call after some others: the first of
its slot. -/
def leader (past : List Call) (c : Call) : Call :=
  (first? c.slot past).getD c

theorem first?_append (slot : String × String) (past rest : List Call) :
    first? slot (past ++ rest) = (first? slot past).or (first? slot rest) :=
  List.find?_append

theorem first?_cons_self (c : Call) (rest : List Call) : first? c.slot (c :: rest) = some c := by
  simp [first?]

/-- A call has a first one of its slot as soon as it is made. -/
theorem first?_append_cons (past rest : List Call) (c : Call) :
    first? c.slot (past ++ c :: rest) = some (leader past c) := by
  rw [first?_append, first?_cons_self, leader]
  cases first? c.slot past <;> rfl

/-- Later calls do not change who decides. -/
theorem leader_append_cons (past rest : List Call) (c : Call) :
    leader (past ++ c :: rest) c = leader past c := by
  rw [leader, first?_append_cons, Option.getD_some]

end Call

/-- A call gets the answer to the first call of its slot, and its own call
joins those that are recalled. -/
theorem recalls_resolve (hl : l.collaborators.Functional) {past : List Call} {m : Memory}
    (h : Recalls l s past m) (c : Call) :
    (l.resolveCall c m).1.result = l.freshAnswer s (c.leader past) ∧
      Recalls l s (past ++ [c]) (l.resolveCall c m).2 := by
  have hanswer : (l.resolveCall c m).1.result = l.freshAnswer s (c.leader past) ∧
      Memory.Over l s (l.resolveCall c m).2 := by
    have hslot := h.answers c.slot
    cases hfirst : Call.first? c.slot past with
    | some first =>
        rw [hfirst, Option.map_some] at hslot
        rw [resolveCall_of_known hslot, Call.leader, hfirst, Option.getD_some]
        exact ⟨rfl, h.shared.congr rfl rfl⟩
    | none =>
        rw [hfirst, Option.map_none] at hslot
        obtain ⟨hresult, answers, hmemory, -⟩ := resolveCall_of_unknown (l := l) hslot
        obtain ⟨houtcome, hover⟩ := outcome_of_over hl h.shared c
        rw [hresult, hmemory, houtcome, ← freshAnswer_eq hl, Call.leader, hfirst,
          Option.getD_none]
        exact ⟨rfl, hover.congr rfl rfl⟩
  refine ⟨hanswer.1, hanswer.2, fun slot => ?_⟩
  rw [peek?_resolveCall, hanswer.1, h.answers, Call.first?_append]
  by_cases hslot : slot = c.slot
  · rw [hslot, if_pos rfl, Call.first?_cons_self, Call.leader]
    cases Call.first? c.slot past <;> rfl
  · have hnone : Call.first? slot [c] = none := by
      simp [Call.first?, Ne.symm hslot]
    rw [if_neg hslot, hnone, Option.or_none, Option.or_none]

/-- In a run of calls each gets the answer to the first call of its slot. -/
theorem recalls_resolveAll (hl : l.collaborators.Functional) {past : List Call} {m : Memory}
    (h : Recalls l s past m) (calls : List Call) :
    (l.resolveAll calls m).1.map (·.result)
        = calls.map (fun c => l.freshAnswer s (c.leader (past ++ calls))) ∧
      Recalls l s (past ++ calls) (l.resolveAll calls m).2 := by
  induction calls generalizing past m with
  | nil =>
      rw [List.append_nil]
      exact ⟨rfl, h⟩
  | cons c rest ih =>
      obtain ⟨hc, hnext⟩ := recalls_resolve hl h c
      obtain ⟨hrest, hlast⟩ := ih hnext
      rw [List.append_assoc, List.singleton_append] at hrest hlast
      refine ⟨?_, hlast⟩
      show (l.resolveCall c m).1.result :: ((l.resolveAll rest (l.resolveCall c m).2).1.map _) = _
      rw [hrest, hc, List.map_cons, Call.leader_append_cons]

-- ======================================================= runs of calls

/-- What a locator that starts with nothing answers to one call among others. -/
def answerAt (l : Locator) (s : FileStore) (calls : List Call) (i : Nat) :
    Option (Option String) :=
  ((l.resolveAll calls (.ofStore s)).1[i]?).map (·.result)

theorem answerAt_eq (hl : l.collaborators.Functional) (s : FileStore) {calls : List Call}
    {i : Nat} {c : Call} (hc : calls[i]? = some c) :
    l.answerAt s calls i = some (l.freshAnswer s (c.leader calls)) := by
  have hrun := (recalls_resolveAll hl (recalls_ofStore l s) calls).1
  rw [answerAt, ← List.getElem?_map, hrun, List.getElem?_map, hc, Option.map_some,
    List.nil_append]

/-- The first call of a slot is told by the calls of that slot. -/
theorem Call.first?_eq_head? (slot : String × String) (calls : List Call) :
    first? slot calls = (calls.filter (·.slot == slot)).head? :=
  List.head?_filter.symm

/-- Whatever is asked before, a call among others gets exactly the answer that
a new locator gives to the first of the calls that share its key and context;
so calls of other keys or contexts can be added, dropped or reordered without
changing it. -/
theorem answerAt_eq_first (hl : l.collaborators.Functional) (s : FileStore)
    {calls : List Call} {i : Nat} {c : Call} (hc : calls[i]? = some c) :
    (∃ first, Call.first? c.slot calls = some first ∧
      l.answerAt s calls i = some (l.freshAnswer s first)) ∧
    ∀ (others : List Call) (j : Nat), others[j]? = some c →
      others.filter (·.slot == c.slot) = calls.filter (·.slot == c.slot) →
      l.answerAt s others j = l.answerAt s calls i := by
  constructor
  · cases hfirst : Call.first? c.slot calls with
    | none =>
        have hne := List.find?_eq_none.mp hfirst c (List.mem_of_getElem? hc)
        simp at hne
    | some first =>
        refine ⟨first, rfl, ?_⟩
        rw [answerAt_eq hl s hc, Call.leader, hfirst, Option.getD_some]
  · intro others j hj hsame
    have hleader : c.leader others = c.leader calls := by
      rw [Call.leader, Call.leader, Call.first?_eq_head?, Call.first?_eq_head?, hsame]
    rw [answerAt_eq hl s hj, answerAt_eq hl s hc, hleader]

/-- The usual locator of a workspace, asked for one package from two files of
one project: the second call is answered like the first. -/
theorem answerAt_second :
    let l := ofGraph "/ws" .standard ⟨[], []⟩
    let calls : List Call := [⟨"dep", "app", "app/a/x.ts"⟩, ⟨"dep", "app", "app/b/y.ts"⟩]
    l.collaborators.Functional ∧
      ((∃ first, Call.first? (⟨"dep", "app", "app/b/y.ts"⟩ : Call).slot calls = some first ∧
        l.answerAt .empty calls 1 = some (l.freshAnswer .empty first)) ∧
      ∀ (others : List Call) (j : Nat), others[j]? = some ⟨"dep", "app", "app/b/y.ts"⟩ →
        others.filter (·.slot == (⟨"dep", "app", "app/b/y.ts"⟩ : Call).slot)
          = calls.filter (·.slot == (⟨"dep", "app", "app/b/y.ts"⟩ : Call).slot) →
        l.answerAt .empty others j = l.answerAt .empty calls 1) :=
  ⟨Collaborators.functional_standard _ _,
    answerAt_eq_first (Collaborators.functional_standard _ _) .empty rfl⟩

end ImportResolution.Locator
