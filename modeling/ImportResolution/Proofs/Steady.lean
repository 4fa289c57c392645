/-
Steady work: work on a state that gives the same answer on every state of
some kind and never leaves the kind. What is remembered along the way may
differ from state to state; the kind says that all of it is true, and then
it cannot be told from the answer how much was remembered.

# How it is used

Each layer has its own kind: stores with the same files, files with
descriptors that were read from them, memories of a locator that hold what
the files say. A layer's work is steady for its kind because it is put
together from steady work (`Steady.bind`) and from memos that hold the
values of a function (`Memo.Holds`).
-/
import ImportResolution.Memo

namespace ImportResolution

variable {σ α β : Type}

-- ================================================================ runs

@[simp] theorem run_pure (a : α) (s : σ) : (pure a : StateM σ α) s = (a, s) :=
  rfl

@[simp] theorem run_bind (work : StateM σ α) (next : α → StateM σ β) (s : σ) :
    (work >>= next) s = next (work s).1 (work s).2 :=
  rfl

/-- Work that may fail, after work that has not failed. -/
theorem run_bind_of_ok {ε : Type} {work : ExceptT ε (StateM σ) α}
    {next : α → ExceptT ε (StateM σ) β} {s s' : σ} {a : α} (h : work s = (.ok a, s')) :
    (work >>= next) s = next a s' := by
  show ExceptT.bindCont next (work s).1 (work s).2 = next a s'
  rw [h]
  rfl

@[simp] theorem run_get (s : σ) : (get : StateM σ σ) s = (s, s) :=
  rfl

@[simp] theorem run_modify (change : σ → σ) (s : σ) :
    (modify change : StateM σ PUnit) s = (⟨⟩, change s) :=
  rfl

-- ======================================================= steady work

/-- On every state of the kind the work answers `a`, and it leaves a state
of the kind. -/
def Answers (kind : σ → Prop) (work : StateM σ α) (a : α) : Prop :=
  ∀ s, kind s → (work s).1 = a ∧ kind (work s).2

/-- The work has one answer for all states of the kind. -/
def Steady (kind : σ → Prop) (work : StateM σ α) : Prop :=
  ∃ a, Answers kind work a

variable {kind : σ → Prop}

theorem Answers.steady {work : StateM σ α} {a : α} (h : Answers kind work a) :
    Steady kind work :=
  ⟨a, h⟩

theorem Answers.pure (a : α) : Answers kind (pure a) a :=
  fun _ hs => ⟨rfl, hs⟩

/-- Work that only looks at the state, and sees the same in all states of
the kind. -/
theorem Answers.ofRead {f : σ → α} {a : α} (h : ∀ s, kind s → f s = a) :
    Answers kind (fun s => (f s, s)) a :=
  fun s hs => ⟨h s hs, hs⟩

theorem Answers.bind {work : StateM σ α} {next : α → StateM σ β} {a : α} {b : β}
    (hw : Answers kind work a) (hn : Answers kind (next a) b) :
    Answers kind (work >>= next) b := by
  intro s hs
  obtain ⟨ha, hs'⟩ := hw s hs
  obtain ⟨hb, hs''⟩ := hn (work s).2 hs'
  constructor
  · show (next (work s).1 (work s).2).1 = b
    rw [ha]
    exact hb
  · show kind (next (work s).1 (work s).2).2
    rw [ha]
    exact hs''

theorem Steady.pure (a : α) : Steady kind (pure a) :=
  (Answers.pure a).steady

theorem Steady.bind {work : StateM σ α} {next : α → StateM σ β}
    (hw : Steady kind work) (hn : ∀ a, Steady kind (next a)) :
    Steady kind (work >>= next) := by
  obtain ⟨a, ha⟩ := hw
  obtain ⟨b, hb⟩ := hn a
  exact ⟨b, ha.bind hb⟩

/-- Steady work is steady whatever is made of its answer. -/
theorem Steady.map {work : StateM σ α} (h : Steady kind work) (f : α → β) :
    Steady kind (fun s => (f (work s).1, (work s).2)) :=
  h.bind fun a => Steady.pure (f a)

/-- Steady work that may fail, one after the other. -/
theorem Steady.bindExcept {ε : Type} {work : ExceptT ε (StateM σ) α}
    {next : α → ExceptT ε (StateM σ) β} (hw : Steady kind work.run)
    (hn : ∀ a, Steady kind (next a).run) : Steady kind (work >>= next).run := by
  show Steady kind (work.run >>= ExceptT.bindCont next)
  refine Steady.bind hw fun answer => ?_
  cases answer with
  | error fault => exact Steady.pure _
  | ok a => exact hn a

/-- Two states of the kind cannot be told apart by steady work. -/
theorem Steady.answer_eq {work : StateM σ α} (h : Steady kind work) {s t : σ}
    (hs : kind s) (ht : kind t) : (work s).1 = (work t).1 := by
  obtain ⟨a, ha⟩ := h
  rw [(ha s hs).1, (ha t ht).1]

/-- Steady work stays within the kind. -/
theorem Steady.keeps {work : StateM σ α} (h : Steady kind work) {s : σ} (hs : kind s) :
    kind (work s).2 := by
  obtain ⟨a, ha⟩ := h
  exact (ha s hs).2

/-- Steady work answers what it answers on any one state of the kind. -/
theorem Steady.answers {work : StateM σ α} (h : Steady kind work) {s : σ} (hs : kind s) :
    Answers kind work (work s).1 :=
  fun _ ht => ⟨h.answer_eq ht hs, h.keeps ht⟩

-- ============================================== work that has one answer

/-- Two pieces of work have one answer: the first on all states of one kind, the
second on all states of another. -/
def Agree {σ' : Type} (kind : σ → Prop) (kind' : σ' → Prop) (work : StateM σ α)
    (work' : StateM σ' α) : Prop :=
  ∃ a, Answers kind work a ∧ Answers kind' work' a

section Agree

variable {σ' : Type} {kind' : σ' → Prop} {work : StateM σ α} {work' : StateM σ' α}

theorem Agree.pure (a : α) : Agree kind kind' (pure a) (pure a) :=
  ⟨a, Answers.pure a, Answers.pure a⟩

theorem Agree.bind {next : α → StateM σ β} {next' : α → StateM σ' β}
    (hw : Agree kind kind' work work') (hn : ∀ a, Agree kind kind' (next a) (next' a)) :
    Agree kind kind' (work >>= next) (work' >>= next') := by
  obtain ⟨a, ha, ha'⟩ := hw
  obtain ⟨b, hb, hb'⟩ := hn a
  exact ⟨b, ha.bind hb, ha'.bind hb'⟩

theorem Agree.answer_eq (h : Agree kind kind' work work') {s : σ} {t : σ'} (hs : kind s)
    (ht : kind' t) : (work s).1 = (work' t).1 := by
  obtain ⟨a, ha, ha'⟩ := h
  rw [(ha s hs).1, (ha' t ht).1]

theorem Agree.keeps (h : Agree kind kind' work work') {s : σ} {t : σ'} (hs : kind s)
    (ht : kind' t) : kind (work s).2 ∧ kind' (work' t).2 := by
  obtain ⟨a, ha, ha'⟩ := h
  exact ⟨(ha s hs).2, (ha' t ht).2⟩

end Agree

theorem Steady.agree {work : StateM σ α} (h : Steady kind work) : Agree kind kind work work := by
  obtain ⟨a, ha⟩ := h
  exact ⟨a, ha, ha⟩

-- ================================================ work that keeps a kind

/-- From a state of the kind the work leaves one of the kind; its answer may be
anything. -/
def Keeps (kind : σ → Prop) (work : StateM σ α) : Prop :=
  ∀ s, kind s → kind (work s).2

theorem Keeps.pure (a : α) : Keeps kind (pure a) :=
  fun _ hs => hs

theorem Keeps.bind {work : StateM σ α} {next : α → StateM σ β} (hw : Keeps kind work)
    (hn : ∀ a, Keeps kind (next a)) : Keeps kind (work >>= next) :=
  fun s hs => hn (work s).1 (work s).2 (hw s hs)

-- ================================================ memos of a function

namespace Memo

variable {κ α : Type} [DecidableEq κ]

/-- Every answer in the memo is the value of `f` for its key. -/
def Holds (m : Memo κ α) (f : κ → α) : Prop :=
  ∀ key answer, m.peek? key = some answer → answer = f key

theorem holds_empty (f : κ → α) : (Memo.empty : Memo κ α).Holds f := by
  intro key answer h
  cases h

/-- A look-up answers what is in memory. -/
theorem get?_fst (m : Memo κ α) (key : κ) : (m.get? key).1 = m.peek? key := by
  unfold Memo.get?
  cases m.peek? key <;> rfl

theorem Holds.get? {m : Memo κ α} {f : κ → α} (h : m.Holds f) (key : κ) :
    (m.get? key).2.Holds f := by
  intro k answer hk
  rw [peek?_get?] at hk
  exact h k answer hk

/-- An insertion that meets no earlier answer keeps the one that it brings. -/
theorem insert_fst_of_none {m : Memo κ α} {key : κ} (h : m.peek? key = none) (answer : α) :
    (m.insert key answer).1 = answer := by
  unfold Memo.insert
  rw [h]

/-- What is kept was there before, or it is new where there was nothing. -/
theorem kept_or_new {c : Prop} [Decidable c] {earlier : Option α} {new answer : α}
    (h : earlier.or (if c then some new else none) = some answer) :
    earlier = some answer ∨ earlier = none ∧ c ∧ new = answer := by
  cases earlier with
  | some first =>
      rw [Option.some_or] at h
      exact Or.inl h
  | none =>
      rw [Option.none_or] at h
      split at h
      · next hc => exact Or.inr ⟨rfl, hc, Option.some.inj h⟩
      · cases h

/-- Inserting a value of the function keeps the memo true, and answers the
value whether or not it was there. -/
theorem Holds.insert {m : Memo κ α} {f : κ → α} (h : m.Holds f) (key : κ) :
    (m.insert key (f key)).1 = f key ∧ (m.insert key (f key)).2.Holds f := by
  constructor
  · unfold Memo.insert
    cases hp : m.peek? key with
    | none => rfl
    | some first => exact h key first hp
  · intro k answer hk
    rw [peek?_insert] at hk
    rcases kept_or_new hk with hearlier | ⟨-, rfl, rfl⟩
    · exact h k answer hearlier
    · rfl

end Memo

end ImportResolution
