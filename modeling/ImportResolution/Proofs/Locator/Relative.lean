/-
Relative specifiers. They are remembered under the path that they lead to, with
a start that no other specifier has. So the answers fall into two parts that
have nothing to do with each other: a call with any other specifier neither
finds nor leaves an answer among those for paths (`slot_ne`), and what is found
there was left by a call for the same path.

# The invariant

The answer that is remembered for a path is the project of the path (`Exact`).
A call keeps this: one with a relative specifier because the project of its path
is all that decides it (`tryStrategies_of_relative`), any other because it stays
in its own part. Nothing else reaches the answers, so it holds after any run of
events, and then a relative specifier gets the project of its path whether it
was remembered or not.
-/
import ImportResolution.Proofs.Locator.Events
import ImportResolution.Proofs.Locator.Slots

namespace ImportResolution.Locator

open WorkspacePath (isRelative ofGiven)

variable {l : Locator}

-- ============================================================ two parts

theorem Call.slot_ne {b c : Call} (hb : isRelative b.specifier = false)
    (hc : isRelative c.specifier = true) : c.slot ≠ b.slot := by
  intro h
  have hb' := (Call.target_eq_of_slot_eq h hc).1
  rw [hb] at hb'
  cases hb'

/-- A call looks at no answer but the one in its own slot. -/
theorem resolveCall_blind (l : Locator) (b : Call) (m : Memory)
    (answers : Memo (String × String) (Option String))
    (h : answers.peek? b.slot = m.answers.peek? b.slot) :
    (l.resolveCall b { m with answers }).1 = (l.resolveCall b m).1 := by
  cases hk : m.answers.peek? b.slot with
  | some answer =>
      rw [hk] at h
      rw [resolveCall_of_known hk, resolveCall_of_known (m := { m with answers }) h]
  | none =>
      -- the strategies, too, go on in the same way whatever is in memory
      have hblind (other : Memo (String × String) (Option String)) :
          (l.outcome b (Memory.asked { m with answers := other } b)).1 = (l.outcome b m).1 :=
        congrArg (·.1) ((made_tryStrategies _ _).blind m _)
      have hself : (l.outcome b (m.asked b)).1 = (l.outcome b m).1 := hblind m.answers
      rw [hk] at h
      rw [resolveCall_fst_of_unknown hk, resolveCall_fst_of_unknown (m := { m with answers }) h,
        hblind, hself]

-- ============================================================ exactness

/-- What is remembered of a path is the project that it belongs to. -/
def Exact (l : Locator) (m : Memory) : Prop :=
  ∀ target context answer, m.answers.peek? ("./" ++ target, context) = some answer →
    answer = l.roots.projectOf? target

theorem exact_ofStore (l : Locator) (s : FileStore) : Exact l (.ofStore s) := by
  intro target context answer hk
  cases hk

theorem Exact.congr {m m' : Memory} (h : Exact l m) (ha : m'.answers = m.answers) :
    Exact l m' := by
  intro target context answer hk
  rw [ha] at hk
  exact h target context answer hk

theorem result_of_unknown {c : Call} (hc : isRelative c.specifier = true) {m : Memory}
    (h : m.answers.peek? c.slot = none) :
    (l.resolveCall c m).1.result
      = l.roots.projectOf? (relativeTarget c.specifier (ofGiven c.file)) := by
  rw [(resolveCall_of_unknown h).1, outcome, tryStrategies_of_relative hc]

/-- What a call adds to the answers for paths is the project of its path. -/
theorem keeps_exact_resolveCall (l : Locator) (c : Call) : Keeps (Exact l) (l.resolveCall c) := by
  intro m hm target context answer hk
  rw [peek?_resolveCall] at hk
  rcases Memo.kept_or_new hk with hearlier | ⟨hnone, hslot, hnew⟩
  · exact hm target context answer hearlier
  · obtain ⟨hc, htarget⟩ := target_of_memoryKey (Prod.mk.inj hslot).1.symm
    rw [hslot] at hnone
    rw [← hnew, result_of_unknown hc hnone, htarget]

theorem exact_after (l : Locator) (events : List Event) (s : FileStore) :
    Exact l (l.after events (.ofStore s)) :=
  after_keeps (keeps_exact_resolveCall l) (fun m h => h.congr (compilerConfig?_answers l m))
    (fun _ _ h => h) events (exact_ofStore l s)

theorem Exact.result {m : Memory} (h : Exact l m) {c : Call}
    (hc : isRelative c.specifier = true) :
    (l.resolveCall c m).1.result
      = l.roots.projectOf? (relativeTarget c.specifier (ofGiven c.file)) := by
  -- found or not, the answer is in the slot of the call afterwards
  have hkept := peek?_resolveCall_self l c m
  have hkey : c.slot = ("./" ++ relativeTarget c.specifier (ofGiven c.file),
      WorkspacePath.normalize c.context) := by
    rw [Call.slot, memoryKey_of_relative hc]
  rw [hkey] at hkept
  exact keeps_exact_resolveCall l c m h _ _ _ hkept

/-- Whatever has happened to a locator, a relative specifier gets the project of
the path that it leads to from the directory of its file, and nothing else has a
part in it. Calls with other specifiers keep out of this: none of them writes to
the slot of a relative specifier, and none of them can tell what is in it. -/
theorem relative_exact (l : Locator) (s : FileStore) (events : List Event) {c : Call}
    (hc : isRelative c.specifier = true) :
    let m := l.after events (.ofStore s)
    let file := WorkspacePath.normalize (Text.withoutStart c.file "./")
    (l.resolveCall c m).1.result
        = (ProjectRoots.ofProjects l.projects l.settings.installedDirectory).projectOf?
            (WorkspacePath.join (WorkspacePath.directory file) c.specifier) ∧
      ∀ b : Call, isRelative b.specifier = false →
        (l.resolveCall b m).2.answers.peek? c.slot = m.answers.peek? c.slot ∧
        ∀ answers, (∀ slot, slot ≠ c.slot → answers.peek? slot = m.answers.peek? slot) →
          (l.resolveCall b { m with answers }).1 = (l.resolveCall b m).1 := by
  intro m file
  constructor
  · rw [← l.roots_eq]
    exact (exact_after l events s).result hc
  · intro b hb
    have hne : c.slot ≠ b.slot := Call.slot_ne hb hc
    constructor
    · rw [peek?_resolveCall, if_neg hne, Option.or_none]
    · intro answers hanswers
      exact resolveCall_blind l b m answers (hanswers b.slot hne.symm)

/-- In the workspace of two projects, after a file of one of them has asked for a
package and the files have changed, it reaches the other by a relative path. -/
theorem relative_exact_sibling :
    let l := ofGraph "/ws" .standard ⟨[.ofRoot "shared" "libs/shared" none], []⟩
    let c : Call := ⟨"../shared/x", "libs/app", "libs/app/y.ts"⟩
    let b : Call := ⟨"shared", "libs/app", "libs/app/y.ts"⟩
    let m := l.after [.call b, .files fun _ => .empty] (.ofStore .empty)
    isRelative c.specifier = true ∧
      (l.resolveCall c m).1.result = some "shared" ∧
      (l.resolveCall b m).2.answers.peek? c.slot = m.answers.peek? c.slot := by
  intro l c b m
  have hc : isRelative c.specifier = true := by decide
  have hb : isRelative b.specifier = false := by decide
  obtain ⟨hresult, hbare⟩ :=
    relative_exact l .empty [.call b, .files fun _ => .empty] (c := c) hc
  refine ⟨hc, ?_, (hbare b hb).1⟩
  rw [hresult]
  decide +kernel

end ImportResolution.Locator
