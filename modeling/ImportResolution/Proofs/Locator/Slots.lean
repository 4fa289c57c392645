/-
What the calls of one slot have in common. They ask for the same thing, for one
path or by one specifier (`Call.agrees_of_slot_eq`), and they differ in nothing
but the importing file and the spelling of a path.

# Where the first call does not matter

Only a relative specifier and the fallback searches look at the importing file.
A relative specifier does so through its path alone, which is in its slot; so
where the fallbacks are off, or for relative specifiers anyway, a new locator
gives one answer to all calls of a slot (`freshAnswer_congr`).
-/
import ImportResolution.Proofs.Locator.Recall
import ImportResolution.Proofs.ProjectRoots

namespace ImportResolution.Locator

variable {l : Locator} {specifier context file : String}

-- ================================================================ slots

/-- Two calls ask for the same thing: for one path, or by one specifier. -/
def Call.Agrees (a c : Call) : Prop :=
  WorkspacePath.normalize a.context = WorkspacePath.normalize c.context ∧
    (a.specifier = c.specifier ∨
      WorkspacePath.isRelative a.specifier = true ∧ WorkspacePath.isRelative c.specifier = true ∧
        relativeTarget a.specifier (WorkspacePath.ofGiven a.file)
          = relativeTarget c.specifier (WorkspacePath.ofGiven c.file))

theorem memoryKey_of_relative (h : WorkspacePath.isRelative specifier = true) :
    memoryKey specifier file = "./" ++ relativeTarget specifier file :=
  if_pos h

theorem memoryKey_of_bare (h : WorkspacePath.isRelative specifier = false) :
    memoryKey specifier file = specifier :=
  if_neg (by rw [h]; exact Bool.false_ne_true)

/-- What a relative specifier is remembered under is no other specifier. -/
theorem isRelative_append (target : String) : WorkspacePath.isRelative ("./" ++ target) = true := by
  have h : Text.startsWith ("./" ++ target) "./" = true := by
    rw [Text.startsWith_iff, String.toList_append]
    exact List.prefix_append ..
  unfold WorkspacePath.isRelative
  rw [h, Bool.or_true, Bool.true_or]

/-- Only a relative specifier is remembered under a path, and the path is the one
that it leads to. -/
theorem target_of_memoryKey {target : String}
    (h : memoryKey specifier file = "./" ++ target) :
    WorkspacePath.isRelative specifier = true ∧ relativeTarget specifier file = target := by
  cases hs : WorkspacePath.isRelative specifier with
  | true =>
      rw [memoryKey_of_relative hs] at h
      exact ⟨rfl, (String.append_right_inj _).mp h⟩
  | false =>
      rw [memoryKey_of_bare hs] at h
      rw [h, isRelative_append] at hs
      cases hs

/-- A call of the slot of a relative specifier has one too, for the same path. -/
theorem Call.target_eq_of_slot_eq {a c : Call} (h : a.slot = c.slot)
    (ha : WorkspacePath.isRelative a.specifier = true) :
    WorkspacePath.isRelative c.specifier = true ∧
      relativeTarget a.specifier (WorkspacePath.ofGiven a.file)
        = relativeTarget c.specifier (WorkspacePath.ofGiven c.file) := by
  have hkey := (Prod.mk.inj h).1
  rw [memoryKey_of_relative ha] at hkey
  obtain ⟨hc, htarget⟩ := target_of_memoryKey hkey.symm
  exact ⟨hc, htarget.symm⟩

/-- A call of the slot of any other specifier has the same specifier. -/
theorem Call.specifier_eq_of_slot_eq {a c : Call} (h : a.slot = c.slot)
    (ha : WorkspacePath.isRelative a.specifier = false) : a.specifier = c.specifier := by
  have hkey := (Prod.mk.inj h).1
  rw [memoryKey_of_bare ha] at hkey
  cases hc : WorkspacePath.isRelative c.specifier with
  | true =>
      rw [memoryKey_of_relative hc] at hkey
      rw [hkey, isRelative_append] at ha
      cases ha
  | false =>
      rw [memoryKey_of_bare hc] at hkey
      exact hkey

/-- Calls that share a slot ask for the same thing. -/
theorem Call.agrees_of_slot_eq {a c : Call} (h : a.slot = c.slot) : a.Agrees c := by
  refine ⟨(Prod.mk.inj h).2, ?_⟩
  cases ha : WorkspacePath.isRelative a.specifier with
  | true => exact Or.inr ⟨rfl, Call.target_eq_of_slot_eq h ha⟩
  | false => exact Or.inl (Call.specifier_eq_of_slot_eq h ha)

-- ============================================================== answers

/-- Neither fallback search is in use. -/
def WithoutFallbacks (l : Locator) : Prop :=
  l.settings.languageFallback = false ∧ l.settings.runtimeFallback = false

/-- Without fallbacks the importing file plays no part in what a strategy says
of a specifier that is not relative. -/
theorem attempt_congr (hl : l.WithoutFallbacks)
    (hbare : WorkspacePath.isRelative specifier = false) (file file' : String)
    (strategy : Strategy) :
    l.attempt specifier context file strategy = l.attempt specifier context file' strategy := by
  cases strategy with
  | relative => simp only [attempt, tryRelative, hbare, Bool.false_eq_true, if_false]
  | languageFallback => simp only [attempt, tryLanguage, hl.1, Bool.false_eq_true, if_false]
  | runtimeFallback => simp only [attempt, tryRuntime, hl.2, Bool.false_eq_true, if_false]
  | pathMapping => rfl
  | builtin => rfl
  | external => rfl
  | workspacePackage => rfl

theorem tryStrategies_congr (hl : l.WithoutFallbacks)
    (hbare : WorkspacePath.isRelative specifier = false) (file file' : String)
    (strategies : List Strategy) :
    l.tryStrategies specifier context file strategies
      = l.tryStrategies specifier context file' strategies := by
  induction strategies with
  | nil => rfl
  | cons strategy rest ih =>
      rw [tryStrategies, tryStrategies, attempt_congr hl hbare file file', ih]

/-- What is installed belongs to no project, whether this is asked first or left
to the roots. -/
theorem projectOf?_of_isInstalled {path : String} (hp : WorkspacePath.IsNormal path)
    (h : l.isInstalled path = true) : l.roots.projectOf? path = none := by
  refine ProjectRoots.projectOf?_of_hasSegment hp ?_
  rw [l.roots_eq]
  exact h

/-- The project of its path says all about a relative specifier. -/
theorem tryRelative_of_relative (h : WorkspacePath.isRelative specifier = true) :
    l.tryRelative specifier file
      = (l.roots.projectOf? (relativeTarget specifier file)).elim .rejected .resolved := by
  rw [tryRelative, if_pos h]
  by_cases hinstalled : l.isInstalled (relativeTarget specifier file) = true
  · have hnormal : WorkspacePath.IsNormal (relativeTarget specifier file) :=
      WorkspacePath.isNormal_join _ _
    rw [if_pos hinstalled, projectOf?_of_isInstalled hnormal hinstalled]
    rfl
  · rw [if_neg hinstalled]
    cases l.roots.projectOf? (relativeTarget specifier file) <;> rfl

/-- A relative specifier is decided by the project of its path. -/
theorem tryStrategies_of_relative (h : WorkspacePath.isRelative specifier = true) (m : Memory) :
    l.tryStrategies specifier context file Strategy.order m
      = ((l.roots.projectOf? (relativeTarget specifier file), .decided .relative), m) := by
  unfold Strategy.order tryStrategies
  simp only [attempt, tryRelative_of_relative h, run_bind, run_pure]
  cases l.roots.projectOf? (relativeTarget specifier file) with
  | none => rfl
  | some project => rfl

/-- A new locator gives one answer to the calls of a slot, unless a fallback
search may look from their files. -/
theorem freshAnswer_congr (s : FileStore) {a c : Call} (hslot : a.slot = c.slot)
    (h : WorkspacePath.isRelative a.specifier = true ∨ l.WithoutFallbacks) :
    l.freshAnswer s a = l.freshAnswer s c := by
  have hfresh (d : Call) : l.freshAnswer s d = (l.outcome d ((Memory.ofStore s).asked d)).1.1 :=
    (resolveCall_of_unknown rfl).1
  have hasked : (Memory.ofStore s).asked a = (Memory.ofStore s).asked c := by
    rw [Memory.asked, Memory.asked, hslot]
  have hcontext : WorkspacePath.normalize a.context = WorkspacePath.normalize c.context :=
    (Prod.mk.inj hslot).2
  rw [hfresh, hfresh, hasked, outcome, outcome, hcontext]
  cases ha : WorkspacePath.isRelative a.specifier with
  | true =>
      obtain ⟨hc, htarget⟩ := Call.target_eq_of_slot_eq hslot ha
      rw [tryStrategies_of_relative ha, tryStrategies_of_relative hc, htarget]
  | false =>
      have hl : l.WithoutFallbacks := h.resolve_left (by rw [ha]; exact Bool.false_ne_true)
      have hspecifier := Call.specifier_eq_of_slot_eq hslot ha
      rw [hspecifier] at ha ⊢
      rw [tryStrategies_congr hl ha]

end ImportResolution.Locator
