/-
Import records as calls of a locator. A record whose project is known makes one
call, and the answer to the call is all that its edge depends on; a record of
any other project asks for nothing. So inference is a run of calls
(`edgeOf?_run`, `edgesOf_cons`).
-/
import ImportResolution.Dependency.Inference
import ImportResolution.Proofs.Locator.Recall

namespace ImportResolution.Locator

variable {l : Locator} {records : List ImportRecord} {e : Edge}

/-- The call that a record makes, if its project is known. -/
def callOf? (l : Locator) (r : ImportRecord) : Option Call :=
  (l.projectRoot? r.source).map fun root => ⟨r.specifier, root, r.file⟩

/-- The calls that records make, in their order. -/
def callsOf (l : Locator) (records : List ImportRecord) : List Call :=
  records.filterMap l.callOf?

/-- The edge of a record when its call is answered in some way. -/
def edgeTo (r : ImportRecord) (answer : Option String) : Option Edge :=
  answer.bind fun target => if target = r.source then none else some ⟨r.source, target, r.kind⟩

theorem edgeTo_eq_some_iff {r : ImportRecord} {answer : Option String} :
    edgeTo r answer = some e
      ↔ answer = some e.target ∧ r.source = e.source ∧ r.kind = e.kind ∧ e.target ≠ e.source := by
  cases answer with
  | none => simp [edgeTo]
  | some target =>
      obtain ⟨source, target', kind⟩ := e
      simp only [edgeTo, Option.bind_some]
      constructor
      · intro h
        split at h
        · cases h
        · next hne =>
          cases h
          exact ⟨rfl, rfl, rfl, hne⟩
      · rintro ⟨htarget, hsource, hkind, hne⟩
        obtain rfl := Option.some.inj htarget
        subst hsource hkind
        rw [if_neg hne]

theorem mem_callsOf {c : Call} :
    c ∈ l.callsOf records ↔ ∃ r ∈ records, l.callOf? r = some c :=
  List.mem_filterMap

theorem edgeOf?_run (l : Locator) (r : ImportRecord) (m : Memory) :
    l.edgeOf? r m
      = match l.callOf? r with
        | none => (none, m)
        | some c => (edgeTo r (l.resolveCall c m).1.result, (l.resolveCall c m).2) := by
  unfold edgeOf? callOf?
  cases l.projectRoot? r.source with
  | none => rfl
  | some root => rfl

/-- Records are taken one after the other. -/
theorem edgesOf_cons (l : Locator) (r : ImportRecord) (rest : List ImportRecord) (m : Memory) :
    l.edgesOf (r :: rest) m
      = ((l.edgeOf? r m).1.toList ++ (l.edgesOf rest (l.edgeOf? r m).2).1,
          (l.edgesOf rest (l.edgeOf? r m).2).2) :=
  rfl

end ImportResolution.Locator
