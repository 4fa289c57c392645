/-
When the order of import records matters. Every record asks the locator once,
and the records that share a slot of its memory all get the answer to the
first of them. The fallback searches start from the importing file, which is
no part of the slot, so another order can put another record first and change
the answer of all the others.

# The condition

Over the orders of some records each slot may have any of its records first.
So an edge is inferred in some order if a record has it under the answer to
any record of its slot (`Possible`), and it is inferred in every order if some
slot has nothing but records that lead to it (`Settled`). All orders give the
same edges exactly if every possible edge is settled
(`edges_perm_iff_settled`). That is so for relative specifiers, and for all
others where the fallback searches are off (`mem_edges_perm`).
-/
import ImportResolution.Proofs.Dependency.Inference
import ImportResolution.Proofs.Locator.Slots

namespace ImportResolution.Locator

variable {l : Locator} {s : FileStore} {records : List ImportRecord} {e : Edge}

-- ============================================================ inference

/-- The edge that a record has when all that is asked is asked in the order of
some calls. -/
def edgeAmong (l : Locator) (s : FileStore) (calls : List Call) (r : ImportRecord) :
    Option Edge :=
  (l.callOf? r).bind fun c => edgeTo r (l.freshAnswer s (c.leader calls))

/-- The edges of records are read off the first calls of their slots. -/
theorem recalls_edgesOf (hl : l.collaborators.Functional) {past : List Call} {m : Memory}
    (h : Recalls l s past m) (records : List ImportRecord) :
    (l.edgesOf records m).1 = records.filterMap (l.edgeAmong s (past ++ l.callsOf records)) ∧
      Recalls l s (past ++ l.callsOf records) (l.edgesOf records m).2 := by
  induction records generalizing past m with
  | nil =>
      refine ⟨rfl, ?_⟩
      rw [callsOf, List.filterMap_nil, List.append_nil]
      exact h
  | cons r rest ih =>
      rw [edgesOf_cons, edgeOf?_run]
      cases hc : l.callOf? r with
      | none =>
          have hcalls : l.callsOf (r :: rest) = l.callsOf rest := List.filterMap_cons_none hc
          have hedge : l.edgeAmong s (past ++ l.callsOf rest) r = none := by
            rw [edgeAmong, hc, Option.bind_none]
          rw [hcalls, List.filterMap_cons_none hedge]
          exact ih h
      | some c =>
          have hcalls : l.callsOf (r :: rest) = c :: l.callsOf rest := List.filterMap_cons_some hc
          obtain ⟨hanswer, hnext⟩ := recalls_resolve hl h c
          obtain ⟨hrest, hlast⟩ := ih hnext
          rw [List.append_assoc, List.singleton_append, ← hcalls] at hrest hlast
          have hedge : l.edgeAmong s (past ++ l.callsOf (r :: rest)) r
              = edgeTo r (l.resolveCall c m).1.result := by
            rw [edgeAmong, hc, Option.bind_some, hcalls, Call.leader_append_cons, hanswer]
          refine ⟨?_, hlast⟩
          simp only [hrest, List.filterMap_cons, hedge]
          cases edgeTo r (l.resolveCall c m).1.result <;> rfl

/-- The dependency graph that a new locator infers from records. -/
def inferred (l : Locator) (s : FileStore) (records : List ImportRecord) : DependencyGraph :=
  (l.inferGraph records (.ofStore s)).1

theorem mem_edges_inferred (hl : l.collaborators.Functional) :
    e ∈ (l.inferred s records).edges
      ↔ ∃ r ∈ records, ∃ c, l.callOf? r = some c ∧
        edgeTo r (l.freshAnswer s (c.leader (l.callsOf records))) = some e := by
  have hrun : l.inferred s records = l.graphOf (l.edgesOf records (.ofStore s)).1 := rfl
  rw [hrun, mem_edges_graphOf, (recalls_edgesOf hl (recalls_ofStore l s) records).1,
    List.nil_append, List.mem_filterMap]
  simp only [edgeAmong, Option.bind_eq_some_iff]

-- ======================================================== the condition

/-- Some order leads to the edge: a record has it under the answer to a record
of its slot. -/
def Possible (l : Locator) (s : FileStore) (records : List ImportRecord) (e : Edge) : Prop :=
  ∃ r ∈ records, ∃ c, l.callOf? r = some c ∧
    ∃ d ∈ l.callsOf records, d.slot = c.slot ∧ edgeTo r (l.freshAnswer s d) = some e

/-- Every order leads to the edge: a record of its source and kind has a slot
in which all calls lead to its target. -/
def Settled (l : Locator) (s : FileStore) (records : List ImportRecord) (e : Edge) : Prop :=
  ∃ r ∈ records, ∃ c, l.callOf? r = some c ∧ r.source = e.source ∧ r.kind = e.kind ∧
    ∀ d ∈ l.callsOf records, d.slot = c.slot → l.freshAnswer s d = some e.target

/-- The first call of a slot is one of the calls. -/
theorem Call.leader_mem {calls : List Call} {c : Call} (hc : c ∈ calls) :
    c.leader calls ∈ calls ∧ (c.leader calls).slot = c.slot := by
  unfold Call.leader
  cases hfirst : Call.first? c.slot calls with
  | none => exact ⟨hc, rfl⟩
  | some first => exact ⟨List.mem_of_find?_eq_some hfirst, by simpa using List.find?_some hfirst⟩

theorem possible_of_mem_edges (hl : l.collaborators.Functional)
    (he : e ∈ (l.inferred s records).edges) : l.Possible s records e := by
  obtain ⟨r, hr, c, hc, hedge⟩ := (mem_edges_inferred hl).mp he
  obtain ⟨hmem, hslot⟩ := Call.leader_mem (mem_callsOf.mpr ⟨r, hr, hc⟩)
  exact ⟨r, hr, c, hc, _, hmem, hslot, hedge⟩

theorem mem_edges_of_settled (hl : l.collaborators.Functional) (hne : e.target ≠ e.source)
    (he : l.Settled s records e) : e ∈ (l.inferred s records).edges := by
  obtain ⟨r, hr, c, hc, hsource, hkind, hall⟩ := he
  obtain ⟨hmem, hslot⟩ := Call.leader_mem (mem_callsOf.mpr ⟨r, hr, hc⟩)
  refine (mem_edges_inferred hl).mpr ⟨r, hr, c, hc, ?_⟩
  exact edgeTo_eq_some_iff.mpr ⟨hall _ hmem hslot, hsource, hkind, hne⟩

theorem Possible.ne (he : l.Possible s records e) : e.target ≠ e.source := by
  obtain ⟨r, -, c, -, d, -, -, hedge⟩ := he
  exact (edgeTo_eq_some_iff.mp hedge).2.2.2

section Reorder

variable {records' : List ImportRecord} (h : records'.Perm records)

include h

theorem callsOf_perm : (l.callsOf records').Perm (l.callsOf records) :=
  h.filterMap l.callOf?

/-- What is possible does not depend on the order. -/
theorem Possible.of_perm (he : l.Possible s records' e) : l.Possible s records e := by
  obtain ⟨r, hr, c, hc, d, hd, hslot, hedge⟩ := he
  exact ⟨r, h.mem_iff.mp hr, c, hc, d, (callsOf_perm h).mem_iff.mp hd, hslot, hedge⟩

/-- What is settled does not depend on the order. -/
theorem Settled.of_perm (he : l.Settled s records e) : l.Settled s records' e := by
  obtain ⟨r, hr, c, hc, hsource, hkind, hall⟩ := he
  exact ⟨r, h.mem_iff.mpr hr, c, hc, hsource, hkind,
    fun d hd hslot => hall d ((callsOf_perm h).mem_iff.mp hd) hslot⟩

end Reorder

/-- The records with those of one sort put first. -/
def withFirst (first : ImportRecord → Bool) (records : List ImportRecord) : List ImportRecord :=
  records.filter first ++ records.filter (!first ·)

theorem withFirst_perm (first : ImportRecord → Bool) (records : List ImportRecord) :
    (withFirst first records).Perm records :=
  List.filter_append_perm first records

/-- When records of one sort are put first, they decide for every slot that one
of them has. -/
theorem leader_withFirst {first : ImportRecord → Bool} {r : ImportRecord} {c d : Call}
    (hr : r ∈ records) (hfirst : first r = true) (hd : l.callOf? r = some d)
    (hslot : d.slot = c.slot) :
    ∃ q ∈ records, first q = true ∧
      l.callOf? q = some (c.leader (l.callsOf (withFirst first records))) := by
  have hcalls : l.callsOf (withFirst first records)
      = l.callsOf (records.filter first) ++ l.callsOf (records.filter (!first ·)) :=
    List.filterMap_append
  have hmem : d ∈ l.callsOf (records.filter first) :=
    mem_callsOf.mpr ⟨r, List.mem_filter.mpr ⟨hr, hfirst⟩, hd⟩
  cases hx : Call.first? c.slot (l.callsOf (records.filter first)) with
  | none =>
      have hnot := List.find?_eq_none.mp hx d hmem
      simp [hslot] at hnot
  | some x =>
      obtain ⟨q, hq, hqx⟩ := mem_callsOf.mp (List.mem_of_find?_eq_some hx)
      obtain ⟨hqr, hqfirst⟩ := List.mem_filter.mp hq
      refine ⟨q, hqr, hqfirst, ?_⟩
      rw [hcalls, Call.leader, Call.first?_append, hx, Option.some_or, Option.getD_some, hqx]

/-- A possible edge is inferred when a record that leads to it comes first. -/
theorem exists_perm_mem_edges (hl : l.collaborators.Functional) (he : l.Possible s records e) :
    ∃ records', records'.Perm records ∧ e ∈ (l.inferred s records').edges := by
  obtain ⟨r, hr, c, hc, d, hd, hslot, hedge⟩ := he
  obtain ⟨q, hq, hqd⟩ := mem_callsOf.mp hd
  let asking : ImportRecord → Bool := fun q => l.callOf? q == some d
  have hperm := withFirst_perm asking records
  have hasks : asking q = true := by simpa [asking] using hqd
  obtain ⟨q', -, hq', hleader⟩ := leader_withFirst hq hasks hqd hslot
  have hd' : c.leader (l.callsOf (withFirst asking records)) = d := by
    simp only [asking, hleader] at hq'
    simpa using hq'
  refine ⟨_, hperm, (mem_edges_inferred hl).mpr ⟨r, hperm.mem_iff.mpr hr, c, hc, ?_⟩⟩
  rw [hd']
  exact hedge

/-- An edge that is not settled is not inferred when all records that lead
elsewhere come first. -/
theorem exists_perm_not_mem_edges (hl : l.collaborators.Functional)
    (he : ¬ l.Settled s records e) :
    ∃ records', records'.Perm records ∧ e ∉ (l.inferred s records').edges := by
  let elsewhere : ImportRecord → Bool := fun q =>
    (l.callOf? q).any fun d => l.freshAnswer s d != some e.target
  have hperm := withFirst_perm elsewhere records
  refine ⟨_, hperm, fun hmem => ?_⟩
  obtain ⟨r, hr, c, hc, hedge⟩ := (mem_edges_inferred hl).mp hmem
  obtain ⟨hanswer, hsource, hkind, -⟩ := edgeTo_eq_some_iff.mp hedge
  refine he ⟨r, hperm.mem_iff.mp hr, c, hc, hsource, hkind, fun d hd hslot => ?_⟩
  refine Decidable.byContradiction fun hne => ?_
  obtain ⟨q, hq, hqd⟩ := mem_callsOf.mp hd
  have hfirst : elsewhere q = true := by
    simp only [elsewhere, hqd, Option.any_some, bne_iff_ne]
    exact hne
  obtain ⟨q', -, hq', hleader⟩ := leader_withFirst hq hfirst hqd hslot
  simp only [elsewhere, hleader, Option.any_some, bne_iff_ne] at hq'
  exact hq' hanswer

/-- Where every possible edge is settled, another order leads to the same
edges. -/
theorem mem_edges_perm_of_settled (hl : l.collaborators.Functional)
    (hsettled : ∀ e, l.Possible s records e → l.Settled s records e)
    {records' : List ImportRecord} (hperm : records'.Perm records) (e : Edge) :
    e ∈ (l.inferred s records').edges ↔ e ∈ (l.inferred s records).edges := by
  constructor
  · intro he
    have hpossible := (possible_of_mem_edges hl he).of_perm hperm
    exact mem_edges_of_settled hl hpossible.ne (hsettled e hpossible)
  · intro he
    have hpossible := possible_of_mem_edges hl he
    exact mem_edges_of_settled hl hpossible.ne ((hsettled e hpossible).of_perm hperm)

/-- All orders of some records lead to the same edges exactly if every edge that
is possible for them is settled. -/
theorem edges_perm_iff_settled (root : String) (settings : Settings) (graph : WorkspaceGraph)
    (s : FileStore) (records : List ImportRecord) :
    let l := ofGraph root settings graph
    (∀ records', records'.Perm records →
      ∀ e, e ∈ (l.inferred s records').edges ↔ e ∈ (l.inferred s records).edges)
      ↔ ∀ e, l.Possible s records e → l.Settled s records e := by
  intro l
  have hl : l.collaborators.Functional := Collaborators.functional_standard _ _
  constructor
  · intro hsame e hpossible
    refine Classical.byContradiction fun hsettled => ?_
    obtain ⟨r₁, hr₁, hmem⟩ := exists_perm_mem_edges hl hpossible
    obtain ⟨r₂, hr₂, hnot⟩ := exists_perm_not_mem_edges hl hsettled
    exact hnot ((hsame r₂ hr₂ e).mpr ((hsame r₁ hr₁ e).mp hmem))
  · intro hsettled records' hperm e
    exact mem_edges_perm_of_settled hl hsettled hperm e

/-- The order does not matter for relative specifiers, and for none where the
fallback searches are off. -/
theorem mem_edges_perm (hl : l.collaborators.Functional)
    (h : ∀ r ∈ records, WorkspacePath.isRelative r.specifier = true ∨ l.WithoutFallbacks)
    {records' : List ImportRecord} (hperm : records'.Perm records) (e : Edge) :
    e ∈ (l.inferred s records').edges ↔ e ∈ (l.inferred s records).edges := by
  refine mem_edges_perm_of_settled hl (fun e he => ?_) hperm e
  obtain ⟨r, hr, c, hc, d, hd, hslot, hedge⟩ := he
  obtain ⟨hanswer, hsource, hkind, -⟩ := edgeTo_eq_some_iff.mp hedge
  refine ⟨r, hr, c, hc, hsource, hkind, fun d' hd' hslot' => ?_⟩
  have hspecifier : c.specifier = r.specifier := by
    obtain ⟨root, -, rfl⟩ := Option.map_eq_some_iff.mp hc
    rfl
  have hone (x : Call) (hx : x.slot = c.slot) : l.freshAnswer s c = l.freshAnswer s x :=
    freshAnswer_congr s hx.symm (by rw [hspecifier]; exact h r hr)
  rw [← hone d' hslot', hone d hslot, hanswer]

-- ========================================================= two orders

/-- A workspace in which one directory of a project has a package of its own
that leads into another project. -/
def sharedWorkspace : Locator :=
  ofGraph "/ws" .standard
    ⟨[.ofRoot "app" "apps/app" none, .ofRoot "shared" "libs/shared" none], []⟩

/-- The files of that workspace. -/
def sharedFiles : FileStore :=
  .ofFiles [("/ws/apps/app/b/node_modules/dep/package.json",
      "\x7b\"main\":\"../../../../../libs/shared/index.js\"\x7d"),
    ("/ws/libs/shared/index.js", "")]

/-- One specifier is asked for in two directories of one project. Only the
second has an installed package of that name, and it is heard only when it is
asked first: the two orders do not lead to the same edges. -/
theorem edges_of_two_orders :
    let a : ImportRecord := ⟨"app", "apps/app/a/x.ts", "dep", .static⟩
    let b : ImportRecord := ⟨"app", "apps/app/b/y.ts", "dep", .static⟩
    (sharedWorkspace.inferred sharedFiles [a, b]).edges = [] ∧
      (sharedWorkspace.inferred sharedFiles [b, a]).edges = [⟨"app", "shared", .static⟩] ∧
      ¬ ∀ records', records'.Perm [a, b] →
        ∀ e, e ∈ (sharedWorkspace.inferred sharedFiles records').edges
          ↔ e ∈ (sharedWorkspace.inferred sharedFiles [a, b]).edges := by
  intro a b
  have hab : (sharedWorkspace.inferred sharedFiles [a, b]).edges = [] := by decide +kernel
  have hba : (sharedWorkspace.inferred sharedFiles [b, a]).edges
      = [⟨"app", "shared", .static⟩] := by decide +kernel
  refine ⟨hab, hba, fun hsame => ?_⟩
  have he := hsame [b, a] (List.Perm.swap ..) ⟨"app", "shared", .static⟩
  rw [hab, hba] at he
  exact absurd (he.mp (List.mem_singleton_self _)) List.not_mem_nil

end ImportResolution.Locator
