/-
A workspace graph is read back from the text it is written as.

What a reader returns has a form that the writer keeps (`ProjectMetadata.Kept`):
the further members of the metadata ascend, none of them has the name of a field,
and their values stand for themselves. Written behind the fields, they are then
found again as what they were, whatever form the graph was read in.
-/
import ImportResolution.Workspace.Graph
import ImportResolution.Proofs.Json.Record

namespace ImportResolution

open Json (Value Document Fields Allowance)

-- ============================================================= metadata

namespace ProjectMetadata

/-- The names of the fields. -/
def fieldNames : List String := ["packageName", "tags"]

/-- What metadata that were read are like. -/
structure Kept (depth : Nat) (m : ProjectMetadata) : Prop where
  ascending : Table.Ascending m.extra
  unnamed : ∀ e ∈ m.extra, e.1 ∉ fieldNames
  within : ∀ e ∈ m.extra, e.2.Within depth

theorem kept_empty (depth : Nat) : empty.Kept depth :=
  ⟨List.Pairwise.nil, nofun, nofun⟩

theorem of_extraMembers? {a : Allowance} {members : List (Option String × Document)}
    {extra : List (String × Value)} (h : extraMembers? a members = some extra) :
    ∀ e ∈ extra, e.1 ∉ fieldNames ∧ e.2.Within a.depth := by
  induction members generalizing extra with
  | nil =>
      obtain rfl := Option.some.inj h
      exact List.forall_mem_nil _
  | cons m members ih =>
      obtain ⟨key, d⟩ := m
      rw [extraMembers?] at h
      obtain ⟨key, -, h⟩ := Option.bind_eq_some_iff.mp h
      split at h
      · exact ih h
      · next hname =>
          obtain ⟨v, hv, h⟩ := Option.bind_eq_some_iff.mp h
          obtain ⟨rest, hrest, h⟩ := Option.bind_eq_some_iff.mp h
          obtain rfl := Option.some.inj h
          refine List.forall_mem_cons.mpr ⟨⟨?_, Json.within_of_data? a.depth d hv⟩, ih hrest⟩
          simpa [fieldNames] using hname

theorem kept_of_reader {depth : Nat} {d : Document} {m : ProjectMetadata}
    (h : reader (.strictAt (depth + 1)) d = some m) : m.Kept depth := by
  cases d with
  | object members =>
      obtain ⟨f, hf, h⟩ := Option.bind_eq_some_iff.mp h
      obtain ⟨packageName, -, h⟩ := Option.bind_eq_some_iff.mp h
      obtain ⟨tags, -, h⟩ := Option.bind_eq_some_iff.mp h
      obtain ⟨extra, hextra, h⟩ := Option.bind_eq_some_iff.mp h
      obtain rfl := Option.some.inj h
      rw [Fields.allowance_of_ofDocument? hf] at hextra
      have hall := of_extraMembers? hextra
      exact ⟨Table.ascending_sorted extra, fun e he => (hall e (Table.mem_of_mem_sorted he)).1,
        fun e he => (hall e (Table.mem_of_mem_sorted he)).2⟩
  | _ => cases h

/-- The members of the fields. -/
def named (m : ProjectMetadata) : List (String × Value) :=
  (match m.packageName with
    | some name => [("packageName", .text name)]
    | none => []) ++
  (if m.tags = [] then [] else [("tags", Value.texts m.tags)])

theorem keys_named (m : ProjectMetadata) : (Table.keys m.named).Sublist fieldNames := by
  unfold named
  by_cases htags : m.tags = []
  · rw [if_pos htags]
    cases m.packageName with
    | none => exact List.nil_sublist _
    | some name => exact .cons_cons _ (List.nil_sublist ["tags"])
  · rw [if_neg htags]
    cases m.packageName with
    | none => exact .cons _ (.refl ["tags"])
    | some name => exact .refl fieldNames

theorem lookup_named (m : ProjectMetadata) :
    m.named.lookup "packageName" = m.packageName.map .text ∧
      m.named.lookup "tags" = if m.tags = [] then none else some (Value.texts m.tags) := by
  unfold named
  by_cases htags : m.tags = []
  · rw [if_pos htags, if_pos htags]
    cases m.packageName with
    | none => exact ⟨rfl, rfl⟩
    | some name => exact ⟨rfl, rfl⟩
  · rw [if_neg htags, if_neg htags]
    cases m.packageName with
    | none => exact ⟨rfl, rfl⟩
    | some name => exact ⟨rfl, rfl⟩

theorem extraMembers?_memberDocuments {a : Allowance} {members : List (String × Value)}
    (h : ∀ e ∈ members, e.1 ∉ fieldNames → e.2.Within a.depth) :
    extraMembers? a (Json.memberDocuments members)
      = some (members.filter fun e => e.1 ∉ fieldNames) := by
  induction members with
  | nil => rfl
  | cons e members ih =>
      obtain ⟨hfirst, hrest⟩ := List.forall_mem_cons.mp h
      obtain ⟨key, v⟩ := e
      rw [Json.memberDocuments, extraMembers?, ih hrest, List.filter_cons]
      by_cases hname : key ∈ fieldNames
      · have hnamed : key = "packageName" ∨ key = "tags" := by simpa [fieldNames] using hname
        simp [hname, hnamed]
      · have hnamed : ¬ (key = "packageName" ∨ key = "tags") := by simpa [fieldNames] using hname
        have hv : v.document.data? a.depth = some v := hfirst hname
        simp [hname, hnamed, hv]

/-- Under the name of a field stands what was written for the field. -/
theorem Kept.lookup_members {depth : Nat} {m : ProjectMetadata} (h : m.Kept depth) {k : String}
    (hk : k ∈ fieldNames) : (m.named ++ m.extra).lookup k = m.named.lookup k := by
  have hnone : m.extra.lookup k = none := by
    refine List.lookup_eq_none_iff.mpr fun e he => ?_
    have hne : k ≠ e.1 := fun heq => h.unnamed e he (heq ▸ hk)
    simpa using hne
  rw [List.lookup_append, hnone, Option.or_none]

theorem Kept.nodup_members {depth : Nat} {m : ProjectMetadata} (h : m.Kept depth) :
    (Table.keys (m.named ++ m.extra)).Nodup := by
  rw [Table.keys, List.map_append]
  refine List.nodup_append.mpr ⟨(keys_named m).nodup (by decide), h.ascending.nodup, ?_⟩
  intro k hk k' hk' heq
  obtain ⟨e, he, rfl⟩ := List.mem_map.mp hk'
  exact h.unnamed e he ((keys_named m).subset (heq ▸ hk))

theorem Kept.extraMembers? {depth : Nat} {m : ProjectMetadata} (h : m.Kept depth) :
    extraMembers? (.strictAt depth) (Json.memberDocuments (m.named ++ m.extra)) = some m.extra := by
  have hnamed : ∀ e ∈ m.named, e.1 ∈ fieldNames := fun e he =>
    (keys_named m).subset (List.mem_map.mpr ⟨e, he, rfl⟩)
  have hwithin : ∀ e ∈ m.named ++ m.extra, e.1 ∉ fieldNames → e.2.Within depth := by
    intro e he hname
    rcases List.mem_append.mp he with he | he
    · exact absurd (hnamed e he) hname
    · exact h.within e he
  rw [extraMembers?_memberDocuments hwithin, List.filter_append,
    List.filter_eq_nil_iff.mpr fun e he => by simpa using hnamed e he,
    List.filter_eq_self.mpr fun e he => by simpa using h.unnamed e he, List.nil_append]

theorem Kept.reader_document {depth : Nat} {m : ProjectMetadata} (h : m.Kept (depth + 1)) :
    reader (.strictAt (depth + 2)) m.toData.document = some m := by
  obtain ⟨f, hf, hgives⟩ := Fields.ofDocument?_object fieldNames (depth + 1) h.nodup_members
  have hname : f.optional "packageName" Json.Read.text = some m.packageName :=
    hgives.optional_text (by decide) ((h.lookup_members (by decide)).trans (lookup_named m).1)
  have htags : f.defaulted "tags" [] (Json.Read.list Json.Read.text) = some m.tags := by
    have hlookup := (h.lookup_members (by decide)).trans (lookup_named m).2
    split at hlookup
    · next htags =>
        rw [htags]
        exact hgives.defaulted_none (by decide) hlookup _ _
    · rw [hgives.defaulted (by decide) hlookup]
      exact Json.Read.list_document fun tag _ => rfl
  have hstep : reader (.strictAt (depth + 2)) m.toData.document = (do
      let f ← Fields.ofDocument? fieldNames (.strictAt (depth + 2)) m.toData.document
      let packageName ← f.optional "packageName" Json.Read.text
      let tags ← f.defaulted "tags" [] (Json.Read.list Json.Read.text)
      let extra ← ProjectMetadata.extraMembers? f.allowance
        (Json.memberDocuments (m.named ++ m.extra))
      some ⟨packageName, tags, Table.sorted extra⟩) := rfl
  have hread :
      Fields.ofDocument? fieldNames (.strictAt (depth + 2)) m.toData.document = some f := hf
  rw [hstep, hread, Option.bind_eq_bind, Option.bind_some, hname, htags, hgives.allowance]
  simp only [Option.bind_eq_bind, Option.bind_some, h.extraMembers?,
    Table.sorted_of_ascending h.ascending]

end ProjectMetadata

-- ================================================================= nodes

theorem Project.kept_of_reader {depth : Nat} {d : Document} {p : Project}
    (h : Project.reader (.strictAt (depth + 2)) d = some p) : p.metadata.Kept depth := by
  obtain ⟨f, hf, h⟩ := Option.bind_eq_some_iff.mp h
  obtain ⟨name, -, h⟩ := Option.bind_eq_some_iff.mp h
  obtain ⟨root, -, h⟩ := Option.bind_eq_some_iff.mp h
  obtain ⟨metadata, hmetadata, h⟩ := Option.bind_eq_some_iff.mp h
  obtain rfl := Option.some.inj h
  rcases Fields.of_defaulted hmetadata with rfl | ⟨d, hd⟩
  · exact ProjectMetadata.kept_empty depth
  · rw [Fields.allowance_of_ofDocument? hf] at hd
    exact ProjectMetadata.kept_of_reader hd

theorem Project.reader_document {depth : Nat} {p : Project} (h : p.metadata.Kept (depth + 1)) :
    Project.reader (.strictAt (depth + 3)) p.toData.document = some p := by
  have hkeys : (Table.keys [("name", Value.text p.name), ("root", .text p.root),
      ("metadata", p.metadata.toData)]).Nodup :=
    show ["name", "root", "metadata"].Nodup by decide
  obtain ⟨f, hf, hgives⟩ := Fields.ofDocument?_object ["name", "root", "metadata"] (depth + 2) hkeys
  have hname := hgives.required (by decide) rfl Json.Read.text (k := "name")
  have hroot := hgives.required (by decide) rfl Json.Read.text (k := "root")
  have hmetadata := hgives.defaulted (by decide) rfl ProjectMetadata.empty ProjectMetadata.reader
    (k := "metadata")
  rw [h.reader_document] at hmetadata
  rw [Project.reader]
  refine (congrArg (Option.bind · _) hf).trans ?_
  rw [Option.bind_some, hname, hroot, hmetadata]
  rfl

theorem External.reader_document (depth : Nat) (e : External) :
    External.reader (.strictAt (depth + 1)) e.toData.document = some e := by
  have hkeys : (Table.keys [("name", Value.text e.name), ("packageName", .text e.packageName),
      ("version", .text e.version)]).Nodup :=
    show ["name", "packageName", "version"].Nodup by decide
  obtain ⟨f, hf, hgives⟩ := Fields.ofDocument?_object ["name", "packageName", "version"] depth hkeys
  have hname := hgives.required (by decide) rfl Json.Read.text (k := "name")
  have hpackageName := hgives.required (by decide) rfl Json.Read.text (k := "packageName")
  have hversion := hgives.required (by decide) rfl Json.Read.text (k := "version")
  rw [External.reader]
  refine (congrArg (Option.bind · _) hf).trans ?_
  rw [Option.bind_some, hname, hpackageName, hversion]
  rfl

theorem Project.whole_toData {p : Project} (h : ∀ e ∈ p.metadata.extra, e.2.Whole) :
    p.toData.Whole := by
  have hnamed : ∀ e ∈ p.metadata.named, e.2.Whole := by
    intro e he
    rcases List.mem_append.mp he with he | he
    · cases hname : p.metadata.packageName with
      | none =>
          rw [hname] at he
          cases he
      | some name =>
          rw [hname] at he
          obtain rfl := List.mem_singleton.mp he
          exact Json.whole_text name
    · split at he
      · cases he
      · obtain rfl := List.mem_singleton.mp he
        exact Json.whole_texts p.metadata.tags
  refine Json.whole_object.mpr (List.forall_mem_cons.mpr ⟨Json.whole_text p.name,
    List.forall_mem_cons.mpr ⟨Json.whole_text p.root, List.forall_mem_singleton.mpr ?_⟩⟩)
  exact Json.whole_object.mpr (List.forall_mem_append.mpr ⟨hnamed, h⟩)

theorem External.whole_toData (e : External) : e.toData.Whole :=
  Json.whole_object.mpr (List.forall_mem_cons.mpr ⟨Json.whole_text e.name,
    List.forall_mem_cons.mpr ⟨Json.whole_text e.packageName,
      List.forall_mem_singleton.mpr (Json.whole_text e.version)⟩⟩)

-- ================================================================= graph

namespace WorkspaceGraph

/-- Strict reading admits 127 levels, and the further metadata lie below four of
them: the graph, the list of its projects, the project and its metadata. -/
theorem kept_of_reader {d : Document} {g : WorkspaceGraph} (h : reader .strict d = some g) :
    ∀ p ∈ g.projects, p.metadata.Kept 123 := by
  obtain ⟨f, hf, h⟩ := Option.bind_eq_some_iff.mp h
  obtain ⟨projects, hprojects, h⟩ := Option.bind_eq_some_iff.mp h
  obtain ⟨externals, -, h⟩ := Option.bind_eq_some_iff.mp h
  obtain rfl := Option.some.inj h
  have hallowance : f.allowance = .strictAt 126 := Fields.allowance_of_ofDocument? hf
  rcases Fields.of_defaulted hprojects with rfl | ⟨d, hd⟩
  · exact nofun
  · intro p hp
    rw [hallowance] at hd
    obtain ⟨d, hd⟩ := Json.Read.of_list hd p hp
    exact Project.kept_of_reader hd

theorem reader_document {g : WorkspaceGraph} (h : ∀ p ∈ g.projects, p.metadata.Kept 123) :
    reader .strict g.toData.document = some g := by
  have hkeys : (Table.keys [("projects", Value.array (g.projects.map Project.toData)),
      ("externals", .array (g.externals.map External.toData))]).Nodup :=
    show ["projects", "externals"].Nodup by decide
  obtain ⟨f, hf, hgives⟩ := Fields.ofDocument?_object ["projects", "externals"] 126 hkeys
  have hprojects := hgives.defaulted (by decide) rfl [] (Json.Read.list Project.reader)
    (k := "projects")
  rw [Json.Read.list_document fun p hp => Project.reader_document (h p hp)] at hprojects
  have hexternals := hgives.defaulted (by decide) rfl [] (Json.Read.list External.reader)
    (k := "externals")
  rw [Json.Read.list_document fun e _ => External.reader_document 124 e] at hexternals
  rw [reader]
  refine (congrArg (Option.bind · _) hf).trans ?_
  rw [Option.bind_some, hprojects, hexternals]
  rfl

/-- The numbers among the further metadata of the projects are integers of at
most sixty-four bits. -/
def WholeExtra (g : WorkspaceGraph) : Prop :=
  ∀ p ∈ g.projects, ∀ e ∈ p.metadata.extra, e.2.Whole

instance (g : WorkspaceGraph) : Decidable g.WholeExtra :=
  inferInstanceAs (Decidable (∀ p ∈ g.projects, ∀ e ∈ p.metadata.extra, e.2.Whole))

theorem whole_toData {g : WorkspaceGraph} (h : g.WholeExtra) : g.toData.Whole := by
  refine Json.whole_object.mpr (List.forall_mem_cons.mpr ⟨Json.whole_array.mpr ?_,
    List.forall_mem_singleton.mpr (Json.whole_array.mpr ?_)⟩)
  · intro v hv
    obtain ⟨p, hp, rfl⟩ := List.mem_map.mp hv
    exact Project.whole_toData (h p hp)
  · intro v hv
    obtain ⟨e, -, rfl⟩ := List.mem_map.mp hv
    exact External.whole_toData e

/-- A graph that was read from some text is read from its own text again,
whatever form it had in the first. -/
theorem ofText?_toText {t : String} {g : WorkspaceGraph} (h : ofText? t = some g)
    (hwhole : g.WholeExtra) : ofText? g.toText = some g := by
  obtain ⟨d, -, hd⟩ := Option.bind_eq_some_iff.mp h
  rw [ofText?, toText, Json.ofText?_of_whole (whole_toData hwhole), Option.bind_some]
  exact reader_document (kept_of_reader hd)

/-- A project given by position, its metadata out of order, beside a member that
is no field. -/
def mixed : Value :=
  .object [("more", .number (.integer 1)),
    ("projects", .array [.array [.text "app", .text "",
      .object [("z", .object [("b", .number (.integer (-2))), ("a", .text "é\n")]),
        ("owner", .null), ("packageName", .text "@a/app")]]])]

/-- The graph that these data stand for. -/
def mixedGraph : WorkspaceGraph where
  projects := [⟨"app", "", ⟨some "@a/app", [], [("owner", .null),
    ("z", .object [("b", .number (.integer (-2))), ("a", .text "é\n")])]⟩⟩]
  externals := []

theorem ofText?_toText_mixed : ofText? mixed.toText = some mixedGraph ∧ mixedGraph.WholeExtra ∧
    ofText? mixedGraph.toText = some mixedGraph := by
  have hread : ofText? mixed.toText = some mixedGraph := by
    rw [ofText?, Json.ofText?_of_whole (by decide)]
    rfl
  exact ⟨hread, by decide, ofText?_toText hread (by decide)⟩

end WorkspaceGraph

end ImportResolution
