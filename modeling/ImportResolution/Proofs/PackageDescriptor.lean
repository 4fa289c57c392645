/-
A package descriptor is read back from the text it is written as.

Absent fields are not written, so a field is looked up among members that need
not be there (`lookup_members`); a null that was read counts as absent too, and
comes back as that. The entry points are any data, with the members of their
objects in the order of declaration; they come back in this order, and so lead to
the same targets.
-/
import ImportResolution.PackageDescriptor
import ImportResolution.Proofs.Json.Record

namespace ImportResolution.PackageDescriptor

open Json (Value Document Fields)

-- =============================================================== members

/-- The members of those fields that are there. -/
def members (fields : List (String × Option Value)) : List (String × Value) :=
  fields.flatMap fun e => member e.1 e.2

theorem mem_of_mem_member {key : String} {v : Option Value} {m : String × Value}
    (h : m ∈ member key v) : m.2 ∈ v := by
  cases v with
  | none => cases h
  | some v =>
      obtain rfl := List.mem_singleton.mp h
      rfl

theorem keys_members (fields : List (String × Option Value)) :
    (Table.keys (members fields)).Sublist (Table.keys fields) := by
  induction fields with
  | nil => exact .refl []
  | cons e fields ih =>
      obtain ⟨key, v⟩ := e
      rw [Table.keys, members, List.flatMap_cons, List.map_append]
      cases v with
      | none => exact .cons key ih
      | some v => exact .cons_cons key ih

theorem lookup_members {fields : List (String × Option Value)} (h : (Table.keys fields).Nodup)
    {k : String} {v : Option Value} (hk : (k, v) ∈ fields) : (members fields).lookup k = v := by
  induction fields with
  | nil => cases hk
  | cons e fields ih =>
      obtain ⟨key, w⟩ := e
      obtain ⟨hnew, hrest⟩ := List.nodup_cons.mp h
      rw [members, List.flatMap_cons, List.lookup_append]
      rcases List.mem_cons.mp hk with heq | hk
      · cases heq
        cases v with
        | none =>
            refine List.lookup_eq_none_iff.mpr fun e he => ?_
            have hmem := (keys_members fields).subset (List.mem_map.mpr ⟨e, he, rfl⟩)
            have hne : k ≠ e.1 := fun heq => hnew (heq ▸ hmem)
            simpa using hne
        | some v => simp [member]
      · have hne : k ≠ key := fun heq => hnew (heq ▸ List.mem_map.mpr ⟨(k, v), hk, rfl⟩)
        have hnone : (member key w).lookup k = none := by
          cases w with
          | none => rfl
          | some w => simp [member, Table.lookup_cons_ite, hne]
        rw [hnone, Option.none_or]
        exact ih hrest hk

/-- The fields with their values as data. -/
def fields (p : PackageDescriptor) : List (String × Option Value) :=
  [("name", p.name.map .text), ("version", p.version.map .text), ("main", p.main.map .text),
    ("types", p.types.map .text), ("typings", p.typings.map .text),
    ("type", p.moduleType.map .text), ("exports", p.entryPoints)]

theorem nodup_keys_fields (p : PackageDescriptor) : (Table.keys p.fields).Nodup :=
  show fieldNames.Nodup by decide

theorem toData_eq (p : PackageDescriptor) : p.toData = .object (members p.fields) := by
  simp only [toData, members, fields, List.flatMap_cons, List.flatMap_nil, List.append_assoc,
    List.append_nil]

-- ================================================================ reading

theorem reader_document {p : PackageDescriptor} (h : ∀ v ∈ p.entryPoints, v.Kept 126) :
    reader .strict p.toData.document = some p := by
  have hkeys := (keys_members p.fields).nodup p.nodup_keys_fields
  obtain ⟨f, hf, hgives⟩ := Fields.ofDocument?_object fieldNames 126 hkeys
  have hlookup {k : String} {v : Option Value} (hk : (k, v) ∈ p.fields) :=
    lookup_members p.nodup_keys_fields hk
  have hname : f.optional "name" Json.Read.text = some p.name :=
    hgives.optional_text (by decide) (hlookup (by simp [fields]))
  have hversion : f.optional "version" Json.Read.text = some p.version :=
    hgives.optional_text (by decide) (hlookup (by simp [fields]))
  have hmain : f.optional "main" Json.Read.text = some p.main :=
    hgives.optional_text (by decide) (hlookup (by simp [fields]))
  have htypes : f.optional "types" Json.Read.text = some p.types :=
    hgives.optional_text (by decide) (hlookup (by simp [fields]))
  have htypings : f.optional "typings" Json.Read.text = some p.typings :=
    hgives.optional_text (by decide) (hlookup (by simp [fields]))
  have htype : f.optional "type" Json.Read.text = some p.moduleType :=
    hgives.optional_text (by decide) (hlookup (by simp [fields]))
  have hexports : f.optional "exports" Json.Read.value = some p.entryPoints :=
    hgives.optional_value (by decide) (hlookup (by simp [fields])) h
  rw [toData_eq, reader]
  refine (congrArg (Option.bind · _) hf).trans ?_
  rw [Option.bind_some, hname, hversion, hmain, htypes, htypings, htype, hexports]
  rfl

/-- The entry points lie one level down of the 127 that strict reading admits. -/
theorem kept_of_reader {d : Document} {p : PackageDescriptor} (h : reader .strict d = some p) :
    ∀ v ∈ p.entryPoints, v.Kept 126 := by
  obtain ⟨f, hf, h⟩ := Option.bind_eq_some_iff.mp h
  obtain ⟨name, -, h⟩ := Option.bind_eq_some_iff.mp h
  obtain ⟨version, -, h⟩ := Option.bind_eq_some_iff.mp h
  obtain ⟨main, -, h⟩ := Option.bind_eq_some_iff.mp h
  obtain ⟨types, -, h⟩ := Option.bind_eq_some_iff.mp h
  obtain ⟨typings, -, h⟩ := Option.bind_eq_some_iff.mp h
  obtain ⟨moduleType, -, h⟩ := Option.bind_eq_some_iff.mp h
  obtain ⟨entryPoints, hexports, h⟩ := Option.bind_eq_some_iff.mp h
  obtain rfl := Option.some.inj h
  have hallowance : f.allowance = .strictAt 126 := Fields.allowance_of_ofDocument? hf
  have hkept := Fields.kept_of_optional hexports
  rw [hallowance] at hkept
  exact hkept

theorem whole_toData {p : PackageDescriptor} (h : ∀ v ∈ p.entryPoints, v.Whole) :
    p.toData.Whole := by
  have htext (s : Option String) : ∀ v ∈ s.map Value.text, v.Whole := by
    intro v hv
    obtain ⟨s, -, rfl⟩ := Option.map_eq_some_iff.mp hv
    exact Json.whole_text s
  have hfields : ∀ e ∈ p.fields, ∀ v ∈ e.2, v.Whole := by
    simp only [fields, List.forall_mem_cons]
    exact ⟨htext _, htext _, htext _, htext _, htext _, htext _, h, nofun⟩
  rw [toData_eq]
  refine Json.whole_object.mpr fun m hm => ?_
  obtain ⟨e, he, hm⟩ := List.mem_flatMap.mp hm
  exact hfields e he m.2 (mem_of_mem_member hm)

theorem parse_eq_ok_iff {t : String} {p : PackageDescriptor} :
    parse t = .ok p ↔ ofText? t = some p := by
  unfold parse
  cases ofText? t with
  | none => exact ⟨nofun, nofun⟩
  | some q =>
      constructor
      · exact fun h => congrArg some (Except.ok.inj h)
      · exact fun h => congrArg _ (Option.some.inj h)

/-- A descriptor that was read from some text is read from its own text again, and
so gives the same answers, for whatever conditions. -/
theorem parse_toText_of_parse {t : String} {p : PackageDescriptor} (h : parse t = .ok p)
    (hwhole : ∀ v ∈ p.entryPoints, v.Whole) :
    parse p.toText = .ok p ∧ ∀ q, parse p.toText = .ok q →
      (∀ conditions, q.rootTarget? conditions = p.rootTarget? conditions) ∧
        q.typesEntry? = p.typesEntry? ∧ q.nameAndVersion? = p.nameAndVersion? ∧
          q.entryPoints = p.entryPoints := by
  obtain ⟨d, -, hd⟩ := Option.bind_eq_some_iff.mp (parse_eq_ok_iff.mp h)
  have hread : parse p.toText = .ok p := by
    rw [parse_eq_ok_iff, ofText?, toText, Json.ofText?_of_whole (whole_toData hwhole),
      Option.bind_some]
    exact reader_document (kept_of_reader hd)
  refine ⟨hread, fun q hq => ?_⟩
  obtain rfl := Except.ok.inj (hread.symm.trans hq)
  exact ⟨fun _ => rfl, rfl, rfl, rfl⟩

/-- A descriptor with a null, a member that is no field, and conditions whose order
decides. -/
def conditional : Value :=
  .object [("exports", .object [("./cli", .text "cli.js"),
      (".", .object [("node", .text "node.js"), ("import", .text "index.mjs")])]),
    ("main", .null), ("engines", .number (.integer 18)), ("name", .text "\"quoted\"\n")]

/-- What is read of it. -/
def conditionalDescriptor : PackageDescriptor where
  name := some "\"quoted\"\n"
  version := none
  main := none
  types := none
  typings := none
  moduleType := none
  entryPoints := some (.object [("./cli", .text "cli.js"),
    (".", .object [("node", .text "node.js"), ("import", .text "index.mjs")])])

theorem parse_toText_conditional : parse conditional.toText = .ok conditionalDescriptor ∧
    (∀ v ∈ conditionalDescriptor.entryPoints, v.Whole) ∧
      parse conditionalDescriptor.toText = .ok conditionalDescriptor := by
  have hread : parse conditional.toText = .ok conditionalDescriptor := by
    rw [parse_eq_ok_iff, ofText?, Json.ofText?_of_whole (by decide)]
    rfl
  have hwhole : ∀ v ∈ conditionalDescriptor.entryPoints, v.Whole := by decide
  exact ⟨hread, hwhole, (parse_toText_of_parse hread hwhole).1⟩

end ImportResolution.PackageDescriptor
