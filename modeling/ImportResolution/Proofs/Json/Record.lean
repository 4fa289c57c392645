/-
Records read from the documents they were written as.

A record is written by name, each name once; so the reader finds under a name
what was written under it (`Fields.Gives`), and a field comes out as what its own
reader makes of the document of its value.
-/
import ImportResolution.Proofs.Json.Document

namespace ImportResolution.Json

variable {α : Type}

-- ============================================================ allowances

/-- The allowance of strict JSON where some depth is left. -/
def Allowance.strictAt (depth : Nat) : Allowance :=
  { Allowance.strict with depth }

theorem Allowance.inner?_strictAt (depth : Nat) :
    (strictAt (depth + 1)).inner? = some (strictAt depth) := rfl

-- ================================================================ fields

theorem knownMembers?_memberDocuments {a : Allowance} (ha : a.readsAll = false)
    (names : List String) {members : List (String × Value)} (h : (Table.keys members).Nodup) :
    knownMembers? a names (memberDocuments members)
      = some ((members.filter (·.1 ∈ names)).map fun m => (m.1, m.2.document)) := by
  induction members with
  | nil => rfl
  | cons m members ih =>
      obtain ⟨hnew, hrest⟩ := List.nodup_cons.mp h
      have hnone : ∀ v, (m.1, v) ∉ members := fun v hv => hnew (List.mem_map.mpr ⟨_, hv, rfl⟩)
      rw [memberDocuments, knownMembers?, ih hrest, List.filter_cons]
      by_cases hm : m.1 ∈ names
      · simp [hm, hnone]
      · simp [hm, ha]

theorem lookup_filter_map {names : List String} {k : String} (hk : k ∈ names)
    (members : List (String × Value)) :
    ((members.filter (·.1 ∈ names)).map fun m => (m.1, m.2.document)).lookup k
      = (members.lookup k).map Value.document := by
  induction members with
  | nil => rfl
  | cons m members ih =>
      obtain ⟨key, v⟩ := m
      rw [List.filter_cons, Table.lookup_cons_ite]
      by_cases hm : key ∈ names
      · rw [if_pos (decide_eq_true hm), List.map_cons, Table.lookup_cons_ite, ih]
        split <;> rfl
      · have hne : k ≠ key := fun heq => hm (heq ▸ hk)
        rw [if_neg (by simpa using hm), if_neg hne, ih]

/-- What is found under each name is what was written under it. -/
structure Fields.Gives (f : Fields) (a : Allowance) (names : List String)
    (members : List (String × Value)) : Prop where
  allowance : f.allowance = a
  byName : f.byName = true
  lookup : ∀ k ∈ names, f.given.lookup k = (members.lookup k).map Value.document

theorem Fields.ofDocument?_object (names : List String) (depth : Nat)
    {members : List (String × Value)} (h : (Table.keys members).Nodup) :
    ∃ f, Fields.ofDocument? names (.strictAt (depth + 1)) (Value.object members).document = some f ∧
      f.Gives (.strictAt depth) names members := by
  have hknown := knownMembers?_memberDocuments (a := .strictAt depth) rfl names h
  refine ⟨⟨.strictAt depth, true, (members.filter (·.1 ∈ names)).map fun m => (m.1, m.2.document)⟩,
    ?_, rfl, rfl, fun k hk => lookup_filter_map hk members⟩
  rw [Value.document, Fields.ofDocument?, Allowance.inner?_strictAt, Option.bind_eq_bind,
    Option.bind_some, hknown]
  rfl

/-- What an optional field of any data is like after it was read: null counts as
absence, and the data stand for themselves. -/
def Value.Kept (depth : Nat) (v : Value) : Prop :=
  v ≠ .null ∧ v.Within depth

namespace Fields.Gives

variable {f : Fields} {a : Allowance} {names : List String} {members : List (String × Value)}
  {k : String} {v : Value}

theorem required (hf : f.Gives a names members) (hk : k ∈ names) (h : members.lookup k = some v)
    (read : Reader α) : f.required k read = read a v.document := by
  rw [Fields.required, hf.lookup k hk, h, hf.allowance]
  rfl

theorem defaulted (hf : f.Gives a names members) (hk : k ∈ names)
    (h : members.lookup k = some v) (default : α) (read : Reader α) :
    f.defaulted k default read = read a v.document := by
  rw [Fields.defaulted, hf.lookup k hk, h, hf.allowance]
  rfl

theorem defaulted_none (hf : f.Gives a names members) (hk : k ∈ names)
    (h : members.lookup k = none) (default : α) (read : Reader α) :
    f.defaulted k default read = some default := by
  rw [Fields.defaulted, hf.lookup k hk, h]
  rfl

theorem optional_text (hf : f.Gives a names members) (hk : k ∈ names) {s : Option String}
    (h : members.lookup k = s.map .text) : f.optional k Read.text = some s := by
  rw [Fields.optional, hf.lookup k hk, h, hf.byName]
  cases s with
  | none => rfl
  | some s => rfl

theorem optional_value (hf : f.Gives a names members) (hk : k ∈ names) {v : Option Value}
    (h : members.lookup k = v) (hv : ∀ w ∈ v, w.Kept a.depth) :
    f.optional k Read.value = some v := by
  rw [Fields.optional, hf.lookup k hk, h, hf.byName, hf.allowance]
  cases v with
  | none => rfl
  | some w =>
      obtain ⟨hnull, hwithin⟩ := hv w rfl
      show Read.optional Read.value a w.document = some (some w)
      have hread : Read.value a w.document = some w := hwithin
      rw [Read.optional, hread]
      · rfl
      · cases w with
        | null => exact absurd rfl hnull
        | _ => exact nofun

end Fields.Gives

-- ================================================================= lists

theorem mapM_document {read : Document → Option α} {write : α → Value} {xs : List α}
    (h : ∀ x ∈ xs, read (write x).document = some x) :
    (documents (xs.map write)).mapM read = some xs := by
  induction xs with
  | nil => rfl
  | cons x xs ih =>
      obtain ⟨hx, hxs⟩ := List.forall_mem_cons.mp h
      rw [List.map_cons, documents, List.mapM_cons, hx, ih hxs]
      rfl

/-- A list is read back if its items are. -/
theorem Read.list_document {read : Reader α} {write : α → Value} {xs : List α} {depth : Nat}
    (h : ∀ x ∈ xs, read (.strictAt depth) (write x).document = some x) :
    Read.list read (.strictAt (depth + 1)) (Value.array (xs.map write)).document = some xs := by
  show ((Allowance.strictAt (depth + 1)).inner?.bind fun a =>
    (documents (xs.map write)).mapM (read a)) = some xs
  rw [Allowance.inner?_strictAt, Option.bind_some, mapM_document h]

theorem exists_of_mapM {read : Document → Option α} {ds : List Document} {xs : List α}
    (h : ds.mapM read = some xs) : ∀ x ∈ xs, ∃ d, read d = some x := by
  induction ds generalizing xs with
  | nil =>
      obtain rfl := Option.some.inj h
      exact nofun
  | cons d ds ih =>
      rw [List.mapM_cons] at h
      obtain ⟨x, hx, h⟩ := Option.bind_eq_some_iff.mp h
      obtain ⟨rest, hrest, h⟩ := Option.bind_eq_some_iff.mp h
      obtain rfl := Option.some.inj h
      exact List.forall_mem_cons.mpr ⟨⟨d, hx⟩, ih hrest⟩

/-- The items of a list that was read were read. -/
theorem Read.of_list {read : Reader α} {xs : List α} {depth : Nat} {d : Document}
    (h : Read.list read (.strictAt (depth + 1)) d = some xs) :
    ∀ x ∈ xs, ∃ d, read (.strictAt depth) d = some x := by
  cases d with
  | array ds => exact exists_of_mapM h
  | _ => cases h

-- ======================================================= what was read

theorem Fields.allowance_of_ofDocument? {names : List String} {depth : Nat} {d : Document}
    {f : Fields} (h : Fields.ofDocument? names (.strictAt (depth + 1)) d = some f) :
    f.allowance = .strictAt depth := by
  cases d with
  | object members =>
      obtain ⟨known, -, h⟩ := Option.bind_eq_some_iff.mp h
      obtain rfl := Option.some.inj h
      rfl
  | array items =>
      rw [Fields.ofDocument?, Allowance.inner?_strictAt, Option.bind_eq_bind, Option.bind_some] at h
      split at h
      · obtain rfl := Option.some.inj h
        rfl
      · cases h
  | _ => cases h

theorem eq_null_of_data? {depth : Nat} {d : Document} (h : d.data? depth = some .null) :
    d = .null := by
  cases d with
  | null => rfl
  | bool b => cases h
  | number n =>
      rw [Document.data?] at h
      obtain ⟨n, -, hn⟩ := Option.map_eq_some_iff.mp h
      cases hn
  | text s =>
      rw [Document.data?] at h
      obtain ⟨s, -, hs⟩ := Option.map_eq_some_iff.mp h
      cases hs
  | array items =>
      cases depth with
      | zero => cases h
      | succ depth =>
          rw [Document.data?] at h
          obtain ⟨vs, -, hvs⟩ := Option.map_eq_some_iff.mp h
          cases hvs
  | object members =>
      cases depth with
      | zero => cases h
      | succ depth =>
          rw [Document.data?] at h
          obtain ⟨ms, -, hms⟩ := Option.map_eq_some_iff.mp h
          cases hms

theorem Read.kept_of_optional {a : Allowance} {d : Document} {w : Value}
    (h : Read.optional Read.value a d = some (some w)) : w.Kept a.depth := by
  unfold Read.optional at h
  split at h
  · cases h
  · next hnull =>
      obtain ⟨v, hv, heq⟩ := Option.map_eq_some_iff.mp h
      obtain rfl := Option.some.inj heq
      refine ⟨?_, within_of_data? a.depth d hv⟩
      rintro rfl
      exact hnull (eq_null_of_data? hv)

theorem Fields.kept_of_optional {f : Fields} {k : String} {v : Option Value}
    (h : f.optional k Read.value = some v) : ∀ w ∈ v, w.Kept f.allowance.depth := by
  intro w hw
  obtain rfl := Option.mem_def.mp hw
  rw [Fields.optional] at h
  split at h
  · exact Read.kept_of_optional h
  · split at h <;> cases h

theorem Fields.of_defaulted {f : Fields} {k : String} {default x : α} {read : Reader α}
    (h : f.defaulted k default read = some x) :
    x = default ∨ ∃ d, read f.allowance d = some x := by
  rw [Fields.defaulted] at h
  split at h
  · exact Or.inr ⟨_, h⟩
  · exact Or.inl (Option.some.inj h).symm

end ImportResolution.Json
