/-
Data and the documents they are written as.

# Written and read

`Value.document` is the document of some data, and compact text is read as it
wherever the numbers are integers of at most sixty-four bits
(`value?_compact`). The recursion goes down the data, once for each way to write
a part of it: a value, the rest of an array, the rest of an object. Each nested
document costs the reader two units of fuel at most, and takes at least one
character; hence twice the length of the text is enough.

# Data that were read before

Data that stand for a document stand for their own document as well
(`within_of_data?`): the repeated keys of an object are gone by then, and
putting its members together again changes nothing.
-/
import ImportResolution.Json.Record
import ImportResolution.Proofs.Json.Leaves
import ImportResolution.Proofs.Table

namespace ImportResolution.Json

-- ============================================================= documents

mutual

/-- The document that data are written as. -/
def Value.document : Value → Document
  | .null => .null
  | .bool value => .bool value
  | .number value => .number (some value)
  | .text value => .text (some value)
  | .array items => .array (documents items)
  | .object members => .object (memberDocuments members)

/-- The document of each item. -/
def documents : List Value → List Document
  | [] => []
  | item :: items => item.document :: documents items

/-- The members of the document of an object. -/
def memberDocuments : List (String × Value) → List (Option String × Document)
  | [] => []
  | (key, value) :: members => (some key, value.document) :: memberDocuments members

end

-- =============================================================== numbers

mutual

/-- The numbers that data hold. -/
def Value.numbers : Value → List Number
  | .number n => [n]
  | .array items => itemNumbers items
  | .object members => memberNumbers members
  | _ => []

/-- The numbers of all items. -/
def itemNumbers : List Value → List Number
  | [] => []
  | item :: items => item.numbers ++ itemNumbers items

/-- The numbers of all members. -/
def memberNumbers : List (String × Value) → List Number
  | [] => []
  | (_, value) :: members => value.numbers ++ memberNumbers members

end

/-- An integer that fits sixty-four bits, with a sign or without. -/
def Number.Whole : Number → Prop
  | .integer i => FitsWord i
  | .double _ => False

/-- Every number in the data is such an integer. -/
def Value.Whole (v : Value) : Prop :=
  ∀ n ∈ v.numbers, n.Whole

instance : ∀ n : Number, Decidable n.Whole
  | .integer i => inferInstanceAs (Decidable (FitsWord i))
  | .double _ => isFalse id

instance (v : Value) : Decidable v.Whole :=
  inferInstanceAs (Decidable (∀ n ∈ v.numbers, n.Whole))

theorem whole_array {items : List Value} : (Value.array items).Whole ↔ ∀ v ∈ items, v.Whole := by
  show (∀ n ∈ itemNumbers items, n.Whole) ↔ _
  induction items with
  | nil => exact ⟨nofun, nofun⟩
  | cons item items ih =>
      rw [itemNumbers, List.forall_mem_append, List.forall_mem_cons, ih]
      rfl

theorem whole_object {members : List (String × Value)} :
    (Value.object members).Whole ↔ ∀ m ∈ members, m.2.Whole := by
  show (∀ n ∈ memberNumbers members, n.Whole) ↔ _
  induction members with
  | nil => exact ⟨nofun, nofun⟩
  | cons m members ih =>
      rw [memberNumbers, List.forall_mem_append, List.forall_mem_cons, ih]
      rfl

theorem whole_text (s : String) : (Value.text s).Whole :=
  nofun

theorem whole_texts (items : List String) : (Value.texts items).Whole := by
  refine whole_array.mpr fun v hv => ?_
  obtain ⟨s, -, rfl⟩ := List.mem_map.mp hv
  exact whole_text s

-- ================================================================ reading

theorem skipSpace_of_head {cs : List Char} (h : ∀ c, cs.head? = some c → isSpace c = false) :
    skipSpace cs = cs :=
  Text.dropWhile_of_head h

/-- What a written value starts with. -/
def StartsValue (c : Char) : Prop :=
  isSpace c = false ∧ c ≠ ']' ∧ c ≠ '\x7d'

instance (c : Char) : Decidable (StartsValue c) := inferInstanceAs (Decidable (_ ∧ _))

theorem startsValue_of_isDigit {c : Char} (h : Decimal.isDigit c = true) :
    StartsValue c ∧ c ≠ '"' ∧ c ≠ '[' ∧ c ≠ '\x7b' ∧ c ≠ 'n' ∧ c ≠ 't' ∧ c ≠ 'f' := by
  refine ⟨⟨?_, ?_⟩, ?_⟩
  · by_contra hspace
    simp only [isSpace, Bool.not_eq_false, Bool.or_eq_true, decide_eq_true_eq] at hspace
    rcases hspace with ((rfl | rfl) | rfl) | rfl <;> cases h
  · constructor <;> (rintro rfl; cases h)
  · refine ⟨?_, ?_, ?_, ?_, ?_, ?_⟩ <;> (rintro rfl; cases h)

theorem ofInt_head (i : Int) : ∃ c tail, Decimal.ofInt i = c :: tail ∧
    (StartsValue c ∧ c ≠ '"' ∧ c ≠ '[' ∧ c ≠ '\x7b' ∧ c ≠ 'n' ∧ c ≠ 't' ∧ c ≠ 'f') := by
  unfold Decimal.ofInt
  by_cases hi : i < 0
  · rw [if_pos hi]
    exact ⟨'-', _, rfl, by decide⟩
  · rw [if_neg hi]
    obtain ⟨d, ds, hd⟩ := List.exists_cons_of_ne_nil (toDigits_ne_nil i.natAbs)
    refine ⟨d, ds, hd, startsValue_of_isDigit ?_⟩
    exact Decimal.isDigit_of_mem_toDigits (n := i.natAbs) (hd ▸ List.mem_cons_self)

theorem compact_head {v : Value} (h : v.Whole) :
    ∃ c tail, v.compact = c :: tail ∧ StartsValue c := by
  match v, h with
  | .null, _ => exact ⟨_, _, rfl, by decide⟩
  | .bool true, _ => exact ⟨_, _, rfl, by decide⟩
  | .bool false, _ => exact ⟨_, _, rfl, by decide⟩
  | .number (.integer i), _ =>
      obtain ⟨c, tail, hi, hc, -⟩ := ofInt_head i
      exact ⟨c, tail, hi, hc⟩
  | .number (.double _), h => exact (h _ List.mem_cons_self).elim
  | .text _, _ => exact ⟨_, _, rfl, by decide⟩
  | .array [], _ => exact ⟨_, _, rfl, by decide⟩
  | .array (_ :: _), _ => exact ⟨_, _, rfl, by decide⟩
  | .object [], _ => exact ⟨_, _, rfl, by decide⟩
  | .object (_ :: _), _ => exact ⟨_, _, rfl, by decide⟩

theorem value?_integer {i : Int} (h : FitsWord i) (fuel : Nat) {rest : List Char}
    (hrest : EndsNumber rest) : Document.value? (fuel + 1) (Decimal.ofInt i ++ rest)
      = some (.number (some (.integer i)), rest) := by
  obtain ⟨c, tail, hi, ⟨hspace, -⟩, hquote, hbracket, hbrace, hn, ht, hf⟩ := ofInt_head i
  have hread := read?_ofInt i hrest
  have hskip : skipSpace (Decimal.ofInt i ++ rest) = Decimal.ofInt i ++ rest := by
    rw [hi]
    exact skipSpace_of_head (by rintro _ ⟨⟩; exact hspace)
  rw [Document.value?, hskip]
  rw [hi, List.cons_append] at hread ⊢
  simp only [if_neg hquote, if_neg hbracket, if_neg hbrace, if_neg hn, if_neg ht, if_neg hf, hread,
    Option.map_some, value?_numeralOf h]

theorem endsNumber_compactItems (items : List Value) (rest : List Char) :
    EndsNumber (compactItems items ++ rest) := by
  cases items with
  | nil => exact endsNumber_cons (by decide)
  | cons item items => exact endsNumber_cons (by decide)

theorem endsNumber_compactMembers (members : List (String × Value)) (rest : List Char) :
    EndsNumber (compactMembers members ++ rest) := by
  cases members with
  | nil => exact endsNumber_cons (by decide)
  | cons m members => exact endsNumber_cons (by decide)

theorem value?_array {c : Char} (h : StartsValue c) (fuel : Nat) (tail : List Char) :
    Document.value? (fuel + 1) ('[' :: c :: tail)
      = (Document.items? fuel (c :: tail)).map fun p => (.array p.1, p.2) := by
  have hspace : skipSpace (c :: tail) = c :: tail := skipSpace_of_head (by rintro _ ⟨⟩; exact h.1)
  have hopen : skipSpace ('[' :: c :: tail) = '[' :: c :: tail := rfl
  rw [Document.value?, hopen]
  dsimp only
  rw [if_neg (by decide), if_pos rfl, hspace]
  split
  · next heq =>
      injection heq with heq _
      exact absurd heq h.2.1
  · rfl

theorem value?_object {c : Char} (h : StartsValue c) (fuel : Nat) (tail : List Char) :
    Document.value? (fuel + 1) ('\x7b' :: c :: tail)
      = (Document.members? fuel (c :: tail)).map fun p => (.object p.1, p.2) := by
  have hspace : skipSpace (c :: tail) = c :: tail := skipSpace_of_head (by rintro _ ⟨⟩; exact h.1)
  have hopen : skipSpace ('\x7b' :: c :: tail) = '\x7b' :: c :: tail := rfl
  rw [Document.value?, hopen]
  dsimp only
  rw [if_neg (by decide), if_neg (by decide), if_pos rfl, hspace]
  split
  · next heq =>
      injection heq with heq _
      exact absurd heq h.2.2
  · rfl

theorem members?_key (key : String) (fuel : Nat) (cs : List Char) :
    Document.members? (fuel + 1) (quoted key ++ ':' :: cs)
      = (Document.value? fuel cs).bind fun p =>
        match skipSpace p.2 with
        | ',' :: more => (Document.members? fuel more).map fun q => ((some key, p.1) :: q.1, q.2)
        | '\x7d' :: after => some ([(some key, p.1)], after)
        | _ => none := by
  have htext :
      quoted key ++ ':' :: cs = '"' :: (key.toList.flatMap escaped ++ '"' :: ':' :: cs) := by
    simp [quoted]
  have hquote : skipSpace ('"' :: (key.toList.flatMap escaped ++ '"' :: ':' :: cs))
      = '"' :: (key.toList.flatMap escaped ++ '"' :: ':' :: cs) := rfl
  have hcolon : skipSpace (':' :: cs) = ':' :: cs := rfl
  rw [htext, Document.members?, hquote]
  simp only [quotedText?_escaped, hcolon]
  cases Document.value? fuel cs with
  | none => rfl
  | some p => rfl

/-- A member whose value is the last. -/
theorem members?_last (key : String) {fuel : Nat} {cs : List Char} {d : Document}
    {rest : List Char} (h : Document.value? fuel cs = some (d, '\x7d' :: rest)) :
    Document.members? (fuel + 1) (quoted key ++ ':' :: cs) = some ([(some key, d)], rest) := by
  have hclose : skipSpace ('\x7d' :: rest) = '\x7d' :: rest := rfl
  rw [members?_key]
  simp only [h, Option.bind_some, hclose]

/-- A member with more to come. -/
theorem members?_more (key : String) {fuel : Nat} {cs more : List Char} {d : Document}
    {ms : List (Option String × Document)} {rest : List Char}
    (h : Document.value? fuel cs = some (d, ',' :: more))
    (hmore : Document.members? fuel more = some (ms, rest)) :
    Document.members? (fuel + 1) (quoted key ++ ':' :: cs) = some ((some key, d) :: ms, rest) := by
  have hcomma : skipSpace (',' :: more) = ',' :: more := rfl
  rw [members?_key]
  simp only [h, Option.bind_some, hcomma, hmore, Option.map_some]

mutual

theorem value?_compact : ∀ (v : Value), v.Whole → ∀ fuel : Nat, 2 * v.compact.length ≤ fuel →
    ∀ {rest : List Char}, EndsNumber rest →
      Document.value? fuel (v.compact ++ rest) = some (v.document, rest)
  | .null, _, fuel, hfuel, rest, _ => by
      obtain ⟨fuel, rfl⟩ := Nat.exists_eq_add_of_le' hfuel
      rfl
  | .bool true, _, fuel, hfuel, rest, _ => by
      obtain ⟨fuel, rfl⟩ := Nat.exists_eq_add_of_le' hfuel
      rfl
  | .bool false, _, fuel, hfuel, rest, _ => by
      obtain ⟨fuel, rfl⟩ := Nat.exists_eq_add_of_le' hfuel
      rfl
  | .number (.integer i), h, fuel, hfuel, rest, hrest => by
      have hpos : 0 < (Decimal.ofInt i).length := by
        obtain ⟨c, tail, hi, -⟩ := ofInt_head i
        rw [hi]
        exact Nat.zero_lt_succ _
      have hfuel : 2 * (Decimal.ofInt i).length ≤ fuel := hfuel
      obtain ⟨fuel, rfl⟩ := Nat.exists_eq_add_of_le' (show 1 ≤ fuel by omega)
      exact value?_integer (h (.integer i) List.mem_cons_self) fuel hrest
  | .number (.double _), h, _, _, _, _ => (h _ List.mem_cons_self).elim
  | .text s, _, fuel, hfuel, rest, _ => by
      have hlength : 1 ≤ (Value.text s).compact.length := Nat.le_add_left 1 _
      obtain ⟨fuel, rfl⟩ := Nat.exists_eq_add_of_le' (show 1 ≤ fuel by omega)
      have htext : (Value.text s).compact ++ rest
          = '"' :: (s.toList.flatMap escaped ++ '"' :: rest) := by
        simp [Value.compact, quoted]
      have hspace : skipSpace ('"' :: (s.toList.flatMap escaped ++ '"' :: rest))
          = '"' :: (s.toList.flatMap escaped ++ '"' :: rest) := rfl
      rw [htext, Document.value?, hspace]
      simp only [reduceIte, quotedText?_escaped, Option.map_some, Value.document]
  | .array [], _, fuel, hfuel, rest, _ => by
      obtain ⟨fuel, rfl⟩ := Nat.exists_eq_add_of_le' hfuel
      rfl
  | .array (item :: items), h, fuel, hfuel, rest, _ => by
      have hall := List.forall_mem_cons.mp (whole_array.mp h)
      simp only [Value.compact, List.cons_append, List.length_cons] at hfuel
      obtain ⟨fuel, rfl⟩ := Nat.exists_eq_add_of_le' (show 1 ≤ fuel by omega)
      have hitems := items?_compact item items hall.1 hall.2 fuel (by omega) rest
      obtain ⟨c, tail, hcompact, hc⟩ := compact_head hall.1
      have htext : (Value.array (item :: items)).compact ++ rest
          = '[' :: (item.compact ++ (compactItems items ++ rest)) := by
        simp [Value.compact]
      rw [htext]
      rw [hcompact, List.cons_append] at hitems ⊢
      rw [value?_array hc, hitems]
      rfl
  | .object [], _, fuel, hfuel, rest, _ => by
      obtain ⟨fuel, rfl⟩ := Nat.exists_eq_add_of_le' hfuel
      rfl
  | .object ((key, value) :: members), h, fuel, hfuel, rest, _ => by
      have hall := List.forall_mem_cons.mp (whole_object.mp h)
      simp only [Value.compact, quoted, List.cons_append, List.length_cons,
        List.length_append] at hfuel
      obtain ⟨fuel, rfl⟩ := Nat.exists_eq_add_of_le' (show 1 ≤ fuel by omega)
      have hmembers := members?_compact key value members hall.1 hall.2 fuel
        (by rw [List.length_append]; omega) rest
      have htext : (Value.object ((key, value) :: members)).compact ++ rest = '\x7b' ::
          (quoted key ++ ':' :: (value.compact ++ (compactMembers members ++ rest))) := by
        simp [Value.compact]
      rw [htext]
      have hhead := value?_object (c := '"') (by decide) fuel
        (key.toList.flatMap escaped ++ ['"'] ++
          ':' :: (value.compact ++ (compactMembers members ++ rest)))
      exact hhead.trans (congrArg _ hmembers)
termination_by v => sizeOf v

theorem items?_compact : ∀ (v : Value) (items : List Value), v.Whole → (∀ v ∈ items, v.Whole) →
    ∀ fuel : Nat, 2 * (v.compact ++ compactItems items).length ≤ fuel → ∀ (rest : List Char),
      Document.items? fuel (v.compact ++ (compactItems items ++ rest))
        = some (v.document :: documents items, rest)
  | v, [], h, _, fuel, hfuel, rest => by
      simp only [compactItems, List.length_append, List.length_cons, List.length_nil] at hfuel
      obtain ⟨fuel, rfl⟩ := Nat.exists_eq_add_of_le' (show 1 ≤ fuel by omega)
      have hvalue := value?_compact v h fuel (by omega) (endsNumber_compactItems [] rest)
      rw [Document.items?, hvalue]
      rfl
  | v, item :: items, h, hitems, fuel, hfuel, rest => by
      have hall := List.forall_mem_cons.mp hitems
      simp only [compactItems, List.length_append, List.length_cons] at hfuel
      obtain ⟨fuel, rfl⟩ := Nat.exists_eq_add_of_le' (show 1 ≤ fuel by omega)
      have hvalue := value?_compact v h fuel (by omega)
        (endsNumber_compactItems (item :: items) rest)
      have hmore := items?_compact item items hall.1 hall.2 fuel
        (by rw [List.length_append]; omega) rest
      have hcomma : skipSpace (compactItems (item :: items) ++ rest)
          = ',' :: (item.compact ++ (compactItems items ++ rest)) := by
        rw [compactItems, List.cons_append, List.cons_append, List.append_assoc]
        rfl
      rw [Document.items?, hvalue]
      simp only [hcomma, hmore]
      rfl
termination_by v items => sizeOf v + sizeOf items

theorem members?_compact : ∀ (key : String) (v : Value) (members : List (String × Value)),
    v.Whole → (∀ m ∈ members, m.2.Whole) →
    ∀ fuel : Nat, 2 * (v.compact ++ compactMembers members).length + 2 ≤ fuel →
    ∀ (rest : List Char),
      Document.members? fuel (quoted key ++ ':' :: (v.compact ++ (compactMembers members ++ rest)))
        = some ((some key, v.document) :: memberDocuments members, rest)
  | key, v, [], h, _, fuel, hfuel, rest => by
      obtain ⟨fuel, rfl⟩ := Nat.exists_eq_add_of_le' (show 1 ≤ fuel by omega)
      rw [List.length_append] at hfuel
      have hvalue := value?_compact v h fuel (by omega)
        (endsNumber_compactMembers [] rest)
      exact members?_last key hvalue
  | key, v, (key', v') :: members, h, hmembers, fuel, hfuel, rest => by
      have hall := List.forall_mem_cons.mp hmembers
      simp only [compactMembers, List.length_append, List.length_cons, List.cons_append] at hfuel
      obtain ⟨fuel, rfl⟩ := Nat.exists_eq_add_of_le' (show 1 ≤ fuel by omega)
      have hvalue := value?_compact v h fuel (by omega)
        (endsNumber_compactMembers ((key', v') :: members) rest)
      have hmore := members?_compact key' v' members hall.1 hall.2 fuel
        (by rw [List.length_append]; omega) rest
      have hcomma : compactMembers ((key', v') :: members) ++ rest = ',' ::
          (quoted key' ++ ':' :: (v'.compact ++ (compactMembers members ++ rest))) := by
        simp only [compactMembers, List.cons_append, List.append_assoc]
      rw [hcomma] at hvalue ⊢
      exact members?_more key hvalue hmore
termination_by _ v members => sizeOf v + sizeOf members

end

/-- Data without numbers other than integers are read back as their document. -/
theorem ofText?_of_whole {v : Value} (h : v.Whole) :
    Document.ofText? v.toText = some v.document := by
  have hread := value?_compact v h (2 * v.compact.length + 1) (Nat.le_succ _) endsNumber_nil
  rw [List.append_nil] at hread
  rw [Document.ofText?, Value.toText, String.toList_ofList]
  simp only [hread]
  rfl

-- ======================================================== read once more

/-- The data stand for themselves within a depth: their document does. -/
def Value.Within (depth : Nat) (v : Value) : Prop :=
  v.document.data? depth = some v

theorem dataItems?_documents {depth : Nat} {items : List Value} (h : ∀ v ∈ items, v.Within depth) :
    Document.dataItems? depth (documents items) = some items := by
  induction items with
  | nil => rfl
  | cons item items ih =>
      obtain ⟨hitem, hitems⟩ := List.forall_mem_cons.mp h
      unfold Value.Within at hitem
      rw [documents, Document.dataItems?, hitem, ih hitems]
      rfl

theorem dataMembers?_memberDocuments {depth : Nat} {members : List (String × Value)}
    (h : ∀ m ∈ members, m.2.Within depth) :
    Document.dataMembers? depth (memberDocuments members) = some members := by
  induction members with
  | nil => rfl
  | cons m members ih =>
      obtain ⟨hvalue, hmembers⟩ := List.forall_mem_cons.mp h
      unfold Value.Within at hvalue
      rw [memberDocuments, Document.dataMembers?, hvalue, ih hmembers]
      rfl

mutual

/-- Data that a document stands for within a depth are within that depth. -/
theorem within_of_data? : ∀ (depth : Nat) (d : Document) {v : Value}, d.data? depth = some v →
    v.Within depth
  | depth, .null, v, h => by
      obtain rfl := Option.some.inj h
      rfl
  | depth, .bool b, v, h => by
      obtain rfl := Option.some.inj h
      rfl
  | depth, .number n, v, h => by
      rw [Document.data?] at h
      obtain ⟨n, -, rfl⟩ := Option.map_eq_some_iff.mp h
      rfl
  | depth, .text s, v, h => by
      rw [Document.data?] at h
      obtain ⟨s, -, rfl⟩ := Option.map_eq_some_iff.mp h
      rfl
  | 0, .array items, v, h => by
      cases h
  | depth + 1, .array items, v, h => by
      rw [Document.data?] at h
      obtain ⟨vs, hvs, rfl⟩ := Option.map_eq_some_iff.mp h
      have hitems := dataItems?_documents (within_of_dataItems? depth items hvs)
      rw [Value.Within, Value.document, Document.data?, hitems, Option.map_some]
  | 0, .object members, v, h => by
      cases h
  | depth + 1, .object members, v, h => by
      rw [Document.data?] at h
      obtain ⟨ms, hms, rfl⟩ := Option.map_eq_some_iff.mp h
      have hmembers := dataMembers?_memberDocuments fun m hm =>
        within_of_dataMembers? depth members hms m (Table.mem_of_mem_ofEntries hm)
      rw [Value.Within, Value.document, Document.data?, hmembers, Option.map_some,
        Table.ofEntries_of_nodup (Table.nodup_keys_ofEntries ms)]

theorem within_of_dataItems? : ∀ (depth : Nat) (items : List Document) {vs : List Value},
    Document.dataItems? depth items = some vs → ∀ v ∈ vs, v.Within depth
  | depth, [], vs, h => by
      obtain rfl := Option.some.inj h
      exact nofun
  | depth, d :: items, vs, h => by
      rw [Document.dataItems?] at h
      obtain ⟨v, hv, h⟩ := Option.bind_eq_some_iff.mp h
      obtain ⟨rest, hrest, h⟩ := Option.bind_eq_some_iff.mp h
      obtain rfl := Option.some.inj h
      exact List.forall_mem_cons.mpr
        ⟨within_of_data? depth d hv, within_of_dataItems? depth items hrest⟩

theorem within_of_dataMembers? : ∀ (depth : Nat) (members : List (Option String × Document))
    {ms : List (String × Value)}, Document.dataMembers? depth members = some ms →
      ∀ m ∈ ms, m.2.Within depth
  | depth, [], ms, h => by
      obtain rfl := Option.some.inj h
      exact nofun
  | depth, (key, d) :: members, ms, h => by
      rw [Document.dataMembers?] at h
      obtain ⟨key, -, h⟩ := Option.bind_eq_some_iff.mp h
      obtain ⟨v, hv, h⟩ := Option.bind_eq_some_iff.mp h
      obtain ⟨rest, hrest, h⟩ := Option.bind_eq_some_iff.mp h
      obtain rfl := Option.some.inj h
      exact List.forall_mem_cons.mpr
        ⟨within_of_data? depth d hv, within_of_dataMembers? depth members hrest⟩

end

end ImportResolution.Json
