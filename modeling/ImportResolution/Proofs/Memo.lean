/-
What the counts of a memory tell. Whoever looks a key up and, where nothing is
found, brings an answer for it at once leaves the memory with one entry for each
different key, one miss for each entry, and a hit for every other look-up
(`Ledger`). The two things that can happen to a key keep this up
(`Ledger.of_known`, `Ledger.of_unknown`); which answers are brought does not
matter.
-/
import ImportResolution.Proofs.Steady
import Mathlib.Data.List.Dedup

namespace ImportResolution.Memo

variable {κ α : Type} [DecidableEq κ] {m : Memo κ α} {key : κ} {answer : α}

theorem get?_snd_of_hit (h : (m.get? key).1 = some answer) :
    (m.get? key).2 = { m with hits := m.hits + 1 } := by
  rw [get?_fst] at h
  unfold Memo.get?
  rw [h]

theorem get?_snd_of_miss (h : (m.get? key).1 = none) :
    (m.get? key).2 = { m with misses := m.misses + 1 } := by
  rw [get?_fst] at h
  unfold Memo.get?
  rw [h]

theorem insert_of_known {first : α} (h : m.peek? key = some first) (answer : α) :
    m.insert key answer = (first, m) := by
  unfold Memo.insert
  rw [h]

theorem insert_of_unknown (h : m.peek? key = none) (answer : α) :
    m.insert key answer = (answer, { m with entries := m.entries ++ [(key, answer)] }) := by
  unfold Memo.insert
  rw [h]

/-- A key has an answer exactly if it is among the keys. -/
theorem mem_keys_iff : key ∈ Table.keys m.entries ↔ (m.peek? key).isSome = true := by
  rw [Memo.peek?, List.lookup_isSome_iff, Table.keys, List.mem_map]
  constructor
  · rintro ⟨e, he, rfl⟩
    exact ⟨e, he, beq_self_eq_true _⟩
  · rintro ⟨e, he, hkey⟩
    exact ⟨e, he, (beq_iff_eq.mp hkey).symm⟩

/-- An insertion enters its key unless the key is there, and no key twice. -/
theorem keys_insert (m : Memo κ α) (key : κ) (answer : α) (h : (Table.keys m.entries).Nodup) :
    (Table.keys (m.insert key answer).2.entries).Nodup ∧
      ∀ k, k ∈ Table.keys (m.insert key answer).2.entries
        ↔ k ∈ Table.keys m.entries ∨ k = key := by
  cases hk : m.peek? key with
  | some first =>
      rw [insert_of_known hk]
      have hmem : key ∈ Table.keys m.entries := mem_keys_iff.mpr (by rw [hk]; rfl)
      refine ⟨h, fun k => ⟨Or.inl, ?_⟩⟩
      rintro (hk | rfl)
      · exact hk
      · exact hmem
  | none =>
      rw [insert_of_unknown hk]
      have hnew : key ∉ Table.keys m.entries := by
        rw [mem_keys_iff, hk]
        exact Bool.false_ne_true
      have hkeys : Table.keys (m.entries ++ [(key, answer)]) = Table.keys m.entries ++ [key] := by
        rw [Table.keys, List.map_append]
        rfl
      rw [hkeys]
      refine ⟨h.append (List.nodup_singleton key) fun k hk hk' => ?_, fun k => ?_⟩
      · rw [List.mem_singleton.mp hk'] at hk
        exact hnew hk
      · rw [List.mem_append, List.mem_singleton]

/-- A memory counts its look-ups and its insertions touch no count. -/
theorem counts_insert (m : Memo κ α) (key : κ) (answer : α) :
    (m.insert key answer).2.hits = m.hits ∧ (m.insert key answer).2.misses = m.misses := by
  unfold Memo.insert
  cases m.peek? key with
  | some first => exact ⟨rfl, rfl⟩
  | none => exact ⟨rfl, rfl⟩

/-- A memory in which no key is twice has as many entries as some keys are different,
if they are its keys. -/
theorem size_eq_of_keys {keys : List κ} (hnodup : (Table.keys m.entries).Nodup)
    (hkeys : ∀ key, key ∈ Table.keys m.entries ↔ key ∈ keys) :
    m.size = keys.dedup.length := by
  have hperm : (Table.keys m.entries).Perm keys.dedup :=
    (List.perm_ext_iff_of_nodup hnodup (List.nodup_dedup _)).mpr fun key => by
      rw [hkeys, List.mem_dedup]
  rw [← hperm.length_eq, size, Table.keys, List.length_map]

-- ============================================================= the ledger

/-- The keys were looked up one after the other, and for each that was missed an
answer was brought before the next. -/
structure Ledger (m : Memo κ α) (asked : List κ) : Prop where
  /-- No key is in memory twice. -/
  nodup : (Table.keys m.entries).Nodup
  /-- The keys in memory are those that were looked up. -/
  keys : ∀ key, key ∈ Table.keys m.entries ↔ key ∈ asked
  /-- Every miss has left an entry. -/
  missed : m.misses = m.size
  /-- Every look-up was a hit or a miss. -/
  counted : m.hits + m.misses = asked.length

omit [DecidableEq κ] in
theorem ledger_empty : (empty : Memo κ α).Ledger [] where
  nodup := List.nodup_nil
  keys := fun _ => Iff.rfl
  missed := rfl
  counted := rfl

variable {asked : List κ}

/-- A key that has an answer is hit once more. -/
theorem Ledger.of_known (h : m.Ledger asked) (hk : m.peek? key = some answer) :
    (m.get? key).2.Ledger (asked ++ [key]) := by
  have hcounted := h.counted
  rw [get?_snd_of_hit ((m.get?_fst key).trans hk)]
  refine ⟨h.nodup, fun k => (h.keys k).trans ?_, h.missed, ?_⟩
  · have hmem : key ∈ asked := (h.keys key).mp (mem_keys_iff.mpr (by rw [hk]; rfl))
    rw [List.mem_append, List.mem_singleton]
    constructor
    · exact Or.inl
    · rintro (hk | rfl)
      · exact hk
      · exact hmem
  · rw [List.length_append, List.length_singleton, ← hcounted]
    exact Nat.add_right_comm ..

/-- A key that has none is missed and entered. -/
theorem Ledger.of_unknown (h : m.Ledger asked) (hk : m.peek? key = none) (answer : α) :
    ((m.get? key).2.insert key answer).2.Ledger (asked ++ [key]) := by
  have hcounted := h.counted
  have hmissed := h.missed
  obtain ⟨hnodup, hkeys⟩ := keys_insert m key answer h.nodup
  rw [insert_of_unknown hk] at hnodup hkeys
  rw [get?_snd_of_miss ((m.get?_fst key).trans hk)]
  have hk' : ({ m with misses := m.misses + 1 } : Memo κ α).peek? key = none := hk
  rw [insert_of_unknown hk']
  refine ⟨hnodup, fun k => (hkeys k).trans ?_, ?_, ?_⟩
  · rw [h.keys, List.mem_append, List.mem_singleton]
  · show m.misses + 1 = (m.entries ++ [(key, answer)]).length
    rw [hmissed, List.length_append]
    rfl
  · rw [List.length_append, List.length_singleton, ← hcounted]
    rfl

/-- There are as many entries as there are different keys that were looked up. -/
theorem Ledger.size_eq (h : m.Ledger asked) : m.size = asked.dedup.length :=
  size_eq_of_keys h.nodup h.keys

end ImportResolution.Memo
