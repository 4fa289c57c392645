/-
Tables made of entries, and tables made anew of tables.

Nothing is in a table that was not among its entries, and entries with distinct
keys are a table already, as ascending entries are a sorted one; so making a
table of a table changes nothing.
-/
import ImportResolution.Table
import Mathlib.Data.List.Nodup

namespace ImportResolution.Table

/-- Putting entries into a table one after another brings in only these. -/
theorem mem_of_mem_foldl {β : Type} (insert : β → List β → List β)
    (hinsert : ∀ b table c, c ∈ insert b table → c = b ∨ c ∈ table) {entries table : List β} {e : β}
    (h : e ∈ entries.foldl (fun table b => insert b table) table) : e ∈ table ∨ e ∈ entries := by
  induction entries generalizing table with
  | nil => exact Or.inl h
  | cons b rest ih =>
      rcases ih h with h | h
      · exact (hinsert b table e h).elim (fun heq => Or.inr (heq ▸ List.mem_cons_self)) Or.inl
      · exact Or.inr (List.mem_cons_of_mem b h)

-- ================================================= in order of appearance

section

variable {κ α : Type} [DecidableEq κ]

theorem lookup_eq_none_iff {key : κ} {entries : List (κ × α)} :
    entries.lookup key = none ↔ key ∉ keys entries := by
  rw [List.lookup_eq_none_iff, keys, List.mem_map]
  simp only [bne_iff_ne, not_exists, not_and]
  exact forall₂_congr fun _ _ => ne_comm

/-- Where keys are distinct, each is found with its own value. -/
theorem lookup_eq_some_iff {key : κ} {value : α} {entries : List (κ × α)}
    (h : (keys entries).Nodup) : entries.lookup key = some value ↔ (key, value) ∈ entries := by
  induction entries with
  | nil => exact iff_of_false nofun List.not_mem_nil
  | cons e rest ih =>
      obtain ⟨hnew, hrest⟩ := List.nodup_cons.mp h
      rw [lookup_cons_ite, List.mem_cons, Prod.mk.injEq]
      by_cases hkey : key = e.1
      · have hmem : (key, value) ∉ rest := fun hmem => hnew (hkey ▸ List.mem_map_of_mem hmem)
        rw [if_pos hkey, Option.some.injEq, or_iff_left hmem, and_iff_right hkey, eq_comm]
      · rw [if_neg hkey, ih hrest, or_iff_right fun h => hkey h.1]

theorem put_of_new {key : κ} {value : α} {entries : List (κ × α)} (h : key ∉ keys entries) :
    put key value entries = entries ++ [(key, value)] := by
  induction entries with
  | nil => rfl
  | cons e rest ih =>
      obtain ⟨hne, hrest⟩ := not_or.mp (mt List.mem_cons.mpr h)
      rw [put, if_neg (Ne.symm hne), ih hrest, List.cons_append]

/-- Entries with distinct keys are a table already. -/
theorem ofEntries_of_nodup {entries : List (κ × α)} (h : (keys entries).Nodup) :
    ofEntries entries = entries := by
  suffices hfold : ∀ table, (keys (table ++ entries)).Nodup →
      entries.foldl (fun table e => put e.1 e.2 table) table = table ++ entries from hfold [] h
  clear h
  induction entries with
  | nil => exact fun table _ => (List.append_nil table).symm
  | cons e rest ih =>
      intro table h
      have hnew : e.1 ∉ keys table := by
        rw [keys, List.map_append, List.map_cons, List.nodup_middle, List.nodup_cons] at h
        exact fun hmem => h.1 (List.mem_append_left _ hmem)
      rw [List.append_cons] at h ⊢
      rw [List.foldl_cons, put_of_new hnew, ih _ h]

theorem mem_of_mem_put {key : κ} {value : α} {entries : List (κ × α)} {e : κ × α}
    (h : e ∈ put key value entries) : e = (key, value) ∨ e ∈ entries := by
  induction entries with
  | nil => exact Or.inl (List.mem_singleton.mp h)
  | cons entry rest ih =>
      obtain ⟨k, v⟩ := entry
      unfold put at h
      split at h
      · next heq =>
          subst heq
          exact (List.mem_cons.mp h).imp_right (List.mem_cons_of_mem _)
      · rcases List.mem_cons.mp h with rfl | h
        · exact Or.inr List.mem_cons_self
        · exact (ih h).imp_right (List.mem_cons_of_mem _)

theorem mem_of_mem_ofEntries {entries : List (κ × α)} {e : κ × α} (h : e ∈ ofEntries entries) :
    e ∈ entries :=
  (mem_of_mem_foldl (fun e table => put e.1 e.2 table) (fun _ _ _ => mem_of_mem_put) h)
    |>.resolve_left List.not_mem_nil

end

-- ================================================================= sorted

variable {α : Type} {entries : List (String × α)}

/-- Each key comes before the next one. -/
def Ascending (entries : List (String × α)) : Prop :=
  entries.Pairwise fun e f => e.1 < f.1

theorem mem_of_mem_place {key : String} {value : α} {e : String × α}
    (h : e ∈ place key value entries) : e = (key, value) ∨ e ∈ entries := by
  induction entries with
  | nil => exact Or.inl (List.mem_singleton.mp h)
  | cons entry rest ih =>
      obtain ⟨k, v⟩ := entry
      unfold place at h
      split at h
      · exact List.mem_cons.mp h
      split at h
      · exact (List.mem_cons.mp h).imp_right (List.mem_cons_of_mem _)
      · rcases List.mem_cons.mp h with rfl | h
        · exact Or.inr List.mem_cons_self
        · exact (ih h).imp_right (List.mem_cons_of_mem _)

theorem ascending_place (key : String) (value : α) (h : Ascending entries) :
    Ascending (place key value entries) := by
  induction entries with
  | nil => exact List.pairwise_singleton _ _
  | cons entry rest ih =>
      obtain ⟨k, v⟩ := entry
      obtain ⟨hfirst, hrest⟩ := List.pairwise_cons.mp h
      unfold place
      split
      · next hlt =>
          refine List.pairwise_cons.mpr ⟨fun e he => ?_, h⟩
          rcases List.mem_cons.mp he with rfl | he
          · exact hlt
          · exact String.lt_trans hlt (hfirst e he)
      · next hge =>
          split
          · next heq =>
              subst heq
              exact List.pairwise_cons.mpr ⟨hfirst, hrest⟩
          · next hne =>
              refine List.pairwise_cons.mpr ⟨fun e he => ?_, ih hrest⟩
              rcases mem_of_mem_place he with rfl | he
              · by_contra hnot
                exact hne (String.le_antisymm (String.not_lt.mp hge) (String.not_lt.mp hnot))
              · exact hfirst e he

theorem ascending_sorted (entries : List (String × α)) : Ascending (sorted entries) := by
  suffices hfold : ∀ table : List (String × α), Ascending table →
      Ascending (entries.foldl (fun table e => place e.1 e.2 table) table) from
    hfold [] List.Pairwise.nil
  induction entries with
  | nil => exact fun table h => h
  | cons e rest ih => exact fun table h => ih _ (ascending_place e.1 e.2 h)

theorem mem_of_mem_sorted {e : String × α} (h : e ∈ sorted entries) : e ∈ entries :=
  (mem_of_mem_foldl (fun e table => place e.1 e.2 table)
    (fun _ _ _ => mem_of_mem_place) h) |>.resolve_left List.not_mem_nil

theorem place_of_last {key : String} {value : α} (h : ∀ e ∈ entries, e.1 < key) :
    place key value entries = entries ++ [(key, value)] := by
  induction entries with
  | nil => rfl
  | cons entry rest ih =>
      obtain ⟨hlt, hrest⟩ := List.forall_mem_cons.mp h
      have hne : entry.1 ≠ key := by
        intro heq
        rw [heq] at hlt
        exact String.lt_irrefl key hlt
      rw [place, if_neg (String.lt_asymm hlt), if_neg hne, ih hrest, List.cons_append]

/-- Ascending entries are a sorted table already. -/
theorem sorted_of_ascending (h : Ascending entries) : sorted entries = entries := by
  suffices hfold : ∀ table : List (String × α), Ascending (table ++ entries) →
      entries.foldl (fun table e => place e.1 e.2 table) table = table ++ entries from hfold [] h
  clear h
  induction entries with
  | nil => exact fun table _ => (List.append_nil table).symm
  | cons e rest ih =>
      intro table h
      have hlast : ∀ d ∈ table, d.1 < e.1 := fun d hd =>
        (List.pairwise_append.mp h).2.2 d hd e List.mem_cons_self
      rw [List.append_cons] at h ⊢
      rw [List.foldl_cons, place_of_last hlast, ih _ h]

theorem Ascending.nodup (h : Ascending entries) : (keys entries).Nodup := by
  refine List.pairwise_map.mpr (h.imp fun hlt heq => ?_)
  rw [heq] at hlt
  exact String.lt_irrefl _ hlt

end ImportResolution.Table
