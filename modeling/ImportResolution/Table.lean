/-
Tables: lists of entries in the order in which their keys first came. A later
value for a key takes the place of the earlier one (`put`), or is passed over
(`add`). Looking a key up after either is all that the rest needs to know
(`lookup_put`, `lookup_add`).
-/

namespace ImportResolution.Table

variable {κ α : Type} [DecidableEq κ]

/-- The entries with the value of `key` replaced where the key stands, or added
at the end. -/
def put (key : κ) (value : α) : List (κ × α) → List (κ × α)
  | [] => [(key, value)]
  | (k, v) :: rest => if k = key then (k, value) :: rest else (k, v) :: put key value rest

/-- The entries with `key` added at the end, unless it is there already. -/
def add (key : κ) (value : α) (entries : List (κ × α)) : List (κ × α) :=
  match entries.lookup key with
  | some _ => entries
  | none => entries ++ [(key, value)]

/-- Each key once: at its first place, with its last value. -/
def ofEntries (entries : List (κ × α)) : List (κ × α) :=
  entries.foldl (fun table e => put e.1 e.2 table) []

/-- The entry in its place among entries sorted by key, in place of one with the
same key. -/
def place (key : String) (value : α) : List (String × α) → List (String × α)
  | [] => [(key, value)]
  | (k, v) :: rest =>
    if key < k then (key, value) :: (k, v) :: rest
    else if k = key then (key, value) :: rest
    else (k, v) :: place key value rest

/-- The entries sorted by key, each key once with its last value. -/
def sorted (entries : List (String × α)) : List (String × α) :=
  entries.foldl (fun table e => place e.1 e.2 table) []

/-- The keys, in order. -/
def keys (entries : List (κ × α)) : List κ :=
  entries.map Prod.fst

-- ============================================================= look-ups

theorem lookup_cons_ite (k k' : κ) (v : α) (rest : List (κ × α)) :
    ((k', v) :: rest).lookup k = if k = k' then some v else rest.lookup k := by
  rw [List.lookup_cons]
  by_cases h : k = k'
  · subst h; simp
  · have hb : (k == k') = false := by simpa using h
    simp [hb, h]

theorem lookup_put (key k : κ) (value : α) (entries : List (κ × α)) :
    (put key value entries).lookup k = if k = key then some value else entries.lookup k := by
  induction entries with
  | nil => simp [put, lookup_cons_ite]
  | cons e rest ih =>
    obtain ⟨k', v⟩ := e
    unfold put
    split
    · next h => subst h; simp only [lookup_cons_ite]; split <;> rfl
    · simp only [lookup_cons_ite, ih]; grind

theorem lookup_append_singleton (key k : κ) (value : α) (entries : List (κ × α)) :
    (entries ++ [(key, value)]).lookup k
      = (entries.lookup k).or (if k = key then some value else none) := by
  induction entries with
  | nil => simp [lookup_cons_ite]
  | cons e rest ih =>
    obtain ⟨k', v⟩ := e
    simp only [List.cons_append, lookup_cons_ite, ih]
    split <;> simp

theorem lookup_add (key k : κ) (value : α) (entries : List (κ × α)) :
    (add key value entries).lookup k
      = (entries.lookup k).or (if k = key then some value else none) := by
  unfold add
  split
  · next v h =>
    by_cases hk : k = key
    · subst hk; simp [h]
    · simp [hk]
  · exact lookup_append_singleton key k value entries

-- ================================================================= keys

theorem mem_keys_put {key k : κ} {value : α} {entries : List (κ × α)} :
    k ∈ keys (put key value entries) ↔ k = key ∨ k ∈ keys entries := by
  induction entries with
  | nil => simp [put, keys]
  | cons e rest ih =>
    obtain ⟨k', v⟩ := e
    unfold put
    split
    · next h => subst h; simp [keys]
    · simp only [keys, List.map_cons, List.mem_cons] at ih ⊢
      rw [ih]
      grind

/-- Putting an entry keeps the keys distinct. -/
theorem nodup_keys_put {key : κ} {value : α} {entries : List (κ × α)}
    (h : (keys entries).Nodup) : (keys (put key value entries)).Nodup := by
  induction entries with
  | nil => simp [put, keys]
  | cons e rest ih =>
    obtain ⟨k', v⟩ := e
    simp only [keys, List.map_cons, List.nodup_cons] at h
    unfold put
    split
    · simpa [keys] using h
    · next hne =>
      simp only [keys, List.map_cons, List.nodup_cons]
      refine ⟨?_, ih h.2⟩
      intro hmem
      rcases mem_keys_put.1 hmem with heq | hmem
      · exact hne heq
      · exact h.1 hmem

/-- The keys of a table built from entries are distinct. -/
theorem nodup_keys_ofEntries (entries : List (κ × α)) : (keys (ofEntries entries)).Nodup := by
  unfold ofEntries
  suffices h : ∀ table : List (κ × α), (keys table).Nodup →
      (keys (entries.foldl (fun table e => put e.1 e.2 table) table)).Nodup from
    h [] (by simp [keys])
  induction entries with
  | nil => intro table h; exact h
  | cons e rest ih => intro table h; exact ih _ (nodup_keys_put h)

end ImportResolution.Table
