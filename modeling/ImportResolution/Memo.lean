/-
Memory of answers by key. An answer that is in memory stays: of two answers for
one key the first is kept, so that all who ask agree. Every look-up is counted,
as a hit or as a miss.
-/
import ImportResolution.Json.Value
import ImportResolution.Table

namespace ImportResolution

/-- Answers by key, with the look-ups so far. -/
structure Memo (κ α : Type) where
  entries : List (κ × α)
  hits : Nat
  misses : Nat
deriving Repr

namespace Memo

variable {κ α : Type} [DecidableEq κ]

/-- The memory without answers. -/
def empty : Memo κ α := ⟨[], 0, 0⟩

/-- How many answers are in memory. -/
def size (m : Memo κ α) : Nat := m.entries.length

/-- The answer for a key, without counting the look-up. -/
def peek? (m : Memo κ α) (key : κ) : Option α :=
  m.entries.lookup key

/-- The answer for a key, and the memory with the look-up counted. -/
def get? (m : Memo κ α) (key : κ) : Option α × Memo κ α :=
  match m.peek? key with
  | some answer => (some answer, { m with hits := m.hits + 1 })
  | none => (none, { m with misses := m.misses + 1 })

/-- The memory with an answer for a key that has none, and the answer that is
kept for it. -/
def insert (m : Memo κ α) (key : κ) (answer : α) : α × Memo κ α :=
  match m.peek? key with
  | some first => (first, m)
  | none => (answer, { m with entries := m.entries ++ [(key, answer)] })

/-- The part of the look-ups that were hits; none of none. -/
def hitRate (m : Memo κ α) : Float :=
  if m.hits + m.misses = 0 then 0.0 else m.hits.toFloat / (m.hits + m.misses).toFloat

/-- A number that is not negative, to the nearest whole one; a half goes to the
even neighbour. -/
def nearestWhole (x : Float) : Nat :=
  let below := x.floor
  let n := below.toUInt64.toNat
  if x - below < 0.5 then n
  else if 0.5 < x - below then n + 1
  else if n % 2 = 0 then n else n + 1

/-- The hit rate in whole percent. -/
def hitPercent (m : Memo κ α) : Nat :=
  nearestWhole (m.hitRate * 100.0)

/-- The counts as data. -/
def toData (m : Memo κ α) : Json.Value :=
  .object [("entries", .count m.size), ("hits", .count m.hits), ("misses", .count m.misses)]

-- ================================================================== laws

theorem peek?_insert (m : Memo κ α) (key k : κ) (answer : α) :
    (m.insert key answer).2.peek? k
      = (m.peek? k).or (if k = key then some answer else none) := by
  unfold Memo.insert
  cases h : m.peek? key with
  | some first =>
    by_cases hk : k = key
    · subst hk; simp [h]
    · simp [hk]
  | none => exact Table.lookup_append_singleton key k answer m.entries

/-- What an insertion answers is what is in memory afterwards. -/
theorem peek?_insert_self (m : Memo κ α) (key : κ) (answer : α) :
    (m.insert key answer).2.peek? key = some (m.insert key answer).1 := by
  rw [peek?_insert]
  unfold Memo.insert
  cases m.peek? key <;> simp

/-- A look-up changes no answer. -/
theorem peek?_get? (m : Memo κ α) (key k : κ) : (m.get? key).2.peek? k = m.peek? k := by
  unfold Memo.get?
  split <;> rfl

end Memo

end ImportResolution
