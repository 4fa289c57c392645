/-
How the ways of putting steps of reading together act on a text, given what the
parts do there. Each is said once for a part that succeeds and once for a part
that misses, so that a longer step is read off its parts in the order in which
the text is passed over.
-/
import ImportResolution.Proofs.Text.Segments
import ImportResolution.Toml.Scan
import Mathlib.Data.List.Basic

namespace ImportResolution.Toml.Scan

variable {α β : Type} {p q : Scan α} {a : α} {as : List α} {cs rest stop : Place}

-- ============================================================== sequences

theorem andThen_done {next : α → Scan β} (h : p cs = .done a rest) :
    p.andThen next cs = next a rest := by
  rw [andThen, h]

theorem bind_done {next : α → Scan β} (h : p cs = .done a rest) :
    (p >>= next) cs = next a rest :=
  andThen_done h

theorem bind_missed {next : α → Scan β} (h : p cs = .missed stop) :
    (p >>= next) cs = .missed stop := by
  show p.andThen next cs = _
  rw [andThen, h]

theorem here_bind {next : Place → Scan β} : (here >>= next) cs = next cs cs := rfl

theorem commit_done (h : p cs = .done a rest) : p.commit cs = .done a rest := by
  rw [commit, h]

-- =========================================================== alternatives

theorem orElse_done (h : p cs = .done a rest) : p.orElse q cs = .done a rest := by
  rw [orElse, h]

theorem orElse_missed (h : p cs = .missed stop) : p.orElse q cs = q cs := by
  rw [orElse, h]

theorem maybe_done (h : p cs = .done a rest) : p.maybe cs = .done (some a) rest := by
  rw [maybe, h]

theorem maybe_missed (h : p cs = .missed stop) : p.maybe cs = .done none cs := by
  rw [maybe, h]

theorem which_done {required : α → Bool} (h : p cs = .done a rest) (ha : required a = true) :
    which p required cs = .done a rest := by
  rw [which, h]
  exact if_pos ha

-- ============================================================= characters

theorem ne_of_holds {class? : Char → Bool} {c d : Char} (hc : class? c = true)
    (hd : class? d = false) : c ≠ d := by
  rintro rfl
  rw [hc] at hd
  cases hd

theorem word_append (w rest : List Char) : word w (w ++ rest) = .done () rest := by
  have hafter : Text.afterStart? w (w ++ rest) = some rest := by
    induction w with
    | nil => rfl
    | cons c w ih => rw [List.cons_append, Text.afterStart?, if_pos rfl, ih]
  rw [word, hafter]

theorem word_single (c : Char) (rest : Place) : word [c] (c :: rest) = .done () rest :=
  word_append [c] rest

theorem word_missed {c : Char} {w : List Char} (h : cs.head? ≠ some c) :
    word (c :: w) cs = .missed cs := by
  have hafter : Text.afterStart? (c :: w) cs = none := by
    cases cs with
    | nil => rfl
    | cons d cs => exact if_neg fun heq => h (congrArg some heq.symm)
  rw [word, hafter]

theorem skip_of_head {class? : Char → Bool} (h : ∀ c, cs.head? = some c → class? c = false) :
    skip class? cs = .done () cs := by
  rw [skip, Text.dropWhile_of_head h]

theorem skipSome_append {class? : Char → Bool} {w : List Char} (hne : w ≠ [])
    (hw : ∀ c ∈ w, class? c = true) (h : ∀ c, rest.head? = some c → class? c = false) :
    skipSome class? (w ++ rest) = .done () rest := by
  cases w with
  | nil => exact absurd rfl hne
  | cons c w =>
      rw [List.cons_append, skipSome, if_pos (hw c List.mem_cons_self),
        List.dropWhile_append_of_pos fun d hd => hw d (List.mem_cons_of_mem c hd),
        Text.dropWhile_of_head h]

theorem taken_append {w : List Char} (h : p (w ++ rest) = .done a rest) :
    taken p (w ++ rest) = .done w rest := by
  rw [taken, h]
  simp

-- ============================================================ repetitions

theorem manyWithin_missed {times : Nat} (h : p cs = .missed stop) :
    manyWithin p times cs = .done [] cs := by
  cases times with
  | zero => rfl
  | succ times => rw [manyWithin, h]

theorem many_missed (h : p cs = .missed stop) : many p cs = .done [] cs :=
  manyWithin_missed h

theorem separated_done {separator : Scan Unit} {after : Place} (h : p cs = .done a rest)
    (hmore : many (separator >>= fun _ => p) rest = .done as after) :
    separated p separator cs = .done (a :: as) after := by
  rw [separated, bind_done h, bind_done hmore]
  rfl

end ImportResolution.Toml.Scan
