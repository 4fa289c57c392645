/-
Which alias the compiler takes. A pattern without a `*` fits the specifier that it
is; one with a `*` fits what it frames, and the more closely the longer its
beginning is (`Fits`). The choice is stated on its own (`Chooses`): by the pattern
itself, then by the longest beginning, then by the order of declaration.

The argument turns on `closestOf?_eq_argmax`: how closely the entries fit is a
linear order with those that do not fit at its bottom, and the search keeps the
first entry that is greatest in it. What distinguishes this entry among all is the
library's characterization of `List.argmax`; the order of declaration comes in by
the last clause of it only, so it makes no difference where no two entries fit
equally closely (`closestOf?_perm`).
-/
import ImportResolution.Proofs.AliasTable
import ImportResolution.Proofs.Text.Slices
import Mathlib.Data.ENat.Basic
import Mathlib.Data.List.MinMax

namespace ImportResolution.AliasTable

open Text

variable {t : AliasTable} {pattern specifier start ending captured : String} {fit other : Fit}
  {targets : List String} {entries : List (String × List String)}

-- =============================================================== framing

/-- The specifier is what stands before the first `*` of the pattern, then what is
captured, then what stands after the `*`. -/
def Frames (pattern specifier start captured : String) : Prop :=
  ∃ ending, CutAtStar pattern start ending ∧ specifier = start ++ captured ++ ending

theorem between?_eq_some_iff :
    between? start ending specifier = some captured ↔ specifier = start ++ captured ++ ending := by
  simp only [between?, Option.bind_eq_some_iff, dropStart?_eq_some_iff, dropEnd?_eq_some_iff]
  constructor
  · rintro ⟨rest, rfl, rfl⟩
    exact (String.append_assoc ..).symm
  · rintro rfl
    exact ⟨captured ++ ending, String.append_assoc .., rfl⟩

/-- How a pattern fits a specifier, and what it captures: exactly if it is the
specifier and has no `*`, and by the beginning with which it frames it otherwise. -/
inductive Fits (pattern specifier : String) : Fit → String → Prop where
  | exact (hsame : pattern = specifier) (hstar : '*' ∉ pattern.toList) :
      Fits pattern specifier .exact ""
  | beginning {start captured : String} (hframes : Frames pattern specifier start captured) :
      Fits pattern specifier (.beginning start.utf8ByteSize) captured

theorem fit?_of_no_star (h : '*' ∉ pattern.toList) (specifier : String) :
    fit? pattern specifier = if pattern = specifier then some (.exact, "") else none := by
  rw [fit?, cutAt?_eq_none_iff.mpr h]

theorem fit?_of_cutAtStar (h : CutAtStar pattern start ending) (specifier : String) :
    fit? pattern specifier
      = (between? start ending specifier).map fun captured =>
          (.beginning start.utf8ByteSize, captured) := by
  rw [fit?, cutAt?_star_iff.mpr h]
  simp only [String.ofList_toList]

theorem fit?_eq_some_iff :
    fit? pattern specifier = some (fit, captured) ↔ Fits pattern specifier fit captured := by
  constructor
  · intro h
    rcases exists_cutAtStar pattern with hstar | ⟨start, ending, hcut⟩
    · rw [fit?_of_no_star hstar] at h
      split at h
      · next hsame =>
        obtain ⟨rfl, rfl⟩ := Prod.mk.inj (Option.some.inj h)
        exact .exact hsame hstar
      · cases h
    · rw [fit?_of_cutAtStar hcut, Option.map_eq_some_iff] at h
      obtain ⟨captured, hbetween, heq⟩ := h
      obtain ⟨rfl, rfl⟩ := Prod.mk.inj heq
      exact .beginning ⟨ending, hcut, between?_eq_some_iff.mp hbetween⟩
  · rintro (⟨rfl, hstar⟩ | ⟨ending, hcut, hspecifier⟩)
    · rw [fit?_of_no_star hstar, if_pos rfl]
    · rw [fit?_of_cutAtStar hcut, between?_eq_some_iff.mpr hspecifier, Option.map_some]

theorem fit?_eq_none_iff :
    fit? pattern specifier = none ↔ ∀ fit captured, ¬ Fits pattern specifier fit captured := by
  simp only [Option.eq_none_iff_forall_ne_some, Prod.forall, ne_eq, fit?_eq_some_iff]

/-- A pattern with a `*` fits where there is room for what stands before and after
the `*`, and what it captures is cut out by the sizes of these. -/
theorem fit?_of_hasRoom (hcut : CutAtStar pattern start ending)
    (hroom : HasRoom specifier start ending) :
    ∃ captured,
      IsSlice specifier start.utf8ByteSize (specifier.utf8ByteSize - ending.utf8ByteSize)
        captured ∧
      fit? pattern specifier = some (.beginning start.utf8ByteSize, captured) := by
  obtain ⟨captured, rfl⟩ := hasRoom_iff_exists_between.mp hroom
  exact ⟨captured, isSlice_between .., fit?_eq_some_iff.mpr (.beginning ⟨ending, hcut, rfl⟩)⟩

theorem fit?_of_not_hasRoom (hcut : CutAtStar pattern start ending)
    (hroom : ¬ HasRoom specifier start ending) : fit? pattern specifier = none := by
  rw [fit?_of_cutAtStar hcut, Option.map_eq_none_iff, Option.eq_none_iff_forall_ne_some]
  exact fun captured hbetween =>
    hroom (hasRoom_iff_exists_between.mpr ⟨captured, between?_eq_some_iff.mp hbetween⟩)

-- ============================================================= closeness

/-- An exact fit comes after every beginning, however long. -/
def Fit.rank : Fit → ℕ∞
  | .beginning bytes => bytes
  | .exact => ⊤

theorem Fit.rank_injective : Function.Injective Fit.rank := by
  rintro (m | _) (n | _) h
  · rw [ENat.natCast_inj.mp h]
  · exact absurd h (ENat.natCast_ne_top m)
  · exact absurd h.symm (ENat.natCast_ne_top n)
  · rfl

theorem Fit.closer_iff : fit.closer other = true ↔ other.rank < fit.rank := by
  cases fit with
  | beginning m =>
      cases other with
      | beginning n => exact decide_eq_true_iff.trans ENat.natCast_lt_natCast.symm
      | exact => exact iff_of_false Bool.false_ne_true not_top_lt
  | exact =>
      cases other with
      | beginning n => exact iff_of_true rfl (ENat.natCast_lt_top n)
      | exact => exact iff_of_false Bool.false_ne_true (lt_irrefl _)

/-- How closely an entry fits, if it does. -/
def closeness (specifier : String) (e : String × List String) : WithBot ℕ∞ :=
  match fit? e.1 specifier with
  | none => ⊥
  | some found => found.1.rank

theorem closeness_of_none {e : String × List String} (h : fit? e.1 specifier = none) :
    closeness specifier e = ⊥ := by
  rw [closeness, h]

theorem closeness_of_some {e : String × List String}
    (h : fit? e.1 specifier = some (fit, captured)) : closeness specifier e = fit.rank := by
  rw [closeness, h]

/-- The search keeps the first entry that fits most closely. -/
theorem closestOf?_eq_argmax (specifier : String) (entries : List (String × List String)) :
    closestOf? specifier entries
      = (entries.argmax (closeness specifier)).bind fun e =>
          (fit? e.1 specifier).map fun found => (found.1, found.2, e.2) := by
  induction entries with
  | nil => rfl
  | cons e rest ih =>
      rw [closestOf?, ih, List.argmax_cons]
      cases rest.argmax (closeness specifier) with
      | none => cases he : fit? e.1 specifier <;> simp [he]
      | some d =>
          cases hd : fit? d.1 specifier with
          | none =>
              -- nothing fits less closely than what does not fit
              have hnot : ¬ closeness specifier e < closeness specifier d := by
                rw [closeness_of_none hd]
                exact not_lt_bot
              cases he : fit? e.1 specifier <;> simp [hd, he, if_neg hnot]
          | some later =>
              cases he : fit? e.1 specifier with
              | none =>
                  have hlt : closeness specifier e < closeness specifier d := by
                    rw [closeness_of_none he, closeness_of_some hd]
                    exact WithBot.bot_lt_coe _
                  simp [hd, if_pos hlt]
              | some found =>
                  have hlt : closeness specifier e < closeness specifier d
                      ↔ later.1.closer found.1 = true := by
                    rw [closeness_of_some he, closeness_of_some hd, WithBot.coe_lt_coe,
                      Fit.closer_iff]
                  simp only [hlt, hd, Option.bind_some, Option.map_some]
                  split <;> simp [hd, he]

theorem closeness_le_iff {e : String × List String} :
    closeness specifier e ≤ fit.rank ↔
      ∀ other text, Fits e.1 specifier other text → other.rank ≤ fit.rank := by
  simp only [← fit?_eq_some_iff]
  cases h : fit? e.1 specifier with
  | none => exact iff_of_true (closeness_of_none h ▸ bot_le) nofun
  | some found =>
      rw [closeness_of_some h, WithBot.coe_le_coe]
      constructor
      · rintro hle other text hsame
        cases hsame
        exact hle
      · exact fun hall => hall found.1 found.2 rfl

theorem le_closeness_iff {e : String × List String} :
    fit.rank ≤ closeness specifier e ↔
      ∃ other text, Fits e.1 specifier other text ∧ fit.rank ≤ other.rank := by
  simp only [← fit?_eq_some_iff]
  cases h : fit? e.1 specifier with
  | none =>
      rw [closeness_of_none h]
      exact iff_of_false (WithBot.not_coe_le_bot _) nofun
  | some found =>
      rw [closeness_of_some h, WithBot.coe_le_coe]
      constructor
      · exact fun hle => ⟨found.1, found.2, rfl, hle⟩
      · rintro ⟨other, text, hsame, hle⟩
        cases hsame
        exact hle

/-- What is closest: an entry that fits, no less closely than any other, and that is
declared before every other that fits as closely. -/
theorem closestOf?_eq_some_iff :
    closestOf? specifier entries = some (fit, captured, targets) ↔
      ∃ pattern, (pattern, targets) ∈ entries ∧ Fits pattern specifier fit captured ∧
        ∀ d ∈ entries, ∀ other text, Fits d.1 specifier other text →
          other.rank ≤ fit.rank ∧
            (other = fit → entries.idxOf (pattern, targets) ≤ entries.idxOf d) := by
  -- places are counted with the equality of pairs, which is the decidable one
  rw [closestOf?_eq_argmax, Option.bind_eq_some_iff,
    lawful_beq_subsingleton instBEqProd instBEqOfDecidableEq]
  constructor
  · rintro ⟨⟨pattern, _⟩, hmax, hmap⟩
    obtain ⟨⟨_, _⟩, hfit, heq⟩ := Option.map_eq_some_iff.mp hmap
    cases heq
    obtain ⟨hmem, hgreatest, hfirst⟩ := List.mem_argmax_iff.mp hmax
    rw [closeness_of_some hfit] at hgreatest hfirst
    refine ⟨pattern, hmem, fit?_eq_some_iff.mp hfit, fun d hd other text hother => ⟨?_, ?_⟩⟩
    · exact closeness_le_iff.mp (hgreatest d hd) other text hother
    · rintro rfl
      exact hfirst d hd (le_closeness_iff.mpr ⟨_, _, hother, le_rfl⟩)
  · rintro ⟨pattern, hmem, hfits, hall⟩
    have hfit := fit?_eq_some_iff.mpr hfits
    have hrank : closeness specifier (pattern, targets) = fit.rank := closeness_of_some hfit
    refine ⟨(pattern, targets), List.mem_argmax_iff.mpr ⟨hmem, fun d hd => ?_, fun d hd hle => ?_⟩,
      by rw [hfit, Option.map_some]⟩
    · rw [hrank]
      exact closeness_le_iff.mpr fun other text hother => (hall d hd other text hother).1
    · rw [hrank] at hle
      obtain ⟨other, text, hother, hge⟩ := le_closeness_iff.mp hle
      obtain ⟨hle, hfirst⟩ := hall d hd other text hother
      exact hfirst (Fit.rank_injective (le_antisymm hle hge))

/-- Nothing is found exactly where no entry fits. -/
theorem closestOf?_eq_none_iff :
    closestOf? specifier entries = none ↔
      ∀ e ∈ entries, ∀ fit captured, ¬ Fits e.1 specifier fit captured := by
  simp only [← fit?_eq_none_iff]
  induction entries with
  | nil => exact iff_of_true rfl nofun
  | cons e rest ih =>
      rw [List.forall_mem_cons, ← ih, closestOf?]
      cases fit? e.1 specifier with
      | none => exact (and_iff_right rfl).symm
      | some found =>
          refine iff_of_false ?_ fun h => nomatch h.1
          cases closestOf? specifier rest with
          | none => nofun
          | some later =>
              dsimp only
              split <;> nofun

-- ============================================================ the choice

/-- What a specifier is taken for: a captured text, with the targets to be filled
with it. If the specifier is a pattern without a `*`, nothing is captured, and the
targets are those of this pattern. Otherwise they are those of a pattern that frames
it: of one with the longest beginning, and of the first of these that is declared. -/
inductive Chooses (t : AliasTable) (specifier : String) : Option (String × List String) → Prop where
  | exact {targets : List String} (hstar : '*' ∉ specifier.toList)
      (hentry : (specifier, targets) ∈ t.entries) : Chooses t specifier (some ("", targets))
  | framed {pattern start captured : String} {targets : List String}
      (hexact : specifier ∈ t.patterns → '*' ∈ specifier.toList)
      (hentry : (pattern, targets) ∈ t.entries)
      (hframes : Frames pattern specifier start captured)
      (hlongest : ∀ d ∈ t.entries, ∀ other text, Frames d.1 specifier other text →
        other.utf8ByteSize ≤ start.utf8ByteSize)
      (hfirst : ∀ d ∈ t.entries, ∀ other text, Frames d.1 specifier other text →
        other.utf8ByteSize = start.utf8ByteSize →
          t.entries.idxOf (pattern, targets) ≤ t.entries.idxOf d) :
      Chooses t specifier (some (captured, targets))
  | nothing (hexact : specifier ∈ t.patterns → '*' ∈ specifier.toList)
      (hframes : ∀ e ∈ t.entries, ∀ start captured, ¬ Frames e.1 specifier start captured) :
      Chooses t specifier none

/-- If no entry fits exactly, a specifier that is a pattern has a `*`. -/
theorem star_mem_of_no_exact (h : ∀ e ∈ t.entries, ¬ Fits e.1 specifier .exact "")
    (hmem : specifier ∈ t.patterns) : '*' ∈ specifier.toList := by
  by_contra hstar
  obtain ⟨e, he, rfl⟩ := List.mem_map.mp hmem
  exact h e he (.exact rfl hstar)

theorem chooses_closestOf? (t : AliasTable) (specifier : String) :
    Chooses t specifier ((closestOf? specifier t.entries).map Prod.snd) := by
  cases hfound : closestOf? specifier t.entries with
  | none =>
      have hnone := closestOf?_eq_none_iff.mp hfound
      exact .nothing (star_mem_of_no_exact fun e he => hnone e he _ _) fun e he start captured h =>
        hnone e he _ _ (.beginning h)
  | some found =>
      obtain ⟨fit, captured, targets⟩ := found
      obtain ⟨pattern, hentry, hfits, hall⟩ := closestOf?_eq_some_iff.mp hfound
      cases hfits with
      | exact hsame hstar =>
          subst hsame
          exact .exact hstar hentry
      | beginning hframes =>
          refine .framed (star_mem_of_no_exact fun e he hexact => ?_) hentry hframes
            (fun d hd other text h => ?_) fun d hd other text h hsize => ?_
          · exact ENat.natCast_ne_top _ (top_le_iff.mp (hall e he _ _ hexact).1)
          · exact ENat.natCast_le_natCast.mp (hall d hd _ _ (.beginning h)).1
          · exact (hall d hd _ _ (.beginning h)).2 (congrArg _ hsize)

theorem closestOf?_of_exact (h : t.patterns.Nodup) (hstar : '*' ∉ specifier.toList)
    (hentry : (specifier, targets) ∈ t.entries) :
    closestOf? specifier t.entries = some (.exact, "", targets) := by
  refine closestOf?_eq_some_iff.mpr ⟨specifier, hentry, .exact rfl hstar, ?_⟩
  refine fun d hd other text hother => ⟨le_top, ?_⟩
  rintro rfl
  cases hother with
  | exact hsame _ => rw [List.inj_on_of_nodup_map h hd hentry hsame]

theorem closestOf?_of_frames (hexact : specifier ∈ t.patterns → '*' ∈ specifier.toList)
    (hentry : (pattern, targets) ∈ t.entries) (hframes : Frames pattern specifier start captured)
    (hlongest : ∀ d ∈ t.entries, ∀ other text, Frames d.1 specifier other text →
      other.utf8ByteSize ≤ start.utf8ByteSize)
    (hfirst : ∀ d ∈ t.entries, ∀ other text, Frames d.1 specifier other text →
      other.utf8ByteSize = start.utf8ByteSize →
        t.entries.idxOf (pattern, targets) ≤ t.entries.idxOf d) :
    closestOf? specifier t.entries
      = some (.beginning start.utf8ByteSize, captured, targets) := by
  refine closestOf?_eq_some_iff.mpr ⟨pattern, hentry, .beginning hframes, ?_⟩
  intro d hd other text hother
  cases hother with
  | exact hsame hstar =>
      subst hsame
      exact absurd (hexact (List.mem_map_of_mem hd)) hstar
  | beginning h =>
      refine ⟨ENat.natCast_le_natCast.mpr (hlongest d hd _ _ h), fun heq => ?_⟩
      exact hfirst d hd _ _ h (Fit.beginning.inj heq)

theorem closestOf?_of_nothing (hexact : specifier ∈ t.patterns → '*' ∈ specifier.toList)
    (hframes : ∀ e ∈ t.entries, ∀ start captured, ¬ Frames e.1 specifier start captured) :
    closestOf? specifier t.entries = none := by
  refine closestOf?_eq_none_iff.mpr fun e he fit captured hfits => ?_
  cases hfits with
  | exact hsame hstar =>
      subst hsame
      exact hstar (hexact (List.mem_map_of_mem he))
  | beginning h => exact hframes e he _ _ h

theorem closestOf?_eq_iff (h : t.patterns.Nodup) {choice : Option (String × List String)} :
    (closestOf? specifier t.entries).map Prod.snd = choice ↔ Chooses t specifier choice := by
  constructor
  · rintro rfl
    exact chooses_closestOf? t specifier
  · intro hchoice
    cases hchoice with
    | exact hstar hentry => rw [closestOf?_of_exact h hstar hentry, Option.map_some]
    | framed hexact hentry hframes hlongest hfirst =>
        rw [closestOf?_of_frames hexact hentry hframes hlongest hfirst, Option.map_some]
    | nothing hexact hframes => rw [closestOf?_of_nothing hexact hframes, Option.map_none]

-- ================================================== order of declaration

/-- Two different patterns of the table frame the specifier with beginnings of one
length. -/
def Tied (t : AliasTable) (specifier : String) : Prop :=
  ∃ d ∈ t.entries, ∃ e ∈ t.entries, d.1 ≠ e.1 ∧ ∃ start captured other text,
    Frames d.1 specifier start captured ∧ Frames e.1 specifier other text ∧
      start.utf8ByteSize = other.utf8ByteSize

/-- Different patterns are tied exactly if they fit alike: only one pattern fits
exactly. -/
theorem tied_iff :
    Tied t specifier ↔ ∃ d ∈ t.entries, ∃ e ∈ t.entries, d.1 ≠ e.1 ∧
      fit? d.1 specifier ≠ none ∧
        (fit? d.1 specifier).map Prod.fst = (fit? e.1 specifier).map Prod.fst := by
  constructor
  · rintro ⟨d, hd, e, he, hne, _, _, _, _, hframes, hother, hsize⟩
    have hfit := fit?_eq_some_iff.mpr (.beginning hframes)
    have hfit' := fit?_eq_some_iff.mpr (.beginning hother)
    refine ⟨d, hd, e, he, hne, Option.ne_none_iff_exists'.mpr ⟨_, hfit⟩, ?_⟩
    rw [hfit, hfit', hsize, Option.map_some, Option.map_some]
  · rintro ⟨d, hd, e, he, hne, hfit, hsame⟩
    obtain ⟨⟨fit, captured⟩, hfit⟩ := Option.ne_none_iff_exists'.mp hfit
    rw [hfit, Option.map_some, eq_comm, Option.map_eq_some_iff] at hsame
    obtain ⟨⟨other, text⟩, hother, rfl⟩ := hsame
    rcases fit?_eq_some_iff.mp hfit with ⟨hd', _⟩ | hframes
    · cases fit?_eq_some_iff.mp hother with
      | exact he' _ => exact absurd (hd'.trans he'.symm) hne
    · generalize hsize : Fit.beginning _ = fit at hother
      rcases fit?_eq_some_iff.mp hother with _ | hframes'
      · cases hsize
      · exact ⟨d, hd, e, he, hne, _, _, _, _, hframes, hframes', Fit.beginning.inj hsize⟩

instance (t : AliasTable) (specifier : String) : Decidable (Tied t specifier) :=
  decidable_of_iff _ tied_iff.symm

/-- Without a tie, one entry at most fits as closely as it does. -/
theorem eq_of_fits (h : t.patterns.Nodup) (htied : ¬ Tied t specifier)
    {d e : String × List String} (hd : d ∈ t.entries) (he : e ∈ t.entries) {text : String}
    (hfits : Fits d.1 specifier fit captured) (hother : Fits e.1 specifier fit text) : d = e := by
  refine List.inj_on_of_nodup_map h hd he ?_
  by_contra hne
  have hfit := fit?_eq_some_iff.mpr hfits
  refine htied (tied_iff.mpr ⟨d, hd, e, he, hne, Option.ne_none_iff_exists'.mpr ⟨_, hfit⟩, ?_⟩)
  rw [hfit, fit?_eq_some_iff.mpr hother, Option.map_some, Option.map_some]

/-- Without a tie, the order of declaration makes no difference. -/
theorem closestOf?_perm (h : t.patterns.Nodup) (htied : ¬ Tied t specifier)
    (hperm : entries.Perm t.entries) :
    closestOf? specifier entries = closestOf? specifier t.entries := by
  cases hfound : closestOf? specifier t.entries with
  | none =>
      refine closestOf?_eq_none_iff.mpr fun e he => ?_
      exact closestOf?_eq_none_iff.mp hfound e (hperm.mem_iff.mp he)
  | some found =>
      obtain ⟨fit, captured, targets⟩ := found
      obtain ⟨pattern, hentry, hfits, hall⟩ := closestOf?_eq_some_iff.mp hfound
      refine closestOf?_eq_some_iff.mpr ⟨pattern, hperm.mem_iff.mpr hentry, hfits, ?_⟩
      intro d hd other text hother
      have hd' := hperm.mem_iff.mp hd
      refine ⟨(hall d hd' other text hother).1, ?_⟩
      rintro rfl
      rw [eq_of_fits h htied hd' hentry hother hfits]

end ImportResolution.AliasTable
