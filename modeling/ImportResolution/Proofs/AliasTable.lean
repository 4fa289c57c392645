/-
What a table of aliases makes of a specifier. A target is filled at its first `*`
(`Filled`), and a pattern that ends in `/*` covers what lies below the part before
the slash, and that part itself (`Covers`). A specifier that is a pattern is looked
up; any other goes to the first pattern that covers it. The rule is stated on its
own (`Expands`), and the table follows it (`expand_eq_iff`).

That a pattern declared later changes nothing for what is expanded already is a
matter of the order in which the two searches look: each stops at the first entry
that it can use (`expand_append`).
-/
import ImportResolution.AliasTable
import ImportResolution.Proofs.Table
import ImportResolution.Proofs.Text.Segments
import Mathlib.Data.List.Forall2

namespace ImportResolution.AliasTable

open Text

variable {t : AliasTable} {text before after pattern specifier captured : String}

-- ======================================================== the first star

/-- The text is cut at its first `*`. -/
def CutAtStar (text before after : String) : Prop :=
  text = before ++ "*" ++ after ∧ '*' ∉ before.toList

theorem cutAt?_star_iff :
    cutAt? '*' text.toList = some (before.toList, after.toList) ↔ CutAtStar text before after := by
  have htext : text = before ++ "*" ++ after ↔
      text.toList = before.toList ++ '*' :: after.toList := by
    rw [← String.toList_inj, String.toList_append, String.toList_append, List.append_assoc]
    rfl
  rw [cutAt?_eq_some_iff, CutAtStar, htext]

/-- A text has a first `*`, or it has none. -/
theorem exists_cutAtStar (text : String) :
    '*' ∉ text.toList ∨ ∃ before after, CutAtStar text before after := by
  cases hcut : cutAt? '*' text.toList with
  | none => exact Or.inl (cutAt?_eq_none_iff.mp hcut)
  | some cut =>
      refine Or.inr ⟨String.ofList cut.1, String.ofList cut.2, cutAt?_star_iff.mp ?_⟩
      rw [hcut, String.toList_ofList, String.toList_ofList]

theorem CutAtStar.star_mem (h : CutAtStar text before after) : '*' ∈ text.toList := by
  rw [h.1, String.toList_append, String.toList_append]
  exact List.mem_append_left _ (List.mem_append_right _ (List.mem_singleton_self _))

-- =============================================================== filling

/-- What becomes of a target: its first `*` gives way to what was captured, and a
target without one stays as it is. -/
inductive Filled (captured target : String) : String → Prop where
  | replaced {before after : String} (hcut : CutAtStar target before after) :
      Filled captured target (before ++ captured ++ after)
  | whole (hstar : '*' ∉ target.toList) : Filled captured target target

theorem fill_of_cutAtStar (h : CutAtStar text before after) (captured : String) :
    fill captured text = before ++ captured ++ after := by
  rw [fill, fillFirst, cutAt?_star_iff.mpr h, ← String.toList_inj, String.toList_ofList,
    String.toList_append, String.toList_append]

theorem fill_of_no_star (h : '*' ∉ text.toList) (captured : String) :
    fill captured text = text := by
  rw [fill, fillFirst, cutAt?_eq_none_iff.mpr h]

theorem filled_iff {target : String} :
    Filled captured target text ↔ fill captured target = text := by
  constructor
  · rintro (hcut | hstar)
    · exact fill_of_cutAtStar hcut captured
    · exact fill_of_no_star hstar captured
  · rintro rfl
    rcases exists_cutAtStar target with hstar | ⟨before, after, hcut⟩
    · rw [fill_of_no_star hstar]
      exact .whole hstar
    · rw [fill_of_cutAtStar hcut]
      exact .replaced hcut

theorem forall₂_filled_iff {targets texts : List String} :
    List.Forall₂ (Filled captured) targets texts ↔ targets.map (fill captured) = texts := by
  have hrel : Filled captured = fun target text => fill captured target = text := by
    funext target text
    exact propext filled_iff
  rw [hrel, ← List.forall₂_map_left_iff, List.forall₂_eq_eq_eq]

-- ============================================================== covering

/-- The pattern ends in `/*`, and what its `*` stands for is captured: what follows
the part before it in the specifier, and nothing if the specifier is that part
without its slash. -/
def Covers (pattern specifier captured : String) : Prop :=
  ∃ start, pattern = start ++ "/*" ∧
    (specifier = start ++ "/" ++ captured ∨ specifier = start ∧ captured = "")

/-- No text goes on below itself. -/
theorem dropStart?_slash (start : String) : dropStart? start (start ++ "/") = none := by
  refine Option.eq_none_iff_forall_ne_some.mpr fun rest hrest => ?_
  have hsize := congrArg (·.toList.length) (dropStart?_eq_some_iff.mp hrest)
  simp only [String.toList_append, List.length_append] at hsize
  have hslash : "/".toList.length = 1 := rfl
  omega

theorem append_slash_star (start : String) : start ++ "/*" = start ++ "/" ++ "*" := by
  rw [String.append_assoc]
  rfl

theorem captured?_slash (start specifier : String) :
    captured? (start ++ "/*") specifier
      = match dropStart? specifier (start ++ "/") with
        | some rest => some rest
        | none => if specifier = start then some "" else none := by
  have hstar : dropEnd? (start ++ "/*") "*" = some (start ++ "/") :=
    dropEnd?_eq_some_iff.mpr (append_slash_star start)
  have hslash : dropEnd? (start ++ "/") "/" = some start := dropEnd?_eq_some_iff.mpr rfl
  cases hrest : dropStart? specifier (start ++ "/") <;>
    simp only [captured?, hstar, hslash, hrest]

theorem exists_slash_of_captured? (h : captured? pattern specifier = some captured) :
    ∃ start, pattern = start ++ "/*" := by
  unfold captured? at h
  split at h
  · cases h
  · next whole hwhole =>
    split at h
    · cases h
    · next start hstart =>
      refine ⟨start, ?_⟩
      rw [dropEnd?_eq_some_iff.mp hwhole, dropEnd?_eq_some_iff.mp hstart, append_slash_star]

theorem captured?_eq_some_iff :
    captured? pattern specifier = some captured ↔ Covers pattern specifier captured := by
  constructor
  · intro h
    obtain ⟨start, rfl⟩ := exists_slash_of_captured? h
    rw [captured?_slash] at h
    refine ⟨start, rfl, ?_⟩
    split at h
    · next rest hrest =>
      rw [dropStart?_eq_some_iff.mp hrest, Option.some.inj h]
      exact Or.inl rfl
    · next hnone =>
      split at h
      · next hsame => exact Or.inr ⟨hsame, (Option.some.inj h).symm⟩
      · cases h
  · rintro ⟨start, rfl, rfl | ⟨rfl, rfl⟩⟩
    · rw [captured?_slash, dropStart?_eq_some_iff.mpr rfl]
    · simp only [captured?_slash, dropStart?_slash, if_pos]

theorem captured?_eq_none_iff :
    captured? pattern specifier = none ↔ ∀ captured, ¬ Covers pattern specifier captured := by
  rw [Option.eq_none_iff_forall_ne_some]
  exact forall_congr' fun _ => not_congr captured?_eq_some_iff

-- ============================================================= expanding

/-- What a specifier is expanded to: if it is a pattern, to the targets of this
pattern as they are; otherwise to those of the first pattern that covers it, filled
with what this one captures; and to nothing if there is none. -/
inductive Expands (t : AliasTable) (specifier : String) : Option (List String) → Prop where
  | pattern {targets : List String} (hexact : (specifier, targets) ∈ t.entries) :
      Expands t specifier (some targets)
  | covered {earlier later : List (String × List String)} {pattern captured : String}
      {targets texts : List String} (hexact : specifier ∉ t.patterns)
      (hentries : t.entries = earlier ++ (pattern, targets) :: later)
      (hearlier : ∀ e ∈ earlier, ∀ captured, ¬ Covers e.1 specifier captured)
      (hcovers : Covers pattern specifier captured)
      (htexts : List.Forall₂ (Filled captured) targets texts) :
      Expands t specifier (some texts)
  | nothing (hexact : specifier ∉ t.patterns)
      (huncovered : ∀ e ∈ t.entries, ∀ captured, ¬ Covers e.1 specifier captured) :
      Expands t specifier none

theorem expand_of_mem {targets : List String} (h : t.patterns.Nodup)
    (hexact : (specifier, targets) ∈ t.entries) : t.expand specifier = some targets := by
  rw [expand, (Table.lookup_eq_some_iff h).mpr hexact]

theorem expand_of_not_mem (hexact : specifier ∉ t.patterns) :
    t.expand specifier = t.entries.findSome? fun e =>
      (captured? e.1 specifier).map fun captured => e.2.map (fill captured) := by
  rw [expand, Table.lookup_eq_none_iff.mpr hexact]

theorem expand_of_covered {earlier later : List (String × List String)} {targets : List String}
    (hexact : specifier ∉ t.patterns)
    (hentries : t.entries = earlier ++ (pattern, targets) :: later)
    (hearlier : ∀ e ∈ earlier, ∀ captured, ¬ Covers e.1 specifier captured)
    (hcovers : Covers pattern specifier captured) :
    t.expand specifier = some (targets.map (fill captured)) := by
  rw [expand_of_not_mem hexact, hentries]
  refine List.findSome?_eq_some_iff.mpr
    ⟨earlier, (pattern, targets), later, rfl, ?_, fun e he => ?_⟩
  · rw [captured?_eq_some_iff.mpr hcovers, Option.map_some]
  · rw [captured?_eq_none_iff.mpr (hearlier e he), Option.map_none]

theorem expand_eq_none (hexact : specifier ∉ t.patterns)
    (huncovered : ∀ e ∈ t.entries, ∀ captured, ¬ Covers e.1 specifier captured) :
    t.expand specifier = none := by
  rw [expand_of_not_mem hexact, List.findSome?_eq_none_iff]
  intro e he
  rw [captured?_eq_none_iff.mpr (huncovered e he), Option.map_none]

/-- The table does what the rule says. -/
theorem expands_expand (t : AliasTable) (specifier : String) :
    Expands t specifier (t.expand specifier) := by
  cases hlookup : t.entries.lookup specifier with
  | some targets =>
      obtain ⟨earlier, later, hentries, -⟩ := List.lookup_eq_some_iff.mp hlookup
      rw [expand, hlookup]
      refine .pattern ?_
      rw [hentries]
      exact List.mem_append_right _ (List.mem_cons_self ..)
  | none =>
      have hexact : specifier ∉ t.patterns := Table.lookup_eq_none_iff.mp hlookup
      rw [expand_of_not_mem hexact]
      cases hfound : t.entries.findSome? fun e =>
          (captured? e.1 specifier).map fun captured => e.2.map (fill captured) with
      | none =>
          refine .nothing hexact fun e he => captured?_eq_none_iff.mp ?_
          exact Option.map_eq_none_iff.mp (List.findSome?_eq_none_iff.mp hfound e he)
      | some texts =>
          obtain ⟨earlier, e, later, hentries, he, hearlier⟩ :=
            List.findSome?_eq_some_iff.mp hfound
          obtain ⟨captured, hcaptured, htexts⟩ := Option.map_eq_some_iff.mp he
          refine .covered hexact hentries (fun d hd => captured?_eq_none_iff.mp ?_)
            (captured?_eq_some_iff.mp hcaptured) (forall₂_filled_iff.mpr htexts)
          exact Option.map_eq_none_iff.mp (hearlier d hd)

theorem expand_eq_iff (h : t.patterns.Nodup) {answer : Option (List String)} :
    t.expand specifier = answer ↔ Expands t specifier answer := by
  constructor
  · rintro rfl
    exact expands_expand t specifier
  · intro hanswer
    cases hanswer with
    | pattern hexact => exact expand_of_mem h hexact
    | covered hexact hentries hearlier hcovers htexts =>
        rw [expand_of_covered hexact hentries hearlier hcovers, forall₂_filled_iff.mp htexts]
    | nothing hexact huncovered => exact expand_eq_none hexact huncovered

/-- Patterns that are declared later leave alone what is expanded already, as long as
the specifier is none of them. -/
theorem expand_append {later : List (String × List String)} (hlater : specifier ∉ Table.keys later)
    (hexpands : t.expand specifier ≠ none) :
    expand ⟨t.entries ++ later⟩ specifier = t.expand specifier := by
  unfold expand at hexpands ⊢
  rw [List.lookup_append, Table.lookup_eq_none_iff.mpr hlater, Option.or_none]
  cases hlookup : t.entries.lookup specifier with
  | some targets => rfl
  | none =>
      simp only [hlookup] at hexpands ⊢
      obtain ⟨texts, htexts⟩ := Option.ne_none_iff_exists'.mp hexpands
      rw [List.findSome?_append, htexts, Option.some_or]

/-- A table expands every specifier by the rule, and goes on doing so for those that it
expands already, whatever is declared after its patterns, unless it is the specifier
itself. -/
theorem expand_by_rule (h : t.patterns.Nodup) (specifier : String) :
    (∀ answer, t.expand specifier = answer ↔ Expands t specifier answer) ∧
      ∀ pattern targets, pattern ≠ specifier → t.expand specifier ≠ none →
        expand ⟨t.entries ++ [(pattern, targets)]⟩ specifier = t.expand specifier := by
  refine ⟨fun answer => expand_eq_iff h, fun pattern targets hne hexpands => ?_⟩
  exact expand_append (fun hmem => hne (List.mem_singleton.mp hmem).symm) hexpands

/-- A specifier that lies below one pattern goes to another one that is declared first
and captures nothing of it. -/
theorem expand_by_rule_bare :
    let t : AliasTable := ⟨[("@ws/ui/*", ["libs/ui/*/src/*", "libs/ui"]), ("@ws/*", ["libs/*"])]⟩
    t.patterns.Nodup ∧ Expands t "@ws/ui" (some ["libs/ui//src/*", "libs/ui"]) ∧
      expand ⟨t.entries ++ [("@ws/ui/", ["other"])]⟩ "@ws/ui"
        = some ["libs/ui//src/*", "libs/ui"] := by
  intro t
  have hdistinct : t.patterns.Nodup := by decide
  obtain ⟨hrule, hlater⟩ := expand_by_rule hdistinct "@ws/ui"
  have hexpand : t.expand "@ws/ui" = some ["libs/ui//src/*", "libs/ui"] := by decide +kernel
  refine ⟨hdistinct, (hrule _).mp hexpand, ?_⟩
  rw [hlater "@ws/ui/" ["other"] (by decide) (by rw [hexpand]; nofun), hexpand]

end ImportResolution.AliasTable
