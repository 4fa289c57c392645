/-
What the compiler looks for on behalf of an alias. It probes the filled targets of
the closest pattern in their order (`probe`), so what is known of this pattern tells
which paths are tried, and in which tables they are those that the other reading of
the table expands a specifier to.
-/
import ImportResolution.ModuleSearch.Compiler
import ImportResolution.Proofs.AliasTable.Agreement

namespace ImportResolution.ModuleSearch.Compiler

open AliasTable Text

variable {config : CompilerConfig} {specifier : String}

/-- The file that the first of some targets leads to. -/
def probe (config : CompilerConfig) (targets : List String) : Search (Option String) :=
  firstFound? <| targets.map fun target =>
    load spelling (FilePath.clean (FilePath.join config.aliasBase target))

theorem throughAliases?_of_some {targets : List String}
    (h : config.aliases.closest? specifier = some targets) :
    throughAliases? config specifier = probe config targets := by
  rw [throughAliases?, h, Option.getD_some, probe]

theorem throughAliases?_of_none (h : config.aliases.closest? specifier = none) :
    throughAliases? config specifier = return none := by
  rw [throughAliases?, h, Option.getD_none]
  rfl

-- ==================================================== the closest pattern

/-- The compiler takes the pattern that the rule chooses and probes its targets,
filled, in their order. What a `*` captures is cut out of the specifier by sizes, and
only where there is room for it. Without a tie, the order of declaration makes no
difference to the choice. -/
theorem throughAliases?_by_closest (h : config.aliases.patterns.Nodup) (specifier : String) :
    (∀ choice, (closestOf? specifier config.aliases.entries).map Prod.snd = choice ↔
      Chooses config.aliases specifier choice) ∧
    (∀ captured targets texts, Chooses config.aliases specifier (some (captured, targets)) →
      List.Forall₂ (Filled captured) targets texts →
        throughAliases? config specifier = probe config texts) ∧
    (Chooses config.aliases specifier none → throughAliases? config specifier = return none) ∧
    (∀ pattern start ending, CutAtStar pattern start ending →
      (HasRoom specifier start ending → ∃ captured,
        IsSlice specifier start.utf8ByteSize (specifier.utf8ByteSize - ending.utf8ByteSize)
          captured ∧
        fit? pattern specifier = some (.beginning start.utf8ByteSize, captured)) ∧
      (¬ HasRoom specifier start ending → fit? pattern specifier = none)) ∧
    ∀ entries : List (String × List String), entries.Perm config.aliases.entries →
      ¬ Tied config.aliases specifier →
        closestOf? specifier entries = closestOf? specifier config.aliases.entries := by
  refine ⟨fun choice => closestOf?_eq_iff h, fun captured targets texts hchoice htexts => ?_,
    fun hchoice => ?_, fun pattern start ending hcut => ⟨fit?_of_hasRoom hcut,
      fit?_of_not_hasRoom hcut⟩, fun entries hperm htied => closestOf?_perm h htied hperm⟩
  · obtain ⟨⟨fit, _, _⟩, hclosest, heq⟩ :=
      Option.map_eq_some_iff.mp ((closestOf?_eq_iff h).mpr hchoice)
    cases heq
    refine throughAliases?_of_some ?_
    rw [closest?, hclosest, Option.map_some, forall₂_filled_iff.mp htexts]
  · refine throughAliases?_of_none (Option.map_eq_none_iff.mpr ?_)
    exact Option.map_eq_none_iff.mp ((closestOf?_eq_iff h).mpr hchoice)

/-- A pattern whose beginning and ending overlap in the specifier is passed over for
the one with its beginning alone, and captures nothing. -/
theorem throughAliases?_by_closest_overlap :
    let config : CompilerConfig :=
      ⟨"/ws/tsconfig.json", none,
        ⟨[("*", ["any/*"]), ("é*é", ["both/*"]), ("é*", ["one/*/*", "two"])]⟩, "/ws"⟩
    config.aliases.patterns.Nodup ∧
      Chooses config.aliases "é" (some ("", ["one/*/*", "two"])) ∧
      throughAliases? config "é" = probe config ["one//*", "two"] ∧
      fit? "é*é" "é" = none ∧
      closestOf? "é" config.aliases.entries.reverse = closestOf? "é" config.aliases.entries := by
  intro config
  have hdistinct : config.aliases.patterns.Nodup := by decide
  obtain ⟨hrule, hsome, -, hfit, hperm⟩ := throughAliases?_by_closest hdistinct "é"
  have hchoice := (hrule (some ("", ["one/*/*", "two"]))).mp (by decide +kernel)
  refine ⟨hdistinct, hchoice, hsome _ _ _ hchoice (forall₂_filled_iff.mpr (by decide +kernel)),
    (hfit "é*é" "é" "é" (cutAt?_star_iff.mp (by decide +kernel))).2 fun hroom => ?_,
    hperm _ (List.reverse_perm _) (by decide +kernel)⟩
  exact absurd hroom.1 (by decide +kernel)

-- =========================================================== both readings

/-- Where a single pattern matches, the compiler probes what the table expands the
specifier to, unless the specifier is the part before the slash of a pattern. Where
none does, the compiler finds nothing and leaves the files alone, and the table
expands such a part and nothing else. -/
theorem throughAliases?_eq_expand (h : config.aliases.Shared) (specifier : String) :
    (¬ config.aliases.IsBare specifier →
      (∃! e, e ∈ config.aliases.entries ∧ Matches e.1 specifier) →
        ∃ texts, config.aliases.expand specifier = some texts ∧
          config.aliases.closest? specifier = some texts ∧
          throughAliases? config specifier = probe config texts) ∧
    ((∀ e ∈ config.aliases.entries, ¬ Matches e.1 specifier) →
      throughAliases? config specifier = (return none) ∧
        (config.aliases.expand specifier = none ↔ ¬ config.aliases.IsBare specifier)) := by
  refine ⟨fun hbare hone => ?_, fun hnone => ⟨?_, expand_eq_none_iff_of_unmatched hnone⟩⟩
  · obtain ⟨texts, hexpand, hclosest⟩ := h.closest?_eq_expand hbare hone
    exact ⟨texts, hexpand, hclosest, throughAliases?_of_some hclosest⟩
  · exact throughAliases?_of_none (h.closest?_eq_none hnone)

/-- A specifier that is a pattern goes to the targets of this pattern as they are. -/
theorem throughAliases?_eq_expand_pattern :
    let config : CompilerConfig :=
      ⟨"/ws/tsconfig.json", none,
        ⟨[("@ws/*", ["libs/*/src", "libs/*"]), ("ui", ["libs/ui"])]⟩, "/ws"⟩
    config.aliases.Shared ∧ ¬ config.aliases.IsBare "@ws/*" ∧
      (∃ texts, config.aliases.expand "@ws/*" = some texts ∧
        config.aliases.closest? "@ws/*" = some texts ∧
        throughAliases? config "@ws/*" = probe config texts) ∧
      throughAliases? config "react" = (return none) ∧ config.aliases.expand "react" = none := by
  intro config
  have hshape : ∀ pattern ∈ config.aliases.patterns, '*' ∉ pattern.toList ∨
      ∃ start, pattern = start ++ "/*" ∧ '*' ∉ start.toList :=
    List.forall_mem_cons.mpr
      ⟨Or.inr ⟨"@ws", by decide, by decide⟩, List.forall_mem_singleton.mpr (Or.inl (by decide))⟩
  have hshared : config.aliases.Shared := ⟨by decide, hshape, by decide⟩
  have hbare : ¬ config.aliases.IsBare "@ws/*" := by decide +kernel
  have honly : ∀ e ∈ config.aliases.entries, Matches e.1 "@ws/*" →
      e = ("@ws/*", ["libs/*/src", "libs/*"]) := by decide +kernel
  have hnone : ∀ e ∈ config.aliases.entries, ¬ Matches e.1 "react" := by decide +kernel
  obtain ⟨hsome, -⟩ := throughAliases?_eq_expand hshared "@ws/*"
  obtain ⟨hreturn, hexpand⟩ := (throughAliases?_eq_expand hshared "react").2 hnone
  refine ⟨hshared, hbare, hsome hbare ⟨_, ?_, fun e he => honly e he.1 he.2⟩, hreturn,
    hexpand.mpr (by decide +kernel)⟩
  decide +kernel

end ImportResolution.ModuleSearch.Compiler
