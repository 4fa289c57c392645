/-
Where the two readings of a table agree. `expand` takes the first pattern that covers
a specifier and `closest?` the longest one that frames it, so they can only differ
where several patterns match, or where one of them reads a pattern that the other does
not: a `*` elsewhere than after a slash at the end (`Shared.shape`), a `*` in the
targets of a pattern without one (`Shared.whole`), and the part of a pattern before
its slash, which is covered and not framed.

Away from these a pattern that covers or fits a specifier matches it (`Matches`), so
that the one pattern that matches is the one that both take (`closest?_eq_expand`). A
specifier may be a pattern that ends in `/*`: it is looked up and left whole by
`expand`, and frames itself with its own `*` captured, which every target gets back.
-/
import ImportResolution.Proofs.AliasTable.Closest

namespace ImportResolution.AliasTable

open Text

variable {t : AliasTable} {text before after pattern specifier start captured : String}
  {e : String × List String}

-- ============================================================== matching

/-- The pattern is the specifier, or ends in `/*` with the specifier going on below
the part before the `*`. -/
def Matches (pattern specifier : String) : Prop :=
  pattern = specifier ∨
    ∃ start, pattern = start ++ "/*" ∧ startsWith specifier (start ++ "/") = true

theorem matches_iff :
    Matches pattern specifier ↔ pattern = specifier ∨
      ∃ start ∈ dropEnd? pattern "/*", startsWith specifier (start ++ "/") = true := by
  simp only [Matches, Option.mem_def, dropEnd?_eq_some_iff]

instance (pattern specifier : String) : Decidable (Matches pattern specifier) :=
  decidable_of_iff _ matches_iff.symm

/-- The specifier is the part before the slash of a pattern that ends in `/*`. -/
def IsBare (t : AliasTable) (specifier : String) : Prop :=
  specifier ++ "/*" ∈ t.patterns

instance (t : AliasTable) (specifier : String) : Decidable (IsBare t specifier) :=
  inferInstanceAs (Decidable (_ ∈ _))

/-- Tables that both readings read alike: each pattern is there once, and has no `*`
or a single one, after a slash at its end; and the targets of a pattern without a `*`
have none either. -/
structure Shared (t : AliasTable) : Prop where
  distinct : t.patterns.Nodup
  shape : ∀ pattern ∈ t.patterns, '*' ∉ pattern.toList ∨
    ∃ start, pattern = start ++ "/*" ∧ '*' ∉ start.toList
  whole : ∀ e ∈ t.entries, '*' ∉ e.1.toList → ∀ target ∈ e.2, '*' ∉ target.toList

theorem CutAtStar.unique {other rest : String} (h : CutAtStar text before after)
    (hother : CutAtStar text other rest) : before = other ∧ after = rest := by
  have heq := (cutAt?_star_iff.mpr h).symm.trans (cutAt?_star_iff.mpr hother)
  obtain ⟨hbefore, hafter⟩ := Prod.mk.inj (Option.some.inj heq)
  exact ⟨String.toList_inj.mp hbefore, String.toList_inj.mp hafter⟩

theorem star_mem_slash (start : String) : '*' ∈ (start ++ "/*").toList := by
  rw [String.toList_append]
  exact List.mem_append_right _ (by decide)

theorem cutAtStar_slash (h : '*' ∉ start.toList) : CutAtStar (start ++ "/*") (start ++ "/") "" := by
  refine ⟨by rw [append_slash_star, String.append_empty], fun hmem => ?_⟩
  rw [String.toList_append, List.mem_append] at hmem
  exact hmem.elim h (by decide)

/-- A pattern that ends in `/*` frames what goes on below the part before the `*`. -/
theorem frames_slash_iff (h : '*' ∉ start.toList) {other : String} :
    Frames (start ++ "/*") specifier other captured ↔
      other = start ++ "/" ∧ specifier = start ++ "/" ++ captured := by
  constructor
  · rintro ⟨ending, hcut, rfl⟩
    obtain ⟨rfl, rfl⟩ := hcut.unique (cutAtStar_slash h)
    exact ⟨rfl, String.append_empty⟩
  · rintro ⟨rfl, rfl⟩
    exact ⟨"", cutAtStar_slash h, String.append_empty.symm⟩

theorem startsWith_append (start rest : String) : startsWith (start ++ rest) start = true :=
  startsWith_iff.mpr (by rw [String.toList_append]; exact List.prefix_append _ _)

/-- What fits matches. -/
theorem Shared.matches_of_fits (h : t.Shared) (he : e ∈ t.entries) {fit : Fit}
    (hfits : Fits e.1 specifier fit captured) : Matches e.1 specifier := by
  cases hfits with
  | exact hsame _ => exact Or.inl hsame
  | beginning hframes =>
      rcases h.shape e.1 (List.mem_map_of_mem he) with hstar | ⟨start, hpattern, hstart⟩
      · obtain ⟨ending, hcut, -⟩ := hframes
        exact absurd hcut.star_mem hstar
      · rw [hpattern, frames_slash_iff hstart] at hframes
        refine Or.inr ⟨start, hpattern, ?_⟩
        rw [hframes.2]
        exact startsWith_append _ _

/-- What covers matches, unless what is covered is the part before the slash. -/
theorem matches_of_covers (hbare : ¬ t.IsBare specifier) (he : e ∈ t.entries)
    (hcovers : Covers e.1 specifier captured) : Matches e.1 specifier := by
  obtain ⟨start, hpattern, rfl | ⟨rfl, -⟩⟩ := hcovers
  · exact Or.inr ⟨start, hpattern, startsWith_append _ _⟩
  · have hmem : specifier ++ "/*" ∈ t.patterns := hpattern ▸ List.mem_map_of_mem he
    exact absurd hmem hbare

-- ====================================================== a single pattern

/-- A captured `*` is put where one was. -/
theorem fill_star (target : String) : fill "*" target = target := by
  rcases exists_cutAtStar target with hstar | ⟨before, after, hcut⟩
  · exact fill_of_no_star hstar _
  · rw [fill_of_cutAtStar hcut, ← hcut.1]

section

variable (h : t.Shared) (he : e ∈ t.entries)
  (honly : ∀ d ∈ t.entries, Matches d.1 specifier → d = e)

include h he honly

theorem Shared.closest?_of_slash (hstart : '*' ∉ start.toList) (hpattern : e.1 = start ++ "/*")
    (hspecifier : specifier = start ++ "/" ++ captured)
    (hexact : specifier ∈ t.patterns → '*' ∈ specifier.toList) :
    t.closest? specifier = some (e.2.map (fill captured)) := by
  have hframes : Frames e.1 specifier (start ++ "/") captured := by
    rw [hpattern]
    exact (frames_slash_iff hstart).mpr ⟨rfl, hspecifier⟩
  have hsame : ∀ d ∈ t.entries, ∀ other text, Frames d.1 specifier other text →
      d = e ∧ other = start ++ "/" := by
    intro d hd other text hother
    have heq := honly d hd (h.matches_of_fits hd (.beginning hother))
    rw [heq, hpattern, frames_slash_iff hstart] at hother
    exact ⟨heq, hother.1⟩
  rw [closest?, closestOf?_of_frames hexact he hframes, Option.map_some]
  · intro d hd other text hother
    rw [(hsame d hd other text hother).2]
  · intro d hd other text hother _
    rw [(hsame d hd other text hother).1]

theorem Shared.expand_of_slash (hbare : ¬ t.IsBare specifier) (hpattern : e.1 = start ++ "/*")
    (hspecifier : specifier = start ++ "/" ++ captured) :
    t.expand specifier = some (e.2.map (fill captured)) := by
  by_cases hexact : specifier ∈ t.patterns
  · -- the pattern is the specifier, and what it captures is its own `*`
    obtain ⟨d, hd, hsame⟩ := List.mem_map.mp hexact
    obtain rfl := honly d hd (Or.inl hsame)
    have hcaptured : captured = "*" := by
      rw [← hsame, hpattern, append_slash_star, String.append_right_inj] at hspecifier
      exact hspecifier.symm
    subst hsame
    rw [expand_of_mem h.distinct hd, hcaptured,
      List.map_congr_left fun target _ => fill_star target, List.map_id']
  · obtain ⟨earlier, later, hentries, hearlier⟩ := List.eq_append_cons_of_mem he
    refine expand_of_covered hexact hentries (fun d hd text hcovers => ?_)
      ⟨start, hpattern, Or.inl hspecifier⟩
    have hmem : d ∈ t.entries := hentries ▸ List.mem_append_left _ hd
    exact hearlier (honly d hmem (matches_of_covers hbare hmem hcovers) ▸ hd)

end

/-- The one entry that matches a specifier is the one that both readings take. -/
theorem Shared.closest?_eq_expand (h : t.Shared) (hbare : ¬ t.IsBare specifier)
    (hone : ∃! e, e ∈ t.entries ∧ Matches e.1 specifier) :
    ∃ texts, t.expand specifier = some texts ∧ t.closest? specifier = some texts := by
  obtain ⟨e, ⟨he, hmatches⟩, hunique⟩ := hone
  have honly : ∀ d ∈ t.entries, Matches d.1 specifier → d = e := fun d hd hd' =>
    hunique d ⟨hd, hd'⟩
  rcases h.shape e.1 (List.mem_map_of_mem he) with hstar | ⟨start, hpattern, hstart⟩
  · have hsame : e.1 = specifier := by
      refine hmatches.resolve_right fun ⟨start, hpattern, _⟩ => hstar ?_
      rw [hpattern]
      exact star_mem_slash start
    subst hsame
    refine ⟨e.2, expand_of_mem h.distinct he, ?_⟩
    have hfill : ∀ target ∈ e.2, fill "" target = target := fun target htarget =>
      fill_of_no_star (h.whole e he hstar target htarget) ""
    rw [closest?, closestOf?_of_exact h.distinct hstar he, Option.map_some,
      List.map_congr_left hfill, List.map_id']
  · have hbegins : startsWith specifier (start ++ "/") = true := by
      rcases hmatches with hsame | ⟨other, hother, hbegins⟩
      · rw [← hsame, hpattern, append_slash_star]
        exact startsWith_append _ _
      · rw [hpattern, String.append_left_inj] at hother
        rw [hother]
        exact hbegins
    obtain ⟨captured, hspecifier⟩ := exists_append_of_startsWith hbegins
    refine ⟨e.2.map (fill captured), h.expand_of_slash he honly hbare hpattern hspecifier,
      h.closest?_of_slash he honly hstart hpattern hspecifier fun hexact => ?_⟩
    obtain ⟨d, hd, hsame⟩ := List.mem_map.mp hexact
    rw [← hsame, honly d hd (Or.inl hsame), hpattern]
    exact star_mem_slash start

-- ============================================================ no pattern

theorem Shared.closest?_eq_none (h : t.Shared)
    (hnone : ∀ e ∈ t.entries, ¬ Matches e.1 specifier) : t.closest? specifier = none := by
  rw [closest?, Option.map_eq_none_iff, closestOf?_eq_none_iff]
  exact fun e he fit captured hfits => hnone e he (h.matches_of_fits he hfits)

/-- If nothing matches, only the part before the slash of a pattern is expanded. -/
theorem expand_eq_none_iff_of_unmatched (hnone : ∀ e ∈ t.entries, ¬ Matches e.1 specifier) :
    t.expand specifier = none ↔ ¬ t.IsBare specifier := by
  have hexact : specifier ∉ t.patterns := fun hmem => by
    obtain ⟨e, he, hsame⟩ := List.mem_map.mp hmem
    exact hnone e he (Or.inl hsame)
  constructor
  · intro hexpand hbare
    obtain ⟨e, he, hpattern⟩ := List.mem_map.mp hbare
    rw [expand_of_not_mem hexact, List.findSome?_eq_none_iff] at hexpand
    refine captured?_eq_none_iff.mp (Option.map_eq_none_iff.mp (hexpand e he)) "" ?_
    exact ⟨specifier, hpattern, Or.inr ⟨rfl, rfl⟩⟩
  · intro hbare
    refine expand_eq_none hexact fun e he captured hcovers => ?_
    exact hnone e he (matches_of_covers hbare he hcovers)

end ImportResolution.AliasTable
