/-
Paths seen from a directory. Two lists of components agree up to somewhere and are told
apart by what follows; the steps from the one to the other go up from what only the first
has and down what only the second has (`exists_difference`). Where the first has names
only, each of these `..` takes one of them back, so the steps lead to the second
(`foldl_settle_ups`).

# Absolute paths

A path that starts at the root of the file system is names after the root when it is
clean (`settled_of_isAbsolute`). So one such path is always seen from another, and what is
seen is a list of components in which nothing is left to carry out: it is written and read
in normal form without a change. It climbs out of the base exactly if it starts with a
`..`, that is, if the base has anything that the path does not go on after.
-/
import ImportResolution.Proofs.FilePath.Names
import ImportResolution.Proofs.FilePath.NormalForms
import ImportResolution.Proofs.ProjectRoots.Nearest

namespace ImportResolution.FilePath

open WorkspacePath (IsNormal escapes isRooted normalize segments walked)

variable {p base path : String}

-- ========================================================= absolute paths

/-- Names after a root are carried out to names after the root. -/
theorem foldl_settle_root {kept cs : List Component} (hkept : ∀ c ∈ kept, ∃ text, c = .name text)
    (h : ∀ c ∈ cs, IsStep c) :
    ∃ names, cs.foldl settle (kept ++ [.root]) = names ++ [.root] ∧
      ∀ c ∈ names, ∃ text, c = .name text := by
  induction cs generalizing kept with
  | nil => exact ⟨kept, rfl, hkept⟩
  | cons c rest ih =>
      obtain ⟨hc, hrest⟩ := List.forall_mem_cons.mp h
      cases c with
      | root => exact absurd rfl hc.ne_root
      | current => exact ih hkept hrest
      | name text => exact ih (List.forall_mem_cons.mpr ⟨⟨text, rfl⟩, hkept⟩) hrest
      | up =>
          cases kept with
          | nil => exact ih hkept hrest
          | cons last earlier =>
              obtain ⟨⟨text, rfl⟩, hearlier⟩ := List.forall_mem_cons.mp hkept
              exact ih hearlier hrest

/-- Clean, an absolute path is names after the root. -/
theorem settled_of_isAbsolute (h : isAbsolute p = true) :
    ∃ names, settled p = .root :: names ∧ ∀ c ∈ names, ∃ text, c = .name text := by
  obtain ⟨names, hfold, hnames⟩ := foldl_settle_root (List.forall_mem_nil _)
    fun c (hc : c ∈ steps p.toList) => isStep_of_mem_steps hc
  refine ⟨names.reverse, ?_, fun c hc => hnames c (List.mem_reverse.mp hc)⟩
  have hroot : origin true = [.root] := rfl
  rw [List.nil_append] at hfold
  rw [settled_eq_foldl, h, hroot, hfold, List.reverse_append]
  rfl

-- ================================================================ letters

theorem mem_settle {kept : List Component} {c d : Component} (h : d ∈ settle kept c) :
    d = c ∨ d ∈ kept := by
  unfold settle at h
  split at h
  · exact Or.inr h
  · split at h
    · exact Or.inr (List.mem_cons_of_mem _ h)
    · exact Or.inr h
    · exact List.mem_cons.mp h
  · exact List.mem_cons.mp h

theorem mem_foldl_settle {cs kept : List Component} {d : Component}
    (h : d ∈ cs.foldl settle kept) : d ∈ cs ∨ d ∈ kept := by
  induction cs generalizing kept with
  | nil => exact Or.inr h
  | cons c rest ih =>
      rcases ih h with h | h
      · exact Or.inl (List.mem_cons_of_mem _ h)
      · rcases mem_settle h with rfl | h
        · exact Or.inl (List.mem_cons_self ..)
        · exact Or.inr h

/-- The name that a path leads to is made of letters of the path. -/
theorem mem_of_mem_settled {text : String} (h : .name text ∈ settled p) {c : Char}
    (hc : c ∈ text.toList) : c ∈ p.toList := by
  rw [settled_eq_foldl, List.mem_reverse] at h
  have hstep : .name text ∈ steps p.toList := by
    refine (mem_foldl_settle h).resolve_right fun horigin => ?_
    unfold origin at horigin
    split at horigin
    · cases List.mem_singleton.mp horigin
    · cases horigin
  obtain ⟨segment, hsegment, hname⟩ := List.mem_filterMap.mp hstep
  refine Text.mem_of_mem_splitOn hsegment ?_
  rw [IsName.ofSegment?_eq ⟨text, hname⟩] at hname
  rwa [← Component.name.inj (Option.some.inj hname), String.toList_ofList] at hc

-- ============================================================ differences

/-- Two lists agree up to somewhere. The steps from the one to the other go up from there
and down from there, and go up at all only where the one leaves the other. -/
theorem exists_difference (path : List Component) {base : List Component} (h : .up ∉ base) :
    ∃ common back rest, base = common ++ back ∧ path = common ++ rest ∧
      (back <+: rest → back = []) ∧
      difference path base = some (List.replicate back.length .up ++ rest) := by
  induction path generalizing base with
  | nil =>
      refine ⟨[], base, [], rfl, rfl, List.prefix_nil.mp, ?_⟩
      rw [difference, List.map_const', List.append_nil]
  | cons a path ih =>
      cases base with
      | nil => exact ⟨[], [], a :: path, rfl, rfl, fun _ => rfl, rfl⟩
      | cons b base =>
          obtain ⟨hb, hbase⟩ := not_or.mp (mt List.mem_cons.mpr h)
          rw [difference]
          by_cases hab : a = b
          · obtain ⟨common, back, rest, rfl, rfl, hback, hdifference⟩ := ih hbase
            refine ⟨a :: common, back, rest, by rw [hab]; rfl, rfl, hback, ?_⟩
            rw [if_pos hab, hdifference]
          · refine ⟨[], b :: base, a :: path, rfl, rfl, fun hpre => ?_, ?_⟩
            · exact absurd (List.cons_prefix_cons.mp hpre).1.symm hab
            · rw [if_neg hab, if_neg (Ne.symm hb), List.map_const']

/-- As many `..` as there are names take them back. -/
theorem foldl_settle_ups {names : List Component} (h : ∀ c ∈ names, ∃ text, c = .name text)
    (kept : List Component) :
    (List.replicate names.length .up).foldl settle (names ++ kept) = kept := by
  induction names with
  | nil => rfl
  | cons c rest ih =>
      obtain ⟨⟨text, rfl⟩, hrest⟩ := List.forall_mem_cons.mp h
      exact ih hrest

theorem straight_ups (n : Nat) : Straight (List.replicate n .up) := by
  induction n with
  | zero => rfl
  | succ n ih =>
      have hone : settle (List.replicate n .up) .up = .up :: List.replicate n .up := by
        cases n with
        | zero => rfl
        | succ n => rfl
      rw [Straight, List.reverse_replicate] at ih
      rw [Straight, List.reverse_replicate, List.replicate_succ', List.foldl_append, ih,
        ← List.replicate_succ', List.replicate_succ]
      exact hone

/-- The steps from the one list, followed from there, lead to the other. -/
theorem foldl_settle_difference {common back rest : List Component}
    (hback : ∀ c ∈ back, ∃ text, c = .name text) (hrest : ∀ c ∈ rest, ∃ text, c = .name text) :
    (List.replicate back.length Component.up ++ rest).foldl settle (common ++ back).reverse
      = (common ++ rest).reverse := by
  have hnames : ∀ c ∈ back.reverse, ∃ text, c = .name text :=
    fun c hc => hback c (List.mem_reverse.mp hc)
  have hups := foldl_settle_ups hnames common.reverse
  rw [List.length_reverse] at hups
  rw [List.foldl_append, List.reverse_append, hups, foldl_settle_names hrest, List.reverse_append]

/-- They go up at first if anything is left of the list that they start from. -/
theorem head?_difference {rest : List Component} (hrest : ∀ c ∈ rest, ∃ text, c = .name text)
    (back : List Component) :
    (List.replicate back.length Component.up ++ rest).head? = some .up ↔ back ≠ [] := by
  cases back with
  | cons c more => exact iff_of_true rfl (List.cons_ne_nil _ _)
  | nil =>
      refine iff_of_false (fun hhead => ?_) fun hne => hne rfl
      obtain ⟨text, htext⟩ := hrest _ (List.mem_of_mem_head? (Option.mem_def.mpr hhead))
      cases htext

theorem ofPart_eq_up_iff {segment : String} : Component.ofPart segment = .up ↔ segment = ".." := by
  unfold Component.ofPart
  split
  · next h => exact iff_of_true rfl h
  · next h => exact iff_of_false nofun h

/-- A path in normal form climbs out of the workspace if a `..` is left when it is clean. -/
theorem escapes_iff_settled (h : IsNormal p) (hr : isRooted p = false) :
    escapes p = true ↔ (settled p).head? = some .up := by
  by_cases hroot : p = "."
  · rw [hroot]
    decide
  · rw [h.escapes_iff hr, h.segments_eq_walked hr hroot, settled_of_isNormal h hr, List.head?_map,
      Option.map_eq_some_iff]
    simp only [ofPart_eq_up_iff, exists_eq_right]

theorem isStep_ups_append {names : List Component} (h : ∀ c ∈ names, IsStep c) (n : Nat) :
    ∀ c ∈ List.replicate n .up ++ names, IsStep c := by
  intro c hc
  rcases List.mem_append.mp hc with hc | hc
  · rw [List.eq_of_mem_replicate hc]
    exact isStep_up
  · exact h c hc

/-- The text of such steps is a relative path that leads down them. -/
theorem settled_ofComponents {names : List Component} (h : ∀ c ∈ names, IsStep c)
    (hnames : ∀ c ∈ names, ∃ text, c = .name text) (n : Nat) :
    isAbsolute (ofComponents (List.replicate n .up ++ names)) = false ∧
      settled (ofComponents (List.replicate n .up ++ names)) = List.replicate n .up ++ names := by
  have hlead := lead_ofComponents false (isStep_ups_append h n)
  have hcomponents := components_ofComponents false (isStep_ups_append h n)
  rw [origin_false, List.nil_append] at hlead hcomponents
  constructor
  · rw [← Bool.not_eq_true, isAbsolute_iff, hlead]
    exact nofun
  · have hstraight : Straight (List.replicate n .up ++ names) :=
      (straight_ups n).append_names hnames
    rw [← hcomponents] at hstraight
    rw [hstraight.settled_eq, hcomponents]

/-- No backslash comes in where there is none in the path. -/
theorem backslash_not_mem_ofComponents {names : List Component} (h : ∀ c ∈ names, IsStep c)
    (hnames : ∀ c ∈ names, ∃ text, c = .name text) (hpath : ∀ c ∈ names, c ∈ settled path)
    (hslash : '\\' ∉ path.toList) (n : Nat) :
    '\\' ∉ (ofComponents (List.replicate n .up ++ names)).toList := by
  have hwritten := toList_ofComponents false (isStep_ups_append h n)
  rw [origin_false, List.nil_append] at hwritten
  intro hmem
  rw [hwritten] at hmem
  rcases Text.mem_joinOn hmem with hsep | ⟨piece, hpiece, hc⟩
  · exact absurd hsep (by decide)
  · obtain ⟨c, hcomponent, rfl⟩ := List.mem_map.mp hpiece
    rcases List.mem_append.mp hcomponent with hup | hname
    · rw [List.eq_of_mem_replicate hup] at hc
      exact absurd hc (by decide)
    · obtain ⟨text, rfl⟩ := hnames c hname
      exact hslash (mem_of_mem_settled (hpath _ hname) hc)

/-- Seen from an absolute path, an absolute path is what is left of it where the two part,
after a `..` for each name that is left of the base. -/
theorem exists_relativeTo? (hbase : isAbsolute base = true) (hpath : isAbsolute path = true) :
    ∃ common back rest, settled base = .root :: (common ++ back) ∧
      settled path = .root :: (common ++ rest) ∧
      (∀ c ∈ back, ∃ text, c = .name text) ∧ (∀ c ∈ rest, ∃ text, c = .name text) ∧
      (∀ c ∈ rest, IsStep c) ∧ (back <+: rest → back = []) ∧
      relativeTo? base path
        = some (normalize (ofComponents (List.replicate back.length .up ++ rest))) := by
  obtain ⟨names, hsettled, hnames⟩ := settled_of_isAbsolute hbase
  obtain ⟨names', hsettled', hnames'⟩ := settled_of_isAbsolute hpath
  have hup : .up ∉ names := fun hmem => by
    obtain ⟨text, htext⟩ := hnames _ hmem
    cases htext
  obtain ⟨common, back, rest, rfl, rfl, hback, hdifference⟩ := exists_difference names' hup
  refine ⟨common, back, rest, hsettled, hsettled', (List.forall_mem_append.mp hnames).2,
    (List.forall_mem_append.mp hnames').2, ?_, hback, ?_⟩
  · obtain ⟨parts, hparts, hsteps⟩ := settled_eq path
    rw [hpath, hsettled'] at hparts
    obtain rfl : common ++ rest = parts := (List.cons_eq_cons.mp hparts).2
    exact (List.forall_mem_append.mp hsteps).2
  · rw [relativeTo?, if_pos (hpath.trans hbase.symm), hsettled, hsettled', difference, if_pos rfl,
      hdifference]
    rfl

/-- A path is exactly what it is seen as. From an absolute base an absolute path without
backslashes is seen as a path in normal form below no root; joined to the base it leads
back to the path, and it climbs out of the base unless the base encloses the path. -/
theorem relativeTo?_exact (hbase : isAbsolute base = true) (hpath : isAbsolute path = true)
    (hslash : '\\' ∉ path.toList) :
    ∃ r, relativeTo? base path = some r ∧ IsNormal r ∧ isRooted r = false ∧
      isAbsolute r = false ∧ clean (join base r) = clean path ∧
      (escapes r = false ↔ components (clean base) <+: components (clean path)) := by
  obtain ⟨common, back, rest, hsettled, hsettled', hback, hrest, hsteps, hparts, hrelative⟩ :=
    exists_relativeTo? hbase hpath
  have hmem : ∀ c ∈ rest, c ∈ settled path := fun c hc => by
    rw [hsettled']
    exact List.mem_cons_of_mem _ (List.mem_append_right _ hc)
  obtain ⟨hq, hsettledq⟩ := settled_ofComponents hsteps hrest back.length
  have hqslash := backslash_not_mem_ofComponents hsteps hrest hmem hslash back.length
  generalize ofComponents (List.replicate back.length .up ++ rest) = q at *
  have hrooted : isRooted (normalize q) = false := by
    rw [WorkspacePath.isRooted_normalize, ← isAbsolute_eq_isRooted hqslash, hq]
  have hnormal : IsNormal (normalize q) := WorkspacePath.isNormal_normalize q
  refine ⟨normalize q, hrelative, hnormal, hrooted, (isAbsolute_normalize hqslash).trans hq, ?_, ?_⟩
  · rw [clean_join_normalize base hq hqslash, clean_eq_iff, settled_join hq,
      ← foldl_settle_settled hq, hsettledq, hsettled, hsettled', ← List.cons_append,
      foldl_settle_difference hback hrest, List.reverse_reverse, List.cons_append]
  · rw [components_clean, components_clean, hsettled, hsettled', List.cons_prefix_cons,
      List.prefix_append_right_inj, ← Bool.not_eq_true, escapes_iff_settled hnormal hrooted,
      settled_normalize hqslash, hsettledq, head?_difference hrest, not_not]
    exact ⟨fun h => ⟨rfl, h ▸ List.nil_prefix⟩, fun h => hparts h.2⟩

/-- A path that is spelled with detours, seen from a directory that does not enclose it. -/
theorem relativeTo?_exact_detour :
    isAbsolute "/ws/./apps//app/" = true ∧ isAbsolute "/../ws/libs/x/../y" = true ∧
      '\\' ∉ "/../ws/libs/x/../y".toList ∧
      ∃ r, relativeTo? "/ws/./apps//app/" "/../ws/libs/x/../y" = some r ∧ IsNormal r ∧
        isRooted r = false ∧ isAbsolute r = false ∧
        clean (join "/ws/./apps//app/" r) = clean "/../ws/libs/x/../y" ∧
        (escapes r = false ↔
          components (clean "/ws/./apps//app/") <+: components (clean "/../ws/libs/x/../y")) := by
  have hbase : isAbsolute "/ws/./apps//app/" = true := by decide
  have hpath : isAbsolute "/../ws/libs/x/../y" = true := by decide
  have hslash : '\\' ∉ "/../ws/libs/x/../y".toList := by decide
  exact ⟨hbase, hpath, hslash, relativeTo?_exact hbase hpath hslash⟩

example : relativeTo? "/ws/./apps//app/" "/../ws/libs/x/../y" = some "../../libs/y" := by
  decide +kernel

end ImportResolution.FilePath
