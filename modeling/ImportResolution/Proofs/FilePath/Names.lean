/-
Paths that are written with names only, and what is written behind a path. A path of
names leads straight on from wherever it is joined to, and still does with an ending
behind its last name.

A join is text as well: what is joined to a directory stands unchanged at the end, behind
the directory and a slash (`join_eq`). So an ending that has no slash is put behind the
joined text or taken from it (`join_append`, `dropEnd?_join`), whatever the directory is;
and behind names it may be put before or after the path is cleaned (`clean_join_append`).
-/
import ImportResolution.Proofs.FilePath.Detours
import Mathlib.Data.List.Basic

namespace ImportResolution.FilePath

open Text

variable {p base rest ending : String}

-- ================================================================ names

/-- The text consists of names with single slashes between them. -/
def OfNames (p : String) : Prop :=
  ∀ piece ∈ pieces '/' p, piece ≠ "" ∧ piece ≠ "." ∧ piece ≠ ".."

instance (p : String) : Decidable (OfNames p) :=
  inferInstanceAs (Decidable (∀ piece ∈ pieces '/' p, _))

/-- The segment is a name. -/
def IsName (segment : List Char) : Prop :=
  ∃ text, Component.ofSegment? segment = some (.name text)

theorem isName_iff {segment : List Char} :
    IsName segment ↔ segment ≠ [] ∧ segment ≠ ['.'] ∧ segment ≠ ['.', '.'] := by
  unfold IsName Component.ofSegment?
  by_cases hvoid : segment = [] ∨ segment = ['.']
  · rw [if_pos hvoid]
    exact iff_of_false nofun fun h => hvoid.elim h.1 h.2.1
  · rw [if_neg hvoid]
    by_cases hup : segment = ['.', '.']
    · rw [if_pos hup]
      exact iff_of_false nofun fun h => h.2.2 hup
    · rw [if_neg hup]
      exact iff_of_true ⟨_, rfl⟩ ⟨fun h => hvoid (Or.inl h), fun h => hvoid (Or.inr h), hup⟩

theorem IsName.ofSegment?_eq {segment : List Char} (h : IsName segment) :
    Component.ofSegment? segment = some (.name (String.ofList segment)) := by
  obtain ⟨hnil, hdot, hdots⟩ := isName_iff.mp h
  rw [Component.ofSegment?, if_neg (not_or.mpr ⟨hnil, hdot⟩), if_neg hdots]

theorem ofNames_iff : OfNames p ↔ ∀ segment ∈ splitOn '/' p.toList, IsName segment := by
  simp only [OfNames, pieces, List.forall_mem_map, isName_iff, ne_eq, ← String.toList_inj,
    String.toList_ofList]
  rfl

theorem OfNames.steps_are_names (h : OfNames p) :
    ∀ c ∈ steps p.toList, ∃ text, c = .name text := by
  intro c hc
  obtain ⟨segment, hsegment, hcomponent⟩ := List.mem_filterMap.mp hc
  obtain ⟨text, htext⟩ := ofNames_iff.mp h segment hsegment
  exact ⟨text, Option.some.inj (hcomponent.symm.trans htext)⟩

/-- A path of names starts with a name. -/
theorem OfNames.lead_eq_nil (h : OfNames p) : lead p.toList = [] := by
  rw [ofNames_iff] at h
  generalize p.toList = cs at h
  unfold lead
  split
  · next rest =>
    obtain ⟨text, htext⟩ := h [] (by simp [splitOn])
    cases htext
  · obtain ⟨text, htext⟩ := h ['.'] (by simp [splitOn])
    cases htext
  · next rest =>
    obtain ⟨text, htext⟩ := h ['.'] (by
      rw [show '.' :: '/' :: rest = ['.'] ++ '/' :: rest from rfl, splitOn_append_sep]
      exact List.mem_append_left _ (by simp [splitOn]))
    cases htext
  · rfl

theorem OfNames.components_eq (h : OfNames p) : components p = steps p.toList := by
  rw [FilePath.components_eq, leadComponent?_eq_none h.lead_eq_nil]
  rfl

theorem OfNames.isStep (h : OfNames p) : ∀ c ∈ components p, IsStep c := by
  rw [h.components_eq]
  exact fun c hc => isStep_of_mem_steps hc

theorem OfNames.plain (h : OfNames p) : Plain p := by
  rw [Plain, h.components_eq]
  exact h.steps_are_names

theorem OfNames.components_ne_nil (h : OfNames p) : components p ≠ [] := by
  obtain ⟨first, more, hsplit⟩ := List.exists_cons_of_ne_nil (splitOn_ne_nil '/' p.toList)
  obtain ⟨text, htext⟩ := ofNames_iff.mp h first (hsplit ▸ List.mem_cons_self ..)
  rw [h.components_eq, steps, hsplit, List.filterMap_cons_some htext]
  exact List.cons_ne_nil _ _

theorem ofNames_append_slash : OfNames (p ++ "/" ++ rest) ↔ OfNames p ∧ OfNames rest := by
  rw [ofNames_iff, ofNames_iff, ofNames_iff, toList_append_slash, splitOn_append_sep,
    List.forall_mem_append]

/-- A path of names is not written as seen from a directory. -/
theorem OfNames.isRelative_eq_false (h : OfNames p) : WorkspacePath.isRelative p = false := by
  have hdot : ¬ OfNames "." := by decide
  have hdots : ¬ OfNames ".." := by decide
  have hstart {dots : String} (hdots : ¬ OfNames dots) :
      startsWith p (dots ++ "/") = false := by
    refine Bool.eq_false_iff.mpr fun hp => ?_
    obtain ⟨rest, rfl⟩ := exists_append_of_startsWith hp
    exact hdots (ofNames_append_slash.mp h).1
  rw [WorkspacePath.isRelative]
  simp only [Bool.or_eq_false_iff, beq_eq_false_iff_ne]
  exact ⟨⟨⟨fun hp => hdot (hp ▸ h), fun hp => hdots (hp ▸ h)⟩, hstart hdot⟩, hstart hdots⟩

/-- A single name. -/
theorem ofNames_of_not_mem (hslash : '/' ∉ p.toList) (hname : IsName p.toList) : OfNames p := by
  rw [ofNames_iff, splitOn_of_not_mem hslash]
  exact List.forall_mem_singleton.mpr hname

-- ============================================================== endings

/-- Text that can be put behind a name: it has no slash, and is too long for a segment
of dots. -/
structure IsEnding (ending : String) : Prop where
  no_slash : '/' ∉ ending.toList
  long : 3 ≤ ending.toList.length

instance (ending : String) : Decidable (IsEnding ending) :=
  decidable_of_iff ('/' ∉ ending.toList ∧ 3 ≤ ending.toList.length)
    ⟨fun h => ⟨h.1, h.2⟩, fun h => ⟨h.1, h.2⟩⟩

theorem IsEnding.append {other : String} (h : IsEnding ending) (hother : IsEnding other) :
    IsEnding (ending ++ other) where
  no_slash := by
    rw [String.toList_append, List.mem_append]
    exact fun hmem => hmem.elim h.no_slash hother.no_slash
  long := by
    rw [String.toList_append, List.length_append]
    exact Nat.le_add_right_of_le h.long

theorem IsEnding.isName_append (h : IsEnding ending) (segment : List Char) :
    IsName (segment ++ ending.toList) :=
  ofSegment?_append_ending segment h.long

/-- With an ending behind them, texts are paths of names if their last segment is not
what keeps them from it. -/
theorem IsEnding.ofNames_append_iff (h : IsEnding ending) {before : List (List Char)}
    {last : List Char} (hsplit : splitOn '/' p.toList = before ++ [last]) :
    OfNames (p ++ ending) ↔ ∀ segment ∈ before, IsName segment := by
  obtain ⟨before', last', hp, hboth⟩ := splitOn_append_of_not_mem (a := p.toList) h.no_slash
  obtain ⟨rfl, -⟩ := List.append_inj' (hsplit.symm.trans hp) rfl
  rw [ofNames_iff, String.toList_append, hboth, List.forall_mem_append]
  exact and_iff_left (List.forall_mem_singleton.mpr (h.isName_append last'))

theorem OfNames.append_ending (hp : OfNames p) (h : IsEnding ending) : OfNames (p ++ ending) := by
  obtain ⟨before, last, hsplit, -⟩ := splitOn_append_of_not_mem (a := p.toList) h.no_slash
  rw [h.ofNames_append_iff hsplit]
  rw [ofNames_iff, hsplit] at hp
  exact fun segment hs => hp segment (List.mem_append_left _ hs)

/-- One ending may stand for another. -/
theorem OfNames.change_ending {other : String} (hp : OfNames (p ++ ending)) (h : IsEnding ending)
    (hother : IsEnding other) : OfNames (p ++ other) := by
  obtain ⟨before, last, hsplit, -⟩ := splitOn_append_of_not_mem (a := p.toList) h.no_slash
  rw [hother.ofNames_append_iff hsplit]
  exact (h.ofNames_append_iff hsplit).mp hp

theorem isAbsolute_append (hending : '/' ∉ ending.toList) (p : String) :
    isAbsolute (p ++ ending) = isAbsolute p := by
  rw [Bool.eq_iff_iff, isAbsolute, isAbsolute, startsWith_iff, startsWith_iff,
    String.toList_append]
  have hslash : "/".toList = ['/'] := rfl
  rw [hslash]
  cases p.toList with
  | nil =>
      refine iff_of_false (fun h => hending ?_) fun h => ?_
      · exact h.subset (List.mem_singleton_self _)
      · cases List.prefix_nil.mp h
  | cons c more => rw [List.cons_append, List.cons_prefix_cons, List.cons_prefix_cons]; simp

/-- The text consists of names but for its last segment, which may be any text without a
slash. -/
def NamesBeforeLast (p : String) : Prop :=
  ∀ ending, IsEnding ending → OfNames (p ++ ending)

theorem OfNames.beforeLast (h : OfNames p) : NamesBeforeLast p :=
  fun _ hending => h.append_ending hending

theorem NamesBeforeLast.isAbsolute_eq (h : NamesBeforeLast p) : isAbsolute p = false := by
  have hending : IsEnding ".ts" := by decide
  rw [← isAbsolute_append hending.no_slash]
  exact (h ".ts" hending).plain.isAbsolute_eq

-- ================================================================ joins

theorem foldl_settle_names {names : List Component} (h : ∀ c ∈ names, ∃ text, c = .name text)
    (kept : List Component) : names.foldl settle kept = names.reverse ++ kept := by
  induction names generalizing kept with
  | nil => rfl
  | cons c rest ih =>
      obtain ⟨text, rfl⟩ := h c (List.mem_cons_self ..)
      rw [List.foldl_cons, settle_name, ih fun d hd => h d (List.mem_cons_of_mem _ hd),
        List.reverse_cons, List.append_assoc, List.singleton_append]

/-- Names that are joined to a path stay at its end. -/
theorem settled_join_plain (base : String) (h : Plain rest) :
    settled (join base rest) = settled base ++ components rest := by
  rw [settled_join h.isAbsolute_eq, h.steps_eq, foldl_settle_names h, List.reverse_append,
    List.reverse_reverse, List.reverse_reverse]

/-- The text that whatever is joined to a path is put behind. -/
def opened (base : String) : String :=
  if base = "" ∨ endsWith base "/" then base else base ++ "/"

theorem join_eq (base : String) (h : isAbsolute rest = false) :
    join base rest = opened base ++ rest := by
  rw [join, opened, if_neg (by rw [h]; exact Bool.false_ne_true)]
  split <;> rfl

theorem opened_cases (base : String) :
    opened base = "" ∨ ∃ before, opened base = before ++ "/" := by
  unfold opened
  split
  · next h => exact h.imp_right exists_append_of_endsWith
  · exact Or.inr ⟨base, rfl⟩

/-- An ending is put behind what is joined. -/
theorem join_append (base : String) (hrest : isAbsolute rest = false)
    (hending : '/' ∉ ending.toList) : join base rest ++ ending = join base (rest ++ ending) := by
  rw [join_eq base hrest, join_eq base ((isAbsolute_append hending rest).trans hrest),
    String.append_assoc]

/-- With an ending, the last name is the longer one. -/
theorem OfNames.exists_last (hp : OfNames p) (h : IsEnding ending) :
    ∃ before text, components p = before ++ [.name text] ∧
      components (p ++ ending) = before ++ [.name (text ++ ending)] := by
  obtain ⟨before, last, hsplit, hboth⟩ := splitOn_append_of_not_mem (a := p.toList) h.no_slash
  have hlast : IsName last := ofNames_iff.mp hp last (by simp [hsplit])
  rw [hp.components_eq, (hp.append_ending h).components_eq, String.toList_append, steps, steps,
    hsplit, hboth, List.filterMap_append, List.filterMap_append,
    List.filterMap_cons_some hlast.ofSegment?_eq,
    List.filterMap_cons_some (h.isName_append last).ofSegment?_eq]
  refine ⟨_, String.ofList last, rfl, ?_⟩
  rw [String.ofList_append, String.ofList_toList]
  rfl

/-- An ending is put behind the last of some steps. -/
theorem ofComponents_append {parts : List Component} {text : String} (rooted : Bool)
    (h : ∀ c ∈ parts ++ [.name text], IsStep c) (hlong : IsStep (.name (text ++ ending))) :
    ofComponents (origin rooted ++ (parts ++ [.name text])) ++ ending
      = ofComponents (origin rooted ++ (parts ++ [.name (text ++ ending)])) := by
  have hother : ∀ c ∈ parts ++ [.name (text ++ ending)], IsStep c :=
    List.forall_mem_append.mpr
      ⟨(List.forall_mem_append.mp h).1, List.forall_mem_singleton.mpr hlong⟩
  rw [← String.toList_inj, String.toList_append, toList_ofComponents rooted h,
    toList_ofComponents rooted hother, List.append_assoc, List.map_append, List.map_append]
  congr 1
  cases parts with
  | nil => exact (String.toList_append ..).symm
  | cons first rest =>
      have hfirst : (first :: rest).map (fun c => c.text.toList) ≠ [] := List.cons_ne_nil _ _
      have hlast (name : String) : [Component.name name].map (fun c => c.text.toList) ≠ [] :=
        List.cons_ne_nil _ _
      rw [joinOn_append hfirst (hlast text), joinOn_append hfirst (hlast _), List.append_assoc]
      exact congrArg _ (congrArg _ (String.toList_append ..).symm)

/-- An ending may be put behind a path of names before or after cleaning. -/
theorem clean_join_append (base : String) (hrest : OfNames rest) (h : IsEnding ending) :
    clean (join base rest) ++ ending = clean (join base (rest ++ ending)) := by
  obtain ⟨before, text, hbefore, hlong⟩ := hrest.exists_last h
  obtain ⟨parts, hparts, hsteps⟩ := settled_eq base
  have hshorter := hrest.isStep
  have hlonger := (hrest.append_ending h).isStep
  rw [hbefore] at hshorter
  rw [hlong, List.forall_mem_append, List.forall_mem_singleton] at hlonger
  have hall : ∀ c ∈ parts ++ before ++ [.name text], IsStep c := by
    rw [List.append_assoc]
    exact List.forall_mem_append.mpr ⟨hsteps, hshorter⟩
  rw [clean, clean, settled_join_plain base hrest.plain,
    settled_join_plain base (hrest.append_ending h).plain, hbefore, hlong, hparts,
    List.append_assoc, List.append_assoc, ← List.append_assoc parts, ← List.append_assoc parts]
  exact ofComponents_append _ hall hlonger.2

/-- What stands at the end of a path and has no slash stands at the end of what was
joined last. -/
theorem exists_append_of_opened_append {other stem : List Char}
    (h : (opened base).toList ++ other = stem ++ ending.toList) (hending : '/' ∉ ending.toList) :
    ∃ more, other = more ++ ending.toList ∧ stem = (opened base).toList ++ more := by
  rcases List.append_eq_append_iff.mp h with ⟨more, hstem, hother⟩ | ⟨more, hopened, hmore⟩
  · exact ⟨more, hother, hstem⟩
  · -- what is opened ends with a slash, so the ending does not reach into it
    have hnil : more = [] := by
      rcases opened_cases base with hempty | ⟨text, htext⟩
      · rw [hempty] at hopened
        exact (List.append_eq_nil_iff.mp hopened.symm).2
      · refine Classical.byContradiction fun hne => hending ?_
        have hlast := congrArg List.getLast? hopened
        rw [htext, String.toList_append, show "/".toList = ['/'] from rfl, List.getLast?_concat,
          List.getLast?_append_of_ne_nil _ hne] at hlast
        rw [hmore]
        exact List.mem_append_left _ (List.mem_of_getLast? hlast.symm)
    rw [hnil, List.append_nil] at hopened
    rw [hnil, List.nil_append] at hmore
    exact ⟨[], by rw [hmore, List.nil_append], by rw [hopened, List.append_nil]⟩

/-- An ending is taken from what was joined. -/
theorem dropEnd?_join (base : String) (hrest : isAbsolute rest = false)
    (hending : '/' ∉ ending.toList) :
    dropEnd? (join base rest) ending = (dropEnd? rest ending).map (join base) := by
  refine Option.ext fun stem => ?_
  rw [dropEnd?_eq_some_iff, Option.map_eq_some_iff, join_eq base hrest]
  constructor
  · intro h
    have hlists := congrArg String.toList h
    rw [String.toList_append, String.toList_append] at hlists
    obtain ⟨more, hmore, hstem⟩ := exists_append_of_opened_append hlists hending
    have hrest' : rest = String.ofList more ++ ending := by
      rw [← String.toList_inj, String.toList_append, String.toList_ofList, hmore]
    rw [hrest', isAbsolute_append hending] at hrest
    refine ⟨String.ofList more, dropEnd?_eq_some_iff.mpr hrest', ?_⟩
    rw [join_eq base hrest, ← String.toList_inj, String.toList_append, String.toList_ofList, hstem]
  · rintro ⟨more, hmore, rfl⟩
    rw [dropEnd?_eq_some_iff] at hmore
    rw [hmore, isAbsolute_append hending] at hrest
    rw [hmore, join_eq base hrest, String.append_assoc]

end ImportResolution.FilePath
