/-
Paths by their components. The spelling of a path matters to nothing but
itself: whether two paths are the same, what a path is when it is cleaned, what
its parent and its file name are and what is reached through it can all be read
off its components. So each operation gets one equation about components, and
what follows is about lists of them.

# Straight paths

Components are straight when there is no `.` or `..` left to carry out
(`Straight`). Cleaning makes a path straight and leaves a straight one as it is
(`components_clean`), so two straight paths that are cleaned alike have the same
components. The parents of a straight path are straight, and so is what names
lead to from it.
-/
import ImportResolution.FilePath
import ImportResolution.Proofs.WorkspacePath

namespace ImportResolution.FilePath

open Text

-- ================================================================ steps

/-- The components that the segments of a text stand for; all components of a
path but a root and a leading `.`. -/
def steps (cs : List Char) : List Component :=
  (splitOn '/' cs).filterMap Component.ofSegment?

theorem steps_append_slash (a b : List Char) : steps (a ++ '/' :: b) = steps a ++ steps b := by
  rw [steps, splitOn_append_sep, List.filterMap_append]
  rfl

theorem steps_slash (b : List Char) : steps ('/' :: b) = steps b :=
  steps_append_slash [] b

/-- A path is its start and the steps that follow. -/
theorem components_eq (p : String) :
    components p = (leadComponent? p.toList).toList ++ steps p.toList := by
  have h : (body p.toList).filterMap Component.ofSegment? = steps p.toList := by
    generalize p.toList = cs
    unfold body lead
    split
    · exact (steps_slash _).symm
    · rfl
    · exact (steps_append_slash ['.'] _).symm
    · rfl
  rw [components, h]

-- ================================================================ starts

/-- A text that starts with neither a slash nor a `.` segment has no start of
its own. -/
theorem lead_eq_nil {c : Char} {rest : List Char} (hslash : c ≠ '/')
    (hdot : c = '.' → ∃ d more, rest = d :: more ∧ d ≠ '/') : lead (c :: rest) = [] := by
  unfold lead
  split
  · next h =>
    exact absurd (List.cons_eq_cons.mp h).1 hslash
  · next h =>
    obtain ⟨hc, hrest⟩ := List.cons_eq_cons.mp h
    obtain ⟨d, more, hd, -⟩ := hdot hc
    rw [hrest] at hd
    cases hd
  · next h =>
    obtain ⟨hc, hrest⟩ := List.cons_eq_cons.mp h
    obtain ⟨d, more, hd, hne⟩ := hdot hc
    rw [hrest] at hd
    exact absurd (List.cons_eq_cons.mp hd).1.symm hne
  · rfl

/-- How a path starts is told by its first two characters. -/
theorem lead_append (c d : Char) (rest cs : List Char) :
    lead (c :: d :: rest ++ cs) = lead (c :: d :: rest) := by
  by_cases hslash : c = '/'
  · rw [hslash]
    rfl
  · by_cases hdot : c = '.' ∧ d = '/'
    · rw [hdot.1, hdot.2]
      rfl
    · have hd : c = '.' → d ≠ '/' := fun hc hd => hdot ⟨hc, hd⟩
      rw [lead_eq_nil hslash fun hc => ⟨d, rest, rfl, hd hc⟩]
      exact lead_eq_nil hslash fun hc => ⟨d, rest ++ cs, rfl, hd hc⟩

/-- What follows a slash does not change how a path starts. -/
theorem lead_append_slash {a : List Char} (ha : a ≠ []) (b : List Char) :
    lead (a ++ '/' :: b) = lead a := by
  match a with
  | [] => exact absurd rfl ha
  | c :: d :: rest => exact lead_append c d rest ('/' :: b)
  | [c] =>
      by_cases hslash : c = '/'
      · rw [hslash]
        rfl
      · by_cases hdot : c = '.'
        · rw [hdot]
          rfl
        · rw [lead_eq_nil hslash fun h => absurd h hdot]
          exact lead_eq_nil hslash fun h => absurd h hdot

theorem leadComponent?_eq_none {cs : List Char} (h : lead cs = []) : leadComponent? cs = none := by
  rw [leadComponent?, h]

/-- A path starts with a root, with a leading `.` or with neither. -/
theorem lead_cases (cs : List Char) : lead cs = ['/'] ∨ lead cs = ['.'] ∨ lead cs = [] := by
  unfold lead
  split
  · exact Or.inl rfl
  · exact Or.inr (Or.inl rfl)
  · exact Or.inr (Or.inl rfl)
  · exact Or.inr (Or.inr rfl)

theorem lead_lead (cs : List Char) : lead (lead cs) = lead cs := by
  rcases lead_cases cs with h | h | h
  all_goals rw [h]; rfl

theorem isAbsolute_iff {p : String} : isAbsolute p = true ↔ lead p.toList = ['/'] := by
  rw [isAbsolute, startsWith_iff]
  constructor
  · rintro ⟨rest, h⟩
    rw [← h]
    rfl
  · intro h
    exact ⟨_, (congrArg (· ++ _) h).symm.trans (lead_append_drop p.toList)⟩

-- =============================================================== joining

/-- A relative path follows another behind a slash, which leaves the other with its start
and its steps. -/
theorem exists_join {base rest : String} (hbase : base ≠ "") (hrest : isAbsolute rest = false) :
    ∃ before, (join base rest).toList = before ++ '/' :: rest.toList ∧
      lead (before ++ '/' :: rest.toList) = lead base.toList ∧
      steps before = steps base.toList := by
  have hne : base.toList ≠ [] := fun h => hbase (String.toList_eq_nil_iff.mp h)
  have hslash : "/".toList = ['/'] := rfl
  rw [join, if_neg (by rw [hrest]; exact Bool.false_ne_true)]
  by_cases hend : base = "" ∨ endsWith base "/"
  · rw [if_pos hend]
    obtain ⟨a, ha⟩ := endsWith_iff.mp (hend.resolve_left hbase)
    rw [hslash] at ha
    refine ⟨a, ?_, ?_, ?_⟩
    · rw [String.toList_append, ← ha, List.append_assoc, List.singleton_append]
    · rw [← ha]
      cases a with
      | nil => rfl
      | cons c more =>
          rw [lead_append_slash (List.cons_ne_nil _ _), lead_append_slash (List.cons_ne_nil _ _)]
    · rw [← ha, steps_append_slash]
      exact (List.append_nil _).symm
  · rw [if_neg hend]
    exact ⟨base.toList, toList_append_slash base rest, lead_append_slash hne _, rfl⟩

/-- A relative path that follows another adds its steps. -/
theorem components_join {base rest : String} (hbase : base ≠ "") (hrest : isAbsolute rest = false) :
    components (join base rest) = components base ++ steps rest.toList := by
  obtain ⟨before, hjoin, hlead, hsteps⟩ := exists_join hbase hrest
  rw [components_eq, components_eq, hjoin, leadComponent?, hlead, ← leadComponent?,
    steps_append_slash, hsteps, List.append_assoc]

/-- A path that follows nothing is itself. -/
theorem join_empty (rest : String) : join "" rest = rest := by
  unfold join
  split
  · rfl
  · rw [if_pos (Or.inl rfl), String.empty_append]

/-- What is relative behind a relative path is relative. -/
theorem isAbsolute_join {base rest : String} (hbase : isAbsolute base = false)
    (hrest : isAbsolute rest = false) : isAbsolute (join base rest) = false := by
  by_cases hempty : base = ""
  · rw [hempty, join_empty, hrest]
  · obtain ⟨before, hjoin, hlead, -⟩ := exists_join hempty hrest
    rw [← Bool.not_eq_true, isAbsolute_iff] at hbase ⊢
    rw [hjoin, hlead]
    exact hbase

-- =============================================================== writing

/-- A component that is written as one segment. -/
def IsStep (c : Component) : Prop :=
  Component.ofSegment? c.text.toList = some c ∧ '/' ∉ c.text.toList

theorem isStep_up : IsStep .up :=
  ⟨rfl, by decide⟩

theorem IsStep.ne_root {c : Component} (h : IsStep c) : c ≠ .root := by
  rintro rfl
  exact h.2 (List.mem_singleton_self _)

theorem isStep_of_mem_steps {cs : List Char} {c : Component} (h : c ∈ steps cs) : IsStep c := by
  obtain ⟨segment, hsegment, hc⟩ := List.mem_filterMap.mp h
  have hslash := not_mem_of_mem_splitOn hsegment
  have hsame := hc
  unfold Component.ofSegment? at hsame
  split at hsame
  · cases hsame
  · split at hsame
    · obtain rfl := Option.some.inj hsame
      exact isStep_up
    · obtain rfl := Option.some.inj hsame
      unfold IsStep Component.text
      rw [String.toList_ofList]
      exact ⟨hc, hslash⟩

/-- Each step is found again where it is written. -/
theorem filterMap_text {parts : List Component} (h : ∀ c ∈ parts, IsStep c) :
    (parts.map fun c => c.text.toList).filterMap Component.ofSegment? = parts := by
  induction parts with
  | nil => rfl
  | cons first rest ih =>
      rw [List.map_cons, List.filterMap_cons_some (h first (List.mem_cons_self ..)).1,
        ih fun c hc => h c (List.mem_cons_of_mem _ hc)]

/-- Joined segments are read one by one. -/
theorem steps_joinOn {segments : List (List Char)} (h : ∀ s ∈ segments, '/' ∉ s) :
    steps (joinOn '/' segments) = segments.filterMap Component.ofSegment? := by
  cases segments with
  | nil => rfl
  | cons first rest => rw [steps, splitOn_joinOn (List.cons_ne_nil _ _) h]

theorem steps_written {parts : List Component} (h : ∀ c ∈ parts, IsStep c) :
    steps (joinOn '/' (parts.map fun c => c.text.toList)) = parts := by
  rw [steps_joinOn, filterMap_text h]
  intro s hs
  obtain ⟨c, hc, rfl⟩ := List.mem_map.mp hs
  exact (h c hc).2

/-- A text of steps has no start of its own. -/
theorem lead_written {parts : List Component} (h : ∀ c ∈ parts, IsStep c) :
    lead (joinOn '/' (parts.map fun c => c.text.toList)) = [] := by
  cases parts with
  | nil => rfl
  | cons first rest =>
      obtain ⟨hfirst, hslash⟩ := h first (List.mem_cons_self ..)
      have hlead : lead first.text.toList = [] := by
        cases hcs : first.text.toList with
        | nil =>
            rw [hcs] at hfirst
            cases hfirst
        | cons c more =>
            rw [hcs] at hfirst hslash
            rw [List.mem_cons, not_or] at hslash
            refine lead_eq_nil (Ne.symm hslash.1) fun hdot => ?_
            cases more with
            | nil =>
                rw [hdot] at hfirst
                cases hfirst
            | cons d others =>
                rw [List.mem_cons, not_or] at hslash
                exact ⟨d, others, rfl, Ne.symm hslash.2.1⟩
      cases rest with
      | nil => exact hlead
      | cons second more =>
          have hne : first.text.toList ≠ [] := by
            intro hnil
            rw [hnil] at hfirst
            cases hfirst
          rw [List.map_cons, List.map_cons, joinOn_cons_cons, lead_append_slash hne, hlead]

theorem joined_text (parts : List Component) :
    (joined '/' (parts.map Component.text)).toList
      = joinOn '/' (parts.map fun c => c.text.toList) := by
  rw [joined, String.toList_ofList, List.map_map]
  rfl

/-- The components that a path starts from: the root, or none. -/
def origin (rooted : Bool) : List Component :=
  if rooted then [.root] else []

theorem origin_false : origin false = [] :=
  rfl

theorem reverse_origin (rooted : Bool) : (origin rooted).reverse = origin rooted := by
  cases rooted <;> rfl

/-- How components are written: the steps between slashes, after the root. -/
theorem toList_ofComponents {parts : List Component} (rooted : Bool)
    (h : ∀ c ∈ parts, IsStep c) :
    (ofComponents (origin rooted ++ parts)).toList
      = (if rooted then ['/'] else []) ++ joinOn '/' (parts.map fun c => c.text.toList) := by
  cases rooted with
  | true =>
      have hslash : "/".toList = ['/'] := rfl
      show (ofComponents (.root :: parts)).toList = _
      rw [ofComponents, String.toList_append, joined_text, hslash]
      rfl
  | false =>
      show (ofComponents parts).toList = joinOn '/' _
      unfold ofComponents
      split
      · exact absurd rfl (h .root (List.mem_cons_self ..)).ne_root
      · exact joined_text parts

/-- Steps are read as they are written, after a root or without one. -/
theorem components_ofComponents {parts : List Component} (rooted : Bool)
    (h : ∀ c ∈ parts, IsStep c) :
    components (ofComponents (origin rooted ++ parts)) = origin rooted ++ parts := by
  rw [components_eq, toList_ofComponents rooted h]
  cases rooted with
  | true =>
      show [Component.root] ++ steps ('/' :: joinOn '/' (parts.map fun c => c.text.toList)) = _
      rw [steps_slash, steps_written h]
      rfl
  | false =>
      show (leadComponent? (joinOn '/' (parts.map fun c => c.text.toList))).toList ++
        steps (joinOn '/' (parts.map fun c => c.text.toList)) = parts
      rw [steps_written h, leadComponent?_eq_none (lead_written h)]
      rfl

-- ============================================================== cleaning

/-- Nothing is left to carry out in a list of components. -/
def Straight (cs : List Component) : Prop :=
  cs.foldl settle [] = cs.reverse

theorem length_settle_le (kept : List Component) (c : Component) :
    (settle kept c).length ≤ kept.length + 1 := by
  unfold settle
  split
  · omega
  · split
    · simp only [List.length_cons]
      omega
    · omega
    · simp
  · simp

theorem length_foldl_settle_le (cs kept : List Component) :
    (cs.foldl settle kept).length ≤ kept.length + cs.length := by
  induction cs generalizing kept with
  | nil => exact Nat.le_refl _
  | cons c rest ih =>
      have hc := length_settle_le kept c
      have hrest := ih (settle kept c)
      simp only [List.foldl_cons, List.length_cons]
      omega

theorem settle_name (kept : List Component) (text : String) :
    settle kept (.name text) = .name text :: kept :=
  rfl

/-- One more component keeps the kept ones straight. -/
theorem straight_settle {kept : List Component} (h : Straight kept.reverse) (c : Component) :
    Straight (settle kept c).reverse := by
  unfold Straight at h ⊢
  rw [List.reverse_reverse] at h ⊢
  have hnext (d : Component) : (d :: kept).reverse.foldl settle [] = settle kept d := by
    rw [List.reverse_cons, List.foldl_append, h]
    rfl
  cases c with
  | root => exact hnext .root
  | current => exact h
  | name text => exact hnext (.name text)
  | up =>
      cases kept with
      | nil => exact hnext .up
      | cons last earlier =>
          cases last with
          | root => exact h
          | current => exact hnext .up
          | up => exact hnext .up
          | name text =>
              rw [List.reverse_cons, List.foldl_append, List.foldl_cons, List.foldl_nil,
                settle_name] at h
              exact (List.cons_eq_cons.mp h).2

theorem straight_foldl_settle (cs : List Component) {kept : List Component}
    (h : Straight kept.reverse) : Straight (cs.foldl settle kept).reverse := by
  induction cs generalizing kept with
  | nil => exact h
  | cons c rest ih => exact ih (straight_settle h c)

theorem straight_nil : Straight [] :=
  rfl

theorem straight_settled (p : String) : Straight (settled p) :=
  straight_foldl_settle (components p) straight_nil

theorem Straight.settled_eq {p : String} (h : Straight (components p)) :
    settled p = components p := by
  rw [settled, h, List.reverse_reverse]

/-- Without its last component a straight list is straight. -/
theorem Straight.of_concat {cs : List Component} {c : Component} (h : Straight (cs ++ [c])) :
    Straight cs := by
  unfold Straight at h ⊢
  rw [List.foldl_append, List.foldl_cons, List.foldl_nil, List.reverse_append,
    List.reverse_singleton, List.singleton_append] at h
  have hlength := length_foldl_settle_le cs []
  generalize cs.foldl settle [] = kept at h hlength
  -- a `.` or a `..` that is carried out would leave too few components
  have hlast : kept ≠ c :: cs.reverse := by
    rintro rfl
    simp only [List.length_cons, List.length_reverse, List.length_nil] at hlength
    omega
  cases c with
  | root => exact (List.cons_eq_cons.mp h).2
  | name text => exact (List.cons_eq_cons.mp h).2
  | current => exact absurd h hlast
  | up =>
      cases kept with
      | nil => exact (List.cons_eq_cons.mp h).2
      | cons last earlier =>
          cases last with
          | root => exact absurd h hlast
          | current => exact (List.cons_eq_cons.mp h).2
          | up => exact (List.cons_eq_cons.mp h).2
          | name text =>
              have htail : earlier = .up :: cs.reverse := h
              rw [htail] at hlength
              simp only [List.length_cons, List.length_reverse, List.length_nil] at hlength
              omega

/-- The start of a straight list is straight. -/
theorem Straight.of_append {cs rest : List Component} (h : Straight (cs ++ rest)) :
    Straight cs := by
  induction rest generalizing cs with
  | nil =>
      rw [List.append_nil] at h
      exact h
  | cons c more ih =>
      rw [List.append_cons] at h
      exact (ih h).of_concat

theorem Straight.of_prefix {cs ds : List Component} (h : Straight ds) (hp : cs <+: ds) :
    Straight cs := by
  obtain ⟨rest, rfl⟩ := hp
  exact h.of_append

/-- Names lead straight on. -/
theorem Straight.append_names {cs names : List Component} (h : Straight cs)
    (hnames : ∀ c ∈ names, ∃ text, c = .name text) : Straight (cs ++ names) := by
  induction names generalizing cs with
  | nil =>
      rw [List.append_nil]
      exact h
  | cons c rest ih =>
      obtain ⟨text, rfl⟩ := hnames c (List.mem_cons_self ..)
      rw [List.append_cons]
      refine ih ?_ fun d hd => hnames d (List.mem_cons_of_mem _ hd)
      unfold Straight at h ⊢
      rw [List.foldl_append, h, List.reverse_append]
      rfl

-- ======================================================= cleaned paths

/-- A step is carried out above the start. -/
theorem settle_origin (rooted : Bool) {kept : List Component} {c : Component}
    (hkept : ∀ d ∈ kept, IsStep d) (hc : IsStep c) :
    ∃ kept', settle (kept ++ origin rooted) c = kept' ++ origin rooted ∧ ∀ d ∈ kept', IsStep d := by
  have hnext : ∀ d ∈ c :: kept, IsStep d := List.forall_mem_cons.mpr ⟨hc, hkept⟩
  cases c with
  | root => exact absurd rfl hc.ne_root
  | current => exact ⟨kept, rfl, hkept⟩
  | name text => exact ⟨_, rfl, hnext⟩
  | up =>
      cases kept with
      | nil =>
          cases rooted with
          | true => exact ⟨[], rfl, hkept⟩
          | false => exact ⟨[.up], rfl, hnext⟩
      | cons last earlier =>
          obtain ⟨hlast, hearlier⟩ := List.forall_mem_cons.mp hkept
          cases last with
          | root => exact absurd rfl hlast.ne_root
          | current => exact ⟨_, rfl, hnext⟩
          | up => exact ⟨_, rfl, hnext⟩
          | name text => exact ⟨earlier, rfl, hearlier⟩

theorem foldl_settle_origin (rooted : Bool) {kept parts : List Component}
    (hkept : ∀ d ∈ kept, IsStep d) (h : ∀ c ∈ parts, IsStep c) :
    ∃ kept', parts.foldl settle (kept ++ origin rooted) = kept' ++ origin rooted ∧
      ∀ d ∈ kept', IsStep d := by
  induction parts generalizing kept with
  | nil => exact ⟨kept, rfl, hkept⟩
  | cons c rest ih =>
      obtain ⟨hc, hrest⟩ := List.forall_mem_cons.mp h
      obtain ⟨kept', hone, hsteps⟩ := settle_origin rooted hkept hc
      rw [List.foldl_cons, hone]
      exact ih hsteps hrest

/-- The steps of a path are carried out from where it starts. -/
theorem settled_eq_foldl (p : String) :
    settled p = ((steps p.toList).foldl settle (origin (isAbsolute p))).reverse := by
  have hstart : (leadComponent? p.toList).toList.foldl settle [] = origin (isAbsolute p) := by
    cases habs : isAbsolute p with
    | true =>
        rw [leadComponent?, isAbsolute_iff.mp habs]
        rfl
    | false =>
        have hroot : lead p.toList ≠ ['/'] := fun h => by
          rw [isAbsolute_iff.mpr h] at habs
          cases habs
        rw [leadComponent?]
        rcases lead_cases p.toList with h | h | h
        · exact absurd h hroot
        · rw [h]
          rfl
        · rw [h]
          rfl
  rw [settled, components_eq, List.foldl_append, hstart]

/-- A cleaned path has steps after its start. -/
theorem settled_eq (p : String) :
    ∃ parts, settled p = origin (isAbsolute p) ++ parts ∧ ∀ c ∈ parts, IsStep c := by
  have hsteps : ∀ c ∈ steps p.toList, IsStep c := fun c hc => isStep_of_mem_steps hc
  obtain ⟨kept, hkept, hparts⟩ :=
    foldl_settle_origin (isAbsolute p) (List.forall_mem_nil IsStep) hsteps
  refine ⟨kept.reverse, ?_, fun c hc => hparts c (List.mem_reverse.mp hc)⟩
  rw [List.nil_append] at hkept
  rw [settled_eq_foldl, hkept, List.reverse_append, reverse_origin]

/-- A cleaned path has the components that are kept. -/
theorem components_clean (p : String) : components (clean p) = settled p := by
  obtain ⟨parts, hp, hparts⟩ := settled_eq p
  rw [clean, hp]
  exact components_ofComponents (isAbsolute p) hparts

theorem straight_clean (p : String) : Straight (components (clean p)) := by
  rw [components_clean]
  exact straight_settled p

theorem clean_clean (p : String) : clean (clean p) = clean p := by
  rw [clean, (straight_clean p).settled_eq, components_clean, clean]

/-- Straight paths that are cleaned alike have the same components. -/
theorem Straight.components_eq_of_clean_eq {p q : String} (hp : Straight (components p))
    (hq : Straight (components q)) (h : clean p = clean q) : components p = components q := by
  rw [← hp.settled_eq, ← hq.settled_eq, ← components_clean, ← components_clean, h]

theorem same_iff {p q : String} : same p q = true ↔ components p = components q :=
  beq_iff_eq

-- =============================================================== parents

theorem filterMap_takeWhile_isVoid (segments : List (List Char)) :
    (segments.takeWhile isVoid).filterMap Component.ofSegment? = [] := by
  rw [List.filterMap_eq_nil_iff]
  intro s hs
  exact Option.isNone_iff_eq_none.mp (List.all_eq_true.mp List.all_takeWhile s hs)

/-- Where all segments are void there is no component. -/
theorem filterMap_of_dropWhile_eq_nil {segments : List (List Char)}
    (h : segments.reverse.dropWhile isVoid = []) :
    segments.filterMap Component.ofSegment? = [] := by
  have hall := filterMap_takeWhile_isVoid segments.reverse
  have hsplit := List.takeWhile_append_dropWhile (p := isVoid) (l := segments.reverse)
  rw [h, List.append_nil] at hsplit
  rw [hsplit, List.filterMap_reverse, List.reverse_eq_nil_iff] at hall
  exact hall

/-- The last segment that says something, and those before it that the parent
is written with. -/
theorem exists_parent {segments : List (List Char)} {last : List Char}
    {before : List (List Char)} (h : segments.reverse.dropWhile isVoid = last :: before) :
    ∃ rest, segments = (before.dropWhile isVoid).reverse ++ rest ∧ rest ≠ [] ∧
      ∃ c, Component.ofSegment? last = some c ∧ rest.filterMap Component.ofSegment? = [c] := by
  have hlast : isVoid last = false := by
    have hhead := List.head_dropWhile_not isVoid (l := segments.reverse) (by rw [h]; simp)
    simpa only [h, List.head_cons] using hhead
  have hsplit : segments = (before.dropWhile isVoid).reverse ++
      ((before.takeWhile isVoid).reverse ++
        last :: (segments.reverse.takeWhile isVoid).reverse) := by
    have hall := List.takeWhile_append_dropWhile (p := isVoid) (l := segments.reverse)
    rw [h, ← List.takeWhile_append_dropWhile (p := isVoid) (l := before)] at hall
    have hrev := congrArg List.reverse hall
    rw [List.reverse_reverse] at hrev
    refine hrev.symm.trans ?_
    rw [List.reverse_append, List.reverse_cons, List.reverse_append, List.append_assoc,
      List.append_assoc, List.singleton_append]
  refine ⟨_, hsplit, by simp, ?_⟩
  cases hc : Component.ofSegment? last with
  | none =>
      rw [isVoid, hc] at hlast
      cases hlast
  | some c =>
      refine ⟨c, rfl, ?_⟩
      rw [List.filterMap_append, List.filterMap_reverse, filterMap_takeWhile_isVoid,
        List.filterMap_cons_some hc, List.filterMap_reverse, filterMap_takeWhile_isVoid]
      rfl

/-- A path that is cut before a slash starts as before. -/
theorem lead_cut {cs : List Char} {kept rest : List (List Char)}
    (h : body cs = kept ++ rest) (hrest : rest ≠ []) :
    lead (lead cs ++ joinOn '/' kept) = lead cs := by
  have hcs : cs = lead cs ++ joinOn '/' (kept ++ rest) := by
    rw [← h, body, joinOn_splitOn, lead_append_drop]
  by_cases hkept : kept = []
  · rw [hkept, joinOn, List.append_nil, lead_lead]
  · rw [joinOn_append hkept hrest, ← List.append_assoc] at hcs
    have hne : lead cs ++ joinOn '/' kept ≠ [] := by
      intro hnil
      rw [hnil] at hcs
      obtain ⟨hlead, -⟩ := List.append_eq_nil_iff.mp hnil
      rw [List.nil_append] at hcs
      rw [hcs] at hlead
      cases hlead
    exact (lead_append_slash hne _).symm.trans (congrArg lead hcs.symm)

/-- The last component of a path that has a parent is a `..` or a name, unless
the path is a single `.`. -/
theorem exists_last_of_parent? {p d : String} (h : parent? p = some d) :
    ∃ c, components p = components d ++ [c] ∧
      ((∃ segment, Component.ofSegment? segment = some c) ∨ c = .current ∧ d = "") := by
  unfold parent? at h
  simp only at h
  split at h
  · next last before hb =>
    obtain rfl := Option.some.inj h
    obtain ⟨rest, hsplit, hrest, c, hlast, hc⟩ := exists_parent hb
    refine ⟨c, Eq.symm ?_, Or.inl ⟨last, hlast⟩⟩
    have hlead := lead_cut hsplit hrest
    have hsteps : steps (joinOn '/' (before.dropWhile isVoid).reverse)
        = (before.dropWhile isVoid).reverse.filterMap Component.ofSegment? := by
      refine steps_joinOn fun s hs => ?_
      have hmem : s ∈ body p.toList := by
        rw [hsplit]
        exact List.mem_append_left rest hs
      exact not_mem_of_mem_splitOn hmem
    rw [components, components, String.toList_ofList, leadComponent?, body, hlead,
      List.drop_left, ← leadComponent?, ← steps, hsteps, hsplit, List.filterMap_append, hc,
      ← List.append_assoc]
  · next hb =>
    split at h
    · next hlead =>
      obtain rfl := Option.some.inj h
      refine ⟨.current, ?_, Or.inr ⟨rfl, rfl⟩⟩
      rw [components, components, filterMap_of_dropWhile_eq_nil hb, leadComponent?,
        leadComponent?, hlead]
      rfl
    · cases h

/-- The parent of a path has all its components but the last. -/
theorem components_parent? {p d : String} (h : parent? p = some d) :
    components d = (components p).dropLast := by
  obtain ⟨c, hc, -⟩ := exists_last_of_parent? h
  rw [hc, List.dropLast_concat]

/-- A path without a parent is the root or empty. -/
theorem components_of_parent?_eq_none {p : String} (h : parent? p = none) :
    components p = origin (isAbsolute p) := by
  unfold parent? at h
  simp only at h
  split at h
  · cases h
  · next hb =>
    split at h
    · cases h
    · next hlead =>
      rw [components, filterMap_of_dropWhile_eq_nil hb, List.append_nil, leadComponent?]
      cases habs : isAbsolute p with
      | true =>
          rw [isAbsolute_iff.mp habs]
          rfl
      | false =>
          rcases lead_cases p.toList with hl | hl | hl
          · rw [isAbsolute_iff.mpr hl] at habs
            cases habs
          · exact absurd hl hlead
          · rw [hl]
            rfl

/-- A path that ends in anything but the root has a parent. -/
theorem exists_parent?_of_concat {p : String} {before : List Component} {c : Component}
    (h : components p = before ++ [c]) (hc : c ≠ .root) :
    ∃ d, parent? p = some d ∧ components d = before := by
  cases hd : parent? p with
  | none =>
      have hnone := h.symm.trans (components_of_parent?_eq_none hd)
      have hlast := congrArg List.getLast? hnone
      rw [List.getLast?_concat, origin] at hlast
      split at hlast
      · exact absurd (Option.some.inj hlast) hc
      · cases hlast
  | some d => exact ⟨d, rfl, by rw [components_parent? hd, h, List.dropLast_concat]⟩

/-- The directories around a path are written with its first components. -/
theorem prefix_of_mem_ancestors {p d : String} (h : d ∈ ancestors p) :
    components d <+: components p := by
  induction p using ancestors.induct with
  | case1 p parent hparent ih =>
      unfold ancestors at h
      split at h
      · next d' hd' =>
        obtain rfl := Option.some.inj (hparent.symm.trans hd')
        rcases List.mem_cons.mp h with rfl | h
        · exact List.prefix_refl _
        · refine (ih h).trans ?_
          rw [components_parent? hparent]
          exact List.dropLast_prefix _
      · next hnone =>
        rw [hparent] at hnone
        cases hnone
  | case2 p hnone =>
      unfold ancestors at h
      split at h
      · next d' hd' =>
        rw [hnone] at hd'
        cases hd'
      · obtain rfl := List.mem_singleton.mp h
        exact List.prefix_refl _

theorem ancestors_eq_cons (p : String) : ∃ rest, ancestors p = p :: rest := by
  unfold ancestors
  split
  · exact ⟨_, rfl⟩
  · exact ⟨[], rfl⟩

-- =============================================================== endings

/-- An ending that is no segment of dots makes every segment a name. -/
theorem ofSegment?_append_ending (segment : List Char) {ending : List Char}
    (hlong : 3 ≤ ending.length) :
    ∃ text, Component.ofSegment? (segment ++ ending) = some (.name text) := by
  have hlength : 3 ≤ (segment ++ ending).length := by
    rw [List.length_append]
    omega
  unfold Component.ofSegment?
  generalize segment ++ ending = cs at hlength
  rw [if_neg, if_neg]
  · exact ⟨_, rfl⟩
  · rintro rfl
    simp at hlength
  · rintro (rfl | rfl)
    · simp at hlength
    · simp at hlength

/-- An ending changes how a path starts only where the path is a single `.`. -/
theorem lead_append_ending (cs : List Char) {ending : List Char} (hslash : '/' ∉ ending)
    (hlong : 3 ≤ ending.length) :
    lead (cs ++ ending) = lead cs ∨ cs = ['.'] ∧ lead (cs ++ ending) = [] := by
  obtain ⟨e, f, more, rfl⟩ : ∃ e f more, ending = e :: f :: more := by
    match ending, hlong with
    | e :: f :: more, _ => exact ⟨e, f, more, rfl⟩
  rw [List.mem_cons, List.mem_cons, not_or, not_or] at hslash
  obtain ⟨he, hf, -⟩ := hslash
  match cs with
  | [] => exact Or.inl (lead_eq_nil (Ne.symm he) fun _ => ⟨f, more, rfl, Ne.symm hf⟩)
  | [c] =>
      by_cases hc : c = '/'
      · rw [hc]
        exact Or.inl rfl
      · have hboth : lead ([c] ++ e :: f :: more) = [] :=
          lead_eq_nil hc fun _ => ⟨e, f :: more, rfl, Ne.symm he⟩
        by_cases hdot : c = '.'
        · rw [hdot] at hboth ⊢
          exact Or.inr ⟨rfl, hboth⟩
        · rw [hboth, lead_eq_nil hc fun h => absurd h hdot]
          exact Or.inl rfl
  | c :: d :: rest => exact Or.inl (lead_append c d rest (e :: f :: more))

/-- With an ending that has no slash and is no segment of dots, a path ends in a
name, and what comes before is unchanged. -/
theorem components_append_ending {ending : String} (p : String) (hslash : '/' ∉ ending.toList)
    (hlong : 3 ≤ ending.toList.length) :
    ∃ before text, components (p ++ ending) = before ++ [.name text] ∧
      before <+: components p := by
  obtain ⟨before, last, hp, hboth⟩ := splitOn_append_of_not_mem (a := p.toList) hslash
  obtain ⟨text, hname⟩ := ofSegment?_append_ending last hlong
  have hsteps : steps (p.toList ++ ending.toList)
      = before.filterMap Component.ofSegment? ++ [.name text] := by
    rw [steps, hboth, List.filterMap_append, List.filterMap_cons_some hname]
    rfl
  rw [components_eq, components_eq, String.toList_append, hsteps, ← List.append_assoc]
  refine ⟨_, text, rfl, ?_⟩
  rcases lead_append_ending p.toList hslash hlong with h | ⟨hdot, h⟩
  · rw [leadComponent?, leadComponent?, h, steps, hp, List.filterMap_append, ← List.append_assoc]
    exact List.prefix_append ..
  · have hbefore : before = [] := by
      have hlength := congrArg List.length hp
      rw [hdot] at hlength
      simpa [splitOn] using hlength
    rw [leadComponent?_eq_none h, hbefore]
    exact List.nil_prefix

/-- A path that ends in a name is named by it. -/
theorem fileName?_of_name {p : String} {before : List Component} {text : String}
    (h : components p = before ++ [.name text]) : fileName? p = some text := by
  rw [fileName?, h, List.getLast?_concat]

-- =========================================================== plain paths

/-- A path that consists of names. -/
def Plain (p : String) : Prop :=
  ∀ c ∈ components p, ∃ text, c = .name text

variable {p base rest : String}

/-- A path that is a single name is plain. -/
theorem plain_of_name {text : String} (h : components p = [.name text]) : Plain p := by
  intro c hc
  rw [h] at hc
  exact ⟨text, List.mem_singleton.mp hc⟩

theorem Plain.leadComponent?_eq_none (h : Plain p) : leadComponent? p.toList = none := by
  cases hlead : leadComponent? p.toList with
  | none => rfl
  | some c =>
      have hc : c ∈ components p := by
        rw [components_eq, hlead]
        exact List.mem_cons_self ..
      obtain ⟨text, rfl⟩ := h c hc
      unfold leadComponent? at hlead
      split at hlead <;> cases hlead

/-- What is plain goes down from where it is. -/
theorem Plain.isAbsolute_eq (h : Plain p) : isAbsolute p = false := by
  refine Bool.eq_false_iff.mpr fun habs => ?_
  have hlead := h.leadComponent?_eq_none
  rw [leadComponent?, isAbsolute_iff.mp habs] at hlead
  cases hlead

theorem Plain.steps_eq (h : Plain p) : steps p.toList = components p := by
  rw [components_eq, h.leadComponent?_eq_none]
  rfl

/-- Names lead straight on from a straight path. -/
theorem Straight.join (hbase : Straight (components base)) (hrest : Plain rest) :
    Straight (components (join base rest)) := by
  by_cases hempty : base = ""
  · rw [hempty, join_empty]
    exact straight_nil.append_names hrest
  · rw [components_join hempty hrest.isAbsolute_eq, hrest.steps_eq]
    exact hbase.append_names hrest

/-- An ending leaves a straight path straight. -/
theorem Straight.append_ending {ending : String} (h : Straight (components p))
    (hslash : '/' ∉ ending.toList) (hlong : 3 ≤ ending.toList.length) :
    Straight (components (p ++ ending)) := by
  obtain ⟨before, text, hp, hbefore⟩ := components_append_ending p hslash hlong
  rw [hp]
  refine (h.of_prefix hbefore).append_names fun c hc => ?_
  exact ⟨text, List.mem_singleton.mp hc⟩

-- =========================================================== differences

/-- A path seen from a directory is brought to normal form. -/
theorem isNormal_relativeTo? {base path p : String}
    (h : relativeTo? base path = some p) : WorkspacePath.IsNormal p := by
  unfold relativeTo? at h
  by_cases hroots : isAbsolute path = isAbsolute base
  · rw [if_pos hroots] at h
    obtain ⟨steps, -, rfl⟩ := Option.map_eq_some_iff.mp h
    exact WorkspacePath.isNormal_normalize _
  · rw [if_neg hroots] at h
    cases hpath : isAbsolute path with
    | true =>
        rw [hpath, if_pos rfl] at h
        rw [← Option.some.inj h]
        exact WorkspacePath.isNormal_normalize _
    | false =>
        rw [hpath, if_neg Bool.false_ne_true] at h
        cases h

end ImportResolution.FilePath
