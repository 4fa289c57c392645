/-
Parents of cleaned paths. To take the parent drops the last component, and to
clean a path may take back components at its end, so the two can be exchanged
only where the last component is still there when the path is clean. It is
there unless the path ends in a `..` that is carried out (`EndsBack`), and for
all other paths the parent of the cleaned path is the cleaned parent, letter by
letter (`clean_parent_iff`).
-/
import ImportResolution.Proofs.FilePath

namespace ImportResolution.FilePath

open Text

-- ====================================================== written parents

theorem lead_ofComponents {parts : List Component} (rooted : Bool) (h : ∀ c ∈ parts, IsStep c) :
    lead (ofComponents (origin rooted ++ parts)).toList = if rooted then ['/'] else [] := by
  rw [toList_ofComponents rooted h]
  cases rooted with
  | true => rfl
  | false => exact lead_written h

theorem body_ofComponents {parts : List Component} (rooted : Bool) (h : ∀ c ∈ parts, IsStep c)
    (hne : parts ≠ []) :
    body (ofComponents (origin rooted ++ parts)).toList
      = parts.map fun c => c.text.toList := by
  rw [body, lead_ofComponents rooted h, toList_ofComponents rooted h, List.drop_left]
  refine splitOn_joinOn (fun hnil => hne (List.map_eq_nil_iff.mp hnil)) fun segment hs => ?_
  obtain ⟨c, hc, rfl⟩ := List.mem_map.mp hs
  exact (h c hc).2

theorem IsStep.isVoid_text {c : Component} (h : IsStep c) : isVoid c.text.toList = false := by
  rw [isVoid, h.1]
  rfl

theorem dropWhile_isVoid_written {parts : List Component} (h : ∀ c ∈ parts, IsStep c) :
    (parts.map fun c => c.text.toList).dropWhile isVoid
      = parts.map fun c => c.text.toList := by
  cases parts with
  | nil => rfl
  | cons first rest =>
      have hfirst := (h first (List.mem_cons_self ..)).isVoid_text
      rw [List.map_cons, List.dropWhile_cons_of_neg (by rw [hfirst]; exact Bool.false_ne_true)]

/-- The parent of a path that is written step by step is written without the last
step. -/
theorem parent?_ofComponents {parts : List Component} {c : Component} (rooted : Bool)
    (h : ∀ d ∈ parts, IsStep d) (hc : IsStep c) :
    parent? (ofComponents (origin rooted ++ (parts ++ [c])))
      = some (ofComponents (origin rooted ++ parts)) := by
  have hall : ∀ d ∈ parts ++ [c], IsStep d := by
    intro d hd
    rcases List.mem_append.mp hd with hd | hd
    · exact h d hd
    · rw [List.mem_singleton.mp hd]
      exact hc
  have hrev : ∀ d ∈ parts.reverse, IsStep d := fun d hd => h d (List.mem_reverse.mp hd)
  have hlast : ((parts ++ [c]).map fun c => c.text.toList).reverse
      = c.text.toList :: parts.reverse.map fun c => c.text.toList := by
    rw [← List.map_reverse, List.reverse_append, List.reverse_singleton, List.singleton_append,
      List.map_cons]
  -- the last segment is the one that is dropped, for none of them is void
  unfold parent?
  simp only [lead_ofComponents rooted hall, body_ofComponents rooted hall (by simp), hlast]
  rw [List.dropWhile_cons_of_neg (by rw [hc.isVoid_text]; exact Bool.false_ne_true)]
  simp only [dropWhile_isVoid_written hrev]
  rw [← List.map_reverse, List.reverse_reverse, ← toList_ofComponents rooted h,
    String.ofList_toList]

-- ========================================================= taken back

/-- The path ends in a `..` that is carried out when it is cleaned: it takes back
a name, or it stays at the root. -/
def EndsBack (p : String) : Prop :=
  ∃ before, components p = before ++ [.up] ∧
    settle (before.foldl settle []) .up ≠ .up :: before.foldl settle []

theorem settled_concat {p : String} {before : List Component} {c : Component}
    (h : components p = before ++ [c]) :
    settled p = (settle (before.foldl settle []) c).reverse := by
  rw [settled, h, List.foldl_append]
  rfl

/-- Where the last component stays, the parent can be taken before or after
cleaning. -/
theorem parent?_clean_of_stays {p d : String} {c : Component}
    (hp : settled p = settled d ++ [c]) (hc : c ≠ .root) : parent? (clean p) = some (clean d) := by
  obtain ⟨parts, hd, hparts⟩ := settled_eq d
  have hstep : IsStep c := by
    obtain ⟨all, hall, hsteps⟩ := settled_eq p
    have hmem : c ∈ origin (isAbsolute p) ++ all := by
      rw [← hall, hp]
      exact List.mem_append_right _ (List.mem_singleton_self c)
    rcases List.mem_append.mp hmem with horigin | hmem
    · unfold origin at horigin
      split at horigin
      · exact absurd (List.mem_singleton.mp horigin) hc
      · cases horigin
    · exact hsteps c hmem
  rw [clean, clean, hp, hd, List.append_assoc]
  exact parent?_ofComponents (isAbsolute d) hparts hstep

theorem length_components_parent_le (p : String) :
    (components ((parent? p).getD "")).length ≤ (components p).length - 1 := by
  cases hd : parent? p with
  | none => exact Nat.zero_le _
  | some d =>
      have hlength : (components d).length = (components p).length - 1 := by
        rw [components_parent? hd, List.length_dropLast]
      exact Nat.le_of_eq hlength

theorem length_settle_up {kept : List Component} (h : settle kept .up ≠ .up :: kept) :
    0 < kept.length ∧ (settle kept .up).length ≤ kept.length := by
  cases kept with
  | nil => exact absurd rfl h
  | cons last earlier =>
      refine ⟨Nat.zero_lt_succ _, ?_⟩
      cases last with
      | root => exact Nat.le_refl _
      | current => exact absurd rfl h
      | up => exact absurd rfl h
      | name text => exact Nat.le_succ _

/-- A path that goes back at its end is, when it is clean, too short for its
parent to be that of the spelled path. -/
theorem EndsBack.clean_ne {p d : String} (h : EndsBack p) (hd : parent? p = some d) :
    clean d ≠ (parent? (clean p)).getD "" := by
  obtain ⟨before, hbefore, hback⟩ := h
  have hcomponents : components d = before := by
    rw [components_parent? hd, hbefore, List.dropLast_concat]
  obtain ⟨hpos, hle⟩ := length_settle_up hback
  have hd' : (components (clean d)).length = (before.foldl settle []).length := by
    rw [components_clean, settled, hcomponents, List.length_reverse]
  have hp' : (components (clean p)).length = (settle (before.foldl settle []) .up).length := by
    rw [components_clean, settled_concat hbefore, List.length_reverse]
  have hparent := length_components_parent_le (clean p)
  intro heq
  rw [← heq] at hparent
  omega

theorem not_endsBack_of_parent?_eq_none {p : String} (h : parent? p = none) : ¬ EndsBack p := by
  rintro ⟨before, hbefore, -⟩
  obtain ⟨d, hd, -⟩ := exists_parent?_of_concat hbefore nofun
  rw [h] at hd
  cases hd

/-- What cleaning makes of a path without a parent has no parent either. -/
theorem parent?_clean_of_parent?_eq_none {p : String} (h : parent? p = none) :
    parent? (clean p) = none := by
  have hsettled : settled p = origin (isAbsolute p) := by
    rw [settled, components_of_parent?_eq_none h]
    cases isAbsolute p with
    | true => rfl
    | false => rfl
  rw [clean, hsettled]
  cases isAbsolute p with
  | true => decide
  | false => decide

/-- A name stays at the end when the path is clean, and so does a `..` that is not
carried out. -/
theorem settled_of_not_endsBack {p : String} {before : List Component} {segment : List Char}
    {c : Component} (h : ¬ EndsBack p) (hp : components p = before ++ [c])
    (hc : Component.ofSegment? segment = some c) :
    settled p = (before.foldl settle []).reverse ++ [c] ∧ c ≠ .root := by
  have hstays : settle (before.foldl settle []) c = c :: before.foldl settle [] ∧ c ≠ .root := by
    unfold Component.ofSegment? at hc
    split at hc
    · cases hc
    · split at hc
      · obtain rfl := Option.some.inj hc
        exact ⟨Classical.byContradiction fun hne => h ⟨before, hp, hne⟩, nofun⟩
      · obtain rfl := Option.some.inj hc
        exact ⟨rfl, nofun⟩
  rw [settled_concat hp, hstays.1, List.reverse_cons]
  exact ⟨rfl, hstays.2⟩

/-- Cleaning a path and taking its parent can be exchanged exactly if the path
does not end in a `..` that is carried out. -/
theorem clean_parent_iff (p : String) :
    clean ((parent? p).getD "") = (parent? (clean p)).getD "" ↔ ¬ EndsBack p := by
  cases hd : parent? p with
  | none =>
      rw [parent?_clean_of_parent?_eq_none hd, Option.getD_none]
      exact iff_of_true (by decide) (not_endsBack_of_parent?_eq_none hd)
  | some d =>
      rw [Option.getD_some]
      refine ⟨fun heq hback => hback.clean_ne hd heq, fun hback => ?_⟩
      obtain ⟨c, hc, hlast⟩ := exists_last_of_parent? hd
      rcases hlast with ⟨segment, hsegment⟩ | ⟨rfl, rfl⟩
      · obtain ⟨hsettled, hroot⟩ := settled_of_not_endsBack hback hc hsegment
        rw [parent?_clean_of_stays hsettled hroot, Option.getD_some]
      · -- the path is a `.`
        have hempty : clean p = "" := by
          rw [clean, settled_concat hc]
          rfl
        rw [hempty]
        decide

end ImportResolution.FilePath
