/-
The search for the project of a path, as it runs: from the path outwards, one directory
after the other, until one is a root or the root of the workspace has been asked. Nothing
bounds the number of its steps (`Search`), so that it ends is a matter of what taking the
directory does.

# Where the search is safe

Taking the directory takes the last segment off a normal form below no root
(`Walked.iterate_directory`), whatever the segment is. After all of them it is at `.`, so the
search ends (`exists_search`), and no bound above the number of segments is ever reached
(`Search.findSome?_outwards`). The segment that is taken off is a name only as long as the
path does not climb out of the workspace: there, and only there, the directory leads one
directory up (`IsNormal.follows_up_iff`). An absolute path never comes to `.` at all.
-/
import ImportResolution.Proofs.ProjectRoots.Nearest
import ImportResolution.Proofs.WorkspacePath.Locations
import Mathlib.Logic.Function.Iterate

namespace ImportResolution

open WorkspacePath

namespace WorkspacePath

variable {p q : String} {parts : List String}

-- ======================================== one directory after the other

/-- Every step takes one segment off, and nothing is left of `.`. -/
theorem Walked.iterate_directory (h : Walked false parts) (k : Nat) :
    directory^[k] (written false parts) = written false (parts.take (parts.length - k)) := by
  induction k with
  | zero => rw [Nat.sub_zero, List.take_length, Function.iterate_zero_apply]
  | succ k ih =>
      rw [Function.iterate_succ_apply', ih]
      rcases Nat.eq_zero_or_pos (parts.length - k) with hnone | hsome
      · have hnone' : parts.length - (k + 1) = 0 := by omega
        rw [hnone, hnone', List.take_zero]
        decide
      · obtain ⟨m, hm⟩ := Nat.exists_eq_succ_of_ne_zero hsome.ne'
        have hm' : parts.length - (k + 1) = m := by omega
        have hlt : m < parts.length := by omega
        have htake := h.take (m + 1)
        rw [List.take_succ_eq_append_getElem hlt] at htake
        rw [hm, hm', Nat.succ_eq_add_one, List.take_succ_eq_append_getElem hlt,
          htake.directory_written]

/-- A normal form below no root is written with the segments of one. -/
theorem IsNormal.unrooted (hp : IsNormal p) (hr : isRooted p = false) :
    Walked false (walked p) ∧ written false (walked p) = p := by
  rw [← hr]
  exact ⟨walked_walked p, hp⟩

theorem IsNormal.iterate_directory (hp : IsNormal p) (hr : isRooted p = false) (k : Nat) :
    directory^[k] p = written false ((walked p).take ((walked p).length - k)) := by
  obtain ⟨hw, hwritten⟩ := hp.unrooted hr
  have h := hw.iterate_directory k
  rw [hwritten] at h
  exact h

/-- As long as segments are left, they are what is written. -/
theorem IsNormal.iterate_directory_eq (hp : IsNormal p) (hr : isRooted p = false) (k : Nat) :
    directory^[k] p = if k < (walked p).length
      then Text.joined '/' ((walked p).take ((walked p).length - k)) else "." := by
  rw [hp.iterate_directory hr]
  by_cases hk : k < (walked p).length
  · have hleft : (walked p).take ((walked p).length - k) ≠ [] := by
      rw [← List.length_pos_iff, List.length_take]
      omega
    rw [if_pos hk, written_of_ne_nil hleft]
  · rw [if_neg hk, Nat.sub_eq_zero_of_le (Nat.le_of_not_lt hk), List.take_zero]
    rfl

/-- The root of the workspace is reached after as many steps as there are segments, and never
left again. -/
theorem IsNormal.iterate_directory_eq_root (hp : IsNormal p) (hr : isRooted p = false) {k : Nat}
    (hk : (walked p).length ≤ k) : directory^[k] p = "." := by
  rw [hp.iterate_directory hr, Nat.sub_eq_zero_of_le hk, List.take_zero]
  rfl

theorem IsNormal.length_walked_iterate (hp : IsNormal p) (hr : isRooted p = false) (k : Nat) :
    (walked (directory^[k] p)).length = (walked p).length - k := by
  rw [hp.iterate_directory hr, length_walked_take hr (Nat.sub_le _ _)]

/-- What encloses a path is met after the step that leaves as many segments, and at no other. -/
theorem IsNormal.encloses_iff_iterate (hp : IsNormal p) (hr : isRooted p = false) :
    IsNormal q ∧ Encloses q p ↔ ∃! k, k ≤ (walked p).length ∧ directory^[k] p = q := by
  constructor
  · rintro ⟨hq, henc⟩
    have hle := henc.2.length_le
    refine ⟨(walked p).length - (walked q).length, ⟨Nat.sub_le _ _, ?_⟩, fun k hk => ?_⟩
    · show directory^[(walked p).length - (walked q).length] p = q
      rw [hp.iterate_directory hr, Nat.sub_sub_self hle]
      exact (henc.eq_written hr hq).symm
    · have hlength := hp.length_walked_iterate hr k
      rw [hk.2] at hlength
      omega
  · rintro ⟨k, ⟨-, rfl⟩, -⟩
    rw [hp.iterate_directory hr]
    exact ⟨((hp.unrooted hr).1.take _).isNormal_written, encloses_take hr _⟩

-- ============================================================= locations

/-- A normal form climbs out of the workspace if its location does. -/
theorem IsNormal.escapes_iff_climbs {climbs : Nat} {names : List String} (hp : IsNormal p)
    (hl : location p = .relative climbs names) : escapes p = true ↔ climbs ≠ 0 := by
  have hr : isRooted p = false := by
    rw [← isAbsolute_location, hl]
    rfl
  by_cases hroot : p = "."
  · subst hroot
    have hzero : location "." = .relative 0 [] := by decide
    rw [hzero] at hl
    cases hl
    decide
  · have hproper := proper_location p
    rw [hl] at hproper
    rw [hp.escapes_iff hr, hp.segments_eq_walked hr hroot, walked_eq, hl, List.head?_reverse]
    show (names ++ List.replicate climbs "..").getLast? = some ".." ↔ climbs ≠ 0
    cases climbs with
    | zero =>
        rw [List.replicate_zero, List.append_nil]
        exact iff_of_false (fun hlast => (hproper _ (List.mem_of_getLast? hlast)).2 rfl)
          (fun h => h rfl)
    | succ climbs =>
        rw [List.replicate_succ', ← List.append_assoc, List.getLast?_concat]
        exact iff_of_true rfl (Nat.succ_ne_zero climbs)

theorem Location.iterate_up (climbs : Nat) {names : List String} {k : Nat}
    (hk : k ≤ names.length) : up^[k] (.relative climbs names) = .relative climbs (names.drop k) := by
  induction k with
  | zero => rfl
  | succ k ih =>
      rw [Function.iterate_succ_apply', ih (Nat.le_of_succ_le hk),
        ← List.getElem_cons_drop (Nat.lt_of_succ_le hk)]
      rfl

/-- The names are left one after the other, and then the climbs are taken back. -/
theorem IsNormal.location_iterate {climbs : Nat} {names : List String} (hp : IsNormal p)
    (hl : location p = .relative climbs names) (k : Nat) :
    location (directory^[k] p) = .relative (climbs - (k - names.length)) (names.drop k) := by
  have hr : isRooted p = false := by
    rw [← isAbsolute_location, hl]
    rfl
  have hproper := proper_location p
  rw [hl] at hproper
  have htext : directory^[k] p
      = (Location.relative (climbs - (k - names.length)) (names.drop k)).text := by
    have hdrop : (Location.relative climbs names).kept.drop k
        = (Location.relative (climbs - (k - names.length)) (names.drop k)).kept := by
      show (names ++ List.replicate climbs "..").drop k = names.drop k ++ List.replicate _ ".."
      rw [List.drop_append, List.drop_replicate]
    rw [hp.iterate_directory hr, walked_eq, hl, List.length_reverse, ← List.reverse_drop, hdrop]
    rfl
  rw [htext]
  exact Location.Proper.location_text fun name hn => hproper name (List.mem_of_mem_drop hn)

/-- Every step leads up by one directory exactly if the path stays in the workspace: behind the
names the steps take back what the path climbs, where going up would climb further. -/
theorem IsNormal.follows_up_iff (hp : IsNormal p) (hr : isRooted p = false) :
    (∀ k ≤ (walked p).length, location (directory^[k] p) = Location.up^[k] (location p))
      ↔ escapes p = false := by
  obtain ⟨climbs, names, hl⟩ := exists_location hr
  have hlength : (walked p).length = names.length + climbs := by
    rw [walked_eq, hl, List.length_reverse]
    show (names ++ List.replicate climbs "..").length = _
    rw [List.length_append, List.length_replicate]
  rw [← Bool.not_eq_true, hp.escapes_iff_climbs hl, not_not, hlength]
  constructor
  · intro hup
    by_contra hclimbs
    have hsteps := hup (names.length + 1) (by omega)
    rw [hp.location_iterate hl, hl, Function.iterate_succ_apply',
      Location.iterate_up climbs (Nat.le_refl _), List.drop_length] at hsteps
    have hcount : climbs - (names.length + 1 - names.length) = climbs + 1 :=
      (Location.relative.inj hsteps).1
    omega
  · rintro rfl k hk
    rw [hp.location_iterate hl, hl, Location.iterate_up 0 hk, Nat.zero_sub]

/-- The directory of an absolute path is absolute. -/
theorem isRooted_directory (h : isRooted p = true) : isRooted (directory p) = true := by
  have htext : (normalize p).toList = '/' :: (Text.joined '/' (walked p)).toList := by
    rw [normalize, h]
    exact String.toList_append
  have hdrop : ∃ others, (normalize p).toList.reverse.dropWhile (· ≠ '/') = others ++ ['/'] := by
    rw [htext, List.reverse_cons, List.dropWhile_append]
    split
    · exact ⟨[], rfl⟩
    · exact ⟨_, rfl⟩
  obtain ⟨others, hothers⟩ := hdrop
  rw [isRooted_eq, startsApart]
  unfold directory
  rw [hothers]
  cases others with
  | nil => rfl
  | cons c more =>
      obtain ⟨d, rest, hmore⟩ := List.exists_cons_of_ne_nil (l := more ++ ['/']) (by simp)
      rw [List.cons_append, hmore]
      show (String.ofList (d :: rest).reverse).toList.head?.any isSeparator = true
      rw [← hmore, String.toList_ofList, List.reverse_append]
      rfl

end WorkspacePath

namespace ProjectRoots

variable {r : ProjectRoots} {p name : String} {visited : List String} {answer : Option String}

-- ============================================================== search

/-- The search from a path outwards as it runs, with no bound on its steps: the paths that it
visits, and its answer. -/
inductive Search (r : ProjectRoots) : String → List String → Option String → Prop
  /-- The path is a root. -/
  | found {p name : String} (h : r.entries.lookup p = some name) : Search r p [p] (some name)
  /-- Not even the root of the workspace is one. -/
  | exhausted (h : r.entries.lookup "." = none) : Search r "." ["."] none
  /-- The search goes on in the directory. -/
  | outwards {p : String} {visited : List String} {answer : Option String}
      (hnone : r.entries.lookup p = none) (hroot : p ≠ ".")
      (h : Search r (directory p) visited answer) : Search r p (p :: visited) answer

/-- There is one way in which a search can run. -/
theorem Search.unique {visited' : List String} {answer' : Option String}
    (h : Search r p visited answer) (h' : Search r p visited' answer') :
    visited = visited' ∧ answer = answer' := by
  induction h generalizing visited' answer' with
  | found hname =>
      cases h' with
      | found hname' => exact ⟨rfl, hname.symm.trans hname'⟩
      | exhausted hnone => cases hname.symm.trans hnone
      | outwards hnone _ _ => cases hname.symm.trans hnone
  | exhausted hnone =>
      cases h' with
      | found hname => cases hname.symm.trans hnone
      | exhausted _ => exact ⟨rfl, rfl⟩
      | outwards _ hroot _ => exact absurd rfl hroot
  | outwards hnone hroot _ ih =>
      cases h' with
      | found hname => cases hname.symm.trans hnone
      | exhausted _ => exact absurd rfl hroot
      | outwards _ _ h =>
          obtain ⟨rfl, rfl⟩ := ih h
          exact ⟨rfl, rfl⟩

/-- From where the root of the workspace is so many steps away, the search ends after no more
steps, and without an answer only there. -/
theorem exists_search {steps : Nat} (h : directory^[steps] p = ".") :
    ∃ k ≤ steps, ∃ answer, Search r p ((List.range (k + 1)).map (directory^[·] p)) answer ∧
      (answer = none → directory^[k] p = ".") := by
  induction steps generalizing p with
  | zero =>
      obtain rfl : p = "." := h
      refine ⟨0, Nat.le_refl _, ?_⟩
      cases hname : r.entries.lookup "." with
      | some name => exact ⟨some name, .found hname, nofun⟩
      | none => exact ⟨none, .exhausted hname, fun _ => rfl⟩
  | succ steps ih =>
      cases hname : r.entries.lookup p with
      | some name => exact ⟨0, Nat.zero_le _, some name, .found hname, nofun⟩
      | none =>
          by_cases hroot : p = "."
          · subst hroot
            exact ⟨0, Nat.zero_le _, none, .exhausted hname, fun _ => rfl⟩
          · obtain ⟨k, hk, answer, hsearch, hend⟩ := ih h
            refine ⟨k + 1, Nat.succ_le_succ hk, answer, ?_, hend⟩
            rw [List.range_succ_eq_map, List.map_cons, List.map_map]
            exact .outwards hname hroot hsearch

/-- A bound on the steps that the root of the workspace is within changes nothing. -/
theorem Search.findSome?_outwards {steps : Nat} (h : Search r p visited answer)
    (hsteps : directory^[steps] p = ".") :
    (ProjectRoots.outwards steps p).findSome? (fun root => r.entries.lookup root) = answer := by
  induction h generalizing steps with
  | found hname =>
      cases steps with
      | zero => rw [ProjectRoots.outwards, List.findSome?_singleton, hname]
      | succ steps =>
          rw [ProjectRoots.outwards]
          split
          · rw [List.findSome?_singleton, hname]
          · rw [List.findSome?_cons, hname]
  | exhausted hnone => rw [outwards_root, List.findSome?_singleton, hnone]
  | outwards hnone hroot _ ih =>
      cases steps with
      | zero => exact absurd hsteps hroot
      | succ steps =>
          rw [ProjectRoots.outwards, if_neg hroot, List.findSome?_cons, hnone]
          exact ih hsteps

/-- An absolute path is never searched to the end. -/
theorem not_search_none (hp : isRooted p = true) : ¬ Search r p visited none := by
  intro h
  generalize hanswer : (none : Option String) = answer at h
  induction h with
  | found _ => cases hanswer
  | exhausted _ => exact absurd hp (by decide)
  | outwards _ _ _ ih => exact ih (isRooted_directory hp) hanswer

/-- The paths around a normal form are searched to the first that is a root, or to the end. -/
theorem search_iff (hp : IsNormal p) (hr : isRooted p = false) :
    ∃ k ≤ (walked p).length,
      ((enclosing p).findSome? (fun root => r.entries.lookup root) = none
        → k = (walked p).length) ∧
      ∀ visited answer, Search r p visited answer
        ↔ visited = (List.range (k + 1)).map (directory^[·] p) ∧
          answer = (enclosing p).findSome? fun root => r.entries.lookup root := by
  obtain ⟨k, hk, answer, hsearch, hend⟩ :=
    exists_search (r := r) (hp.iterate_directory_eq_root hr (Nat.le_refl _))
  have hbound : (walked p).length ≤ p.length := by
    obtain ⟨hw, hwritten⟩ := hp.unrooted hr
    have hlength := hw.length_le
    rw [hwritten] at hlength
    exact hlength
  have hanswer : (enclosing p).findSome? (fun root => r.entries.lookup root) = answer :=
    hsearch.findSome?_outwards (hp.iterate_directory_eq_root hr hbound)
  rw [hanswer]
  refine ⟨k, hk, fun hnone => ?_, fun visited answer' => ⟨fun hrun => hrun.unique hsearch, ?_⟩⟩
  · have hlength := hp.length_walked_iterate hr k
    have hroot : (walked ".").length = 0 := by decide
    rw [hend hnone, hroot] at hlength
    omega
  · rintro ⟨rfl, rfl⟩
    exact hsearch

/-- The search from a path that may belong to a project ends. Its steps leave as many segments
less, down to `.`, so each normal form at or around the path is met after one number of steps,
and each step leads up by one directory; the search visits the first of these paths up to its
answer, and all of them if it has none. Taking the directory changes neither `.` nor `/`: an
absolute path is never searched to the end, and a path that climbs out of the workspace is not
followed up. -/
theorem search_visits_ancestors (r : ProjectRoots) {path : String}
    (h : r.admits (ofGiven path) = true) :
    let p := ofGiven path
    let n := (walked p).length
    (∀ k, directory^[k] p = if k < n then Text.joined '/' ((walked p).take (n - k)) else ".") ∧
      (∀ q, IsNormal q ∧ Encloses q p ↔ ∃! k, k ≤ n ∧ directory^[k] p = q) ∧
      (∀ k ≤ n, location (directory^[k] p) = Location.up^[k] (location p)) ∧
      (∃ k ≤ n, (r.projectOf? path = none → k = n) ∧
        ∀ visited answer, Search r p visited answer
          ↔ visited = (List.range (k + 1)).map (directory^[·] p) ∧ answer = r.projectOf? path) ∧
      (directory "." = "." ∧ directory "/" = "/") ∧
      (∀ q, isRooted q = true → ∀ visited, ¬ Search r q visited none) ∧
      ∀ q, IsNormal q → isRooted q = false → escapes q = true →
        ¬ ∀ k ≤ (walked q).length, location (directory^[k] q) = Location.up^[k] (location q) := by
  have hp : IsNormal (ofGiven path) := isNormal_normalize _
  obtain ⟨⟨-, hinside⟩, hr⟩ : (hasSegment (ofGiven path) r.installedDirectory = false ∧
      escapes (ofGiven path) = false) ∧ isRooted (ofGiven path) = false := by
    simpa only [admits, Bool.not_eq_true', Bool.or_eq_false_iff] using h
  have hanswer : r.projectOf? path
      = (enclosing (ofGiven path)).findSome? fun root => r.entries.lookup root := by
    unfold projectOf?
    simp only [h, if_true]
  rw [hanswer]
  -- from here on any normal form will do
  generalize ofGiven path = p at hp hr hinside ⊢
  refine ⟨hp.iterate_directory_eq hr, fun q => hp.encloses_iff_iterate hr,
    (hp.follows_up_iff hr).mpr hinside, search_iff hp hr, by decide,
    fun q hq visited => not_search_none hq, fun q hq hrooted hout hup => ?_⟩
  rw [(hq.follows_up_iff hrooted).mp hup] at hout
  cases hout

/-- Without a root around it a path is searched up to the root of the workspace. -/
theorem search_visits_ancestors_unowned :
    let r := ofProjects [.ofRoot "app" "apps/app/" none] "node_modules"
    r.admits (ofGiven "./apps\\lib/x.ts") = true ∧
      Search r "apps/lib/x.ts" ["apps/lib/x.ts", "apps/lib", "apps", "."] none := by
  intro r
  have hadmits : r.admits (ofGiven "./apps\\lib/x.ts") = true := by decide
  obtain ⟨-, -, -, ⟨k, -, hend, hrun⟩, -⟩ := search_visits_ancestors r hadmits
  have hp : ofGiven "./apps\\lib/x.ts" = "apps/lib/x.ts" := by decide
  have hnone : r.projectOf? "./apps\\lib/x.ts" = none := by decide
  rw [hnone, hp] at hrun
  rw [hp] at hend
  have hn : (walked "apps/lib/x.ts").length = 3 := by decide
  obtain rfl : k = 3 := (hend hnone).trans hn
  exact ⟨hadmits, (hrun _ _).mpr ⟨by decide, rfl⟩⟩

end ProjectRoots

end ImportResolution
