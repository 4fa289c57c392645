/-
Spellings of one path. Wherever a path is brought to normal form, only its
normal form matters. But a path that is given by a caller loses a leading `./`
before, and where another separator follows, what is left begins at the root
of the file system: `.//a` is taken for `/a`, though its normal form is `a`.

# The condition

Such spellings are the only ones that are taken for another path
(`ofGiven_of_faithful`); they belong to no project, and a module search starts
elsewhere. So two spellings of one path are answered alike by every index and
by every locator exactly if both are faithful or neither is, and an index has
nothing to say of a path outside the workspace anyway (`spellings_agree_iff`).
-/
import ImportResolution.Proofs.Locator.History
import ImportResolution.Proofs.Locator.Slots

namespace ImportResolution

open Text (withoutStart startsWith startsWith_iff)

-- ============================================================ given paths

namespace Text

theorem withoutStart_append (start rest : String) : withoutStart (start ++ rest) start = rest := by
  have hafter : afterStart? start.toList (start ++ rest).toList = some rest.toList :=
    afterStart?_eq_some_iff.mpr String.toList_append
  rw [withoutStart, dropStart?, hafter, Option.map_some, Option.getD_some, String.ofList_toList]

end Text

namespace WorkspacePath

variable {p q : String}

/-- No separator follows where a leading `./` is taken off, so the path does not
come to start at the root of the file system. -/
def Faithful (p : String) : Prop :=
  isRooted (withoutStart p "./") = isRooted p

instance (p : String) : Decidable (Faithful p) :=
  inferInstanceAs (Decidable (_ = _))

theorem slashed_current (rest : String) : slashed ("./" ++ rest) = "./" ++ slashed rest := by
  rw [slashed, String.toList_append, List.map_append, String.ofList_append]
  rfl

theorem isRooted_current (rest : String) : isRooted ("./" ++ rest) = false := by
  rw [isRooted, slashed_current, ← Bool.not_eq_true, startsWith_iff, String.toList_append]
  rintro ⟨more, hmore⟩
  exact absurd (List.head_eq_of_cons_eq hmore) (by decide)

theorem segments_current (rest : String) : segments ("./" ++ rest) = "." :: segments rest := by
  have hcut : Text.splitOn '/' ("./" ++ slashed rest).toList
      = ['.'] :: Text.splitOn '/' (slashed rest).toList := by
    rw [String.toList_append]
    exact Text.splitOn_append_sep ['.'] _
  rw [segments, slashed_current, Text.pieces, hcut]
  rfl

/-- A leading `./` is not walked. -/
theorem walked_current (rest : String) :
    walked ("./" ++ rest) = ((segments rest).foldl (step false) []).reverse := by
  have hvoid : step false [] "." = [] := rfl
  rw [walked, isRooted_current, segments_current, List.foldl_cons, hvoid]

theorem normalize_current {rest : String} (h : isRooted rest = false) :
    normalize ("./" ++ rest) = normalize rest := by
  rw [normalize, normalize, isRooted_current, h, walked_current, walked, h]

/-- A path that is given in a faithful spelling is taken for its normal form. -/
theorem ofGiven_of_faithful (h : Faithful p) : ofGiven p = normalize p := by
  cases hstart : startsWith p "./" with
  | false => rw [ofGiven, Text.withoutStart_of_not_startsWith hstart]
  | true =>
      obtain ⟨rest, rfl⟩ := Text.exists_append_of_startsWith hstart
      rw [Faithful, Text.withoutStart_append, isRooted_current] at h
      rw [ofGiven, Text.withoutStart_append, normalize_current h]

/-- In any other spelling it is taken for a path from the root of the file
system, which it is not. -/
theorem isRooted_of_not_faithful (h : ¬ Faithful p) :
    isRooted (ofGiven p) = true ∧ isRooted p = false := by
  cases hstart : startsWith p "./" with
  | false => exact absurd (by rw [Faithful, Text.withoutStart_of_not_startsWith hstart]) h
  | true =>
      obtain ⟨rest, rfl⟩ := Text.exists_append_of_startsWith hstart
      rw [Faithful, Text.withoutStart_append, isRooted_current, Bool.not_eq_false] at h
      rw [ofGiven, isRooted_normalize, Text.withoutStart_append]
      exact ⟨h, isRooted_current rest⟩

/-- One segment more is walked from the root as below no root, but for the `..`
that cannot be taken back. -/
theorem filter_step {kept : List String} (h : Walked false kept.reverse) (segment : String) :
    step true (kept.filter (· ≠ "..")) segment
      = (step false kept segment).filter (· ≠ "..") := by
  unfold step
  split
  · rfl
  · split
    · cases kept with
      | nil => rfl
      | cons last before =>
          by_cases hlast : last = ".."
          · -- nothing but `..` stands below a `..`
            subst hlast
            obtain ⟨-, n, hn⟩ := Walked.climbs (List.reverse_cons ▸ h)
            have hnames : (".." :: before).filter (· ≠ "..") = [] := by
              rw [← List.reverse_cons, List.reverse_eq_iff, List.reverse_replicate] at hn
              rw [hn, List.filter_replicate]
              rfl
            rw [hnames]
            exact (List.filter_cons_of_neg (by decide)).trans hnames |>.symm
          · rw [List.filter_cons_of_pos (by simpa using hlast)]
            simp only [ne_eq, hlast, not_false_eq_true, if_true]
    · next hup => exact (List.filter_cons_of_pos (by simpa using hup)).symm

theorem filter_foldl_step {kept : List String} (h : Walked false kept.reverse)
    {more : List String} (hs : ∀ segment ∈ more, '/' ∉ segment.toList ∧ '\\' ∉ segment.toList) :
    more.foldl (step true) (kept.filter (· ≠ ".."))
      = (more.foldl (step false) kept).filter (· ≠ "..") := by
  induction more generalizing kept with
  | nil => rfl
  | cons segment rest ih =>
      rw [List.foldl_cons, List.foldl_cons, filter_step h,
        ih (walked_step h (hs segment (List.mem_cons_self ..)))
          fun s hs' => hs s (List.mem_cons_of_mem _ hs')]

/-- What an unfaithful spelling is taken for depends on its normal form alone: it
has the names in it, without the leading `..`. -/
theorem ofGiven_of_not_faithful (h : ¬ Faithful p) :
    ofGiven p = written true ((walked (normalize p)).filter (· ≠ "..")) := by
  obtain ⟨hgiven, hp⟩ := isRooted_of_not_faithful h
  cases hstart : startsWith p "./" with
  | false => exact absurd (by rw [Faithful, Text.withoutStart_of_not_startsWith hstart]) h
  | true =>
      obtain ⟨rest, rfl⟩ := Text.exists_append_of_startsWith hstart
      rw [ofGiven, isRooted_normalize, Text.withoutStart_append] at hgiven
      have hwalked : walked (normalize ("./" ++ rest)) = walked ("./" ++ rest) :=
        (walked_walked _).walked_written
      have hnone : Walked false ([] : List String).reverse := walked_nil false
      have hfold : (segments rest).foldl (step true) []
          = ((segments rest).foldl (step false) []).filter (· ≠ "..") :=
        filter_foldl_step hnone fun _ hs => mem_segments hs
      rw [ofGiven, Text.withoutStart_append, normalize, hgiven, hwalked, walked_current, walked,
        hgiven, hfold, List.filter_reverse]

/-- Spellings of one path that are both faithful or both not are taken for one
path. -/
theorem ofGiven_eq_of_normalize_eq (h : normalize p = normalize q)
    (hfaithful : Faithful p ↔ Faithful q) : ofGiven p = ofGiven q := by
  by_cases hp : Faithful p
  · rw [ofGiven_of_faithful hp, ofGiven_of_faithful (hfaithful.mp hp), h]
  · rw [ofGiven_of_not_faithful hp, ofGiven_of_not_faithful (mt hfaithful.mpr hp), h]

end WorkspacePath

-- ================================================================ index

namespace ProjectRoots

open WorkspacePath

variable {r : ProjectRoots} {p q : String}

theorem projectOf?_congr (h : ofGiven p = ofGiven q) : r.projectOf? p = r.projectOf? q := by
  unfold projectOf?
  rw [h]

/-- What is taken for a path from the root of the file system belongs to no
project. -/
theorem projectOf?_of_isRooted (h : isRooted (ofGiven p) = true) : r.projectOf? p = none := by
  have hadmits : r.admits (ofGiven p) = false := by
    unfold admits
    rw [h, Bool.or_true, Bool.not_true]
  unfold projectOf?
  simp only [hadmits, Bool.false_eq_true, if_false]

/-- A path that leaves the workspace belongs to no project, however it is
spelled. -/
theorem projectOf?_of_escapes (h : escapes (WorkspacePath.normalize p) = true) :
    r.projectOf? p = none := by
  by_cases hp : Faithful p
  · have hadmits : r.admits (ofGiven p) = false := by
      rw [admits, ofGiven_of_faithful hp, h, Bool.or_true, Bool.true_or, Bool.not_true]
    unfold projectOf?
    simp only [hadmits, Bool.false_eq_true, if_false]
  · exact projectOf?_of_isRooted (isRooted_of_not_faithful hp).1

/-- The index of one project that is the whole workspace, where no directory
holds installed packages. -/
def whole (name : String) : ProjectRoots :=
  .ofProjects [.ofRoot name "." none] ""

/-- A normal form below no root has no empty segment. -/
theorem empty_not_mem_segments (hp : IsNormal p) (hr : isRooted p = false) : "" ∉ segments p := by
  have hw := walked_walked p
  have hwritten := hp.written_eq
  rw [hr] at hw hwritten
  by_cases hne : walked p = []
  · rw [← hwritten, hne]
    decide
  · rw [← hwritten, hw.segments_written hne]
    exact fun hmem => (hw.isProper _ hmem).ne_empty rfl

/-- There, every path that does not leave the workspace belongs to the project. -/
theorem projectOf?_whole (name : String) (hr : isRooted (ofGiven p) = false)
    (hinside : escapes (ofGiven p) = false) : (whole name).projectOf? p = some name := by
  have hp : IsNormal (ofGiven p) := isNormal_normalize _
  have hroot : WorkspacePath.normalize (Project.ofRoot name "." none).root = "." :=
    show WorkspacePath.normalize "." = "." by decide
  refine projectOf?_iff.mpr ⟨hp, hr, fun hhead => ?_, empty_not_mem_segments hp hr,
    [], _, [], rfl, rfl, fun _ h => absurd h List.not_mem_nil, ?_, fun other hother _ => ?_⟩
  · rw [(hp.escapes_iff hr).mpr hhead] at hinside
    cases hinside
  · rw [hroot]
    exact ⟨hr.symm, List.nil_prefix⟩
  · exact Nat.le_of_eq (by rw [List.mem_singleton.mp hother])

/-- Every index gives the same answer for two spellings of one path, unless just
one of them is faithful and the path is inside the workspace. -/
theorem projectOf?_spellings_iff (h : WorkspacePath.normalize p = WorkspacePath.normalize q) :
    (∀ projects installed, (ofProjects projects installed).projectOf? p
        = (ofProjects projects installed).projectOf? q)
      ↔ (Faithful p ↔ Faithful q) ∨ escapes (WorkspacePath.normalize p) = true := by
  have hone {p q : String} (h : WorkspacePath.normalize p = WorkspacePath.normalize q)
      (hsame : (whole "app").projectOf? p = (whole "app").projectOf? q)
      (hinside : escapes (WorkspacePath.normalize p) = false) (hp : Faithful p) :
      Faithful q := by
    refine Classical.byContradiction fun hq => ?_
    obtain ⟨hgiven, hr⟩ := isRooted_of_not_faithful hq
    rw [← isRooted_normalize, ← h] at hr
    rw [projectOf?_of_isRooted hgiven, projectOf?_whole "app"] at hsame
    · cases hsame
    · rw [ofGiven_of_faithful hp]
      exact hr
    · rw [ofGiven_of_faithful hp]
      exact hinside
  constructor
  · intro hsame
    cases hescapes : escapes (WorkspacePath.normalize p) with
    | true => exact Or.inr rfl
    | false =>
        have hwhole : (whole "app").projectOf? p = (whole "app").projectOf? q := hsame _ _
        refine Or.inl ⟨hone h hwhole hescapes, hone h.symm hwhole.symm ?_⟩
        rw [← h]
        exact hescapes
  · rintro (hfaithful | hescapes) projects installed
    · exact projectOf?_congr (ofGiven_eq_of_normalize_eq h hfaithful)
    · rw [projectOf?_of_escapes hescapes, projectOf?_of_escapes]
      rw [← h]
      exact hescapes

end ProjectRoots

-- ============================================================ resolution

namespace Locator

open WorkspacePath (normalize ofGiven Faithful isRooted escapes)

variable {l : Locator} {context context' file file' : String}

/-- A resolution depends on the normal form of its context and on the path that
its file is taken for. -/
theorem resolve_congr (specifier : String) (hcontext : normalize context = normalize context')
    (hfile : ofGiven file = ofGiven file') :
    l.resolve specifier context file = l.resolve specifier context' file' := by
  unfold resolve
  rw [hcontext, hfile]

/-- A workspace in which the runtime finds a module of the only project, but only
when it is asked for a certain file. -/
def watching (root watched : String) : Locator :=
  build root { Settings.standard with languageFallback := false } [.ofRoot "app" "." none] [] {
    loadConfig := fun s => (.ok none, s)
    locatePackage := fun _ _ _ => none
    language := fun _ specifier _ => return .error (.moduleNotFound specifier)
    runtime := fun specifier importer =>
      return if importer = watched then .ok (root ++ "/x") else .error (.moduleNotFound specifier) }

theorem freshAnswer_watching (root watched context file : String)
    (hfound : (watching root watched).projectOfFound? (root ++ "/x") = some "app") :
    (watching root watched).freshAnswer .empty ⟨"x", context, file⟩
      = if FilePath.join (FilePath.clean root) (ofGiven file) = watched then some "app"
        else none := by
  have hbare : WorkspacePath.isRelative "x" = false := by decide
  have hcovers : Builtins.covers [] "x" = false := by decide
  have hrelative (m : Memory) :
      (watching root watched).attempt "x" (normalize context) (ofGiven file) .relative m
        = (.skipped, m) := by
    simp only [attempt, tryRelative, hbare, Bool.false_eq_true, if_false, run_pure]
  have hbuiltin (m : Memory) :
      (watching root watched).attempt "x" (normalize context) (ofGiven file) .builtin m
        = (.skipped, m) := by
    have hextra : (watching root watched).settings.extraBuiltins = [] := rfl
    simp only [attempt, tryBuiltins, hextra, hcovers, Bool.false_eq_true, if_false, run_pure]
  have hruntime (m : Memory) :
      ((watching root watched).attempt "x" (normalize context) (ofGiven file)
        .runtimeFallback m).1
        = if FilePath.join (FilePath.clean root) (ofGiven file) = watched then .resolved "app"
          else .skipped := by
    have hroot : (watching root watched).workspaceRoot = FilePath.clean root := rfl
    have hsearch (asked : String) : (watching root watched).collaborators.runtime "x" asked
        = return if asked = watched then .ok (root ++ "/x") else .error (.moduleNotFound "x") :=
      rfl
    have hon : (watching root watched).settings.runtimeFallback = true := rfl
    simp only [attempt, tryRuntime, hon, if_true, run_bind, run_modify, tryModuleSearch, hsearch,
      hroot]
    by_cases hasked : FilePath.join (FilePath.clean root) (ofGiven file) = watched
    · rw [if_pos hasked, if_pos hasked]
      exact congrArg Attempt.ofOption hfound
    · rw [if_neg hasked, if_neg hasked]
      rfl
  unfold freshAnswer
  rw [(resolveCall_of_unknown rfl).1, outcome, Strategy.order,
    tryStrategies_of_skipped (congrArg Prod.fst (hrelative _)), hrelative,
    tryStrategies_of_skipped (by rfl), tryStrategies_of_skipped (congrArg Prod.fst (hbuiltin _)),
    hbuiltin, tryStrategies_of_skipped (by rfl), tryStrategies_of_skipped (by rfl),
    tryStrategies_of_skipped (by rfl), tryStrategies, run_bind, hruntime]
  split <;> rfl

/-- Some locator tells a path that is taken for one from the root of the file
system from one that is not, whatever their normal forms are. -/
theorem exists_freshAnswer_ne (hfile : isRooted (ofGiven file) = false)
    (hfile' : isRooted (ofGiven file') = true) :
    ∃ l : Locator, ∃ s specifier, ∀ context context',
      l.freshAnswer s ⟨specifier, context, file⟩
        ≠ l.freshAnswer s ⟨specifier, context', file'⟩ := by
  have habsolute (path : String) :
      FilePath.isAbsolute (ofGiven path) = isRooted (ofGiven path) := by
    have hnormal : WorkspacePath.IsNormal (ofGiven path) := WorkspacePath.isNormal_normalize _
    rw [isRooted, hnormal.slashed_eq]
    rfl
  have hjoin' (root : String) : FilePath.join root (ofGiven file') = ofGiven file' := by
    rw [FilePath.join, if_pos ((habsolute file').trans hfile')]
  -- at most one of two workspaces has its file where the other path leads
  obtain ⟨root, hclean, hfound, hne⟩ : ∃ root, FilePath.clean root = root ∧
      (∀ watched, (watching root watched).projectOfFound? (root ++ "/x") = some "app") ∧
      FilePath.join root (ofGiven file) ≠ ofGiven file' := by
    have hjoin (root : String) (hroot : root ≠ "" ∧ Text.endsWith root "/" = false) :
        FilePath.join root (ofGiven file) = root ++ "/" ++ ofGiven file := by
      rw [FilePath.join, if_neg (by rw [habsolute, hfile]; exact Bool.false_ne_true),
        if_neg (by simp [hroot.1, hroot.2])]
    by_cases ha : FilePath.join "/a" (ofGiven file) = ofGiven file'
    · refine ⟨"/b", by decide +kernel, fun watched => ?_, fun hb => ?_⟩
      · have hsame : (watching "/b" watched).projectOfFound? ("/b" ++ "/x")
            = (watching "/b" "").projectOfFound? ("/b" ++ "/x") := rfl
        rw [hsame]
        decide +kernel
      · rw [← ha, hjoin "/a" (by decide), hjoin "/b" (by decide)] at hb
        have hhead := congrArg (·.toList.take 2) hb
        simp only [String.toList_append] at hhead
        exact absurd hhead (by simp)
    · refine ⟨"/a", by decide +kernel, fun watched => ?_, ha⟩
      have hsame : (watching "/a" watched).projectOfFound? ("/a" ++ "/x")
          = (watching "/a" "").projectOfFound? ("/a" ++ "/x") := rfl
      rw [hsame]
      decide +kernel
  refine ⟨watching root (ofGiven file'), .empty, "x", fun context context' hsame => ?_⟩
  rw [freshAnswer_watching _ _ _ _ (hfound _), freshAnswer_watching _ _ _ _ (hfound _), hclean,
    hjoin', if_neg hne, if_pos rfl] at hsame
  cases hsame

/-- Two spellings of one path have the same project in every index exactly if
both are faithful or neither is, or the path is outside the workspace; and for
files with these spellings every new locator gives the same answers, in however
spelled a context, exactly if both are faithful or neither is. -/
theorem spellings_agree_iff {p q : String} (h : normalize p = normalize q) :
    ((∀ projects installed, (ProjectRoots.ofProjects projects installed).projectOf? p
          = (ProjectRoots.ofProjects projects installed).projectOf? q)
        ↔ (Faithful p ↔ Faithful q) ∨ escapes (normalize p) = true) ∧
      ((∀ (l : Locator) s specifier context context', normalize context = normalize context' →
          l.freshAnswer s ⟨specifier, context, p⟩ = l.freshAnswer s ⟨specifier, context', q⟩)
        ↔ (Faithful p ↔ Faithful q)) := by
  refine ⟨ProjectRoots.projectOf?_spellings_iff h, fun hsame => ?_, fun hfaithful => ?_⟩
  · have hone {p q : String} (h : normalize p = normalize q) (hp : Faithful p)
        (hq : ¬ Faithful q) : ∃ l : Locator, ∃ s specifier, ∀ context context',
          l.freshAnswer s ⟨specifier, context, p⟩ ≠ l.freshAnswer s ⟨specifier, context', q⟩ := by
      obtain ⟨hgiven, hr⟩ := WorkspacePath.isRooted_of_not_faithful hq
      refine exists_freshAnswer_ne ?_ hgiven
      rw [WorkspacePath.ofGiven_of_faithful hp, h, WorkspacePath.isRooted_normalize, hr]
    refine ⟨fun hp => Classical.byContradiction fun hq => ?_,
      fun hq => Classical.byContradiction fun hp => ?_⟩
    · obtain ⟨l, s, specifier, hne⟩ := hone h hp hq
      exact hne "." "." (hsame l s specifier "." "." rfl)
    · obtain ⟨l, s, specifier, hne⟩ := hone h.symm hq hp
      exact hne "." "." (hsame l s specifier "." "." rfl).symm
  · intro l s specifier context context' hcontext
    have hfile := WorkspacePath.ofGiven_eq_of_normalize_eq h hfaithful
    unfold freshAnswer resolveCall
    rw [resolve_congr specifier hcontext hfile]

/-- Repeated and mixed separators and detours make no difference. -/
theorem spellings_agree_mixed :
    let p := "./apps\\\\app/./x.ts"
    let q := "apps/lib/..//app/x.ts"
    normalize p = normalize q ∧
      (∀ projects installed, (ProjectRoots.ofProjects projects installed).projectOf? p
        = (ProjectRoots.ofProjects projects installed).projectOf? q) ∧
      ∀ (l : Locator) s specifier,
        l.freshAnswer s ⟨specifier, "./apps//app", p⟩
          = l.freshAnswer s ⟨specifier, "apps/app", q⟩ := by
  intro p q
  have h : normalize p = normalize q := by decide +kernel
  have hcontext : normalize "./apps//app" = normalize "apps/app" := by decide +kernel
  have hfaithful : Faithful p ↔ Faithful q := by decide +kernel
  obtain ⟨hindex, hanswers⟩ := spellings_agree_iff h
  exact ⟨h, hindex.mpr (Or.inl hfaithful), fun l s specifier =>
    hanswers.mpr hfaithful l s specifier "./apps//app" "apps/app" hcontext⟩

/-- A second slash after a leading `./` makes a difference: the same file has a
project without it and has none with it, and what it imports by a relative path
is found or not. -/
theorem spellings_of_one_file :
    let p := ".//apps/app/x.ts"
    let q := "apps/app/x.ts"
    let l := ofGraph "/ws" .standard ⟨[.ofRoot "app" "apps/app" none], []⟩
    normalize p = q ∧ normalize q = q ∧
      l.roots.projectOf? p = none ∧ l.roots.projectOf? q = some "app" ∧
      l.freshAnswer .empty ⟨"./y", "apps/app", p⟩ = none ∧
      l.freshAnswer .empty ⟨"./y", "apps/app", q⟩ = some "app" ∧
      ¬ (∀ p q, normalize p = normalize q →
          ∀ projects installed, (ProjectRoots.ofProjects projects installed).projectOf? p
            = (ProjectRoots.ofProjects projects installed).projectOf? q) ∧
      ¬ ∀ (l : Locator) s specifier context context' file file',
        normalize context = normalize context' → normalize file = normalize file' →
          l.freshAnswer s ⟨specifier, context, file⟩
            = l.freshAnswer s ⟨specifier, context', file'⟩ := by
  intro p q l
  have hp : normalize p = q := by decide
  have hq : normalize q = q := by decide
  have hindex : l.roots.projectOf? p = none := by decide +kernel
  have hindex' : l.roots.projectOf? q = some "app" := by decide +kernel
  have hanswer : l.freshAnswer .empty ⟨"./y", "apps/app", p⟩ = none := by decide +kernel
  have hanswer' : l.freshAnswer .empty ⟨"./y", "apps/app", q⟩ = some "app" := by decide +kernel
  refine ⟨hp, hq, hindex, hindex', hanswer, hanswer', fun hall => ?_, fun hall => ?_⟩
  · have hsame : l.roots.projectOf? p = l.roots.projectOf? q := hall p q (hp.trans hq.symm) _ _
    rw [hindex, hindex'] at hsame
    cases hsame
  · have hsame := hall l .empty "./y" "apps/app" "apps/app" p q rfl (hp.trans hq.symm)
    rw [hanswer, hanswer'] at hsame
    cases hsame

end Locator

end ImportResolution
