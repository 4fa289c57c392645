/-
What overrides come to. A layer is a list of keys with values, and a key that
names a setting assigns a value to it. The settings that come out have for each
setting the last value of the highest layer that names it (`layered_eq_ok_iff`);
the values of one setting in this layer are the ones that decide.

# Where the order does not matter

The keys of a layer are distinct, but a setting has several keys: variables may
be written in capitals or not and with either dash, and the configuration files
have two names. So the order of a layer matters where it gives two values to
one setting. It does not matter if the values that decide agree, or if every
order is refused: a value cannot be read, or a setting has no valid one to
choose from (`layered_perm_iff`).
-/
import ImportResolution.Settings.Overrides
import Mathlib.Data.List.Basic
import Mathlib.Logic.Function.Basic

namespace ImportResolution

-- ========================================================= assignments

/-- What can be set. -/
inductive Setting where
  | installedDirectory
  | configFiles
  | extraBuiltins
  | languageFallback
  | runtimeFallback
deriving DecidableEq, Repr

/-- A setting with a value. -/
inductive Assignment where
  | installedDirectory (name : String)
  | configFiles (names : List String)
  | extraBuiltins (names : List String)
  | languageFallback (on : Bool)
  | runtimeFallback (on : Bool)
deriving DecidableEq, Repr

namespace Assignment

/-- The setting that gets the value. -/
def setting : Assignment → Setting
  | .installedDirectory _ => .installedDirectory
  | .configFiles _ => .configFiles
  | .extraBuiltins _ => .extraBuiltins
  | .languageFallback _ => .languageFallback
  | .runtimeFallback _ => .runtimeFallback

/-- The settings with the value. -/
def apply (s : Settings) : Assignment → Settings
  | .installedDirectory name => { s with installedDirectory := name }
  | .configFiles names => { s with configFiles := names }
  | .extraBuiltins names => { s with extraBuiltins := names }
  | .languageFallback on => { s with languageFallback := on }
  | .runtimeFallback on => { s with runtimeFallback := on }

/-- The demands on settings, for one of them. -/
def Valid : Assignment → Prop
  | .installedDirectory name => Settings.isDirectoryName name = true
  | .configFiles names => ∀ name ∈ names, Text.trim name ≠ ""
  | _ => True

end Assignment

namespace Setting

/-- The setting of a name. -/
def ofName? (name : String) : Option Setting :=
  if name = "installed-dir" then some .installedDirectory
  else if name = "tsconfig" ∨ name = "tsconfig-files" then some .configFiles
  else if name = "extra-builtins" then some .extraBuiltins
  else if name = "language-fallback" then some .languageFallback
  else if name = "runtime-fallback" then some .runtimeFallback
  else none

/-- What a text says for a setting; `origin` is the key that its giver used. -/
def read (origin value : String) : Setting → Except Fault Assignment
  | .installedDirectory => .ok (.installedDirectory value)
  | .configFiles => .ok (.configFiles (Settings.listOf value))
  | .extraBuiltins => .ok (.extraBuiltins (Settings.listOf value))
  | .languageFallback => (Settings.flagOf origin value).map .languageFallback
  | .runtimeFallback => (Settings.flagOf origin value).map .runtimeFallback

/-- What is said for a setting assigns to this setting. -/
theorem setting_of_read {x : Setting} {origin value : String} {a : Assignment}
    (h : x.read origin value = .ok a) : a.setting = x := by
  have hflag (f : Bool → Assignment) (hf : ∀ on, (f on).setting = x)
      (h : (Settings.flagOf origin value).map f = .ok a) : a.setting = x := by
    cases hon : Settings.flagOf origin value with
    | error fault =>
        rw [hon] at h
        cases h
    | ok on =>
        rw [hon] at h
        cases h
        exact hf on
  cases x with
  | installedDirectory => cases h; rfl
  | configFiles => cases h; rfl
  | extraBuiltins => cases h; rfl
  | languageFallback => exact hflag .languageFallback (fun _ => rfl) h
  | runtimeFallback => exact hflag .runtimeFallback (fun _ => rfl) h

end Setting

namespace Settings

variable {s t : Settings} {x : Setting} {a : Assignment} {assignments : List Assignment}

/-- The value that a setting has. -/
def value (s : Settings) : Setting → Assignment
  | .installedDirectory => .installedDirectory s.installedDirectory
  | .configFiles => .configFiles s.configFiles
  | .extraBuiltins => .extraBuiltins s.extraBuiltins
  | .languageFallback => .languageFallback s.languageFallback
  | .runtimeFallback => .runtimeFallback s.runtimeFallback

/-- Settings are what their values are. -/
theorem ext_value (h : ∀ x, s.value x = t.value x) : s = t := by
  have hdirectory := h .installedDirectory
  have hfiles := h .configFiles
  have hbuiltins := h .extraBuiltins
  have hlanguage := h .languageFallback
  have hruntime := h .runtimeFallback
  cases s
  cases t
  simp only [value, Assignment.installedDirectory.injEq, Assignment.configFiles.injEq,
    Assignment.extraBuiltins.injEq, Assignment.languageFallback.injEq,
    Assignment.runtimeFallback.injEq] at hdirectory hfiles hbuiltins hlanguage hruntime
  subst hdirectory hfiles hbuiltins hlanguage hruntime
  rfl

/-- An assignment touches no other setting. -/
theorem value_apply (s : Settings) (a : Assignment) (x : Setting) :
    (a.apply s).value x = if a.setting = x then a else s.value x := by
  cases a <;> cases x <;> rfl

/-- Of several assignments to a setting the last counts. -/
theorem value_foldl_apply (s : Settings) (assignments : List Assignment) (x : Setting) :
    (assignments.foldl Assignment.apply s).value x
      = (assignments.filter (·.setting = x)).getLast?.getD (s.value x) := by
  induction assignments generalizing s with
  | nil => rfl
  | cons a rest ih =>
      rw [List.foldl_cons, ih, value_apply]
      by_cases ha : a.setting = x
      · rw [if_pos ha, List.filter_cons_of_pos (by simpa using ha), List.getLast?_cons,
          Option.getD_some]
      · rw [if_neg ha, List.filter_cons_of_neg (by simpa using ha)]

/-- Settings are accepted if each of them is valid. -/
theorem validate_eq_ok_iff : s.validate = .ok t ↔ t = s ∧ ∀ x, (s.value x).Valid := by
  have hvalid : (∀ x, (s.value x).Valid)
      ↔ isDirectoryName s.installedDirectory = true ∧
        ∀ name ∈ s.configFiles, Text.trim name ≠ "" := by
    constructor
    · exact fun h => ⟨h .installedDirectory, h .configFiles⟩
    · rintro ⟨hdirectory, hfiles⟩ x
      cases x with
      | installedDirectory => exact hdirectory
      | configFiles => exact hfiles
      | extraBuiltins => exact trivial
      | languageFallback => exact trivial
      | runtimeFallback => exact trivial
  rw [hvalid]
  unfold validate
  by_cases hdirectory : isDirectoryName s.installedDirectory = true
  · rw [if_neg (by simpa using hdirectory)]
    by_cases hfiles : s.configFiles.any (Text.trim · == "") = true
    · rw [if_pos hfiles]
      obtain ⟨name, hname, hblank⟩ := List.any_eq_true.mp hfiles
      refine ⟨nofun, ?_⟩
      rintro ⟨-, -, hall⟩
      exact absurd (beq_iff_eq.mp hblank) (hall name hname)
    · rw [if_neg hfiles, Except.ok.injEq]
      have hall : ∀ name ∈ s.configFiles, Text.trim name ≠ "" := fun name hname hblank =>
        hfiles (List.any_eq_true.mpr ⟨name, hname, beq_iff_eq.mpr hblank⟩)
      exact ⟨fun h => ⟨h.symm, hdirectory, hall⟩, fun h => h.1.symm⟩
  · rw [if_pos (by simpa using hdirectory)]
    exact ⟨nofun, fun h => absurd h.2.1 hdirectory⟩

/-- An override is an assignment, unless it is of something that is no setting. -/
theorem override_eq (s : Settings) (origin name value : String) :
    s.override origin name value
      = match Setting.ofName? name with
        | none => .ok s
        | some x => (x.read origin value).map (Assignment.apply s) := by
  have hflag (f : Bool → Assignment) :
      (do return (f (← flagOf origin value)).apply s)
        = ((flagOf origin value).map f).map (Assignment.apply s) := by
    cases flagOf origin value <;> rfl
  unfold override Setting.ofName?
  by_cases hdirectory : name = "installed-dir"
  · rw [if_pos hdirectory, if_pos hdirectory]
    rfl
  rw [if_neg hdirectory, if_neg hdirectory]
  by_cases hfiles : name = "tsconfig" ∨ name = "tsconfig-files"
  · rw [if_pos hfiles, if_pos hfiles]
    rfl
  rw [if_neg hfiles, if_neg hfiles]
  by_cases hbuiltins : name = "extra-builtins"
  · rw [if_pos hbuiltins, if_pos hbuiltins]
    rfl
  rw [if_neg hbuiltins, if_neg hbuiltins]
  by_cases hlanguage : name = "language-fallback"
  · rw [if_pos hlanguage, if_pos hlanguage]
    exact hflag .languageFallback
  rw [if_neg hlanguage, if_neg hlanguage]
  by_cases hruntime : name = "runtime-fallback"
  · rw [if_pos hruntime, if_pos hruntime]
    exact hflag .runtimeFallback
  rw [if_neg hruntime, if_neg hruntime]

end Settings

-- =============================================================== layers

/-- Where overrides are given. -/
inductive Layer where
  | environment
  | options
deriving DecidableEq, Repr

namespace Layer

/-- The setting that a key names. -/
def setting? : Layer → String → Option Setting
  | .environment, key => (Settings.settingOfVariable? key).bind Setting.ofName?
  | .options, key => Setting.ofName? key

/-- The assignment that a key with a value makes, if it makes one. -/
def assignment? (layer : Layer) (given : String × String) : Option Assignment :=
  (layer.setting? given.1).bind fun x => (x.read given.1 given.2).toOption

/-- Every key that names a setting has a value that can be read. -/
def Readable (layer : Layer) (given : List (String × String)) : Prop :=
  ∀ g ∈ given, ∀ x, layer.setting? g.1 = some x → ∃ a, x.read g.1 g.2 = .ok a

/-- The values that are given to a setting. -/
def valuesOf (layer : Layer) (given : List (String × String)) (x : Setting) : List Assignment :=
  (given.filterMap layer.assignment?).filter (·.setting = x)

/-- The settings with what one key with a value assigns. -/
def step (layer : Layer) (s : Settings) (given : String × String) : Except Fault Settings :=
  match layer.setting? given.1 with
  | none => .ok s
  | some x => (x.read given.1 given.2).map (Assignment.apply s)

variable {layer : Layer} {s t : Settings} {given : List (String × String)} {x : Setting}

/-- A layer is applied if all of it can be read, and then its assignments are
made in order. -/
theorem foldlM_step_eq_ok_iff :
    given.foldlM layer.step s = .ok t
      ↔ layer.Readable given ∧
        t = (given.filterMap layer.assignment?).foldl Assignment.apply s := by
  induction given generalizing s with
  | nil =>
      show Except.ok s = .ok t ↔ _
      rw [Except.ok.injEq, List.filterMap_nil, List.foldl_nil, eq_comm]
      exact ⟨fun h => ⟨fun _ hg => absurd hg List.not_mem_nil, h⟩, fun h => h.2⟩
  | cons g rest ih =>
      have hreadable : layer.Readable (g :: rest)
          ↔ (∀ x, layer.setting? g.1 = some x → ∃ a, x.read g.1 g.2 = .ok a) ∧
            layer.Readable rest := List.forall_mem_cons
      rw [List.foldlM_cons, hreadable, and_assoc]
      cases hx : layer.setting? g.1 with
      | none =>
          have hstep : layer.step s g = .ok s := by rw [step, hx]
          have hnone : layer.assignment? g = none := by rw [assignment?, hx, Option.bind_none]
          rw [hstep, List.filterMap_cons_none hnone]
          show rest.foldlM layer.step s = .ok t ↔ _
          rw [ih]
          exact ⟨fun h => ⟨nofun, h⟩, fun h => h.2⟩
      | some x =>
          have hstep : layer.step s g = (x.read g.1 g.2).map (Assignment.apply s) := by
            rw [step, hx]
          have hsome : layer.assignment? g = (x.read g.1 g.2).toOption := by
            rw [assignment?, hx, Option.bind_some]
          cases hread : x.read g.1 g.2 with
          | error fault =>
              rw [hread] at hstep
              rw [hstep]
              refine ⟨nofun, fun h => ?_⟩
              obtain ⟨a, ha⟩ := h.1 x rfl
              rw [hread] at ha
              cases ha
          | ok a =>
              rw [hread] at hstep hsome
              rw [hstep, List.filterMap_cons_some hsome, List.foldl_cons]
              show rest.foldlM layer.step (a.apply s) = .ok t ↔ _
              rw [ih]
              refine ⟨fun h => ⟨fun y hy => ?_, h⟩, fun h => h.2⟩
              obtain rfl := Option.some.inj hy
              exact ⟨a, hread⟩

theorem applyVariables_eq (s : Settings) (environment : List (String × String)) :
    s.applyVariables environment = environment.foldlM Layer.environment.step s := by
  refine congrArg (environment.foldlM · s) (funext fun s => funext fun v => ?_)
  rw [step, setting?]
  cases Settings.settingOfVariable? v.1 with
  | none => rfl
  | some name => exact s.override_eq v.1 name v.2

theorem applyOptions_eq (s : Settings) (options : List (String × String)) :
    s.applyOptions options = options.foldlM Layer.options.step s :=
  congrArg (options.foldlM · s) (funext fun s => funext fun o => s.override_eq o.1 o.1 o.2)

-- ============================================================== values

theorem mem_valuesOf {a : Assignment} :
    a ∈ layer.valuesOf given x ↔ (∃ g ∈ given, layer.assignment? g = some a) ∧ a.setting = x := by
  rw [valuesOf, List.mem_filter, List.mem_filterMap, decide_eq_true_eq]

theorem valuesOf_append (given more : List (String × String)) (x : Setting) :
    layer.valuesOf (given ++ more) x = layer.valuesOf given x ++ layer.valuesOf more x := by
  rw [valuesOf, List.filterMap_append, List.filter_append]
  rfl

theorem valuesOf_perm (layer : Layer) {given' : List (String × String)} (h : given'.Perm given)
    (x : Setting) :
    (layer.valuesOf given' x).Perm (layer.valuesOf given x) :=
  (h.filterMap _).filter _

theorem valuesOf_eq_nil_iff (layer : Layer) {given' : List (String × String)}
    (h : given'.Perm given) (x : Setting) :
    layer.valuesOf given' x = [] ↔ layer.valuesOf given x = [] := by
  rw [← List.length_eq_zero_iff, ← List.length_eq_zero_iff, (valuesOf_perm layer h x).length_eq]

theorem Readable.of_perm {given' : List (String × String)} (h : layer.Readable given)
    (hperm : given'.Perm given) : layer.Readable given' :=
  fun g hg => h g (hperm.mem_iff.mp hg)

/-- The keys that do not give the picked value of their setting, and then those
that do. -/
def pickedLast (layer : Layer) (pick : Setting → Assignment) (given : List (String × String)) :
    List (String × String) :=
  given.filter (fun g => !(layer.assignment? g).any fun a => pick a.setting = a) ++
    given.filter fun g => (layer.assignment? g).any fun a => pick a.setting = a

theorem pickedLast_perm (layer : Layer) (pick : Setting → Assignment)
    (given : List (String × String)) : (layer.pickedLast pick given).Perm given :=
  List.perm_append_comm.trans (List.filter_append_perm _ given)

/-- The value that is picked for a setting can be its last. -/
theorem getLast?_valuesOf_pickedLast {pick : Setting → Assignment}
    (h : pick x ∈ layer.valuesOf given x) :
    (layer.valuesOf (layer.pickedLast pick given) x).getLast? = some (pick x) := by
  obtain ⟨⟨g, hg, hassigned⟩, hx⟩ := mem_valuesOf.mp h
  have hmem : pick x ∈ layer.valuesOf
      (given.filter fun g => (layer.assignment? g).any fun a => pick a.setting = a) x := by
    refine mem_valuesOf.mpr ⟨⟨g, List.mem_filter.mpr ⟨hg, ?_⟩, hassigned⟩, hx⟩
    rw [hassigned, Option.any_some, hx, decide_eq_true_eq]
  rw [pickedLast, valuesOf_append, List.getLast?_append_of_ne_nil _ (List.ne_nil_of_mem hmem),
    List.getLast?_eq_some_getLast (List.ne_nil_of_mem hmem)]
  have hlast := List.getLast_mem (List.ne_nil_of_mem hmem)
  obtain ⟨⟨g', hg', hassigned'⟩, hx'⟩ := mem_valuesOf.mp hlast
  have hpicked := (List.mem_filter.mp hg').2
  rw [hassigned', Option.any_some, hx', decide_eq_true_eq] at hpicked
  exact congrArg some hpicked.symm

end Layer

-- ============================================================== outcome

namespace Settings

variable {s t : Settings} {environment options environment' options' : List (String × String)}
  {x : Setting}

/-- The values that decide on a setting: those of the command line, or else those
of the environment, or else the one that it has already. -/
def deciding (s : Settings) (environment options : List (String × String)) (x : Setting) :
    List Assignment :=
  if Layer.options.valuesOf options x = [] then
    if Layer.environment.valuesOf environment x = [] then [s.value x]
    else Layer.environment.valuesOf environment x
  else Layer.options.valuesOf options x

theorem deciding_of_options (h : Layer.options.valuesOf options x ≠ []) :
    s.deciding environment options x = Layer.options.valuesOf options x :=
  if_neg h

theorem deciding_of_environment (h : Layer.options.valuesOf options x = [])
    (h' : Layer.environment.valuesOf environment x ≠ []) :
    s.deciding environment options x = Layer.environment.valuesOf environment x := by
  rw [deciding, if_pos h, if_neg h']

theorem deciding_of_none (h : Layer.options.valuesOf options x = [])
    (h' : Layer.environment.valuesOf environment x = []) :
    s.deciding environment options x = [s.value x] := by
  rw [deciding, if_pos h, if_pos h']

/-- Every key of both layers that names a setting has a value that can be read. -/
def Readable (environment options : List (String × String)) : Prop :=
  Layer.environment.Readable environment ∧ Layer.options.Readable options

/-- The assignments of both layers, in order. -/
def assigned (environment options : List (String × String)) : List Assignment :=
  environment.filterMap Layer.environment.assignment? ++
    options.filterMap Layer.options.assignment?

/-- The last of the values that decide is the one that a setting gets. -/
theorem getLast?_deciding (s : Settings) (environment options : List (String × String))
    (x : Setting) :
    (s.deciding environment options x).getLast?
      = some (((assigned environment options).foldl Assignment.apply s).value x) := by
  have hfilter : (assigned environment options).filter (·.setting = x)
      = Layer.environment.valuesOf environment x ++ Layer.options.valuesOf options x :=
    List.filter_append ..
  rw [value_foldl_apply, hfilter]
  by_cases habove : Layer.options.valuesOf options x = []
  · rw [habove, List.append_nil]
    by_cases hbelow : Layer.environment.valuesOf environment x = []
    · rw [deciding_of_none habove hbelow, hbelow]
      rfl
    · rw [deciding_of_environment habove hbelow, List.getLast?_eq_some_getLast hbelow]
      rfl
  · rw [deciding_of_options habove, List.getLast?_append_of_ne_nil _ habove,
      List.getLast?_eq_some_getLast habove]
    rfl

/-- A computation in two parts gives a result if both parts do. -/
theorem bind_eq_ok_iff {α β : Type} {first : Except Fault α} {next : α → Except Fault β} {b : β} :
    (first >>= next) = .ok b ↔ ∃ a, first = .ok a ∧ next a = .ok b := by
  cases first with
  | error fault => exact ⟨nofun, fun ⟨a, h, _⟩ => nomatch h⟩
  | ok a => exact ⟨fun h => ⟨a, rfl, h⟩, fun ⟨a', h, hb⟩ => Except.ok.inj h ▸ hb⟩

theorem toOption_eq_some_iff {α : Type} {answer : Except Fault α} {a : α} :
    answer.toOption = some a ↔ answer = .ok a := by
  cases answer with
  | error fault => exact ⟨nofun, nofun⟩
  | ok b =>
      show some b = some a ↔ _
      rw [Option.some_inj, Except.ok.injEq]

/-- Settings come out if everything can be read; then all assignments are made, and
what they come to has to be valid. -/
theorem layered_eq_ok_iff_assigned :
    s.layered environment options = .ok t
      ↔ Readable environment options ∧
        t = (assigned environment options).foldl Assignment.apply s ∧ ∀ x, (t.value x).Valid := by
  rw [assigned, List.foldl_append, layered, bind_eq_ok_iff]
  simp only [bind_eq_ok_iff, Layer.applyVariables_eq, Layer.applyOptions_eq,
    Layer.foldlM_step_eq_ok_iff, validate_eq_ok_iff]
  constructor
  · rintro ⟨s₁, ⟨henvironment, rfl⟩, s₂, ⟨hoptions, rfl⟩, rfl, hvalid⟩
    exact ⟨⟨henvironment, hoptions⟩, rfl, hvalid⟩
  · rintro ⟨⟨henvironment, hoptions⟩, rfl, hvalid⟩
    exact ⟨_, ⟨henvironment, rfl⟩, _, ⟨hoptions, rfl⟩, rfl, hvalid⟩

/-- The settings that come out have the last of the values that decide, and all of
them are valid. -/
theorem layered_eq_ok_iff :
    s.layered environment options = .ok t
      ↔ Readable environment options ∧
        (∀ x, (s.deciding environment options x).getLast? = some (t.value x)) ∧
        ∀ x, (t.value x).Valid := by
  rw [layered_eq_ok_iff_assigned]
  refine and_congr_right fun _ => and_congr_left fun _ => ⟨?_, fun hlast => ?_⟩
  · rintro rfl
    exact getLast?_deciding s environment options
  · refine ext_value fun x => Option.some.inj ?_
    rw [← hlast, getLast?_deciding]

/-- Settings come out as soon as everything can be read and the last of the values
that decide are valid. -/
theorem exists_layered_eq_ok {pick : Setting → Assignment} (hread : Readable environment options)
    (hlast : ∀ x, (s.deciding environment options x).getLast? = some (pick x))
    (hvalid : ∀ x, (pick x).Valid) :
    ∃ t, s.layered environment options = .ok t ∧ ∀ x, t.value x = pick x := by
  have hvalue (x : Setting) :
      ((assigned environment options).foldl Assignment.apply s).value x = pick x :=
    Option.some.inj ((getLast?_deciding s environment options x).symm.trans (hlast x))
  refine ⟨_, layered_eq_ok_iff_assigned.mpr ⟨hread, rfl, fun x => ?_⟩, hvalue⟩
  rw [hvalue]
  exact hvalid x

-- ================================================================ order

/-- The order of the layers does not matter for which values decide. -/
theorem deciding_perm (henvironment : environment'.Perm environment)
    (hoptions : options'.Perm options) (s : Settings) (x : Setting) :
    (s.deciding environment' options' x).Perm (s.deciding environment options x) := by
  have habove := Layer.valuesOf_eq_nil_iff .options hoptions x
  have hbelow := Layer.valuesOf_eq_nil_iff .environment henvironment x
  by_cases h : Layer.options.valuesOf options x = []
  · by_cases h' : Layer.environment.valuesOf environment x = []
    · rw [deciding_of_none h h', deciding_of_none (habove.mpr h) (hbelow.mpr h')]
    · rw [deciding_of_environment h h', deciding_of_environment (habove.mpr h) (mt hbelow.mp h')]
      exact Layer.valuesOf_perm .environment henvironment x
  · rw [deciding_of_options h, deciding_of_options (mt habove.mp h)]
    exact Layer.valuesOf_perm .options hoptions x

/-- For every setting any one of the values that decide can be the last. -/
theorem exists_perm_deciding {pick : Setting → Assignment}
    (hpick : ∀ x, pick x ∈ s.deciding environment options x) :
    ∃ environment' options', environment'.Perm environment ∧ options'.Perm options ∧
      ∀ x, (s.deciding environment' options' x).getLast? = some (pick x) := by
  have henvironment := Layer.pickedLast_perm .environment pick environment
  have hoptions := Layer.pickedLast_perm .options pick options
  refine ⟨_, _, henvironment, hoptions, fun x => ?_⟩
  have habove := Layer.valuesOf_eq_nil_iff .options hoptions x
  have hbelow := Layer.valuesOf_eq_nil_iff .environment henvironment x
  have hx := hpick x
  by_cases h : Layer.options.valuesOf options x = []
  · by_cases h' : Layer.environment.valuesOf environment x = []
    · rw [deciding_of_none h h', List.mem_singleton] at hx
      rw [deciding_of_none (habove.mpr h) (hbelow.mpr h'), hx]
      rfl
    · rw [deciding_of_environment h h'] at hx
      rw [deciding_of_environment (habove.mpr h) (mt hbelow.mp h')]
      exact Layer.getLast?_valuesOf_pickedLast hx
  · rw [deciding_of_options h] at hx
    rw [deciding_of_options (mt habove.mp h)]
    exact Layer.getLast?_valuesOf_pickedLast hx

/-- The values that decide on a setting agree. -/
def Agreed (s : Settings) (environment options : List (String × String)) : Prop :=
  ∀ x, ∀ a ∈ s.deciding environment options x, ∀ b ∈ s.deciding environment options x, a = b

/-- A value cannot be read, or none that decides on some setting is valid. -/
def Refused (s : Settings) (environment options : List (String × String)) : Prop :=
  ¬ Readable environment options ∨ ∃ x, ∀ a ∈ s.deciding environment options x, ¬ a.Valid

theorem Readable.of_perm (h : Readable environment options)
    (henvironment : environment'.Perm environment) (hoptions : options'.Perm options) :
    Readable environment' options' :=
  ⟨Layer.Readable.of_perm h.1 henvironment, Layer.Readable.of_perm h.2 hoptions⟩

theorem Refused.of_perm (h : s.Refused environment options)
    (henvironment : environment'.Perm environment) (hoptions : options'.Perm options) :
    s.Refused environment' options' := by
  rcases h with hunreadable | ⟨x, hx⟩
  · exact Or.inl fun hread => hunreadable (hread.of_perm henvironment.symm hoptions.symm)
  · exact Or.inr ⟨x, fun a ha => hx a ((deciding_perm henvironment hoptions s x).mem_iff.mp ha)⟩

theorem Refused.toOption_eq (h : s.Refused environment options) :
    (s.layered environment options).toOption = none := by
  cases hrun : s.layered environment options with
  | error fault => rfl
  | ok t =>
      obtain ⟨hread, hlast, hvalid⟩ := layered_eq_ok_iff.mp hrun
      rcases h with hunreadable | ⟨x, hx⟩
      · exact absurd hread hunreadable
      · exact absurd (hvalid x) (hx _ (List.mem_of_getLast? (hlast x)))

/-- All orders of the layers come to the same settings, or all are refused, exactly
if the values that decide agree or every order is refused. -/
theorem layered_perm_iff (s : Settings) (environment options : List (String × String)) :
    (∀ environment' options', environment'.Perm environment → options'.Perm options →
        (s.layered environment' options').toOption = (s.layered environment options).toOption)
      ↔ s.Agreed environment options ∨ s.Refused environment options := by
  constructor
  · intro hsame
    refine or_iff_not_imp_right.mpr fun haccepted x a ha b hb => ?_
    obtain ⟨hread, hsome⟩ := not_or.mp haccepted
    rw [not_not] at hread
    have hchoice (x : Setting) : ∃ v ∈ s.deciding environment options x, v.Valid := by
      refine Classical.byContradiction fun hnone => hsome ⟨x, fun a ha hvalid => ?_⟩
      exact hnone ⟨a, ha, hvalid⟩
    choose valid hvalid using hchoice
    -- some order is accepted, so all of them come to what it comes to
    obtain ⟨e₁, o₁, he₁, ho₁, hlast₁⟩ := exists_perm_deciding fun x => (hvalid x).1
    obtain ⟨t, hrun₁, -⟩ := exists_layered_eq_ok (hread.of_perm he₁ ho₁) hlast₁
      fun x => (hvalid x).2
    have ht := hsame e₁ o₁ he₁ ho₁
    rw [hrun₁] at ht
    have hvalue {c : Assignment} (hc : c ∈ s.deciding environment options x) :
        c = t.value x := by
      have hpick (y : Setting) : Function.update valid x c y
          ∈ s.deciding environment options y := by
        by_cases hy : y = x
        · rw [hy, Function.update_self]
          exact hc
        · rw [Function.update_of_ne hy]
          exact (hvalid y).1
      obtain ⟨e₂, o₂, he₂, ho₂, hlast₂⟩ := exists_perm_deciding hpick
      have hrun₂ := toOption_eq_some_iff.mp ((hsame e₂ o₂ he₂ ho₂).trans ht.symm)
      have hx := (layered_eq_ok_iff.mp hrun₂).2.1 x
      rw [hlast₂, Function.update_self] at hx
      exact Option.some.inj hx
    rw [hvalue ha, hvalue hb]
  · rintro (hagreed | hrefused) environment' options' henvironment hoptions
    · have hlast (x : Setting) : (s.deciding environment' options' x).getLast?
          = (s.deciding environment options x).getLast? := by
        rw [getLast?_deciding, getLast?_deciding]
        have hmem := List.mem_of_getLast? (getLast?_deciding s environment' options' x)
        exact congrArg some (hagreed x _ ((deciding_perm henvironment hoptions s x).mem_iff.mp hmem)
          _ (List.mem_of_getLast? (getLast?_deciding s environment options x)))
      refine Option.ext fun t => ?_
      have hread : Readable environment' options' ↔ Readable environment options :=
        ⟨fun h => h.of_perm henvironment.symm hoptions.symm,
          fun h => h.of_perm henvironment hoptions⟩
      simp only [toOption_eq_some_iff, layered_eq_ok_iff, hread, hlast]
    · rw [hrefused.toOption_eq, (hrefused.of_perm henvironment hoptions).toOption_eq]

/-- Two variables give the configuration files different names. Their names differ,
but both name the one setting, and the variable that comes last counts. -/
theorem layered_of_two_names :
    let a := ("LOCUS_TSCONFIG", "a.json")
    let b := ("LOCUS_TSCONFIG_FILES", "b.json")
    (standard.layered [a, b] []).toOption = some { standard with configFiles := ["b.json"] } ∧
      (standard.layered [b, a] []).toOption = some { standard with configFiles := ["a.json"] } ∧
      ¬ ∀ (s : Settings) (environment options environment' options' : List (String × String)),
        (environment.map Prod.fst).Nodup → (options.map Prod.fst).Nodup →
        environment'.Perm environment → options'.Perm options →
          (s.layered environment' options').toOption
            = (s.layered environment options).toOption := by
  intro a b
  have hab : (standard.layered [a, b] []).toOption
      = some { standard with configFiles := ["b.json"] } := by decide +kernel
  have hba : (standard.layered [b, a] []).toOption
      = some { standard with configFiles := ["a.json"] } := by decide +kernel
  refine ⟨hab, hba, fun hall => ?_⟩
  have hsame := hall standard [a, b] [] [b, a] [] (by decide) List.nodup_nil
    (List.Perm.swap ..) (List.Perm.refl _)
  rw [hab, hba] at hsame
  exact absurd hsame (by decide)

end Settings

end ImportResolution
