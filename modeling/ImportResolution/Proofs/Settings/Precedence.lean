/-
Which layer a setting comes from: the command line, where it names the setting,
or else the environment, or else the settings that there were before.

# Spellings of a name

A command line names a setting by one of its names (`Setting.names`), an
environment by a variable with the common start and then a spelling of such a
name, in letters of either case and with dashes of either kind
(`Layer.Names`). Where no layer names a setting by two keys there is at most one
text for it in each (`Layer.textFor?`), and `merged` is built from these five
pairs of texts, one setting at a time. What comes out is `merged`, as soon as
every text for a truth value is one and the whole is valid
(`layered_eq_merged`).
-/
import ImportResolution.Proofs.Settings.Overrides
import ImportResolution.Proofs.Text.Segments
import Mathlib.Data.List.Forall2

namespace ImportResolution

-- ================================================================ names

namespace Setting

/-- The names of a setting. -/
def names : Setting → List String
  | .installedDirectory => ["installed-dir"]
  | .configFiles => ["tsconfig", "tsconfig-files"]
  | .extraBuiltins => ["extra-builtins"]
  | .languageFallback => ["language-fallback"]
  | .runtimeFallback => ["runtime-fallback"]

theorem ofName?_eq_some_iff {name : String} {x : Setting} :
    ofName? name = some x ↔ name ∈ x.names := by
  constructor
  · intro h
    unfold ofName? at h
    repeat' split at h
    all_goals cases h
    all_goals simp_all [names]
  · cases x with
    | configFiles =>
        intro h
        rcases List.mem_pair.mp h with rfl | rfl <;> decide
    | _ =>
        intro h
        obtain rfl := List.mem_singleton.mp h
        decide

/-- Small letters and dashes, by their numbers. -/
def IsNameChar (d : Char) : Prop :=
  (97 ≤ d.toNat ∧ d.toNat ≤ 122) ∨ d.toNat = 45

instance (d : Char) : Decidable (IsNameChar d) := inferInstanceAs (Decidable (_ ∨ _))

theorem isNameChar_of_mem_names {x : Setting} {name : String} (h : name ∈ x.names) :
    ∀ d ∈ name.toList, IsNameChar d := by
  have hall : ∀ x : Setting, x.names.all fun name => name.toList.all (decide <| IsNameChar ·) := by
    intro x
    cases x <;> decide
  intro d hd
  exact of_decide_eq_true (List.all_eq_true.mp (List.all_eq_true.mp (hall x) name h) d hd)

/-- The settings that are switched on or off. -/
def isSwitch : Setting → Bool
  | .languageFallback | .runtimeFallback => true
  | _ => false

end Setting

namespace Layer

/-- A character of a variable's name spells one of a setting's name: the same
letter in either case, or a dash of either kind. The Kelvin sign is a capital of
the letter k. -/
def Spells (c d : Char) : Prop :=
  c = d ∨ c = d.toUpper ∨ (c = '_' ∧ d = '-') ∨ (c = '\u212A' ∧ d = 'k')

theorem toNat_toLower (c : Char) :
    c.toLower.toNat = if 65 ≤ c.toNat ∧ c.toNat ≤ 90 then c.toNat + 32 else c.toNat := by
  have hcapital : (c.val ≥ 'A'.val ∧ c.val ≤ 'Z'.val) ↔ (65 ≤ c.toNat ∧ c.toNat ≤ 90) := Iff.rfl
  unfold Char.toLower
  by_cases h : 65 ≤ c.toNat ∧ c.toNat ≤ 90
  · rw [dif_pos (hcapital.mpr h), if_pos h]
    show (c.val + 32).toNat = c.val.toNat + 32
    have hle : c.val.toNat ≤ 90 := h.2
    rw [UInt32.toNat_add]
    simp
    omega
  · rw [dif_neg (hcapital.not.mpr h), if_neg h]

theorem toNat_toUpper (c : Char) :
    c.toUpper.toNat = if 97 ≤ c.toNat ∧ c.toNat ≤ 122 then c.toNat - 32 else c.toNat := by
  have hsmall : ('a'.val ≤ c.val ∧ c.val ≤ 'z'.val) ↔ (97 ≤ c.toNat ∧ c.toNat ≤ 122) := Iff.rfl
  unfold Char.toUpper
  by_cases h : 97 ≤ c.toNat ∧ c.toNat ≤ 122
  · rw [dif_pos (hsmall.mpr h), if_pos h]
    show (c.val + ('A'.val - 'a'.val)).toNat = c.val.toNat - 32
    have hle : c.val.toNat ≤ 122 := h.2
    have hge : 97 ≤ c.val.toNat := h.1
    rw [UInt32.toNat_add]
    simp
    omega
  · rw [dif_neg (hsmall.not.mpr h), if_neg h]

/-- Small letters and dashes are read from their spellings and from nothing else. -/
theorem settingChar_eq_iff {c d : Char} (hd : Setting.IsNameChar d) :
    Settings.settingChar c = d ↔ Spells c d := by
  have hext (a b : Char) : a = b ↔ a.toNat = b.toNat :=
    ⟨congrArg Char.toNat, Char.toNat_inj.mp⟩
  have hunderscore : '_'.toNat = 95 := rfl
  have hdash : '-'.toNat = 45 := rfl
  have hkelvin : '\u212A'.toNat = 8490 := rfl
  have hk : 'k'.toNat = 107 := rfl
  unfold Setting.IsNameChar at hd
  unfold Settings.settingChar Spells
  simp only [hext, toNat_toUpper]
  rw [hunderscore, hdash, hkelvin, hk]
  split
  · rw [hdash]
    split <;> omega
  · split
    · rw [hk]
      split <;> omega
    · rw [toNat_toLower]
      split <;> split <;> omega

theorem map_settingChar_eq_iff {spelling name : List Char}
    (hname : ∀ d ∈ name, Setting.IsNameChar d) :
    spelling.map Settings.settingChar = name ↔ List.Forall₂ Spells spelling name := by
  induction spelling generalizing name with
  | nil =>
      rw [List.map_nil, List.forall₂_nil_left_iff]
      exact eq_comm
  | cons c spelling ih =>
      cases name with
      | nil => simp
      | cons d name =>
          rw [List.map_cons, List.cons.injEq, List.forall₂_cons,
            settingChar_eq_iff (hname d List.mem_cons_self),
            ih fun d hd => hname d (List.mem_cons_of_mem _ hd)]

/-- The keys of a layer that name a setting. -/
def Names : Layer → String → Setting → Prop
  | .options, key, x => key ∈ x.names
  | .environment, key, x => ∃ name ∈ x.names, ∃ spelling,
      key.toList = "LOCUS_".toList ++ spelling ∧ List.Forall₂ Spells spelling name.toList

theorem setting?_eq_some_iff {layer : Layer} {key : String} {x : Setting} :
    layer.setting? key = some x ↔ layer.Names key x := by
  cases layer with
  | options => exact Setting.ofName?_eq_some_iff
  | environment =>
      have hvariable {name : String} : Settings.settingOfVariable? key = some name
          ↔ ∃ spelling, key.toList = "LOCUS_".toList ++ spelling ∧
            spelling.map Settings.settingChar = name.toList := by
        unfold Settings.settingOfVariable? Text.dropStart? Settings.variableStart
        simp only [Option.map_map, Option.map_eq_some_iff, Text.afterStart?_eq_some_iff,
          Function.comp_apply, String.toList_ofList, ← String.toList_inj]
      show (Settings.settingOfVariable? key).bind Setting.ofName? = some x ↔ _
      rw [Option.bind_eq_some_iff]
      constructor
      · rintro ⟨name, hname, hx⟩
        obtain ⟨spelling, hkey, hspelling⟩ := hvariable.mp hname
        have hmem := Setting.ofName?_eq_some_iff.mp hx
        exact ⟨name, hmem, spelling, hkey,
          (map_settingChar_eq_iff (Setting.isNameChar_of_mem_names hmem)).mp hspelling⟩
      · rintro ⟨name, hmem, spelling, hkey, hspelling⟩
        refine ⟨name, hvariable.mpr ⟨spelling, hkey, ?_⟩, Setting.ofName?_eq_some_iff.mpr hmem⟩
        exact (map_settingChar_eq_iff (Setting.isNameChar_of_mem_names hmem)).mpr hspelling

instance (layer : Layer) (key : String) (x : Setting) : Decidable (layer.Names key x) :=
  decidable_of_iff _ setting?_eq_some_iff

/-- The keys that name some setting. -/
def Knows (layer : Layer) (key : String) : Prop := ∃ x, layer.Names key x

theorem isSome_setting?_iff {layer : Layer} {key : String} :
    (layer.setting? key).isSome = true ↔ layer.Knows key := by
  rw [Option.isSome_iff_exists]
  exact exists_congr fun x => setting?_eq_some_iff

instance (layer : Layer) (key : String) : Decidable (layer.Knows key) :=
  decidable_of_iff _ isSome_setting?_iff

end Layer

-- ================================================================ texts

namespace Settings

/-- The truth value that a text spells. -/
def switchIn? (text : String) : Option Bool :=
  flag? (Text.lowerBasic (Text.trim text))

end Settings

namespace Setting

/-- What a text says for a setting. -/
def decode? (text : String) : Setting → Option Assignment
  | .installedDirectory => some (.installedDirectory text)
  | .configFiles => some (.configFiles (Settings.listOf text))
  | .extraBuiltins => some (.extraBuiltins (Settings.listOf text))
  | .languageFallback => (Settings.switchIn? text).map .languageFallback
  | .runtimeFallback => (Settings.switchIn? text).map .runtimeFallback

theorem toOption_read (x : Setting) (origin text : String) :
    (x.read origin text).toOption = x.decode? text := by
  have hflag (f : Bool → Assignment) : ((Settings.flagOf origin text).map f).toOption
      = (Settings.switchIn? text).map f := by
    unfold Settings.flagOf Settings.switchIn?
    dsimp only
    cases Settings.flag? (Text.lowerBasic (Text.trim text)) <;> rfl
  cases x with
  | languageFallback => exact hflag .languageFallback
  | runtimeFallback => exact hflag .runtimeFallback
  | _ => rfl

/-- Only a text for a switch can be without meaning. -/
theorem exists_read_iff {x : Setting} {origin text : String} :
    (∃ a, x.read origin text = .ok a)
      ↔ (x.isSwitch = true → (Settings.switchIn? text).isSome = true) := by
  have hread : (∃ a, x.read origin text = .ok a) ↔ (x.decode? text).isSome = true := by
    rw [← toOption_read x origin, Option.isSome_iff_exists]
    exact exists_congr fun a => Settings.toOption_eq_some_iff.symm
  rw [hread]
  cases x <;> simp [decode?, isSwitch]

end Setting

namespace Layer

variable {layer : Layer} {given : List (String × String)} {x : Setting}

/-- A layer is a map, and no setting is named by two of its keys. -/
structure Unambiguous (layer : Layer) (given : List (String × String)) : Prop where
  nodup : (given.map Prod.fst).Nodup
  one_key : ∀ g ∈ given, ∀ h ∈ given, ∀ x,
    layer.Names g.1 x → layer.Names h.1 x → g.1 = h.1

/-- Every text that a layer gives for a switch spells a truth value. -/
def SwitchesRead (layer : Layer) (given : List (String × String)) : Prop :=
  ∀ g ∈ given, ∀ x : Setting, x.isSwitch = true → layer.Names g.1 x →
    (Settings.switchIn? g.2).isSome = true

/-- The text that a layer gives for a setting. -/
def textFor? (layer : Layer) (given : List (String × String)) (x : Setting) : Option String :=
  (given.find? fun g => layer.Names g.1 x).map Prod.snd

theorem readable_iff : layer.Readable given ↔ layer.SwitchesRead given := by
  unfold Readable SwitchesRead
  simp only [setting?_eq_some_iff, Setting.exists_read_iff]
  exact ⟨fun h g hg x hx hn => h g hg x hn hx, fun h g hg x hn hx => h g hg x hx hn⟩

theorem Unambiguous.tail {g : String × String} (h : layer.Unambiguous (g :: given)) :
    layer.Unambiguous given where
  nodup := (List.nodup_cons.mp h.nodup).2
  one_key a ha b hb :=
    h.one_key a (List.mem_cons_of_mem _ ha) b (List.mem_cons_of_mem _ hb)

/-- Below a key that names a setting nothing else does. -/
theorem Unambiguous.not_names {g : String × String} (h : layer.Unambiguous (g :: given))
    (hx : layer.Names g.1 x) : ∀ b ∈ given, ¬ layer.Names b.1 x := by
  intro b hb hbx
  have hkey := h.one_key g List.mem_cons_self b (List.mem_cons_of_mem _ hb) x hx hbx
  exact (List.nodup_cons.mp h.nodup).1 (hkey ▸ List.mem_map_of_mem hb)

theorem valuesOf_eq_nil (h : ∀ b ∈ given, ¬ layer.Names b.1 x) : layer.valuesOf given x = [] := by
  refine List.eq_nil_iff_forall_not_mem.mpr fun a ha => ?_
  obtain ⟨⟨b, hb, hassigned⟩, hax⟩ := mem_valuesOf.mp ha
  obtain ⟨y, hy, hread⟩ := Option.bind_eq_some_iff.mp hassigned
  have hay := Setting.setting_of_read (Settings.toOption_eq_some_iff.mp hread)
  exact h b hb (setting?_eq_some_iff.mp (hax ▸ hay ▸ hy))

/-- A layer that names each setting once has one value for it, if the text for it
has a meaning. -/
theorem Unambiguous.valuesOf_eq (h : layer.Unambiguous given) (x : Setting) :
    layer.valuesOf given x = ((layer.textFor? given x).bind x.decode?).toList := by
  induction given with
  | nil => rfl
  | cons g given ih =>
      have hcons : layer.valuesOf (g :: given) x = layer.valuesOf [g] x ++ layer.valuesOf given x :=
        valuesOf_append [g] given x
      by_cases hx : layer.Names g.1 x
      · have htext : layer.textFor? (g :: given) x = some g.2 := by
          rw [textFor?, List.find?_cons_of_pos (by simpa using hx), Option.map_some]
        have hassigned : layer.assignment? g = x.decode? g.2 := by
          rw [assignment?, setting?_eq_some_iff.mpr hx, Option.bind_some, Setting.toOption_read]
        rw [hcons, valuesOf_eq_nil (h.not_names hx), List.append_nil, htext, Option.bind_some,
          valuesOf]
        cases ha : x.decode? g.2 with
        | none => rw [List.filterMap_cons_none (hassigned.trans ha)]; rfl
        | some a =>
            have hax : a.setting = x := Setting.setting_of_read
              (Settings.toOption_eq_some_iff.mp ((x.toOption_read g.1 g.2).trans ha))
            rw [List.filterMap_cons_some (hassigned.trans ha)]
            simp [hax]
      · have htext : layer.textFor? (g :: given) x = layer.textFor? given x := by
          rw [textFor?, List.find?_cons_of_neg (by simpa using hx)]
          rfl
        have hnone : layer.valuesOf [g] x = [] :=
          valuesOf_eq_nil fun b hb => List.mem_singleton.mp hb ▸ hx
        rw [hcons, hnone, List.nil_append, htext, ih h.tail]

/-- A text for a setting has a meaning where all switches do. -/
theorem SwitchesRead.exists_decode {text : String} (h : layer.SwitchesRead given)
    (htext : layer.textFor? given x = some text) : ∃ a, x.decode? text = some a := by
  obtain ⟨g, hg, rfl⟩ := Option.map_eq_some_iff.mp htext
  have hx : layer.Names g.1 x := by simpa using List.find?_some hg
  obtain ⟨a, ha⟩ := readable_iff.mpr h g (List.mem_of_find?_eq_some hg) x
    (setting?_eq_some_iff.mpr hx)
  exact ⟨a, by rw [← x.toOption_read g.1, ha]; rfl⟩

theorem step_of_not_knows {s : Settings} {g : String × String} (h : ¬ layer.Knows g.1) :
    layer.step s g = .ok s := by
  have hnone : layer.setting? g.1 = none := by
    rw [← Option.not_isSome_iff_eq_none, isSome_setting?_iff]
    exact h
  rw [step, hnone]

/-- Keys that name no setting change nothing, not even how a layer fails. -/
theorem foldlM_step_filter (given : List (String × String)) (s : Settings) :
    (given.filter fun g => layer.Knows g.1).foldlM layer.step s = given.foldlM layer.step s := by
  induction given generalizing s with
  | nil => rfl
  | cons g given ih =>
      by_cases hg : layer.Knows g.1
      · rw [List.filter_cons_of_pos (by simpa using hg), List.foldlM_cons, List.foldlM_cons]
        exact congrArg (layer.step s g >>= ·) (funext fun t => ih t)
      · rw [List.filter_cons_of_neg (by simpa using hg), ih, List.foldlM_cons,
          step_of_not_knows hg]
        rfl

end Layer

-- ============================================================== outcome

namespace Settings

variable {environment options : List (String × String)}

/-- The text that decides on a setting: that of the command line, or else that of
the environment. -/
def textFor? (environment options : List (String × String)) (x : Setting) : Option String :=
  (Layer.options.textFor? options x).or (Layer.environment.textFor? environment x)

/-- The settings with each one for itself as its text says, where there is one. -/
def merged (s : Settings) (environment options : List (String × String)) : Settings where
  installedDirectory := (textFor? environment options .installedDirectory).getD s.installedDirectory
  configFiles := ((textFor? environment options .configFiles).map listOf).getD s.configFiles
  extraBuiltins := ((textFor? environment options .extraBuiltins).map listOf).getD s.extraBuiltins
  languageFallback :=
    ((textFor? environment options .languageFallback).bind switchIn?).getD s.languageFallback
  runtimeFallback :=
    ((textFor? environment options .runtimeFallback).bind switchIn?).getD s.runtimeFallback

theorem value_merged (s : Settings) (environment options : List (String × String)) (x : Setting) :
    (s.merged environment options).value x
      = ((textFor? environment options x).bind x.decode?).getD (s.value x) := by
  have hswitch (f : Bool → Assignment) (text : Option String) (on : Bool) :
      f ((text.bind switchIn?).getD on)
        = (text.bind fun text => (switchIn? text).map f).getD (f on) := by
    cases text with
    | none => rfl
    | some text =>
        rw [Option.bind_some, Option.bind_some]
        cases switchIn? text <;> rfl
  cases x with
  | installedDirectory =>
      show Assignment.installedDirectory ((textFor? environment options _).getD _) = _
      cases textFor? environment options .installedDirectory <;> rfl
  | configFiles =>
      show Assignment.configFiles (((textFor? environment options _).map listOf).getD _) = _
      cases textFor? environment options .configFiles <;> rfl
  | extraBuiltins =>
      show Assignment.extraBuiltins (((textFor? environment options _).map listOf).getD _) = _
      cases textFor? environment options .extraBuiltins <;> rfl
  | languageFallback => exact hswitch .languageFallback _ _
  | runtimeFallback => exact hswitch .runtimeFallback _ _

/-- Where the layers are unambiguous and their switches can be read, the value that
decides is the one that is merged in. -/
theorem getLast?_deciding_eq_value_merged (s : Settings)
    (henvironment : Layer.environment.Unambiguous environment)
    (hoptions : Layer.options.Unambiguous options)
    (hbelow : Layer.environment.SwitchesRead environment)
    (habove : Layer.options.SwitchesRead options) (x : Setting) :
    (s.deciding environment options x).getLast?
      = some ((s.merged environment options).value x) := by
  rw [value_merged, textFor?, deciding, hoptions.valuesOf_eq, henvironment.valuesOf_eq]
  cases ho : Layer.options.textFor? options x with
  | some text =>
      obtain ⟨a, ha⟩ := habove.exists_decode ho
      rw [Option.some_or, Option.bind_some, ha]
      rfl
  | none =>
      rw [Option.none_or, Option.bind_none, Option.toList_none, if_pos rfl]
      cases he : Layer.environment.textFor? environment x with
      | some text =>
          obtain ⟨a, ha⟩ := hbelow.exists_decode he
          rw [Option.bind_some, ha]
          rfl
      | none => rfl

theorem layered_filter (s : Settings) (environment options : List (String × String)) :
    s.layered (environment.filter fun v => Layer.environment.Knows v.1)
        (options.filter fun o => Layer.options.Knows o.1)
      = s.layered environment options := by
  unfold layered
  simp only [Layer.applyVariables_eq, Layer.applyOptions_eq, Layer.foldlM_step_filter]

/-- Where no layer names a setting by two keys, settings come out exactly if every
text for a switch, of either layer, spells a truth value and the merged settings
are valid, and then they are the merged settings. Keys that name no setting can be
left out. -/
theorem layered_eq_merged (s : Settings)
    (henvironment : Layer.environment.Unambiguous environment)
    (hoptions : Layer.options.Unambiguous options) :
    ((∃ t, s.layered environment options = .ok t)
        ↔ (Layer.environment.SwitchesRead environment ∧ Layer.options.SwitchesRead options) ∧
          (s.merged environment options).validate = .ok (s.merged environment options)) ∧
      (∀ t, s.layered environment options = .ok t → t = s.merged environment options) ∧
      s.layered (environment.filter fun v => Layer.environment.Knows v.1)
          (options.filter fun o => Layer.options.Knows o.1)
        = s.layered environment options := by
  have hread : Readable environment options
      ↔ Layer.environment.SwitchesRead environment ∧ Layer.options.SwitchesRead options :=
    and_congr Layer.readable_iff Layer.readable_iff
  have hmerged {t : Settings} (h : s.layered environment options = .ok t) :
      t = s.merged environment options := by
    obtain ⟨hreadable, hlast, -⟩ := layered_eq_ok_iff.mp h
    obtain ⟨hbelow, habove⟩ := hread.mp hreadable
    refine ext_value fun x => Option.some.inj ?_
    rw [← hlast, getLast?_deciding_eq_value_merged s henvironment hoptions hbelow habove]
  refine ⟨⟨?_, ?_⟩, fun t => hmerged, layered_filter s environment options⟩
  · rintro ⟨t, h⟩
    obtain ⟨hreadable, -, hvalid⟩ := layered_eq_ok_iff.mp h
    rw [← hmerged h]
    exact ⟨hread.mp hreadable, validate_eq_ok_iff.mpr ⟨rfl, hvalid⟩⟩
  · rintro ⟨⟨hbelow, habove⟩, hvalid⟩
    obtain ⟨t, h, -⟩ := exists_layered_eq_ok (hread.mpr ⟨hbelow, habove⟩)
      (getLast?_deciding_eq_value_merged s henvironment hoptions hbelow habove)
      (validate_eq_ok_iff.mp hvalid).2
    exact ⟨t, h⟩

/-- The environment names two settings and the command line one of them again. What
neither names stays as it was. -/
theorem layered_eq_merged_of_both :
    let environment := [("LOCUS_Tsconfig-Files", "a.json, b.json"),
      ("LOCUS_RUNTIME_FALLBACK", " On "), ("PATH", "/bin")]
    let options := [("runtime-fallback", "no"), ("colour", "never")]
    Layer.environment.Unambiguous environment ∧ Layer.options.Unambiguous options ∧
      standard.layered environment options
        = .ok { standard with configFiles := ["a.json", "b.json"], runtimeFallback := false } := by
  intro environment options
  have henvironment : Layer.environment.Unambiguous environment := by
    refine ⟨by decide, fun g hg h hh x => ?_⟩
    revert g h
    cases x <;> decide +kernel
  have hoptions : Layer.options.Unambiguous options := by
    refine ⟨by decide, fun g hg h hh x => ?_⟩
    revert g h
    cases x <;> decide +kernel
  have hbelow : Layer.environment.SwitchesRead environment := by
    intro g hg x
    revert g
    cases x <;> decide +kernel
  have habove : Layer.options.SwitchesRead options := by
    intro g hg x
    revert g
    cases x <;> decide +kernel
  have hmerged : standard.merged environment options
      = { standard with configFiles := ["a.json", "b.json"], runtimeFallback := false } := by
    decide +kernel
  obtain ⟨hsucceeds, hunique, -⟩ := layered_eq_merged standard henvironment hoptions
  obtain ⟨t, ht⟩ := hsucceeds.mpr ⟨⟨hbelow, habove⟩, by rw [hmerged]; rfl⟩
  refine ⟨henvironment, hoptions, ?_⟩
  rw [ht, hunique t ht, hmerged]

end Settings

end ImportResolution
