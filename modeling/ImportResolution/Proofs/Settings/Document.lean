/-
Valid settings are read back from the document they are written as.

The document has one header and one line for each setting, in the order of the
fields. What the reader has after each line is known (`Toml.lines_keyValue`), and
each item it has built is read as the value it was written for; so the five items
together give the settings, which are valid still.
-/
import ImportResolution.Settings.Document
import ImportResolution.Proofs.Toml.Document

namespace ImportResolution.Settings

open Toml (Item Key Place Progress ReadsAs)

-- =============================================================== values

theorem textOf_of_isText {s : String} {item : Item} (h : item.IsText s) (fallback : Place) :
    textOf fallback item = .ok s := by
  obtain ⟨place, rfl⟩ := h
  rfl

theorem truthOf_of_isTruth {b : Bool} {item : Item} (h : item.IsTruth b) (fallback : Place) :
    truthOf fallback item = .ok b := by
  obtain ⟨place, rfl⟩ := h
  rfl

theorem textsOf_of_isTexts {texts : List String} {item : Item} (h : item.IsTexts texts)
    (fallback : Place) : textsOf fallback item = .ok texts := by
  obtain ⟨place, items, rfl, hitems⟩ := h
  show items.mapM (textOf fallback) = .ok texts
  induction hitems with
  | nil => rfl
  | cons hitem _ ih =>
      rw [List.mapM_cons, textOf_of_isText hitem, ih]
      rfl

theorem readsAs_writtenList (texts : List String) :
    ReadsAs (writtenList texts) (Item.IsTexts texts) := by
  match texts with
  | [] => exact Toml.readsAs_nil
  | [s] => exact Toml.readsAs_single s
  | s :: t :: texts => exact Toml.readsAs_lines s (t :: texts)

-- ============================================================= document

/-- The lines of the settings. -/
def entries (s : Settings) : List Toml.Entry :=
  [⟨"installed-dir", Toml.written s.installedDirectory, Item.IsText s.installedDirectory,
      by decide, by decide, Toml.readsAs_written s.installedDirectory⟩,
    ⟨"tsconfig-files", writtenList s.configFiles, Item.IsTexts s.configFiles,
      by decide, by decide, readsAs_writtenList s.configFiles⟩,
    ⟨"extra-builtins", writtenList s.extraBuiltins, Item.IsTexts s.extraBuiltins,
      by decide, by decide, readsAs_writtenList s.extraBuiltins⟩,
    ⟨"language-fallback", Json.truth s.languageFallback, Item.IsTruth s.languageFallback,
      by decide, by decide, Toml.readsAs_truth s.languageFallback⟩,
    ⟨"runtime-fallback", Json.truth s.runtimeFallback, Item.IsTruth s.runtimeFallback,
      by decide, by decide, Toml.readsAs_truth s.runtimeFallback⟩]

theorem names_entries (s : Settings) : (entries s).map Toml.Entry.name = keys := rfl

theorem toList_toText (s : Settings) :
    s.toText.toList = '[' :: ("resolver".toList ++ ']' :: '\n' ::
      ((entries s).flatMap Toml.Entry.line ++ [])) := by
  have hheader : "[resolver]\n".toList = '[' :: ("resolver".toList ++ [']', '\n']) := by decide
  unfold toText
  simp only [String.toList_ofList, hheader, entries, List.flatMap_cons, List.flatMap_nil,
    Toml.Entry.line, writtenLine, List.append_assoc, List.cons_append, List.nil_append,
    List.append_nil]

theorem document_toText (s : Settings) : ∃ header start more,
    Toml.document s.toText.toList = .ok (Progress.below header start more).document ∧
      header.text = "resolver" ∧ List.Forall₂ Toml.Entry.Gives (entries s) more := by
  have hne : "resolver".toList ≠ [] := by decide
  obtain ⟨place, start, hheader⟩ := Toml.lines_header hne (List.all_eq_true.mp rfl)
    ((entries s).flatMap Toml.Entry.line ++ [])
  rw [String.ofList_toList] at hheader
  obtain ⟨more, hmore, hlines⟩ := Toml.lines_entries ⟨"resolver", place⟩ start
    (entries s) [] [] (by rw [names_entries]; decide)
  refine ⟨⟨"resolver", place⟩, start, more, ?_, rfl, hmore⟩
  have hlength := Toml.length_le_length_flatMap Toml.Entry.line Toml.Entry.line_ne_nil (entries s)
  rw [toList_toText, List.append_nil] at *
  generalize (entries s).flatMap Toml.Entry.line = cs at *
  have hrun : Toml.lines (('[' :: ("resolver".toList ++ ']' :: '\n' :: cs)).length + 1)
      ⟨.root, []⟩ ('[' :: ("resolver".toList ++ ']' :: '\n' :: cs))
        = .done (Progress.below ⟨"resolver", place⟩ start more) [] := by
    obtain ⟨spare, hspare⟩ := Nat.exists_eq_add_of_le' hlength
    have hfuel : ('[' :: ("resolver".toList ++ ']' :: '\n' :: cs)).length
        = spare + 11 + (entries s).length := by
      simp only [List.length_cons, List.length_append, hspare]
      have : "resolver".toList.length = 8 := by decide
      omega
    rw [hheader, hfuel, hlines, Toml.lines_nil]
    rfl
  rw [Toml.document]
  · simp only [hrun, reduceIte]
  · -- no byte order mark stands in front
    intro rest heq
    injection heq with heq _
    exact absurd heq (by decide)

theorem ofDocument_below {s : Settings} {header : Key} {start : Place} {more : List (Key × Item)}
    (hheader : header.text = "resolver") (hmore : List.Forall₂ Toml.Entry.Gives (entries s) more) :
    ofDocument (Progress.below header start more).document = .ok s := by
  have hfold : more.foldlM (fun s e => readSetting s e.1.text e.1.place e.2) standard = .ok s := by
    unfold entries at hmore
    rcases hmore with _ | ⟨⟨hname1, h1⟩, _ | ⟨⟨hname2, h2⟩, _ | ⟨⟨hname3, h3⟩,
      _ | ⟨⟨hname4, h4⟩, _ | ⟨⟨hname5, h5⟩, _ | _⟩⟩⟩⟩⟩
    simp only at hname1 hname2 hname3 hname4 hname5 h1 h2 h3 h4 h5
    simp only [List.foldlM_cons, List.foldlM_nil, readSetting, hname1, hname2, hname3, hname4,
      hname5, textOf_of_isText h1, textsOf_of_isTexts h2, textsOf_of_isTexts h3, truthOf_of_isTruth h4,
      truthOf_of_isTruth h5, String.reduceEq, reduceIte]
    rfl
  simp only [Progress.below, ofDocument, List.find?_cons, hheader, beq_self_eq_true]
  exact hfold

/-- Valid settings survive being written and read, whatever characters their
texts consist of. -/
theorem parse_toText (s : Settings) (h : s.validate = .ok s) : parse s.toText = .ok s := by
  obtain ⟨header, start, more, hdocument, hheader, hmore⟩ := document_toText s
  have hread : (Toml.document s.toText.toList).bind ofDocument = .ok s := by
    rw [hdocument]
    exact ofDocument_below hheader hmore
  rw [parse, hread]
  exact h

/-- Settings that need each kind of quotes, and lists of each length. -/
def oddSettings : Settings where
  installedDirectory := "it's\n\"\"\"odd\"\"\"\x01"
  configFiles := ["a\\b", "say \"\"\"\"\n'' \\"]
  extraBuiltins := []
  languageFallback := false
  runtimeFallback := true

theorem parse_toText_oddSettings :
    oddSettings.validate = .ok oddSettings ∧ parse oddSettings.toText = .ok oddSettings :=
  ⟨rfl, parse_toText oddSettings rfl⟩

end ImportResolution.Settings
