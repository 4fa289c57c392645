/-
Lines of a document that hold one key with one value.

A written value stands for an item if the reader takes it for one whatever the
next lines are (`ReadsAs`); strings, lists of strings and truth values do. A
list is written on one line or on several, and there its last comma is seen
twice: once by a further item, which misses at the closing bracket, and then by
itself. A line with a bare key adds the item of its value to the table of the
last header (`lines_keyValue`).
-/
import ImportResolution.Toml.Document
import ImportResolution.Proofs.Toml.Quoted
import Mathlib.Algebra.BigOperators.Group.List.Basic
import Mathlib.Data.List.Forall2
import Mathlib.Data.List.Nodup

namespace ImportResolution.Toml

open Scan

variable {cs rest : Place} {fuel depth : Nat}

-- ================================================================ blanks

theorem isGap_eq_false {c : Char} (hspace : c ≠ ' ') (htab : c ≠ '\t') : isGap c = false := by
  simp [isGap, hspace, htab]

/-- No blank, line end or comment stands at the start. -/
def NoBlank (cs : Place) : Prop :=
  ∀ c, cs.head? = some c → isGap c = false ∧ c ≠ '#' ∧ c ≠ '\n' ∧ c ≠ '\r'

theorem noBlank_cons {c : Char} (h : isGap c = false ∧ c ≠ '#' ∧ c ≠ '\n' ∧ c ≠ '\r') :
    NoBlank (c :: cs) := by
  rintro _ ⟨⟩
  exact h

theorem gaps_none (h : ∀ c, cs.head? = some c → isGap c = false) : gaps cs = .done () cs :=
  skip_of_head h

theorem blanksWithin_none (fuel : Nat) (h : NoBlank cs) : blanksWithin fuel cs = .done () cs := by
  have hgaps : gaps cs = .done () cs := gaps_none fun c hc => (h c hc).1
  cases fuel with
  | zero => exact hgaps
  | succ fuel =>
      rw [blanksWithin, bind_done hgaps, here_bind]
      split
      · exact absurd rfl (h '#' rfl).2.1
      · exact absurd rfl (h '\n' rfl).2.2.1
      · exact absurd rfl (h '\r' rfl).2.2.2
      · rfl

theorem blanks_none (h : NoBlank cs) : blanks cs = .done () cs :=
  blanksWithin_none cs.length h

/-- A line end and gaps after it. -/
theorem blanks_lineEnd (gap : List Char) (hgap : ∀ c ∈ gap, isGap c = true) (h : NoBlank rest) :
    blanks ('\n' :: (gap ++ rest)) = .done () rest := by
  show blanksWithin ((gap ++ rest).length + 1) ('\n' :: (gap ++ rest)) = _
  have hline : gaps ('\n' :: (gap ++ rest)) = .done () ('\n' :: (gap ++ rest)) := rfl
  rw [blanksWithin, bind_done hline, here_bind]
  show (lineEnd >>= fun _ => blanksWithin (gap ++ rest).length) ('\n' :: (gap ++ rest)) = _
  have hend : lineEnd ('\n' :: (gap ++ rest)) = .done () (gap ++ rest) := rfl
  rw [bind_done hend]
  have hgaps : gaps (gap ++ rest) = .done () rest := by
    rw [gaps, skip, List.dropWhile_append_of_pos hgap]
    exact gaps_none fun c hc => (h c hc).1
  cases hlength : (gap ++ rest).length with
  | zero => exact hgaps
  | succ n =>
      rw [blanksWithin, bind_done hgaps]
      have hnone := blanksWithin_none (n + 1) h
      rw [blanksWithin, bind_done (gaps_none fun c hc => (h c hc).1)] at hnone
      exact hnone

-- ================================================================ values

theorem written_head (s : String) :
    ∃ c tail, written s = c :: tail ∧ (c = '"' ∨ c = '\'') := by
  rcases written_cases s with h | ⟨h, -⟩ | h | ⟨h, -⟩
  · exact ⟨_, _, h, Or.inl rfl⟩
  · exact ⟨_, _, h, Or.inr rfl⟩
  · exact ⟨_, _, h, Or.inl rfl⟩
  · exact ⟨_, _, h, Or.inr rfl⟩

theorem noBlank_written (s : String) (rest : Place) : NoBlank (written s ++ rest) := by
  obtain ⟨c, tail, h, rfl | rfl⟩ := written_head s
  · rw [h]
    exact noBlank_cons (by decide)
  · rw [h]
    exact noBlank_cons (by decide)

theorem value_written (s : String) (hdouble : rest.head? ≠ some '"')
    (hsingle : rest.head? ≠ some '\'') :
    value depth (fuel + 1) (written s ++ rest) = .done (.text (written s ++ rest) s) rest := by
  obtain ⟨c, tail, h, hc⟩ := written_head s
  have hread := anyString_written s hdouble hsingle
  rw [h, List.cons_append] at hread ⊢
  rw [value]
  simp only [if_pos hc]
  exact andThen_done hread

/-- The item is a text. -/
def Item.IsText (s : String) (item : Item) : Prop :=
  ∃ place, item = .text place s

/-- The item is a list of texts. -/
def Item.IsTexts (texts : List String) (item : Item) : Prop :=
  ∃ place items, item = .list place items ∧ List.Forall₂ Item.IsText texts items

/-- The item is a truth value. -/
def Item.IsTruth (b : Bool) (item : Item) : Prop :=
  ∃ place, item = .truth place b

-- ================================================================= lists

theorem length_le_length_flatMap {α : Type} (text : α → List Char) (h : ∀ a, text a ≠ [])
    (as : List α) : as.length ≤ (as.flatMap text).length := by
  have := List.length_le_sum_of_one_le (as.map fun a => (text a).length) (by
    intro n hn
    obtain ⟨a, -, rfl⟩ := List.mem_map.mp hn
    exact List.length_pos_iff.mpr (h a))
  rwa [List.length_map, ← List.length_flatMap] at this

/-- One item of a list, with the blanks around it. -/
def listItem (depth fuel : Nat) : Scan Item := do
  blanks
  let item ← value (depth + 1) fuel
  blanks
  return item

/-- The rest of a list after its items. -/
def listEnd (place : Place) (items : Option (List Item)) : Scan Item := do
  if items.isSome then
    let _ ← maybe (word [','])
  commit blanks
  commit (word [']'])
  return .list place (items.getD [])

theorem list_eq (cs : Place) : list depth (fuel + 1) cs =
    (word ['['] >>= fun _ =>
      maybe (separated (listItem depth fuel) (word [','])) >>= listEnd cs) cs := by
  rw [list]
  rfl

theorem listItem_missed (h : blanks cs = .done () (']' :: rest)) :
    listItem depth (fuel + 1) cs = .missed (']' :: rest) := by
  rw [listItem, bind_done h]
  exact bind_missed rfl

theorem listItem_written (depth fuel : Nat) {s : String} {c : Char}
    (h : blanks cs = .done () (written s ++ c :: rest))
    (hc : c = ',' ∨ c = ']') :
    ∃ item, listItem depth (fuel + 1) cs = .done item (c :: rest) ∧ Item.IsText s item := by
  have hvalue : value (depth + 1) (fuel + 1) (written s ++ c :: rest)
      = .done (.text (written s ++ c :: rest) s) (c :: rest) := by
    refine value_written s ?_ ?_
    · rcases hc with rfl | rfl <;> simp
    · rcases hc with rfl | rfl <;> simp
  have hblanks : blanks (c :: rest) = .done () (c :: rest) := by
    refine blanks_none (noBlank_cons ?_)
    rcases hc with rfl | rfl <;> decide
  refine ⟨.text (written s ++ c :: rest) s, ?_, _, rfl⟩
  rw [listItem, bind_done h, bind_done hvalue, bind_done hblanks]
  rfl

/-- The line of one item. -/
def listLine (s : String) : List Char :=
  [' ', ' ', ' ', ' '] ++ written s ++ [',', '\n']

theorem listItem_listLine (depth fuel : Nat) (s : String) (tail : Place) :
    ∃ item, listItem depth (fuel + 1) ('\n' :: (listLine s ++ tail))
      = .done item (',' :: '\n' :: tail) ∧ Item.IsText s item := by
  have htext : '\n' :: (listLine s ++ tail)
      = '\n' :: ([' ', ' ', ' ', ' '] ++ (written s ++ ',' :: '\n' :: tail)) := by
    simp [listLine]
  rw [htext]
  exact listItem_written depth fuel
    (blanks_lineEnd _ (List.all_eq_true.mp rfl) (noBlank_written s _)) (Or.inl rfl)

/-- Further items over several lines, up to the comma after the last. -/
theorem manyWithin_listLines (depth fuel : Nat) (texts : List String) {times : Nat}
    (h : texts.length ≤ times) :
    ∃ items, manyWithin (word [','] >>= fun _ => listItem depth (fuel + 1)) times
        (',' :: '\n' :: (texts.flatMap listLine ++ ']' :: rest))
      = .done items (',' :: '\n' :: ']' :: rest) ∧ List.Forall₂ Item.IsText texts items := by
  induction texts generalizing times with
  | nil =>
      have hmissed : (word [','] >>= fun _ => listItem depth (fuel + 1))
          (',' :: '\n' :: ']' :: rest) = .missed (']' :: rest) := by
        rw [bind_done (word_single ',' _)]
        exact listItem_missed (blanks_lineEnd [] nofun (noBlank_cons (by decide)))
      exact ⟨[], manyWithin_missed hmissed, .nil⟩
  | cons s texts ih =>
      obtain ⟨spare, rfl⟩ := Nat.exists_eq_add_of_le' h
      obtain ⟨items, hitems, htexts⟩ := ih (Nat.le_add_left texts.length spare)
      obtain ⟨item, hitem, htext⟩ := listItem_listLine depth fuel s
        (texts.flatMap listLine ++ ']' :: rest)
      refine ⟨item :: items, ?_, .cons htext htexts⟩
      rw [List.flatMap_cons, List.append_assoc, List.length_cons, ← Nat.add_assoc, manyWithin,
        bind_done (word_single ',' _), hitem]
      simp only [hitems]

theorem list_of_items {texts : List String} {items : Option (List Item)} {stop : Place}
    (h : maybe (separated (listItem depth fuel) (word [','])) cs = .done items stop)
    (hend : listEnd ('[' :: cs) items stop = .done (.list ('[' :: cs) (items.getD [])) rest)
    (htexts : List.Forall₂ Item.IsText texts (items.getD [])) :
    ∃ item, list depth (fuel + 1) ('[' :: cs) = .done item rest ∧ Item.IsTexts texts item := by
  refine ⟨.list ('[' :: cs) (items.getD []), ?_, _, _, rfl, htexts⟩
  rw [list_eq, bind_done (word_single '[' cs), bind_done h, hend]

theorem list_nil (rest : Place) :
    ∃ item, list depth (fuel + 2) ('[' :: ']' :: rest) = .done item rest ∧
      Item.IsTexts [] item := by
  have hmissed : maybe (separated (listItem depth (fuel + 1)) (word [','])) (']' :: rest)
      = .done none (']' :: rest) :=
    maybe_missed (bind_missed (listItem_missed (blanks_none (noBlank_cons (by decide)))))
  exact list_of_items hmissed rfl .nil

theorem list_single (s : String) (rest : Place) :
    ∃ item, list depth (fuel + 2) ('[' :: (written s ++ ']' :: rest)) = .done item rest ∧
      Item.IsTexts [s] item := by
  obtain ⟨item, hitem, htext⟩ := listItem_written depth fuel
    (blanks_none (noBlank_written s (']' :: rest))) (Or.inr rfl)
  have hmore : many (word [','] >>= fun _ => listItem depth (fuel + 1)) (']' :: rest)
      = .done [] (']' :: rest) :=
    many_missed (bind_missed (word_missed (by simp)))
  have hitems := separated_done hitem hmore
  exact list_of_items (maybe_done hitems) rfl (.cons htext .nil)

theorem list_lines (s : String) (texts : List String) (rest : Place) :
    ∃ item, list depth (fuel + 2) ('[' :: '\n' :: ((s :: texts).flatMap listLine ++ ']' :: rest))
        = .done item rest ∧ Item.IsTexts (s :: texts) item := by
  obtain ⟨item, hitem, htext⟩ := listItem_listLine depth fuel s
    (texts.flatMap listLine ++ ']' :: rest)
  have hlength :
      texts.length ≤ (',' :: '\n' :: (texts.flatMap listLine ++ ']' :: rest)).length := by
    have := length_le_length_flatMap listLine (by simp [listLine]) texts
    simp only [List.length_cons, List.length_append]
    omega
  obtain ⟨items, hmore, htexts⟩ := manyWithin_listLines depth fuel texts hlength
  have hitems := separated_done hitem hmore
  rw [← List.append_assoc, ← List.flatMap_cons] at hitems
  exact list_of_items (maybe_done hitems) rfl (.cons htext htexts)

-- =========================================================== written values

/-- The reader takes a text for an item with a property, up to the end of its
line and whatever follows there. -/
def ReadsAs (text : List Char) (holds : Item → Prop) : Prop :=
  ∀ fuel rest, ∃ item,
    value 0 (fuel + 3) (text ++ '\n' :: rest) = .done item ('\n' :: rest) ∧ holds item

theorem readsAs_written (s : String) : ReadsAs (written s) (Item.IsText s) := by
  intro fuel rest
  exact ⟨_, value_written s (by simp) (by simp), _, rfl⟩

theorem readsAs_truth (b : Bool) : ReadsAs (Json.truth b) (Item.IsTruth b) := by
  intro fuel rest
  cases b with
  | true => exact ⟨.truth _ true, rfl, _, rfl⟩
  | false => exact ⟨.truth _ false, rfl, _, rfl⟩

theorem readsAs_nil : ReadsAs ['[', ']'] (Item.IsTexts []) :=
  fun _ rest => list_nil ('\n' :: rest)

theorem readsAs_single (s : String) : ReadsAs ('[' :: written s ++ [']']) (Item.IsTexts [s]) := by
  intro fuel rest
  rw [List.cons_append, List.cons_append, List.append_assoc]
  exact list_single s ('\n' :: rest)

theorem readsAs_lines (s : String) (texts : List String) :
    ReadsAs ('[' :: '\n' :: (s :: texts).flatMap listLine ++ [']'])
      (Item.IsTexts (s :: texts)) := by
  intro fuel rest
  rw [List.cons_append, List.cons_append, List.cons_append, List.cons_append, List.append_assoc]
  exact list_lines s texts ('\n' :: rest)

theorem head?_of_value_done {item : Item} (h : value depth (fuel + 1) cs = .done item rest) :
    ∀ c, cs.head? = some c → isGap c = false := by
  intro c hc
  cases cs with
  | nil => cases hc
  | cons d cs =>
      cases hc
      refine isGap_eq_false ?_ ?_
      · rintro rfl
        cases h
      · rintro rfl
        cases h

-- ================================================================== keys

theorem isGap_of_isBareChar {c : Char} (h : isBareChar c = true) : isGap c = false :=
  isGap_eq_false (ne_of_holds h rfl) (ne_of_holds h rfl)

section

variable {name : List Char} (hne : name ≠ []) (hname : ∀ c ∈ name, isBareChar c = true)
include hne hname

theorem gaps_bare : gaps (name ++ rest) = .done () (name ++ rest) := by
  refine gaps_none fun c hc => isGap_of_isBareChar (hname c ?_)
  rw [List.head?_append_of_ne_nil _ hne] at hc
  exact List.mem_of_head? hc

theorem keyPart_bare (h : ∀ c, rest.head? = some c → isBareChar c = false) :
    keyPart (name ++ rest) = .done ⟨String.ofList name, name ++ rest⟩ rest := by
  have htaken := taken_append (skipSome_append hne hname h)
  cases name with
  | nil => exact absurd rfl hne
  | cons c name =>
      have hc := hname c List.mem_cons_self
      generalize hcs : c :: name ++ rest = cs at htaken ⊢
      rw [keyPart, here_bind]
      split
      · injection hcs with heq _
        exact absurd heq (ne_of_holds hc rfl)
      · injection hcs with heq _
        exact absurd heq (ne_of_holds hc rfl)
      · rw [bind_done htaken]
        rfl

theorem key_bare (gap : List Char) (hgap : ∀ c ∈ gap, isGap c = true)
    (hrest : ∀ c, rest.head? = some c → isGap c = false ∧ isBareChar c = false ∧ c ≠ '.') :
    key (name ++ (gap ++ rest)) = .done [⟨String.ofList name, name ++ (gap ++ rest)⟩] rest := by
  have hhead : ∀ c, (gap ++ rest).head? = some c → isBareChar c = false := by
    intro c hc
    cases gap with
    | nil => exact (hrest c hc).2.1
    | cons d gap =>
        cases hc
        by_contra hbare
        have := isGap_of_isBareChar (by simpa using hbare)
        rw [hgap c List.mem_cons_self] at this
        cases this
  have hgaps : gaps (gap ++ rest) = .done () rest := by
    rw [gaps, skip, List.dropWhile_append_of_pos hgap]
    exact gaps_none fun c hc => (hrest c hc).1
  refine which_done (separated_done ?_ (many_missed (bind_missed (word_missed ?_)))) rfl
  · rw [bind_done (gaps_bare hne hname), bind_done (keyPart_bare hne hname hhead), bind_done hgaps]
    rfl
  · intro h
    exact (hrest '.' h).2.2 rfl

end

-- ================================================================= lines

/-- What is read of a document with one header and some entries below it. -/
def Progress.below (header : Key) (start : Place) (entries : List (Key × Item)) : Progress :=
  ⟨.table none .header [(header, .table (some start) .header entries)], [header]⟩

theorem addBelow?_below (header : Key) (start : Place) (entries : List (Key × Item)) (key : Key)
    (item : Item) (hnew : Item.find? key.text entries = none) :
    (Progress.below header start entries).document.addBelow? [header] [key] item
      = some (Progress.below header start (entries ++ [(key, item)])).document := by
  have hadd : Item.addValue? (.table (some start) .header entries) [key] item
      = some (.table (some start) .header (entries ++ [(key, item)])) := by
    show Item.addNew? false key item (.table (some start) .header entries) = _
    rw [Item.addNew?, hnew]
    rfl
  have hfind : Item.find? header.text [(header, .table (some start) .header entries)]
      = some (.table (some start) .header entries) := by
    simp [Item.find?]
  rw [Item.addBelow?, Progress.below, Item.changeAt?, hfind]
  simp [Item.changeAt?, hadd, Item.replace, Progress.below]

theorem lines_nil (p : Progress) : lines fuel p [] = .done p [] := by
  cases fuel with
  | zero => rfl
  | succ fuel => rfl

theorem lines_line {p q : Progress} (hgaps : gaps cs = .done () cs) (h : line p cs = .done q rest) :
    lines (fuel + 1) p cs = lines fuel q rest := by
  have hline : (gaps.andThen fun _ => line p) cs = .done q rest := by
    rw [andThen_done hgaps, h]
  simp only [lines, hline]

section

variable {name : List Char} (hne : name ≠ []) (hname : ∀ c ∈ name, isBareChar c = true)
include hne hname

theorem keyValue_bare {text : List Char} {holds : Item → Prop} (h : ReadsAs text holds)
    (rest : Place) : ∃ place item,
      keyValue (name ++ ' ' :: '=' :: ' ' :: (text ++ '\n' :: rest))
        = .done ([⟨String.ofList name, place⟩], item) rest ∧ holds item := by
  obtain ⟨item, hitem, hholds⟩ := h (2 * (text ++ rest).length + 1) rest
  have hkey (tail : Place) : key (name ++ ' ' :: '=' :: tail)
      = .done [⟨String.ofList name, name ++ ' ' :: '=' :: tail⟩] ('=' :: tail) :=
    key_bare hne hname [' '] (List.all_eq_true.mp rfl) (by rintro c ⟨⟩; decide)
  refine ⟨name ++ ' ' :: '=' :: ' ' :: (text ++ '\n' :: rest), item, ?_, hholds⟩
  have hfuel : 2 * (text ++ '\n' :: rest).length + 2 = 2 * (text ++ rest).length + 1 + 3 := by
    simp only [List.length_append, List.length_cons]
    omega
  have hgaps : gaps (' ' :: (text ++ '\n' :: rest)) = .done () (text ++ '\n' :: rest) :=
    gaps_none (head?_of_value_done hitem)
  have htrail : lineTrail ('\n' :: rest) = .done () rest := rfl
  rw [keyValue, bind_done (hkey _), bind_done (commit_done (word_single '=' _)), bind_done hgaps,
    here_bind, hfuel, bind_done (commit_done hitem), bind_done (commit_done htrail)]
  rfl

/-- A line with a bare key that is new below its header. -/
theorem lines_keyValue {text : List Char} {holds : Item → Prop} (h : ReadsAs text holds)
    (header : Key) (start : Place) {entries : List (Key × Item)}
    (hnew : Item.find? (String.ofList name) entries = none) (rest : Place) :
    ∃ place item, holds item ∧ ∀ fuel,
      lines (fuel + 1) (.below header start entries)
          (name ++ ' ' :: '=' :: ' ' :: (text ++ '\n' :: rest))
        = lines fuel (.below header start (entries ++ [(⟨String.ofList name, place⟩, item)]))
            rest := by
  obtain ⟨place, item, hitem, hholds⟩ := keyValue_bare hne hname h rest
  refine ⟨place, item, hholds, fun fuel => lines_line (gaps_bare hne hname) ?_⟩
  have hadd := addBelow?_below header start entries ⟨String.ofList name, place⟩ item hnew
  cases name with
  | nil => exact absurd rfl hne
  | cons c name =>
      have hc := hname c List.mem_cons_self
      rw [List.cons_append] at hitem ⊢
      rw [line, if_neg (ne_of_holds hc rfl), if_neg (ne_of_holds hc rfl),
        if_neg (not_or.mpr ⟨ne_of_holds hc rfl, ne_of_holds hc rfl⟩), commit_done hitem]
      simp only [Progress.below] at hadd ⊢
      rw [hadd]

theorem header_bare (rest : Place) : ∃ place, header ('[' :: (name ++ ']' :: '\n' :: rest))
    = .done (false, [⟨String.ofList name, place⟩]) rest := by
  have hkey (tail : Place) : key (name ++ ']' :: tail)
      = .done [⟨String.ofList name, name ++ ']' :: tail⟩] (']' :: tail) :=
    key_bare hne hname [] nofun (by rintro c ⟨⟩; decide)
  have htrail : lineTrail ('\n' :: rest) = .done () rest := rfl
  refine ⟨name ++ ']' :: '\n' :: rest, ?_⟩
  generalize hcs : '[' :: (name ++ ']' :: '\n' :: rest) = cs
  rw [header, here_bind]
  split
  · injection hcs with _ hcs
    cases name with
    | nil => exact absurd rfl hne
    | cons c name =>
        injection hcs with heq _
        exact absurd heq (ne_of_holds (hname c List.mem_cons_self) rfl)
  · rw [← hcs, bind_done (word_single '[' _), bind_done (hkey _), bind_done (word_single ']' _),
      bind_done htrail]
    rfl
  · next hother =>
      cases name with
      | nil => exact absurd rfl hne
      | cons c name => exact absurd hcs.symm (hother c _)

/-- A header with a bare name, at the start of the document. -/
theorem lines_header (rest : Place) : ∃ place start, ∀ fuel,
    lines (fuel + 1) ⟨.root, []⟩ ('[' :: (name ++ ']' :: '\n' :: rest))
      = lines fuel (.below ⟨String.ofList name, place⟩ start []) rest := by
  obtain ⟨place, hheader⟩ := header_bare hne hname rest
  refine ⟨place, '[' :: (name ++ ']' :: '\n' :: rest), fun fuel => lines_line rfl ?_⟩
  have hadd : Item.root.addHeader? false [⟨String.ofList name, place⟩]
      ('[' :: (name ++ ']' :: '\n' :: rest)) = some (Progress.below ⟨String.ofList name, place⟩
        ('[' :: (name ++ ']' :: '\n' :: rest)) []).document := rfl
  rw [line, if_neg (by decide), if_pos rfl, commit_done hheader]
  simp only [hadd, Progress.below]

end

-- ============================================================ many lines

/-- A line to be written: a bare key, the text of its value, and what the reader
takes that text for. -/
structure Entry where
  name : String
  text : List Char
  holds : Item → Prop
  name_ne : name.toList ≠ []
  bare : name.toList.all isBareChar = true
  reads : ReadsAs text holds

/-- The line as it is written. -/
def Entry.line (e : Entry) : List Char :=
  e.name.toList ++ [' ', '=', ' '] ++ e.text ++ ['\n']

theorem Entry.line_ne_nil (e : Entry) : e.line ≠ [] := by
  simp [Entry.line]

/-- An entry of a table is the one that a line writes. -/
def Entry.Gives (e : Entry) (entry : Key × Item) : Prop :=
  entry.1.text = e.name ∧ e.holds entry.2

theorem find?_eq_none {name : String} {entries : List (Key × Item)}
    (h : name ∉ entries.map (·.1.text)) : Item.find? name entries = none := by
  have hnone : entries.find? (·.1.text == name) = none := by
    refine List.find?_eq_none.mpr fun e he heq => h ?_
    exact List.mem_map.mpr ⟨e, he, eq_of_beq heq⟩
  rw [Item.find?, hnone]
  rfl

/-- Lines with different keys add one entry each, in their order. -/
theorem lines_entries (header : Key) (start : Place) (es : List Entry) (rest : Place) :
    ∀ entries : List (Key × Item), (entries.map (·.1.text) ++ es.map Entry.name).Nodup →
      ∃ more, List.Forall₂ Entry.Gives es more ∧ ∀ fuel,
        lines (fuel + es.length) (.below header start entries) (es.flatMap Entry.line ++ rest)
          = lines fuel (.below header start (entries ++ more)) rest := by
  induction es with
  | nil =>
      intro entries _
      refine ⟨[], .nil, fun fuel => ?_⟩
      rw [List.append_nil]
      rfl
  | cons e es ih =>
      intro entries hnodup
      rw [List.map_cons, List.nodup_middle] at hnodup
      have hnew := find?_eq_none fun hmem =>
        (List.nodup_cons.mp hnodup).1 (List.mem_append_left _ hmem)
      rw [← String.ofList_toList (s := e.name)] at hnew
      obtain ⟨place, item, hitem, hstep⟩ := lines_keyValue e.name_ne
        (List.all_eq_true.mp e.bare) e.reads header start hnew (es.flatMap Entry.line ++ rest)
      rw [String.ofList_toList] at hstep
      obtain ⟨more, hmore, hrun⟩ := ih (entries ++ [(⟨e.name, place⟩, item)]) (by
        rw [List.map_append, List.append_assoc]
        exact List.nodup_middle.mpr hnodup)
      refine ⟨(⟨e.name, place⟩, item) :: more, .cons ⟨rfl, hitem⟩ hmore, fun fuel => ?_⟩
      have hline : (e :: es).flatMap Entry.line ++ rest = e.name.toList ++
          ' ' :: '=' :: ' ' :: (e.text ++ '\n' :: (es.flatMap Entry.line ++ rest)) := by
        simp [Entry.line]
      rw [hline, List.length_cons, ← Nat.add_assoc, hstep, hrun, List.append_assoc]
      rfl

end ImportResolution.Toml
