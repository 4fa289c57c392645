/-
Which target of a package its entry points lead to. Entry points are a tree: lists
branch to their items, condition tables to the members whose condition applies, and
a text at the end of a branch is a target (`Reached`). Where a target stands is told
by the branches that were taken, and depth-first in the order of declaration is the
order of these positions as words.

The search goes down a branch and comes back out of it when it finds nothing, so at
each branching it is to be shown that the first target of the whole is the first of
the first branch, or else the first of the later ones (`IsFirst.or`). The search is
the only function with this property (`IsFirst.eq_some_iff`), and which targets are reached
depends on nothing but which conditions are listed. So nothing else about the list of
conditions matters, and a longer list reaches all that a shorter one does.
-/
import ImportResolution.PackageDescriptor
import ImportResolution.Proofs.Text.Segments
import Mathlib.Data.List.Lex

namespace ImportResolution.PackageDescriptor

open Json (Value)
open Text

-- ============================================================== targets

/-- The branch of a condition table is open: the condition is listed, or stands for
all others. -/
def Open (conditions : List String) (key : String) : Prop :=
  key = "default" ∨ key ∈ conditions

theorem applies_iff {conditions : List String} {key : String} :
    applies conditions key = true ↔ Open conditions key := by
  rw [applies, Bool.or_eq_true, beq_iff_eq, List.contains_iff_mem, Open]

/-- An entry leads to a target: the branches that are taken, outermost first, and the
text that stands at their end. -/
inductive Reached (conditions : List String) : Value → List Nat → String → Prop where
  | text (path : String) : Reached conditions (.text path) [] path
  | item {items : List Value} {branch : Nat} {value : Value} {position : List Nat}
      {path : String} (hitem : items[branch]? = some value)
      (h : Reached conditions value position path) :
      Reached conditions (.array items) (branch :: position) path
  | member {members : List (String × Value)} {branch : Nat} {key : String} {value : Value}
      {position : List Nat} {path : String} (hmember : members[branch]? = some (key, value))
      (hkey : Open conditions key) (h : Reached conditions value position path) :
      Reached conditions (.object members) (branch :: position) path

variable {conditions more : List String} {value : Value} {position : List Nat} {path other : String}

/-- Conditions that are listed in addition close no branch. -/
theorem Reached.mono (h : Reached conditions value position path)
    (hmore : ∀ condition ∈ conditions, condition ∈ more) : Reached more value position path := by
  induction h with
  | text path => exact .text path
  | item hitem _ ih => exact .item hitem ih
  | member hmember hkey _ ih => exact .member hmember (hkey.imp_right (hmore _)) ih

/-- At one position there is one target. -/
theorem Reached.unique (h : Reached conditions value position path)
    (h' : Reached conditions value position other) : path = other := by
  induction h with
  | text path =>
      cases h'
      rfl
  | item hitem _ ih =>
      cases h' with
      | item hitem' h' =>
          obtain rfl := Option.some.inj (hitem.symm.trans hitem')
          exact ih h'
  | member hmember _ _ ih =>
      cases h' with
      | member hmember' _ h' =>
          obtain ⟨-, rfl⟩ := Prod.mk.inj (Option.some.inj (hmember.symm.trans hmember'))
          exact ih h'

-- ============================================================ positions

-- The core library has both for its own instance of the order, which is no linear order
-- by definition.

theorem nil_le (position : List Nat) : [] ≤ position :=
  not_lt.mp (List.not_lt_nil position)

theorem cons_le_cons_iff {branch branch' : Nat} {rest rest' : List Nat} :
    branch :: rest ≤ branch' :: rest' ↔ branch < branch' ∨ branch = branch' ∧ rest ≤ rest' := by
  rw [le_iff_lt_or_eq, le_iff_lt_or_eq, List.cons.injEq, List.cons_lt_cons_iff, and_or_left,
    or_assoc]

-- ================================================================ first

/-- What stands at the first position of all, if anything stands anywhere. -/
inductive IsFirst (stands : List Nat → String → Prop) : Option String → Prop where
  | found {position : List Nat} {path : String} (h : stands position path)
      (hfirst : ∀ later other, stands later other → position ≤ later) :
      IsFirst stands (some path)
  | nothing (h : ∀ position path, ¬ stands position path) : IsFirst stands none

variable {stands here later : List Nat → String → Prop} {a b : Option String}

theorem IsFirst.eq_none_iff (h : IsFirst stands a) :
    a = none ↔ ∀ position path, ¬ stands position path := by
  cases h with
  | found h _ => exact iff_of_false nofun fun hnone => hnone _ _ h
  | nothing h => exact iff_of_true rfl h

theorem IsFirst.eq_some_iff (h : IsFirst stands a)
    (hunique : ∀ position path other, stands position path → stands position other → path = other) :
    a = some path ↔ ∃ position, stands position path ∧
      ∀ later other, stands later other → position ≤ later := by
  cases h with
  | found h hfirst =>
      rw [Option.some.injEq]
      constructor
      · rintro rfl
        exact ⟨_, h, hfirst⟩
      · rintro ⟨position, hpath, hleast⟩
        obtain rfl := le_antisymm (hfirst _ _ hpath) (hleast _ _ h)
        exact hunique _ _ _ h hpath
  | nothing h => exact iff_of_false nofun fun ⟨position, hpath, _⟩ => h _ _ hpath

/-- The first of all is the first in the first branch, or else the first in the later
ones. -/
theorem IsFirst.or (ha : IsFirst here a) (hb : IsFirst later b)
    (hstands : ∀ position path, stands position path ↔
      (∃ rest, position = 0 :: rest ∧ here rest path) ∨
        ∃ branch rest, position = (branch + 1) :: rest ∧ later (branch :: rest) path)
    (hbranches : ∀ position path, later position path → position ≠ []) :
    IsFirst stands (a.or b) := by
  cases ha with
  | found ha hleast =>
      refine .found ((hstands _ _).mpr (Or.inl ⟨_, rfl, ha⟩)) fun position path hany => ?_
      rcases (hstands _ _).mp hany with ⟨rest, rfl, h⟩ | ⟨branch, rest, rfl, -⟩
      · exact cons_le_cons_iff.mpr (Or.inr ⟨rfl, hleast _ _ h⟩)
      · exact cons_le_cons_iff.mpr (Or.inl (Nat.succ_pos branch))
  | nothing ha =>
      cases hb with
      | nothing hb =>
          refine .nothing fun position path hany => ?_
          rcases (hstands _ _).mp hany with ⟨rest, -, h⟩ | ⟨branch, rest, -, h⟩
          · exact ha _ _ h
          · exact hb _ _ h
      | @found position path hb hleast =>
          obtain ⟨branch, rest, rfl⟩ := List.exists_cons_of_ne_nil (hbranches _ _ hb)
          refine .found ((hstands _ _).mpr (Or.inr ⟨branch, rest, rfl, hb⟩))
            fun position path hany => ?_
          rcases (hstands _ _).mp hany with ⟨rest, -, h⟩ | ⟨branch', rest', rfl, h⟩
          · exact absurd h (ha _ _)
          · have hle := cons_le_cons_iff.mp (hleast _ _ h)
            exact cons_le_cons_iff.mpr (hle.imp Nat.succ_lt_succ
              (And.imp_left (congrArg Nat.succ)))

-- ============================================================== entries

theorem reached_array_cons {item : Value} {items : List Value} :
    Reached conditions (.array (item :: items)) position path ↔
      (∃ rest, position = 0 :: rest ∧ Reached conditions item rest path) ∨
        ∃ branch rest, position = (branch + 1) :: rest ∧
          Reached conditions (.array items) (branch :: rest) path := by
  constructor
  · rintro (_ | @⟨_, branch, value, rest, _, hitem, h⟩)
    cases branch with
    | zero =>
        obtain rfl := Option.some.inj hitem
        exact Or.inl ⟨rest, rfl, h⟩
    | succ branch => exact Or.inr ⟨branch, rest, rfl, .item hitem h⟩
  · rintro (⟨rest, rfl, h⟩ | ⟨branch, rest, rfl, h⟩)
    · exact .item rfl h
    · cases h with
      | item hitem h => exact .item hitem h

theorem reached_object_cons {key : String} {members : List (String × Value)} :
    Reached conditions (.object ((key, value) :: members)) position path ↔
      (∃ rest, position = 0 :: rest ∧ Open conditions key ∧ Reached conditions value rest path) ∨
        ∃ branch rest, position = (branch + 1) :: rest ∧
          Reached conditions (.object members) (branch :: rest) path := by
  constructor
  · rintro (_ | _ | @⟨_, branch, _, _, rest, _, hmember, hkey, h⟩)
    cases branch with
    | zero =>
        obtain ⟨rfl, rfl⟩ := Prod.mk.inj (Option.some.inj hmember)
        exact Or.inl ⟨rest, rfl, hkey, h⟩
    | succ branch => exact Or.inr ⟨branch, rest, rfl, .member hmember hkey h⟩
  · rintro (⟨rest, rfl, hkey, h⟩ | ⟨branch, rest, rfl, h⟩)
    · exact .member rfl hkey h
    · cases h with
      | member hmember hkey h => exact .member hmember hkey h

/-- No target stands where a branching stands. -/
theorem Reached.ne_nil_of_array {items : List Value}
    (h : Reached conditions (.array items) position path) : position ≠ [] := by
  cases h with
  | item => exact List.cons_ne_nil _ _

theorem Reached.ne_nil_of_object {members : List (String × Value)}
    (h : Reached conditions (.object members) position path) : position ≠ [] := by
  cases h with
  | member => exact List.cons_ne_nil _ _

mutual

/-- The target of an entry is the first that it leads to. -/
theorem isFirst_target? (conditions : List String) :
    (value : Value) → IsFirst (Reached conditions value) (target? conditions value)
  | .null => .nothing nofun
  | .bool _ => .nothing nofun
  | .number _ => .nothing nofun
  | .text path => .found (.text path) fun later _ _ => nil_le later
  | .array items => isFirst_targetOfItems? conditions items
  | .object members => isFirst_targetOfMembers? conditions members

theorem isFirst_targetOfItems? (conditions : List String) :
    (items : List Value) →
      IsFirst (Reached conditions (.array items)) (targetOfItems? conditions items)
  | [] => .nothing fun _ _ h => by cases h with | item hitem => cases hitem
  | item :: items =>
    (isFirst_target? conditions item).or (isFirst_targetOfItems? conditions items)
      (fun _ _ => reached_array_cons) fun _ _ h => h.ne_nil_of_array

theorem isFirst_targetOfMembers? (conditions : List String) :
    (members : List (String × Value)) →
      IsFirst (Reached conditions (.object members)) (targetOfMembers? conditions members)
  | [] => .nothing fun _ _ h => by cases h with | member hmember => cases hmember
  | (key, value) :: members => by
    refine IsFirst.or ?_ (isFirst_targetOfMembers? conditions members)
      (fun _ _ => reached_object_cons) fun _ _ h => h.ne_nil_of_object
    split
    · next hkey =>
      simp only [applies_iff.mp hkey, true_and]
      exact isFirst_target? conditions value
    · next hkey => exact .nothing fun _ _ h => hkey (applies_iff.mpr h.1)

end

-- ========================================================== the package

/-- The key of a member starts with a dot. -/
def IsSubpath (key : String) : Prop :=
  '.' ∈ key.toList.head?

/-- The entry of the package itself among its entry points: what stands under `.`
where some key is a subpath, and else all of them. -/
inductive RootEntry : Value → Value → Prop where
  | subpath {members : List (String × Value)} {entry : Value}
      (hkeys : ∃ m ∈ members, IsSubpath m.1) (hentry : members.lookup "." = some entry) :
      RootEntry (.object members) entry
  | whole {offer : Value}
      (hkeys : ∀ members, offer = .object members → ∀ m ∈ members, ¬ IsSubpath m.1) :
      RootEntry offer offer

/-- A target that the package offers under its own name, at a position of its entry. -/
def Offered (p : PackageDescriptor) (conditions : List String) (position : List Nat)
    (path : String) : Prop :=
  ∃ offer ∈ p.entryPoints, ∃ entry, RootEntry offer entry ∧ Reached conditions entry position path

variable {p : PackageDescriptor} {offer entry : Value} {members : List (String × Value)}

theorem hasSubpaths_iff : hasSubpaths members = true ↔ ∃ m ∈ members, IsSubpath m.1 := by
  have hkey (key : String) : startsWith key "." = true ↔ IsSubpath key := by
    rw [startsWith_iff, IsSubpath, show ".".toList = ['.'] from rfl]
    cases key.toList with
    | nil => simp
    | cons c rest => simp [List.cons_prefix_cons, eq_comm]
  simp only [hasSubpaths, List.any_eq_true, hkey]

theorem RootEntry.unique {other : Value} (h : RootEntry offer entry) (h' : RootEntry offer other) :
    entry = other := by
  cases h with
  | subpath hkeys hentry =>
      cases h' with
      | subpath _ hentry' => exact Option.some.inj (hentry.symm.trans hentry')
      | whole hnone =>
          obtain ⟨m, hm, hkey⟩ := hkeys
          exact absurd hkey (hnone _ rfl m hm)
  | whole hnone =>
      cases h' with
      | subpath hkeys _ =>
          obtain ⟨m, hm, hkey⟩ := hkeys
          exact absurd hkey (hnone _ rfl m hm)
      | whole _ => rfl

theorem offered_eq (hoffer : p.entryPoints = some offer) (hentry : RootEntry offer entry) :
    p.Offered conditions = Reached conditions entry := by
  funext position path
  refine propext ⟨?_, fun h => ⟨offer, hoffer, entry, hentry, h⟩⟩
  rintro ⟨offer', hoffer', entry', hentry', h⟩
  obtain rfl := Option.some.inj (hoffer.symm.trans hoffer')
  rwa [hentry.unique hentry']

theorem not_offered (h : ∀ offer ∈ p.entryPoints, ∀ entry, ¬ RootEntry offer entry) :
    ¬ p.Offered conditions position path :=
  fun ⟨offer, hoffer, entry, hentry, _⟩ => h offer hoffer entry hentry

/-- The target of a package is the first that it offers under its own name. -/
theorem isFirst_rootTarget? (p : PackageDescriptor) (conditions : List String) :
    IsFirst (p.Offered conditions) (p.rootTarget? conditions) := by
  unfold rootTarget?
  split
  · next hnone =>
    refine .nothing fun _ _ => not_offered fun offer hoffer => ?_
    rw [hnone] at hoffer
    cases hoffer
  · next members hoffer =>
    split
    · next hkeys =>
      cases hlookup : members.lookup "." with
      | none =>
          refine .nothing fun _ _ => not_offered fun offer hoffer' entry hentry => ?_
          obtain rfl := Option.some.inj (hoffer.symm.trans hoffer')
          cases hentry with
          | subpath _ hentry =>
              rw [hlookup] at hentry
              cases hentry
          | whole hwhole =>
              obtain ⟨m, hm, hkey⟩ := hasSubpaths_iff.mp hkeys
              exact hwhole _ rfl m hm hkey
      | some entry =>
          rw [offered_eq hoffer (.subpath (hasSubpaths_iff.mp hkeys) hlookup)]
          exact isFirst_target? conditions entry
    · next hkeys =>
      have hwhole : RootEntry (.object members) (.object members) := by
        refine .whole fun members' heq m hm hkey => hkeys (hasSubpaths_iff.mpr ⟨m, ?_, hkey⟩)
        rwa [Value.object.inj heq]
      rw [offered_eq hoffer hwhole]
      exact isFirst_target? conditions (.object members)
  · next offer hobject hoffer =>
    rw [offered_eq hoffer (.whole fun members heq => (hobject members heq).elim)]
    exact isFirst_target? conditions offer

theorem Offered.mono (h : p.Offered conditions position path)
    (hmore : ∀ condition ∈ conditions, condition ∈ more) : p.Offered more position path := by
  obtain ⟨offer, hoffer, entry, hentry, h⟩ := h
  exact ⟨offer, hoffer, entry, hentry, h.mono hmore⟩

theorem Offered.unique (h : p.Offered conditions position path)
    (h' : p.Offered conditions position other) : path = other := by
  obtain ⟨offer, hoffer, entry, hentry, h⟩ := h
  rw [offered_eq hoffer hentry] at h'
  exact h.unique h'

/-- The target of a package is the first, depth-first in the order of declaration,
that its root entry leads to under the conditions, and there is none exactly if the
entry leads to no target. So more conditions never lose a target, and the order and
the repetition of the conditions say nothing. -/
theorem rootTarget?_eq_first (p : PackageDescriptor) (conditions : List String) :
    (∀ path, p.rootTarget? conditions = some path ↔
      ∃ position, p.Offered conditions position path ∧
        ∀ later other, p.Offered conditions later other → position ≤ later) ∧
    (p.rootTarget? conditions = none ↔ ∀ position path, ¬ p.Offered conditions position path) ∧
    (∀ more, (∀ condition ∈ conditions, condition ∈ more) →
      p.rootTarget? conditions ≠ none → p.rootTarget? more ≠ none) ∧
    ∀ others, (∀ condition, condition ∈ others ↔ condition ∈ conditions) →
      p.rootTarget? others = p.rootTarget? conditions := by
  have hfirst := isFirst_rootTarget? p
  refine ⟨fun path => (hfirst conditions).eq_some_iff fun _ _ _ h h' => h.unique h',
    (hfirst conditions).eq_none_iff, fun more hmore => mt fun hnone => ?_, fun others hsame => ?_⟩
  · rw [(hfirst _).eq_none_iff] at hnone ⊢
    exact fun position path h => hnone position path (h.mono hmore)
  · have hoffered : p.Offered others = p.Offered conditions := by
      funext position path
      exact propext ⟨fun h => h.mono fun c => (hsame c).mp, fun h => h.mono fun c => (hsame c).mpr⟩
    refine Option.ext fun path => ?_
    rw [(hfirst others).eq_some_iff fun _ _ _ h h' => h.unique h', hoffered,
      (hfirst conditions).eq_some_iff fun _ _ _ h h' => h.unique h']

/-- A branch that leads to nothing is left again, and the next one is taken though
its condition is listed before. -/
theorem rootTarget?_eq_first_after_blind :
    let p : PackageDescriptor := ⟨none, none, none, none, none, none,
      some (.object [("./sub", .text "./sub.js"), (".", .array [.null,
        .object [("node", .object [("import", .text "./node.mjs")]),
          ("require", .array [.object [], .text "./main.cjs"]), ("default", .text "./main.js")]])])⟩
    let conditions := ["require", "node", "default"]
    (∀ condition ∈ conditions, condition ∈ ["node", "import", "default", "require", "node"]) ∧
      p.rootTarget? conditions = some "./main.cjs" ∧
      (∃ position, p.Offered conditions position "./main.cjs") ∧
      p.rootTarget? ["node", "import", "default", "require", "node"] ≠ none ∧
      (∀ condition, condition ∈ ["node", "require", "node", "default"] ↔ condition ∈ conditions) ∧
      p.rootTarget? ["node", "require", "node", "default"] = some "./main.cjs" := by
  intro p conditions
  obtain ⟨hsome, -, hmore, hsame⟩ := rootTarget?_eq_first p conditions
  have htarget : p.rootTarget? conditions = some "./main.cjs" := by decide +kernel
  have hlonger : ∀ condition ∈ conditions,
      condition ∈ ["node", "import", "default", "require", "node"] := by decide
  have hothers : ∀ condition,
      condition ∈ ["node", "require", "node", "default"] ↔ condition ∈ conditions := by
    intro condition
    simp only [conditions, List.mem_cons, List.not_mem_nil, or_false]
    grind
  refine ⟨hlonger, htarget, ?_, hmore _ hlonger (htarget ▸ Option.some_ne_none _), hothers,
    (hsame _ hothers).trans htarget⟩
  obtain ⟨position, h, -⟩ := (hsome _).mp htarget
  exact ⟨position, h⟩

end ImportResolution.PackageDescriptor
