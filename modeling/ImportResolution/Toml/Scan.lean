/-
Reading a text from a place onwards. A step either succeeds and tells where it
came to, or misses, so that an alternative may be tried in its stead, or fails
for good; a step that does not succeed tells where it stopped, which is the
place that a fault in the text is reported at.
-/
import ImportResolution.Text.Segments

namespace ImportResolution.Toml

/-- A place in a text: everything from there to the end. -/
abbrev Place := List Char

/-- The place after the next byte. A place within a character is told as the
start of that character. -/
def afterByte : Place → Place
  | [] => []
  | c :: rest => if c.toNat < 0x80 then rest else c :: rest

/-- How a step ends. -/
inductive Outcome (α : Type) where
  | done (value : α) (rest : Place)
  | missed (stop : Place)
  | failed (stop : Place)
deriving Repr

/-- A step of reading. -/
abbrev Scan (α : Type) := Place → Outcome α

namespace Scan

variable {α β : Type}

/-- Succeeds without moving. -/
def pure (a : α) : Scan α := fun cs => .done a cs

/-- One step after another. -/
def andThen (p : Scan α) (q : α → Scan β) : Scan β := fun cs =>
  match p cs with
  | .done a rest => q a rest
  | .missed stop => .missed stop
  | .failed stop => .failed stop

instance : Monad Scan where
  pure := Scan.pure
  bind := Scan.andThen

/-- The step with another value. -/
def giving (p : Scan α) (b : β) : Scan β := p.andThen fun _ => pure b

/-- Misses here. -/
def miss : Scan α := fun cs => .missed cs

/-- The place itself. -/
def here : Scan Place := fun cs => .done cs cs

/-- A miss becomes a failure. -/
def commit (p : Scan α) : Scan α := fun cs =>
  match p cs with
  | .missed stop => .failed stop
  | outcome => outcome

/-- The second step where the first one misses. -/
def orElse (p q : Scan α) : Scan α := fun cs =>
  match p cs with
  | .missed _ => q cs
  | outcome => outcome

/-- Nothing where the step misses. -/
def maybe (p : Scan α) : Scan (Option α) := fun cs =>
  match p cs with
  | .done a rest => .done (some a) rest
  | .missed _ => .done none cs
  | .failed stop => .failed stop

/-- The end of the text. -/
def atEnd : Scan Unit := fun cs =>
  match cs with
  | [] => .done () []
  | _ => .missed cs

/-- One character of a class. -/
def char (p : Char → Bool) : Scan Char := fun cs =>
  match cs with
  | c :: rest => if p c then .done c rest else .missed cs
  | [] => .missed cs

/-- The given characters. -/
def word (w : List Char) : Scan Unit := fun cs =>
  match Text.afterStart? w cs with
  | some rest => .done () rest
  | none => .missed cs

/-- As many characters of a class as there are. -/
def skip (p : Char → Bool) : Scan Unit := fun cs => .done () (cs.dropWhile p)

/-- At least one character of a class. -/
def skipSome (p : Char → Bool) : Scan Unit := fun cs =>
  match cs with
  | c :: rest => if p c then .done () (rest.dropWhile p) else .missed cs
  | [] => .missed cs

/-- Exactly `n` characters of a class. -/
def exactly (n : Nat) (p : Char → Bool) : Scan (List Char) := fun cs =>
  let taken := cs.take n
  if taken.length = n ∧ taken.all p then .done taken (cs.drop n) else .missed cs

/-- The step as often as it succeeds, within a number of times. -/
def manyWithin (p : Scan α) : Nat → Scan (List α)
  | 0, cs => .done [] cs
  | times + 1, cs =>
    match p cs with
    | .done a rest =>
      match manyWithin p times rest with
      | .done as rest => .done (a :: as) rest
      | .missed stop => .missed stop
      | .failed stop => .failed stop
    | .missed _ => .done [] cs
    | .failed stop => .failed stop

/-- The step as often as it succeeds. A step that moves can succeed no more
often than there are characters. -/
def many (p : Scan α) : Scan (List α) := fun cs => manyWithin p cs.length cs

/-- The step, then further ones that each follow a separator. A separator with
no step after it is left for what comes next. -/
def separated (p : Scan α) (separator : Scan Unit) : Scan (List α) := do
  let first ← p
  let more ← many (do separator; p)
  Pure.pure (first :: more)

/-- The characters that a step moves over. -/
def taken (p : Scan α) : Scan (List Char) := fun cs =>
  match p cs with
  | .done _ rest => .done (cs.take (cs.length - rest.length)) rest
  | .missed stop => .missed stop
  | .failed stop => .failed stop

/-- The step, if its value is as required; otherwise a miss where it began. -/
def which (p : Scan α) (required : α → Bool) : Scan α := fun cs =>
  match p cs with
  | .done a rest => if required a then .done a rest else .missed cs
  | outcome => outcome

end Scan

end ImportResolution.Toml
