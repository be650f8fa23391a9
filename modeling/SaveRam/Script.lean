import SaveRam.Files
import SaveRam.Journal

/-!
# Scripts

What a command does to the outside world, as a value: read a file, write a file,
print text, add to the journal.  `Script.perform` carries a script out on a
model of the world, `World`.  The same script can be carried out on the real
one.
-/

namespace SaveRam

/-- Effects that end with a value. -/
inductive Script (α : Type) where
  | done (value : α)
  | read (name : String) (next : Except FileError (List UInt8) → Script α)
  | write (name : String) (content : List UInt8) (next : Except FileError Unit → Script α)
  | print (text : String) (next : Script α)
  | note (entries : List Entry) (next : Script α)

namespace Script

variable {α β : Type}

/-- One script after another. -/
def bind : Script α → (α → Script β) → Script β
  | .done value, f => f value
  | .read name next, f => .read name fun r => (next r).bind f
  | .write name content next, f => .write name content fun r => (next r).bind f
  | .print text next, f => .print text (next.bind f)
  | .note entries next, f => .note entries (next.bind f)

instance : Monad Script where
  pure := .done
  bind := bind

end Script

/-- The outside world of a command. -/
structure World where
  files : Files
  /-- What was printed. -/
  output : String
  /-- The journal, also the entries that are not shown. -/
  journal : List Entry

/-- Carries out a script in a world. -/
def Script.perform {α : Type} : Script α → World → α × World
  | .done value, w => (value, w)
  | .read name next, w => (next (w.files.read name)).perform w
  | .write name content next, w =>
    match w.files.write name content with
    | .ok files => (next (.ok ())).perform { w with files }
    | .error e => (next (.error e)).perform w
  | .print text next, w => next.perform { w with output := w.output ++ text }
  | .note entries next, w => next.perform { w with journal := w.journal ++ entries }

namespace Script

variable {α β : Type}

/-! ## Single effects -/

/-- The content of a file. -/
def fetch (name : String) : Script (Except FileError (List UInt8)) := .read name .done

/-- The first bytes of a file, `limit` of them at most. -/
def fetchFront (limit : Nat) (name : String) : Script (Except FileError (List UInt8)) :=
  .read name fun content => .done (content.map (List.take limit))

/-- Creates or replaces a file. -/
def store (name : String) (content : List UInt8) : Script (Except FileError Unit) :=
  .write name content .done

/-- Prints a text as it is. -/
def say (text : String) : Script Unit := .print text (.done ())

/-- Adds entries to the journal. -/
def log (entries : List Entry) : Script Unit := .note entries (.done ())

/-- A script that goes on with another changes the world first by the one and then
by the other. -/
theorem perform_bind (s : Script α) (f : α → Script β) (w : World) :
    (s >>= f).perform w = (f (s.perform w).1).perform (s.perform w).2 := by
  change (s.bind f).perform w = _
  induction s generalizing w with
  | done value => rfl
  | read name next ih => exact ih _ w
  | write name content next ih =>
    simp only [bind, perform]
    cases w.files.write name content with
    | ok files => exact ih _ _
    | error e => exact ih _ _
  | print text next ih => exact ih { w with output := w.output ++ text }
  | note entries next ih => exact ih { w with journal := w.journal ++ entries }

end Script

end SaveRam
