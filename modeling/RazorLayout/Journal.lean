import RazorLayout.Warning

/-!
# The journal of a layout

Everything that a layout leaves behind besides its text: what the collaborators were asked, the
warnings, and the events worth logging.  The journal only grows.

A computation that writes a journal is a `Journaled` value.
-/

namespace RazorLayout

/-- What the collaborators have been asked so far, in order. -/
structure Calls where
  /-- The texts handed to the code collaborator. -/
  code : List Text := []
  /-- The texts handed to the style collaborator, with the indentation they should get. -/
  style : List (Text × Nat) := []
  deriving DecidableEq, Repr

/-- A failure of a collaborator. -/
structure Fault where
  kind : Text
  message : Text
  deriving DecidableEq, Repr

namespace Fault

/-- The failure in words. -/
def text (f : Fault) : Text :=
  f.kind ++ ": ".toList ++ f.message

end Fault

/-- How much an event matters. -/
inductive Severity where
  | debug
  | warning
  deriving DecidableEq, Repr

/-- An event worth logging. -/
inductive Event where
  /-- A document has been cut into lines and member blocks. -/
  | documentRead (lines regions : Nat)
  /-- The code collaborator failed. -/
  | codeFailed (line : Option Int) (error : Text)
  /-- The style collaborator failed. -/
  | styleFailed (fault : Fault)
  /-- A block was nested too deep. -/
  | tooDeep (limit : Nat)
  deriving DecidableEq, Repr

namespace Event

/-- How much the event matters. -/
def severity : Event → Severity
  | documentRead _ _ => .debug
  | codeFailed _ _ => .warning
  | styleFailed _ => .warning
  | tooDeep _ => .debug

/-- The place of a failure in words; line zero counts as no line. -/
def place : Option Int → Text
  | none => []
  | some line => if line = 0 then [] else " at line ".toList ++ intText line

/-- The event in words. -/
def message : Event → Text
  | documentRead lines regions =>
      "Formatting document: ".toList ++ natText lines ++ " lines, ".toList ++ natText regions ++
        " code regions".toList
  | codeFailed line error =>
      "Code formatter failed".toList ++ place line ++ ": ".toList ++ error
  | styleFailed fault => "Style formatter failed: ".toList ++ fault.text
  | tooDeep limit =>
      "Nesting deeper than ".toList ++ natText limit ++ "; emitting block unformatted".toList

end Event

/-- Everything that a layout leaves behind besides its text. -/
structure Journal where
  calls : Calls := {}
  warnings : List Warning := []
  events : List Event := []
  deriving DecidableEq, Repr

namespace Journal

/-- Notes a call of the code collaborator. -/
def askedCode (j : Journal) (text : Text) : Journal :=
  { j with calls := { j.calls with code := j.calls.code ++ [text] } }

/-- Notes a call of the style collaborator. -/
def askedStyle (j : Journal) (text : Text) (size : Nat) : Journal :=
  { j with calls := { j.calls with style := j.calls.style ++ [(text, size)] } }

/-- Adds a warning. -/
def warn (j : Journal) (w : Warning) : Journal :=
  { j with warnings := j.warnings ++ [w] }

/-- Adds an event. -/
def log (j : Journal) (e : Event) : Journal :=
  { j with events := j.events ++ [e] }

end Journal

/-- A computation that writes a journal. -/
abbrev Journaled (α : Type) := StateM Journal α

end RazorLayout
