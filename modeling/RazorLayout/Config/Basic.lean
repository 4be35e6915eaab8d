import RazorLayout.Vocabulary

/-!
# Configuration

What the layout can be told.  The limits that a configuration has to respect are part of the type,
so every configuration that exists is a valid one.
-/

namespace RazorLayout

/-- What happens to the content of style elements. -/
structure StyleConfig where
  /-- Whether the content is handed to the style collaborator. -/
  enabled : Bool := false
  /-- The indentation of the content, when it differs from that of the document. -/
  indentSize : Option Nat := none
  indentSize_pos : ∀ n, indentSize = some n → 0 < n := by simp
  deriving DecidableEq

/-- The configuration of the layout. -/
structure Config where
  /-- The number of spaces of one level. -/
  indentSize : Nat := 4
  /-- A tag with more attributes than this is written with one attribute a line. -/
  maxAttributesPerLine : Nat := 1
  /-- The handling of style elements. -/
  style : StyleConfig := {}
  /-- A tag wider than this is written with one attribute a line; zero sets no limit. -/
  maxLineLength : Nat := 0
  /-- Blocks nested deeper than this are left as they are. -/
  maxDepth : Nat := defaultMaxDepth
  /-- Whether markup is laid out at all. -/
  formatHtml : Bool := true
  /-- The indentation inside a member block. -/
  codeIndentSize : Nat := 4
  /-- Whether a blank line is put in front of a member block. -/
  blankLineBeforeCode : Bool := true
  indentSize_pos : 0 < indentSize := by decide
  maxDepth_pos : 0 < maxDepth := by decide
  deriving DecidableEq

/-- The handling of style elements where none is configured. -/
def StyleConfig.standard : StyleConfig := {}

namespace Config

/-- The configuration where none is given. -/
def standard : Config := {}

/-- The indentation of style content: its own, or that of the document. -/
def styleIndentSize (c : Config) : Nat :=
  c.style.indentSize.getD c.indentSize

/-- One level of indentation. -/
def unit (c : Config) : Text :=
  Text.spaces c.indentSize

/-- The indentation of a level. -/
def indentation (c : Config) (level : Nat) : Text :=
  Text.spaces (level * c.indentSize)

end Config

end RazorLayout
