import RazorLayout.Config.Basic
import RazorLayout.Config.Value

/-!
# Options

Options are what a user writes down: names with values of any kind.  They are kept as settings, one
value for each field, and the values are compared with the limits of their fields and with nothing
else.

* `Settings.merge` puts options over settings, key by key, also inside the style group;
* `Settings.create` puts them over the defaults and accepts no other name;
* `Settings.build` makes such steps one after the other;
* `Settings.config?` is the configuration that the layout works with.

The values are checked in a fixed order, so the first bad one is reported: the style indentation,
the indentation, the attribute limit, the line length, the depth and the code indentation.
-/

namespace RazorLayout

/-- Options as they are written: values with their names. -/
abbrev Entries : Type :=
  List (Text × Setting)

/-- The limits that a value can be compared with. -/
inductive Bound where
  | positive
  | natural
  deriving DecidableEq, Repr

namespace Bound

/-- The least number within the limit. -/
def least : Bound → Nat
  | positive => 1
  | natural => 0

/-- The limit in words. -/
def words : Bound → Text
  | positive => "positive".toList
  | natural => "non-negative".toList

end Bound

/-- The reasons to refuse options. -/
inductive ConfigError where
  /-- Names that no option has. -/
  | unknownKeys (keys : List Text)
  /-- Names that no option of the style group has. -/
  | unknownStyleKeys (keys : List Text)
  /-- A number below the limit of its field. -/
  | outOfBounds (label : Text) (bound : Bound) (got : Number)
  /-- A value that is no number, or a name that a constructor does not take. -/
  | illTyped
  deriving DecidableEq, Repr

namespace ConfigError

/-- The wording of an error.  A value of the wrong type is reported without one. -/
def message : ConfigError → Option Text
  | unknownKeys keys =>
      some ("Unknown configuration keys: ".toList ++ Text.joinWith ", ".toList keys)
  | unknownStyleKeys keys =>
      some ("Unknown style configuration keys: ".toList ++ Text.joinWith ", ".toList keys)
  | outOfBounds label bound got =>
      some (label ++ " must be ".toList ++ bound.words ++ ", got ".toList ++ got.text)
  | illTyped => none

end ConfigError

/-- What a field asks of its value. -/
inductive Rule where
  | free
  | bounded (b : Bound)
  /-- A limit for a value that may be missing. -/
  | optional (b : Bound)
  deriving DecidableEq, Repr

section Checking

/-- Compares a value with a limit.  Only a number that is below it is refused as such. -/
def Bound.check (b : Bound) (label : Text) : Setting → Except ConfigError Unit
  | .number n => if n.isBelow b.least then .error (.outOfBounds label b n) else .ok ()
  | _ => .error .illTyped

/-- Checks the value of a field. -/
def Rule.check (label : Text) : Rule → Setting → Except ConfigError Unit
  | free, _ => .ok ()
  | bounded b, v => b.check label v
  | optional _, .null => .ok ()
  | optional b, v => b.check label v

end Checking

/-! ### Records -/

/-- The fields of a record. -/
class Field (κ : Type) where
  /-- The fields in the order of their checks. -/
  all : List κ
  /-- The name under which a field is written. -/
  name : κ → Text
  /-- The name under which a field is reported. -/
  label : κ → Text
  /-- The value where none is written. -/
  standard : κ → Setting
  rule : κ → Rule
  mem_all : ∀ k, k ∈ all

/-- A record with a value for each field. -/
abbrev Record (κ : Type) : Type :=
  κ → Setting

section Entries

/-- The names in the order of their code points. -/
def sortKeys (keys : List Text) : List Text :=
  keys.mergeSort fun a b => !decide (b < a)

/-- The value of a name.  Where it is written more than once, the last value counts. -/
def valueOf? {α : Type} (name : Text) (entries : List (Text × α)) : Option α :=
  entries.reverse.lookup name

/-- The names in the entries that mean nothing, each one once. -/
def unknownNames (known : List Text) (entries : Entries) : List Text :=
  ((entries.map Prod.fst).filter fun name => !known.contains name).eraseDups

end Entries

namespace Record

variable {κ : Type} [Field κ]

/-- The record where nothing is written. -/
def standard : Record κ :=
  Field.standard

/-- The names of the fields. -/
def names (κ : Type) [Field κ] : List Text :=
  (Field.all : List κ).map Field.name

/-- The record with the written values. -/
def replace (r : Record κ) (entries : Entries) : Record κ :=
  fun k => (valueOf? (Field.name k) entries).getD (r k)

/-- Checks the values of a record, one field after the other. -/
def check (r : Record κ) : Except ConfigError Unit :=
  (Field.all : List κ).forM fun k => (Field.rule k).check (Field.label k) (r k)

/-- Whether the record equals the one where nothing is written.  A flag equals the number that it
counts as. -/
def isStandard (r : Record κ) : Bool :=
  (Field.all : List κ).all fun k =>
    match Field.standard k, r k with
    | .null, .null => true
    | .number m, .number n => m.integer? == n.integer?
    | _, _ => false

end Record

/-- The fields of the style group. -/
inductive StyleKey where
  | enabled
  | indentSize
  deriving DecidableEq, Repr

instance : Field StyleKey where
  all := [.enabled, .indentSize]
  name
    | .enabled => "enabled".toList
    | .indentSize => "indent_size".toList
  label
    | .enabled => "style.enabled".toList
    | .indentSize => "style.indent_size".toList
  standard
    | .enabled => .flag false
    | .indentSize => .null
  rule
    | .enabled => .free
    | .indentSize => .optional .positive
  mem_all k := by cases k <;> simp

/-- The fields of a configuration without the style group. -/
inductive OptionKey where
  | indentSize
  | maxAttributesPerLine
  | maxLineLength
  | maxDepth
  | formatHtml
  | codeIndentSize
  | blankLineBeforeCode
  deriving DecidableEq, Repr

namespace OptionKey

/-- The name of a field. -/
def name : OptionKey → Text
  | indentSize => "indent_size".toList
  | maxAttributesPerLine => "max_attributes_per_line".toList
  | maxLineLength => "max_line_length".toList
  | maxDepth => "max_depth".toList
  | formatHtml => "format_html".toList
  | codeIndentSize => "code_indent_size".toList
  | blankLineBeforeCode => "blank_line_before_code".toList

end OptionKey

instance : Field OptionKey where
  all := [.indentSize, .maxAttributesPerLine, .maxLineLength, .maxDepth, .formatHtml,
    .codeIndentSize, .blankLineBeforeCode]
  name := OptionKey.name
  label := OptionKey.name
  standard
    | .indentSize => .whole 4
    | .maxAttributesPerLine => .whole 1
    | .maxLineLength => .whole 0
    | .maxDepth => .whole defaultMaxDepth
    | .formatHtml => .flag true
    | .codeIndentSize => .whole 4
    | .blankLineBeforeCode => .flag true
  rule
    | .indentSize => .bounded .positive
    | .maxAttributesPerLine => .bounded .natural
    | .maxLineLength => .bounded .natural
    | .maxDepth => .bounded .positive
    | .formatHtml => .free
    | .codeIndentSize => .bounded .natural
    | .blankLineBeforeCode => .free
  mem_all k := by cases k <;> simp

/-! ### Settings -/

/-- What stands in the place of the style group. -/
inductive StyleValue where
  | record (r : Record StyleKey)
  /-- A value that was written there and is no group. -/
  | kept (v : Setting)

namespace StyleValue

/-- Puts the options of a group over what is there. -/
def update (old : StyleValue) (group : Entries) : Except ConfigError StyleValue :=
  match unknownNames (Record.names StyleKey) group with
  | [] =>
      match old with
      | record r => do
          (r.replace group).check
          pure (record (r.replace group))
      | kept _ => .error .illTyped
  | unknown => .error (.unknownStyleKeys (sortKeys unknown))

/-- A style group from options alone. -/
def create (group : Entries) : Except ConfigError StyleValue :=
  match unknownNames (Record.names StyleKey) group with
  | [] => update (record .standard) group
  | _ => .error .illTyped

/-- What stands in the place of the style group when `written` is written there: groups are read by
`ofGroup`, and anything else is kept as it is. -/
def read (old : StyleValue) (ofGroup : Entries → Except ConfigError StyleValue)
    (written : Option Setting) : Except ConfigError StyleValue :=
  match written with
  | none => .ok old
  | some v =>
      match v.group? with
      | some entries => ofGroup entries
      | none => .ok (kept v)

end StyleValue

/-- The name of the style group. -/
def styleName : Text :=
  "style".toList

/-- The values of a configuration as they were written. -/
structure Settings where
  record : Record OptionKey
  style : StyleValue

namespace Settings

/-- The settings where nothing is written. -/
def standard : Settings :=
  ⟨.standard, .record .standard⟩

/-- The names at the top level. -/
def names : List Text :=
  styleName :: Record.names OptionKey

/-- Puts options over settings.  Groups in the place of the style group are read by `ofGroup`. -/
def put (base : Settings) (ofGroup : Entries → Except ConfigError StyleValue)
    (entries : Entries) : Except ConfigError Settings := do
  let style ← base.style.read ofGroup (valueOf? styleName entries)
  (base.record.replace entries).check
  pure ⟨base.record.replace entries, style⟩

/-- Puts options over settings, the style options over the style group.  Without any options the
settings stay what they are. -/
def merge (base : Settings) (entries : Entries) : Except ConfigError Settings :=
  if entries.isEmpty then .ok base
  else
    match unknownNames names entries with
    | [] => base.put base.style.update entries
    | unknown => .error (.unknownKeys (sortKeys unknown))

/-- Settings from options alone.  A name that is not known is a misuse of the constructor, at the
top level before anything else. -/
def create (entries : Entries) : Except ConfigError Settings :=
  match unknownNames names entries with
  | [] => standard.put StyleValue.create entries
  | _ => .error .illTyped

/-- A step in which settings are made. -/
inductive Step where
  | create (entries : Entries)
  | merge (entries : Entries)

/-- Makes a step. -/
def Step.apply (base : Settings) : Step → Except ConfigError Settings
  | create entries => Settings.create entries
  | merge entries => base.merge entries

/-- Makes steps one after the other, from the defaults on. -/
def build (steps : List Step) : Except ConfigError Settings :=
  steps.foldlM Step.apply standard

end Settings

/-! ### What the layout works with -/

/-- The handling of style elements that a record describes. -/
def StyleValue.config? : StyleValue → Option StyleConfig
  | record r =>
      let enabled := (r .enabled).truth
      match r .indentSize with
      | .null => some { StyleConfig.standard with enabled := enabled }
      | v => do
          let size ← v.count?
          if h : 0 < size then
            some
              { enabled := enabled
                indentSize := some size
                indentSize_pos := fun _ hn => Option.some.inj hn ▸ h }
          else none
  | kept _ => none

namespace Settings

/-- Whether the settings equal those where nothing is written. -/
def isStandard (s : Settings) : Bool :=
  match s.style with
  | .record r => s.record.isStandard && r.isStandard
  | .kept _ => false

/-- The indentation of style content: its own, or that of the document. -/
def styleIndentSize? (s : Settings) : Option Setting :=
  match s.style with
  | .record r => some (if (r .indentSize).truth then r .indentSize else s.record .indentSize)
  | .kept _ => none

/-- The configuration that the settings describe.  Indentations and the depth have to be in a type
that can count. -/
def config? (s : Settings) : Option Config := do
  let indentSize ← (s.record .indentSize).count?
  let maxAttributes ← (s.record .maxAttributesPerLine).limit?
  let style ← s.style.config?
  let maxLineLength ← (s.record .maxLineLength).width?
  let maxDepth ← (s.record .maxDepth).count?
  let codeIndentSize ← (s.record .codeIndentSize).count?
  if h : 0 < indentSize ∧ 0 < maxDepth then
    some
      { indentSize := indentSize
        maxAttributesPerLine := maxAttributes
        style := style
        maxLineLength := maxLineLength
        maxDepth := maxDepth
        formatHtml := (s.record .formatHtml).truth
        codeIndentSize := codeIndentSize
        blankLineBeforeCode := (s.record .blankLineBeforeCode).truth
        indentSize_pos := h.1
        maxDepth_pos := h.2 }
  else none

/-- The configuration for the layout, or the refusal of settings that it cannot work with. -/
def toConfig (s : Settings) : Except ConfigError Config :=
  match s.config? with
  | some config => .ok config
  | none => .error .illTyped

end Settings

end RazorLayout
