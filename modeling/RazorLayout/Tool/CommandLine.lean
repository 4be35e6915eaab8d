import RazorLayout.Tool.Numeral

/-!
# Command lines

A command line is a list of words.  A word that starts with a dash is an option, unless it is the
dash alone, a negative number or has a space in it.  An option takes no value, one value or at least
one; everything else is an operand.

A command line that cannot be read has no meaning (`none`), and the tool answers with a usage error.
-/

namespace RazorLayout

/-- How many values an option takes. -/
inductive Arity where
  | flag
  | one
  | many
  deriving DecidableEq, Repr

/-- An option of a tool: the words for it and the values it takes. -/
structure OptionSpec where
  names : List Text
  arity : Arity
  deriving DecidableEq, Repr

/-- A part of a command line. -/
inductive Argument where
  /-- An option, by the first of its names, with its values. -/
  | option (name : Text) (values : List Text)
  /-- An operand. -/
  | operand (word : Text)
  deriving DecidableEq, Repr

namespace CommandLine

/-- An option from the words for it. -/
def spec (names : List String) (arity : Arity) : OptionSpec :=
  ⟨names.map String.toList, arity⟩

/-- The option that a word stands for. -/
def lookup (specs : List OptionSpec) (word : Text) : Option OptionSpec :=
  specs.find? fun s => s.names.contains word

/-- Whether a word has the form of an option. -/
def looksLikeOption (word : Text) : Bool :=
  match word with
  | '-' :: _ :: _ => !Numeral.isNegativeNumber word && !word.contains ' '
  | _ => false

/-- The values of an option of this arity, and the words behind them. -/
def takeValues : Arity → List Text → Option (List Text × List Text)
  | .flag, words => some ([], words)
  | .one, [] => none
  | .one, word :: words => if looksLikeOption word then none else some ([word], words)
  | .many, words =>
      match words.takeWhile fun w => !looksLikeOption w with
      | [] => none
      | value :: values =>
          some (value :: values, words.dropWhile fun w => !looksLikeOption w)

theorem takeValues_length_le {arity : Arity} {words values rest : List Text}
    (h : takeValues arity words = some (values, rest)) : rest.length ≤ words.length := by
  unfold takeValues at h
  split at h
  · cases h
    exact Nat.le_refl _
  · cases h
  · split at h
    · cases h
    · cases h
      exact Nat.le_succ _
  · split at h
    · cases h
    · cases h
      exact (List.dropWhile_suffix _).length_le

/-- The parts of a command line. -/
def read? (specs : List OptionSpec) : List Text → Option (List Argument)
  | [] => some []
  | word :: words =>
      match lookup specs word with
      | some s =>
          match _h : takeValues s.arity words with
          | some (values, rest) =>
              (read? specs rest).map fun parts => .option (s.names.headD []) values :: parts
          | none => none
      | none =>
          if looksLikeOption word then none
          else (read? specs words).map fun parts => .operand word :: parts
  termination_by words => words.length
  decreasing_by
    · exact Nat.lt_succ_of_le (takeValues_length_le _h)
    · exact Nat.lt_succ_self _

end CommandLine

/-- What a tool leaves behind. -/
structure Outcome where
  exit : Nat
  stdout : Text
  /-- The message that a tool gives up with. -/
  exitMessage : Option Text := none
  /-- The files that a tool writes. -/
  files : List (Text × Text) := []
  deriving DecidableEq, Repr

namespace Outcome

/-- The answer to a command line that cannot be read. -/
def usageError : Outcome := ⟨2, [], none, []⟩

/-- The text of printed lines. -/
def printed (lines : List Text) : Text :=
  lines.flatMap fun line => line ++ ['\n']

end Outcome

end RazorLayout
