import RazorLayout.Text.Blank

/-!
# Texts

A text is the list of its characters, so that every position counts code points and every scanner
is a function on lists.  A scanner cuts its input into the part that it has read and the rest.  One
that keeps only the rest leaves a suffix, and `Text.front` gives back the part that it has read.

Main statements: `front_append` (reading loses nothing), `after?_eq_some_iff` (what it means to
start with a word), `splitAt?_eq` (cutting at a word loses nothing but the word), `unlines_lines`
(cutting into lines loses nothing).
-/

namespace RazorLayout

/-- A text, character by character. -/
abbrev Text := List Char

namespace Text

section Reading

/-- The part of `whole` in front of its suffix `rest`. -/
def front (whole rest : Text) : Text :=
  whole.take (whole.length - rest.length)

@[simp] theorem front_append_right (read rest : Text) : front (read ++ rest) rest = read := by
  simp [front]

theorem front_append {whole rest : Text} (h : rest <:+ whole) :
    front whole rest ++ rest = whole := by
  obtain ⟨read, rfl⟩ := h
  simp

/-- The text behind `word`, when the text starts with `word`. -/
def after? : (word : Text) → Text → Option Text
  | [], cs => some cs
  | _ :: _, [] => none
  | w :: ws, c :: cs => if w = c then after? ws cs else none

theorem after?_eq_some_iff {word cs rest : Text} :
    after? word cs = some rest ↔ cs = word ++ rest := by
  induction word generalizing cs with
  | nil => simp [after?]
  | cons w ws ih =>
      cases cs with
      | nil => simp [after?]
      | cons c cs =>
          by_cases h : w = c
          · simp [after?, h, ih]
          · simp [after?, h, eq_comm]

theorem after?_suffix {word cs rest : Text} (h : after? word cs = some rest) : rest <:+ cs :=
  ⟨word, (after?_eq_some_iff.1 h).symm⟩

/-- Whether the text starts with `word`. -/
def startsWith (word cs : Text) : Bool :=
  (after? word cs).isSome

/-- The text in front of the first occurrence of `word`, and the text behind it. -/
def splitAt? (word : Text) : Text → Option (Text × Text)
  | [] => (after? word []).map fun rest => ([], rest)
  | c :: cs =>
      match after? word (c :: cs) with
      | some rest => some ([], rest)
      | none => (splitAt? word cs).map fun parts => (c :: parts.1, parts.2)

theorem splitAt?_eq {word cs before rest : Text} (h : splitAt? word cs = some (before, rest)) :
    cs = before ++ word ++ rest := by
  induction cs generalizing before with
  | nil =>
      obtain ⟨tail, ht, he⟩ := Option.map_eq_some_iff.1 h
      cases he
      simpa using after?_eq_some_iff.1 ht
  | cons c cs ih =>
      unfold splitAt? at h
      split at h
      · rename_i ht
        cases h
        simpa using after?_eq_some_iff.1 ht
      · obtain ⟨⟨inner, tail⟩, hi, he⟩ := Option.map_eq_some_iff.1 h
        cases he
        rw [ih hi]
        rfl

end Reading

section Trimming

/-- Whether every character is blank. -/
def isBlankText (cs : Text) : Bool :=
  cs.all isBlank

/-- The text without its leading blanks. -/
def stripStart (cs : Text) : Text :=
  cs.dropWhile isBlank

/-- The text without its trailing blanks. -/
def stripEnd (cs : Text) : Text :=
  (cs.reverse.dropWhile isBlank).reverse

/-- The text without its leading and trailing blanks. -/
def strip (cs : Text) : Text :=
  stripEnd (stripStart cs)

/-- The text with its ASCII letters in lower case.  Other letters stay as they are: the names that a
reader cuts out of a text are ASCII, and tokens put together by hand are taken to have such names. -/
def lower (cs : Text) : Text :=
  cs.map Char.toLower

/-- A run of `n` spaces. -/
def spaces (n : Nat) : Text :=
  List.replicate n ' '

/-- The text, filled up with spaces on the right to `width` characters. -/
def padRight (width : Nat) (cs : Text) : Text :=
  cs ++ spaces (width - cs.length)

/-- The text, filled up with spaces on the left to `width` characters. -/
def padLeft (width : Nat) (cs : Text) : Text :=
  spaces (width - cs.length) ++ cs

end Trimming

section Lines

/-- Puts a character at the front of the first line. -/
def consLine (c : Char) : List Text → List Text
  | [] => [[c]]
  | line :: rest => (c :: line) :: rest

/-- The lines of a text.  Only a line feed ends a line, and there is always one line. -/
def lines : Text → List Text
  | [] => [[]]
  | c :: cs => if c = '\n' then [] :: lines cs else consLine c (lines cs)

/-- The lines joined by line feeds. -/
def unlines : List Text → Text
  | [] => []
  | [line] => line
  | line :: next :: rest => line ++ '\n' :: unlines (next :: rest)

/-- The texts joined by `separator`. -/
def joinWith (separator : Text) : List Text → Text
  | [] => []
  | [part] => part
  | part :: next :: rest => part ++ separator ++ joinWith separator (next :: rest)

theorem lines_ne_nil (cs : Text) : lines cs ≠ [] := by
  cases cs with
  | nil => simp [lines]
  | cons c cs =>
      by_cases h : c = '\n'
      · simp [lines, h]
      · cases hl : lines cs <;> simp [lines, h, hl, consLine]

theorem unlines_consLine (c : Char) {ls : List Text} (h : ls ≠ []) :
    unlines (consLine c ls) = c :: unlines ls := by
  match ls, h with
  | [line], _ => rfl
  | line :: next :: rest, _ => rfl

@[simp] theorem unlines_lines (cs : Text) : unlines (lines cs) = cs := by
  induction cs with
  | nil => rfl
  | cons c cs ih =>
      by_cases h : c = '\n'
      · cases hl : lines cs with
        | nil => exact absurd hl (lines_ne_nil cs)
        | cons line rest =>
            rw [hl] at ih
            simp [lines, h, hl, unlines, ih]
      · simp [lines, h, unlines_consLine c (lines_ne_nil cs), ih]

/-- Whether the text is several lines. -/
def isMultiline (cs : Text) : Bool :=
  cs.contains '\n'

end Lines

end Text

end RazorLayout
