import RazorLayout.Proofs.Forest.Shift
import RazorLayout.Proofs.Token.Pieces

/-!
# Printing and reading a tag

A printed tag is read by two scanners: the search for its end, and the reader of its attributes.
Both have to stop at the same quote of every value, whatever quotes, brackets and expressions the
value holds.

Results.  `Tag.Spells.tokenize_eq`: every spelling of a printable tag is one piece, which is that
tag.  `tokenize_print`: hence so is the printed tag, on one line or stacked.
-/

namespace RazorLayout

/-- What a tag with this ending is read as.  A void element is complete with or without a slash. -/
def Tag.kind (tag : Tag) (ending : TagEnd) : TokenKind :=
  if ending = .selfClosing ∨ isVoidName tag.name = true then .selfClosingTag tag else .openTag tag

theorem Tag.Spells.tokenize_eq {tag : Tag} {ending : TagEnd} {t : Text}
    (hprintable : tag.isPrintable = true) (h : tag.Spells ending t) :
    tokenize t = [⟨tag.kind ending, t⟩] := by
  obtain ⟨c, cs, hcons, -, hread⟩ := readToken_tag hprintable h []
  rw [List.append_nil] at hcons
  conv => lhs; rw [hcons]
  exact tokenize_eq_singleton hread

/-- Printing a tag and reading it again gives the tag: its name, its attributes with their values
and quotes, and its ending, in every layout. -/
theorem tokenize_print {tag : Tag} (h : tag.isPrintable = true) (config : Config) (width : Nat)
    (ending : TagEnd) :
    tokenize (tag.print config width ending) =
        [⟨tag.kind ending, tag.print config width ending⟩] ∧
      tokenize (tag.printInline ending) = [⟨tag.kind ending, tag.printInline ending⟩] := by
  have hname : isTagName tag.name = true := (Tag.isPrintable_cases h).1
  constructor
  · exact (Tag.spells_print hname config width ending).tokenize_eq h
  · obtain ⟨c, cs, hcons, -⟩ := isTagName_cases hname
    have hinline : tag.printInline ending = tag.inline ending := by
      simp [Tag.printInline, hcons]
    rw [hinline]
    exact (Tag.spells_inline tag ending).tokenize_eq h

/-- A stacked opening tag with a bare attribute, an event handler between single quotes, and a value
that holds quotes, a bracket and a line feed. -/
def sampleTag : Tag where
  name := "Script".toList
  attributes := [
    { name := "@bind-Value".toList },
    { name := "@onclick".toList, value := some "@(() => Go('>'))".toList,
      quote := some "'".toList },
    { name := "class".toList, value := some "a\n@(x > 1 ? \"b\" : f[\"/\"]) />".toList,
      quote := some "\"".toList }]

theorem tokenize_print_sampleTag :
    sampleTag.isPrintable = true ∧
      tokenize (sampleTag.print .standard 0 .opening) =
        [⟨.openTag sampleTag, sampleTag.print .standard 0 .opening⟩] :=
  have h : sampleTag.isPrintable = true := by decide +kernel
  ⟨h, (tokenize_print h .standard 0 .opening).1⟩

end RazorLayout
