import RazorLayout.Proofs.Forest.Reading
import RazorLayout.Proofs.Forest.Rows

/-!
# The layout keeps the structure of markup

The layout of a spelling has the rows of the forest's layout, and these spell the forest.  So the
layout of a spelling is a spelling again, and both stand for the same forest.

Results.

* `Forest.Spells.formatMarkup_eq`: the layout of a spelling depends on the forest alone.
* `Forest.Spells.spells_formatMarkup`: it is a spelling.
* `read?_formatMarkup_source`: hence the forest that is read from the layout is the forest that was
  written down, with its texts trimmed.
-/

namespace RazorLayout

section Layout

variable {spacing : Spacing} {config : Config} {collaborators : Collaborators} {depth : Nat}
variable {F : Forest} {t : Text}

theorem Forest.Spells.formatMarkup_run (hregular : F.isRegular = true)
    (h : F.Spells spacing (config.maxDepth - depth) t) (j : Journal) :
    ((formatMarkup config collaborators depth t).run j).1 =
      ((Context.placeAll
        ⟨config, collaborators, formatWithin config collaborators (config.maxDepth - depth)⟩ {}
        (F.items spacing)).run j).1.sheet.text := by
  have halike : Context.PlacesAlike
      ⟨config, collaborators, formatWithin config collaborators (config.maxDepth - depth)⟩
      (Item.ofTokens (tokenize t)) (F.items spacing) :=
    (Forest.Spells.placesAlike hregular h endsSiblings_nil).of_append_nil
  rw [formatMarkup, layoutAt, Context.layout, halike]
  rfl

/-- The layout of a spelling depends on the forest alone. -/
theorem Forest.Spells.formatMarkup_eq (hregular : F.isRegular = true)
    (h : F.Spells spacing (config.maxDepth - depth) t) (j : Journal) :
    ((formatMarkup config collaborators depth t).run j).1 =
      ((formatMarkup config collaborators depth (F.source spacing)).run j).1 := by
  have hsource := Forest.spells_source spacing hregular (config.maxDepth - depth)
  rw [h.formatMarkup_run hregular j, hsource.formatMarkup_run hregular j]

/-- The layout of a spelling is a spelling. -/
theorem Forest.Spells.spells_formatMarkup (hclean : F.isClean = true)
    (h : F.Spells spacing (config.maxDepth - depth) t) (collaborators : Collaborators)
    (j : Journal) :
    F.Spells spacing (config.maxDepth - depth)
      ((formatMarkup config collaborators depth t).run j).1 := by
  rw [h.formatMarkup_run (Forest.isRegular_of_isClean hclean) j]
  exact (Forest.spelledBy_layoutRows hclean (config.maxDepth - depth) 0 j).2 _
    (Forest.rows_placeAll F _ j)

end Layout

/-- The layout of a clean forest stands for the same forest as its one-line form, whatever the
configuration and however deep the markup stands. -/
theorem read?_formatMarkup_source (config : Config) (collaborators : Collaborators) (depth : Nat)
    (spacing : Spacing) (F : Forest) (j : Journal) (hclean : F.isClean = true) :
    Forest.read? (F.source spacing) = some F.trimmed ∧
      Forest.read? ((formatMarkup config collaborators depth (F.source spacing)).run j).1 =
        some F.trimmed := by
  have hregular := Forest.isRegular_of_isClean hclean
  have hsource := Forest.spells_source spacing hregular (config.maxDepth - depth)
  have hlayout := hsource.spells_formatMarkup hclean collaborators j
  exact ⟨hsource.read? hregular, hlayout.read? hregular⟩

/-- A conditional with two clauses around elements, one of them inline. -/
def sampleForest : Forest :=
  .flow { keyword := .ifBlock, condition := some "a(b)".toList }
    (.element { name := "p".toList, attributes := [{ name := "@key".toList }] }
      (.text " x ".toList .nil) (.selfClosing { name := "br".toList } .nil))
    (.clause (.elseIf "c".toList) (.text "y".toList .nil) (.clause .otherwise .nil .nil)) .nil

theorem read?_formatMarkup_sampleForest :
    Forest.read? (sampleForest.source {}) = some sampleForest.trimmed ∧
      Forest.read? ((formatMarkup .standard {} 0 (sampleForest.source {})).run {}).1 =
        some sampleForest.trimmed :=
  read?_formatMarkup_source .standard {} 0 {} sampleForest {} (by decide)

end RazorLayout
