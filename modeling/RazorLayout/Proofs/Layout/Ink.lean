import RazorLayout.Proofs.Layout.SolidLines
import RazorLayout.Proofs.Text.Unblanked

/-!
# The ink of a text

The ink of a text is its characters that are not blank, with letters in lower case.  It is a
homomorphism, and everything that only changes blanks leaves it alone: trimming, cutting into lines
and joining them, and the choice between the two printed forms of a tag.
-/

namespace RazorLayout

namespace Text

/-- The characters of a text that are not blank, in lower case. -/
def ink (cs : Text) : Text :=
  lower (cs.filter fun c => !isBlank c)

@[simp] theorem ink_nil : ink [] = [] := rfl

@[simp] theorem ink_append (cs ds : Text) : ink (cs ++ ds) = ink cs ++ ink ds := by
  simp [ink, lower]

theorem ink_cons (c : Char) (cs : Text) : ink (c :: cs) = ink [c] ++ ink cs :=
  ink_append [c] cs

theorem ink_of_isBlankText {cs : Text} (h : isBlankText cs = true) : ink cs = [] :=
  congrArg lower (unblanked_of_isBlankText h)

@[simp] theorem ink_spaces (n : Nat) : ink (spaces n) = [] := by
  apply ink_of_isBlankText
  simp only [isBlankText, spaces, List.all_eq_true, List.mem_replicate]
  rintro c ⟨-, rfl⟩
  decide

@[simp] theorem ink_newline_cons (cs : Text) : ink ('\n' :: cs) = ink cs := by
  rw [ink_cons]
  rfl

section Trimming

@[simp] theorem ink_stripStart (cs : Text) : ink (stripStart cs) = ink cs :=
  congrArg lower (unblanked_dropWhile cs)

@[simp] theorem ink_stripEnd (cs : Text) : ink (stripEnd cs) = ink cs :=
  congrArg lower (unblanked_stripEnd cs)

@[simp] theorem ink_strip (cs : Text) : ink (strip cs) = ink cs := by
  rw [strip, ink_stripEnd, ink_stripStart]

end Trimming

section Lines

theorem ink_unlines (ls : List Text) : ink (unlines ls) = ls.flatMap ink := by
  have hlower := congrArg lower (unblanked_unlines ls)
  rw [lower, lower, List.map_flatMap] at hlower
  exact hlower

theorem flatMap_ink_lines (cs : Text) : (lines cs).flatMap ink = ink cs := by
  rw [← ink_unlines, unlines_lines]

theorem flatMap_ink_map_append {lead : Text} (h : ink lead = []) (ls : List Text) :
    (ls.map (lead ++ ·)).flatMap ink = ls.flatMap ink := by
  induction ls with
  | nil => rfl
  | cons line ls ih =>
      simp only [List.map_cons, List.flatMap_cons, ink_append, h, List.nil_append, ih]

theorem flatMap_ink_solid (ls : List Text) : (solid ls).flatMap ink = ls.flatMap ink := by
  induction ls with
  | nil => rfl
  | cons line ls ih =>
      cases line with
      | nil => simpa using ih
      | cons c cs =>
          rw [solid_cons_of_ne_nil (List.cons_ne_nil c cs)]
          simp [ih]

theorem ink_joinWith {separator : Text} (h : ink separator = []) (parts : List Text) :
    ink (joinWith separator parts) = parts.flatMap ink := by
  induction parts with
  | nil => rfl
  | cons part rest ih =>
      cases rest with
      | nil => simp [joinWith]
      | cons next rest =>
          rw [joinWith, ink_append, ink_append, h, ih]
          simp

end Lines

section LowerCase

theorem isBlank_eq_false {c : Char} (hlow : 0x21 ≤ c.toNat) (hhigh : c.toNat ≤ 0x84) :
    isBlank c = false := by
  simp only [isBlank, Bool.or_eq_false_iff, Bool.and_eq_false_iff, decide_eq_false_iff_not,
    beq_eq_false_iff_ne]
  omega

theorem isBlank_toLower (c : Char) : isBlank c.toLower = isBlank c := by
  unfold Char.toLower
  split
  · rename_i h
    have hA : 65 ≤ c.toNat := h.1
    have hZ : c.toNat ≤ 90 := h.2
    have hsum : (c.val + ('a'.val - 'A'.val)).toNat = c.toNat + 32 := by
      rw [UInt32.toNat_add]
      exact Nat.mod_eq_of_lt (by change c.toNat + 32 < _; omega)
    rw [isBlank_eq_false (c := c) (by omega) (by omega)]
    apply isBlank_eq_false
    · change 0x21 ≤ (c.val + ('a'.val - 'A'.val)).toNat
      omega
    · change (c.val + ('a'.val - 'A'.val)).toNat ≤ 0x84
      omega
  · rfl

/-- Ink does not tell upper case from lower case. -/
theorem ink_eq_of_lower_eq {cs ds : Text} (h : lower cs = lower ds) : ink cs = ink ds := by
  have hview : ∀ es : Text, ink es = (lower es).filter fun c => !isBlank c := by
    intro es
    simp only [ink, lower, List.filter_map]
    congr 1
    apply List.filter_congr
    intro c _
    simp [isBlank_toLower]
  rw [hview, hview, h]

end LowerCase

end Text

namespace Tag

section Printing

variable (config : Config) (tag : Tag) (ending : TagEnd)

theorem ink_inlineText : Text.ink ending.inlineText = Text.ink ending.stackedText := by
  cases ending <;> rfl

theorem ink_flatMap_render (attributes : List Attribute) :
    Text.ink (attributes.flatMap fun a => ' ' :: a.render) =
      attributes.flatMap fun a => Text.ink a.render := by
  induction attributes with
  | nil => rfl
  | cons a rest ih =>
      have hspace : Text.ink (' ' :: a.render) = Text.ink a.render := by
        rw [Text.ink_cons]
        rfl
      rw [List.flatMap_cons, List.flatMap_cons, Text.ink_append, hspace, ih]

/-- The stacked form of a tag differs from the inline form by blanks only. -/
theorem ink_stacked : Text.ink (tag.stacked config ending) = Text.ink (tag.inline ending) := by
  have hattributes : (tag.attributes.map fun a => config.unit ++ a.render).flatMap Text.ink =
      tag.attributes.flatMap fun a => Text.ink a.render := by
    simp [List.flatMap_map, Config.unit]
  rw [stacked, Text.ink_unlines, List.flatMap_append, List.flatMap_cons, hattributes, inline,
    Text.ink_append, Text.ink_append, ink_flatMap_render, ink_inlineText]
  simp

theorem ink_print {tag : Tag} (hname : tag.name ≠ []) (width : Nat) :
    Text.ink (tag.print config width ending) = Text.ink (tag.inline ending) := by
  have hempty : tag.name.isEmpty = false := by
    simpa using hname
  unfold print
  rw [if_neg (by simp [hempty])]
  split
  · exact ink_stacked config tag ending
  · rfl

theorem printInline_eq {tag : Tag} (hname : tag.name ≠ []) :
    tag.printInline ending = tag.inline ending := by
  have hempty : tag.name.isEmpty = false := by
    simpa using hname
  unfold printInline
  rw [if_neg (by simp [hempty])]

end Printing

end Tag

namespace Context

section Lines

variable (ctx : Context) {indent : Text} (hindent : Text.ink indent = [])
include hindent

theorem ink_tagLines {tag : Tag} (hname : tag.name ≠ []) (ending : TagEnd) :
    (ctx.tagLines indent tag ending).flatMap Text.ink = Text.ink (tag.inline ending) := by
  rw [tagLines, Text.flatMap_ink_solid, Text.flatMap_ink_map_append hindent,
    Text.flatMap_ink_lines, Tag.ink_print _ _ hname]

omit hindent in
theorem flatMap_ink_appendLast (tail : Text) (ls : List Text) :
    (appendLast tail ls).flatMap Text.ink = ls.flatMap Text.ink ++ Text.ink tail := by
  induction ls with
  | nil => simp [appendLast]
  | cons line rest ih =>
      cases rest with
      | nil => simp [appendLast]
      | cons next rest =>
          rw [appendLast, List.flatMap_cons, ih]
          simp

theorem ink_inlineLines {tag : Tag} (hname : tag.name ≠ []) (content : Text) :
    (ctx.inlineLines indent tag content).flatMap Text.ink =
      Text.ink (tag.inline .opening ++ content ++ closingTag tag.name) := by
  simp only [inlineLines]
  split
  · rw [Text.flatMap_ink_solid, Text.flatMap_ink_map_append hindent, flatMap_ink_appendLast,
      Text.flatMap_ink_lines, Tag.ink_print _ _ hname]
    simp
  · rw [Tag.printInline_eq _ hname]
    simp [hindent]

theorem ink_textLines (raw : Text) :
    (textLines indent raw).flatMap Text.ink = Text.ink raw := by
  have hline : ∀ line : Text,
      Text.ink (if Text.isBlankText line = true then [] else indent ++ Text.strip line) =
        Text.ink line := by
    intro line
    split
    · rename_i hblank
      exact (Text.ink_of_isBlankText hblank).symm
    · simp [hindent]
  rw [textLines, List.flatMap_map]
  simp only [hline]
  rw [Text.flatMap_ink_lines, Text.ink_strip]

theorem ink_trimmedLine (raw : Text) :
    (trimmedLine indent raw).flatMap Text.ink = Text.ink raw := by
  rw [trimmedLine, Text.flatMap_ink_solid]
  simp [hindent]

theorem ink_rawLines (raw : Text) : (rawLines indent raw).flatMap Text.ink = Text.ink raw := by
  simp [rawLines, hindent]

end Lines

end Context

end RazorLayout
