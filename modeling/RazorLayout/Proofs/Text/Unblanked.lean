import RazorLayout.Block.Reader
import RazorLayout.Proofs.Text.Rows

/-!
# Texts without their blanks

`Text.unblanked` keeps the characters of a text that are not blank.  It is a homomorphism, and
whatever only drops blanks leaves it alone: trimming, and passing over spaces.  Two texts that agree
under it hold the same solid characters in the same order.
-/

namespace RazorLayout

namespace Text

/-- The text without its blanks. -/
def unblanked (t : Text) : Text :=
  t.filter fun c => !isBlank c

@[simp] theorem unblanked_nil : unblanked [] = [] := rfl

@[simp] theorem unblanked_append (s t : Text) : unblanked (s ++ t) = unblanked s ++ unblanked t :=
  List.filter_append s t

theorem unblanked_cons (c : Char) (t : Text) : unblanked (c :: t) = unblanked [c] ++ unblanked t :=
  unblanked_append [c] t

@[simp] theorem unblanked_space (t : Text) : unblanked (' ' :: t) = unblanked t := rfl

theorem unblanked_of_isBlankText {gap : Text} (h : isBlankText gap = true) : unblanked gap = [] := by
  simpa [unblanked, isBlankText, List.filter_eq_nil_iff] using h

theorem unblanked_of_isGap {gap : Text} (h : IsGap gap) : unblanked gap = [] :=
  unblanked_of_isBlankText h.isBlankText

@[simp] theorem unblanked_dropWhile (t : Text) :
    unblanked (t.dropWhile isBlank) = unblanked t :=
  filter_dropWhile_not isBlank t

@[simp] theorem unblanked_dropWhile_isTabOrSpace (t : Text) :
    unblanked (t.dropWhile isTabOrSpace) = unblanked t := by
  have hgap : IsGap (t.takeWhile isTabOrSpace) :=
    fun c hc => isSpace_of_isTabOrSpace (List.mem_takeWhile_imp hc)
  conv_rhs => rw [← List.takeWhile_append_dropWhile (p := isTabOrSpace) (l := t)]
  rw [unblanked_append, unblanked_of_isGap hgap, List.nil_append]

@[simp] theorem unblanked_afterSpaces (t : Text) : unblanked (afterSpaces t) = unblanked t := by
  obtain ⟨gap, hgap, ht⟩ := exists_gap t
  conv_rhs => rw [ht, unblanked_append, unblanked_of_isGap hgap, List.nil_append]

@[simp] theorem unblanked_stripEnd (t : Text) : unblanked (stripEnd t) = unblanked t := by
  rw [unblanked, stripEnd, List.filter_reverse, filter_dropWhile_not, List.filter_reverse,
    List.reverse_reverse, unblanked]

@[simp] theorem unblanked_strip (t : Text) : unblanked (strip t) = unblanked t := by
  rw [strip, unblanked_stripEnd, stripStart, unblanked_dropWhile]

/-- Line feeds are blank. -/
theorem unblanked_unlines (ls : List Text) : unblanked (unlines ls) = ls.flatMap unblanked := by
  induction ls with
  | nil => rfl
  | cons line rest ih =>
      have hfeed : ∀ t : Text, unblanked ('\n' :: t) = unblanked t := fun _ => rfl
      cases rest with
      | nil => simp [unlines]
      | cons next rest => rw [unlines, unblanked_append, hfeed, ih, ← List.flatMap_cons]

/-- A solid character occurs as often in a text as in what trimming leaves of it. -/
theorem count_eq_of_unblanked_eq {s t : Text} {c : Char} (hc : isBlank c = false)
    (h : unblanked s = unblanked t) : s.count c = t.count c := by
  have hcount : ∀ u : Text, (unblanked u).count c = u.count c :=
    fun u => List.count_filter (by simp [hc])
  rw [← hcount s, h, hcount]

/-- What a scan has passed over is what is not left of the text. -/
theorem exists_unblanked_eq {cs rest t : Text} (hrest : rest <:+ cs)
    (h : unblanked cs = unblanked t ++ unblanked rest) :
    ∃ x, cs = x ++ rest ∧ unblanked x = unblanked t := by
  obtain ⟨x, rfl⟩ := hrest
  rw [unblanked_append] at h
  exact ⟨x, rfl, List.append_cancel_right h⟩

end Text

theorem unblanked_of_afterWord? {word cs rest : Text} (h : afterWord? word cs = some rest) :
    Text.unblanked cs = Text.unblanked word ++ Text.unblanked rest := by
  obtain ⟨tail, htail, rfl⟩ := Option.map_eq_some_iff.1 h
  rw [Text.after?_eq_some_iff.1 htail, Text.unblanked_append, Text.unblanked_dropWhile]

end RazorLayout
