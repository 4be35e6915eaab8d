import RazorLayout.Document.Format
import RazorLayout.Proofs.Tag.Spelling

/-!
# Line endings

A document may end its lines with a carriage return and a line feed.  The carriage returns are
dropped before the layout and put back behind it.

Results.  `dropCr_addCr`: adding carriage returns and dropping them again changes nothing.
`addCr_dropCr`: dropping them and adding them again changes nothing either, where one stands in
front of every line feed.
-/

namespace RazorLayout

section Adding

theorem addCr_newline (t : Text) : addCr ('\n' :: t) = '\r' :: '\n' :: addCr t := rfl

theorem addCr_cons {c : Char} (hc : c ≠ '\n') (t : Text) : addCr (c :: t) = c :: addCr t := by
  simp [addCr, hc]

theorem dropCr_of_hasCrLf {t : Text} (h : hasCrLf t = false) : dropCr t = t := by
  fun_induction dropCr t with
  | case1 cs ih => cases h
  | case2 c cs hne ih =>
      rw [ih]
      rwa [hasCrLf] at h
      exact hne
  | case3 => rfl

/-- Adding the carriage returns and dropping them again changes nothing. -/
theorem dropCr_addCr (t : Text) : dropCr (addCr t) = t := by
  induction t with
  | nil => rfl
  | cons c t ih =>
      by_cases hc : c = '\n'
      · rw [hc, addCr_newline, dropCr, ih]
      · -- What is added never starts with a line feed.
        have hfirst : ∀ rest, addCr t ≠ '\n' :: rest := by
          intro rest
          cases t with
          | nil => simp [addCr]
          | cons d t =>
              by_cases hd : d = '\n' <;> simp [addCr, hd]
        rw [addCr_cons hc, dropCr, ih]
        intro rest _ hrest
        exact hfirst rest hrest

theorem addCr_of_isLine {t : Text} (h : Text.IsLine t) : addCr t = t := by
  induction t with
  | nil => rfl
  | cons c t ih =>
      obtain ⟨hc, ht⟩ := isLine_cons.1 h
      rw [addCr_cons hc, ih ht]

theorem hasCrLf_cons_eq_true (c : Char) {t : Text} (h : hasCrLf t = true) :
    hasCrLf (c :: t) = true := by
  unfold hasCrLf
  split
  · rfl
  · rename_i heq
    rw [← (List.cons.inj heq).2]
    exact h
  · rename_i heq
    cases heq

theorem hasCrLf_addCr {t : Text} (h : ¬ Text.IsLine t) : hasCrLf (addCr t) = true := by
  induction t with
  | nil => exact absurd isLine_nil h
  | cons c t ih =>
      by_cases hc : c = '\n'
      · rw [hc, addCr_newline, hasCrLf]
      · rw [addCr_cons hc]
        exact hasCrLf_cons_eq_true c (ih fun ht => h (isLine_cons.2 ⟨hc, ht⟩))

/-- A line that no carriage return ends brings no pair. -/
theorem hasCrLf_append_newline {line t : Text} (hline : Text.IsLine line)
    (hlast : line.getLast? ≠ some '\r') : hasCrLf (line ++ '\n' :: t) = hasCrLf t := by
  induction line with
  | nil => rfl
  | cons c line ih =>
      obtain ⟨hc, hrest⟩ := isLine_cons.1 hline
      have htail : hasCrLf (line ++ '\n' :: t) = hasCrLf t := by
        cases line with
        | nil => rfl
        | cons d line => exact ih hrest (by simpa using hlast)
      rw [List.cons_append, hasCrLf, htail]
      rintro rest rfl heq
      cases line with
      | nil => exact hlast rfl
      | cons d line =>
          obtain ⟨rfl, -⟩ := List.cons.inj heq
          exact (isLine_cons.1 hrest).1 rfl

theorem hasCrLf_of_isLine {t : Text} (h : Text.IsLine t) : hasCrLf t = false := by
  induction t with
  | nil => rfl
  | cons c t ih =>
      obtain ⟨-, ht⟩ := isLine_cons.1 h
      rw [hasCrLf, ih ht]
      rintro rest - rfl
      exact (isLine_cons.1 ht).1 rfl

theorem hasCrLf_unlines {ls : List Text}
    (h : ∀ line ∈ ls, Text.IsLine line ∧ line.getLast? ≠ some '\r') :
    hasCrLf (Text.unlines ls) = false := by
  match ls with
  | [] => rfl
  | [line] => exact hasCrLf_of_isLine (h line (by simp)).1
  | line :: next :: rest =>
      obtain ⟨hline, hrest⟩ := List.forall_mem_cons.1 h
      rw [Text.unlines, hasCrLf_append_newline hline.1 hline.2]
      exact hasCrLf_unlines hrest

theorem addCr_inj {s t : Text} : addCr s = addCr t ↔ s = t := by
  constructor
  · intro h
    rw [← dropCr_addCr s, h, dropCr_addCr]
  · rintro rfl
    rfl

end Adding

section Dropping

/-- Whether the line endings of a document are of one kind: no carriage return in front of a line
feed, or one in front of every line feed. -/
def HasUniformEndings (t : Text) : Prop :=
  hasCrLf t = false ∨ ∀ front back, t = front ++ '\n' :: back → front.getLast? = some '\r'

/-- Carriage returns that stand in front of every line feed can be dropped and put back. -/
theorem addCr_dropCr {t : Text}
    (h : ∀ front back, t = front ++ '\n' :: back → front.getLast? = some '\r') :
    addCr (dropCr t) = t := by
  fun_induction dropCr t with
  | case1 cs ih =>
      rw [addCr_newline, ih]
      rintro front back rfl
      have hlast := h ('\r' :: '\n' :: front) back rfl
      cases front with
      | nil => cases hlast
      | cons c front => simpa using hlast
  | case2 c cs hne ih =>
      have hc : c ≠ '\n' := by
        rintro rfl
        cases h [] cs rfl
      rw [addCr_cons hc, ih]
      rintro front back rfl
      have hlast := h (c :: front) back rfl
      cases front with
      | nil =>
          have hcr : c = '\r' := by
            simpa using hlast
          exact absurd rfl (hne back hcr)
      | cons d front => simpa using hlast
  | case3 => rfl

/-- What has carriage returns added has one in front of every line feed. -/
theorem getLast?_of_addCr {t front back : Text} (h : addCr t = front ++ '\n' :: back) :
    front.getLast? = some '\r' := by
  induction t generalizing front with
  | nil => simp [addCr] at h
  | cons c t ih =>
      by_cases hc : c = '\n'
      · subst hc
        rw [addCr_newline] at h
        match front with
        | [] => cases h
        | [d] =>
            cases h
            rfl
        | d :: e :: front =>
            have hlast := ih (List.cons.inj (List.cons.inj h).2).2
            simp [List.getLast?_cons, hlast]
      · rw [addCr_cons hc] at h
        cases front with
        | nil => exact absurd (List.cons.inj h).1 hc
        | cons d front =>
            have hlast := ih (List.cons.inj h).2
            simp [List.getLast?_cons, hlast]

end Dropping

end RazorLayout
