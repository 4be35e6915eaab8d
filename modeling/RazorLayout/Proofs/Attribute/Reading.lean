import RazorLayout.Proofs.Tag.Spelling
import RazorLayout.Proofs.Text.Unblanked

/-!
# What reading attributes keeps

An attribute is read in one of five ways: a run of characters that starts no name, a bare name, or
a name with a value that is quoted, quoted without an end, or unquoted.  Writing the attribute again
drops blanks around it and adds the quotes that its source lacks, and nothing else.

* `Attribute.Reads` says in which way an attribute is read from the front of a text;
* `Attribute.ReadsAll` says how a text is read from one attribute to the next;
* `Text.AddsQuotes` says that a text is another one with quotes put into it.

Results.  `reads_read` and `readsAll_readAll`: the reader reads in these ways.
`Reads.addsQuotes`: what one attribute accounts for.  `readAll_keeps_source`: hence the attributes
of a text, written one behind the other, are the text with quotes put into it, up to blanks.
-/

namespace RazorLayout

open Text (unblanked)

section AddedQuotes

/-- The second text is the first one with quote characters put into it. -/
inductive Text.AddsQuotes : Text → Text → Prop
  | nil : AddsQuotes [] []
  | keep (c : Char) {s t : Text} : AddsQuotes s t → AddsQuotes (c :: s) (c :: t)
  | quote {c : Char} {s t : Text} : isQuote c = true → AddsQuotes s t → AddsQuotes s (c :: t)

namespace Text.AddsQuotes

variable {s t u v : Text}

theorem refl (s : Text) : AddsQuotes s s := by
  induction s with
  | nil => exact .nil
  | cons c s ih => exact .keep c ih

theorem append (h : AddsQuotes s t) (h' : AddsQuotes u v) : AddsQuotes (s ++ u) (t ++ v) := by
  induction h with
  | nil => exact h'
  | keep c _ ih => exact .keep c ih
  | quote hquote _ ih => exact .quote hquote ih

theorem trans (h : AddsQuotes s t) (h' : AddsQuotes t u) : AddsQuotes s u := by
  induction h' generalizing s with
  | nil => exact h
  | keep c _ ih =>
      cases h with
      | keep _ h => exact .keep c (ih h)
      | quote hquote h => exact .quote hquote (ih h)
  | quote hquote _ ih => exact .quote hquote (ih h)

theorem concat {c : Char} (hquote : isQuote c = true) (s : Text) : AddsQuotes s (s ++ [c]) := by
  have hend : AddsQuotes (s ++ []) (s ++ [c]) := (refl s).append (.quote hquote .nil)
  rwa [List.append_nil] at hend

end Text.AddsQuotes

theorem unblanked_cons_of_isQuote {c : Char} (hquote : isQuote c = true) (t : Text) :
    unblanked (c :: t) = c :: unblanked t := by
  simp [unblanked, isBlank_eq_false_of_isQuote hquote]

end AddedQuotes

namespace Attribute

section Ways

/-- The ways in which an attribute is read from the front of a text, with the text behind it. -/
inductive Reads : Text → Attribute → Text → Prop
  /-- Characters up to the next space that start no name. -/
  | run {c : Char} {cs : Text} :
      splitName? (c :: cs) = none →
      Reads (c :: cs) { name := c :: (splitRun cs).1 } (splitRun cs).2
  /-- A name without an equals sign behind it. -/
  | bare {cs name rest : Text} :
      splitName? cs = some (name, rest) →
      afterEquals? rest = none →
      Reads cs { name := name } rest
  /-- A value between two quotes. -/
  | closed {cs name behind inner value rest : Text} {quote : Char} :
      splitName? cs = some (name, behind) →
      afterEquals? behind = some (quote :: inner) →
      isQuote quote = true →
      splitQuoted? quote inner = some (value, rest) →
      Reads cs { name := name, value := some value, quote := some [quote] } rest
  /-- A value behind a quote that no other quote ends. -/
  | unclosed {cs name behind inner : Text} {quote : Char} :
      splitName? cs = some (name, behind) →
      afterEquals? behind = some (quote :: inner) →
      isQuote quote = true →
      splitQuoted? quote inner = none →
      Reads cs { name := name, value := some inner, quote := some [quote] } []
  /-- A value without a quote in front of it. -/
  | unquoted {cs name behind inner : Text} :
      splitName? cs = some (name, behind) →
      afterEquals? behind = some inner →
      (∀ c ∈ inner.head?, isQuote c = false) →
      Reads cs { name := name, value := some (splitBare inner).1, quote := some ['"'] }
        (splitBare inner).2

/-- The attributes of a text, each behind a gap. -/
inductive ReadsAll : Text → List Attribute → Prop
  | nil {gap : Text} : Text.IsGap gap → ReadsAll gap []
  | cons {gap cs rest : Text} {c : Char} {a : Attribute} {attributes : List Attribute} :
      Text.IsGap gap →
      isSpace c = false →
      Reads (c :: cs) a rest →
      ReadsAll rest attributes →
      ReadsAll (gap ++ c :: cs) (a :: attributes)

/-- The reader decides by the name, the equals sign and the quote, in this order. -/
theorem reads_read (c : Char) (cs : Text) : Reads (c :: cs) (read c cs).1 (read c cs).2 := by
  unfold read
  split
  · rename_i hname
    exact .run hname
  · rename_i name behind hname
    split
    · rename_i hequals
      exact .bare hname hequals
    · rename_i inner hequals
      cases inner with
      | nil => exact .unquoted hname hequals (by simp)
      | cons quote inner =>
          by_cases hquote : isQuote quote = true
          · simp only [readValue, if_pos hquote]
            cases hvalue : splitQuoted? quote inner with
            | none => exact .unclosed hname hequals hquote hvalue
            | some parts => exact .closed hname hequals hquote hvalue
          · simp only [readValue, if_neg hquote]
            exact .unquoted hname hequals (by simpa using hquote)

theorem readsAll_readAll (cs : Text) : ReadsAll cs (readAll cs) := by
  fun_induction readAll cs with
  | case1 cs hnil =>
      obtain ⟨gap, hgap, hcs⟩ := Text.exists_gap cs
      rw [hnil, List.append_nil] at hcs
      exact .nil (hcs ▸ hgap)
  | case2 cs c rest hcons ih =>
      obtain ⟨gap, hgap, hcs⟩ := Text.exists_gap cs
      have hspace : isSpace c = false := Text.eq_false_of_dropWhile hcons
      rw [hcs, hcons]
      exact .cons hgap hspace (reads_read c rest) ih

theorem ReadsAll.exists_reads {cs : Text} {attributes : List Attribute} (h : ReadsAll cs attributes)
    {a : Attribute} (ha : a ∈ attributes) :
    ∃ c text rest, isSpace c = false ∧ Reads (c :: text) a rest := by
  induction h with
  | nil _ => cases ha
  | cons _ hspace hreads _ ih =>
      rcases List.mem_cons.1 ha with rfl | ha
      · exact ⟨_, _, _, hspace, hreads⟩
      · exact ih ha

end Ways

section Source

variable {cs rest : Text} {a : Attribute}

theorem unblanked_of_afterEquals? (h : afterEquals? cs = some rest) :
    unblanked cs = '=' :: unblanked rest := by
  unfold afterEquals? at h
  split at h
  · rename_i tail htail
    cases h
    rw [Text.unblanked_dropWhile, ← Text.unblanked_dropWhile cs, htail]
    rfl
  · cases h

/-- A name, the equals sign and what stands behind it. -/
theorem unblanked_of_splitName? {name behind inner : Text}
    (hname : splitName? cs = some (name, behind)) (hequals : afterEquals? behind = some inner) :
    unblanked cs = unblanked name ++ '=' :: unblanked inner := by
  rw [(splitName?_eq hname).1, Text.unblanked_append, unblanked_of_afterEquals? hequals]

theorem unblanked_render_quoted {name value : Text} {quote : Char} (hquote : isQuote quote = true) :
    unblanked (render { name := name, value := some value, quote := some [quote] }) =
      unblanked name ++ '=' :: (quote :: unblanked value ++ [quote]) := by
  rw [render_quoted, Text.unblanked_append, Text.unblanked_cons '=',
    unblanked_cons_of_isQuote hquote, Text.unblanked_append, unblanked_cons_of_isQuote hquote]
  rfl

/-- What an attribute accounts for: both quotes are in the source, or only the first one, or
none. -/
theorem Reads.addsQuotes (h : Reads cs a rest) :
    (unblanked cs).AddsQuotes (unblanked a.render ++ unblanked rest) := by
  cases h with
  | @run c cs hname =>
      have hcs : c :: cs = (c :: (splitRun cs).1) ++ (splitRun cs).2 := by
        rw [List.cons_append, splitRun_append]
      conv_lhs => rw [hcs, Text.unblanked_append]
      exact .refl _
  | bare hname hequals =>
      rw [(splitName?_eq hname).1, Text.unblanked_append]
      exact .refl _
  | closed hname hequals hquote hvalue =>
      rw [unblanked_of_splitName? hname hequals, splitQuoted?_eq hvalue,
        unblanked_render_quoted hquote, unblanked_cons_of_isQuote hquote, Text.unblanked_append,
        unblanked_cons_of_isQuote hquote]
      simpa using Text.AddsQuotes.refl _
  | @unclosed _ name behind inner quote hname hequals hquote hvalue =>
      rw [unblanked_of_splitName? hname hequals, unblanked_render_quoted hquote,
        unblanked_cons_of_isQuote hquote, Text.unblanked_nil, List.append_nil]
      exact (Text.AddsQuotes.refl _).append (.keep '=' (.concat hquote _))
  | @unquoted _ name behind inner hname hequals hhead =>
      have hinner : unblanked inner =
          unblanked (splitBare inner).1 ++ unblanked (splitBare inner).2 := by
        rw [← Text.unblanked_append, splitBare_append]
      have hquote : isQuote '"' = true := by decide
      rw [unblanked_of_splitName? hname hequals, unblanked_render_quoted hquote, hinner,
        List.append_assoc]
      exact (Text.AddsQuotes.refl _).append
        (.keep '=' (.append (.quote hquote (.concat hquote _)) (.refl _)))

/-- An attribute has a name, and a quote together with its value. -/
theorem Reads.wellFormed (h : Reads cs a rest) :
    a.name ≠ [] ∧ (a.value.isSome = true ↔ a.quote.isSome = true) := by
  cases h with
  | run hname => exact ⟨List.cons_ne_nil _ _, by simp⟩
  | bare hname hequals => exact ⟨(splitName?_eq hname).2, by simp⟩
  | closed hname hequals hquote hvalue => exact ⟨(splitName?_eq hname).2, by simp⟩
  | unclosed hname hequals hquote hvalue => exact ⟨(splitName?_eq hname).2, by simp⟩
  | unquoted hname hequals hhead => exact ⟨(splitName?_eq hname).2, by simp⟩

theorem ReadsAll.addsQuotes {attributes : List Attribute} (h : ReadsAll cs attributes) :
    (unblanked cs).AddsQuotes (unblanked (attributes.flatMap render)) := by
  induction h with
  | nil hgap =>
      rw [Text.unblanked_of_isGap hgap]
      exact .nil
  | @cons gap cs rest c a attributes hgap hspace hreads hrest ih =>
      rw [Text.unblanked_append, Text.unblanked_of_isGap hgap, List.nil_append,
        List.flatMap_cons, Text.unblanked_append]
      exact hreads.addsQuotes.trans ((Text.AddsQuotes.refl _).append ih)

end Source

/-- The attributes of a text have names, and quotes exactly where they have values.  Written one
behind the other they are the text, up to blanks, with quotes put into it. -/
theorem readAll_keeps_source (cs : Text) :
    (∀ a ∈ readAll cs, a.name ≠ [] ∧ (a.value.isSome = true ↔ a.quote.isSome = true)) ∧
      (unblanked cs).AddsQuotes (unblanked ((readAll cs).flatMap render)) := by
  refine ⟨fun a ha => ?_, (readsAll_readAll cs).addsQuotes⟩
  obtain ⟨c, text, rest, -, hreads⟩ := (readsAll_readAll cs).exists_reads ha
  exact hreads.wellFormed

/-- One attribute of each kind: a run with a quote in it, a bare name, a value with an expression
that hides a quote, an unquoted value, and a value without an end. -/
theorem readAll_keeps_source_five_ways :
    let cs := "\"x\"= b\n@c = '@f('')' d=e\"f g=\" h".toList
    let bare : Attribute := { name := ['b'] }
    bare ∈ readAll cs ∧ bare.name ≠ [] ∧
      (unblanked cs).AddsQuotes "\"x\"=b@c='@f('')'d=\"e\"f\"g=\"h\"".toList := by
  intro cs bare
  have hread : bare ∈ readAll cs := by decide +kernel
  have hwritten : unblanked ((readAll cs).flatMap render) =
      "\"x\"=b@c='@f('')'d=\"e\"f\"g=\"h\"".toList := by
    decide +kernel
  obtain ⟨hformed, hquotes⟩ := readAll_keeps_source cs
  exact ⟨hread, (hformed bare hread).1, hwritten ▸ hquotes⟩

end Attribute

end RazorLayout
