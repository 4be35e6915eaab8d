import RazorLayout.Proofs.Scan.Delimited
import RazorLayout.Proofs.Scan.Passing
import RazorLayout.Proofs.Text.Rows

/-!
# The spellings of a tag

A tag may be written with any gaps between its parts: in front of each attribute, where the gap
must not be empty, and in front of its ending.

* `SpellsAttributes` and `Tag.Spells` relate attributes and tags to their spellings;
* `Skims` says that the search for the end of a tag passes over a piece of it.

Values may hold anything, embedded expressions included, as long as the reader takes them up to the
quote behind them (`Attribute.isPrintable`).

Results.  `readAll_of_spells`: every spelling of printable attributes is read as these attributes.
`Tag.Spells.exists_inside`: the end of a printable tag is found.  `tagOf_spelling`: what is found is
read as the tag.
-/

namespace RazorLayout

section Characters

theorem isNameChar_of_isIdentifierChar {c : Char} (h : isIdentifierChar c = true) :
    isNameChar c = true := by
  simp [isNameChar, h]

theorem isNameChar_of_isAlpha {c : Char} (h : c.isAlpha = true) : isNameChar c = true :=
  isNameChar_of_isIdentifierChar (by simp [isIdentifierChar, h])

/-- A name character is none of the characters that the scanners of tags look for. -/
theorem ne_of_isNameChar {c d : Char} (h : isNameChar c = true) (hd : isNameChar d = false) :
    c ≠ d := by
  rintro rfl
  rw [h] at hd
  cases hd

theorem of_forall_ascii {P : Char → Prop} (h : ∀ code : Fin 128, P (Char.ofNat code)) {c : Char}
    (hc : c.toNat < 128) : P c := by
  have hcode := h ⟨c.toNat, hc⟩
  rwa [Char.ofNat_toNat] at hcode

theorem isBlank_eq_false_of_isNameChar {c : Char} (h : isNameChar c = true) :
    isBlank c = false :=
  of_forall_ascii (P := fun c => isNameChar c = true → isBlank c = false) (by decide)
    (lt_of_isNameChar h) h

theorem isBlank_eq_false_of_isQuote {c : Char} (h : isQuote c = true) : isBlank c = false := by
  simp only [isQuote, Bool.or_eq_true, beq_iff_eq] at h
  rcases h with rfl | rfl <;> decide

theorem isSpace_eq_false_of_isNameChar {c : Char} (h : isNameChar c = true) :
    isSpace c = false := by
  by_contra hspace
  have hblank := isBlank_of_isSpace (by simpa using hspace)
  rw [isBlank_eq_false_of_isNameChar h] at hblank
  cases hblank

theorem isNameChar_eq_false_of_isSpace {c : Char} (h : isSpace c = true) :
    isNameChar c = false := by
  by_contra hname
  rw [isSpace_eq_false_of_isNameChar (by simpa using hname)] at h
  cases h

end Characters

section Names

/-- A text in front of which a name ends, and an expression that the name starts with as well. -/
def EndsName (rest : Text) : Prop :=
  ∀ c ∈ rest.head?, isNameChar c = false ∧ c ≠ '(' ∧ c ≠ '['

theorem endsName_nil : EndsName [] := by
  simp [EndsName]

theorem endsName_cons {c : Char} {rest : Text} :
    EndsName (c :: rest) ↔ isNameChar c = false ∧ c ≠ '(' ∧ c ≠ '[' := by
  simp [EndsName]

theorem endsName_of_isSpace {c : Char} (h : isSpace c = true) (rest : Text) :
    EndsName (c :: rest) := by
  refine endsName_cons.2 ⟨isNameChar_eq_false_of_isSpace h, ?_, ?_⟩
  · rintro rfl
    exact absurd h (by decide)
  · rintro rfl
    exact absurd h (by decide)

theorem EndsName.gap_append {g rest : Text} (hg : Text.IsGap g) (h : EndsName rest) :
    EndsName (g ++ rest) := by
  cases g with
  | nil => exact h
  | cons c g => exact endsName_of_isSpace (hg c List.mem_cons_self) _

variable {name rest : Text}

theorem EndsName.isNameChar (h : EndsName rest) :
    ∀ c ∈ rest.head?, isNameChar c = false :=
  fun c hc => (h c hc).1

theorem EndsName.isIdentifierChar (h : EndsName rest) :
    ∀ c ∈ rest.head?, isIdentifierChar c = false := by
  intro c hc
  by_contra hid
  have hname := isNameChar_of_isIdentifierChar (by simpa using hid)
  rw [(h c hc).1] at hname
  cases hname

/-- Accessors end no later than the name that they start in. -/
theorem splitAccessors_name (hname : ∀ c ∈ name, isNameChar c = true) (hrest : EndsName rest) :
    ∃ accessors tail, name = accessors ++ tail ∧
      splitAccessors (name ++ rest) = (accessors, tail ++ rest) := by
  induction hn : name.length using Nat.strongRecOn generalizing name with
  | ind n ih =>
      cases name with
      | nil =>
          refine ⟨[], [], rfl, splitAccessors_of_ne fun c hc => ⟨?_, (hrest c hc).2⟩⟩
          rintro rfl
          exact absurd (hrest _ hc).1 (by decide)
      | cons c cs =>
          by_cases hc : c = '.'
          · subst hc
            have hcs : ∀ c ∈ afterIdentifier cs, isNameChar c = true := by
              intro c hc
              exact hname c (List.mem_cons_of_mem _ ((afterIdentifier_suffix cs).subset hc))
            have hlength : (afterIdentifier cs).length < n := by
              have := (afterIdentifier_suffix cs).length_le
              simp only [List.length_cons] at hn
              omega
            obtain ⟨accessors, tail, hsplit, hread⟩ := ih _ hlength hcs rfl
            refine ⟨'.' :: cs.takeWhile isIdentifierChar ++ accessors, tail, ?_, ?_⟩
            · rw [List.append_assoc, ← hsplit, List.cons_append, takeWhile_afterIdentifier]
            · rw [List.cons_append, splitAccessors, takeWhile_append_stop hrest.isIdentifierChar,
                afterIdentifier, dropWhile_append_stop hrest.isIdentifierChar, ← afterIdentifier,
                hread]
          · refine ⟨[], c :: cs, rfl, splitAccessors_of_ne fun d hd => ?_⟩
            have hcd : c = d := by
              simpa using hd
            have hchar := hname c List.mem_cons_self
            exact hcd ▸ ⟨hc, ne_of_isNameChar hchar (by decide), ne_of_isNameChar hchar (by decide)⟩

/-- An expression ends no later than the name that it starts with. -/
theorem splitExpression_name (hname : ∀ c ∈ name, isNameChar c = true) (hrest : EndsName rest) :
    ∃ expression tail, name = expression ++ tail ∧
      splitExpression (name ++ rest) = (expression, tail ++ rest) := by
  cases name with
  | nil =>
      refine ⟨[], [], rfl, ?_⟩
      cases rest with
      | nil => rfl
      | cons c rest =>
          obtain ⟨hc, hparen, hbracket⟩ := endsName_cons.1 hrest
          have hstart : isIdentifierStart c = false := by
            by_contra hstart
            have hchar : isIdentifierChar c = true := by
              simp only [isIdentifierStart, Bool.not_eq_false] at hstart
              simp [isIdentifierChar, hstart]
            rw [isNameChar_of_isIdentifierChar hchar] at hc
            cases hc
          simp [splitExpression, hparen, hbracket, hstart]
  | cons c cs =>
      have hchar := hname c List.mem_cons_self
      have hparen : c ≠ '(' := ne_of_isNameChar hchar (by decide)
      have hbracket : c ≠ '[' := ne_of_isNameChar hchar (by decide)
      by_cases hstart : isIdentifierStart c = true
      · have hcs : ∀ c ∈ afterIdentifier cs, isNameChar c = true := by
          intro c hc
          exact hname c (List.mem_cons_of_mem _ ((afterIdentifier_suffix cs).subset hc))
        obtain ⟨accessors, tail, hsplit, hread⟩ := splitAccessors_name hcs hrest
        refine ⟨c :: cs.takeWhile isIdentifierChar ++ accessors, tail, ?_, ?_⟩
        · rw [List.append_assoc, ← hsplit, List.cons_append, takeWhile_afterIdentifier]
        · have hafter : afterIdentifier (cs ++ rest) = afterIdentifier cs ++ rest :=
            dropWhile_append_stop hrest.isIdentifierChar
          simp [splitExpression, hparen, hbracket, hstart, hafter, hread,
            takeWhile_append_stop hrest.isIdentifierChar]
      · exact ⟨[], c :: cs, rfl, by simp [splitExpression, hparen, hbracket, hstart]⟩

end Names

section Spellings

/-- Attributes one after the other, each behind a gap. -/
def SpellsAttributes : List Attribute → Text → Prop
  | [], t => t = []
  | a :: attributes, t => ∃ g rest, t = g ++ a.render ++ rest ∧ Text.IsGap g ∧ g ≠ [] ∧
      SpellsAttributes attributes rest

/-- A tag whose attributes and ending stand behind gaps. -/
def Tag.Spells (tag : Tag) (ending : TagEnd) (t : Text) : Prop :=
  ∃ inner gap, t = '<' :: tag.name ++ inner ++ gap ++ ending.stackedText ∧
    SpellsAttributes tag.attributes inner ∧ Text.IsGap gap

/-- A value that the reader takes up to the quote behind it: no other quote ends it, and no
expression in it runs on over that quote. -/
def Attribute.endsAtQuote (quote : Char) (value : Text) : Bool :=
  splitQuoted? quote (value ++ [quote]) == some (value, [])

/-- A bare attribute, or one with a value that ends at its quote. -/
def Attribute.isPrintable (a : Attribute) : Bool :=
  isAttributeName a.name &&
    (match a.value, a.quote with
      | none, none => true
      | some value, some [quote] => isQuote quote && endsAtQuote quote value
      | _, _ => false)

/-- A tag with a proper name and printable attributes. -/
def Tag.isPrintable (tag : Tag) : Bool :=
  isTagName tag.name && tag.attributes.all Attribute.isPrintable

/-- What a readable attribute looks like. -/
theorem Attribute.isReadable_cases {a : Attribute} (h : a.isReadable = true) :
    isAttributeName a.name = true ∧
      (a = { name := a.name } ∨
        ∃ value quote, a = { name := a.name, value := some value, quote := some [quote] } ∧
          isQuote quote = true ∧ ∀ c ∈ value, isValueChar c = true) := by
  obtain ⟨name, value, quote⟩ := a
  simp only [isReadable, Bool.and_eq_true] at h
  obtain ⟨hname, hvalue⟩ := h
  refine ⟨hname, ?_⟩
  cases value with
  | none =>
      left
      simpa using hvalue
  | some value =>
      right
      simp only [Bool.and_eq_true, Bool.or_eq_true, beq_iff_eq, List.all_eq_true] at hvalue
      rcases hvalue with ⟨rfl | rfl, hchars⟩
      · exact ⟨value, '"', rfl, rfl, hchars⟩
      · exact ⟨value, '\'', rfl, rfl, hchars⟩

/-- Behind a value that ends at its quote any text may follow. -/
theorem Attribute.splitQuoted?_of_endsAtQuote {quote : Char} {value : Text}
    (h : endsAtQuote quote value = true) (rest : Text) :
    splitQuoted? quote (value ++ quote :: rest) = some (value, rest) := by
  have hread : splitQuoted? quote (value ++ [quote] ++ []) = some (value, []) := by
    simpa [endsAtQuote] using h
  have hother := (selfDelimiting_splitQuoted? quote).read hread rest
  rwa [List.append_assoc] at hother

theorem Attribute.endsAtQuote_of_forall {quote : Char} {value : Text}
    (h : ∀ c ∈ value, c ≠ quote ∧ c ≠ '@') : endsAtQuote quote value = true := by
  rw [endsAtQuote, beq_iff_eq]
  induction value with
  | nil => simp [splitQuoted?]
  | cons c value ih =>
      obtain ⟨hquote, hsigil⟩ := h c List.mem_cons_self
      have hrest := ih fun d hd => h d (List.mem_cons_of_mem c hd)
      rw [List.cons_append, splitQuoted?, if_neg hquote, if_neg (by simpa [sigil] using hsigil),
        hrest]
      rfl

/-- What a printable attribute looks like. -/
theorem Attribute.isPrintable_cases {a : Attribute} (h : a.isPrintable = true) :
    isAttributeName a.name = true ∧
      (a = { name := a.name } ∨
        ∃ value quote, a = { name := a.name, value := some value, quote := some [quote] } ∧
          isQuote quote = true ∧ endsAtQuote quote value = true) := by
  obtain ⟨name, value, quote⟩ := a
  rw [isPrintable, Bool.and_eq_true] at h
  obtain ⟨hname, hvalue⟩ := h
  refine ⟨hname, ?_⟩
  split at hvalue
  · rename_i hnone hquote
    cases hnone
    cases hquote
    exact Or.inl rfl
  · rename_i value quote hsome hquote
    cases hsome
    cases hquote
    exact Or.inr ⟨value, quote, rfl, Bool.and_eq_true_iff.1 hvalue⟩
  · cases hvalue

theorem isValueChar_ne {c quote : Char} (h : isValueChar c = true) (hquote : isQuote quote = true) :
    c ≠ quote ∧ c ≠ '@' ∧ c ≠ '\\' := by
  simp [isValueChar] at h
  simp only [isQuote, Bool.or_eq_true, beq_iff_eq] at hquote
  rcases hquote with rfl | rfl
  · exact ⟨h.1, h.2.2.2, h.2.2.1⟩
  · exact ⟨h.2.1, h.2.2.2, h.2.2.1⟩

/-- A value without quotes and sigils ends at its quote. -/
theorem Attribute.isPrintable_of_isReadable {a : Attribute} (h : a.isReadable = true) :
    a.isPrintable = true := by
  obtain ⟨hname, ha | ⟨value, quote, ha, hquote, hvalue⟩⟩ := isReadable_cases h
  · rw [ha, isPrintable, Bool.and_eq_true]
    exact ⟨hname, rfl⟩
  · have hends : endsAtQuote quote value = true := by
      apply endsAtQuote_of_forall
      intro c hc
      exact ⟨(isValueChar_ne (hvalue c hc) hquote).1, (isValueChar_ne (hvalue c hc) hquote).2.1⟩
    rw [ha, isPrintable, Bool.and_eq_true]
    exact ⟨hname, by simp [hquote, hends]⟩

/-- A name of an attribute, with its sigil if it has one. -/
theorem isAttributeName_cases {name : Text} (h : isAttributeName name = true) :
    ∃ base, base ≠ [] ∧ (∀ c ∈ base, isNameChar c = true) ∧ (name = base ∨ name = '@' :: base) := by
  simp only [isAttributeName, Bool.and_eq_true, Bool.not_eq_true', List.isEmpty_eq_false_iff,
    List.all_eq_true] at h
  refine ⟨(Attribute.splitSigil name).2, h.1, h.2, ?_⟩
  unfold Attribute.splitSigil
  split
  · exact Or.inr rfl
  · exact Or.inl rfl

theorem Attribute.render_bare (name : Text) : render { name := name } = name := rfl

theorem Attribute.render_quoted (name value : Text) (quote : Char) :
    render { name := name, value := some value, quote := some [quote] } =
      name ++ '=' :: quote :: (value ++ [quote]) := by
  simp [render, quoteText]

theorem isTagName_cases {name : Text} (h : isTagName name = true) :
    ∃ c cs, name = c :: cs ∧ c.isAlpha = true ∧ ∀ d ∈ name, isNameChar d = true := by
  cases name with
  | nil => cases h
  | cons c cs =>
      simp only [isTagName, Bool.and_eq_true, List.all_eq_true] at h
      refine ⟨c, cs, rfl, h.1, ?_⟩
      intro d hd
      rcases List.mem_cons.1 hd with rfl | hd
      · exact isNameChar_of_isAlpha h.1
      · exact h.2 d hd

variable {attributes : List Attribute} {inner : Text}

theorem SpellsAttributes.endsName (h : SpellsAttributes attributes inner) {rest : Text}
    (hrest : EndsName rest) : EndsName (inner ++ rest) := by
  cases attributes with
  | nil =>
      rw [show inner = [] from h]
      exact hrest
  | cons a attributes =>
      obtain ⟨g, tail, rfl, hg, hne, -⟩ := h
      obtain ⟨c, g, rfl⟩ := List.exists_cons_of_ne_nil hne
      exact endsName_of_isSpace (hg c List.mem_cons_self) _

/-- The last character of a printable attribute: a name character or a quote. -/
theorem Attribute.getLast?_render {a : Attribute} (h : a.isPrintable = true) :
    ∃ c, a.render.getLast? = some c ∧ isBlank c = false ∧ c ≠ '/' := by
  obtain ⟨hname, ha | ⟨value, quote, ha, hquote, -⟩⟩ := isPrintable_cases h
  · obtain ⟨base, hne, hchars, hbase⟩ := isAttributeName_cases hname
    have hlast : a.render.getLast? = base.getLast? := by
      rw [ha, render_bare]
      rcases hbase with hbase | hbase
      · rw [hbase]
      · rw [hbase, List.getLast?_cons_of_ne_nil hne]
    have hmem := List.getLast_mem hne
    refine ⟨base.getLast hne, ?_, isBlank_eq_false_of_isNameChar (hchars _ hmem),
      ne_of_isNameChar (hchars _ hmem) (by decide)⟩
    rw [hlast, List.getLast?_eq_some_getLast hne]
  · refine ⟨quote, ?_, isBlank_eq_false_of_isQuote hquote, ?_⟩
    · rw [ha, render_quoted, ← List.cons_append, ← List.cons_append, ← List.append_assoc]
      exact List.getLast?_concat
    · rintro rfl
      exact absurd hquote (by decide)

theorem Attribute.render_ne_nil {a : Attribute} (h : a.isPrintable = true) : a.render ≠ [] := by
  obtain ⟨c, hlast, -⟩ := getLast?_render h
  intro hnil
  rw [hnil] at hlast
  cases hlast

theorem SpellsAttributes.getLast? (h : SpellsAttributes attributes inner)
    (hprintable : ∀ a ∈ attributes, a.isPrintable = true) :
    inner = [] ∨ ∃ c, inner.getLast? = some c ∧ isBlank c = false ∧ c ≠ '/' := by
  induction attributes generalizing inner with
  | nil => exact Or.inl h
  | cons a attributes ih =>
      obtain ⟨g, rest, rfl, -, -, hrest⟩ := h
      right
      have hothers := ih hrest fun b hb => hprintable b (List.mem_cons_of_mem a hb)
      rcases hothers with rfl | ⟨c, hc, hsolid⟩
      · obtain ⟨c, hc, hsolid⟩ := Attribute.getLast?_render (hprintable a List.mem_cons_self)
        refine ⟨c, ?_, hsolid⟩
        rw [List.append_nil, List.getLast?_append, hc]
        rfl
      · refine ⟨c, ?_, hsolid⟩
        rw [List.getLast?_append, hc]
        rfl

end Spellings

section Skimming

/-- The search for the end of a tag passes over `p` when `rest` stands behind it. -/
def Skims (p rest : Text) : Prop :=
  splitTag? none (p ++ rest) = (splitTag? none rest).map fun parts => (p ++ parts.1, parts.2)

theorem skims_nil (rest : Text) : Skims [] rest := by
  cases h : splitTag? none rest <;> simp [Skims, h]

theorem Skims.append {p q rest : Text} (hp : Skims p (q ++ rest)) (hq : Skims q rest) :
    Skims (p ++ q) rest := by
  rw [Skims, List.append_assoc, hp, hq, Option.map_map]
  congr 1
  funext parts
  simp

theorem skims_cons {c : Char} (hquote : isQuote c = false) (hsigil : c ≠ '@') (hend : c ≠ '>')
    (rest : Text) : Skims [c] rest := by
  simp [Skims, splitTag?, hquote, sigil, hsigil, hend]

theorem skims_of_forall {p : Text}
    (h : ∀ c ∈ p, isQuote c = false ∧ c ≠ '@' ∧ c ≠ '>') (rest : Text) : Skims p rest := by
  induction p with
  | nil => exact skims_nil rest
  | cons c p ih =>
      obtain ⟨hquote, hsigil, hend⟩ := h c List.mem_cons_self
      have hrest := ih fun d hd => h d (List.mem_cons_of_mem c hd)
      exact Skims.append (skims_cons hquote hsigil hend (p ++ rest)) hrest

theorem skims_name {name : Text} (h : ∀ c ∈ name, isNameChar c = true) (rest : Text) :
    Skims name rest := by
  apply skims_of_forall
  intro c hc
  refine ⟨?_, ne_of_isNameChar (h c hc) (by decide), ne_of_isNameChar (h c hc) (by decide)⟩
  have hdouble : c ≠ '"' := ne_of_isNameChar (h c hc) (by decide)
  have hsingle : c ≠ '\'' := ne_of_isNameChar (h c hc) (by decide)
  simp [isQuote, hdouble, hsingle]

theorem skims_gap {g : Text} (h : Text.IsGap g) (rest : Text) : Skims g rest := by
  apply skims_of_forall
  intro c hc
  have hspace := h c hc
  refine ⟨?_, ?_, ?_⟩
  · by_contra hquote
    have hblank := isBlank_eq_false_of_isQuote (by simpa using hquote)
    rw [isBlank_of_isSpace hspace] at hblank
    cases hblank
  · rintro rfl
    exact absurd hspace (by decide)
  · rintro rfl
    exact absurd hspace (by decide)

/-- A name behind a sigil is passed over, whatever part of it is an expression. -/
theorem skims_sigil_name {name rest : Text} (h : ∀ c ∈ name, isNameChar c = true)
    (hrest : EndsName rest) : Skims ('@' :: name) rest := by
  obtain ⟨expression, tail, rfl, hread⟩ := splitExpression_name h hrest
  have htail : Skims tail rest :=
    skims_name (fun c hc => h c (List.mem_append_right expression hc)) rest
  have hstep : splitTag? none ('@' :: (expression ++ tail ++ rest)) =
      (splitTag? none (tail ++ rest)).map
        fun parts => ('@' :: expression ++ parts.1, parts.2) := by
    rw [splitTag?, if_neg (by decide), if_pos (by decide), afterExpression, hread]
  rw [Skims, List.cons_append, hstep, htail, Option.map_map]
  congr 1
  funext parts
  simp

/-- The search for the end of a tag passes over a quoted value as the reader of attributes does. -/
theorem splitTag?_quoted {quote : Char} {cs value rest : Text}
    (h : Attribute.splitQuoted? quote cs = some (value, rest)) :
    splitTag? (some quote) cs =
      (splitTag? none rest).map fun parts => (value ++ quote :: parts.1, parts.2) := by
  fun_induction Attribute.splitQuoted? quote cs generalizing value with
  | case1 => cases h
  | case2 cs =>
      cases h
      rw [splitTag?, if_pos rfl]
      rfl
  | case3 cs hquote ih =>
      obtain ⟨⟨inner, tail⟩, hi, he⟩ := Option.map_eq_some_iff.1 h
      cases he
      rw [splitTag?, if_neg hquote, if_pos rfl, ih hi, Option.map_map]
      congr 1
      funext parts
      simp
  | case4 c cs hquote hsigil ih =>
      obtain ⟨⟨inner, tail⟩, hi, he⟩ := Option.map_eq_some_iff.1 h
      cases he
      rw [splitTag?, if_neg hquote, if_neg hsigil, ih hi, Option.map_map]
      rfl

theorem skims_quoted {quote : Char} {value : Text} (hquote : isQuote quote = true)
    (h : Attribute.endsAtQuote quote value = true) (rest : Text) :
    Skims (quote :: (value ++ [quote])) rest := by
  have hassoc : quote :: (value ++ [quote]) ++ rest = quote :: (value ++ quote :: rest) := by
    simp
  rw [Skims, hassoc, splitTag?, if_pos hquote,
    splitTag?_quoted (Attribute.splitQuoted?_of_endsAtQuote h rest), Option.map_map]
  congr 1
  funext parts
  simp

theorem skims_render {a : Attribute} (h : a.isPrintable = true) {rest : Text}
    (hrest : EndsName rest) : Skims a.render rest := by
  obtain ⟨hname, hcases⟩ := Attribute.isPrintable_cases h
  have hskim : ∀ {tail : Text}, EndsName tail → Skims a.name tail := by
    intro tail htail
    obtain ⟨base, -, hchars, hbase | hbase⟩ := isAttributeName_cases hname
    · rw [hbase]
      exact skims_name hchars tail
    · rw [hbase]
      exact skims_sigil_name hchars htail
  rcases hcases with ha | ⟨value, quote, ha, hquote, hvalue⟩
  · rw [ha, Attribute.render_bare]
    exact hskim hrest
  · have hequals : Skims ['='] (quote :: (value ++ [quote]) ++ rest) :=
      skims_cons (by decide) (by decide) (by decide) _
    have hquoted : Skims (quote :: (value ++ [quote])) rest := skims_quoted hquote hvalue rest
    rw [ha, Attribute.render_quoted]
    exact Skims.append (hskim (endsName_cons.2 (by decide))) (Skims.append hequals hquoted)

theorem SpellsAttributes.skims {attributes : List Attribute} {inner rest : Text}
    (h : SpellsAttributes attributes inner) (hprintable : ∀ a ∈ attributes, a.isPrintable = true)
    (hrest : EndsName rest) : Skims inner rest := by
  induction attributes generalizing inner with
  | nil =>
      rw [show inner = [] from h]
      exact skims_nil rest
  | cons a attributes ih =>
      obtain ⟨g, tail, rfl, hg, -, htail⟩ := h
      have hattribute : Skims a.render (tail ++ rest) :=
        skims_render (hprintable a List.mem_cons_self) (htail.endsName hrest)
      have hothers : Skims tail rest :=
        ih htail fun b hb => hprintable b (List.mem_cons_of_mem a hb)
      rw [List.append_assoc]
      exact Skims.append (skims_gap hg _) (Skims.append hattribute hothers)

end Skimming

section Reading

variable {name value rest : Text}

theorem splitName?_append (h : isAttributeName name = true) (hrest : EndsName rest) :
    Attribute.splitName? (name ++ rest) = some (name, rest) := by
  obtain ⟨base, hne, hchars, hbase⟩ := isAttributeName_cases h
  obtain ⟨c, cs, rfl⟩ := List.exists_cons_of_ne_nil hne
  have htake : (c :: cs ++ rest).takeWhile isNameChar = c :: cs :=
    takeWhile_append_all hchars hrest.isNameChar
  have hdrop : (c :: cs ++ rest).dropWhile isNameChar = rest :=
    dropWhile_append_all hchars hrest.isNameChar
  -- The sigil is not a name character, so a name without it does not start with it.
  have hsigil : Attribute.splitSigil (name ++ rest) =
      (Attribute.splitSigil name |>.1, c :: cs ++ rest) ∧
      (Attribute.splitSigil name).1 ++ c :: cs = name := by
    rcases hbase with rfl | rfl
    · have hc : c ≠ '@' := ne_of_isNameChar (hchars c List.mem_cons_self) (by decide)
      simp [Attribute.splitSigil, hc]
    · simp [Attribute.splitSigil]
  rw [Attribute.splitName?, hsigil.1]
  simp only [htake, hdrop, hsigil.2]

/-- A name with an equals sign and a quote behind it starts a value. -/
theorem read_quoted {quote c : Char} {t cs : Text} (hname : isAttributeName name = true)
    (hquote : isQuote quote = true) (h : name ++ '=' :: quote :: t = c :: cs) :
    Attribute.read c cs =
      ({ name := name, value := some (Attribute.readValue (quote :: t)).value,
         quote := some [(Attribute.readValue (quote :: t)).quote] },
        (Attribute.readValue (quote :: t)).rest) := by
  have hend : EndsName ('=' :: quote :: t) := endsName_cons.2 (by decide)
  have hafter : Attribute.afterEquals? ('=' :: quote :: t) = some (quote :: t) := by
    have hblank : isBlank quote = false := isBlank_eq_false_of_isQuote hquote
    have hdrop : ('=' :: quote :: t).dropWhile isBlank = '=' :: quote :: t :=
      List.dropWhile_cons_of_neg (by decide)
    rw [Attribute.afterEquals?, hdrop]
    simp [hblank]
  rw [Attribute.read, ← h, splitName?_append hname hend]
  simp only [hafter]

/-- A printable attribute is read back, provided that no equals sign follows. -/
theorem read_render {a : Attribute} (h : a.isPrintable = true) (hrest : EndsName rest)
    (hequals : Attribute.afterEquals? rest = none) :
    ∃ c cs, a.render ++ rest = c :: cs ∧ Attribute.read c cs = (a, rest) := by
  obtain ⟨c, cs, hrender⟩ := List.exists_cons_of_ne_nil (Attribute.render_ne_nil h)
  refine ⟨c, cs ++ rest, by rw [hrender, List.cons_append], ?_⟩
  have htext : c :: (cs ++ rest) = a.render ++ rest := by
    rw [hrender, List.cons_append]
  obtain ⟨hname, ha | ⟨value, quote, ha, hquote, hvalue⟩⟩ := Attribute.isPrintable_cases h
  · have hsplit : Attribute.splitName? (a.render ++ rest) = some (a.name, rest) := by
      rw [ha, Attribute.render_bare]
      exact splitName?_append hname hrest
    rw [Attribute.read, htext, hsplit]
    simp only [hequals]
    rw [ha]
  · have hquoted : a.name ++ '=' :: quote :: (value ++ quote :: rest) = c :: (cs ++ rest) := by
      rw [htext, ha, Attribute.render_quoted]
      simp
    have hread : Attribute.readValue (quote :: (value ++ quote :: rest)) =
        ⟨value, quote, rest⟩ := by
      rw [Attribute.readValue, if_pos hquote, Attribute.splitQuoted?_of_endsAtQuote hvalue]
    rw [read_quoted hname hquote hquoted, hread]
    rw [ha]

theorem readAll_cons {cs : Text} {c : Char} (h : afterSpaces cs = c :: rest) :
    Attribute.readAll cs =
      (Attribute.read c rest).1 :: Attribute.readAll (Attribute.read c rest).2 := by
  rw [Attribute.readAll]
  split
  · rename_i hnil
    rw [hnil] at h
    cases h
  · rename_i d tail hcons
    rw [hcons] at h
    cases h
    rfl

theorem readAll_gap {g : Text} (hg : Text.IsGap g) : Attribute.readAll g = [] := by
  have hnil : afterSpaces g = [] := List.dropWhile_eq_nil_iff.2 hg
  rw [Attribute.readAll]
  split
  · rfl
  · rename_i hcons
    rw [hnil] at hcons
    cases hcons

/-- The first character of a printable attribute. -/
theorem Attribute.head?_render {a : Attribute} (h : a.isPrintable = true) :
    ∃ c cs, a.render = c :: cs ∧ isBlank c = false ∧ c ≠ '=' ∧ c ≠ '{' := by
  obtain ⟨hname, hcases⟩ := isPrintable_cases h
  obtain ⟨base, hne, hchars, hbase⟩ := isAttributeName_cases hname
  obtain ⟨c, cs, rfl⟩ := List.exists_cons_of_ne_nil hne
  have hfirst : ∃ d ds, a.name = d :: ds ∧ isBlank d = false ∧ d ≠ '=' ∧ d ≠ '{' := by
    have hchar := hchars c List.mem_cons_self
    rcases hbase with hbase | hbase
    · exact ⟨c, cs, hbase, isBlank_eq_false_of_isNameChar hchar,
        ne_of_isNameChar hchar (by decide), ne_of_isNameChar hchar (by decide)⟩
    · exact ⟨'@', c :: cs, hbase, by decide, by decide, by decide⟩
  obtain ⟨d, ds, hd, hsolid⟩ := hfirst
  rcases hcases with ha | ⟨value, quote, ha, -⟩
  · exact ⟨d, ds, by rw [ha, render_bare, hd], hsolid⟩
  · exact ⟨d, _, by rw [ha, render_quoted, hd, List.cons_append], hsolid⟩

theorem SpellsAttributes.afterEquals? {attributes : List Attribute} {inner gap : Text}
    (h : SpellsAttributes attributes inner) (hprintable : ∀ a ∈ attributes, a.isPrintable = true)
    (hgap : Text.IsGap gap) : Attribute.afterEquals? (inner ++ gap) = none := by
  have hblank : ∀ {g : Text}, Text.IsGap g → ∀ c ∈ g, isBlank c = true :=
    fun hg c hc => isBlank_of_isSpace (hg c hc)
  cases attributes with
  | nil =>
      have hdrop : gap.dropWhile isBlank = [] := List.dropWhile_eq_nil_iff.2 (hblank hgap)
      rw [show inner = [] from h, List.nil_append, Attribute.afterEquals?, hdrop]
  | cons a attributes =>
      obtain ⟨g, rest, rfl, hg, -, -⟩ := h
      obtain ⟨c, cs, hrender, hc, hequals, -⟩ :=
        Attribute.head?_render (hprintable a List.mem_cons_self)
      have hdrop : (g ++ a.render ++ rest ++ gap).dropWhile isBlank =
          c :: (cs ++ rest ++ gap) := by
        rw [List.append_assoc, List.append_assoc, List.dropWhile_append_of_pos (hblank hg), hrender]
        simp [hc]
      rw [Attribute.afterEquals?, hdrop]
      split
      · rename_i tail htail
        cases htail
        exact absurd rfl hequals
      · rfl

/-- Every spelling of printable attributes is read as these attributes. -/
theorem readAll_of_spells {attributes : List Attribute} {inner gap : Text}
    (h : SpellsAttributes attributes inner) (hprintable : ∀ a ∈ attributes, a.isPrintable = true)
    (hgap : Text.IsGap gap) : Attribute.readAll (inner ++ gap) = attributes := by
  induction attributes generalizing inner with
  | nil =>
      rw [show inner = [] from h]
      exact readAll_gap hgap
  | cons a attributes ih =>
      obtain ⟨g, rest, rfl, hg, -, hrest⟩ := h
      have hothers : ∀ b ∈ attributes, b.isPrintable = true :=
        fun b hb => hprintable b (List.mem_cons_of_mem a hb)
      have hend : EndsName (rest ++ gap) := by
        have hgapEnds := EndsName.gap_append hgap endsName_nil
        rw [List.append_nil] at hgapEnds
        exact hrest.endsName hgapEnds
      obtain ⟨c, cs, hcons, hread⟩ :=
        read_render (hprintable a List.mem_cons_self) hend (hrest.afterEquals? hothers hgap)
      have hafter : afterSpaces (g ++ a.render ++ rest ++ gap) = c :: cs := by
        obtain ⟨d, ds, hrender, hd, -⟩ := Attribute.head?_render (hprintable a List.mem_cons_self)
        have hspace : isSpace c = false := by
          have hcd : c = d := by
            rw [hrender, List.cons_append, List.cons.injEq] at hcons
            exact hcons.1.symm
          by_contra hspace
          rw [← hcd, isBlank_of_isSpace (by simpa using hspace)] at hd
          cases hd
        rw [List.append_assoc, List.append_assoc, Text.afterSpaces_gap_append hg, hcons]
        exact Text.afterSpaces_of_not_isSpace hspace cs
      rw [readAll_cons hafter, hread, ih hrest hothers]

end Reading

section Lines

theorem isLine_append {s t : Text} : Text.IsLine (s ++ t) ↔ Text.IsLine s ∧ Text.IsLine t := by
  simp [Text.IsLine]

theorem isLine_cons {c : Char} {t : Text} : Text.IsLine (c :: t) ↔ c ≠ '\n' ∧ Text.IsLine t := by
  simp [Text.IsLine, eq_comm]

theorem isLine_nil : Text.IsLine [] := by
  simp [Text.IsLine]

theorem isLine_spaces (n : Nat) : Text.IsLine (Text.spaces n) := by
  simp [Text.IsLine, Text.spaces]

theorem isLine_indentation (config : Config) (level : Nat) :
    Text.IsLine (config.indentation level) :=
  isLine_spaces _

theorem isLine_name {name : Text} (h : ∀ c ∈ name, isNameChar c = true) : Text.IsLine name :=
  Text.not_mem_of_forall h (by decide)

theorem isLine_attributeName {name : Text} (h : isAttributeName name = true) :
    Text.IsLine name := by
  obtain ⟨base, -, hchars, hbase | hbase⟩ := isAttributeName_cases h
  · rw [hbase]
    exact isLine_name hchars
  · rw [hbase]
    exact isLine_cons.2 ⟨by decide, isLine_name hchars⟩

theorem Attribute.isLine_render {a : Attribute} (h : a.isClean = true) : Text.IsLine a.render := by
  rw [isClean, Bool.and_eq_true] at h
  obtain ⟨hreadable, hvalue⟩ := h
  obtain ⟨hname, ha | ⟨value, quote, ha, hquote, -⟩⟩ := isReadable_cases hreadable
  · rw [ha, render_bare]
    exact isLine_attributeName hname
  · have hquoteLine : quote ≠ '\n' := by
      rintro rfl
      exact absurd hquote (by decide)
    have hvalueLine : Text.IsLine value := by
      rw [ha] at hvalue
      simpa [Text.isMultiline, Text.IsLine] using hvalue
    rw [ha, render_quoted]
    exact isLine_append.2 ⟨isLine_attributeName hname, isLine_cons.2 ⟨by decide,
      isLine_cons.2 ⟨hquoteLine, isLine_append.2 ⟨hvalueLine,
        isLine_cons.2 ⟨hquoteLine, isLine_nil⟩⟩⟩⟩⟩

end Lines

section Tags

/-- The slash in front of the bracket that ends a tag. -/
def TagEnd.slash : TagEnd → Text
  | opening => []
  | selfClosing => ['/']

theorem TagEnd.stackedText_eq (ending : TagEnd) : ending.stackedText = ending.slash ++ ['>'] := by
  cases ending <;> rfl

variable {tag : Tag} {inner gap : Text}

theorem Tag.isReadable_cases (h : tag.isReadable = true) :
    isTagName tag.name = true ∧ ∀ a ∈ tag.attributes, a.isReadable = true := by
  simpa [isReadable] using h

theorem Tag.isPrintable_cases (h : tag.isPrintable = true) :
    isTagName tag.name = true ∧ ∀ a ∈ tag.attributes, a.isPrintable = true := by
  simpa [isPrintable] using h

theorem Tag.isPrintable_of_isReadable (h : tag.isReadable = true) : tag.isPrintable = true := by
  obtain ⟨hname, hattributes⟩ := isReadable_cases h
  rw [isPrintable, Bool.and_eq_true, List.all_eq_true]
  exact ⟨hname, fun a ha => Attribute.isPrintable_of_isReadable (hattributes a ha)⟩

theorem Tag.isClean_cases (h : tag.isClean = true) :
    isTagName tag.name = true ∧ ∀ a ∈ tag.attributes, a.isClean = true := by
  simpa [isClean] using h

theorem Attribute.isReadable_of_isClean {a : Attribute} (h : a.isClean = true) :
    a.isReadable = true := by
  rw [isClean, Bool.and_eq_true] at h
  exact h.1

theorem Tag.isReadable_of_isClean (h : tag.isClean = true) : tag.isReadable = true := by
  obtain ⟨hname, hattributes⟩ := isClean_cases h
  rw [isReadable, Bool.and_eq_true, List.all_eq_true]
  exact ⟨hname, fun a ha => Attribute.isReadable_of_isClean (hattributes a ha)⟩

theorem Attribute.isReadable_of_isRegular {a : Attribute} (h : a.isRegular = true) :
    a.isReadable = true := by
  rw [isRegular, Bool.and_eq_true] at h
  exact h.1

theorem Tag.isRegular_cases (h : tag.isRegular = true) :
    isTagName tag.name = true ∧ ∀ a ∈ tag.attributes, a.isRegular = true := by
  simpa [isRegular] using h

theorem Tag.isReadable_of_isRegular (h : tag.isRegular = true) : tag.isReadable = true := by
  obtain ⟨hname, hattributes⟩ := isRegular_cases h
  rw [isReadable, Bool.and_eq_true, List.all_eq_true]
  exact ⟨hname, fun a ha => Attribute.isReadable_of_isRegular (hattributes a ha)⟩

theorem Attribute.isRegular_of_isClean {a : Attribute} (h : a.isClean = true) :
    a.isRegular = true := by
  have hreadable := isReadable_of_isClean h
  obtain ⟨c, hlast, hc, -⟩ := getLast?_render (isPrintable_of_isReadable hreadable)
  have hne : c ≠ '\r' := by
    rintro rfl
    cases hc
  rw [isRegular, Bool.and_eq_true, Text.lines_of_isLine (isLine_render h)]
  exact ⟨hreadable, by simpa [hlast] using hne⟩

theorem Tag.isRegular_of_isClean (h : tag.isClean = true) : tag.isRegular = true := by
  obtain ⟨hname, hattributes⟩ := isClean_cases h
  rw [isRegular, Bool.and_eq_true, List.all_eq_true]
  exact ⟨hname, fun a ha => Attribute.isRegular_of_isClean (hattributes a ha)⟩

theorem tagOf_spelling (hprintable : tag.isPrintable = true)
    (h : SpellsAttributes tag.attributes inner) (hgap : Text.IsGap gap) (ending : TagEnd) :
    tagOf (tag.name ++ inner ++ gap ++ ending.slash) = (tag, ending == .selfClosing) := by
  obtain ⟨hname, hattributes⟩ := Tag.isPrintable_cases hprintable
  obtain ⟨-, -, -, -, hchars⟩ := isTagName_cases hname
  have hslash : EndsName ending.slash := by
    cases ending with
    | opening => exact endsName_nil
    | selfClosing => exact endsName_cons.2 (by decide)
  have hend : EndsName (inner ++ (gap ++ ending.slash)) :=
    h.endsName (EndsName.gap_append hgap hslash)
  have hassoc : tag.name ++ inner ++ gap ++ ending.slash =
      tag.name ++ (inner ++ (gap ++ ending.slash)) := by
    simp
  have htake : (tag.name ++ inner ++ gap ++ ending.slash).takeWhile isNameChar = tag.name := by
    rw [hassoc, takeWhile_append_all hchars hend.isNameChar]
  have hdrop : (tag.name ++ inner ++ gap ++ ending.slash).dropWhile isNameChar =
      inner ++ (gap ++ ending.slash) := by
    rw [hassoc, dropWhile_append_all hchars hend.isNameChar]
  simp only [tagOf, htake, hdrop]
  cases ending with
  | opening =>
      have hstrip : Text.stripEnd (inner ++ (gap ++ TagEnd.opening.slash)) = inner := by
        rw [TagEnd.slash, List.append_nil, Text.stripEnd_append_blank hgap.isBlankText]
        rcases h.getLast? hattributes with rfl | ⟨c, hc, hsolid, -⟩
        · rfl
        · exact Text.stripEnd_of_getLast hc hsolid
      have hlast : inner.getLast? ≠ some '/' := by
        rcases h.getLast? hattributes with rfl | ⟨c, hc, -, hne⟩
        · simp
        · rw [hc]
          simpa using hne
      have hread : Attribute.readAll inner = tag.attributes := by
        have hall := readAll_of_spells h hattributes Text.isGap_nil
        rwa [List.append_nil] at hall
      rw [hstrip, if_neg hlast, hread]
      rfl
  | selfClosing =>
      have hstrip : Text.stripEnd (inner ++ (gap ++ TagEnd.selfClosing.slash)) =
          inner ++ gap ++ ['/'] := by
        rw [TagEnd.slash, ← List.append_assoc]
        exact Text.stripEnd_of_getLast (List.getLast?_concat) (by decide)
      rw [hstrip, if_pos List.getLast?_concat, List.dropLast_concat,
        readAll_of_spells h hattributes hgap]
      rfl

/-- What stands between the brackets of a spelling is found and read as the tag. -/
theorem Tag.Spells.exists_inside {ending : TagEnd} {t : Text} (hprintable : tag.isPrintable = true)
    (h : tag.Spells ending t) :
    ∃ c inside, t = '<' :: c :: inside ++ ['>'] ∧ c.isAlpha = true ∧
      (∀ rest, splitTag? none (c :: inside ++ '>' :: rest) = some (c :: inside, rest)) ∧
      tagOf (c :: inside) = (tag, ending == .selfClosing) := by
  obtain ⟨inner, gap, rfl, hinner, hgap⟩ := h
  obtain ⟨hname, hattributes⟩ := isPrintable_cases hprintable
  obtain ⟨c, cs, hcons, hc, hchars⟩ := isTagName_cases hname
  have hinside : tag.name ++ inner ++ gap ++ ending.slash =
      c :: (cs ++ inner ++ gap ++ ending.slash) := by
    rw [hcons]
    simp
  refine ⟨c, cs ++ inner ++ gap ++ ending.slash, ?_, hc, ?_, ?_⟩
  · rw [TagEnd.stackedText_eq, hcons]
    simp
  · intro rest
    have hslash : Skims ending.slash ('>' :: rest) := by
      cases ending with
      | opening => exact skims_nil _
      | selfClosing => exact skims_cons (by decide) (by decide) (by decide) _
    have hend : EndsName (gap ++ ending.slash ++ '>' :: rest) := by
      rw [List.append_assoc]
      apply EndsName.gap_append hgap
      cases ending <;> exact endsName_cons.2 (by decide)
    have hskim : Skims (tag.name ++ (inner ++ (gap ++ ending.slash))) ('>' :: rest) :=
      Skims.append (skims_name hchars _)
        (Skims.append (hinner.skims hattributes hend) (Skims.append (skims_gap hgap _) hslash))
    have hbracket : splitTag? none ('>' :: rest) = some ([], rest) := by
      rw [splitTag?, if_neg (by decide), if_neg (by decide), if_pos rfl]
    have hassoc : tag.name ++ inner ++ gap ++ ending.slash =
        tag.name ++ (inner ++ (gap ++ ending.slash)) := by
      simp
    rw [← hinside, hassoc, hskim, hbracket]
    simp
  · rw [← hinside]
    exact tagOf_spelling hprintable hinner hgap ending

theorem passes_name {name : Text} (h : ∀ c ∈ name, isNameChar c = true) : Passes .braces name := by
  apply passes_of_forall_isFree
  intro c hc
  have hne : ∀ {d : Char}, isNameChar d = false → c ≠ d := fun hd => ne_of_isNameChar (h c hc) hd
  simp [Delimiters.isFree, Delimiters.braces, isQuote, hne (d := '"') rfl, hne (d := '\'') rfl,
    (hne (d := '{') rfl).symm, (hne (d := '}') rfl).symm]

theorem passes_gap {g : Text} (h : Text.IsGap g) : Passes .braces g := by
  apply passes_of_forall_isFree
  intro c hc
  have hne : ∀ {d : Char}, isSpace d = false → c ≠ d := by
    rintro d hd rfl
    rw [h c hc] at hd
    cases hd
  simp [Delimiters.isFree, Delimiters.braces, isQuote, hne (d := '"') rfl, hne (d := '\'') rfl,
    (hne (d := '{') rfl).symm, (hne (d := '}') rfl).symm]

theorem passes_render {a : Attribute} (h : a.isReadable = true) : Passes .braces a.render := by
  obtain ⟨hname, hcases⟩ := Attribute.isReadable_cases h
  have hpass : Passes .braces a.name := by
    obtain ⟨base, -, hchars, hbase | hbase⟩ := isAttributeName_cases hname
    · rw [hbase]
      exact passes_name hchars
    · rw [hbase]
      exact Passes.append (passes_of_isFree (c := '@') (by decide)) (passes_name hchars)
  rcases hcases with ha | ⟨value, quote, ha, hquote, hvalue⟩
  · rw [ha, Attribute.render_bare]
    exact hpass
  · have hequals : Passes .braces ['='] := passes_of_isFree (by decide)
    have hquoted : Passes .braces (quote :: value ++ [quote]) := by
      apply passes_quoted hquote
      intro c hc
      have hne := isValueChar_ne (hvalue c hc) hquote
      exact ⟨hne.1, hne.2.2⟩
    rw [ha, Attribute.render_quoted]
    exact hpass.append (hequals.append hquoted)

theorem SpellsAttributes.passes {attributes : List Attribute}
    (h : SpellsAttributes attributes inner) (hreadable : ∀ a ∈ attributes, a.isReadable = true) :
    Passes .braces inner := by
  induction attributes generalizing inner with
  | nil =>
      rw [show inner = [] from h]
      exact passes_nil _
  | cons a attributes ih =>
      obtain ⟨g, rest, rfl, hg, -, hrest⟩ := h
      have hothers : Passes .braces rest :=
        ih hrest fun b hb => hreadable b (List.mem_cons_of_mem a hb)
      exact ((passes_gap hg).append (passes_render (hreadable a List.mem_cons_self))).append hothers

/-- A spelling of a tag can stand inside braces. -/
theorem Tag.Spells.passes {ending : TagEnd} {t : Text} (hreadable : tag.isReadable = true)
    (h : tag.Spells ending t) : Passes .braces t := by
  obtain ⟨inner, gap, rfl, hinner, hgap⟩ := h
  obtain ⟨hname, hattributes⟩ := isReadable_cases hreadable
  obtain ⟨-, -, -, -, hchars⟩ := isTagName_cases hname
  have hstem : Passes .braces ('<' :: tag.name) :=
    Passes.append (passes_of_isFree (c := '<') (by decide)) (passes_name hchars)
  have hending : Passes .braces ending.stackedText := by
    apply passes_of_all
    cases ending <;> decide
  exact ((hstem.append (hinner.passes hattributes)).append (passes_gap hgap)).append hending

end Tags

end RazorLayout
