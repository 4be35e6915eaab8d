import RazorLayout.Proofs.Forest.Spelling

/-!
# Reading a forest back

Result.  `Forest.Spells.read?`: whatever the gaps, a spelling of a regular forest is read as that
forest with its texts trimmed.

The induction is on the forest.  Siblings are read in front of what closes them: nothing, or a
closing tag, behind which the reading has already collected the rest of the text.
-/

namespace RazorLayout

section Tokens

variable {readBody : Text → Option Forest}

theorem Reading.ofTokens?_cons {t : Token} {ts : List Token} {r : Reading}
    (h : Reading.ofTokens? readBody ts = some r) :
    Reading.ofTokens? readBody (t :: ts) = Reading.step readBody t r := by
  rw [Reading.ofTokens?, h]
  rfl

theorem Reading.ofTokens?_gap {g : Text} (hg : Text.IsGap g) (ts : List Token) :
    Reading.ofTokens? readBody (contentToken g ++ ts) = Reading.ofTokens? readBody ts := by
  cases g with
  | nil => rfl
  | cons c g =>
      have hskip : Reading.step readBody ⟨.text, c :: g⟩ = some := by
        funext r
        simp [Reading.step, hg.isBlankText]
      have hcons : contentToken (c :: g) ++ ts = ⟨.text, c :: g⟩ :: ts := rfl
      rw [hcons, Reading.ofTokens?, hskip]
      cases Reading.ofTokens? readBody ts <;> rfl

end Tokens

section Lengths

theorem SpellsClauses.length_lt {clauses : List Clause} {t : Text} (h : SpellsClauses clauses t) :
    ∀ c ∈ clauses, c.body.length < t.length := by
  induction clauses generalizing t with
  | nil => simp
  | cons c clauses ih =>
      obtain ⟨g, w, rest, rfl, -, -, hrest⟩ := h
      intro d hd
      rcases List.mem_cons.1 hd with rfl | hd
      · simp only [List.length_append, List.length_cons]
        omega
      · have hlength := ih hrest d hd
        simp only [List.length_append, List.length_cons]
        omega

/-- The bodies of a block are shorter than the block. -/
theorem SpellsFlow.length_lt {head : FlowHead} {b t : Text} {clauses : List Clause}
    (h : SpellsFlow head b clauses t) :
    b.length < t.length ∧ ∀ c ∈ clauses, c.body.length < t.length := by
  obtain ⟨w, rest, rfl, -, hrest⟩ := h
  constructor
  · simp only [List.length_append, List.length_cons]
    omega
  · intro c hc
    have hlength := hrest.length_lt c hc
    simp only [List.length_append, List.length_cons]
    omega

end Lengths

section Forests

variable {spacing : Spacing}

/-- A whole text is read as siblings in front of nothing. -/
theorem Forest.read?_of_ofTokens? {F : Forest} {t : Text}
    (h : ∀ readBody : Text → Option Forest,
      (∀ b, b.length < (t ++ []).length → readBody b = Forest.read? b) →
        Reading.ofTokens? readBody (tokenize []) = some ⟨.nil, []⟩ →
          Reading.ofTokens? readBody (tokenize (t ++ [])) = some ⟨F, []⟩) :
    Forest.read? t = some F := by
  rw [List.append_nil] at h
  rw [Forest.read?, h _ (fun b hb => if_pos hb) (by rw [tokenize]; rfl)]
  rfl

section Nodes

variable {readBody : Text → Option Forest} {ts : List Token} {siblings : Forest}
variable {enclosing : List (Text × Forest)}

/-- A closing tag ends the siblings in front of it. -/
theorem Reading.ofTokens?_closingTag {name k : Text} (hname : isTagName name = true)
    (h : Reading.ofTokens? readBody (tokenize k) = some ⟨siblings, enclosing⟩) :
    Reading.ofTokens? readBody (tokenize (Context.closingTag name ++ k)) =
      some ⟨.nil, (name, siblings) :: enclosing⟩ := by
  rw [tokenize_closeTag hname, Reading.ofTokens?_cons h]
  rfl

/-- An opening tag makes an element of the siblings behind it. -/
theorem Reading.ofTokens?_openTag {tag : Tag} {children : Forest} (x : Text)
    (h : Reading.ofTokens? readBody ts = some ⟨children, (tag.name, siblings) :: enclosing⟩) :
    Reading.ofTokens? readBody (⟨.openTag tag, x⟩ :: ts) =
      some ⟨.element tag children siblings, enclosing⟩ := by
  rw [Reading.ofTokens?_cons h]
  simp [Reading.step]

/-- A block is read with the forests that its bodies are read as. -/
theorem Reading.ofTokens?_flow {head : FlowHead} {body : Forest} {chain : Chain} {x b : Text}
    {clauses : List Clause} (hread : Block.read? x = some (.flow (head.toFlow b clauses), []))
    (hbody : readBody b = some body) (hclauses : Chain.ofClauses? readBody clauses = some chain)
    (h : Reading.ofTokens? readBody ts = some ⟨siblings, enclosing⟩) :
    Reading.ofTokens? readBody (⟨.block, x⟩ :: ts) =
      some ⟨.flow head body chain siblings, enclosing⟩ := by
  have hflow : Forest.ofFlow? readBody (head.toFlow b clauses) siblings =
      some (.flow head body chain siblings) := by
    simp [Forest.ofFlow?, FlowHead.toFlow, hbody, hclauses]
  rw [Reading.ofTokens?_cons h]
  simp [Reading.step, hread, hflow]

end Nodes

mutual

/-- A spelling is read in front of what ends its siblings. -/
theorem Forest.Spells.ofTokens? {readBody : Text → Option Forest} {n : Nat} {F : Forest}
    {t k : Text} {enclosing : List (Text × Forest)} (hregular : F.isRegular = true)
    (h : F.Spells spacing n t) (hk : EndsSiblings k)
    (hbody : ∀ b, b.length < (t ++ k).length → readBody b = Forest.read? b)
    (hend : Reading.ofTokens? readBody (tokenize k) = some ⟨.nil, enclosing⟩) :
    Reading.ofTokens? readBody (tokenize (t ++ k)) = some ⟨F.trimmed, enclosing⟩ := by
  have hshorter : ∀ {s : Text}, s.length ≤ (t ++ k).length →
      ∀ b, b.length < s.length → readBody b = Forest.read? b :=
    fun hs b hb => hbody b (Nat.lt_of_lt_of_le hb hs)
  match F with
  | .nil =>
      have hgap : Text.IsGap t := h
      rw [tokenize_gap hgap hk.endsText, Reading.ofTokens?_gap hgap, hend]
      rfl
  | .text content rest =>
      obtain ⟨hleaf, -, hrest⟩ := Forest.isRegular_text.1 hregular
      obtain ⟨x, tail, rfl, hstrip, hchars, htight, htail⟩ := h
      have hsolid : Text.isBlankText x = false :=
        isBlankText_eq_false_of_strip hstrip (isLeafText_cases hleaf).1
      have hread : Reading.ofTokens? readBody (tokenize (tail ++ k)) =
          some ⟨rest.trimmed, enclosing⟩ :=
        Forest.Spells.ofTokens? hrest htail hk
          (hshorter (by simp only [List.length_append]; omega)) hend
      rw [Forest.Spells.tokenize_text hregular hstrip hchars htight htail hk,
        Reading.ofTokens?_cons hread]
      simp [Reading.step, hsolid, hstrip, Forest.trimmed]
  | .element tag children rest =>
      obtain ⟨htag, -, -, hchildren, hrest⟩ := Forest.isRegular_element.1 hregular
      obtain ⟨g, x, inner, tail, rfl, hg, hx, hinner, -, htail⟩ := h
      have hread : Reading.ofTokens? readBody (tokenize (tail ++ k)) =
          some ⟨rest.trimmed, enclosing⟩ :=
        Forest.Spells.ofTokens? hrest htail hk
          (hshorter (by simp only [List.length_append]; omega)) hend
      have hinside : Reading.ofTokens? readBody
          (tokenize (inner ++ (Context.closingTag tag.name ++ (tail ++ k)))) =
            some ⟨children.trimmed, (tag.name, rest.trimmed) :: enclosing⟩ :=
        Forest.Spells.ofTokens? hchildren hinner (endsSiblings_closingTag _ _)
          (hshorter (by simp only [List.length_append]; omega))
          (Reading.ofTokens?_closingTag (Tag.isRegular_cases htag).1 hread)
      rw [Forest.tokenize_element hregular hg hx, Reading.ofTokens?_gap hg]
      exact Reading.ofTokens?_openTag x hinside
  | .selfClosing tag rest =>
      obtain ⟨-, hrest⟩ := Forest.isRegular_selfClosing.1 hregular
      obtain ⟨g, x, tail, rfl, hg, hx, htail⟩ := h
      have hread : Reading.ofTokens? readBody (tokenize (tail ++ k)) =
          some ⟨rest.trimmed, enclosing⟩ :=
        Forest.Spells.ofTokens? hrest htail hk
          (hshorter (by simp only [List.length_append]; omega)) hend
      rw [Forest.tokenize_selfClosing hregular hg hx, Reading.ofTokens?_gap hg,
        Reading.ofTokens?_cons hread]
      simp [Reading.step, Forest.trimmed]
  | .flow head body chain rest =>
      obtain ⟨-, hbodyClean, hchain, hrest⟩ := Forest.isRegular_flow.1 hregular
      obtain ⟨g, x, b, clauses, tail, rfl, hg, hblock, hwhole, -, hb, hclauses, -, hx, htail⟩ :=
        h.flow_cases hregular
      have hread : Reading.ofTokens? readBody (tokenize (tail ++ k)) =
          some ⟨rest.trimmed, enclosing⟩ :=
        Forest.Spells.ofTokens? hrest htail hk
          (hshorter (by simp only [List.length_append]; omega)) hend
      obtain ⟨hbLength, hclausesLength⟩ := hx.length_lt
      have hreadBody : readBody b = some body.trimmed := by
        rw [hbody b (by simp only [List.length_append]; omega)]
        exact Forest.read?_of_ofTokens? fun _ hinner hend =>
          Forest.Spells.ofTokens? (Forest.isRegular_of_isClean hbodyClean) (hb b rfl)
            endsSiblings_nil hinner hend
      have hreadChain : Chain.ofClauses? readBody clauses = some chain.trimmed := by
        refine Chain.Matches.ofClauses? hchain hclauses fun c hc => hbody _ ?_
        have hlength := hclausesLength c hc
        simp only [List.length_append]
        omega
      rw [Forest.tokenize_flow hg (hblock k hk), Reading.ofTokens?_gap hg]
      exact Reading.ofTokens?_flow hwhole hreadBody hreadChain hread

theorem Chain.Matches.ofClauses? {readBody : Text → Option Forest} {n : Nat} {chain : Chain}
    {clauses : List Clause} (hclean : chain.isClean = true)
    (h : chain.Matches spacing n clauses)
    (hbody : ∀ c ∈ clauses, readBody c.body = Forest.read? c.body) :
    Chain.ofClauses? readBody clauses = some chain.trimmed := by
  match chain with
  | .nil =>
      rw [show clauses = [] from h]
      rfl
  | .clause head body rest =>
      obtain ⟨-, hbodyClean, hrest⟩ := Chain.isClean_clause.1 hclean
      obtain ⟨b, others, rfl, -, hb, hothers⟩ := h
      have hreadBody : readBody b = some body.trimmed := by
        rw [hbody ⟨head, b⟩ List.mem_cons_self]
        exact Forest.read?_of_ofTokens? fun _ hinner hend =>
          Forest.Spells.ofTokens? (Forest.isRegular_of_isClean hbodyClean) (hb b rfl)
            endsSiblings_nil hinner hend
      have hreadRest : Chain.ofClauses? readBody others = some rest.trimmed :=
        Chain.Matches.ofClauses? hrest hothers fun c hc => hbody c (List.mem_cons_of_mem _ hc)
      simp [Chain.ofClauses?, hreadBody, hreadRest, Chain.trimmed]

end

/-- A spelling of a regular forest is read as that forest, with its texts trimmed. -/
theorem Forest.Spells.read? {n : Nat} {F : Forest} {t : Text} (hregular : F.isRegular = true)
    (h : F.Spells spacing n t) : Forest.read? t = some F.trimmed :=
  Forest.read?_of_ofTokens? fun _ hbody hend =>
    Forest.Spells.ofTokens? hregular h endsSiblings_nil hbody hend

end Forests

end RazorLayout
