import RazorLayout.Proofs.Forest.Source
import RazorLayout.Proofs.Layout.SolidLines

/-!
# The layout of a forest

The layout of a spelling depends on its forest alone.  `Forest.items` gives the items of a forest,
each block in its one-line form, and `Forest.bodyLines` the lines of a body.

Results.

* `Forest.Spells.placesAlike`: the items of a spelling and those of its forest are placed alike.
* `blockLines_of_spells`: hence the lines of a block that may be nested are those of its head and of
  the forests inside it.
-/

namespace RazorLayout

namespace Context

section Alike

/-- Two lists of items that make the same page of any page. -/
def PlacesAlike (ctx : Context) (items others : List Item) : Prop :=
  ∀ page, ctx.placeAll page items = ctx.placeAll page others

variable {ctx : Context}

theorem PlacesAlike.refl (items : List Item) : ctx.PlacesAlike items items :=
  fun _ => rfl

theorem PlacesAlike.trans {items others more : List Item} (h : ctx.PlacesAlike items others)
    (h' : ctx.PlacesAlike others more) : ctx.PlacesAlike items more :=
  fun page => (h page).trans (h' page)

theorem placeAll_cons (page : Page) (item : Item) (items : List Item) :
    ctx.placeAll page (item :: items) =
      (ctx.place page item >>= fun next => ctx.placeAll next items) :=
  rfl

theorem PlacesAlike.cons {item other : Item} {items others : List Item}
    (hitem : ∀ page, ctx.place page item = ctx.place page other)
    (h : ctx.PlacesAlike items others) : ctx.PlacesAlike (item :: items) (other :: others) := by
  intro page
  rw [placeAll_cons, placeAll_cons, hitem]
  congr 1
  funext next
  exact h next

theorem PlacesAlike.cons_same {items others : List Item} (item : Item)
    (h : ctx.PlacesAlike items others) : ctx.PlacesAlike (item :: items) (item :: others) :=
  PlacesAlike.cons (fun _ => rfl) h

theorem PlacesAlike.append_left {items others : List Item} (front : List Item)
    (h : ctx.PlacesAlike items others) : ctx.PlacesAlike (front ++ items) (front ++ others) := by
  induction front with
  | nil => exact h
  | cons item front ih => exact ih.cons_same item

/-- A gap is placed as nothing. -/
theorem placesAlike_gap {g : Text} (hg : Text.IsGap g) (ts : List Token) :
    ctx.PlacesAlike (Item.ofTokens (contentToken g ++ ts)) (Item.ofTokens ts) := by
  cases g with
  | nil => exact PlacesAlike.refl _
  | cons c g =>
      intro page
      have hitems : Item.ofTokens (contentToken (c :: g) ++ ts) =
          .text (c :: g) :: Item.ofTokens ts := by
        simp [contentToken, Item.ofTokens, Item.ofToken]
      have hplace : ctx.place page (.text (c :: g)) = pure page := by
        simp [place, hg.isBlankText]
      rw [hitems, placeAll_cons, hplace]
      rfl

theorem place_text_congr {x content : Text} (h : Text.strip x = Text.strip content) (page : Page) :
    ctx.place page (.text x) = ctx.place page (.text content) := by
  have hblank : Text.isBlankText x = Text.isBlankText content := by
    rw [Bool.eq_iff_iff, ← Text.strip_eq_nil_iff, ← Text.strip_eq_nil_iff, h]
  simp only [place, hblank, textLines, h]

theorem PlacesAlike.of_append_nil {t : Text} {items : List Item}
    (h : ctx.PlacesAlike (Item.ofTokens (tokenize (t ++ [])))
      (items ++ Item.ofTokens (tokenize []))) :
    ctx.PlacesAlike (Item.ofTokens (tokenize t)) items := by
  rw [tokenize, Item.ofTokens, List.append_nil, List.append_nil] at h
  exact h

end Alike

end Context

section Items

variable (spacing : Spacing)

/-- What an element that is written on one line holds. -/
def Forest.inlineText : Forest → Text
  | .text content _ => Text.strip content
  | _ => []

/-- The items of a forest. -/
def Forest.items : Forest → List Item
  | .nil => []
  | .text content rest => .text content :: rest.items
  | .element tag children rest =>
      if children.isInline then .inline tag children.inlineText :: rest.items
      else .openTag tag :: (children.items ++ .closeTag tag.name :: rest.items)
  | .selfClosing tag rest => .selfClosingTag tag :: rest.items
  | .flow head body chain rest => .block (Forest.flowSource spacing head body chain) :: rest.items

variable (config : Config) (collaborators : Collaborators) (n : Nat)

/-- The lines of a body behind `lead`, where blocks may be nested `n` more levels deep. -/
def Forest.bodyLines (lead : Text) (body : Forest) : Journaled (List Text) :=
  if body.isNil then pure []
  else do
    let page ← Context.placeAll ⟨config, collaborators, formatWithin config collaborators n⟩ {}
      (body.items spacing)
    pure (Text.indent lead page.sheet.text)

/-- The lines of clauses. -/
def Chain.lines (indent : Text) : Chain → Journaled (List Text)
  | .nil => pure []
  | .clause head body rest => do
      let lines ← body.bodyLines spacing config collaborators n (indent ++ config.unit)
      let others ← rest.lines indent
      pure ((indent ++ head.text) :: (indent ++ ['{']) :: lines ++ [indent ++ ['}']] ++ others)

/-- The lines of a block. -/
def Forest.flowLines (indent : Text) (head : FlowHead) (body : Forest) (chain : Chain) :
    Journaled (List Text) := do
  let lines ← body.bodyLines spacing config collaborators n (indent ++ config.unit)
  let clauses ← chain.lines spacing config collaborators n indent
  pure ((indent ++ (head.words ++ conditionText head.condition)) :: (indent ++ ['{']) :: lines ++
    [indent ++ ['}']] ++ clauses)

end Items

section Elements

variable {spacing : Spacing} {n : Nat}

theorem ofTokens_openTag {tag : Tag} {x : Text} {ts : List Token} :
    Item.ofTokens (⟨.openTag tag, x⟩ :: ts) =
      (Item.ofOpenTag tag ts).1 :: Item.ofTokens (Item.ofOpenTag tag ts).2 := by
  rw [Item.ofTokens]

theorem splitInline?_gap {name g : Text} (hg : Text.IsGap g) {ts : List Token}
    (h : Item.splitInline? name ts = none) :
    Item.splitInline? name (contentToken g ++ ts) = none := by
  cases g with
  | nil => exact h
  | cons c g =>
      have hcons : contentToken (c :: g) ++ ts = ⟨.text, c :: g⟩ :: ts := rfl
      rw [hcons]
      simp [Item.splitInline?, Token.closes, h]

theorem splitInline?_of_ne {name : Text} {t : Token} {ts : List Token} (htext : t.kind ≠ .text)
    (hclose : t.closes name = false) : Item.splitInline? name (t :: ts) = none := by
  simp [Item.splitInline?, hclose, htext]

/-- Siblings that start with neither text nor nothing rule an inline element out. -/
theorem Forest.Spells.splitInline?_of_construct {F : Forest} {t k : Text}
    (hregular : F.isRegular = true) (hnil : F.isNil = false) (htext : F.startsWithText = false)
    (h : F.Spells spacing n t) (hk : EndsSiblings k) (name : Text) :
    Item.splitInline? name (tokenize (t ++ k)) = none := by
  match F with
  | .nil => cases hnil
  | .text content rest => cases htext
  | .element tag children rest =>
      obtain ⟨g, x, inner, tail, rfl, hg, hx, -⟩ := h
      rw [Forest.tokenize_element hregular hg hx]
      exact splitInline?_gap hg (splitInline?_of_ne (by simp) rfl)
  | .selfClosing tag rest =>
      obtain ⟨g, x, tail, rfl, hg, hx, -⟩ := h
      rw [Forest.tokenize_selfClosing hregular hg hx]
      exact splitInline?_gap hg (splitInline?_of_ne (by simp) rfl)
  | .flow head body chain rest =>
      obtain ⟨g, x, b, clauses, tail, rfl, hg, hblock, -⟩ := h.flow_cases hregular
      rw [Forest.tokenize_flow hg (hblock k hk)]
      exact splitInline?_gap hg (splitInline?_of_ne (by simp) rfl)

/-- Children with more than a text rule an inline element out. -/
theorem Forest.Spells.splitInline?_eq_none {F : Forest} {t k : Text}
    (hregular : F.isRegular = true) (hinline : F.isInline = false) (h : F.Spells spacing n t)
    (hk : EndsSiblings k) (name : Text) : Item.splitInline? name (tokenize (t ++ k)) = none := by
  match F with
  | .text content rest =>
      obtain ⟨-, hnext, hrest⟩ := Forest.isRegular_text.1 hregular
      obtain ⟨x, tail, rfl, hstrip, hchars, htight, htail⟩ := h
      have hnil : rest.isNil = false := by
        cases rest with
        | nil => cases hinline
        | _ => rfl
      have hothers : Item.splitInline? name (tokenize (tail ++ k)) = none :=
        htail.splitInline?_of_construct hrest hnil hnext hk name
      rw [Forest.Spells.tokenize_text hregular hstrip hchars htight htail hk]
      simp [Item.splitInline?, Token.closes, hothers]
  | .nil => cases hinline
  | .element tag children rest => exact h.splitInline?_of_construct hregular rfl rfl hk name
  | .selfClosing tag rest => exact h.splitInline?_of_construct hregular rfl rfl hk name
  | .flow head body chain rest => exact h.splitInline?_of_construct hregular rfl rfl hk name

theorem closes_closingTag (name : Text) :
    Token.closes (Text.lower name) ⟨.closeTag name, Context.closingTag name⟩ = true := by
  simp [Token.closes]

/-- Children with at most a text make an inline element. -/
theorem Forest.Spells.splitInline?_eq_some {F : Forest} {t name : Text}
    (hregular : F.isRegular = true) (hinline : F.isInline = true) (h : F.Spells spacing n t)
    (hline : Text.IsLine t) (hname : isTagName name = true) (rest : Text) :
    ∃ parts, Item.splitInline? (Text.lower name)
        (tokenize (t ++ (Context.closingTag name ++ rest))) = some (parts, tokenize rest) ∧
      Text.joinWith [' '] parts = F.inlineText := by
  have hmultiline : Text.isMultiline t = false := by
    simpa [Text.isMultiline, Text.IsLine] using hline
  have hclose : Item.splitInline? (Text.lower name)
      (tokenize (Context.closingTag name ++ rest)) = some ([], tokenize rest) := by
    rw [tokenize_closeTag hname, Item.splitInline?, if_pos (closes_closingTag name)]
  cases F with
  | nil =>
      have hgap : Text.IsGap t := h
      refine ⟨[], ?_, rfl⟩
      rw [tokenize_gap hgap (endsSiblings_closingTag name rest).endsText]
      cases t with
      | nil => exact hclose
      | cons c t =>
          have hstrip : Text.strip (c :: t) = [] := Text.strip_of_isBlankText hgap.isBlankText
          have hcons : ∀ ts, contentToken (c :: t) ++ ts = ⟨.text, c :: t⟩ :: ts := fun _ => rfl
          simp [hcons, Item.splitInline?, Token.closes, hmultiline, hclose, hstrip, Item.consSolid]
  | text content others =>
      obtain ⟨hleaf, -⟩ := Forest.isRegular_text.1 hregular
      obtain ⟨x, tail, rfl, hstrip, hchars, htight, htail⟩ := h
      obtain rfl : others = .nil := by
        cases others with
        | nil => rfl
        | text => cases hinline
        | element => cases hinline
        | selfClosing => cases hinline
        | flow => cases hinline
      have hgap : Text.IsGap tail := htail
      have hnil : tail = [] := hgap.eq_nil_of_isTight (t := []) (by rwa [List.append_nil])
      have hsolid : (Text.strip content).isEmpty = false := by
        rw [List.isEmpty_eq_false_iff, ne_eq, Text.strip_eq_nil_iff]
        simp [(isLeafText_cases hleaf).1]
      refine ⟨[Text.strip content], ?_, rfl⟩
      rw [Forest.Spells.tokenize_text hregular hstrip hchars htight htail
        (endsSiblings_closingTag name rest)]
      rw [hnil, List.append_nil] at hmultiline
      simp [Item.splitInline?, Token.closes, hmultiline, hclose, hnil, hstrip, Item.consSolid,
        hsolid]
  | element => cases hinline
  | selfClosing => cases hinline
  | flow => cases hinline

/-- An element is taken whole where it is written on one line, and else opened. -/
theorem Forest.Spells.ofOpenTag_eq {tag : Tag} {children rest : Forest} {inner : Text}
    (hregular : (Forest.element tag children rest).isRegular = true)
    (h : children.Spells spacing n inner) (hline : children.isInline = true → Text.IsLine inner)
    (k : Text) :
    Item.ofOpenTag tag (tokenize (inner ++ (Context.closingTag tag.name ++ k))) =
      if children.isInline then (.inline tag children.inlineText, tokenize k)
      else (.openTag tag, tokenize (inner ++ (Context.closingTag tag.name ++ k))) := by
  obtain ⟨htag, -, hpreserved, hchildren, -⟩ := Forest.isRegular_element.1 hregular
  have hsplit : ∀ ts, Item.splitPreserved? tag ts = none := fun ts => by
    simp [Item.splitPreserved?, hpreserved]
  cases hinline : children.isInline with
  | true =>
      obtain ⟨parts, hparts, hjoin⟩ := h.splitInline?_eq_some hchildren hinline (hline hinline)
        (Tag.isRegular_cases htag).1 k
      simp only [Item.ofOpenTag, hsplit, hparts, hjoin, if_true]
  | false =>
      have hnone := h.splitInline?_eq_none hchildren hinline
        (endsSiblings_closingTag tag.name k) (Text.lower tag.name)
      simp only [Item.ofOpenTag, hsplit, hnone, Bool.false_eq_true, if_false]

/-- The items of an element and those of its spelling are placed alike if those of its children and
those of what stands behind it are. -/
theorem Forest.Spells.placesAlike_element {ctx : Context} {tag : Tag} {children rest : Forest}
    {g x inner tail k : Text} (hregular : (Forest.element tag children rest).isRegular = true)
    (hg : Text.IsGap g) (hx : tag.Spells .opening x) (hinner : children.Spells spacing n inner)
    (hline : children.isInline = true → Text.IsLine inner)
    (hinside : ctx.PlacesAlike
      (Item.ofTokens (tokenize (inner ++ (Context.closingTag tag.name ++ (tail ++ k)))))
      (children.items spacing ++
        Item.ofTokens (tokenize (Context.closingTag tag.name ++ (tail ++ k)))))
    (hbehind : ctx.PlacesAlike (Item.ofTokens (tokenize (tail ++ k)))
      (rest.items spacing ++ Item.ofTokens (tokenize k))) :
    ctx.PlacesAlike
      (Item.ofTokens (tokenize
        (g ++ (x ++ (inner ++ (Context.closingTag tag.name ++ tail))) ++ k)))
      ((Forest.element tag children rest).items spacing ++ Item.ofTokens (tokenize k)) := by
  obtain ⟨htag, -⟩ := Forest.isRegular_element.1 hregular
  rw [Forest.tokenize_element hregular hg hx]
  refine (Context.placesAlike_gap hg _).trans ?_
  rw [ofTokens_openTag, hinner.ofOpenTag_eq hregular hline, Forest.items]
  by_cases hinline : children.isInline = true
  · rw [if_pos hinline, if_pos hinline]
    exact hbehind.cons_same _
  · rw [if_neg hinline, if_neg hinline]
    have hclose : Item.ofTokens (tokenize (Context.closingTag tag.name ++ (tail ++ k))) =
        .closeTag tag.name :: Item.ofTokens (tokenize (tail ++ k)) := by
      rw [tokenize_closeTag (Tag.isRegular_cases htag).1, Item.ofTokens]
      rfl
    rw [hclose] at hinside
    simp only [List.cons_append, List.append_assoc]
    exact (hinside.trans ((hbehind.cons_same _).append_left _)).cons_same _

end Elements

section Blocks

variable {spacing : Spacing}

/-- The layout of the markup inside a block, where blocks may be nested `n` more levels deep. -/
def nestedLayout (config : Config) (collaborators : Collaborators) (n : Nat) (t : Text) :
    Journaled Text := do
  let page ← Context.layout ⟨config, collaborators, formatWithin config collaborators n⟩
    (tokenize t)
  pure page.sheet.text

theorem formatWithin_succ (config : Config) (collaborators : Collaborators) (n : Nat) :
    formatWithin config collaborators (n + 1) = some (nestedLayout config collaborators n) :=
  rfl

variable {config : Config} {collaborators : Collaborators} {n : Nat}

theorem Forest.ne_nil_of_isNil {F : Forest} (h : F.isNil = false) : F ≠ .nil := by
  rintro rfl
  cases h

/-- The lines of a body are those of its forest. -/
theorem bodyLines_of_rows {body : Forest} {b : Text} (hregular : body.isRegular = true)
    (hrows : ∀ row ∈ Text.rows b, Text.isBlankText row = false)
    (hb : ∀ b', Text.rows b' = Text.rows b → body.Spells spacing n b')
    (halike : ∀ b', body.Spells spacing n b' →
      Context.PlacesAlike ⟨config, collaborators, formatWithin config collaborators n⟩
        (Item.ofTokens (tokenize b')) (body.items spacing)) (lead : Text) :
    Context.bodyLines (nestedLayout config collaborators n) lead b =
      body.bodyLines spacing config collaborators n lead := by
  have hdedent : body.Spells spacing n (Text.dedent b) := hb _ (Text.rows_dedent hrows)
  cases hnil : body.isNil with
  | true =>
      have hgap : Text.IsGap (Text.dedent b) := by
        cases body with
        | nil => exact hdedent
        | text => cases hnil
        | element => cases hnil
        | selfClosing => cases hnil
        | flow => cases hnil
      rw [Context.bodyLines, Forest.bodyLines]
      simp only [hgap.isBlankText, hnil, if_true]
  | false =>
      have hsolid : Text.isBlankText (Text.dedent b) = false :=
        hdedent.isBlankText hregular (Forest.ne_nil_of_isNil hnil)
      have hlayout : nestedLayout config collaborators n (Text.dedent b) = (do
          let page ← Context.placeAll
            ⟨config, collaborators, formatWithin config collaborators n⟩ {} (body.items spacing)
          pure page.sheet.text) := by
        rw [nestedLayout, Context.layout, halike _ hdedent]
      rw [Context.bodyLines, Forest.bodyLines]
      simp only [hsolid, hnil, hlayout]
      rfl

/-- The lines of a block that may be nested are those of its head and the forests inside it. -/
theorem blockLines_of_read? {head : FlowHead} {body : Forest} {chain : Chain} {x b indent : Text}
    {clauses : List Clause} (hhead : head.isClean = true)
    (hread : Block.read? x = some (.flow (head.toFlow b clauses), []))
    (hbody : Context.bodyLines (nestedLayout config collaborators n) (indent ++ config.unit) b =
      body.bodyLines spacing config collaborators n (indent ++ config.unit))
    (hclauses : Context.clauseLines (nestedLayout config collaborators n) indent config.unit
      clauses = chain.lines spacing config collaborators n indent) :
    Context.blockLines ⟨config, collaborators, formatWithin config collaborators (n + 1)⟩ indent x =
      Forest.flowLines spacing config collaborators n indent head body chain := by
  have hkeyword : head.keyword ≠ .switchBlock := by
    intro hk
    obtain ⟨hmarkup, -⟩ := FlowHead.isClean_cases hhead
    rw [hk] at hmarkup
    cases hmarkup
  have hsections : Context.sections? (head.toFlow b clauses) = none := if_neg hkeyword
  rw [Context.blockLines, formatWithin_succ]
  simp only [hread, Context.flowLines, hsections, Context.plainFlowLines]
  rw [show (head.toFlow b clauses).body = b from rfl,
    show (head.toFlow b clauses).clauses = clauses from rfl, hbody, hclauses]
  rfl

/-- Whatever the spelling of a block that may be nested, its lines are those of its forests. -/
theorem blockLines_of_spells {head : FlowHead} {body : Forest} {chain : Chain}
    (hclean : head.isClean = true ∧ body.isClean = true ∧ chain.isClean = true)
    (halike : ∀ s, body.Spells spacing n s →
      Context.PlacesAlike ⟨config, collaborators, formatWithin config collaborators n⟩
        (Item.ofTokens (tokenize s)) (body.items spacing))
    (hchain : ∀ clauses, chain.Matches spacing (n + 1) clauses → ∀ indent,
      Context.clauseLines (nestedLayout config collaborators n) indent config.unit clauses =
        chain.lines spacing config collaborators n indent)
    {x b : Text} {clauses : List Clause} (hx : SpellsFlow head b clauses x)
    (hrows : ∀ row ∈ Text.rows b, Text.isBlankText row = false)
    (hb : ∀ b', Text.rows b' = Text.rows b → body.Spells spacing n b')
    (hclauses : chain.Matches spacing (n + 1) clauses) (indent : Text) :
    Context.blockLines ⟨config, collaborators, formatWithin config collaborators (n + 1)⟩ indent x =
      Forest.flowLines spacing config collaborators n indent head body chain := by
  obtain ⟨hhead, hbody, hchainClean⟩ := hclean
  have hread : Block.read? x = some (.flow (head.toFlow b clauses), []) := by
    have hquiet := Block.read?_of_spells hx hhead
      ((hb b rfl).passes (Forest.isRegular_of_isClean hbody)) (hclauses.isReadable hchainClean)
      isQuiet_nil
    rwa [List.append_nil] at hquiet
  exact blockLines_of_read? hhead hread
    (bodyLines_of_rows (Forest.isRegular_of_isClean hbody) hrows hb halike _)
    (hchain clauses hclauses indent)

/-- A spelling of a block that may be nested is placed like its one-line form: both are read as
blocks whose bodies spell the same forests. -/
theorem place_block_of_spells {head : FlowHead} {body : Forest} {chain : Chain}
    (hclean : head.isClean = true ∧ body.isClean = true ∧ chain.isClean = true)
    (halike : ∀ s, body.Spells spacing n s →
      Context.PlacesAlike ⟨config, collaborators, formatWithin config collaborators n⟩
        (Item.ofTokens (tokenize s)) (body.items spacing))
    (hchain : ∀ clauses, chain.Matches spacing (n + 1) clauses → ∀ indent,
      Context.clauseLines (nestedLayout config collaborators n) indent config.unit clauses =
        chain.lines spacing config collaborators n indent)
    {x b : Text} {clauses : List Clause} (hx : SpellsFlow head b clauses x)
    (hrows : ∀ row ∈ Text.rows b, Text.isBlankText row = false)
    (hb : ∀ b', Text.rows b' = Text.rows b → body.Spells spacing n b')
    (hclauses : chain.Matches spacing (n + 1) clauses) (page : Page) :
    Context.place ⟨config, collaborators, formatWithin config collaborators (n + 1)⟩ page
        (.block x) =
      Context.place ⟨config, collaborators, formatWithin config collaborators (n + 1)⟩ page
        (.block (Forest.flowSource spacing head body chain)) := by
  obtain ⟨clauses', hsource, hrows', hb', hclauses'⟩ :=
    Forest.spellsFlow_flowSource spacing head hclean.2.1 hclean.2.2 (n + 1)
  simp only [Context.place, blockLines_of_spells hclean halike hchain hx hrows hb hclauses,
    blockLines_of_spells hclean halike hchain hsource hrows' hb' hclauses']

mutual

/-- The items of a spelling and those of its forest are placed alike. -/
theorem Forest.Spells.placesAlike {n : Nat} {F : Forest} {t k : Text}
    (hregular : F.isRegular = true) (h : F.Spells spacing n t) (hk : EndsSiblings k) :
    Context.PlacesAlike ⟨config, collaborators, formatWithin config collaborators n⟩
      (Item.ofTokens (tokenize (t ++ k))) (F.items spacing ++ Item.ofTokens (tokenize k)) := by
  match F with
  | .nil =>
      have hgap : Text.IsGap t := h
      rw [tokenize_gap hgap hk.endsText]
      exact Context.placesAlike_gap hgap _
  | .text content rest =>
      obtain ⟨-, -, hrest⟩ := Forest.isRegular_text.1 hregular
      obtain ⟨x, tail, rfl, hstrip, hchars, htight, htail⟩ := h
      have hitems : Item.ofTokens (⟨.text, x⟩ :: tokenize (tail ++ k)) =
          .text x :: Item.ofTokens (tokenize (tail ++ k)) := by
        rw [Item.ofTokens]
        rfl
      rw [Forest.Spells.tokenize_text hregular hstrip hchars htight htail hk, hitems]
      exact Context.PlacesAlike.cons (Context.place_text_congr hstrip)
        (Forest.Spells.placesAlike hrest htail hk)
  | .element tag children rest =>
      obtain ⟨-, -, -, hchildren, hrest⟩ := Forest.isRegular_element.1 hregular
      obtain ⟨g, x, inner, tail, rfl, hg, hx, hinner, hline, htail⟩ := h
      exact Forest.Spells.placesAlike_element hregular hg hx hinner hline
        (Forest.Spells.placesAlike hchildren hinner (endsSiblings_closingTag tag.name (tail ++ k)))
        (Forest.Spells.placesAlike hrest htail hk)
  | .selfClosing tag rest =>
      obtain ⟨-, hrest⟩ := Forest.isRegular_selfClosing.1 hregular
      obtain ⟨g, x, tail, rfl, hg, hx, htail⟩ := h
      have hitems : Item.ofTokens (⟨.selfClosingTag tag, x⟩ :: tokenize (tail ++ k)) =
          .selfClosingTag tag :: Item.ofTokens (tokenize (tail ++ k)) := by
        rw [Item.ofTokens]
        rfl
      rw [Forest.tokenize_selfClosing hregular hg hx]
      refine (Context.placesAlike_gap hg _).trans ?_
      rw [hitems]
      exact (Forest.Spells.placesAlike hrest htail hk).cons_same _
  | .flow head body chain rest =>
      obtain ⟨hhead, hbody, hchain, hrest⟩ := Forest.isRegular_flow.1 hregular
      obtain ⟨g, x, b, clauses, tail, rfl, hg, hblock, -, hrows, hb, hclauses, hexact, hx,
        htail⟩ := h.flow_cases hregular
      have hitems : Item.ofTokens (⟨.block, x⟩ :: tokenize (tail ++ k)) =
          .block x :: Item.ofTokens (tokenize (tail ++ k)) := by
        rw [Item.ofTokens]
        simp only [Item.ofToken, hx.startsWith_comment]
        rfl
      rw [Forest.tokenize_flow hg (hblock k hk)]
      refine (Context.placesAlike_gap hg _).trans ?_
      rw [hitems]
      refine Context.PlacesAlike.cons ?_ (Forest.Spells.placesAlike hrest htail hk)
      cases n with
      | zero =>
          rw [hexact rfl]
          exact fun _ => rfl
      | succ n =>
          exact place_block_of_spells ⟨hhead, hbody, hchain⟩
            (fun s hs => (Forest.Spells.placesAlike (Forest.isRegular_of_isClean hbody) hs
              endsSiblings_nil).of_append_nil)
            (fun others hothers => Chain.Matches.clauseLines hchain hothers) hx hrows hb hclauses

theorem Chain.Matches.clauseLines {n : Nat} {chain : Chain} {clauses : List Clause}
    (hclean : chain.isClean = true) (h : chain.Matches spacing (n + 1) clauses) (indent : Text) :
    Context.clauseLines (nestedLayout config collaborators n) indent config.unit clauses =
      chain.lines spacing config collaborators n indent := by
  match chain with
  | .nil =>
      rw [show clauses = [] from h]
      rfl
  | .clause head body rest =>
      obtain ⟨-, hbody, hrest⟩ := Chain.isClean_clause.1 hclean
      obtain ⟨b, others, rfl, hrows, hb, hothers⟩ := h
      have halike : ∀ b', body.Spells spacing n b' →
          Context.PlacesAlike ⟨config, collaborators, formatWithin config collaborators n⟩
            (Item.ofTokens (tokenize b')) (body.items spacing) :=
        fun b' hb' => (Forest.Spells.placesAlike (Forest.isRegular_of_isClean hbody) hb'
          endsSiblings_nil).of_append_nil
      rw [Context.clauseLines, Chain.lines,
        bodyLines_of_rows (n := n) (Forest.isRegular_of_isClean hbody) hrows hb halike,
        Chain.Matches.clauseLines hrest hothers]

end

/-- The lines of a block in its one-line form, where it may be nested. -/
theorem Forest.blockLines_flowSource {head : FlowHead} {body : Forest} {chain : Chain}
    (hclean : head.isClean = true ∧ body.isClean = true ∧ chain.isClean = true) (indent : Text) :
    Context.blockLines ⟨config, collaborators, formatWithin config collaborators (n + 1)⟩ indent
        (Forest.flowSource spacing head body chain) =
      Forest.flowLines spacing config collaborators n indent head body chain := by
  obtain ⟨hhead, hbody, hchain⟩ := hclean
  obtain ⟨clauses, hsource, hrows, hb, hclauses⟩ :=
    Forest.spellsFlow_flowSource spacing head hbody hchain (n + 1)
  exact blockLines_of_spells ⟨hhead, hbody, hchain⟩
    (fun s hs => (Forest.Spells.placesAlike (Forest.isRegular_of_isClean hbody) hs
      endsSiblings_nil).of_append_nil)
    (fun others hothers => Chain.Matches.clauseLines hchain hothers) hsource hrows hb hclauses
    indent

end Blocks

end RazorLayout
