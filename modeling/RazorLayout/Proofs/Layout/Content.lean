import RazorLayout.Proofs.Layout.Ink
import RazorLayout.Proofs.Text.Rows
import RazorLayout.Proofs.Token.Pieces

/-!
# The layout keeps the content of markup

Input.  A text whose blocks are comments and member blocks only, and a configuration that leaves
style sheets alone.

The layout takes tokens through several paths: preserved elements join the pieces of their content,
inline elements swallow texts up to their closing tag, everything else is placed on its own.  Here
the pieces are grouped from the tokens alone (`withContent`): each piece stands with the pieces
that are kept behind it, which are those strictly inside a preserved element with a closing tag.

Results.

* `ink_ofTokens`: the items hold the ink of the groups, in order.
* `ink_formatMarkup`: the layout has the ink of the groups, with every tag in its one-line form, and
  the content of every preserved element stands in it unchanged between its tags.
-/

namespace RazorLayout

/-- A block that is kept as it is: a comment or a block of members. -/
def Block.isKept : Block → Bool
  | .comment => true
  | .members _ => true
  | .code _ => false
  | .flow _ => false

namespace Token

/-- The piece on one line: a tag in its inline form, anything else as it is. -/
def canonical (t : Token) : Text :=
  match t.kind with
  | .openTag tag => tag.inline .opening
  | .selfClosingTag tag => tag.inline .selfClosing
  | .closeTag name => Context.closingTag name
  | _ => t.raw

/-- Whether the piece is markup: it is no block, or a block that is kept as it is. -/
def isMarkup (t : Token) : Bool :=
  t.kind != .block ||
    (match Block.read? t.raw with
      | some (block, _) => block.isKept
      | none => false)

/-- The pieces that are kept behind `t` when `ts` follow: those up to the closing tag, provided that
`t` opens a preserved element and there is such a tag. -/
def contentBehind (t : Token) (ts : List Token) : List Token :=
  match t.kind.preservedName? with
  | none => []
  | some name => if ts.any (closes name) then ts.takeWhile fun u => !u.closes name else []

end Token

/-- The pieces that stand on their own, each with the pieces kept behind it. -/
def withContent : List Token → List (Token × List Token)
  | [] => []
  | t :: ts =>
      let content := t.contentBehind ts
      (t, content) :: withContent (ts.drop content.length)
  termination_by ts => ts.length
  decreasing_by
    simp only [List.length_drop, List.length_cons]
    omega

/-- A group on one line: the piece, and the pieces behind it as they are. -/
def groupInk (group : Token × List Token) : Text :=
  Text.ink (group.1.canonical ++ joinRaw group.2)

section Groups

theorem contentBehind_eq_nil {t : Token} (ts : List Token) (h : ∀ tag, t.kind ≠ .openTag tag) :
    t.contentBehind ts = [] := by
  have hname : t.kind.preservedName? = none := by
    cases hkind : t.kind with
    | openTag tag => exact absurd hkind (h tag)
    | _ => rfl
  simp [Token.contentBehind, hname]

theorem withContent_cons_of_contentBehind_eq_nil {t : Token} {ts : List Token}
    (h : t.contentBehind ts = []) : withContent (t :: ts) = (t, []) :: withContent ts := by
  rw [withContent]
  simp [h]

theorem withContent_cons_of_ne_openTag {t : Token} (ts : List Token)
    (h : ∀ tag, t.kind ≠ .openTag tag) : withContent (t :: ts) = (t, []) :: withContent ts :=
  withContent_cons_of_contentBehind_eq_nil (contentBehind_eq_nil ts h)

theorem closes_eq_true {name : Text} {t : Token} (h : t.closes name = true) :
    ∃ other, t.kind = .closeTag other ∧ Text.lower other = name := by
  unfold Token.closes at h
  split at h
  · rename_i other hkind
    exact ⟨other, hkind, by simpa using h⟩
  · cases h

theorem splitClose?_eq_some {name : Text} {ts content rest : List Token}
    (h : Item.splitClose? name ts = some (content, rest)) :
    ∃ close, ts = content ++ close :: rest ∧ close.closes name = true ∧
      ∀ u ∈ content, u.closes name = false := by
  induction ts generalizing content with
  | nil => cases h
  | cons t ts ih =>
      unfold Item.splitClose? at h
      split at h
      · rename_i hclose
        cases h
        exact ⟨t, rfl, hclose, by simp⟩
      · rename_i hopen
        obtain ⟨⟨inner, tail⟩, hinner, he⟩ := Option.map_eq_some_iff.1 h
        cases he
        obtain ⟨close, rfl, hclose, hcontent⟩ := ih hinner
        refine ⟨close, rfl, hclose, ?_⟩
        intro u hu
        rcases List.mem_cons.1 hu with rfl | hu
        · simpa using hopen
        · exact hcontent u hu

theorem splitClose?_eq_none {name : Text} {ts : List Token}
    (h : Item.splitClose? name ts = none) : ts.any (Token.closes name) = false := by
  induction ts with
  | nil => rfl
  | cons t ts ih =>
      unfold Item.splitClose? at h
      split at h
      · cases h
      · rename_i hopen
        have htail := ih (Option.map_eq_none_iff.1 h)
        simp [hopen, htail]

/-- A preserved element is one group, with its closing tag as the next. -/
theorem contentBehind_of_splitPreserved? {t : Token} {tag : Tag} {ts content rest : List Token}
    (hkind : t.kind = .openTag tag) (h : Item.splitPreserved? tag ts = some (content, rest)) :
    t.contentBehind ts = content ∧
      ∃ close, ts = content ++ close :: rest ∧ close.closes (Text.lower tag.name) = true := by
  unfold Item.splitPreserved? at h
  split at h
  · rename_i hname
    obtain ⟨close, rfl, hclose, hcontent⟩ := splitClose?_eq_some h
    refine ⟨?_, close, rfl, hclose⟩
    have hany : (content ++ close :: rest).any (Token.closes (Text.lower tag.name)) = true := by
      simp [hclose]
    have htake : (content ++ close :: rest).takeWhile
        (fun u => !u.closes (Text.lower tag.name)) = content := by
      rw [List.takeWhile_append_of_pos (by simpa using hcontent), List.takeWhile_cons_of_neg]
      · simp
      · simp [hclose]
    simp [Token.contentBehind, hkind, TokenKind.preservedName?, hname, hany, htake]
  · cases h

theorem contentBehind_of_splitPreserved?_eq_none {t : Token} {tag : Tag} {ts : List Token}
    (hkind : t.kind = .openTag tag) (h : Item.splitPreserved? tag ts = none) :
    t.contentBehind ts = [] := by
  unfold Item.splitPreserved? at h
  split at h
  · rename_i hname
    simp [Token.contentBehind, hkind, TokenKind.preservedName?, hname, splitClose?_eq_none h]
  · rename_i hname
    simp [Token.contentBehind, hkind, TokenKind.preservedName?, hname]

/-- The texts that an inline element swallows are groups of their own, and their ink is that of the
parts. -/
theorem withContent_of_splitInline? {name : Text} {ts rest : List Token} {parts : List Text}
    (h : Item.splitInline? name ts = some (parts, rest)) :
    ∃ (texts : List Token) (close : Token), close.closes name = true ∧
      withContent ts = (texts.map fun t => (t, [])) ++ (close, []) :: withContent rest ∧
      (texts.flatMap fun t => Text.ink t.canonical) = parts.flatMap Text.ink := by
  induction ts generalizing parts with
  | nil => cases h
  | cons t ts ih =>
      unfold Item.splitInline? at h
      split at h
      · rename_i hclose
        cases h
        obtain ⟨other, hkind, -⟩ := closes_eq_true hclose
        exact ⟨[], t, hclose, withContent_cons_of_ne_openTag rest (by simp [hkind]), rfl⟩
      · split at h
        · rename_i htext
          obtain ⟨⟨inner, tail⟩, hinner, he⟩ := Option.map_eq_some_iff.1 h
          cases he
          obtain ⟨texts, close, hclose, hgroups, hink⟩ := ih hinner
          refine ⟨t :: texts, close, hclose, ?_, ?_⟩
          · rw [withContent_cons_of_ne_openTag ts (by simp [htext.1]), hgroups]
            rfl
          · have hcanonical : t.canonical = t.raw := by
              simp [Token.canonical, htext.1]
            rw [List.flatMap_cons, hink, hcanonical]
            unfold Item.consSolid
            split
            · rename_i hempty
              have hnil : Text.strip t.raw = [] := by simpa using hempty
              have hblank : Text.ink t.raw = [] := by
                rw [← Text.ink_strip, hnil, Text.ink_nil]
              simp [hblank]
            · simp
        · cases h

end Groups

namespace Item

/-- The item on one line. -/
def canonical : Item → Text
  | preserved tag content => tag.inline .opening ++ content ++ Context.closingTag tag.name
  | inline tag content => tag.inline .opening ++ content ++ Context.closingTag tag.name
  | openTag tag => tag.inline .opening
  | selfClosingTag tag => tag.inline .selfClosing
  | closeTag name => Context.closingTag name
  | text raw => raw
  | comment raw => raw
  | doctype raw => raw
  | directive raw => raw
  | block raw => raw

theorem ink_closingTag {name other : Text} (h : Text.lower other = Text.lower name) :
    Text.ink (Context.closingTag other) = Text.ink (Context.closingTag name) := by
  simp only [Context.closingTag, Text.ink_append, Text.ink_eq_of_lower_eq h]

theorem ink_canonical_of_closes {t : Token} {name : Text}
    (h : t.closes (Text.lower name) = true) :
    Text.ink t.canonical = Text.ink (Context.closingTag name) := by
  obtain ⟨other, hkind, hother⟩ := closes_eq_true h
  rw [Token.canonical, hkind]
  exact ink_closingTag hother

/-- The item that an opening tag starts has the ink of the groups that it takes. -/
theorem ink_ofOpenTag {t : Token} {tag : Tag} (hkind : t.kind = .openTag tag) (ts : List Token) :
    (withContent (t :: ts)).flatMap groupInk =
      Text.ink (ofOpenTag tag ts).1.canonical ++
        (withContent (ofOpenTag tag ts).2).flatMap groupInk := by
  have hcanonical : t.canonical = tag.inline .opening := by
    simp [Token.canonical, hkind]
  unfold ofOpenTag
  split
  · rename_i content rest hpreserved
    obtain ⟨hcontent, close, rfl, hclose⟩ := contentBehind_of_splitPreserved? hkind hpreserved
    obtain ⟨other, hother, -⟩ := closes_eq_true hclose
    rw [withContent]
    simp only [hcontent, List.drop_left, List.flatMap_cons]
    rw [withContent_cons_of_ne_openTag rest (by simp [hother])]
    simp [groupInk, canonical, hcanonical, ink_canonical_of_closes hclose]
  · rename_i hpreserved
    rw [withContent_cons_of_contentBehind_eq_nil
      (contentBehind_of_splitPreserved?_eq_none hkind hpreserved)]
    split
    · rename_i parts rest hinline
      obtain ⟨texts, close, hclose, hgroups, hink⟩ := withContent_of_splitInline? hinline
      have htexts : (texts.map fun t => (t, ([] : List Token))).flatMap groupInk =
          parts.flatMap Text.ink := by
        simp [List.flatMap_map, groupInk, hink]
      have hjoin : Text.ink (Text.joinWith [' '] parts) = parts.flatMap Text.ink :=
        Text.ink_joinWith rfl parts
      rw [List.flatMap_cons, hgroups, List.flatMap_append, htexts]
      simp [groupInk, canonical, hcanonical, hjoin, ink_canonical_of_closes hclose]
    · simp [groupInk, canonical, hcanonical]

theorem canonical_ofToken (t : Token) : (ofToken t).canonical = t.canonical := by
  obtain ⟨kind, raw⟩ := t
  cases kind with
  | block =>
      simp only [ofToken]
      split <;> rfl
  | _ => rfl

end Item

/-- The items of tokens hold the ink of the groups, in order. -/
theorem ink_ofTokens (ts : List Token) :
    ((Item.ofTokens ts).flatMap fun item => Text.ink item.canonical) =
      (withContent ts).flatMap groupInk := by
  fun_induction Item.ofTokens ts with
  | case1 => simp [withContent]
  | case2 t ts tag hkind ih =>
      rw [Item.ink_ofOpenTag hkind, List.flatMap_cons, ih]
  | case3 t ts hkind ih =>
      rw [withContent_cons_of_ne_openTag ts hkind, List.flatMap_cons, List.flatMap_cons, ih,
        Item.canonical_ofToken]
      simp [groupInk]

section Plainness

/-- A block that is kept as it is, read from its own characters. -/
def KeptBlock (raw : Text) : Prop :=
  ∃ block rest, Block.read? raw = some (block, rest) ∧ block.isKept = true

/-- A piece that the layout can print: a tag has a name, and a block is kept as it is. -/
def Token.Plain (t : Token) : Prop :=
  t.kind.tagName? ≠ some [] ∧ (t.kind = .block → KeptBlock t.raw)

/-- An item that the layout can print: a tag has a name, and a block is kept as it is. -/
def Item.Plain : Item → Prop
  | .preserved tag _ => tag.name ≠ []
  | .inline tag _ => tag.name ≠ []
  | .openTag tag => tag.name ≠ []
  | .selfClosingTag tag => tag.name ≠ []
  | .block raw => KeptBlock raw
  | _ => True

theorem Item.plain_ofOpenTag {tag : Tag} (hname : tag.name ≠ []) (ts : List Token) :
    (Item.ofOpenTag tag ts).1.Plain := by
  unfold Item.ofOpenTag
  split
  · exact hname
  · split
    · exact hname
    · exact hname

theorem Item.plain_ofToken {t : Token} (h : t.Plain) : (Item.ofToken t).Plain := by
  obtain ⟨kind, raw⟩ := t
  obtain ⟨hname, hblock⟩ := h
  cases kind with
  | openTag tag =>
      intro hnil
      exact hname (congrArg some hnil)
  | selfClosingTag tag =>
      intro hnil
      exact hname (congrArg some hnil)
  | block =>
      simp only [Item.ofToken]
      split
      · exact trivial
      · exact hblock rfl
  | _ => exact trivial

theorem Item.ofOpenTag_suffix (tag : Tag) (ts : List Token) : (Item.ofOpenTag tag ts).2 <:+ ts := by
  have hinline : ∀ {name : Text} {ts rest : List Token} {parts : List Text},
      Item.splitInline? name ts = some (parts, rest) → rest <:+ ts := by
    intro name ts rest parts h
    induction ts generalizing parts with
    | nil => cases h
    | cons t ts ih =>
        unfold Item.splitInline? at h
        split at h
        · cases h
          exact List.suffix_cons _ _
        · split at h
          · obtain ⟨⟨inner, tail⟩, hinner, he⟩ := Option.map_eq_some_iff.1 h
            cases he
            exact (ih hinner).trans (List.suffix_cons _ _)
          · cases h
  unfold Item.ofOpenTag
  split
  · rename_i content rest h
    unfold Item.splitPreserved? at h
    split at h
    · obtain ⟨close, rfl, -⟩ := splitClose?_eq_some h
      exact ⟨content ++ [close], by simp⟩
    · cases h
  · split
    · rename_i h
      exact hinline h
    · exact List.suffix_refl _

/-- What holds of the items that single tokens start holds of all items. -/
theorem Item.forall_mem_ofTokens {Q : Token → Prop} {P : Item → Prop}
    (hopen : ∀ t tag ts, Q t → t.kind = .openTag tag → P (Item.ofOpenTag tag ts).1)
    (htoken : ∀ t, Q t → P (Item.ofToken t)) {ts : List Token} (h : ∀ t ∈ ts, Q t) :
    ∀ item ∈ Item.ofTokens ts, P item := by
  fun_induction Item.ofTokens ts with
  | case1 => simp
  | case2 t ts tag hkind ih =>
      have hrest : ∀ u ∈ (Item.ofOpenTag tag ts).2, Q u := by
        intro u hu
        exact h u (List.mem_cons_of_mem _ ((Item.ofOpenTag_suffix tag ts).subset hu))
      exact List.forall_mem_cons.2 ⟨hopen t tag ts (h t List.mem_cons_self) hkind, ih hrest⟩
  | case3 t ts hkind ih =>
      obtain ⟨hfirst, hrest⟩ := List.forall_mem_cons.1 h
      exact List.forall_mem_cons.2 ⟨htoken t hfirst, ih hrest⟩

theorem Item.plain_ofTokens {ts : List Token} (h : ∀ t ∈ ts, t.Plain) :
    ∀ item ∈ Item.ofTokens ts, item.Plain := by
  refine Item.forall_mem_ofTokens ?_ (fun t ht => Item.plain_ofToken ht) h
  intro t tag ts ht hkind
  refine Item.plain_ofOpenTag ?_ ts
  intro hnil
  exact ht.1 (by simp [hkind, TokenKind.tagName?, hnil])

end Plainness

namespace Context

section Lines

variable (ctx : Context)

theorem ink_indentation (config : Config) (level : Nat) :
    Text.ink (config.indentation level) = [] :=
  Text.ink_spaces _

theorem blockLines_run_of_kept {raw : Text} (h : KeptBlock raw) (indent : Text) (j : Journal) :
    ((ctx.blockLines indent raw).run j).1 = rawLines indent raw := by
  obtain ⟨block, rest, hread, hkept⟩ := h
  unfold blockLines
  split
  · rfl
  · rw [hread]
    cases block with
    | comment => rfl
    | members keyword => rfl
    | code body => cases hkept
    | flow f => cases hkept

variable (hstyle : ctx.config.style.enabled = false)
include hstyle

theorem preservedLines_run {tag : Tag} (hname : tag.name ≠ []) (indent content : Text)
    (j : Journal) :
    (ctx.preservedLines indent tag content).run j =
      ([indent ++ tag.inline .opening ++ content ++ closingTag tag.name], j) := by
  unfold preservedLines
  rw [Tag.printInline_eq _ hname, if_neg (by simp [hstyle])]
  rfl

/-- The lines of an item hold the ink of the item. -/
theorem ink_itemLines {indent : Text} (hindent : Text.ink indent = []) {item : Item}
    (hitem : item.Plain) (j : Journal) :
    ((ctx.itemLines indent item).run j).1.flatMap Text.ink = Text.ink item.canonical := by
  cases item with
  | preserved tag content =>
      rw [itemLines, ctx.preservedLines_run hstyle hitem]
      simp [hindent, Item.canonical]
  | inline tag content => exact ctx.ink_inlineLines hindent hitem content
  | openTag tag => exact ctx.ink_tagLines hindent hitem .opening
  | selfClosingTag tag => exact ctx.ink_tagLines hindent hitem .selfClosing
  | closeTag name =>
      show Text.ink (indent ++ closingTag name) ++ [] = _
      simp [hindent, Item.canonical]
  | text raw =>
      by_cases hblank : Text.isBlankText raw = true
      · simp only [itemLines, if_pos hblank]
        exact (Text.ink_of_isBlankText hblank).symm
      · simp only [itemLines, if_neg hblank]
        exact ink_textLines hindent raw
  | comment raw => exact ink_trimmedLine hindent raw
  | doctype raw => exact ink_trimmedLine hindent raw
  | directive raw => exact ink_trimmedLine hindent raw
  | block raw =>
      rw [itemLines, ctx.blockLines_run_of_kept hitem]
      exact ink_rawLines hindent raw

/-- The lines of items hold the ink of the items, in order. -/
theorem ink_itemsLines {items : List Item} (hitems : ∀ item ∈ items, item.Plain) (level : Nat)
    (j : Journal) :
    ((ctx.itemsLines level items).run j).1.flatMap Text.ink =
      items.flatMap fun item => Text.ink item.canonical := by
  induction items generalizing level j with
  | nil => rfl
  | cons item items ih =>
      rw [itemsLines_cons_run, List.flatMap_append, Text.flatMap_ink_solid, List.flatMap_cons,
        ctx.ink_itemLines hstyle (ink_indentation _ _) (hitems item (by simp)),
        ih (fun other hother => hitems other (List.mem_cons_of_mem _ hother))]

/-- A preserved element stands on one line, its content between its tags. -/
theorem mem_itemsLines_of_preserved {items : List Item} {tag : Tag} {content : Text}
    (hmem : .preserved tag content ∈ items) (hname : tag.name ≠ []) (level : Nat) (j : Journal) :
    ∃ indent : Text, indent ++ tag.inline .opening ++ content ++ closingTag tag.name ∈
      ((ctx.itemsLines level items).run j).1 := by
  induction items generalizing level j with
  | nil => cases hmem
  | cons item items ih =>
      rw [itemsLines_cons_run]
      rcases List.mem_cons.1 hmem with rfl | hmem
      · refine ⟨ctx.config.indentation level, List.mem_append_left _ ?_⟩
        rw [itemLines, ctx.preservedLines_run hstyle hname]
        simp [solid, closingTag, Item.levelAt]
      · obtain ⟨indent, hline⟩ := ih hmem _ _
        exact ⟨indent, List.mem_append_right _ hline⟩

end Lines

end Context

section Layout

/-- Content kept behind an opening tag or behind what follows it: the tag starts a preserved item
of it, or a piece behind the item that the tag starts has it. -/
theorem ofOpenTag_cases {t : Token} {ts : List Token} {tag : Tag} {group : Token × List Token}
    (hkind : t.kind = .openTag tag) (hmem : group ∈ withContent (t :: ts)) (hne : group.2 ≠ []) :
    group.1.kind = .openTag tag ∧
        (Item.ofOpenTag tag ts).1 = .preserved tag (joinRaw group.2) ∨
      group ∈ withContent (Item.ofOpenTag tag ts).2 := by
  unfold Item.ofOpenTag
  split
  · rename_i content rest hpreserved
    obtain ⟨hcontent, close, rfl, hclose⟩ := contentBehind_of_splitPreserved? hkind hpreserved
    obtain ⟨other, hother, -⟩ := closes_eq_true hclose
    rw [withContent] at hmem
    simp only [hcontent, List.drop_left] at hmem
    rw [withContent_cons_of_ne_openTag rest (by simp [hother])] at hmem
    rcases List.mem_cons.1 hmem with rfl | hmem
    · exact Or.inl ⟨hkind, rfl⟩
    · rcases List.mem_cons.1 hmem with rfl | hmem
      · exact absurd rfl hne
      · exact Or.inr hmem
  · rename_i hpreserved
    rw [withContent_cons_of_contentBehind_eq_nil
      (contentBehind_of_splitPreserved?_eq_none hkind hpreserved)] at hmem
    rcases List.mem_cons.1 hmem with rfl | hmem
    · exact absurd rfl hne
    · split
      · rename_i parts rest hinline
        obtain ⟨texts, close, -, hgroups, -⟩ := withContent_of_splitInline? hinline
        rw [hgroups, List.mem_append, List.mem_cons, List.mem_map] at hmem
        rcases hmem with ⟨text, -, rfl⟩ | rfl | hmem
        · exact absurd rfl hne
        · exact absurd rfl hne
        · exact Or.inr hmem
      · exact Or.inr hmem

/-- Content that is kept behind a piece belongs to a preserved item. -/
theorem preserved_mem_ofTokens {ts : List Token} {group : Token × List Token}
    (hmem : group ∈ withContent ts) (hne : group.2 ≠ []) :
    ∃ tag, group.1.kind = .openTag tag ∧ .preserved tag (joinRaw group.2) ∈ Item.ofTokens ts := by
  fun_induction Item.ofTokens ts with
  | case1 => simp [withContent] at hmem
  | case2 t ts tag hkind ih =>
      rcases ofOpenTag_cases hkind hmem hne with ⟨hopen, hitem⟩ | hrest
      · exact ⟨tag, hopen, by simp [hitem]⟩
      · obtain ⟨other, hother, hitem⟩ := ih hrest
        exact ⟨other, hother, List.mem_cons_of_mem _ hitem⟩
  | case3 t ts hkind ih =>
      rw [withContent_cons_of_ne_openTag ts hkind] at hmem
      rcases List.mem_cons.1 hmem with rfl | hmem
      · exact absurd rfl hne
      · obtain ⟨tag, hopen, hitem⟩ := ih hmem
        exact ⟨tag, hopen, List.mem_cons_of_mem _ hitem⟩

theorem plain_of_isMarkup {t : Token} (hname : t.kind.tagName? ≠ some [])
    (h : t.isMarkup = true) : t.Plain := by
  refine ⟨hname, fun hblock => ?_⟩
  simp only [Token.isMarkup, hblock, bne_self_eq_false, Bool.false_or] at h
  split at h
  · rename_i block rest hread
    exact ⟨block, rest, hread, h⟩
  · cases h

/-- The layout of markup loses, adds and moves nothing but blanks: where every block is a comment or
holds members and style sheets are left alone, the layout has the ink of the pieces in order, each
tag in its one-line form and everything inside preserved elements as it is, and the content of every
preserved element stands in it unchanged between its tags. -/
theorem ink_formatMarkup (config : Config) (collaborators : Collaborators) (depth : Nat)
    (t : Text) (j : Journal) (hstyle : config.style.enabled = false)
    (hmarkup : ∀ token ∈ tokenize t, token.isMarkup = true) :
    let output := ((formatMarkup config collaborators depth t).run j).1
    Text.ink output = (withContent (tokenize t)).flatMap groupInk ∧
      ∀ group ∈ withContent (tokenize t), group.2 ≠ [] →
        ∃ tag, group.1.kind = .openTag tag ∧
          tag.inline .opening ++ joinRaw group.2 ++ Context.closingTag tag.name <:+: output := by
  intro output
  let ctx : Context :=
    ⟨config, collaborators, formatWithin config collaborators (config.maxDepth - depth)⟩
  let items := Item.ofTokens (tokenize t)
  let lines := ((ctx.itemsLines 0 items).run j).1
  have hplain : ∀ item ∈ items, item.Plain :=
    Item.plain_ofTokens fun token htoken =>
      plain_of_isMarkup (tokenize_tagName? t token htoken) (hmarkup token htoken)
  let sheet := ((ctx.placeAll {} items).run j).1.sheet
  have houtput : output = Text.unlines sheet.toLines := rfl
  have hsolid : solid sheet.toLines = lines := (ctx.placeAll_run {} items j).1
  refine ⟨?_, ?_⟩
  · calc Text.ink output = sheet.toLines.flatMap Text.ink := by rw [houtput, Text.ink_unlines]
      _ = lines.flatMap Text.ink := by rw [← hsolid, Text.flatMap_ink_solid]
      _ = items.flatMap fun item => Text.ink item.canonical :=
          ctx.ink_itemsLines hstyle hplain 0 j
      _ = (withContent (tokenize t)).flatMap groupInk := ink_ofTokens (tokenize t)
  · intro group hgroup hne
    obtain ⟨tag, hopen, hitem⟩ := preserved_mem_ofTokens hgroup hne
    obtain ⟨indent, hline⟩ := ctx.mem_itemsLines_of_preserved hstyle hitem (hplain _ hitem) 0 j
    refine ⟨tag, hopen, ?_⟩
    have hsheet : indent ++ tag.inline .opening ++ joinRaw group.2 ++
        Context.closingTag tag.name ∈ sheet.toLines := by
      have hmem : _ ∈ lines := hline
      rw [← hsolid] at hmem
      exact (List.mem_filter.1 hmem).1
    refine List.IsInfix.trans ?_ (Text.infix_unlines hsheet)
    exact ⟨indent, [], by simp⟩

theorem ink_formatMarkup_pre :
    Text.ink ((formatMarkup .standard {} 0 "<p A=b>x<pre> y\n z</pre></p>".toList).run {}).1 =
      "<pa=\"b\">x<pre>yz</pre></p>".toList :=
  (ink_formatMarkup .standard {} 0 "<p A=b>x<pre> y\n z</pre></p>".toList {} rfl
    (by decide +kernel)).1.trans (by decide +kernel)

end Layout

end RazorLayout
