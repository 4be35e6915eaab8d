import RazorLayout.Proofs.Layout.Entries
import RazorLayout.Proofs.Layout.Hanging

/-!
# Preserved elements inside blocks

The body of a block is moved to the left margin, laid out on its own, and moved behind the
indentation of the block, and so is the body of every block inside it.  These moves work on lines
and do not know where a preserved element starts and ends, so they change its content.

* `Block.bodies` are the bodies of a block that are laid out as markup;
* `Nested` says how many blocks deep a body stands in a text;
* `IsElement` is a preserved element among pieces, and `IsContentIn` says where its content stands
  in the text around the body.

Results.  `Nested.exists_isContentIn` follows a preserved element back to the text, body by body.
`Nested.exists_hang_isInfix` follows what is printed of a body out to the layout of the text.
`formatMarkup_hangs_preserved` puts the two together: what becomes of preserved content, and when it
is printed as it is.
-/

namespace RazorLayout

section Bodies

/-- The bodies of a control-flow block that are laid out as markup.  Of a switch with sections these
are the sections, without the statement that ends them; its clauses are not laid out. -/
def Flow.bodies (f : Flow) : List Text :=
  match Context.sections? f with
  | some cases => cases.map fun c => (Context.beforeBreak? c.content).getD c.content
  | none => f.body :: f.clauses.map Clause.body

/-- The bodies of a block that are laid out as markup. -/
def Block.bodies : Block → List Text
  | comment => []
  | members _ => []
  | code body => [body]
  | flow f => f.bodies

theorem splitBraces_isInfix {cs content rest : Text} (h : splitBraces cs = some (content, rest)) :
    content <:+: cs :=
  ⟨['{'], '}' :: rest, by simp [splitBraces_eq h]⟩

theorem splitBody_isInfix {cs content rest : Text} (h : splitBody cs = some (content, rest)) :
    content <:+: cs :=
  (splitBraces_isInfix h).trans (afterSpaces_suffix cs).isInfix

theorem readClause?_isInfix {cs rest : Text} {clause : Clause}
    (h : readClause? cs = some (clause, rest)) : clause.body <:+: cs := by
  simp only [readClause?, Option.or_eq_some_iff] at h
  rcases h with h | ⟨-, h | ⟨-, h | ⟨-, h | ⟨-, h⟩⟩⟩⟩
  all_goals
    simp only [readElseIf?, readElse?, readFilteredCatch?, readPlainCatch?, readFinally?,
      Option.bind_eq_bind, Option.bind_eq_some_iff, Option.pure_def, Option.some.injEq,
      Prod.mk.injEq, Prod.exists] at h
  · obtain ⟨_, hword, _, hif, _, _, hparens, _, _, hbody, rfl, -⟩ := h
    refine (splitBody_isInfix hbody).trans (List.IsSuffix.isInfix ?_)
    exact (splitParens_suffix hparens).trans
      ((afterWord?_suffix hif).trans (afterWord?_suffix hword))
  · obtain ⟨_, hword, _, _, hbody, rfl, -⟩ := h
    exact (splitBraces_isInfix hbody).trans (afterWord?_suffix hword).isInfix
  · obtain ⟨_, hword, _, _, hparens, _, _, hbody, rfl, -⟩ := h
    refine (splitBody_isInfix hbody).trans (List.IsSuffix.isInfix ?_)
    exact (splitParens_suffix hparens).trans (afterWord?_suffix hword)
  · obtain ⟨_, hword, _, _, hbody, rfl, -⟩ := h
    exact (splitBraces_isInfix hbody).trans (afterWord?_suffix hword).isInfix
  · obtain ⟨_, hword, _, _, hbody, rfl, -⟩ := h
    exact (splitBraces_isInfix hbody).trans (afterWord?_suffix hword).isInfix

theorem readClauses_isInfix (cs : Text) : ∀ clause ∈ (readClauses cs).1, clause.body <:+: cs := by
  fun_induction readClauses cs with
  | case1 => simp
  | case2 cs clause rest h clauses final hrest ih =>
      rw [hrest] at ih
      have hspaces := (afterSpaces_suffix cs).isInfix
      refine List.forall_mem_cons.2 ⟨(readClause?_isInfix h).trans hspaces, fun other hother => ?_⟩
      exact (ih other hother).trans ((readClause?_progress h).1.isInfix.trans hspaces)

theorem stripEnd_isPrefix (cs : Text) : Text.stripEnd cs <+: cs := by
  conv_rhs => rw [← List.reverse_reverse cs]
  exact List.reverse_prefix.2 (List.dropWhile_suffix _)

theorem SwitchCase.readLabel?_suffix {cs rest : Text} {label : CaseLabel}
    (h : readLabel? cs = some (label, rest)) : rest <:+ cs := by
  unfold readLabel? at h
  split at h
  · rename_i tail htail
    obtain ⟨⟨pattern, behind⟩, hcolon, heq⟩ := Option.map_eq_some_iff.1 h
    cases heq
    have hbehind : behind <:+ tail := by
      rw [splitColon?_eq hcolon]
      exact (List.suffix_cons _ _).trans (List.suffix_append _ _)
    unfold afterCase? at htail
    split at htail
    · rename_i c more hword
      split at htail
      · cases htail
        exact hbehind.trans (Text.after?_suffix hword)
      · cases htail
    · cases htail
  · obtain ⟨behind, hdefault, heq⟩ := Option.map_eq_some_iff.1 h
    cases heq
    unfold afterDefault? at hdefault
    split at hdefault
    · rename_i more hword
      cases hdefault
      exact (List.suffix_cons _ _).trans (afterWord?_suffix hword)
    · cases hdefault

theorem SwitchCase.readSections?_isInfix {cs : Text} {cases : List SwitchCase}
    (h : readSections? cs = some cases) : ∀ c ∈ cases, c.content <:+: cs := by
  fun_induction readSections? cs generalizing cases with
  | case1 =>
      cases h
      simp
  | case2 => cases h
  | case3 c cs label rest hlabel parts =>
      rename_i ih
      obtain ⟨others, hothers, rfl⟩ := Option.map_eq_some_iff.1 h
      have hrest : rest.dropWhile isTabOrSpace <:+: c :: cs :=
        ((List.dropWhile_suffix _).trans (readLabel?_suffix hlabel)).isInfix
      have hparts : parts.1 ++ parts.2 = rest.dropWhile isTabOrSpace := splitSection_eq 0 false _
      rw [← hparts] at hrest
      refine List.forall_mem_cons.2 ⟨?_, fun other hother => ?_⟩
      · exact ((stripEnd_isPrefix _).trans (List.prefix_append _ _)).isInfix.trans hrest
      · have hbehind : afterSpaces parts.2 <:+ parts.1 ++ parts.2 :=
          (afterSpaces_suffix _).trans (List.suffix_append _ _)
        exact ((ih hothers other hother).trans hbehind.isInfix).trans hrest

theorem beforeBreak?_isPrefix {content before : Text}
    (h : Context.beforeBreak? content = some before) : before <+: content := by
  rw [← List.reverse_suffix]
  have hend : content.reverse.dropWhile isBlank <:+ content.reverse := List.dropWhile_suffix _
  unfold Context.beforeBreak? at h
  split at h
  · rename_i rest hrest
    rw [hrest] at hend
    have hrest' : rest.dropWhile isBlank <:+ content.reverse :=
      (List.dropWhile_suffix _).trans ((List.suffix_cons _ _).trans hend)
    split at h
    · cases h
      exact List.nil_suffix
    · rename_i c behind hword
      split at h
      · cases h
        rw [List.reverse_reverse]
        exact ((List.suffix_cons _ _).trans (Text.after?_suffix hword)).trans hrest'
      · cases h
    · cases h
  · cases h

theorem Flow.bodies_isInfix {f : Flow} {raw : Text} (hbody : f.body <:+: raw)
    (hclauses : ∀ clause ∈ f.clauses, clause.body <:+: raw) :
    ∀ body ∈ f.bodies, body <:+: raw := by
  unfold Flow.bodies
  split
  · rename_i cases hsections
    intro body hmem
    obtain ⟨c, hc, rfl⟩ := List.mem_map.1 hmem
    have hread : SwitchCase.readAll? f.body = some cases := by
      unfold Context.sections? at hsections
      split at hsections
      · exact hsections
      · cases hsections
    have hcontent : c.content <:+: raw :=
      ((SwitchCase.readSections?_isInfix hread c hc).trans
        (afterSpaces_suffix _).isInfix).trans hbody
    cases hbreak : Context.beforeBreak? c.content with
    | none => exact hcontent
    | some before => exact (beforeBreak?_isPrefix hbreak).isInfix.trans hcontent
  · exact List.forall_mem_cons.2 ⟨hbody, List.forall_mem_map.2 hclauses⟩

/-- The bodies of a block are pieces of the text behind its sigil. -/
theorem Block.bodies_isInfix_tail {raw rest : Text} {block : Block}
    (h : Block.read? raw = some (block, rest)) : ∀ body ∈ block.bodies, body <:+: raw.tail := by
  unfold Block.read? at h
  split at h
  · obtain ⟨group, hgroup, heq⟩ := Option.map_eq_some_iff.1 h
    cases heq
    obtain ⟨close, -, rfl⟩ := splitGroup_eq hgroup
    intro body hbody
    rw [List.mem_singleton.1 hbody]
    exact ⟨['{'], close :: group.2, rfl⟩
  · split at h <;> cases h <;> simp [Block.bodies]
  · rename_i tail _ _
    simp only [readKeywordBlock?, Option.bind_eq_bind, Option.bind_eq_some_iff, Prod.exists] at h
    obtain ⟨keyword, -, name, behindName, hname, condition, behindCondition, hcondition, body,
      behindBody, hbody, h⟩ := h
    have hfront : behindCondition <:+: tail :=
      ((readCondition?_suffix hcondition).trans ((readName?_suffix hname).trans
        ((afterSpaces_suffix _).trans (afterIdentifier_suffix _)))).isInfix
    split at h
    · cases h
      simp [Block.bodies]
    · cases h
      refine Flow.bodies_isInfix ((splitBody_isInfix hbody).trans hfront) fun clause hclause => ?_
      exact (readClauses_isInfix behindBody clause hclause).trans
        ((splitBody_suffix hbody).isInfix.trans hfront)
  · cases h

/-- The bodies of a block are pieces of its text. -/
theorem Block.bodies_isInfix {raw rest : Text} {block : Block}
    (h : Block.read? raw = some (block, rest)) : ∀ body ∈ block.bodies, body <:+: raw :=
  fun body hbody => (bodies_isInfix_tail h body hbody).trans (List.tail_suffix raw).isInfix

end Bodies

section Nesting

/-- A block of the text has the body. -/
def HasBody (t body : Text) : Prop :=
  ∃ raw block rest, .block raw ∈ Item.ofTokens (tokenize t) ∧
    Block.read? raw = some (block, rest) ∧ body ∈ block.bodies

/-- The body stands `n` blocks deep in the text.  Each body is moved to the left margin before its
blocks are looked for. -/
inductive Nested : Nat → Text → Text → Prop
  | here {t body : Text} (h : HasBody t body) : Nested 1 t body
  | deeper {n : Nat} {t outer body : Text} (h : HasBody t outer)
      (hinner : Nested n (Text.dedent outer) body) : Nested (n + 1) t body

variable {n : Nat} {t body : Text}

theorem Item.block_ne_ofOpenTag (tag : Tag) (ts : List Token) (raw : Text) :
    (ofOpenTag tag ts).1 ≠ .block raw := by
  unfold ofOpenTag
  split
  · simp
  · split <;> simp

/-- The block of an item is a piece of its own. -/
theorem Item.exists_token_of_block {raw : Text} {ts : List Token} (h : .block raw ∈ ofTokens ts) :
    ∃ token ∈ ts, token.kind = .block ∧ token.raw = raw := by
  refine forall_mem_ofTokens (P := fun item => item = .block raw →
    ∃ token ∈ ts, token.kind = .block ∧ token.raw = raw) ?_ ?_ (fun token htoken => htoken) _ h rfl
  · intro token tag ts _ _ heq
    exact absurd heq (block_ne_ofOpenTag tag ts raw)
  · intro token htoken heq
    cases hkind : token.kind <;> simp [ofToken, hkind] at heq
    split at heq <;> cases heq
    exact ⟨token, htoken, hkind, rfl⟩

theorem raw_infix_of_block {raw : Text} (h : .block raw ∈ Item.ofTokens (tokenize t)) :
    raw <:+: t := by
  obtain ⟨token, htoken, -, rfl⟩ := Item.exists_token_of_block h
  obtain ⟨front, back, hsplit⟩ := List.append_of_mem htoken
  exact ⟨joinRaw front, joinRaw back, by rw [← joinRaw_tokenize t, hsplit]; simp⟩

theorem HasBody.isInfix (h : HasBody t body) : body <:+: t := by
  obtain ⟨raw, block, rest, hblock, hread, hbody⟩ := h
  exact (Block.bodies_isInfix hread body hbody).trans (raw_infix_of_block hblock)

theorem HasBody.not_isBlankText (h : HasBody t body) : Text.isBlankText t = false := by
  obtain ⟨raw, block, rest, hblock, hread, -⟩ := h
  obtain ⟨tail, rfl, -⟩ := Block.read?_eq_cons hread
  refine Text.isBlankText_eq_false_of_isInfix (raw_infix_of_block hblock) ?_
  exact Text.isBlankText_eq_false_of_mem List.mem_cons_self (by decide)

theorem Nested.not_isBlankText (h : Nested n t body) : Text.isBlankText t = false := by
  cases h with
  | here h => exact h.not_isBlankText
  | deeper h => exact h.not_isBlankText

/-- Where a piece of a body, moved to the left margin, stands in the text.  The margins of the
bodies around it add up. -/
theorem Nested.exists_outdents (h : Nested n t body) {piece : Text} (hpiece : piece.IsTrimmed)
    (hwithin : piece <:+: Text.dedent body) :
    ∃ raw margin, raw <:+: t ∧ Text.Outdents margin raw piece := by
  induction h with
  | here h =>
      obtain ⟨raw, hraw, houtdents⟩ := Text.exists_outdents hpiece hwithin
      exact ⟨raw, _, hraw.trans h.isInfix, houtdents⟩
  | deeper h _ ih =>
      obtain ⟨inner, margin, hinner, houtdents⟩ := ih hwithin
      obtain ⟨raw, hraw, houtdents'⟩ :=
        Text.exists_outdents (houtdents.isTrimmed hpiece) hinner
      exact ⟨raw, _, hraw.trans h.isInfix, houtdents'.trans houtdents⟩

end Nesting

section Elements

/-- A preserved element among pieces: its opening tag, the pieces of its content, and the tag that
closes it. -/
structure IsElement (ts : List Token) (tag : Tag) (content : Text) (opening closing : Token) :
    Prop where
  pieces : ∃ inner, opening :: inner ++ [closing] <:+: ts ∧ joinRaw inner = content
  opens : opening.kind = .openTag tag
  closes : closing.closes (Text.lower tag.name) = true

variable {ts : List Token} {t : Text} {tag : Tag} {content : Text} {opening closing : Token}

theorem exists_isElement (h : .preserved tag content ∈ Item.ofTokens ts) :
    ∃ opening closing, IsElement ts tag content opening closing := by
  fun_induction Item.ofTokens ts with
  | case1 => cases h
  | case2 first ts other hkind ih =>
      rcases List.mem_cons.1 h with heq | hmem
      · unfold Item.ofOpenTag at heq
        split at heq
        · rename_i inner rest hpreserved
          cases heq
          obtain ⟨-, closing, rfl, hcloses⟩ := contentBehind_of_splitPreserved? hkind hpreserved
          exact ⟨first, closing, ⟨inner, ⟨[], rest, by simp⟩, rfl⟩, hkind, hcloses⟩
        · split at heq <;> cases heq
      · obtain ⟨opening, closing, ⟨inner, hwithin, hcontent⟩, hopens, hcloses⟩ := ih hmem
        have hsuffix := (Item.ofOpenTag_suffix other ts).trans (List.suffix_cons first ts)
        exact ⟨opening, closing, ⟨inner, hwithin.trans hsuffix.isInfix, hcontent⟩, hopens, hcloses⟩
  | case3 first ts hkind ih =>
      rcases List.mem_cons.1 h with heq | hmem
      · cases hkind' : first.kind <;> simp [Item.ofToken, hkind'] at heq
        split at heq <;> cases heq
      · obtain ⟨opening, closing, ⟨inner, hwithin, hcontent⟩, hopens, hcloses⟩ := ih hmem
        have hsuffix := List.suffix_cons first ts
        exact ⟨opening, closing, ⟨inner, hwithin.trans hsuffix.isInfix, hcontent⟩, hopens, hcloses⟩

theorem isTrimmed_bracketed (inner : Text) : Text.IsTrimmed ('<' :: inner ++ ['>']) :=
  ⟨⟨'<', rfl, by decide⟩, ⟨'>', List.getLast?_concat, by decide⟩⟩

/-- The tags of an element have a name and brackets. -/
theorem IsElement.tags (h : IsElement (tokenize t) tag content opening closing) :
    isTagName tag.name = true ∧ opening.raw.IsTrimmed ∧ closing.raw.IsTrimmed := by
  obtain ⟨⟨inner, hwithin, -⟩, hopens, hcloses⟩ := h
  obtain ⟨other, hother, -⟩ := closes_eq_true hcloses
  obtain ⟨hname, first, hfirst⟩ := tokenize_tag t opening (hwithin.subset (by simp)) tag.name
    (by rw [hopens]; rfl)
  obtain ⟨-, last, hlast⟩ := tokenize_tag t closing (hwithin.subset (by simp)) other
    (by rw [hother]; rfl)
  exact ⟨hname, hfirst ▸ isTrimmed_bracketed first, hlast ▸ isTrimmed_bracketed last⟩

theorem IsElement.isInfix (h : IsElement (tokenize t) tag content opening closing) :
    opening.raw ++ (content ++ closing.raw) <:+: t := by
  obtain ⟨⟨inner, ⟨before, after, hsplit⟩, rfl⟩, -, -⟩ := h
  refine ⟨joinRaw before, joinRaw after, ?_⟩
  conv_rhs => rw [← joinRaw_tokenize t, ← hsplit]
  simp

/-- The content of a preserved element in the text around the body that the element stands in: what
is `content` at the left margin is `raw` there, between the two tags of the element. -/
def IsContentIn (t body : Text) (margin : Nat) (tag : Tag) (content raw : Text) : Prop :=
  ∃ opening closing, IsElement (tokenize (Text.dedent body)) tag content opening closing ∧
    ∃ front back, front ++ (raw ++ back) <:+: t ∧ Text.Outdents margin front opening.raw ∧
      Text.Outdents margin raw content ∧ Text.Outdents margin back closing.raw

theorem Nested.exists_isContentIn {n : Nat} {body : Text} (h : Nested n t body)
    (helement : IsElement (tokenize (Text.dedent body)) tag content opening closing) :
    ∃ raw margin, IsContentIn t body margin tag content raw := by
  obtain ⟨-, hopen, hclose⟩ := helement.tags
  obtain ⟨whole, margin, hwhole, houtdents⟩ :=
    h.exists_outdents (hopen.surround hclose content) helement.isInfix
  obtain ⟨front, rest, rfl, hfront, hrest⟩ := houtdents.split (Or.inl hopen.last)
  obtain ⟨raw, back, rfl, hraw, hback⟩ := hrest.split (Or.inr hclose.head)
  exact ⟨raw, margin, opening, closing, helement, front, back, hwhole, hfront, hraw, hback⟩

end Elements

namespace Context

section Bodies

/-- A body stands among lines: laid out at the left margin, and moved behind an indentation. -/
def Shows (format : Text → Journaled Text) (lead body : Text) (ls : List Text) : Prop :=
  ∃ j, Text.indent lead ((format (Text.dedent body)).run j).1 <:+: ls

variable {format : Text → Journaled Text} {lead body : Text} {ls ms : List Text}

theorem Shows.mono (h : Shows format lead body ls) (hls : ls <:+: ms) :
    Shows format lead body ms := by
  obtain ⟨j, hj⟩ := h
  exact ⟨j, hj.trans hls⟩

variable (hsolid : Text.isBlankText (Text.dedent body) = false)
include hsolid

theorem shows_bodyLines (lead : Text) (j : Journal) :
    Shows format lead body ((bodyLines format lead body).run j).1 := by
  refine ⟨j, ?_⟩
  simp only [bodyLines, hsolid]
  exact List.infix_rfl

theorem shows_sectionLines {content : Text} (hbody : (beforeBreak? content).getD content = body)
    (lead : Text) (j : Journal) :
    Shows format lead body ((sectionLines format lead content).run j).1 := by
  unfold sectionLines
  split
  · rename_i hbreak
    rw [hbreak] at hbody
    obtain rfl : content = body := hbody
    exact shows_bodyLines hsolid lead j
  · rename_i before hbreak
    rw [hbreak] at hbody
    obtain rfl : before = body := hbody
    exact (shows_bodyLines hsolid lead j).mono (List.prefix_append _ _).isInfix

theorem shows_switchLines {cases : List SwitchCase} {c : SwitchCase} (hc : c ∈ cases)
    (hbody : (beforeBreak? c.content).getD c.content = body) (lead unit : Text) (j : Journal) :
    Shows format (lead ++ unit) body ((switchLines format lead unit cases).run j).1 := by
  induction cases generalizing j with
  | nil => cases hc
  | cons first cases ih =>
      let lines := (sectionLines format (lead ++ unit) first.content).run j
      let rest := (switchLines format lead unit cases).run lines.2
      have hrun : ((switchLines format lead unit (first :: cases)).run j).1 =
          (lead ++ first.label.text ++ [':']) :: lines.1 ++ rest.1 := rfl
      rw [hrun]
      rcases List.mem_cons.1 hc with rfl | hc
      · refine (shows_sectionLines hsolid hbody (lead ++ unit) j).mono ?_
        exact ⟨[lead ++ c.label.text ++ [':']], rest.1, rfl⟩
      · exact (ih hc lines.2).mono (List.suffix_append _ _).isInfix

theorem exists_part_of_clause {clauses : List Clause} {clause : Clause} (hclause : clause ∈ clauses)
    (hbody : clause.body = body) (lead : Text) (j : Journal) :
    ∃ part ∈ clauseParts clauses ((clauseBodies format lead clauses).run j).1,
      Shows format lead body part.body := by
  induction clauses generalizing j with
  | nil => cases hclause
  | cons first clauses ih =>
      rw [clauseBodies_cons_run]
      rcases List.mem_cons.1 hclause with rfl | hclause
      · subst hbody
        exact ⟨_, List.mem_cons_self, shows_bodyLines hsolid lead j⟩
      · obtain ⟨part, hpart, hshows⟩ := ih hclause _
        exact ⟨part, List.mem_cons_of_mem _ hpart, hshows⟩

end Bodies

section Blocks

theorem body_infix_partsLines {parts : List Part} {part : Part} (h : part ∈ parts)
    (indent tail : Text) : part.body <:+: partsLines indent tail parts := by
  have hlines : ∀ tail, part.body <:+: part.lines indent tail := fun tail =>
    ⟨[indent ++ part.head, indent ++ ['{']], [indent ++ '}' :: tail], rfl⟩
  fun_induction partsLines indent tail parts with
  | case1 => cases h
  | case2 only =>
      rw [List.mem_singleton.1 h] at hlines ⊢
      exact hlines _
  | case3 first next parts ih =>
      rcases List.mem_cons.1 h with rfl | h
      · exact (hlines []).trans (List.prefix_append _ _).isInfix
      · exact (ih h).trans (List.suffix_append _ _).isInfix

variable {format : Text → Journaled Text} {body : Text} (config : Config) {c : Collaborators}
variable (nested : Option (Text → Journaled Text)) (level : Nat)
variable (hsolid : Text.isBlankText (Text.dedent body) = false)
include hsolid

/-- Every body of a control-flow block is printed one level in, and in a switch with sections two
levels. -/
theorem shows_flowLines {f : Flow} (hbody : body ∈ f.bodies) (j : Journal) :
    ∃ more, 0 < more ∧ Shows format (config.indentation (level + more)) body
      ((flowLines ⟨config, c, nested⟩ format (config.indentation level) f).run j).1 := by
  let lead := config.indentation (level + 1)
  let main := (mainLines format lead config.unit f).run j
  unfold Flow.bodies at hbody
  split at hbody
  · rename_i cases hsections
    obtain ⟨case, hcase, hcontent⟩ := List.mem_map.1 hbody
    have hmain : Shows format (config.indentation (level + 2)) body main.1 := by
      simp only [main, mainLines, hsections]
      rw [← config.indentation_append_unit (level + 1)]
      exact shows_switchLines hsolid hcase hcontent lead config.unit j
    refine ⟨2, by decide, hmain.mono ?_⟩
    rw [flowLines_run_of_sections format config c nested hsections,
      config.indentation_append_unit]
    exact ⟨[_, _], [_], rfl⟩
  · rename_i hsections
    rw [flowLines_run_of_plain format config c nested hsections, config.indentation_append_unit]
    refine ⟨1, by decide, ?_⟩
    rcases List.mem_cons.1 hbody with rfl | hbody
    · have hmain : Shows format lead f.body main.1 := by
        simp only [main, mainLines, hsections]
        exact shows_bodyLines hsolid lead j
      have hfirst : (⟨f.header, main.1⟩ : Part) ∈ ⟨f.header, main.1⟩ :: clauseParts f.clauses
          ((clauseBodies format lead f.clauses).run main.2).1 := List.mem_cons_self
      exact hmain.mono (body_infix_partsLines hfirst _ _)
    · obtain ⟨clause, hclause, hclauseBody⟩ := List.mem_map.1 hbody
      obtain ⟨part, hpart, hshows⟩ := exists_part_of_clause hsolid hclause hclauseBody lead main.2
      exact hshows.mono (body_infix_partsLines (List.mem_cons_of_mem _ hpart) _ _)

theorem shows_codeLines (hc : c.Idle) (j : Journal) :
    Shows format (config.indentation (level + 1)) body
      ((codeLines ⟨config, c, nested⟩ format (config.indentation level) body).run j).1 := by
  let asked := j.enter c (.asks (.code none body))
  have hrun : ((codeLines ⟨config, c, nested⟩ format (config.indentation level) body).run j).1 =
      (config.indentation level ++ "@\x7b".toList) ::
        ((bodyLines format (config.indentation level ++ config.unit) body).run asked).1 ++
        [config.indentation level ++ ['}']] := by
    rw [codeLines, StateT.run_bind, hc.askCode_run]
    rfl
  rw [hrun, config.indentation_append_unit]
  exact (shows_bodyLines hsolid _ asked).mono ⟨[_], [_], rfl⟩

/-- Every body of a block is laid out on its own and printed at least one level in. -/
theorem shows_blockLines (hc : c.Idle) {depth : Nat} (hdepth : depth < config.maxDepth)
    {raw rest : Text} {block : Block} (hread : Block.read? raw = some (block, rest))
    (hbody : body ∈ block.bodies) (j : Journal) :
    let inner := formatWithin config c (config.maxDepth - depth)
    ∃ more, 0 < more ∧ Shows (formatMarkup config c (depth + 1))
      (config.indentation (level + more)) body
      ((blockLines ⟨config, c, inner⟩ (config.indentation level) raw).run j).1 := by
  intro inner
  have hinner : inner = some (formatMarkup config c (depth + 1)) := formatWithin_of_lt hdepth c
  simp only [blockLines, hinner, hread]
  cases block with
  | comment => cases hbody
  | members keyword => cases hbody
  | code other =>
      rw [List.mem_singleton.1 hbody] at hsolid ⊢
      exact ⟨1, by decide, shows_codeLines config _ level hsolid hc j⟩
  | flow f => exact shows_flowLines config _ level hsolid hbody j

end Blocks

section Entries

theorem entry_infix_spaced {entries : List (Item × List Text)} {entry : Item × List Text}
    (h : entry ∈ entries) (above : List Item) : entry.2 <:+: Item.spaced above entries := by
  induction entries generalizing above with
  | nil => cases h
  | cons first entries ih =>
      rw [Item.spaced]
      rcases List.mem_cons.1 h with rfl | h
      · exact (List.suffix_append _ _).isInfix.trans (List.prefix_append _ _).isInfix
      · exact (ih h _).trans (List.suffix_append _ _).isInfix

theorem exists_mem_itemEntries (ctx : Context) {items : List Item} {item : Item} (h : item ∈ items)
    (level : Nat) (j : Journal) :
    ∃ level' j', (item, squeeze ((ctx.itemLines (ctx.config.indentation level') item).run j').1) ∈
      ((ctx.itemEntries level items).run j).1 := by
  induction items generalizing level j with
  | nil => cases h
  | cons first items ih =>
      rw [itemEntries_cons_run]
      rcases List.mem_cons.1 h with rfl | h
      · exact ⟨_, _, List.mem_cons_self⟩
      · obtain ⟨level', j', hmem⟩ := ih h (first.levelAfter level) _
        exact ⟨level', j', List.mem_cons_of_mem _ hmem⟩

/-- The lines of an item stand in the layout, runs of empty lines cut down to one. -/
theorem exists_infix_formatMarkup {t : Text} {item : Item}
    (h : item ∈ Item.ofTokens (tokenize t)) (hunit : item.isUnit = true) (config : Config)
    (c : Collaborators) (depth : Nat) (j : Journal) :
    let ctx : Context := ⟨config, c, formatWithin config c (config.maxDepth - depth)⟩
    ∃ level j', Text.unlines
      (squeeze ((ctx.itemLines (config.indentation level) item).run j').1) <:+:
        ((formatMarkup config c depth t).run j).1 := by
  intro ctx
  have hsolid := Item.isSolid_ofTokens t
  obtain ⟨level, j', hentry⟩ :=
    ctx.exists_mem_itemEntries (List.mem_filter.2 ⟨h, hunit⟩) 0 j
  obtain ⟨hlines, -⟩ := ctx.placeAll_spaced Page.follows_empty hsolid j
  have hne := (ctx.isFramed_itemLines (config.indentation level) (hsolid item h hunit)
    j').isNeat_squeeze.2
  refine ⟨level, j', Text.unlines_isInfix hne ?_⟩
  exact hlines ▸ entry_infix_spaced hentry []

end Entries

end Context

section Printing

variable {config : Config} {c : Collaborators}

/-- A piece of a body as it is laid out goes behind an indentation of at least one level. -/
theorem HasBody.exists_hang_isInfix (hc : c.Idle) {t body : Text} (h : HasBody t body)
    (hsolid : Text.isBlankText (Text.dedent body) = false) {depth : Nat}
    (hdepth : depth < config.maxDepth) (j : Journal) :
    ∃ levels j', 0 < levels ∧ ∀ piece : Text, piece.IsTrimmed →
      piece <:+: ((formatMarkup config c (depth + 1) (Text.dedent body)).run j').1 →
      Text.hang (config.indentation levels) piece <:+:
        ((formatMarkup config c depth t).run j).1 := by
  obtain ⟨raw, block, rest, hblock, hread, hbody⟩ := h
  obtain ⟨level, j', hwithin⟩ :=
    Context.exists_infix_formatMarkup hblock rfl config c depth j
  obtain ⟨more, hmore, inner, hshows⟩ :=
    Context.shows_blockLines config level hsolid hc hdepth hread hbody j'
  refine ⟨level + more, inner, by omega, fun piece hpiece hmarkup => ?_⟩
  exact (Text.hang_isInfix hpiece hmarkup hshows).trans hwithin

/-- A piece of the markup in a nested body goes behind the indentations of all the bodies around
it. -/
theorem Nested.exists_hang_isInfix (hc : c.Idle) {n : Nat} {t body : Text} (h : Nested n t body)
    (hsolid : Text.isBlankText (Text.dedent body) = false) {piece : Text} (hpiece : piece.IsTrimmed)
    {depth : Nat} (hdepth : depth + n ≤ config.maxDepth)
    (hwithin : ∀ j, piece <:+: ((formatMarkup config c (depth + n) (Text.dedent body)).run j).1)
    (j : Journal) :
    ∃ levels, n ≤ levels ∧
      Text.hang (config.indentation levels) piece <:+:
        ((formatMarkup config c depth t).run j).1 := by
  -- The bodies are laid out with journals of their own, so the piece has to be there for each.
  induction h generalizing depth j with
  | here h =>
      obtain ⟨levels, j', hlevels, hhang⟩ := h.exists_hang_isInfix hc hsolid hdepth j
      exact ⟨levels, hlevels, hhang piece hpiece (hwithin j')⟩
  | @deeper n t outer body h hinner ih =>
      have hbelow : depth < config.maxDepth := by omega
      obtain ⟨levels, j', hlevels, hhang⟩ :=
        h.exists_hang_isInfix hc hinner.not_isBlankText hbelow j
      have hsucc : depth + 1 + n = depth + (n + 1) := by omega
      rw [← hsucc] at hwithin hdepth
      obtain ⟨more, hmore, hmarkup⟩ := ih hsolid hdepth hwithin j'
      have hboth := Text.hang_hang (config.indentation levels) (isLine_indentation config more)
        (Text.isGap_spaces _).isBlankText piece
      rw [config.indentation_append] at hboth
      exact ⟨levels + more, by omega, hboth ▸ hhang _ (Text.isTrimmed_hang hpiece _) hmarkup⟩

theorem isTrimmed_inline (tag : Tag) : (tag.inline .opening).IsTrimmed :=
  isTrimmed_bracketed (tag.name ++ tag.attributes.flatMap fun a => ' ' :: a.render)

theorem isTrimmed_closingTag (name : Text) : (Context.closingTag name).IsTrimmed :=
  isTrimmed_bracketed ('/' :: name)

/-- A preserved element is printed as it is where it stands in no block. -/
theorem preserved_infix_formatMarkup (hstyle : config.style.enabled = false) {t : Text} {tag : Tag}
    {content : Text} (hmem : .preserved tag content ∈ Item.ofTokens (tokenize t))
    (hname : tag.name ≠ []) (depth : Nat) (j : Journal) :
    tag.inline .opening ++ (content ++ Context.closingTag tag.name) <:+:
      ((formatMarkup config c depth t).run j).1 := by
  obtain ⟨level, j', hwithin⟩ := Context.exists_infix_formatMarkup hmem rfl config c depth j
  refine List.IsInfix.trans ?_ hwithin
  rw [Context.itemLines, Context.preservedLines_run _ hstyle hname]
  exact ⟨config.indentation level, [], by simp [squeeze, Text.unlines]⟩

/-- Preserved content inside blocks goes to the left margin with the body that it stands in, and
from there behind the indentation of the body.  It is printed as it is exactly where it stands on
one line, or its lines stand behind that indentation already and the margin is as wide. -/
theorem formatMarkup_hangs_preserved (hstyle : config.style.enabled = false) (hc : c.Idle)
    {n : Nat} {t body : Text} (hbody : Nested n t body) (hdepth : n ≤ config.maxDepth) {tag : Tag}
    {content : Text}
    (hmem : .preserved tag content ∈ Item.ofTokens (tokenize (Text.dedent body))) (j : Journal) :
    ∃ raw margin levels, n ≤ levels ∧ IsContentIn t body margin tag content raw ∧
      let lead := config.indentation levels
      Text.hang lead (tag.inline .opening) ++ (Text.hang lead content ++
          Context.closingTag tag.name) <:+: ((formatMarkup config c 0 t).run j).1 ∧
        (Text.hang lead content = raw ↔
          (Text.IsLine raw ∨ lead.length = margin) ∧ Text.IsHung lead raw) := by
  obtain ⟨opening, closing, helement⟩ := exists_isElement hmem
  obtain ⟨hname, hopening, hclosing⟩ := helement.tags
  obtain ⟨first, others, hcons, -⟩ := isTagName_cases hname
  have hopen := isTrimmed_inline tag
  have hclose := isTrimmed_closingTag tag.name
  have hsolid : Text.isBlankText (Text.dedent body) = false :=
    Text.isBlankText_eq_false_of_isInfix helement.isInfix
      (hopening.surround hclosing content).not_isBlankText
  have hprinted : ∀ j, _ <:+: ((formatMarkup config c (0 + n) (Text.dedent body)).run j).1 :=
    preserved_infix_formatMarkup hstyle hmem (by simp [hcons]) (0 + n)
  obtain ⟨raw, margin, hcontent⟩ := hbody.exists_isContentIn helement
  obtain ⟨levels, hlevels, hwithin⟩ :=
    hbody.exists_hang_isInfix hc hsolid (hopen.surround hclose content) (by omega) hprinted j
  refine ⟨raw, margin, levels, hlevels, hcontent, ?_, ?_⟩
  -- The tags meet the content in lines that are not blank, so the three are moved one by one.
  · rwa [Text.hang_append _ (Or.inl hopen.last), Text.hang_append _ (Or.inr hclose.head),
      Text.hang_of_isLine (isLine_closingTag hname)] at hwithin
  · obtain ⟨-, -, -, -, -, -, -, houtdents, -⟩ := hcontent
    exact houtdents.hang_eq_iff (isLine_indentation config levels)

/-- An element two blocks deep. -/
theorem formatMarkup_hangs_preserved_twice :
    let inner := "\n    <pre>\n    a\n    </pre>\n".toList
    let outer := "\n    @if (y) \x7b\n        <pre>\n        a\n        </pre>\n    \x7d\n".toList
    let t := "@if (x) \x7b".toList ++ outer ++ ['}']
    let tag : Tag := ⟨"pre".toList, []⟩
    let content := "\na\n".toList
    Nested 2 t inner ∧ .preserved tag content ∈ Item.ofTokens (tokenize (Text.dedent inner)) ∧
      ∃ raw margin levels, 2 ≤ levels ∧ IsContentIn t inner margin tag content raw ∧
        let lead := Config.standard.indentation levels
        Text.hang lead (tag.inline .opening) ++ (Text.hang lead content ++
            Context.closingTag tag.name) <:+: ((formatMarkup .standard {} 0 t).run {}).1 ∧
          (Text.hang lead content = raw ↔
            (Text.IsLine raw ∨ lead.length = margin) ∧ Text.IsHung lead raw) := by
  intro inner outer t tag content
  have houter : HasBody t outer :=
    ⟨t, .flow ⟨.ifBlock, none, some "x".toList, outer, [], none⟩, [], by decide +kernel,
      by decide +kernel, by decide +kernel⟩
  have hinner : HasBody (Text.dedent outer) inner :=
    ⟨"@if (y) \x7b".toList ++ inner ++ ['}'],
      .flow ⟨.ifBlock, none, some "y".toList, inner, [], none⟩, [], by decide +kernel,
      by decide +kernel, by decide +kernel⟩
  have hnested : Nested 2 t inner := .deeper houter (.here hinner)
  have hmem : .preserved tag content ∈ Item.ofTokens (tokenize (Text.dedent inner)) := by
    decide +kernel
  exact ⟨hnested, hmem,
    formatMarkup_hangs_preserved rfl Collaborators.idle_standard hnested (by decide) hmem {}⟩

/-- Content at the left margin of its body is moved, and so it is printed nowhere as it is. -/
theorem formatMarkup_moves_preserved :
    let body := "\n<pre>\na\n</pre>\n".toList
    let t := "@if (x) \x7b".toList ++ body ++ ['}']
    let output := ((formatMarkup .standard {} 0 t).run {}).1
    Nested 1 t body ∧
      .preserved ⟨"pre".toList, []⟩ "\na\n".toList ∈ Item.ofTokens (tokenize body) ∧
      output = "@if (x)\n\x7b\n    <pre>\n    a\n    </pre>\n\x7d".toList ∧
      ¬ "<pre>\na\n</pre>".toList <:+: output := by
  intro body t output
  have hbody : HasBody t body :=
    ⟨t, .flow ⟨.ifBlock, none, some "x".toList, body, [], none⟩, [], by decide +kernel,
      by decide +kernel, by decide +kernel⟩
  exact ⟨.here hbody, by decide +kernel, by decide +kernel, by decide +kernel⟩

end Printing

end RazorLayout
