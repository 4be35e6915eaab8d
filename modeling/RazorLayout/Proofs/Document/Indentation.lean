import Mathlib.Data.List.Forall2
import RazorLayout.Proofs.Document.LineEndings
import RazorLayout.Proofs.Layout.BlankLines

/-!
# The size of the indentation

Two layouts of one document, with configurations that differ in the size of one level only.

The lines of the one are the lines of the other up to the spaces at their front.  This has to be
kept through all the places where a line is looked at again: a nested layout is cut into lines, its
blank lines are emptied, and empty lines count as gaps on the sheet.  So the relation between lines
says a little more: whether there are spaces at the front at all is the same on both sides.

* `Leads` relates the indentations, `Alike` the lines behind them;
* `AlikeLines` relates texts, line by line;
* `Journal.Agrees` compares journals, up to the sizes that style sheets were asked with;
* `Tracks` relates two computations: from journals that agree they give related values and leave
  journals that agree.

Results.  `Tracks.bind`: the relation is kept from step to step.  `Page.Alike.place`: so are pages.
`tracks_layout`, `tracks_formatMarkup`: layouts of the same tokens are related at every depth.
`formatDocument_withIndentSize`: so are layouts of documents.
-/

namespace RazorLayout

namespace Text

section Lines

/-- A line without the spaces at its front. -/
def unspaced (line : Text) : Text :=
  line.dropWhile (· == ' ')

/-- Two indentations, either both of them empty or none. -/
def Leads (lead lead' : Text) : Prop :=
  ∃ m n, lead = spaces m ∧ lead' = spaces n ∧ (m = 0 ↔ n = 0)

/-- The same text behind two indentations. -/
def Alike (s t : Text) : Prop :=
  ∃ lead lead' rest, Leads lead lead' ∧ s = lead ++ rest ∧ t = lead' ++ rest

/-- Texts whose lines are alike. -/
def AlikeLines (s t : Text) : Prop :=
  List.Forall₂ Alike (lines s) (lines t)

variable {lead lead' s t : Text} {ls ms : List Text}

theorem leads_nil : Leads [] [] :=
  ⟨0, 0, rfl, rfl, Iff.rfl⟩

theorem Leads.append {more more' : Text} (h : Leads lead lead') (hmore : Leads more more') :
    Leads (lead ++ more) (lead' ++ more') := by
  obtain ⟨m, n, rfl, rfl, hmn⟩ := h
  obtain ⟨i, k, rfl, rfl, hik⟩ := hmore
  refine ⟨m + i, n + k, ?_, ?_, by omega⟩
  · rw [spaces, spaces, spaces, List.replicate_add]
  · rw [spaces, spaces, spaces, List.replicate_add]

theorem Leads.alike (h : Leads lead lead') (t : Text) : Alike (lead ++ t) (lead' ++ t) :=
  ⟨lead, lead', t, h, rfl, rfl⟩

theorem alike_refl (t : Text) : Alike t t :=
  leads_nil.alike t

instance : Std.Refl Alike :=
  ⟨alike_refl⟩

theorem Leads.append_alike (h : Leads lead lead') (hst : Alike s t) :
    Alike (lead ++ s) (lead' ++ t) := by
  obtain ⟨more, more', rest, hmore, rfl, rfl⟩ := hst
  rw [← List.append_assoc, ← List.append_assoc]
  exact (h.append hmore).alike rest

theorem Alike.append_right (h : Alike s t) (tail : Text) : Alike (s ++ tail) (t ++ tail) := by
  obtain ⟨lead, lead', rest, hlead, rfl, rfl⟩ := h
  rw [List.append_assoc, List.append_assoc]
  exact hlead.alike _

/-- Lines that are alike are empty together. -/
theorem Alike.isEmpty_eq (h : Alike s t) : s.isEmpty = t.isEmpty := by
  obtain ⟨lead, lead', rest, ⟨m, n, rfl, rfl, hmn⟩, rfl, rfl⟩ := h
  rw [Bool.eq_iff_iff]
  simp [spaces, hmn]

/-- Lines that are alike are blank together. -/
theorem Alike.isBlankText_eq (h : Alike s t) : isBlankText s = isBlankText t := by
  have hspaces : ∀ n, isBlankText (spaces n) = true := fun n => (isGap_spaces n).isBlankText
  obtain ⟨lead, lead', rest, ⟨m, n, rfl, rfl, -⟩, rfl, rfl⟩ := h
  rw [isBlankText_append, isBlankText_append, hspaces, hspaces]

/-- Lines that are alike are the same behind their spaces. -/
theorem Alike.unspaced_eq (h : Alike s t) : unspaced s = unspaced t := by
  obtain ⟨lead, lead', rest, ⟨m, n, rfl, rfl, -⟩, rfl, rfl⟩ := h
  have hdrop : ∀ n, unspaced (spaces n ++ rest) = unspaced rest := by
    intro n
    refine List.dropWhile_append_of_pos ?_
    intro c hc
    rw [List.eq_of_mem_replicate hc]
    rfl
  rw [hdrop, hdrop]

/-- A text is cut into lines behind its indentation. -/
theorem Alike.alikeLines (h : Alike s t) : AlikeLines s t := by
  obtain ⟨lead, lead', rest, hlead, rfl, rfl⟩ := h
  have hline : ∀ n, IsLine (spaces n) := by
    simp [IsLine, spaces]
  obtain ⟨m, n, rfl, rfl, -⟩ := id hlead
  obtain ⟨first, more, hrest, hlines⟩ := exists_lines_isLine_append (hline m) rest
  obtain ⟨first', more', hrest', hlines'⟩ := exists_lines_isLine_append (hline n) rest
  rw [hrest] at hrest'
  obtain ⟨rfl, rfl⟩ := List.cons.inj hrest'
  rw [AlikeLines, hlines, hlines']
  exact .cons (hlead.alike first) (List.forall₂_refl more)

/-- Alike lines make up texts whose lines are alike. -/
theorem alikeLines_unlines (h : List.Forall₂ Alike ls ms) :
    AlikeLines (unlines ls) (unlines ms) := by
  cases h with
  | nil => exact List.forall₂_refl _
  | cons hfirst hrest =>
      rw [AlikeLines, lines_unlines_eq_flatMap (List.cons_ne_nil _ _),
        lines_unlines_eq_flatMap (List.cons_ne_nil _ _)]
      exact List.rel_flatMap (.cons hfirst hrest) fun _ _ hline => hline.alikeLines

theorem Leads.map (h : Leads lead lead') (hls : List.Forall₂ Alike ls ms) :
    List.Forall₂ Alike (ls.map (lead ++ ·)) (ms.map (lead' ++ ·)) :=
  List.rel_map (fun _ _ hline => h.append_alike hline) hls

theorem alike_solid (h : List.Forall₂ Alike ls ms) :
    List.Forall₂ Alike (solid ls) (solid ms) := by
  refine List.rel_filter ?_ h
  intro line line' hline
  simp [hline.isEmpty_eq]

/-- Moving texts behind indentations keeps their lines alike. -/
theorem Leads.indent (h : Leads lead lead') (hst : AlikeLines s t) :
    List.Forall₂ Alike (indent lead s) (indent lead' t) := by
  have hbody : ∀ {ls ms : List Text}, List.Forall₂ Alike ls ms →
      List.Forall₂ Alike (Margin.body ls) (Margin.body ms) := by
    intro ls ms hls
    induction hls with
    | nil => exact .nil
    | cons hline hrest ih =>
        simp only [Margin.body, List.dropWhile_cons, hline.isBlankText_eq]
        split
        · exact ih
        · exact .cons hline hrest
  refine List.rel_map ?_ (hbody hst)
  intro line line' hline
  simp only [hline.isBlankText_eq]
  split
  · exact alike_refl []
  · exact h.append_alike hline

theorem Leads.reindent (h : Leads lead lead') (t : Text) :
    List.Forall₂ Alike (reindent lead t) (reindent lead' t) :=
  h.indent (List.forall₂_refl _)

end Lines

end Text

namespace Config

/-- The configuration with another size of one level. -/
def withIndentSize (config : Config) (n : Nat) (hn : 0 < n) : Config :=
  { config with indentSize := n, indentSize_pos := hn }

variable (config : Config) {n : Nat} (hn : 0 < n)

@[simp] theorem style_withIndentSize : (config.withIndentSize n hn).style = config.style := rfl

theorem leads_spaces {m n : Nat} (hm : 0 < m) (hn : 0 < n) :
    Text.Leads (Text.spaces m) (Text.spaces n) :=
  ⟨m, n, rfl, rfl, by omega⟩

theorem leads_unit : Text.Leads config.unit (config.withIndentSize n hn).unit :=
  leads_spaces config.indentSize_pos hn

theorem leads_indentation (level : Nat) :
    Text.Leads (config.indentation level) ((config.withIndentSize n hn).indentation level) := by
  refine ⟨level * config.indentSize, level * n, rfl, rfl, ?_⟩
  have hpos := config.indentSize_pos
  rw [Nat.mul_eq_zero, Nat.mul_eq_zero]
  omega

end Config

section Computations

/-- Journals that agree, up to the sizes that style sheets were asked with. -/
structure Journal.Agrees (j k : Journal) : Prop where
  code : j.calls.code = k.calls.code
  warnings : j.warnings = k.warnings
  events : j.events = k.events

theorem Journal.agrees_refl (j : Journal) : j.Agrees j :=
  ⟨rfl, rfl, rfl⟩

variable {α β γ δ : Type}

/-- From journals that agree, two computations give related values and leave journals that
agree. -/
def Tracks (R : α → β → Prop) (m : Journaled α) (n : Journaled β) : Prop :=
  ∀ j k : Journal, j.Agrees k → R (m.run j).1 (n.run k).1 ∧ (m.run j).2.Agrees (n.run k).2

variable {R : α → β → Prop} {S : γ → δ → Prop}

theorem tracks_pure {a : α} {b : β} (h : R a b) : Tracks R (pure a) (pure b) :=
  fun _ _ hj => ⟨h, hj⟩

theorem Tracks.bind {m : Journaled α} {n : Journaled β} {f : α → Journaled γ} {g : β → Journaled δ}
    (hm : Tracks R m n) (hf : ∀ a b, R a b → Tracks S (f a) (g b)) :
    Tracks S (m >>= f) (n >>= g) := by
  intro j k hj
  obtain ⟨hvalue, hjournal⟩ := hm j k hj
  exact hf _ _ hvalue _ _ hjournal

end Computations

namespace Collaborators

/-- The collaborators with code laid out by `code`, which remembers nothing, and style sheets handed
back. -/
def ofCode (code : Option (Text → Except Fault CodeAnswer)) : Collaborators :=
  { code := code.map fun answer _ text => answer text }

variable (code : Option (Text → Except Fault CodeAnswer))

theorem tracks_askCode (line : Option Int) (text : Text) :
    Tracks Eq ((ofCode code).askCode line text) ((ofCode code).askCode line text) := by
  intro j k hj
  cases code with
  | none => exact ⟨rfl, hj⟩
  | some answer =>
      have hcode : (j.askedCode text).Agrees (k.askedCode text) :=
        ⟨congrArg (· ++ [text]) hj.code, hj.warnings, hj.events⟩
      simp only [askCode, ofCode, Option.map_some, StateT.run]
      cases codeVerdict (answer text) with
      | ok output => exact ⟨rfl, hcode⟩
      | error error =>
          exact ⟨rfl, hcode.code, congrArg (· ++ [_]) hcode.warnings,
            congrArg (· ++ [_]) hcode.events⟩

/-- A style sheet comes back whatever its size. -/
theorem tracks_askStyle (text : Text) (m n : Nat) :
    Tracks (fun s t => s = text ∧ t = text) ((ofCode code).askStyle text m)
      ((ofCode code).askStyle text n) :=
  fun _ _ hj => ⟨⟨rfl, rfl⟩, hj.code, hj.warnings, hj.events⟩

end Collaborators

namespace Context

section Bodies

variable {format format' : Text → Journaled Text} {lead lead' unit unit' : Text}
variable (hformat : ∀ text, Tracks Text.AlikeLines (format text) (format' text))
include hformat

theorem tracks_bodyLines (hlead : Text.Leads lead lead') (body : Text) :
    Tracks (List.Forall₂ Text.Alike) (bodyLines format lead body)
      (bodyLines format' lead' body) := by
  simp only [bodyLines]
  split
  · exact tracks_pure .nil
  · exact (hformat _).bind fun laidOut laidOut' h => tracks_pure (hlead.indent h)

theorem tracks_sectionLines (hlead : Text.Leads lead lead') (content : Text) :
    Tracks (List.Forall₂ Text.Alike) (sectionLines format lead content)
      (sectionLines format' lead' content) := by
  simp only [sectionLines]
  split
  · exact tracks_bodyLines hformat hlead content
  · exact (tracks_bodyLines hformat hlead _).bind fun lines lines' h =>
      tracks_pure (List.rel_append h (.cons (hlead.alike _) .nil))

theorem tracks_switchLines (hlead : Text.Leads lead lead') (hunit : Text.Leads unit unit')
    (cases : List SwitchCase) :
    Tracks (List.Forall₂ Text.Alike) (switchLines format lead unit cases)
      (switchLines format' lead' unit' cases) := by
  induction cases with
  | nil => exact tracks_pure .nil
  | cons first cases ih =>
      refine (tracks_sectionLines hformat (hlead.append hunit) _).bind fun lines lines' hlines => ?_
      refine ih.bind fun rest rest' hrest => tracks_pure ?_
      rw [List.append_assoc, List.append_assoc]
      exact List.rel_append (.cons (hlead.alike _) hlines) hrest

theorem tracks_clauseLines (hlead : Text.Leads lead lead') (hunit : Text.Leads unit unit')
    (clauses : List Clause) :
    Tracks (List.Forall₂ Text.Alike) (clauseLines format lead unit clauses)
      (clauseLines format' lead' unit' clauses) := by
  induction clauses with
  | nil => exact tracks_pure .nil
  | cons clause clauses ih =>
      refine (tracks_bodyLines hformat (hlead.append hunit) _).bind fun lines lines' hlines => ?_
      refine ih.bind fun rest rest' hrest => tracks_pure ?_
      have hclause := List.rel_append (.cons (hlead.alike clause.head.text)
        (.cons (hlead.alike ['{']) hlines)) (.cons (hlead.alike ['}']) .nil)
      exact List.rel_append hclause hrest

end Bodies

theorem alike_withLoopTest {indent indent' : Text} (hindent : Text.Leads indent indent')
    (loopTest : Option Text) {ls ms : List Text} (h : List.Forall₂ Text.Alike ls ms) :
    List.Forall₂ Text.Alike (withLoopTest indent loopTest ls)
      (withLoopTest indent' loopTest ms) := by
  cases loopTest with
  | none => exact h
  | some condition =>
      simp only [withLoopTest, List.dropLast_eq_take, h.length_eq, List.append_assoc]
      exact List.rel_append (List.forall₂_take _ h) (.cons (hindent.alike _) .nil)

section Items

variable (config : Config) {n : Nat} (hn : 0 < n)
variable (code : Option (Text → Except Fault CodeAnswer))
variable {nested nested' : Option (Text → Journaled Text)} {indent indent' : Text}

section Blocks

variable (hindent : Text.Leads indent indent')
include hindent

variable {format format' : Text → Journaled Text}

theorem tracks_codeLines
    (hformat : ∀ text, Tracks Text.AlikeLines (format text) (format' text)) (body : Text) :
    Tracks (List.Forall₂ Text.Alike)
      (codeLines ⟨config, .ofCode code, nested⟩ format indent body)
      (codeLines ⟨config.withIndentSize n hn, .ofCode code, nested'⟩ format' indent' body) := by
  have hlead := hindent.append (config.leads_unit hn)
  have hbraces : ∀ {ls ms : List Text}, List.Forall₂ Text.Alike ls ms →
      List.Forall₂ Text.Alike ((indent ++ "@\x7b".toList) :: ls ++ [indent ++ ['}']])
        ((indent' ++ "@\x7b".toList) :: ms ++ [indent' ++ ['}']]) := fun h =>
    List.rel_append (.cons (hindent.alike _) h) (.cons (hindent.alike _) .nil)
  refine (Collaborators.tracks_askCode code none body).bind ?_
  rintro answer _ rfl
  cases answer with
  | none =>
      exact (tracks_bodyLines hformat hlead body).bind fun lines lines' h =>
        tracks_pure (hbraces h)
  | some output => exact tracks_pure (hbraces (hlead.reindent output))

theorem tracks_flowLines
    (hformat : ∀ text, Tracks Text.AlikeLines (format text) (format' text)) (f : Flow) :
    Tracks (List.Forall₂ Text.Alike)
      (flowLines ⟨config, .ofCode code, nested⟩ format indent f)
      (flowLines ⟨config.withIndentSize n hn, .ofCode code, nested'⟩ format' indent' f) := by
  have hunit := config.leads_unit hn
  have hlead := hindent.append hunit
  have hbraces : ∀ {ls ms : List Text}, List.Forall₂ Text.Alike ls ms →
      List.Forall₂ Text.Alike
        ((indent ++ f.header) :: (indent ++ ['{']) :: ls ++ [indent ++ ['}']])
        ((indent' ++ f.header) :: (indent' ++ ['{']) :: ms ++ [indent' ++ ['}']]) := fun h =>
    List.rel_append (.cons (hindent.alike _) (.cons (hindent.alike _) h))
      (.cons (hindent.alike _) .nil)
  simp only [flowLines]
  split
  · exact (tracks_switchLines hformat hlead hunit _).bind fun lines lines' h =>
      tracks_pure (hbraces h)
  · refine (tracks_bodyLines hformat hlead f.body).bind fun body body' hbody => ?_
    refine (tracks_clauseLines hformat hindent hunit f.clauses).bind fun clauses clauses' h => ?_
    exact tracks_pure (alike_withLoopTest hindent f.loopTest (List.rel_append (hbraces hbody) h))

theorem tracks_blockLines
    (hnested : Option.Rel (fun format format' =>
      ∀ text, Tracks Text.AlikeLines (format text) (format' text)) nested nested') (raw : Text) :
    Tracks (List.Forall₂ Text.Alike)
      (blockLines ⟨config, .ofCode code, nested⟩ indent raw)
      (blockLines ⟨config.withIndentSize n hn, .ofCode code, nested'⟩ indent' raw) := by
  have hraw : List.Forall₂ Text.Alike (rawLines indent raw) (rawLines indent' raw) :=
    .cons (hindent.alike _) .nil
  cases hnested with
  | none =>
      intro j k hj
      exact ⟨hraw, hj.code, congrArg (· ++ [_]) hj.warnings, congrArg (· ++ [_]) hj.events⟩
  | some hformat =>
      simp only [blockLines]
      split
      · exact tracks_codeLines config hn code hindent hformat _
      · exact tracks_flowLines config hn code hindent hformat _
      · exact tracks_pure hraw

end Blocks

section Tags

variable (hwidth : config.maxLineLength = 0)
include hwidth

/-- Without a limit on the width, tags are stacked at the same places. -/
theorem isStacked_withIndentSize (w w' : Nat) (tag : Tag) (ending : TagEnd) :
    tag.isStacked (config.withIndentSize n hn) w' ending = tag.isStacked config w ending := by
  simp [Tag.isStacked, Config.withIndentSize, hwidth]

theorem alikeLines_print (w w' : Nat) (tag : Tag) (ending : TagEnd) :
    Text.AlikeLines (tag.print config w ending)
      (tag.print (config.withIndentSize n hn) w' ending) := by
  have hunit := config.leads_unit hn
  have hstacked : Text.AlikeLines (tag.stacked config ending)
      (tag.stacked (config.withIndentSize n hn) ending) := by
    refine Text.alikeLines_unlines (.cons (Text.alike_refl _) (List.rel_append ?_ ?_))
    · rw [List.forall₂_map_left_iff, List.forall₂_map_right_iff]
      exact List.forall₂_same.2 fun a _ => hunit.alike a.render
    · exact List.forall₂_refl _
  simp only [Tag.print, isStacked_withIndentSize config hn hwidth w w']
  split
  · exact List.forall₂_refl _
  · split
    · exact hstacked
    · exact List.forall₂_refl _

variable (hindent : Text.Leads indent indent')
include hindent

theorem alike_tagLines (tag : Tag) (ending : TagEnd) :
    List.Forall₂ Text.Alike
      (tagLines ⟨config, .ofCode code, nested⟩ indent tag ending)
      (tagLines ⟨config.withIndentSize n hn, .ofCode code, nested'⟩ indent' tag ending) :=
  Text.alike_solid (hindent.map (alikeLines_print config hn hwidth _ _ tag ending))

theorem alike_inlineLines (tag : Tag) (content : Text) :
    List.Forall₂ Text.Alike
      (inlineLines ⟨config, .ofCode code, nested⟩ indent tag content)
      (inlineLines ⟨config.withIndentSize n hn, .ofCode code, nested'⟩ indent' tag content) := by
  have happend : ∀ (tail : Text) {ls ms : List Text}, List.Forall₂ Text.Alike ls ms →
      List.Forall₂ Text.Alike (appendLast tail ls) (appendLast tail ms) := by
    intro tail ls ms h
    induction h with
    | nil => exact List.forall₂_refl _
    | cons hline hrest ih =>
        cases hrest with
        | nil => exact .cons (hline.append_right tail) .nil
        | cons hnext hrest => exact .cons hline ih
  simp only [inlineLines, isStacked_withIndentSize config hn hwidth indent.length indent'.length]
  split
  · exact Text.alike_solid (hindent.map (happend _ (alikeLines_print config hn hwidth _ _ tag _)))
  · simp only [List.append_assoc]
    exact .cons (hindent.alike _) .nil

end Tags

variable (hwidth : config.maxLineLength = 0)

theorem tracks_preservedLines (hindent : Text.Leads indent indent') (tag : Tag) (content : Text) :
    Tracks (List.Forall₂ Text.Alike)
      (preservedLines ⟨config, .ofCode code, nested⟩ indent tag content)
      (preservedLines ⟨config.withIndentSize n hn, .ofCode code, nested'⟩ indent' tag content) := by
  -- The size for style sheets is its own, or that of a level.
  have hsize : Text.Leads (Text.spaces config.styleIndentSize)
      (Text.spaces (config.withIndentSize n hn).styleIndentSize) := by
    cases hstyle : config.style.indentSize with
    | none =>
        simp only [Config.styleIndentSize, Config.style_withIndentSize, hstyle]
        exact Config.leads_spaces config.indentSize_pos hn
    | some size =>
        have hpos := config.style.indentSize_pos size hstyle
        simp only [Config.styleIndentSize, Config.style_withIndentSize, hstyle]
        exact Config.leads_spaces hpos hpos
  have hasks : ∀ (c : Config) (inner : Option (Text → Journaled Text)) (lead : Text),
      c.style = config.style →
      preservedLines ⟨c, .ofCode code, inner⟩ lead tag content =
        if Text.lower tag.name = styleElement ∧ config.style.enabled = true ∧
            Text.stripEnd (Text.dedent content) ≠ [] then do
          let output ← (Collaborators.ofCode code).askStyle
            (Text.stripEnd (Text.dedent content)) c.styleIndentSize
          pure ((lead ++ tag.printInline .opening) ::
            Text.reindent (lead ++ Text.spaces c.styleIndentSize) output ++
              [lead ++ closingTag tag.name])
        else pure [lead ++ (tag.printInline .opening ++ content ++ closingTag tag.name)] := by
    intro c inner lead hstyle
    simp only [preservedLines, ← hstyle, List.append_assoc]
  rw [hasks config nested indent rfl, hasks _ nested' indent' (config.style_withIndentSize hn)]
  split
  · refine (Collaborators.tracks_askStyle code _ _ _).bind ?_
    rintro output output' ⟨rfl, rfl⟩
    exact tracks_pure (List.rel_append
      (.cons (hindent.alike _) ((hindent.append hsize).reindent _))
      (.cons (hindent.alike _) .nil))
  · exact tracks_pure (.cons (hindent.alike _) .nil)

include hwidth

theorem tracks_itemLines
    (hnested : Option.Rel (fun format format' =>
      ∀ text, Tracks Text.AlikeLines (format text) (format' text)) nested nested')
    (hindent : Text.Leads indent indent') (item : Item) :
    Tracks (List.Forall₂ Text.Alike)
      (itemLines ⟨config, .ofCode code, nested⟩ indent item)
      (itemLines ⟨config.withIndentSize n hn, .ofCode code, nested'⟩ indent' item) := by
  have htrimmed : ∀ raw, List.Forall₂ Text.Alike (trimmedLine indent raw)
      (trimmedLine indent' raw) :=
    fun raw => Text.alike_solid (.cons (hindent.alike _) .nil)
  cases item with
  | preserved tag content => exact tracks_preservedLines config hn code hindent tag content
  | inline tag content => exact tracks_pure (alike_inlineLines config hn code hwidth hindent _ _)
  | openTag tag => exact tracks_pure (alike_tagLines config hn code hwidth hindent _ _)
  | selfClosingTag tag => exact tracks_pure (alike_tagLines config hn code hwidth hindent _ _)
  | closeTag name => exact tracks_pure (.cons (hindent.alike _) .nil)
  | text raw =>
      simp only [itemLines]
      refine tracks_pure ?_
      split
      · exact .nil
      · rw [textLines, textLines, List.forall₂_map_left_iff, List.forall₂_map_right_iff]
        refine List.forall₂_same.2 fun line _ => ?_
        split
        · exact Text.alike_refl []
        · exact hindent.alike _
  | comment raw => exact tracks_pure (htrimmed raw)
  | doctype raw => exact tracks_pure (htrimmed raw)
  | directive raw => exact tracks_pure (htrimmed raw)
  | block raw => exact tracks_blockLines config hn code hindent hnested raw

end Items

end Context

/-- Pages with the same flags whose entries are alike. -/
structure Page.Alike (p q : Page) : Prop where
  latest : List.Forall₂ Text.Alike p.sheet.latest q.sheet.latest
  level : p.level = q.level
  afterBlock : p.afterBlock = q.afterBlock
  justOpened : p.justOpened = q.justOpened
  seenRootDirective : p.seenRootDirective = q.seenRootDirective
  seenRootTag : p.seenRootTag = q.seenRootTag

namespace Sheet

variable {s t : Sheet}

theorem alike_gap (h : List.Forall₂ Text.Alike s.latest t.latest) :
    List.Forall₂ Text.Alike s.gap.latest t.gap.latest := by
  obtain ⟨latest⟩ := s
  obtain ⟨latest'⟩ := t
  cases h with
  | nil => exact .nil
  | @cons line line' rest rest' hline hrest =>
      have hempty := hline.isEmpty_eq
      cases line <;> cases line' <;> cases hempty
      · exact .cons hline hrest
      · exact .cons (Text.alike_refl []) (.cons hline hrest)

theorem alike_writeAll (h : List.Forall₂ Text.Alike s.latest t.latest) {ls ms : List Text}
    (hls : List.Forall₂ Text.Alike ls ms) :
    List.Forall₂ Text.Alike (s.writeAll ls).latest (t.writeAll ms).latest := by
  refine List.rel_foldl (P := fun s t : Sheet => List.Forall₂ Text.Alike s.latest t.latest) ?_
    h hls
  intro s t hst line line' hline
  simp only [write, hline.isEmpty_eq]
  split
  · exact alike_gap hst
  · exact .cons hline hst

end Sheet

namespace Page

variable {p q : Page}

/-- Pages that are alike stay so when lines that are alike are written for an item. -/
theorem Alike.place (h : p.Alike q) (item : Item) {ls ms : List Text}
    (hls : List.Forall₂ Text.Alike ls ms) :
    (((p.ready item).write ls).behind item).Alike (((q.ready item).write ms).behind item) := by
  have hgap : p.wantsGap item = q.wantsGap item := by
    cases item <;>
      simp [wantsGap, h.level, h.afterBlock, h.justOpened, h.seenRootDirective, h.seenRootTag]
  have hready : List.Forall₂ Text.Alike (p.ready item).sheet.latest
      (q.ready item).sheet.latest := by
    rw [sheet_ready, sheet_ready, hgap]
    split
    · exact Sheet.alike_gap h.latest
    · exact h.latest
  obtain ⟨hblock, hopened, hdirective, htag⟩ := p.flags_behind_ready item ls
  obtain ⟨hblock', hopened', hdirective', htag'⟩ := q.flags_behind_ready item ms
  refine ⟨?_, ?_, ?_, ?_, ?_, ?_⟩
  · rw [sheet_behind, sheet_behind]
    exact Sheet.alike_writeAll hready hls
  · rw [level_behind_ready, level_behind_ready, h.level]
  · rw [hblock, hblock', h.afterBlock]
  · rw [hopened, hopened', h.justOpened]
  · rw [hdirective, hdirective', h.seenRootDirective, h.level]
  · rw [htag, htag', h.seenRootTag, h.level]

theorem Alike.text (h : p.Alike q) : Text.AlikeLines p.sheet.text q.sheet.text :=
  Text.alikeLines_unlines (List.rel_reverse h.latest)

end Page

section Layouts

variable (config : Config) {n : Nat} (hn : 0 < n)
variable (code : Option (Text → Except Fault CodeAnswer)) (hwidth : config.maxLineLength = 0)
include hwidth

section Placing

variable {nested nested' : Option (Text → Journaled Text)}
variable (hnested : Option.Rel (fun format format' =>
  ∀ text, Tracks Text.AlikeLines (format text) (format' text)) nested nested')
include hnested

theorem tracks_place {p q : Page} (hpage : p.Alike q) (item : Item) :
    Tracks Page.Alike (Context.place ⟨config, .ofCode code, nested⟩ p item)
      (Context.place ⟨config.withIndentSize n hn, .ofCode code, nested'⟩ q item) := by
  cases hunit : item.isUnit with
  | false =>
      rw [(Context.place_of_not_isUnit _ p hunit).1, (Context.place_of_not_isUnit _ q hunit).1]
      exact tracks_pure hpage
  | true =>
      rw [Context.place_eq _ p hunit, Context.place_eq _ q hunit, hpage.level]
      have hindent := config.leads_indentation hn (item.levelAt q.level)
      exact (Context.tracks_itemLines config hn code hwidth hnested hindent item).bind
        fun lines lines' hlines => tracks_pure (hpage.place item hlines)

theorem tracks_placeAll {p q : Page} (hpage : p.Alike q) (items : List Item) :
    Tracks Page.Alike (Context.placeAll ⟨config, .ofCode code, nested⟩ p items)
      (Context.placeAll ⟨config.withIndentSize n hn, .ofCode code, nested'⟩ q items) := by
  induction items generalizing p q with
  | nil => exact tracks_pure hpage
  | cons item items ih =>
      exact (tracks_place config hn code hwidth hnested hpage item).bind
        fun _ _ hplaced => ih hplaced

theorem tracks_layout (tokens : List Token) :
    Tracks Page.Alike (Context.layout ⟨config, .ofCode code, nested⟩ tokens)
      (Context.layout ⟨config.withIndentSize n hn, .ofCode code, nested'⟩ tokens) :=
  tracks_placeAll config hn code hwidth hnested ⟨.nil, rfl, rfl, rfl, rfl, rfl⟩ _

end Placing

/-- Layouts inside blocks are related however deep they stand. -/
theorem tracks_formatWithin (levels : Nat) :
    Option.Rel (fun format format' =>
        ∀ text, Tracks Text.AlikeLines (format text) (format' text))
      (formatWithin config (.ofCode code) levels)
      (formatWithin (config.withIndentSize n hn) (.ofCode code) levels) := by
  induction levels with
  | zero => exact .none
  | succ levels ih =>
      refine .some fun text => ?_
      exact (tracks_layout config hn code hwidth ih _).bind
        fun _ _ hpage => tracks_pure hpage.text

theorem tracks_formatMarkup (depth : Nat) (text : Text) :
    Tracks Text.AlikeLines (formatMarkup config (.ofCode code) depth text)
      (formatMarkup (config.withIndentSize n hn) (.ofCode code) depth text) :=
  (tracks_layout config hn code hwidth (tracks_formatWithin config hn code hwidth _) _).bind
    fun _ _ hpage => tracks_pure hpage.text

end Layouts

section Documents

variable (config : Config) {n : Nat} (hn : 0 < n)
variable (code : Option (Text → Except Fault CodeAnswer))

theorem tracks_memberLines {written written' : List Text}
    (hwritten : List.Forall₂ Text.Alike written written') (region : Region) (owned : List Text) :
    Tracks (List.Forall₂ Text.Alike)
      (memberLines config (.ofCode code) written region owned)
      (memberLines (config.withIndentSize n hn) (.ofCode code) written' region owned) := by
  -- The line above is blank on both sides or on neither.
  have habove : written.getLast?.map Text.isBlankText =
      written'.getLast?.map Text.isBlankText := by
    rw [← List.getLast?_map, ← List.getLast?_map]
    congr 1
    induction hwritten with
    | nil => rfl
    | cons hline hrest ih => rw [List.map_cons, List.map_cons, hline.isBlankText_eq, ih]
  refine (Collaborators.tracks_askCode code _ region.body).bind ?_
  rintro answer _ rfl
  cases answer with
  | none => exact tracks_pure (List.forall₂_refl _)
  | some output =>
      refine tracks_pure ?_
      cases hlast : written.getLast? <;> cases hlast' : written'.getLast? <;>
        simp [hlast, hlast'] at habove
      · exact List.forall₂_refl _
      · simp only [Config.withIndentSize, habove]
        exact List.forall₂_refl _

variable (hwidth : config.maxLineLength = 0)
include hwidth

theorem tracks_markupLines (afterCode beforeCode : Bool) (chunk : List Text) :
    Tracks (List.Forall₂ Text.Alike)
      (markupLines config (.ofCode code) afterCode beforeCode chunk)
      (markupLines (config.withIndentSize n hn) (.ofCode code) afterCode beforeCode chunk) := by
  have hhtml : (config.withIndentSize n hn).formatHtml = config.formatHtml := rfl
  cases chunk with
  | nil => exact tracks_pure .nil
  | cons first rest =>
      simp only [markupLines, hhtml]
      split
      · refine (tracks_formatMarkup config hn code hwidth 0 _).bind fun _ _ hlaidOut => ?_
        exact tracks_pure (List.rel_append
          (List.rel_append (List.forall₂_refl _) hlaidOut) (List.forall₂_refl _))
      · exact tracks_pure (List.forall₂_refl _)

theorem tracks_documentLines (source : List Text) (start : Nat) {written written' : List Text}
    (hwritten : List.Forall₂ Text.Alike written written') (regions : List Region) :
    Tracks (List.Forall₂ Text.Alike)
      (documentLines config (.ofCode code) source start written regions)
      (documentLines (config.withIndentSize n hn) (.ofCode code) source start written'
        regions) := by
  induction regions generalizing start written written' with
  | nil =>
      exact (tracks_markupLines config hn code hwidth _ _ _).bind fun _ _ hmarkup =>
        tracks_pure (List.rel_append hwritten hmarkup)
  | cons region regions ih =>
      refine (tracks_markupLines config hn code hwidth _ _ _).bind fun _ _ hmarkup => ?_
      have habove := List.rel_append hwritten hmarkup
      exact (tracks_memberLines config hn code habove region _).bind fun _ _ hmembers =>
        ih _ (List.rel_append habove hmembers)

theorem tracks_formatBody (text : Text) :
    Tracks Text.AlikeLines (formatBody config (.ofCode code) text)
      (formatBody (config.withIndentSize n hn) (.ofCode code) text) := by
  have hlog : ∀ e, Tracks Eq (modify fun journal : Journal => journal.log e)
      (modify fun journal : Journal => journal.log e) :=
    fun e j k hj => ⟨rfl, hj.code, hj.warnings, congrArg (· ++ [e]) hj.events⟩
  refine (hlog _).bind fun _ _ _ => ?_
  exact (tracks_documentLines config hn code hwidth _ 0 .nil _).bind fun _ _ hlines =>
    tracks_pure (Text.alikeLines_unlines hlines)

end Documents

namespace Text

section Endings

variable {s t : Text}

theorem AlikeLines.concat_newline (h : AlikeLines s t) :
    AlikeLines (s ++ ['\n']) (t ++ ['\n']) := by
  rw [AlikeLines, lines_append_newline, lines_append_newline]
  exact List.rel_append h (List.forall₂_refl _)

/-- A carriage return goes to the end of a line. -/
theorem addCr_append_newline {line : Text} (hline : IsLine line) (t : Text) :
    addCr (line ++ '\n' :: t) = (line ++ ['\r']) ++ '\n' :: addCr t := by
  have happend : addCr (line ++ '\n' :: t) = addCr line ++ addCr ('\n' :: t) :=
    List.flatMap_append
  rw [happend, addCr_of_isLine hline, addCr_newline, List.append_assoc, List.singleton_append]

/-- Lines stay alike when carriage returns are put at their ends. -/
theorem AlikeLines.addCr (h : AlikeLines s t) :
    AlikeLines (RazorLayout.addCr s) (RazorLayout.addCr t) := by
  have hunlines : ∀ {ls ms : List Text}, List.Forall₂ Alike ls ms → (∀ line ∈ ls, IsLine line) →
      (∀ line ∈ ms, IsLine line) →
      AlikeLines (RazorLayout.addCr (unlines ls)) (RazorLayout.addCr (unlines ms)) := by
    intro ls ms hls
    induction hls with
    | nil => exact fun _ _ => List.forall₂_refl _
    | @cons line line' rest rest' hline hrest ih =>
        intro hls hms
        obtain ⟨hfirst, hls⟩ := List.forall_mem_cons.1 hls
        obtain ⟨hfirst', hms⟩ := List.forall_mem_cons.1 hms
        cases hrest with
        | nil =>
            rw [unlines, unlines, addCr_of_isLine hfirst, addCr_of_isLine hfirst']
            exact hline.alikeLines
        | cons hnext hrest =>
            rw [unlines, unlines, addCr_append_newline hfirst, addCr_append_newline hfirst',
              AlikeLines, lines_append_newline, lines_append_newline]
            exact List.rel_append (hline.append_right ['\r']).alikeLines (ih hls hms)
  have hcut := hunlines h (fun _ => isLine_of_mem_lines) (fun _ => isLine_of_mem_lines)
  rwa [unlines_lines, unlines_lines] at hcut

end Endings

end Text

/-- The size of a level shows in the spaces at the front of lines only.  Two layouts of one
document, with configurations that differ in the size of a level and set no limit on the width, with
the same code collaborator that remembers nothing and with style sheets handed back, have as many
lines as each other, each the same behind its spaces, and the same warnings. -/
theorem formatDocument_withIndentSize (config : Config) (hwidth : config.maxLineLength = 0)
    {n : Nat} (hn : 0 < n) (code : Option (Text → Except Fault CodeAnswer)) (t : Text)
    (j : Journal) :
    let first := (formatDocument config (.ofCode code) t).run j
    let second := (formatDocument (config.withIndentSize n hn) (.ofCode code) t).run j
    List.Forall₂ (fun line other => Text.unspaced line = Text.unspaced other)
        (Text.lines first.1) (Text.lines second.1) ∧
      first.2.warnings = second.2.warnings := by
  have hbody := tracks_formatBody config hn code hwidth
  have hunix : ∀ text, Tracks Text.AlikeLines (formatUnix config (.ofCode code) text)
      (formatUnix (config.withIndentSize n hn) (.ofCode code) text) := by
    intro text
    simp only [formatUnix]
    split
    · exact (hbody _).bind fun _ _ h => tracks_pure h.concat_newline
    · exact hbody text
  have htracks : Tracks Text.AlikeLines (formatDocument config (.ofCode code) t)
      (formatDocument (config.withIndentSize n hn) (.ofCode code) t) := by
    simp only [formatDocument]
    split
    · exact (hunix _).bind fun _ _ h => tracks_pure h.addCr
    · exact hunix t
  obtain ⟨hlines, hjournal⟩ := htracks j j j.agrees_refl
  exact ⟨hlines.imp fun _ _ hline => hline.unspaced_eq, hjournal.warnings⟩

/-- A stacked tag inside a block inside an element, with four spaces for a level and with two. -/
theorem formatDocument_withIndentSize_nested :
    let t := "<p>@if (x) \x7b\n<b A=1 B=2>y</b>\n\x7d</p>".toList
    let first := (formatDocument .standard (.ofCode none) t).run {}
    let narrow := Config.standard.withIndentSize 2 (by decide)
    let second := (formatDocument narrow (.ofCode none) t).run {}
    Text.lines first.1 = ["<p>", "    @if (x)", "    \x7b", "        <b", "            A=\"1\"",
        "            B=\"2\"", "        >y</b>", "    \x7d", "</p>"].map String.toList ∧
      Text.lines second.1 = ["<p>", "  @if (x)", "  \x7b", "    <b", "      A=\"1\"",
        "      B=\"2\"", "    >y</b>", "  \x7d", "</p>"].map String.toList ∧
      List.Forall₂ (fun line other => Text.unspaced line = Text.unspaced other)
        (Text.lines first.1) (Text.lines second.1) := by
  intro t first narrow second
  refine ⟨by decide +kernel, by decide +kernel, ?_⟩
  exact (formatDocument_withIndentSize .standard rfl (by decide) none t {}).1

end RazorLayout
