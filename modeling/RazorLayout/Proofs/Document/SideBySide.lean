import RazorLayout.Proofs.Document.LineEndings
import RazorLayout.Proofs.Layout.NestedBodies

/-!
# Layouts side by side

Two layouts of the same text, with configurations that differ in the nesting limit only.  They take
the same steps up to the bodies of blocks, where each of them goes on with a nested layout of its
own.

* `Sequential` is a relation between computations that is kept from step to step, and that holds of
  a step which both sides take;
* the lemmas below it carry such a relation from the nested layouts of the bodies to the lines of a
  block, to a page, and to a document.

Results.  `Sequential.blockLines`: the lines of a block are related as the layouts of its bodies
are.  `Sequential.layout`: a page is related as its blocks are.  `Sequential.formatDocument`: a
document is related as the pieces of its markup are.
-/

namespace RazorLayout

section Sources

theorem Text.unlines_sublist {t : Text} {chunk : List Text} (h : chunk <:+: lines t) :
    (unlines chunk).Sublist t := by
  by_cases hne : chunk = []
  · rw [hne]
    exact List.nil_sublist t
  · have hinfix := unlines_isInfix hne h
    rw [unlines_lines] at hinfix
    exact hinfix.sublist

theorem dropCr_sublist (t : Text) : (dropCr t).Sublist t := by
  fun_induction dropCr t with
  | case1 cs ih => exact (ih.cons_cons '\n').cons '\r'
  | case2 c cs hne ih => exact ih.cons_cons c
  | case3 => exact List.Sublist.refl []

end Sources

/-- A relation between computations that is kept from step to step, and holds of a step that asks
the collaborators or logs an event. -/
structure Sequential (c : Collaborators) (R : ∀ {α : Type}, Journaled α → Journaled α → Prop) :
    Prop where
  pure : ∀ {α : Type} (a : α), R (Pure.pure a) (Pure.pure a)
  bind : ∀ {α β : Type} {m m' : Journaled α} {f f' : α → Journaled β},
    R m m' → (∀ a, R (f a) (f' a)) → R (m >>= f) (m' >>= f')
  askCode : ∀ line text, R (c.askCode line text) (c.askCode line text)
  askStyle : ∀ text size, R (c.askStyle text size) (c.askStyle text size)
  log : ∀ event, R (modify fun j : Journal => j.log event) (modify fun j : Journal => j.log event)

/-- The configuration with another nesting limit. -/
def Config.withMaxDepth (config : Config) (n : Nat) (hn : 0 < n) : Config :=
  { config with maxDepth := n, maxDepth_pos := hn }

namespace Sequential

variable {c : Collaborators} {R : ∀ {α : Type}, Journaled α → Journaled α → Prop}

theorem ite {α : Type} {m m' k k' : Journaled α} (p : Prop) [Decidable p] (hm : R m m')
    (hk : R k k') : R (if p then m else k) (if p then m' else k') := by
  split
  · exact hm
  · exact hk

variable (hR : Sequential c R)
include hR

section Bodies

variable {format format' : Text → Journaled Text}

theorem bodyLines (lead : Text) {body : Text}
    (h : R (format (Text.dedent body)) (format' (Text.dedent body))) :
    R (Context.bodyLines format lead body) (Context.bodyLines format' lead body) := by
  simp only [Context.bodyLines]
  split
  · exact hR.pure _
  · exact hR.bind h fun laidOut => hR.pure _

theorem sectionLines (lead : Text) {content : Text}
    (h : R (format (Text.dedent ((Context.beforeBreak? content).getD content)))
      (format' (Text.dedent ((Context.beforeBreak? content).getD content)))) :
    R (Context.sectionLines format lead content) (Context.sectionLines format' lead content) := by
  unfold Context.sectionLines
  cases hbreak : Context.beforeBreak? content with
  | none =>
      rw [hbreak] at h
      exact hR.bodyLines lead h
  | some before =>
      rw [hbreak] at h
      exact hR.bind (hR.bodyLines lead h) fun lines => hR.pure _

theorem switchLines (lead unit : Text) {cases : List SwitchCase}
    (h : ∀ body ∈ cases.map fun c => (Context.beforeBreak? c.content).getD c.content,
      R (format (Text.dedent body)) (format' (Text.dedent body))) :
    R (Context.switchLines format lead unit cases)
      (Context.switchLines format' lead unit cases) := by
  induction cases with
  | nil => exact hR.pure _
  | cons first cases ih =>
      obtain ⟨hfirst, hcases⟩ := List.forall_mem_cons.1 h
      exact hR.bind (hR.sectionLines _ hfirst) fun lines =>
        hR.bind (ih hcases) fun rest => hR.pure _

theorem clauseLines (indent unit : Text) {clauses : List Clause}
    (h : ∀ body ∈ clauses.map Clause.body,
      R (format (Text.dedent body)) (format' (Text.dedent body))) :
    R (Context.clauseLines format indent unit clauses)
      (Context.clauseLines format' indent unit clauses) := by
  induction clauses with
  | nil => exact hR.pure _
  | cons clause clauses ih =>
      obtain ⟨hfirst, hclauses⟩ := List.forall_mem_cons.1 h
      exact hR.bind (hR.bodyLines _ hfirst) fun lines =>
        hR.bind (ih hclauses) fun rest => hR.pure _

variable (config : Config) {n : Nat} (hn : 0 < n) (nested nested' : Option (Text → Journaled Text))

theorem codeLines (indent : Text) {body : Text}
    (h : R (format (Text.dedent body)) (format' (Text.dedent body))) :
    R (Context.codeLines ⟨config, c, nested⟩ format indent body)
      (Context.codeLines ⟨config.withMaxDepth n hn, c, nested'⟩ format' indent body) := by
  refine hR.bind (hR.askCode none body) fun answer => ?_
  cases answer with
  | none =>
      exact hR.bind (hR.bodyLines (indent ++ config.unit) h) fun lines => hR.pure _
  | some output => exact hR.bind (hR.pure _) fun lines => hR.pure _

theorem flowLines (indent : Text) {f : Flow}
    (h : ∀ body ∈ f.bodies, R (format (Text.dedent body)) (format' (Text.dedent body))) :
    R (Context.flowLines ⟨config, c, nested⟩ format indent f)
      (Context.flowLines ⟨config.withMaxDepth n hn, c, nested'⟩ format' indent f) := by
  unfold Flow.bodies at h
  unfold Context.flowLines
  split
  · rename_i cases hsections
    rw [hsections] at h
    exact hR.bind (hR.switchLines _ _ h) fun lines => hR.pure _
  · rename_i hsections
    rw [hsections] at h
    obtain ⟨hbody, hclauses⟩ := List.forall_mem_cons.1 h
    exact hR.bind (hR.bodyLines _ hbody) fun body =>
      hR.bind (hR.clauseLines _ _ hclauses) fun clauses => hR.pure _

/-- The lines of a block are related as the layouts of its bodies are. -/
theorem blockLines (format format' : Text → Journaled Text) (indent : Text) {raw : Text}
    (h : ∀ block rest, Block.read? raw = some (block, rest) → ∀ body ∈ block.bodies,
      R (format (Text.dedent body)) (format' (Text.dedent body))) :
    R (Context.blockLines ⟨config, c, some format⟩ indent raw)
      (Context.blockLines ⟨config.withMaxDepth n hn, c, some format'⟩ indent raw) := by
  simp only [Context.blockLines]
  split
  · rename_i body rest hread
    exact hR.codeLines config hn _ _ indent (h _ _ hread body (List.mem_singleton.2 rfl))
  · rename_i f rest hread
    exact hR.flowLines config hn _ _ indent (h _ _ hread)
  · exact hR.pure _

end Bodies

section Pages

variable (config : Config) {n : Nat} (hn : 0 < n) {nested nested' : Option (Text → Journaled Text)}

theorem itemLines (indent : Text) {item : Item}
    (h : ∀ raw, item = .block raw → R (Context.blockLines ⟨config, c, nested⟩ indent raw)
      (Context.blockLines ⟨config.withMaxDepth n hn, c, nested'⟩ indent raw)) :
    R (Context.itemLines ⟨config, c, nested⟩ indent item)
      (Context.itemLines ⟨config.withMaxDepth n hn, c, nested'⟩ indent item) := by
  cases item with
  | block raw => exact h raw rfl
  | preserved tag content =>
      simp only [Context.itemLines, Context.preservedLines]
      exact Sequential.ite _ (hR.bind (hR.askStyle _ _) fun output => hR.pure _) (hR.pure _)
  | _ => exact hR.pure _

theorem place (page : Page) {item : Item}
    (h : ∀ raw, item = .block raw → ∀ indent,
      R (Context.blockLines ⟨config, c, nested⟩ indent raw)
        (Context.blockLines ⟨config.withMaxDepth n hn, c, nested'⟩ indent raw)) :
    R (Context.place ⟨config, c, nested⟩ page item)
      (Context.place ⟨config.withMaxDepth n hn, c, nested'⟩ page item) := by
  cases hunit : item.isUnit with
  | true =>
      rw [Context.place_eq _ page hunit, Context.place_eq _ page hunit]
      exact hR.bind (hR.itemLines config hn _ fun raw hraw => h raw hraw _) fun lines => hR.pure _
  | false =>
      rw [(Context.place_of_not_isUnit _ page hunit).1,
        (Context.place_of_not_isUnit _ page hunit).1]
      exact hR.pure page

theorem placeAll (page : Page) {items : List Item}
    (h : ∀ raw, .block raw ∈ items → ∀ indent,
      R (Context.blockLines ⟨config, c, nested⟩ indent raw)
        (Context.blockLines ⟨config.withMaxDepth n hn, c, nested'⟩ indent raw)) :
    R (Context.placeAll ⟨config, c, nested⟩ page items)
      (Context.placeAll ⟨config.withMaxDepth n hn, c, nested'⟩ page items) := by
  induction items generalizing page with
  | nil => exact hR.pure page
  | cons item items ih =>
      refine hR.bind (hR.place config hn page fun raw hraw => h raw ?_) fun next => ih next ?_
      · rw [hraw]
        exact List.mem_cons_self
      · exact fun raw hmem => h raw (List.mem_cons_of_mem _ hmem)

/-- A page is related as its blocks are. -/
theorem layout (nested nested' : Option (Text → Journaled Text)) {tokens : List Token}
    (h : ∀ raw, .block raw ∈ Item.ofTokens tokens → ∀ indent,
      R (Context.blockLines ⟨config, c, nested⟩ indent raw)
        (Context.blockLines ⟨config.withMaxDepth n hn, c, nested'⟩ indent raw)) :
    R (Context.layout ⟨config, c, nested⟩ tokens)
      (Context.layout ⟨config.withMaxDepth n hn, c, nested'⟩ tokens) :=
  hR.placeAll config hn {} h

end Pages

section Documents

variable (config : Config) {n : Nat} (hn : 0 < n)

theorem markupLines (afterCode beforeCode : Bool) {chunk : List Text}
    (h : R (formatMarkup config c 0 (Text.unlines chunk))
      (formatMarkup (config.withMaxDepth n hn) c 0 (Text.unlines chunk))) :
    R (RazorLayout.markupLines config c afterCode beforeCode chunk)
      (RazorLayout.markupLines (config.withMaxDepth n hn) c afterCode beforeCode chunk) := by
  cases chunk with
  | nil => exact hR.pure _
  | cons first rest =>
      exact Sequential.ite _ (hR.bind h fun laidOut => hR.pure _) (hR.pure _)

theorem memberLines (written : List Text) (region : Region) (owned : List Text) :
    R (RazorLayout.memberLines config c written region owned)
      (RazorLayout.memberLines (config.withMaxDepth n hn) c written region owned) := by
  refine hR.bind (hR.askCode _ _) fun answer => ?_
  cases answer with
  | none => exact hR.pure _
  | some output => exact hR.pure _

theorem documentLines {source : List Text}
    (h : ∀ chunk, chunk <:+: source → R (formatMarkup config c 0 (Text.unlines chunk))
      (formatMarkup (config.withMaxDepth n hn) c 0 (Text.unlines chunk)))
    (start : Nat) (written : List Text) (regions : List Region) :
    R (RazorLayout.documentLines config c source start written regions)
      (RazorLayout.documentLines (config.withMaxDepth n hn) c source start written regions) := by
  have hdrop : source.drop start <:+: source := (List.drop_suffix _ _).isInfix
  induction regions generalizing start written with
  | nil => exact hR.bind (hR.markupLines config hn _ _ (h _ hdrop)) fun markup => hR.pure _
  | cons region regions ih =>
      refine hR.bind (hR.markupLines config hn _ _
        (h _ ((List.take_prefix _ _).isInfix.trans hdrop))) fun markup => ?_
      exact hR.bind (hR.memberLines config hn _ region _) fun members =>
        ih _ _ (List.drop_suffix _ _).isInfix

theorem formatUnix {t : Text}
    (h : ∀ text : Text, text.Sublist t →
      R (formatMarkup config c 0 text) (formatMarkup (config.withMaxDepth n hn) c 0 text)) :
    R (RazorLayout.formatUnix config c t)
      (RazorLayout.formatUnix (config.withMaxDepth n hn) c t) := by
  have hbody : ∀ s : Text, s.Sublist t →
      R (formatBody config c s) (formatBody (config.withMaxDepth n hn) c s) := by
    intro s hs
    refine hR.bind (hR.log _) fun _ => hR.bind (hR.documentLines config hn ?_ _ _ _) fun lines =>
      hR.pure _
    exact fun chunk hchunk => h _ ((Text.unlines_sublist hchunk).trans hs)
  exact Sequential.ite _
    (hR.bind (hbody _ (List.dropLast_sublist t)) fun body => hR.pure _)
    (hbody t (List.Sublist.refl t))

/-- A document is related as the pieces of its markup are, which are pieces of the document without
some carriage returns. -/
theorem formatDocument {t : Text}
    (h : ∀ text : Text, text.Sublist t →
      R (formatMarkup config c 0 text) (formatMarkup (config.withMaxDepth n hn) c 0 text)) :
    R (RazorLayout.formatDocument config c t)
      (RazorLayout.formatDocument (config.withMaxDepth n hn) c t) := by
  refine Sequential.ite _ (hR.bind (hR.formatUnix config hn ?_) fun output => hR.pure _)
    (hR.formatUnix config hn h)
  exact fun text htext => h text (htext.trans (dropCr_sublist t))

end Documents

end Sequential

end RazorLayout
