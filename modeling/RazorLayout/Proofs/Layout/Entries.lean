import RazorLayout.Layout.Markup

/-!
# What a layout enters in the journal

Collaborators are idle when they leave every text as it is: the code collaborator is missing or
fails whenever it is asked, and the style collaborator fails, is silent or hands the text back.
With idle collaborators a layout always does the same.  It gives the same text, and it makes the
same entries in the journal in the same order: the calls, and the blocks that are nested too deep.
What the collaborators answer shows in the warnings and nowhere else.

* `Entry` is one entry, and `Journal.enter` says what it does to a journal;
* `Enters` says that a computation gives a value and makes entries, whoever the idle collaborators
  are;
* `Steady` says that there are such a value and such entries, none of them about a line of the
  document.

Results.  `Steady.bind`: steady computations can be put one behind the other.
`steady_formatMarkup`: the layout of markup is steady, at every depth.
-/

namespace RazorLayout

section Entries

/-- A call of a collaborator. -/
inductive Call where
  | code (line : Option Int) (text : Text)
  | style (text : Text) (size : Nat)
  deriving DecidableEq, Repr

/-- One entry in the journal. -/
inductive Entry where
  | asks (call : Call)
  | tooDeep (limit : Nat)
  | documentRead (lines regions : Nat)
  deriving DecidableEq, Repr

namespace Entry

/-- The line of the document that an entry is about. -/
def line? : Entry → Option Int
  | asks (.code line _) => line
  | _ => none

end Entry

namespace Journal

/-- The journal with one more entry. -/
def enter (c : Collaborators) (j : Journal) : Entry → Journal
  | .asks (.code line text) => ((c.askCode line text).run j).2
  | .asks (.style text size) => ((c.askStyle text size).run j).2
  | .tooDeep limit => (j.log (.tooDeep limit)).warn (.tooDeep limit)
  | .documentRead lines regions => j.log (.documentRead lines regions)

/-- The journal with more entries. -/
def enterAll (c : Collaborators) (j : Journal) (entries : List Entry) : Journal :=
  entries.foldl (enter c) j

theorem enterAll_append (c : Collaborators) (j : Journal) (entries more : List Entry) :
    j.enterAll c (entries ++ more) = (j.enterAll c entries).enterAll c more :=
  List.foldl_append

end Journal

end Entries

section Idleness

/-- A code collaborator that is asked has failed: it broke off, it reported an error, or it has no
output. -/
def codeFailed : Except Fault CodeAnswer → Bool
  | .error _ => true
  | .ok answer => answer.error.isSome || answer.output.isNone

/-- The failure of a code collaborator in words. -/
def failureText : Except Fault CodeAnswer → Text
  | .error fault => fault.text
  | .ok answer => answer.error.getD "code formatter returned no output".toList

theorem codeVerdict_of_codeFailed {answer : Except Fault CodeAnswer}
    (h : codeFailed answer = true) : codeVerdict answer = .error (failureText answer) := by
  match answer, h with
  | .error _, _ => rfl
  | .ok ⟨_, some _⟩, _ => rfl
  | .ok ⟨none, none⟩, _ => rfl

namespace Collaborators

/-- The collaborators leave every text as it is. -/
structure Idle (c : Collaborators) : Prop where
  code : ∀ code, c.code = some code → ∀ calls text, codeFailed (code calls text) = true
  style : ∀ calls text size output, c.style calls text size = .ok (some output) → output = text

theorem idle_standard : Idle {} where
  code := by
    intro code h
    cases h
  style := by
    intro calls text size output h
    cases h
    rfl

variable {c : Collaborators}

theorem Idle.askCode_run (h : c.Idle) (line : Option Int) (text : Text) (j : Journal) :
    (c.askCode line text).run j = (none, j.enter c (.asks (.code line text))) := by
  cases hcode : c.code with
  | none => simp [Journal.enter, askCode, hcode, StateT.run]
  | some code =>
      have hverdict := codeVerdict_of_codeFailed (h.code code hcode j.calls text)
      simp [Journal.enter, askCode, hcode, hverdict, StateT.run]

theorem Idle.askStyle_run (h : c.Idle) (text : Text) (size : Nat) (j : Journal) :
    (c.askStyle text size).run j = (text, j.enter c (.asks (.style text size))) := by
  have hstyle := h.style j.calls text size
  have hoff : ((c.askStyle text size).run j).1 = text := by
    simp only [askStyle, StateT.run]
    split
    · rename_i output heq
      exact hstyle output heq
    · rfl
    · rfl
  exact Prod.ext hoff rfl

end Collaborators

end Idleness

section Computations

variable {α β : Type}

/-- Whoever the idle collaborators are, the computation gives this value and makes these entries. -/
def Enters (m : Collaborators → Journaled α) (a : α) (entries : List Entry) : Prop :=
  ∀ c : Collaborators, c.Idle → ∀ j, (m c).run j = (a, j.enterAll c entries)

theorem enters_pure (a : α) : Enters (fun _ => pure a) a [] :=
  fun _ _ _ => rfl

theorem Enters.bind {m : Collaborators → Journaled α} {f : Collaborators → α → Journaled β} {a : α}
    {b : β} {entries more : List Entry} (hm : Enters m a entries)
    (hf : Enters (fun c => f c a) b more) :
    Enters (fun c => m c >>= f c) b (entries ++ more) := by
  intro c hc j
  have hrun : ((m c) >>= (f c)).run j = (f c ((m c).run j).1).run ((m c).run j).2 := rfl
  rw [hrun, hm c hc j, hf c hc, Journal.enterAll_append]

theorem enters_askCode (line : Option Int) (text : Text) :
    Enters (fun c => c.askCode line text) none [.asks (.code line text)] :=
  fun _ hc j => hc.askCode_run line text j

theorem enters_askStyle (text : Text) (size : Nat) :
    Enters (fun c => c.askStyle text size) text [.asks (.style text size)] :=
  fun _ hc j => hc.askStyle_run text size j

/-- Whoever the idle collaborators are, the computation gives one value and makes the same entries,
none of them about a line of the document. -/
def Steady (m : Collaborators → Journaled α) : Prop :=
  ∃ a entries, Enters m a entries ∧ ∀ entry ∈ entries, entry.line? = none

theorem steady_pure (a : α) : Steady fun _ => pure a :=
  ⟨a, [], enters_pure a, by simp⟩

theorem Steady.bind {m : Collaborators → Journaled α} {f : Collaborators → α → Journaled β}
    (hm : Steady m) (hf : ∀ a, Steady fun c => f c a) : Steady fun c => m c >>= f c := by
  obtain ⟨a, entries, henters, hlines⟩ := hm
  obtain ⟨b, more, hmore, hmoreLines⟩ := hf a
  exact ⟨b, entries ++ more, henters.bind hmore, List.forall_mem_append.2 ⟨hlines, hmoreLines⟩⟩

theorem steady_askCode (text : Text) : Steady fun c => c.askCode none text :=
  ⟨none, _, enters_askCode none text, by simp [Entry.line?]⟩

theorem steady_askStyle (text : Text) (size : Nat) : Steady fun c => c.askStyle text size :=
  ⟨text, _, enters_askStyle text size, by simp [Entry.line?]⟩

end Computations

namespace Context

section Bodies

variable {format : Collaborators → Text → Journaled Text}
variable (hformat : ∀ text, Steady fun c => format c text)
include hformat

theorem steady_bodyLines (lead body : Text) : Steady fun c => bodyLines (format c) lead body := by
  by_cases hblank : Text.isBlankText (Text.dedent body) = true
  · simp only [bodyLines, if_pos hblank]
    exact steady_pure _
  · simp only [bodyLines, if_neg hblank]
    exact (hformat _).bind fun laidOut => steady_pure _

theorem steady_sectionLines (lead content : Text) :
    Steady fun c => sectionLines (format c) lead content := by
  simp only [sectionLines]
  split
  · exact steady_bodyLines hformat lead content
  · exact (steady_bodyLines hformat lead _).bind fun lines => steady_pure _

theorem steady_switchLines (lead unit : Text) (cases : List SwitchCase) :
    Steady fun c => switchLines (format c) lead unit cases := by
  induction cases with
  | nil => exact steady_pure _
  | cons first cases ih =>
      simp only [switchLines]
      exact (steady_sectionLines hformat _ _).bind fun lines => ih.bind fun rest => steady_pure _

theorem steady_clauseLines (indent unit : Text) (clauses : List Clause) :
    Steady fun c => clauseLines (format c) indent unit clauses := by
  induction clauses with
  | nil => exact steady_pure _
  | cons clause clauses ih =>
      simp only [clauseLines]
      exact (steady_bodyLines hformat _ _).bind fun lines => ih.bind fun rest => steady_pure _

end Bodies

section Blocks

variable (config : Config) (nested : Option (Collaborators → Text → Journaled Text))

/-- The context of a layout with these collaborators. -/
def withCollaborators (c : Collaborators) : Context :=
  ⟨config, c, nested.map fun format => format c⟩

variable {format : Collaborators → Text → Journaled Text}

theorem steady_codeLines (hformat : ∀ text, Steady fun c => format c text) (indent body : Text) :
    Steady fun c => (withCollaborators config nested c).codeLines (format c) indent body := by
  refine (steady_askCode body).bind fun answer => ?_
  cases answer with
  | none =>
      exact (steady_bodyLines hformat (indent ++ config.unit) body).bind fun lines => steady_pure _
  | some output =>
      exact steady_pure ((indent ++ "@\x7b".toList) ::
        Text.reindent (indent ++ config.unit) output ++ [indent ++ ['}']])

theorem steady_plainFlowLines (hformat : ∀ text, Steady fun c => format c text) (indent : Text)
    (f : Flow) :
    Steady fun c => (withCollaborators config nested c).plainFlowLines (format c) indent f :=
  (steady_bodyLines hformat (indent ++ config.unit) f.body).bind fun _ =>
    (steady_clauseLines hformat indent config.unit f.clauses).bind fun _ => steady_pure _

theorem steady_flowLines (hformat : ∀ text, Steady fun c => format c text) (indent : Text)
    (f : Flow) :
    Steady fun c => (withCollaborators config nested c).flowLines (format c) indent f := by
  simp only [flowLines]
  split
  · exact (steady_switchLines hformat (indent ++ config.unit) config.unit _).bind
      fun lines => steady_pure _
  · exact steady_plainFlowLines config nested hformat indent f

variable {nested : Option (Collaborators → Text → Journaled Text)}
variable (hnested : ∀ format ∈ nested, ∀ text, Steady fun c => format c text)
include hnested

theorem steady_blockLines (indent raw : Text) :
    Steady fun c => (withCollaborators config nested c).blockLines indent raw := by
  cases nested with
  | none => exact ⟨_, [.tooDeep config.maxDepth], fun c hc j => rfl, by simp [Entry.line?]⟩
  | some format =>
      have hformat := hnested format rfl
      simp only [blockLines, withCollaborators, Option.map_some]
      split
      · exact steady_codeLines config (some format) hformat indent _
      · exact steady_flowLines config (some format) hformat indent _
      · exact steady_pure _

end Blocks

section Placing

variable (config : Config) {nested : Option (Collaborators → Text → Journaled Text)}

theorem steady_preservedLines (indent : Text) (tag : Tag) (content : Text) :
    Steady fun c => (withCollaborators config nested c).preservedLines indent tag content := by
  by_cases hstyle : Text.lower tag.name = styleElement ∧ config.style.enabled = true ∧
      Text.stripEnd (Text.dedent content) ≠ []
  · have hasks : ∀ c, (withCollaborators config nested c).preservedLines indent tag content =
        c.askStyle (Text.stripEnd (Text.dedent content)) config.styleIndentSize >>= fun output =>
          pure ((indent ++ tag.printInline .opening) ::
            Text.reindent (indent ++ Text.spaces config.styleIndentSize) output ++
              [indent ++ closingTag tag.name]) := fun c => if_pos hstyle
    simp only [hasks]
    exact (steady_askStyle _ _).bind fun output => steady_pure _
  · have hkeeps : ∀ c, (withCollaborators config nested c).preservedLines indent tag content =
        pure [indent ++ tag.printInline .opening ++ content ++ closingTag tag.name] :=
      fun c => if_neg hstyle
    simp only [hkeeps]
    exact steady_pure _

variable (hnested : ∀ format ∈ nested, ∀ text, Steady fun c => format c text)
include hnested

/-- Only preserved elements and blocks make entries. -/
theorem steady_place (page : Page) (item : Item) :
    Steady fun c => (withCollaborators config nested c).place page item := by
  -- The other items ask nobody, and of the context they use the configuration only.
  have hpure : (∀ c, (withCollaborators config nested c).place page item =
      pure (((withCollaborators config none {}).place page item).run {}).1) →
      Steady fun c => (withCollaborators config nested c).place page item := by
    intro hplace
    simp only [hplace]
    exact steady_pure _
  cases item with
  | preserved tag content =>
      exact (steady_preservedLines config (page.beforeTag.indent config) tag content).bind
        fun lines => steady_pure (page.beforeTag.write lines)
  | block raw =>
      let spaced : Page := { page.gapIf (!page.justOpened) with justOpened := false }
      exact (steady_blockLines config hnested (spaced.indent config) raw).bind
        fun lines => steady_pure { spaced.write lines with afterBlock := true }
  | text raw =>
      apply hpure
      intro c
      simp only [place]
      split <;> rfl
  | inline tag content => exact hpure fun c => rfl
  | openTag tag => exact hpure fun c => rfl
  | selfClosingTag tag => exact hpure fun c => rfl
  | closeTag name => exact hpure fun c => rfl
  | comment raw => exact hpure fun c => rfl
  | doctype raw => exact hpure fun c => rfl
  | directive raw => exact hpure fun c => rfl

theorem steady_placeAll (page : Page) (items : List Item) :
    Steady fun c => (withCollaborators config nested c).placeAll page items := by
  induction items generalizing page with
  | nil => exact steady_pure page
  | cons item items ih => exact (steady_place config hnested page item).bind fun placed => ih placed

theorem steady_layout (tokens : List Token) :
    Steady fun c => (withCollaborators config nested c).layout tokens :=
  steady_placeAll config hnested {} (Item.ofTokens tokens)

end Placing

end Context

section Nesting

/-- The layout of markup inside a block, for all collaborators at once. -/
def nestedFormat (config : Config) : Nat → Option (Collaborators → Text → Journaled Text)
  | 0 => none
  | n + 1 => some fun c text => do
      let page ← Context.layout (.withCollaborators config (nestedFormat config n) c)
        (tokenize text)
      pure page.sheet.text

theorem map_nestedFormat (config : Config) (c : Collaborators) (n : Nat) :
    (nestedFormat config n).map (fun format => format c) = formatWithin config c n := by
  induction n with
  | zero => rfl
  | succ n ih => simp [nestedFormat, formatWithin, Context.withCollaborators, ih]

theorem steady_nestedFormat (config : Config) (n : Nat) :
    ∀ format ∈ nestedFormat config n, ∀ text, Steady fun c => format c text := by
  induction n with
  | zero => simp [nestedFormat]
  | succ n ih =>
      rintro format hformat text
      cases hformat
      exact (Context.steady_layout config ih _).bind fun page => steady_pure _

/-- The layout of markup is the same with all idle collaborators. -/
theorem steady_formatMarkup (config : Config) (depth : Nat) (text : Text) :
    Steady fun c => formatMarkup config c depth text := by
  have hsteady := Context.steady_layout config
    (steady_nestedFormat config (config.maxDepth - depth)) (tokenize text)
  simp only [Context.withCollaborators, map_nestedFormat] at hsteady
  exact hsteady.bind fun page => steady_pure _

end Nesting

end RazorLayout
