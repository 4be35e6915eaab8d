import RazorLayout.Layout.Markup

/-!
# Forests

A template that is well formed is a forest: elements with children, tags that are whole elements,
texts, and control-flow blocks whose bodies are forests again.

* `Forest` is the type, `Chain` the clauses behind the body of a block;
* `Forest.isClean` says which forests can be written down without ambiguity, `Forest.isRegular`
  which ones can be when values run over several lines;
* `Forest.source` writes a forest on one line, `Spacing` being how far apart the parts of a head
  stand;
* `Forest.read?` reads a forest back from any text.

Reading goes from the end of the text to its front, so that a closing tag is met before the tag
that it closes.  Blanks around texts do not count: `Forest.trimmed` is the forest without them.
-/

namespace RazorLayout

section Data

/-- The head of a control-flow block. -/
structure FlowHead where
  keyword : Keyword
  /-- The name of a section. -/
  name : Option Text := none
  /-- What stands between the parentheses behind the keyword. -/
  condition : Option Text := none
  deriving DecidableEq, Repr

mutual

/-- Siblings, in order. -/
inductive Forest where
  | nil
  | text (content : Text) (rest : Forest)
  | element (tag : Tag) (children rest : Forest)
  | selfClosing (tag : Tag) (rest : Forest)
  | flow (head : FlowHead) (body : Forest) (chain : Chain) (rest : Forest)

/-- The clauses behind the body of a block. -/
inductive Chain where
  | nil
  | clause (head : ClauseHead) (body : Forest) (rest : Chain)

end

deriving instance DecidableEq, Repr for Forest, Chain

end Data

section Clean

/-- A character that has no meaning of its own in a text: it starts no construct, belongs to no
group and ends no line. -/
def isPlainChar (c : Char) : Bool :=
  !(['\n', '<', '@', '{', '}', '(', ')', '"', '\''].contains c)

/-- A text that is a leaf: it is not blank and has plain characters only. -/
def isLeafText (content : Text) : Bool :=
  !content.isBlankText && content.all isPlainChar

/-- A name of a tag: a letter and name characters. -/
def isTagName : Text → Bool
  | [] => false
  | c :: cs => c.isAlpha && cs.all isNameChar

/-- A name of an attribute: name characters, with or without a sigil in front. -/
def isAttributeName (name : Text) : Bool :=
  !(Attribute.splitSigil name).2.isEmpty && (Attribute.splitSigil name).2.all isNameChar

/-- A character of a value that is written between quotes. -/
def isValueChar (c : Char) : Bool :=
  !(['"', '\'', '\\', '@'].contains c)

/-- A bare attribute, or one with a value between quotes. -/
def Attribute.isReadable (a : Attribute) : Bool :=
  isAttributeName a.name &&
    (match a.value with
      | none => a.quote.isNone
      | some value => (a.quote == some ['"'] || a.quote == some ['\'']) && value.all isValueChar)

/-- A readable attribute with its value on one line. -/
def Attribute.isClean (a : Attribute) : Bool :=
  a.isReadable && a.value.all fun value => !value.isMultiline

/-- A readable attribute with no line that is empty or ends in a carriage return. -/
def Attribute.isRegular (a : Attribute) : Bool :=
  a.isReadable && (Text.lines a.render).all fun line => line.getLast?.any (· != '\r')

/-- A tag with a proper name and readable attributes. -/
def Tag.isReadable (tag : Tag) : Bool :=
  isTagName tag.name && tag.attributes.all Attribute.isReadable

/-- A tag with a proper name and clean attributes. -/
def Tag.isClean (tag : Tag) : Bool :=
  isTagName tag.name && tag.attributes.all Attribute.isClean

/-- A tag with a proper name and regular attributes. -/
def Tag.isRegular (tag : Tag) : Bool :=
  isTagName tag.name && tag.attributes.all Attribute.isRegular

/-- Whether the parentheses of a text match, with `depth` of them open in front. -/
def isBalanced : Nat → Text → Bool
  | depth, [] => depth == 0
  | depth, c :: cs =>
      if c = '(' then isBalanced (depth + 1) cs
      else if c = ')' then
        match depth with
        | 0 => false
        | depth + 1 => isBalanced depth cs
      else isBalanced depth cs

/-- A character of a condition. -/
def isConditionChar (c : Char) : Bool :=
  !(['\n', '"', '\'', '{', '}'].contains c)

/-- A condition on one line whose parentheses match. -/
def isCondition (condition : Text) : Bool :=
  condition.all isConditionChar && isBalanced 0 condition

/-- An identifier. -/
def isIdentifier : Text → Bool
  | [] => false
  | c :: cs => isIdentifierStart c && cs.all isIdentifierChar

/-- The keywords whose blocks hold markup and nothing but clauses behind it. -/
def Keyword.isMarkupBlock (keyword : Keyword) : Bool :=
  [ifBlock, forLoop, foreachLoop, whileLoop, lockBlock, tryBlock, usingBlock,
    sectionBlock].contains keyword

/-- A head whose parts fit its keyword: a section has a name and no condition, and a resource block
has a condition. -/
def FlowHead.isClean (head : FlowHead) : Bool :=
  head.keyword.isMarkupBlock &&
    (if head.keyword = .sectionBlock then
      head.name.any isIdentifier && head.condition.isNone
    else
      head.name.isNone && head.condition.all isCondition &&
        (head.keyword != .usingBlock || head.condition.isSome))

/-- The words of a clause. -/
def ClauseHead.words : ClauseHead → Text
  | elseIf _ => elseIfWords
  | otherwise => elseWord
  | handler _ => catchWord
  | cleanup => finallyWord

/-- The condition of a clause, where it has one. -/
def ClauseHead.condition? : ClauseHead → Option Text
  | elseIf condition => some condition
  | otherwise => none
  | handler condition => condition
  | cleanup => none

/-- A clause whose condition is clean. -/
def ClauseHead.isClean (head : ClauseHead) : Bool :=
  head.condition?.all isCondition

/-- Whether the first sibling is a text. -/
def Forest.startsWithText : Forest → Bool
  | .text _ _ => true
  | _ => false

mutual

/-- A forest that can be written down without ambiguity. -/
def Forest.isClean : Forest → Bool
  | .nil => true
  | .text content rest => isLeafText content && !rest.startsWithText && rest.isClean
  | .element tag children rest =>
      tag.isClean && !isVoidName tag.name && !isPreservedName tag.name && children.isClean &&
        rest.isClean
  | .selfClosing tag rest => tag.isClean && rest.isClean
  | .flow head body chain rest => head.isClean && body.isClean && chain.isClean && rest.isClean

/-- Clauses with clean heads and clean bodies. -/
def Chain.isClean : Chain → Bool
  | .nil => true
  | .clause head body rest => head.isClean && body.isClean && rest.isClean

end

/-- A forest that can be written down when values run over several lines.  The bodies of its blocks
are clean. -/
def Forest.isRegular : Forest → Bool
  | .nil => true
  | .text content rest => isLeafText content && !rest.startsWithText && rest.isRegular
  | .element tag children rest =>
      tag.isRegular && !isVoidName tag.name && !isPreservedName tag.name && children.isRegular &&
        rest.isRegular
  | .selfClosing tag rest => tag.isRegular && rest.isRegular
  | .flow head body chain rest => head.isClean && body.isClean && chain.isClean && rest.isRegular

section Parts

variable {content : Text} {tag : Tag} {head : FlowHead} {clauseHead : ClauseHead}
variable {children body rest : Forest} {chain others : Chain}

attribute [local simp] Forest.isClean Chain.isClean Forest.isRegular

theorem Forest.isClean_text : (Forest.text content rest).isClean = true ↔
    isLeafText content = true ∧ rest.startsWithText = false ∧ rest.isClean = true := by
  simp [and_assoc]

theorem Forest.isClean_element : (Forest.element tag children rest).isClean = true ↔
    tag.isClean = true ∧ isVoidName tag.name = false ∧ isPreservedName tag.name = false ∧
      children.isClean = true ∧ rest.isClean = true := by
  simp [and_assoc]

theorem Forest.isClean_selfClosing : (Forest.selfClosing tag rest).isClean = true ↔
    tag.isClean = true ∧ rest.isClean = true := by
  simp

theorem Forest.isClean_flow : (Forest.flow head body chain rest).isClean = true ↔
    head.isClean = true ∧ body.isClean = true ∧ chain.isClean = true ∧ rest.isClean = true := by
  simp [and_assoc]

theorem Forest.isRegular_text : (Forest.text content rest).isRegular = true ↔
    isLeafText content = true ∧ rest.startsWithText = false ∧ rest.isRegular = true := by
  simp [and_assoc]

theorem Forest.isRegular_element : (Forest.element tag children rest).isRegular = true ↔
    tag.isRegular = true ∧ isVoidName tag.name = false ∧ isPreservedName tag.name = false ∧
      children.isRegular = true ∧ rest.isRegular = true := by
  simp [and_assoc]

theorem Forest.isRegular_selfClosing : (Forest.selfClosing tag rest).isRegular = true ↔
    tag.isRegular = true ∧ rest.isRegular = true := by
  simp

theorem Forest.isRegular_flow : (Forest.flow head body chain rest).isRegular = true ↔
    head.isClean = true ∧ body.isClean = true ∧ chain.isClean = true ∧ rest.isRegular = true := by
  simp [and_assoc]

theorem Chain.isClean_clause : (Chain.clause clauseHead body others).isClean = true ↔
    clauseHead.isClean = true ∧ body.isClean = true ∧ others.isClean = true := by
  simp [and_assoc]

end Parts

end Clean

section Writing

/-- How many spaces stand at the places where a line may do without any. -/
structure Spacing where
  /-- In front of a condition. -/
  condition : Nat := 0
  /-- In front of an opening brace. -/
  brace : Nat := 0
  /-- In front of a clause. -/
  clause : Nat := 0
  /-- In front of the slash of a tag that is a whole element. -/
  slash : Nat := 0
  deriving DecidableEq, Repr

variable (spacing : Spacing)

/-- The tag with its attributes, up to its ending. -/
def Tag.stem (tag : Tag) : Text :=
  '<' :: tag.name ++ tag.attributes.flatMap fun a => ' ' :: a.render

/-- What stands between the words of a head and its opening brace. -/
def Spacing.conditionText : Option Text → Text
  | none => Text.spaces spacing.brace
  | some condition =>
      Text.spaces spacing.condition ++ parenthesised condition ++ Text.spaces spacing.brace

/-- The words of a head: its sigil and keyword, and the name of a section. -/
def FlowHead.words (head : FlowHead) : Text :=
  sigil :: head.keyword.text ++
    (match head.name with
      | none => []
      | some name => ' ' :: name)

mutual

/-- The forest on one line. -/
def Forest.source : Forest → Text
  | .nil => []
  | .text content rest => content ++ rest.source
  | .element tag children rest =>
      tag.stem ++ '>' :: children.source ++ Context.closingTag tag.name ++ rest.source
  | .selfClosing tag rest =>
      tag.stem ++ Text.spaces spacing.slash ++ '/' :: '>' :: rest.source
  | .flow head body chain rest =>
      head.words ++ spacing.conditionText head.condition ++ '{' :: body.source ++
        '}' :: chain.source ++ rest.source

/-- The clauses on one line. -/
def Chain.source : Chain → Text
  | .nil => []
  | .clause head body rest =>
      Text.spaces spacing.clause ++ head.words ++ spacing.conditionText head.condition? ++
        '{' :: body.source ++ '}' :: rest.source

end

end Writing

section Trimming

mutual

/-- The forest with its texts trimmed. -/
def Forest.trimmed : Forest → Forest
  | .nil => .nil
  | .text content rest => .text (Text.strip content) rest.trimmed
  | .element tag children rest => .element tag children.trimmed rest.trimmed
  | .selfClosing tag rest => .selfClosing tag rest.trimmed
  | .flow head body chain rest => .flow head body.trimmed chain.trimmed rest.trimmed

/-- The clauses with the texts of their bodies trimmed. -/
def Chain.trimmed : Chain → Chain
  | .nil => .nil
  | .clause head body rest => .clause head body.trimmed rest.trimmed

end

end Trimming

section Reading

/-- Where the reading of a forest stands: the siblings behind, and for every element that encloses
them the name of its closing tag and what stands behind that tag. -/
structure Reading where
  siblings : Forest := .nil
  enclosing : List (Text × Forest) := []

/-- The clauses of a block, each body read by `readBody`. -/
def Chain.ofClauses? (readBody : Text → Option Forest) : List Clause → Option Chain
  | [] => some .nil
  | c :: clauses => do
      let body ← readBody c.body
      let rest ← Chain.ofClauses? readBody clauses
      pure (.clause c.head body rest)

/-- The block in front of `rest`, each body read by `readBody`.  The test of a loop that tests last
has no place in a forest. -/
def Forest.ofFlow? (readBody : Text → Option Forest) (f : Flow) (rest : Forest) :
    Option Forest := do
  let body ← readBody f.body
  let chain ← Chain.ofClauses? readBody f.clauses
  if f.loopTest.isNone then pure (.flow ⟨f.keyword, f.name, f.condition⟩ body chain rest) else none

/-- One token more, in front of what has been read. -/
def Reading.step (readBody : Text → Option Forest) (t : Token) (r : Reading) : Option Reading :=
  match t.kind with
  | .text =>
      if Text.isBlankText t.raw then some r
      else some { r with siblings := .text (Text.strip t.raw) r.siblings }
  | .selfClosingTag tag => some { r with siblings := .selfClosing tag r.siblings }
  | .closeTag name => some ⟨.nil, (name, r.siblings) :: r.enclosing⟩
  | .openTag tag =>
      match r.enclosing with
      | [] => none
      | (name, behind) :: enclosing =>
          if name = tag.name then some ⟨.element tag r.siblings behind, enclosing⟩ else none
  | .block =>
      match Block.read? t.raw with
      | some (.flow f, []) =>
          (Forest.ofFlow? readBody f r.siblings).map fun siblings => { r with siblings }
      | _ => none
  | _ => none

/-- Tokens read from the last to the first. -/
def Reading.ofTokens? (readBody : Text → Option Forest) : List Token → Option Reading
  | [] => some {}
  | t :: ts => (Reading.ofTokens? readBody ts).bind (Reading.step readBody t)

/-- The forest that is left when no element is open. -/
def Reading.forest? (r : Reading) : Option Forest :=
  match r.enclosing with
  | [] => some r.siblings
  | _ :: _ => none

/-- The forest that a text stands for. -/
def Forest.read? (t : Text) : Option Forest :=
  (Reading.ofTokens? (fun body => if body.length < t.length then Forest.read? body else none)
    (tokenize t)).bind Reading.forest?
  termination_by t.length

end Reading

end RazorLayout
