import RazorLayout.Layout.Markup

/-!
# The clauses of a block

A control-flow block is a list of parts, each with a head and a body: the block's own head and body
first, then those of its clauses.  Printed in full, every part has its head and its braces on lines
of their own at the indentation of the block, and the test of a loop stands behind the last brace.

The layout prints a block in full, with one exception.  A switch that is cut into sections ends with
its own brace, and the clauses that the reader has taken in behind it are lost.

* `partsLines` is a list of parts printed in full;
* `Context.mainLines` is the body of the block's own part, section by section where it has sections.

Results.  `clauseLines_run`: clauses are printed part by part.  `flowLines_run_of_plain` and
`flowLines_run_of_sections`: what the layout of a block prints without sections and with them.
`partsLines_sublist_blockLines_iff`: when a block is printed in full.
-/

namespace RazorLayout

section Parts

/-- A head and the lines of the body behind it. -/
structure Part where
  head : Text
  body : List Text
  deriving DecidableEq, Repr

/-- A part between its braces, with `tail` behind the closing one. -/
def Part.lines (indent tail : Text) (part : Part) : List Text :=
  (indent ++ part.head) :: (indent ++ ['{']) :: part.body ++ [indent ++ '}' :: tail]

/-- Parts in order, with `tail` behind the last closing brace. -/
def partsLines (indent tail : Text) : List Part → List Text
  | [] => []
  | [part] => part.lines indent tail
  | part :: next :: parts => part.lines indent [] ++ partsLines indent tail (next :: parts)

/-- The parts of clauses whose bodies have these lines. -/
def clauseParts (clauses : List Clause) (bodies : List (List Text)) : List Part :=
  List.zipWith (fun clause body => ⟨clause.head.text, body⟩) clauses bodies

/-- The test of a loop as it stands behind the last brace. -/
def loopTail : Option Text → Text
  | none => []
  | some condition => ' ' :: Flow.loopTestText condition ++ [';']

/-- Without a tail the parts are printed one by one. -/
theorem partsLines_nil (indent : Text) (parts : List Part) :
    partsLines indent [] parts = parts.flatMap (Part.lines indent []) := by
  fun_induction partsLines indent [] parts with
  | case1 => rfl
  | case2 part => simp
  | case3 part next parts ih => rw [ih, ← List.flatMap_cons]

/-- A loop test takes the place of the last brace. -/
theorem withLoopTest_partsLines (indent : Text) (loopTest : Option Text) (part : Part)
    (parts : List Part) :
    Context.withLoopTest indent loopTest (partsLines indent [] (part :: parts)) =
      partsLines indent (loopTail loopTest) (part :: parts) := by
  cases loopTest with
  | none => rfl
  | some condition =>
      -- The last line is the closing brace of the last part.
      have hlast : ∀ part parts, ∃ front, ∀ tail,
          partsLines indent tail (part :: parts) = front ++ [indent ++ '}' :: tail] := by
        intro part parts
        induction parts generalizing part with
        | nil => exact ⟨_, fun tail => rfl⟩
        | cons next parts ih =>
            obtain ⟨front, hfront⟩ := ih next
            refine ⟨part.lines indent [] ++ front, fun tail => ?_⟩
            rw [partsLines, hfront, List.append_assoc]
      obtain ⟨front, hfront⟩ := hlast part parts
      simp [Context.withLoopTest, hfront, loopTail]

/-- The first of several parts does not hold all of them: it has fewer lines. -/
theorem not_partsLines_sublist_lines (indent : Text) (first next : Part) (parts : List Part) :
    ¬ (partsLines indent [] (first :: next :: parts)).Sublist (first.lines indent []) := by
  intro hsublist
  have hle := hsublist.length_le
  simp [partsLines_nil, Part.lines] at hle

end Parts

namespace Context

variable (format : Text → Journaled Text)

/-- The lines of a block's own body behind `lead`, section by section where it has sections. -/
def mainLines (lead unit : Text) (f : Flow) : Journaled (List Text) :=
  match sections? f with
  | some cases => switchLines format lead unit cases
  | none => bodyLines format lead f.body

/-- The lines of the bodies of clauses behind `lead`, one clause after the other. -/
def clauseBodies (lead : Text) (clauses : List Clause) : Journaled (List (List Text)) :=
  clauses.mapM fun clause => bodyLines format lead clause.body

theorem clauseBodies_cons_run (lead : Text) (clause : Clause) (clauses : List Clause)
    (j : Journal) :
    let first := (bodyLines format lead clause.body).run j
    let others := (clauseBodies format lead clauses).run first.2
    (clauseBodies format lead (clause :: clauses)).run j = (first.1 :: others.1, others.2) := by
  intro first others
  have hcons : clauseBodies format lead (clause :: clauses) = (do
      let body ← bodyLines format lead clause.body
      let bodies ← clauseBodies format lead clauses
      pure (body :: bodies)) := List.mapM_cons
  rw [hcons]
  rfl

/-- Clauses are printed part by part. -/
theorem clauseLines_run (indent unit : Text) (clauses : List Clause) (j : Journal) :
    let bodies := (clauseBodies format (indent ++ unit) clauses).run j
    (clauseLines format indent unit clauses).run j =
      (partsLines indent [] (clauseParts clauses bodies.1), bodies.2) := by
  induction clauses generalizing j with
  | nil => rfl
  | cons clause clauses ih =>
      intro bodies
      let first := (bodyLines format (indent ++ unit) clause.body).run j
      let others := (clauseBodies format (indent ++ unit) clauses).run first.2
      have hbodies : bodies = (first.1 :: others.1, others.2) :=
        clauseBodies_cons_run format (indent ++ unit) clause clauses j
      have hrun : (clauseLines format indent unit (clause :: clauses)).run j =
          (Part.lines indent [] ⟨clause.head.text, first.1⟩ ++
            ((clauseLines format indent unit clauses).run first.2).1,
            ((clauseLines format indent unit clauses).run first.2).2) := rfl
      rw [hrun, ih first.2, hbodies, partsLines_nil, partsLines_nil]
      rfl

/-- Only a switch has sections. -/
theorem keyword_of_sections? {f : Flow} {cases : List SwitchCase} (h : sections? f = some cases) :
    f.keyword = .switchBlock := by
  unfold sections? at h
  split at h
  · assumption
  · cases h

section Blocks

variable (config : Config) (c : Collaborators) (nested : Option (Text → Journaled Text))

/-- A block without sections is printed in full. -/
theorem flowLines_run_of_plain {f : Flow} (hsections : sections? f = none) (indent : Text)
    (j : Journal) :
    let main := (mainLines format (indent ++ config.unit) config.unit f).run j
    let bodies := (clauseBodies format (indent ++ config.unit) f.clauses).run main.2
    (flowLines ⟨config, c, nested⟩ format indent f).run j =
      (partsLines indent (loopTail f.loopTest)
        (⟨f.header, main.1⟩ :: clauseParts f.clauses bodies.1), bodies.2) := by
  intro main bodies
  have hmain : mainLines format (indent ++ config.unit) config.unit f =
      bodyLines format (indent ++ config.unit) f.body := by
    simp only [mainLines, hsections]
  have hrun : (flowLines ⟨config, c, nested⟩ format indent f).run j =
      (withLoopTest indent f.loopTest (Part.lines indent [] ⟨f.header, main.1⟩ ++
        ((clauseLines format indent config.unit f.clauses).run main.2).1),
        ((clauseLines format indent config.unit f.clauses).run main.2).2) := by
    simp only [flowLines, hsections, main, hmain]
    rfl
  rw [hrun, clauseLines_run, partsLines_nil, ← List.flatMap_cons, ← partsLines_nil,
    withLoopTest_partsLines]

/-- A block with sections is printed without what follows its own brace. -/
theorem flowLines_run_of_sections {f : Flow} {cases : List SwitchCase}
    (hsections : sections? f = some cases) (indent : Text) (j : Journal) :
    let main := (mainLines format (indent ++ config.unit) config.unit f).run j
    (flowLines ⟨config, c, nested⟩ format indent f).run j =
      (Part.lines indent [] ⟨f.header, main.1⟩, main.2) := by
  simp only [flowLines, mainLines, hsections]
  rfl

end Blocks

end Context

section Reading

/-- Only a loop that tests last has a test behind its body. -/
theorem loopTest_of_read? {raw rest : Text} {f : Flow}
    (h : Block.read? raw = some (.flow f, rest)) (hkeyword : f.keyword ≠ .doLoop) :
    f.loopTest = none := by
  unfold Block.read? at h
  split at h
  · obtain ⟨group, -, heq⟩ := Option.map_eq_some_iff.1 h
    cases heq
  · split at h <;> cases h
  · simp only [readKeywordBlock?, Option.bind_eq_bind, Option.bind_eq_some_iff, Prod.exists] at h
    obtain ⟨keyword, -, name, behindName, -, condition, behindCondition, -, body, behindBody, -,
      h⟩ := h
    split at h
    · cases h
    · cases h
      exact congrArg Prod.fst (if_neg hkeyword)
  · cases h

end Reading

section Completeness

/-- Below the limit the markup inside a block is laid out one level deeper. -/
theorem formatWithin_of_lt {config : Config} {depth : Nat} (h : depth < config.maxDepth)
    (c : Collaborators) :
    formatWithin config c (config.maxDepth - depth) = some (formatMarkup config c (depth + 1)) := by
  have hsucc : config.maxDepth - depth = config.maxDepth - (depth + 1) + 1 := by omega
  rw [hsucc]
  rfl

/-- What follows where a list is printed in full. -/
theorem sublist_iff_of_eq {full lines other : List Text} {P : Prop} (hP : P) (h : lines = full) :
    (full.Sublist lines ↔ P) ∧ (full.Sublist lines → lines = full) ∧
      (¬ full.Sublist lines → lines = other) := by
  have hsublist : full.Sublist lines := h ▸ List.Sublist.refl _
  exact ⟨iff_of_true hsublist hP, fun _ => h, fun hnot => absurd hsublist hnot⟩

/-- A control-flow block is printed in full, every clause with its head and its braces and the test
of a loop behind the last brace, exactly when it is no switch with sections or has no clauses.  A
switch with sections and clauses is printed without its clauses. -/
theorem partsLines_sublist_blockLines_iff (config : Config) (c : Collaborators) {depth : Nat}
    (hdepth : depth < config.maxDepth) {raw rest : Text} {f : Flow}
    (hread : Block.read? raw = some (.flow f, rest)) (indent : Text) (j : Journal) :
    let format := formatMarkup config c (depth + 1)
    let lead := indent ++ config.unit
    let main := (Context.mainLines format lead config.unit f).run j
    let bodies := (Context.clauseBodies format lead f.clauses).run main.2
    let first : Part := ⟨f.header, main.1⟩
    let full := partsLines indent (loopTail f.loopTest) (first :: clauseParts f.clauses bodies.1)
    let inner := formatWithin config c (config.maxDepth - depth)
    let lines := ((Context.blockLines ⟨config, c, inner⟩ indent raw).run j).1
    (full.Sublist lines ↔ Context.sections? f = none ∨ f.clauses = []) ∧
      (full.Sublist lines → lines = full) ∧
      (¬ full.Sublist lines → lines = first.lines indent []) := by
  intro format lead main bodies first full inner lines
  have hlines : lines = ((Context.flowLines ⟨config, c, inner⟩ format indent f).run j).1 := by
    simp only [lines, Context.blockLines, inner, formatWithin_of_lt hdepth, hread]
    rfl
  cases hsections : Context.sections? f with
  | none =>
      have hplain := Context.flowLines_run_of_plain format config c inner hsections indent j
      exact sublist_iff_of_eq (Or.inl rfl) (hlines.trans (congrArg Prod.fst hplain))
  | some cases =>
      have hswitch := Context.flowLines_run_of_sections format config c inner hsections indent j
      have hfirst : lines = first.lines indent [] := hlines.trans (congrArg Prod.fst hswitch)
      have htest : f.loopTest = none := by
        apply loopTest_of_read? hread
        simp [Context.keyword_of_sections? hsections]
      have hfull : full = partsLines indent [] (first :: clauseParts f.clauses bodies.1) := by
        simp only [full, htest, loopTail]
      rcases hclauses : f.clauses with _ | ⟨clause, clauses⟩
      · refine sublist_iff_of_eq (Or.inr rfl) ?_
        rw [hfirst, hfull, hclauses]
        rfl
      · obtain ⟨next, parts, hparts⟩ :
            ∃ next parts, clauseParts f.clauses bodies.1 = next :: parts := by
          simp only [bodies, hclauses, Context.clauseBodies_cons_run]
          exact ⟨_, _, rfl⟩
        have hshort : ¬ full.Sublist lines := by
          rw [hfirst, hfull, hparts]
          exact not_partsLines_sublist_lines indent first next parts
        exact ⟨iff_of_false hshort (by simp), fun h => absurd h hshort, fun _ => hfirst⟩

/-- The lines of a block at the top of a document, with the standard configuration and nobody to
help. -/
def topLines (raw : Text) : List Text :=
  let inner := formatWithin .standard {} Config.standard.maxDepth
  ((Context.blockLines ⟨.standard, {}, inner⟩ [] raw).run {}).1

/-- A loop with a clause and a test is printed in full.  A switch with a section ends with its own
brace. -/
theorem partsLines_sublist_blockLines_samples :
    let loop := "@do \x7b a \x7d finally \x7b b \x7d while (c);".toList
    let switch := "@switch (x) \x7b case 1: a \x7d else \x7b b \x7d".toList
    topLines loop = partsLines [] " while (c);".toList
        [⟨"@do".toList, ["    a".toList]⟩, ⟨"finally".toList, ["    b".toList]⟩] ∧
      topLines switch =
        Part.lines [] [] ⟨"@switch (x)".toList, ["    case 1:".toList, "        a".toList]⟩ := by
  intro loop switch
  have hdepth : 0 < Config.standard.maxDepth := by decide
  have hloop : Block.read? loop = some (.flow ⟨.doLoop, none, none, " a ".toList,
      [⟨.cleanup, " b ".toList⟩], some "c".toList⟩, []) := by
    decide +kernel
  have hswitch : Block.read? switch = some (.flow ⟨.switchBlock, none, some "x".toList,
      " case 1: a ".toList, [⟨.otherwise, " b ".toList⟩], none⟩, []) := by
    decide +kernel
  obtain ⟨hfull, hsame, -⟩ := partsLines_sublist_blockLines_iff .standard {} hdepth hloop [] {}
  obtain ⟨hcut, -, hdropped⟩ := partsLines_sublist_blockLines_iff .standard {} hdepth hswitch [] {}
  refine ⟨(hsame (hfull.2 (by decide +kernel))).trans ?_,
    (hdropped (mt hcut.1 (by decide +kernel))).trans ?_⟩
  · decide +kernel
  · decide +kernel

/-- The clause behind a switch is read, and it is not printed. -/
theorem blockLines_loses_clause :
    let raw := "@switch (x) \x7b case 1: <p>a</p> \x7d else \x7b <p>b</p> \x7d".toList
    Block.read? raw = some (.flow ⟨.switchBlock, none, some "x".toList, " case 1: <p>a</p> ".toList,
        [⟨.otherwise, " <p>b</p> ".toList⟩], none⟩, []) ∧
      topLines raw =
        ["@switch (x)", "\x7b", "    case 1:", "        <p>a</p>", "\x7d"].map String.toList ∧
      ¬ [ClauseHead.otherwise.text, ['{'], "    <p>b</p>".toList, ['}']].Sublist
        (topLines raw) := by
  decide +kernel

end Completeness

end RazorLayout
