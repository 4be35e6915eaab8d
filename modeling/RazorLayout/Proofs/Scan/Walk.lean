import RazorLayout.Scan.Group
import RazorLayout.Text.Basic

/-!
# Walking through a group

The scanner of a group is an automaton.  Its state is the number of nested groups and the state of
quoted runs, and it stops at the delimiter that closes the group.  A *walk* is a run of the automaton
over a text that does not reach this delimiter.

* `Delimiters.step?` is one step, and `Delimiters.walk?` a walk;
* `Delimiters.SameWalk` says that two texts lead from every proper state to the same one.

Results.  `splitGroup_eq_some_iff`: the content of a group is what leads from the start to the start
and has a closing delimiter behind it.  `sameWalk_of_isBlankText`: to a scanner of braces one blank
is as good as many, also in a quoted run.
-/

namespace RazorLayout

/-- Where a scanner stands in a group. -/
structure GroupState where
  /-- The number of nested groups that are open. -/
  depth : Nat := 0
  quotes : QuoteState := .outside
  deriving DecidableEq, Repr

namespace Delimiters

section Walks

variable {d : Delimiters} {state next : GroupState} {c : Char} {cs content rest : Text}

/-- The number of nested groups behind one more character, unless this closes the group.  Only
characters outside quoted runs count. -/
def depth? (d : Delimiters) (state : GroupState) (c : Char) : Option Nat :=
  if state.quotes ≠ .outside ∨ isQuote c = true then some state.depth
  else if d.opening = some c then some (state.depth + 1)
  else if d.closing = some c then
    match state.depth with
    | 0 => none
    | depth + 1 => some depth
  else some state.depth

/-- The state behind one more character, unless this closes the group. -/
def step? (d : Delimiters) (state : GroupState) (c : Char) : Option GroupState :=
  (d.depth? state c).map fun depth => ⟨depth, state.quotes.step c⟩

/-- The state behind a text, unless the group is closed in it. -/
def walk? (d : Delimiters) (state : GroupState) (cs : Text) : Option GroupState :=
  cs.foldlM d.step? state

@[simp] theorem walk?_nil (d : Delimiters) (state : GroupState) : d.walk? state [] = some state :=
  rfl

@[simp] theorem walk?_cons (d : Delimiters) (state : GroupState) (c : Char) (cs : Text) :
    d.walk? state (c :: cs) = (d.step? state c).bind fun next => d.walk? next cs :=
  rfl

theorem walk?_append (d : Delimiters) (state : GroupState) (s t : Text) :
    d.walk? state (s ++ t) = (d.walk? state s).bind fun next => d.walk? next t :=
  List.foldlM_append

/-- A group is closed at its own level and outside quoted runs. -/
theorem step?_eq_none_iff :
    d.step? state c = none ↔
      state = {} ∧ isQuote c = false ∧ d.opening ≠ some c ∧ d.closing = some c := by
  obtain ⟨depth, quotes⟩ := state
  rw [step?, Option.map_eq_none_iff, depth?]
  split
  · grind
  · split
    · grind
    · split
      · cases depth <;> grind
      · grind

/-- A scanner takes one step of the automaton, or stops. -/
theorem splitGroupFrom_cons (d : Delimiters) (state : GroupState) (c : Char) (cs : Text) :
    splitGroupFrom d state.depth state.quotes (c :: cs) =
      match d.step? state c with
      | none => some ([], cs)
      | some next =>
          (splitGroupFrom d next.depth next.quotes cs).map
            fun group => (c :: group.1, group.2) := by
  obtain ⟨depth, quotes⟩ := state
  cases quotes with
  | inside quote escaped => rfl
  | outside =>
      cases hquote : isQuote c with
      | true => simp [splitGroupFrom, step?, depth?, QuoteState.step, hquote]
      | false =>
          by_cases hopening : d.opening = some c
          · simp [splitGroupFrom, step?, depth?, QuoteState.step, hquote, hopening]
          · by_cases hclosing : d.closing = some c
            · cases depth <;>
                simp [splitGroupFrom, step?, depth?, QuoteState.step, hquote, hopening, hclosing]
            · simp [splitGroupFrom, step?, depth?, QuoteState.step, hquote, hopening, hclosing]

/-- A scanner that has walked through a text goes on behind it. -/
theorem splitGroupFrom_append (h : d.walk? state cs = some next) (rest : Text) :
    splitGroupFrom d state.depth state.quotes (cs ++ rest) =
      (splitGroupFrom d next.depth next.quotes rest).map
        fun group => (cs ++ group.1, group.2) := by
  induction cs generalizing state with
  | nil =>
      cases h
      simp
  | cons c cs ih =>
      obtain ⟨middle, hstep, hwalk⟩ := Option.bind_eq_some_iff.1 h
      rw [List.cons_append, splitGroupFrom_cons, hstep]
      simp only
      rw [ih hwalk, Option.map_map]
      rfl

/-- What a scanner reads is a walk up to the delimiter that closes the group. -/
theorem walk?_of_splitGroupFrom (state : GroupState)
    (h : splitGroupFrom d state.depth state.quotes cs = some (content, rest)) :
    ∃ close, d.step? {} close = none ∧ cs = content ++ close :: rest ∧
      d.walk? state content = some {} := by
  induction cs generalizing state content with
  | nil => cases h
  | cons c cs ih =>
      rw [splitGroupFrom_cons] at h
      cases hstep : d.step? state c with
      | none =>
          rw [hstep] at h
          cases h
          obtain rfl : state = {} := (step?_eq_none_iff.1 hstep).1
          exact ⟨c, hstep, rfl, rfl⟩
      | some next =>
          rw [hstep] at h
          obtain ⟨⟨inner, tail⟩, hinner, heq⟩ := Option.map_eq_some_iff.1 h
          cases heq
          obtain ⟨close, hclose, rfl, hwalk⟩ := ih next hinner
          exact ⟨close, hclose, rfl, by rw [walk?_cons, hstep]; exact hwalk⟩

/-- A scanner reads a walk to its end and stops behind the delimiter that closes the group there. -/
theorem splitGroupFrom_of_walk? {close : Char} (hwalk : d.walk? state content = some {})
    (hclose : d.step? {} close = none) (rest : Text) :
    splitGroupFrom d state.depth state.quotes (content ++ close :: rest) =
      some (content, rest) := by
  have hstop := splitGroupFrom_cons d {} close rest
  rw [hclose] at hstop
  rw [splitGroupFrom_append hwalk, hstop]
  simp

/-- The content of a group leads from the start to the start, and a closing delimiter follows. -/
theorem splitGroup_eq_some_iff :
    splitGroup d cs = some (content, rest) ↔
      ∃ close, d.step? {} close = none ∧ cs = content ++ close :: rest ∧
        d.walk? {} content = some {} := by
  constructor
  · exact walk?_of_splitGroupFrom {}
  · rintro ⟨close, hclose, rfl, hwalk⟩
    exact splitGroupFrom_of_walk? hwalk hclose rest

theorem splitGroup_braces_eq_some_iff :
    splitGroup .braces cs = some (content, rest) ↔
      cs = content ++ '}' :: rest ∧ braces.walk? {} content = some {} := by
  rw [splitGroup_eq_some_iff]
  constructor
  · rintro ⟨close, hclose, hcs, hwalk⟩
    obtain ⟨-, -, -, hbrace⟩ := step?_eq_none_iff.1 hclose
    cases hbrace
    exact ⟨hcs, hwalk⟩
  · rintro ⟨hcs, hwalk⟩
    exact ⟨'}', rfl, hcs, hwalk⟩

end Walks

end Delimiters

section Blanks

/-- A quoted run is one of a quote, as it is in every state that a scanner comes to. -/
def QuoteState.IsProper : QuoteState → Prop
  | outside => True
  | inside quote _ => isQuote quote = true

/-- The state with another character than a backslash in front. -/
def QuoteState.calm : QuoteState → QuoteState
  | outside => outside
  | inside quote _ => inside quote false

theorem QuoteState.IsProper.step {quotes : QuoteState} (h : quotes.IsProper) (c : Char) :
    (quotes.step c).IsProper := by
  cases quotes with
  | outside => by_cases hc : isQuote c = true <;> simp [QuoteState.step, IsProper, hc]
  | inside quote escaped =>
      rw [QuoteState.step]
      split
      · trivial
      · exact h

theorem QuoteState.IsProper.calm {quotes : QuoteState} (h : quotes.IsProper) :
    quotes.calm.IsProper := by
  cases quotes <;> exact h

@[simp] theorem QuoteState.calm_calm (quotes : QuoteState) : quotes.calm.calm = quotes.calm := by
  cases quotes <;> rfl

/-- A blank ends an escape and does nothing else. -/
theorem QuoteState.step_of_isBlank {quotes : QuoteState} (h : quotes.IsProper) {c : Char}
    (hc : isBlank c = true) : quotes.step c = quotes.calm := by
  have hquote : ∀ {quote : Char}, isQuote quote = true → c ≠ quote := by
    rintro quote hquote rfl
    simp only [isQuote, Bool.or_eq_true, beq_iff_eq] at hquote
    rcases hquote with rfl | rfl <;> cases hc
  cases quotes with
  | outside =>
      have hfree : isQuote c = false := Bool.eq_false_iff.2 fun hc => hquote hc rfl
      simp [QuoteState.step, QuoteState.calm, hfree]
  | inside quote escaped =>
      have hescape : c ≠ '\\' := by
        rintro rfl
        cases hc
      simp [QuoteState.step, QuoteState.calm, hquote h, hescape]

namespace Delimiters

variable {d : Delimiters} {state next : GroupState} {c : Char} {s t u v gap : Text}

/-- Two texts lead from every proper state to the same one. -/
def SameWalk (d : Delimiters) (s t : Text) : Prop :=
  ∀ state : GroupState, state.quotes.IsProper → d.walk? state s = d.walk? state t

theorem isProper_of_walk? (h : d.walk? state s = some next) (hstate : state.quotes.IsProper) :
    next.quotes.IsProper := by
  induction s generalizing state with
  | nil =>
      cases h
      exact hstate
  | cons c s ih =>
      obtain ⟨middle, hstep, hwalk⟩ := Option.bind_eq_some_iff.1 h
      obtain ⟨depth, -, rfl⟩ := Option.map_eq_some_iff.1 hstep
      exact ih hwalk (hstate.step c)

theorem SameWalk.refl (d : Delimiters) (s : Text) : d.SameWalk s s :=
  fun _ _ => rfl

theorem SameWalk.symm (h : d.SameWalk s t) : d.SameWalk t s :=
  fun state hstate => (h state hstate).symm

theorem SameWalk.trans (h : d.SameWalk s t) (h' : d.SameWalk t u) : d.SameWalk s u :=
  fun state hstate => (h state hstate).trans (h' state hstate)

theorem SameWalk.append (h : d.SameWalk s t) (h' : d.SameWalk u v) :
    d.SameWalk (s ++ u) (t ++ v) := by
  intro state hstate
  rw [walk?_append, walk?_append, h state hstate]
  exact Option.bind_congr fun next hnext => h' next (isProper_of_walk? hnext hstate)

theorem braces_step?_of_isBlank (hc : isBlank c = true) (hstate : state.quotes.IsProper) :
    braces.step? state c = some { state with quotes := state.quotes.calm } := by
  have hopening : braces.opening ≠ some c := by
    rintro ⟨⟩
    cases hc
  have hclosing : braces.closing ≠ some c := by
    rintro ⟨⟩
    cases hc
  simp [step?, depth?, hopening, hclosing, QuoteState.step_of_isBlank hstate hc]

theorem braces_walk?_of_isBlankText (hgap : Text.isBlankText gap = true) (hne : gap ≠ [])
    (hstate : state.quotes.IsProper) :
    braces.walk? state gap = some { state with quotes := state.quotes.calm } := by
  induction gap generalizing state with
  | nil => exact absurd rfl hne
  | cons c gap ih =>
      obtain ⟨hc, hrest⟩ := List.forall_mem_cons.1 (List.all_eq_true.1 hgap)
      rw [walk?_cons, braces_step?_of_isBlank hc hstate, Option.bind_some]
      cases gap with
      | nil => rfl
      | cons next gap =>
          rw [ih (List.all_eq_true.2 hrest) (List.cons_ne_nil next gap) hstate.calm,
            QuoteState.calm_calm]

/-- One blank is as good as many. -/
theorem sameWalk_of_isBlankText (hgap : Text.isBlankText gap = true) (hne : gap ≠ []) :
    braces.SameWalk gap ['\n'] := by
  intro state hstate
  rw [braces_walk?_of_isBlankText hgap hne hstate,
    braces_walk?_of_isBlankText rfl (List.cons_ne_nil _ _) hstate]

/-- Blanks behind a line feed, and so at the front of a line, do not matter. -/
theorem sameWalk_newline_append (hgap : Text.isBlankText gap = true) (t : Text) :
    braces.SameWalk ('\n' :: (gap ++ t)) ('\n' :: t) := by
  have hblank : braces.SameWalk ('\n' :: gap) ['\n'] :=
    sameWalk_of_isBlankText hgap (List.cons_ne_nil _ _)
  exact hblank.append (.refl _ t)

/-- Blanks in front of a line feed, and so at the end of a line, do not matter. -/
theorem sameWalk_append_newline (hgap : Text.isBlankText gap = true) (t : Text) :
    braces.SameWalk (t ++ gap ++ ['\n']) (t ++ ['\n']) := by
  have hblank : Text.isBlankText (gap ++ ['\n']) = true := by
    rw [Text.isBlankText, List.all_append, Bool.and_eq_true]
    exact ⟨hgap, rfl⟩
  rw [List.append_assoc]
  exact (SameWalk.refl _ t).append (sameWalk_of_isBlankText hblank (by simp))

end Delimiters

end Blanks

end RazorLayout
