import RazorLayout.Proofs.Forest.Basic

/-!
# What a group scanner passes over

A piece of text is passed over when a scanner that starts in front of it, outside every quoted run,
comes out behind it with the same groups open.  Such pieces can be put together: one behind the
other, between two equal quotes, or between the delimiters.

Results.  `splitBraces_of_passes`: the content of braces is read whole if it is passed over.
`splitParens_of_isCondition`: so is a condition between parentheses.
-/

namespace RazorLayout

/-- The scanner comes out behind `p` as it went in. -/
def Passes (d : Delimiters) (p : Text) : Prop :=
  ∀ depth rest, splitGroupFrom d depth .outside (p ++ rest) =
    (splitGroupFrom d depth .outside rest).map fun group => (p ++ group.1, group.2)

/-- A character that neither delimits a group nor a quoted run. -/
def Delimiters.isFree (d : Delimiters) (c : Char) : Bool :=
  !isQuote c && d.opening != some c && d.closing != some c

section Composition

variable {d : Delimiters} {p q : Text}

theorem passes_nil (d : Delimiters) : Passes d [] := by
  intro depth rest
  cases h : splitGroupFrom d depth .outside rest <;> simp [h]

theorem Passes.append (hp : Passes d p) (hq : Passes d q) : Passes d (p ++ q) := by
  intro depth rest
  rw [List.append_assoc, hp, hq, Option.map_map]
  congr 1
  funext group
  simp

theorem passes_of_isFree {c : Char} (h : d.isFree c = true) : Passes d [c] := by
  simp only [Delimiters.isFree, Bool.and_eq_true, Bool.not_eq_true', bne_iff_ne] at h
  obtain ⟨⟨hquote, hopening⟩, hclosing⟩ := h
  intro depth rest
  simp [splitGroupFrom, hquote, hopening, hclosing]

theorem passes_of_forall_isFree (h : ∀ c ∈ p, d.isFree c = true) : Passes d p := by
  induction p with
  | nil => exact passes_nil d
  | cons c p ih =>
      have hc : Passes d [c] := passes_of_isFree (h c List.mem_cons_self)
      exact hc.append (ih fun other hother => h other (List.mem_cons_of_mem c hother))

theorem passes_of_all (h : p.all d.isFree = true) : Passes d p :=
  passes_of_forall_isFree (List.all_eq_true.1 h)

/-- Inside a quoted run only the quote matters, as long as nothing is escaped. -/
theorem splitGroupFrom_inside {quote : Char} (h : ∀ c ∈ p, c ≠ quote ∧ c ≠ '\\') (depth : Nat)
    (rest : Text) :
    splitGroupFrom d depth (.inside quote false) (p ++ quote :: rest) =
      (splitGroupFrom d depth .outside rest).map
        fun group => (p ++ quote :: group.1, group.2) := by
  induction p with
  | nil => simp [splitGroupFrom, QuoteState.step]
  | cons c p ih =>
      obtain ⟨hquote, hescape⟩ := h c List.mem_cons_self
      have hstep : (QuoteState.inside quote false).step c = .inside quote false := by
        simp [QuoteState.step, hquote, hescape]
      have hrest := ih fun other hother => h other (List.mem_cons_of_mem c hother)
      rw [List.cons_append, splitGroupFrom, hstep, hrest, Option.map_map]
      rfl

theorem passes_quoted {quote : Char} (hquote : isQuote quote = true)
    (h : ∀ c ∈ p, c ≠ quote ∧ c ≠ '\\') : Passes d (quote :: p ++ [quote]) := by
  intro depth rest
  have hassoc : quote :: p ++ [quote] ++ rest = quote :: (p ++ quote :: rest) := by
    simp
  have hopen : splitGroupFrom d depth .outside (quote :: (p ++ quote :: rest)) =
      (splitGroupFrom d depth (.inside quote false) (p ++ quote :: rest)).map
        fun group => (quote :: group.1, group.2) := by
    simp [splitGroupFrom, hquote]
  rw [hassoc, hopen, splitGroupFrom_inside h, Option.map_map]
  congr 1
  funext group
  simp

end Composition

section Braces

variable {p : Text}

theorem splitGroupFrom_brace_succ (depth : Nat) (rest : Text) :
    splitGroupFrom .braces (depth + 1) .outside ('}' :: rest) =
      (splitGroupFrom .braces depth .outside rest).map fun group => ('}' :: group.1, group.2) :=
  rfl

/-- A group inside a group. -/
theorem Passes.inBraces (hp : Passes .braces p) : Passes .braces ('{' :: p ++ ['}']) := by
  intro depth rest
  have hopen : splitGroupFrom .braces depth .outside ('{' :: (p ++ '}' :: rest)) =
      (splitGroupFrom .braces (depth + 1) .outside (p ++ '}' :: rest)).map
        fun group => ('{' :: group.1, group.2) := rfl
  have hassoc : '{' :: p ++ ['}'] ++ rest = '{' :: (p ++ '}' :: rest) := by
    simp
  rw [hassoc, hopen, hp, splitGroupFrom_brace_succ, Option.map_map, Option.map_map]
  congr 1
  funext group
  simp

theorem splitBraces_of_passes (hp : Passes .braces p) (rest : Text) :
    splitBraces ('{' :: (p ++ '}' :: rest)) = some (p, rest) := by
  have hclose : splitGroupFrom .braces 0 .outside ('}' :: rest) = some ([], rest) := rfl
  rw [splitBraces, splitGroup, hp, hclose]
  simp

end Braces

section Parentheses

/-- A condition is passed over with the parentheses that are open in front of it. -/
theorem splitGroupFrom_of_isBalanced {p : Text} {inner : Nat} (h : isBalanced inner p = true)
    (hchars : ∀ c ∈ p, isQuote c = false) (depth : Nat) (rest : Text) :
    splitGroupFrom .parens (depth + inner) .outside (p ++ rest) =
      (splitGroupFrom .parens depth .outside rest).map fun group => (p ++ group.1, group.2) := by
  induction p generalizing inner with
  | nil =>
      have hinner : inner = 0 := by
        simpa [isBalanced] using h
      rw [hinner]
      exact passes_nil .parens depth rest
  | cons c p ih =>
      have hquote : isQuote c = false := hchars c List.mem_cons_self
      have hrest : ∀ other ∈ p, isQuote other = false :=
        fun other hother => hchars other (List.mem_cons_of_mem c hother)
      have hmap : ∀ {k : Nat}, isBalanced k p = true →
          (splitGroupFrom .parens (depth + k) .outside (p ++ rest)).map
              (fun group => (c :: group.1, group.2)) =
            (splitGroupFrom .parens depth .outside rest).map
              fun group => (c :: p ++ group.1, group.2) := by
        intro k hk
        rw [ih hk hrest, Option.map_map]
        rfl
      unfold isBalanced at h
      split at h
      · rename_i hopen
        subst hopen
        exact hmap h
      · rename_i hopen
        split at h
        · rename_i hclose
          subst hclose
          cases inner with
          | zero => cases h
          | succ inner => exact hmap h
        · rename_i hclose
          have hfree : Delimiters.parens.isFree c = true := by
            simp [Delimiters.isFree, Delimiters.parens, hquote, Ne.symm hopen, Ne.symm hclose]
          rw [List.cons_append, ← List.singleton_append, passes_of_isFree hfree]
          exact hmap h

theorem isConditionChar_of_mem {condition : Text} (h : isCondition condition = true) {c : Char}
    (hc : c ∈ condition) : isConditionChar c = true := by
  rw [isCondition, Bool.and_eq_true, List.all_eq_true] at h
  exact h.1 c hc

theorem isQuote_eq_false_of_isConditionChar {c : Char} (h : isConditionChar c = true) :
    isQuote c = false := by
  simp [isConditionChar] at h
  simp [isQuote, h]

theorem splitParens_of_isCondition {condition : Text} (h : isCondition condition = true)
    (rest : Text) :
    splitParens ('(' :: (condition ++ ')' :: rest)) = some (condition, rest) := by
  have hbalanced : isBalanced 0 condition = true := by
    rw [isCondition, Bool.and_eq_true] at h
    exact h.2
  have hchars : ∀ c ∈ condition, isQuote c = false :=
    fun c hc => isQuote_eq_false_of_isConditionChar (isConditionChar_of_mem h hc)
  have hclose : splitGroupFrom .parens 0 .outside (')' :: rest) = some ([], rest) := rfl
  have hpass := splitGroupFrom_of_isBalanced hbalanced hchars 0 (')' :: rest)
  rw [Nat.add_zero, hclose] at hpass
  rw [splitParens, splitGroup, hpass]
  simp

theorem passes_of_isCondition {condition : Text} (h : isCondition condition = true) :
    Passes .braces condition := by
  apply passes_of_forall_isFree
  intro c hc
  have hchar := isConditionChar_of_mem h hc
  simp [isConditionChar] at hchar
  simp [Delimiters.isFree, Delimiters.braces, isQuote, hchar]
  grind

end Parentheses

end RazorLayout
