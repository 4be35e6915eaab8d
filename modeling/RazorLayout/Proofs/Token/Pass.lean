import RazorLayout.Token.Lexer

/-!
# The pass over a template

Input.  Any text.

Algorithm.  A pass keeps a position and the pieces read so far.  One step reads the piece at the
position, with the content that is kept behind it, and moves the position behind what it has read.
The pass ends where no text is left.

Results.

* `Pass.next?_advances`: a step moves the position forward and never behind the end of the text.
* `Pass.run_tokens`: the pieces of a pass from the front are those of `tokenize`.
* `tokenize_slices`: the pieces are consecutive slices of the text, none of them empty, and the pass
  ends at the end of the text.
-/

namespace RazorLayout

section Slices

/-- The part of a text from position `start` up to position `stop`. -/
def Text.slice (t : Text) (start stop : Nat) : Text :=
  (t.drop start).take (stop - start)

/-- Where piece number `i` starts: behind all pieces in front of it. -/
def offset (tokens : List Token) (i : Nat) : Nat :=
  (joinRaw (tokens.take i)).length

theorem offset_succ (tokens : List Token) (i : Fin tokens.length) :
    offset tokens (i + 1) = offset tokens i + (tokens.get i).raw.length := by
  have htake : tokens.take (i + 1) = tokens.take i ++ [tokens.get i] := by
    rw [List.take_succ_eq_append_getElem i.isLt]
    rfl
  rw [offset, htake, joinRaw_append, List.length_append]
  simp [offset]

/-- Every piece is the slice of the joined text between its own offset and the next one. -/
theorem slice_joinRaw (tokens : List Token) (i : Fin tokens.length) :
    Text.slice (joinRaw tokens) (offset tokens i) (offset tokens (i + 1)) =
      (tokens.get i).raw := by
  have hsplit : tokens = tokens.take i ++ tokens.get i :: tokens.drop (i + 1) := by
    simp
  have hjoin : joinRaw tokens =
      joinRaw (tokens.take i) ++ ((tokens.get i).raw ++ joinRaw (tokens.drop (i + 1))) := by
    rw [← joinRaw_cons, ← joinRaw_append, ← hsplit]
  have hwidth : offset tokens (i + 1) - offset tokens i = (tokens.get i).raw.length := by
    rw [offset_succ]
    omega
  have hoffset : offset tokens i = (joinRaw (tokens.take i)).length := rfl
  rw [Text.slice, hwidth, hjoin, hoffset, List.drop_left, List.take_left]

end Slices

/-- Where a pass over a text stands. -/
structure Pass where
  /-- The position of the next character to read. -/
  pos : Nat := 0
  /-- The pieces read so far. -/
  tokens : List Token := []
  deriving DecidableEq, Repr

namespace Pass

section Steps

/-- Takes one piece and moves behind it. -/
def emit (p : Pass) (token : Token) : Pass :=
  ⟨p.pos + token.raw.length, p.tokens ++ [token]⟩

/-- Takes pieces in order. -/
def emitAll (p : Pass) (tokens : List Token) : Pass :=
  tokens.foldl emit p

/-- Reads the piece at the position and the content that is kept behind it. -/
def next? (t : Text) (p : Pass) : Option Pass :=
  match t.drop p.pos with
  | [] => none
  | c :: cs =>
      let piece := readToken c cs
      some ((p.emit piece.1).emitAll (contentToken (splitContent piece.1.kind piece.2).1))

theorem emitAll_eq (p : Pass) (tokens : List Token) :
    p.emitAll tokens = ⟨p.pos + (joinRaw tokens).length, p.tokens ++ tokens⟩ := by
  induction tokens generalizing p with
  | nil => simp [emitAll]
  | cons token tokens ih =>
      have hstep : p.emitAll (token :: tokens) = (p.emit token).emitAll tokens := rfl
      rw [hstep, ih]
      simp [emit, Nat.add_assoc]

/-- What a step does: it cuts the rest of the text into the piece, its content and a new rest. -/
theorem next?_eq_some {t : Text} {p q : Pass} (h : next? t p = some q) :
    ∃ c cs, t.drop p.pos = c :: cs ∧
      q.tokens = p.tokens ++ (readToken c cs).1 ::
        contentToken (splitContent (readToken c cs).1.kind (readToken c cs).2).1 ∧
      q.pos = p.pos + (readToken c cs).1.raw.length +
        (splitContent (readToken c cs).1.kind (readToken c cs).2).1.length ∧
      t.drop q.pos = (splitContent (readToken c cs).1.kind (readToken c cs).2).2 := by
  unfold next? at h
  split at h
  · cases h
  · rename_i c cs hdrop
    simp only [emitAll_eq, Option.some.injEq] at h
    subst h
    refine ⟨c, cs, hdrop, by simp [emit], by simp [emit], ?_⟩
    have hpiece : c :: cs = (readToken c cs).1.raw ++ (readToken c cs).2 :=
      (readToken_cuts c cs).1
    have hcontent := splitContent_append (readToken c cs).1.kind (readToken c cs).2
    simp only [emit, joinRaw_contentToken]
    rw [← List.drop_drop, ← List.drop_drop, hdrop, hpiece, List.drop_left]
    generalize splitContent (readToken c cs).1.kind (readToken c cs).2 = content at hcontent ⊢
    rw [← hcontent, List.drop_left]

theorem next?_eq_none_iff {t : Text} {p : Pass} : next? t p = none ↔ t.length ≤ p.pos := by
  unfold next?
  split
  · rename_i hdrop
    simpa using hdrop
  · rename_i c cs hdrop
    have hlen := congrArg List.length hdrop
    simp at hlen ⊢
    omega

/-- A step moves forward, and not behind the end of the text. -/
theorem next?_advances {t : Text} {p q : Pass} (h : next? t p = some q) :
    p.pos < q.pos ∧ q.pos ≤ t.length := by
  obtain ⟨c, cs, hdrop, -, hpos, hrest⟩ := next?_eq_some h
  obtain ⟨hpiece, hne⟩ := readToken_cuts c cs
  have hraw : 0 < (readToken c cs).1.raw.length := List.length_pos_iff.2 hne
  have hcontent := congrArg List.length
    (splitContent_append (readToken c cs).1.kind (readToken c cs).2)
  have hlen := congrArg List.length hdrop
  have hcut := congrArg List.length hpiece
  simp only [List.length_append, List.length_drop, List.length_cons] at hcontent hlen hcut
  omega

end Steps

/-- Steps on to the end of the text. -/
def run (t : Text) (p : Pass) : Pass :=
  match _h : next? t p with
  | none => p
  | some q => run t q
  termination_by t.length - p.pos
  decreasing_by
    obtain ⟨hlt, hle⟩ := next?_advances _h
    omega

section Runs

theorem run_tokens (t : Text) (p : Pass) :
    (run t p).tokens = p.tokens ++ tokenize (t.drop p.pos) := by
  fun_induction run t p with
  | case1 p h =>
      have hdrop : t.drop p.pos = [] := List.drop_eq_nil_of_le (next?_eq_none_iff.1 h)
      simp [hdrop, tokenize]
  | case2 p q h ih =>
      obtain ⟨c, cs, hdrop, htokens, -, hrest⟩ := next?_eq_some h
      rw [ih, htokens, hrest, hdrop]
      conv => rhs; rw [tokenize]
      simp

theorem run_pos {t : Text} {p : Pass} (hp : p.pos ≤ t.length) : (run t p).pos = t.length := by
  fun_induction run t p with
  | case1 p h =>
      have hle := next?_eq_none_iff.1 h
      omega
  | case2 p q h ih => exact ih (next?_advances h).2

end Runs

end Pass

theorem tokenize_raw_ne_nil (t : Text) : ∀ token ∈ tokenize t, token.raw ≠ [] := by
  fun_induction tokenize t with
  | case1 => simp
  | case2 c cs piece content ih =>
      intro token hmem
      rcases List.mem_cons.1 hmem with rfl | hmem
      · exact readToken_raw_ne_nil c cs
      · rcases List.mem_append.1 hmem with hmem | hmem
        · cases hc : content.1 with
          | nil => simp [hc, contentToken] at hmem
          | cons d ds =>
              simp only [hc, contentToken, List.mem_singleton] at hmem
              simp [hmem]
        · exact ih token hmem

/-- Reading a template loses nothing and always gets on: every step of the pass moves forward inside
the text, the pass ends at the end of the text with the pieces of `tokenize`, these pieces are
together the text, and each of them is the slice between its offset and the next, at least one
character long. -/
theorem tokenize_slices (t : Text) :
    (∀ p q : Pass, p.next? t = some q → p.pos < q.pos ∧ q.pos ≤ t.length) ∧
      Pass.run t {} = ⟨t.length, tokenize t⟩ ∧
      joinRaw (tokenize t) = t ∧
      ∀ i : Fin (tokenize t).length,
        ((tokenize t).get i).raw ≠ [] ∧
          Text.slice t (offset (tokenize t) i) (offset (tokenize t) (i + 1)) =
            ((tokenize t).get i).raw := by
  refine ⟨fun p q h => Pass.next?_advances h, ?_, joinRaw_tokenize t, fun i => ⟨?_, ?_⟩⟩
  · have htokens := Pass.run_tokens t {}
    have hpos := Pass.run_pos (t := t) (p := {}) (Nat.zero_le _)
    cases hrun : Pass.run t {} with
    | mk pos tokens =>
        rw [hrun] at htokens hpos
        simp only [List.drop_zero, List.nil_append] at htokens hpos
        rw [htokens, hpos]
  · exact tokenize_raw_ne_nil t _ (List.get_mem _ i)
  · have hslice := slice_joinRaw (tokenize t) i
    rwa [joinRaw_tokenize] at hslice

/-- A comment that is never closed is taken whole by the first step. -/
theorem tokenize_slices_unfinished_comment :
    Pass.next? "<!-- @if".toList {} = some ⟨8, [⟨.text, "<!-- @if".toList⟩]⟩ ∧ 0 < 8 ∧
      8 ≤ "<!-- @if".toList.length :=
  have h : Pass.next? "<!-- @if".toList {} = some ⟨8, [⟨.text, "<!-- @if".toList⟩]⟩ := by decide
  ⟨h, (tokenize_slices "<!-- @if".toList).1 _ _ h⟩

end RazorLayout
