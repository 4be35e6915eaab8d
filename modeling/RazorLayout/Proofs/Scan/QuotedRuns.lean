import Mathlib.Data.Nat.Init
import RazorLayout.Scan.Group

/-!
# Quoted positions

Input.  A text, and the position from which it is read.

A position is quoted when it lies in a quoted run.  A run is told by positions alone: it begins at a
quote outside every earlier run, and goes on to the next equal quote that has no backslash directly
in front of it, or to the end of the text.  The automaton of a scanner sees one character at a time
instead.  `QuoteState.Describes` says what its state knows about the runs, and each of its steps
keeps that.

Result.  `isQuoted_iff`: a position is quoted if and only if the automaton is inside a run there, or
a quote stands there.  So quoted positions can be told by running it.
-/

namespace RazorLayout

section Runs

/-- The quote at `j` may end a run that begins at `a`: it is an equal one, and no backslash stands
directly in front of it. -/
def EndsRun (t : Text) (a j : Nat) : Prop :=
  a < j ∧ t[j]? = t[a]? ∧ t[j - 1]? ≠ some '\\'

/-- Position `i` lies in the run that begins at `a`.  Both quotes belong to the run, and one that
never ends goes on to the end of the text. -/
def InRun (t : Text) (a i : Nat) : Prop :=
  a ≤ i ∧ i < t.length ∧ ∀ j, j < i → ¬EndsRun t a j

/-- A run begins at a quote outside every earlier run, when the text is read from `start`. -/
def BeginsRun (t : Text) (start i : Nat) : Prop :=
  start ≤ i ∧ t[i]?.any isQuote = true ∧
    ∀ a, a < i → BeginsRun t start a → ¬InRun t a i
  termination_by i

/-- Position `i` lies in a quoted run, when the text is read from `start`. -/
def IsQuoted (t : Text) (start i : Nat) : Prop :=
  ∃ a, BeginsRun t start a ∧ InRun t a i

variable {t : Text} {start a i j : Nat}

theorem beginsRun_iff :
    BeginsRun t start i ↔ start ≤ i ∧ t[i]?.any isQuote = true ∧
      ∀ a, a < i → BeginsRun t start a → ¬InRun t a i := by
  rw [BeginsRun]

theorem InRun.of_le (h : InRun t a i) (ha : a ≤ j) (hj : j ≤ i) : InRun t a j :=
  ⟨ha, Nat.lt_of_le_of_lt hj h.2.1, fun k hk => h.2.2 k (Nat.lt_of_lt_of_le hk hj)⟩

/-- Two runs do not meet: a later one does not begin inside an earlier one. -/
theorem BeginsRun.not_inRun (h : BeginsRun t start i) (ha : BeginsRun t start a) (hlt : a < i) :
    ¬InRun t a i :=
  (beginsRun_iff.1 h).2.2 a hlt ha

end Runs

section Automaton

variable {t : Text} {c : Char} {start i : Nat} {state : QuoteState}

/-- What the state of a scanner says about the position that it has come to: either no run goes on
there, or one does, and its quote and the character read last are known. -/
def QuoteState.Describes (t : Text) (start i : Nat) : QuoteState → Prop
  | outside => ∀ a, a < i → BeginsRun t start a → ¬InRun t a i
  | inside quote escaped =>
      ∃ a, a < i ∧ BeginsRun t start a ∧ InRun t a i ∧ t[a]? = some quote ∧
        (escaped = true ↔ t[i - 1]? = some '\\')

theorem QuoteState.Describes.step (h : state.Describes t start i) (hstart : start ≤ i)
    (hc : t[i]? = some c) (hi : i + 1 < t.length) :
    (state.step c).Describes t start (i + 1) := by
  cases state with
  | outside =>
      rw [QuoteState.step]
      split
      · rename_i hquote
        have hbegins : BeginsRun t start i := beginsRun_iff.2 ⟨hstart, by simp [hc, hquote], h⟩
        have hrun : InRun t i (i + 1) :=
          ⟨i.le_succ, hi, fun j hj hends => absurd hends.1 (by omega)⟩
        have hescape : c ≠ '\\' := by
          rintro rfl
          cases hquote
        exact ⟨i, i.lt_succ_self, hbegins, hrun, hc, by simp [hc, hescape]⟩
      · rename_i hquote
        intro a ha hbegins hrun
        rcases Nat.lt_succ_iff_lt_or_eq.1 ha with ha | rfl
        · exact h a ha hbegins (hrun.of_le (Nat.le_of_lt ha) i.le_succ)
        · have hany := (beginsRun_iff.1 hbegins).2.1
          rw [hc] at hany
          exact hquote hany
  | inside quote escaped =>
      obtain ⟨a, ha, hbegins, hrun, hquote, hescaped⟩ := h
      have hends : EndsRun t a i ↔ c = quote ∧ escaped = false := by
        rw [EndsRun, hc, hquote, ← Bool.not_eq_true, hescaped]
        simp [ha]
      rw [QuoteState.step]
      split
      · rename_i hclose
        intro b hb hbegins' hrun'
        -- The run that ends here is the only one that could have gone on.
        rcases Nat.lt_trichotomy a b with hab | rfl | hba
        · have hinside := hrun.of_le (Nat.le_of_lt hab) (Nat.lt_succ_iff.1 hb)
          exact hbegins'.not_inRun hbegins hab hinside
        · exact hrun'.2.2 i i.lt_succ_self (hends.2 hclose)
        · have hinside := hrun'.of_le (Nat.le_of_lt hba) (by omega)
          exact hbegins.not_inRun hbegins' hba hinside
      · rename_i hopen
        have hrun' : InRun t a (i + 1) := by
          refine ⟨by omega, hi, fun j hj => ?_⟩
          rcases Nat.lt_succ_iff_lt_or_eq.1 hj with hj | rfl
          · exact hrun.2.2 j hj
          · exact fun h => hopen (hends.1 h)
        exact ⟨a, by omega, hbegins, hrun', hquote, by simp [hc]⟩

theorem extract_succ (hstart : start ≤ i) (hc : t[i]? = some c) :
    t.extract start (i + 1) = t.extract start i ++ [c] := by
  have hlast : (t.drop start)[i - start]? = some c := by
    rw [List.getElem?_drop, Nat.add_sub_cancel' hstart, hc]
  rw [List.extract_eq_take_drop, List.extract_eq_take_drop, Nat.succ_sub hstart,
    List.take_add_one, hlast]
  rfl

/-- The state of quoted runs at position `i`, when the text is read from `start`. -/
def quotesAt (t : Text) (start i : Nat) : QuoteState :=
  (t.extract start i).foldl QuoteState.step .outside

@[simp] theorem quotesAt_self (t : Text) (start : Nat) : quotesAt t start start = .outside := by
  simp [quotesAt]

theorem quotesAt_succ (hstart : start ≤ i) (hc : t[i]? = some c) :
    quotesAt t start (i + 1) = (quotesAt t start i).step c := by
  rw [quotesAt, extract_succ hstart hc, List.foldl_append]
  rfl

/-- The automaton is right about the runs at every position that it comes to. -/
theorem describes_quotesAt (hstart : start ≤ i) (hi : i < t.length) :
    (quotesAt t start i).Describes t start i := by
  induction i, hstart using Nat.le_induction with
  | base =>
      rw [quotesAt_self]
      intro a ha hbegins
      exact absurd (beginsRun_iff.1 hbegins).1 (by omega)
  | succ i hstart ih =>
      have hc : t[i]? = some t[i] := List.getElem?_eq_getElem _
      rw [quotesAt_succ hstart hc]
      exact (ih (by omega)).step hstart hc hi

theorem isQuoted_iff (hstart : start ≤ i) (hc : t[i]? = some c) :
    IsQuoted t start i ↔ quotesAt t start i ≠ .outside ∨ isQuote c = true := by
  have hi : i < t.length := (List.getElem?_eq_some_iff.1 hc).1
  have hstate := describes_quotesAt hstart hi
  constructor
  · rintro ⟨a, hbegins, hrun⟩
    rcases Nat.lt_or_eq_of_le hrun.1 with ha | rfl
    · left
      intro houtside
      rw [houtside] at hstate
      exact hstate a ha hbegins hrun
    · right
      have hany := (beginsRun_iff.1 hbegins).2.1
      rwa [hc] at hany
  · intro h
    cases hquotes : quotesAt t start i with
    | inside quote escaped =>
        rw [hquotes] at hstate
        obtain ⟨a, -, hbegins, hrun, -⟩ := hstate
        exact ⟨a, hbegins, hrun⟩
    | outside =>
        rw [hquotes] at h hstate
        have hquote : isQuote c = true := by simpa using h
        have hbegins : BeginsRun t start i :=
          beginsRun_iff.2 ⟨hstart, by simp [hc, hquote], hstate⟩
        exact ⟨i, hbegins, Nat.le_refl i, hi, fun j hj hends => absurd hends.1 (by omega)⟩

theorem not_isQuoted_iff (hstart : start ≤ i) (hc : t[i]? = some c) :
    ¬IsQuoted t start i ↔ quotesAt t start i = .outside ∧ isQuote c = false := by
  rw [isQuoted_iff hstart hc, not_or, Decidable.not_not, Bool.not_eq_true]

instance (t : Text) (start i : Nat) : Decidable (IsQuoted t start i) :=
  decidable_of_iff
    (start ≤ i ∧ t[i]?.any (fun c => quotesAt t start i != .outside || isQuote c) = true) <| by
    constructor
    · rintro ⟨hstart, hany⟩
      obtain ⟨c, hc, hquoted⟩ := (Option.any_eq_true _ _).1 hany
      exact (isQuoted_iff hstart hc).2 (by simpa using hquoted)
    · rintro ⟨a, hbegins, hrun⟩
      have hstart : start ≤ i := Nat.le_trans (beginsRun_iff.1 hbegins).1 hrun.1
      obtain ⟨c, hc⟩ : ∃ c, t[i]? = some c := ⟨_, List.getElem?_eq_getElem hrun.2.1⟩
      have hquoted := (isQuoted_iff hstart hc).1 ⟨a, hbegins, hrun⟩
      exact ⟨hstart, by simpa [hc] using hquoted⟩

/-- An escaped quote belongs to the run and does not end it. -/
example : IsQuoted "a'\\'b'c".toList 0 4 ∧ ¬IsQuoted "a'\\'b'c".toList 0 6 := by decide

end Automaton

end RazorLayout
