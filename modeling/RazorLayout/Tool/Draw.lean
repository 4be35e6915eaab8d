import RazorLayout.Text.Basic
import RazorLayout.Total

/-!
# Draws

A source of draws is a congruential generator modulo 2 to the 64: each draw advances the state and
takes a number from its high bits.  A sampler is a computation that draws.
-/

namespace RazorLayout

/-- A source of draws.  The state it starts from may be any integer. -/
structure DrawSource where
  state : Int
  deriving DecidableEq, Repr

namespace DrawSource

/-- Two to the 64: the states of a source lie below it. -/
def modulus : Int := 18446744073709551616

/-- The source one step on. -/
def next (s : DrawSource) : DrawSource :=
  ⟨(s.state * 6364136223846793005 + 1442695040888963407) % modulus⟩

/-- The number below `n` that the state stands for. -/
def below (n : Nat) (s : DrawSource) : Nat :=
  (s.state.toNat >>> 33) % n

end DrawSource

/-- A computation that draws. -/
abbrev Sampler (α : Type) := StateM DrawSource α

namespace Sampler

/-- A number below `n`. -/
def draw (n : Nat) : Sampler Nat := fun s => (s.next.below n, s.next)

/-- True in `n` of a thousand cases. -/
def chance (n : Nat) : Sampler Bool := do
  let k ← draw 1000
  pure (decide (k < n))

/-- A number from `low` to `high`. -/
def between (low high : Int) : Sampler Int := do
  let k ← draw (high - low + 1).toNat
  pure (low + k)

/-- One of some texts. -/
def pick (texts : List Text) : Sampler Text := do
  let k ← draw texts.length
  pure (texts.getD k [])

/-- Several of some texts, put together. -/
def pickMany (texts : List Text) : Nat → Sampler Text
  | 0 => pure []
  | n + 1 => do
      let first ← pick texts
      let rest ← pickMany texts n
      pure (first ++ rest)

/-- Runs one of some samplers. -/
def oneOf (samplers : List (Sampler Text)) : Sampler Text := do
  let k ← draw samplers.length
  samplers.getD k (pure [])

/-- The first sampler whose share, added to the shares in front, goes beyond `k`. -/
def atShare : List (Nat × Sampler Text) → Nat → Sampler Text
  | [], _ => pure []
  | (share, sampler) :: rest, k => if k < share then sampler else atShare rest (k - share)

/-- Runs one of some samplers, each with its share of the cases. -/
def oneOfShares (samplers : List (Nat × Sampler Text)) : Sampler Text := do
  let k ← draw (total (samplers.map Prod.fst))
  atShare samplers k

/-- Runs a sampler several times. -/
def repeated (sampler : Sampler Text) : Nat → Sampler (List Text)
  | 0 => pure []
  | n + 1 => do
      let first ← sampler
      let rest ← repeated sampler n
      pure (first :: rest)

end Sampler

end RazorLayout
