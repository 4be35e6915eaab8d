import RazorLayout.Proofs.Config.Values
import Mathlib.Data.List.Induction

/-!
# Named values

Options are written as named values, and of two values under one name the later one counts.  A
record that is written over twice is written over once, with the later entries behind the earlier
ones (`Record.replace_replace`), and its checks look at each field on its own
(`Record.check_eq_ok_iff`).
-/

namespace RazorLayout

/-! ### The value of a name -/

section Named

variable {α β : Type}

theorem valueOf?_append (name : Text) (old new : List (Text × α)) :
    valueOf? name (old ++ new) = (valueOf? name new).or (valueOf? name old) := by
  rw [valueOf?, List.reverse_append, List.lookup_append, valueOf?, valueOf?]

theorem valueOf?_concat (name : Text) (entries : List (Text × α)) (entry : Text × α) :
    valueOf? name (entries ++ [entry]) =
      if entry.1 = name then some entry.2 else valueOf? name entries := by
  rw [valueOf?, List.reverse_append, List.reverse_singleton, List.singleton_append, valueOf?]
  by_cases h : entry.1 = name
  · rw [if_pos h, ← h, List.lookup_cons_self]
  · rw [if_neg h, List.lookup_cons, beq_eq_false_iff_ne.mpr (Ne.symm h)]

theorem valueOf?_map (f : Text → α → β) (name : Text) (entries : List (Text × α)) :
    valueOf? name (entries.map fun entry => (entry.1, f entry.1 entry.2)) =
      (valueOf? name entries).map (f name) := by
  induction entries using List.reverseRecOn with
  | nil => rfl
  | append_singleton entries entry ih =>
      rw [List.map_append, List.map_singleton, valueOf?_concat, valueOf?_concat, ih]
      by_cases h : entry.1 = name
      · simp [h]
      · simp [h]

theorem mem_of_valueOf? {name : Text} {entries : List (Text × α)} {v : α}
    (h : valueOf? name entries = some v) : (name, v) ∈ entries := by
  induction entries using List.reverseRecOn with
  | nil => cases h
  | append_singleton entries entry ih =>
      rw [valueOf?_concat] at h
      split at h
      case isTrue hname =>
        cases h
        simp [← hname]
      case isFalse => exact List.mem_append_left _ (ih h)

end Named

theorem mem_unknownNames {known : List Text} {entries : Entries} {name : Text} :
    name ∈ unknownNames known entries ↔ (∃ v, (name, v) ∈ entries) ∧ name ∉ known := by
  simp [unknownNames]

theorem unknownNames_eq_nil_iff {known : List Text} {entries : Entries} :
    unknownNames known entries = [] ↔ ∀ entry ∈ entries, entry.1 ∈ known := by
  rw [List.eq_nil_iff_forall_not_mem]
  constructor
  · intro h entry hentry
    by_contra hname
    exact h entry.1 (mem_unknownNames.mpr ⟨⟨entry.2, hentry⟩, hname⟩)
  · intro h name hmem
    obtain ⟨⟨v, hv⟩, hname⟩ := mem_unknownNames.mp hmem
    exact hname (h _ hv)

/-! ### Records -/

theorem Except.bind_eq_ok_iff {ε α β : Type} {x : Except ε α} {f : α → Except ε β} {b : β} :
    (x >>= f) = .ok b ↔ ∃ a, x = .ok a ∧ f a = .ok b := by
  cases x <;> simp [bind, Except.bind]

theorem forM_eq_ok_iff {ε α : Type} (f : α → Except ε Unit) (l : List α) :
    l.forM f = .ok () ↔ ∀ a ∈ l, f a = .ok () := by
  induction l with
  | nil => exact iff_of_true rfl fun _ h => absurd h List.not_mem_nil
  | cons a l ih =>
      change (f a >>= fun _ => l.forM f) = .ok () ↔ _
      rw [Except.bind_eq_ok_iff, List.forall_mem_cons, ← ih]
      exact ⟨fun ⟨_, ha, hl⟩ => ⟨ha, hl⟩, fun ⟨ha, hl⟩ => ⟨(), ha, hl⟩⟩

namespace Record

variable {κ : Type} [Field κ] (r : Record κ)

/-- Of two writings the later one counts where there is one. -/
theorem replace_replace (old new : Entries) :
    (r.replace old).replace new = r.replace (old ++ new) := by
  funext k
  simp only [replace, valueOf?_append]
  cases valueOf? (Field.name k) new <;> rfl

/-- What a record holds was there before or has been written. -/
theorem replace_eq_or_mem (entries : Entries) (k : κ) :
    r.replace entries k = r k ∨ (Field.name k, r.replace entries k) ∈ entries := by
  unfold replace
  cases h : valueOf? (Field.name k) entries with
  | none => exact .inl rfl
  | some v => exact .inr (mem_of_valueOf? h)

/-- A record whose values are all admitted. -/
def IsChecked : Prop :=
  ∀ k, (Field.rule k).Admits (r k)

/-- The fields are checked one after the other, and no check looks at another field. -/
theorem check_eq_ok_iff : r.check = .ok () ↔ r.IsChecked := by
  rw [check, forM_eq_ok_iff]
  constructor
  · exact fun h k => Rule.check_eq_ok_iff.mp (h k (Field.mem_all k))
  · exact fun h k _ => Rule.check_eq_ok_iff.mpr (h k)

theorem check_bind_eq_ok_iff {β : Type} {f : Unit → Except ConfigError β} {b : β} :
    (r.check >>= f) = .ok b ↔ r.IsChecked ∧ f () = .ok b := by
  rw [Except.bind_eq_ok_iff, ← check_eq_ok_iff]
  exact ⟨fun ⟨_, hcheck, h⟩ => ⟨hcheck, h⟩, fun ⟨hcheck, h⟩ => ⟨(), hcheck, h⟩⟩

end Record

end RazorLayout
