import RazorLayout.Proofs.Config.Entries

/-!
# Options on top of each other

A merge writes every field on its own: a field that the options name takes the written value, any
other field keeps what it has, and the outcome is checked as a whole (`Settings.merge_eq_ok_iff`).

Writing options over others replaces the values of the names that are written again, and the style
group is written over name by name (`overrideEntries`).  Putting several options over settings one
after the other is then the same as putting all of them, written over each other, over the settings
at once (`Settings.merge_overrideEntries`, `Settings.merge_foldl_overrideEntries`).
-/

namespace RazorLayout

/-! ### The style group -/

namespace StyleValue

/-- What comes to stand in the place of the style group when `written` is written over `old`. -/
def Becomes (old : StyleValue) (written : Option Setting) (new : StyleValue) : Prop :=
  match written with
  | none => new = old
  | some v =>
      match v.group? with
      | some g =>
          (∀ entry ∈ g, entry.1 ∈ Record.names StyleKey) ∧
            ∃ r, old = record r ∧ new = record (r.replace g) ∧ (r.replace g).IsChecked
      | none => new = kept v

variable {old mid new : StyleValue} {written : Option Setting}

theorem update_eq_ok_iff {g : Entries} :
    old.update g = .ok new ↔ old.Becomes (some (.group g)) new := by
  simp only [update, Becomes, Setting.group?_group, ← unknownNames_eq_nil_iff]
  cases hnames : unknownNames (Record.names StyleKey) g with
  | cons name names => simp
  | nil =>
      cases old with
      | kept v => simp
      | record r =>
          simp only [Record.check_bind_eq_ok_iff, true_and, record.injEq, exists_eq_left']
          constructor
          · rintro ⟨hchecked, hnew⟩
            exact ⟨(Except.ok.inj hnew).symm, hchecked⟩
          · rintro ⟨rfl, hchecked⟩
            exact ⟨hchecked, rfl⟩

theorem read_eq_ok_iff : old.read old.update written = .ok new ↔ old.Becomes written new := by
  cases written with
  | none => simp [read, Becomes, eq_comm]
  | some v =>
      cases v with
      | group g => exact update_eq_ok_iff
      | _ => simp [read, Becomes, Setting.group?, eq_comm]

/-- A new group is read like a group over the one where nothing is written. -/
theorem create_eq_ok_iff {g : Entries} :
    create g = .ok new ↔ (record .standard).update g = .ok new := by
  unfold create
  cases hnames : unknownNames (Record.names StyleKey) g with
  | cons name names => simp [update, hnames]
  | nil => rfl

/-- A record stays a record only where nothing or a group is written over it. -/
theorem Becomes.of_record {r : Record StyleKey} (h : old.Becomes written (record r)) :
    written = none ∧ old = record r ∨
      ∃ g r₀, written = some (.group g) ∧ (∀ entry ∈ g, entry.1 ∈ Record.names StyleKey) ∧
        old = record r₀ ∧ r = r₀.replace g ∧ r.IsChecked := by
  cases written with
  | none => exact .inl ⟨rfl, h.symm⟩
  | some v =>
      cases v with
      | group g =>
          obtain ⟨hnames, r₀, hold, hnew, hchecked⟩ := h
          cases hnew
          exact .inr ⟨g, r₀, rfl, hnames, hold, rfl, hchecked⟩
      | _ => cases h

end StyleValue

/-- A value written over another one.  A group over a group adds to it, anything else replaces. -/
def Setting.onTop (new old : Setting) : Setting :=
  match new.group?, old.group? with
  | some ns, some os => group (os ++ ns)
  | _, _ => new

/-- What is written in two writings, if anything is. -/
def writtenOver (old new : Option Setting) : Option Setting :=
  (new.map fun v => (old.map v.onTop).getD v).or old

/-- Two writings in the place of the style group are one. -/
theorem StyleValue.Becomes.trans {old mid new : StyleValue} {first second : Option Setting}
    (h₁ : old.Becomes first mid) (h₂ : mid.Becomes second new) :
    old.Becomes (writtenOver first second) new := by
  cases second with
  | none =>
      cases h₂
      simpa [writtenOver] using h₁
  | some v =>
      cases hv : v.group? with
      | none =>
          -- What is no group replaces everything.
          have hover : writtenOver first (some v) = some v := by
            cases first <;> simp [writtenOver, Setting.onTop, hv]
          simp only [Becomes, hv] at h₂
          simpa only [hover, Becomes, hv] using h₂
      | some g₂ =>
          simp only [Becomes, hv] at h₂
          obtain ⟨hnames₂, r, rfl, hnew, hchecked⟩ := h₂
          obtain ⟨rfl, rfl⟩ | ⟨g₁, r₀, rfl, hnames₁, rfl, rfl, -⟩ := h₁.of_record
          · simp only [writtenOver, Becomes, Option.map_some, Option.map_none, Option.getD_none,
              Option.some_or, hv]
            exact ⟨hnames₂, r, rfl, hnew, hchecked⟩
          · have hover : writtenOver (some (.group g₁)) (some v) = some (.group (g₁ ++ g₂)) := by
              simp [writtenOver, Setting.onTop, hv]
            rw [hover]
            rw [Record.replace_replace] at hnew hchecked
            exact ⟨List.forall_mem_append.mpr ⟨hnames₁, hnames₂⟩, r₀, rfl, hnew, hchecked⟩

/-! ### One merge -/

/-- Settings that come of writing entries over others: the names are known, what is written takes
the place of what was there, and every value is admitted. -/
structure Settings.Writes (base : Settings) (entries : Entries) (s : Settings) : Prop where
  names : ∀ entry ∈ entries, entry.1 ∈ Settings.names
  style : base.style.Becomes (valueOf? styleName entries) s.style
  record : s.record = base.record.replace entries
  checked : s.record.IsChecked

namespace Settings

variable {base s s₁ s₂ : Settings} {entries old new : Entries}

theorem put_eq_ok_iff {ofGroup : Entries → Except ConfigError StyleValue} :
    base.put ofGroup entries = .ok s ↔
      base.style.read ofGroup (valueOf? styleName entries) = .ok s.style ∧
        s.record = base.record.replace entries ∧ s.record.IsChecked := by
  rw [put, Except.bind_eq_ok_iff]
  simp only [Record.check_bind_eq_ok_iff]
  constructor
  · rintro ⟨style, hstyle, hchecked, hs⟩
    cases hs
    exact ⟨hstyle, rfl, hchecked⟩
  · rintro ⟨hstyle, hrecord, hchecked⟩
    rw [← hrecord]
    exact ⟨s.style, hstyle, hchecked, rfl⟩

/-- Without options a merge changes nothing, and with options it writes them or fails. -/
theorem merge_eq_ok_iff :
    base.merge entries = .ok s ↔
      entries = [] ∧ s = base ∨ entries ≠ [] ∧ base.Writes entries s := by
  by_cases hempty : entries = []
  · simp [merge, hempty, eq_comm]
  · rw [merge, if_neg (by simpa using hempty)]
    simp only [hempty, false_and, false_or, ne_eq, not_false_eq_true, true_and]
    cases hnames : unknownNames names entries with
    | cons name rest =>
        simp only [reduceCtorEq, false_iff]
        intro h
        rw [unknownNames_eq_nil_iff.mpr h.names] at hnames
        cases hnames
    | nil =>
        simp only [put_eq_ok_iff, StyleValue.read_eq_ok_iff]
        have hknown := unknownNames_eq_nil_iff.mp hnames
        exact ⟨fun ⟨hstyle, hrecord, hchecked⟩ => ⟨hknown, hstyle, hrecord, hchecked⟩,
          fun h => ⟨h.style, h.record, h.checked⟩⟩

theorem isChecked_standard : (Record.standard : Record OptionKey).IsChecked :=
  (Record.check_eq_ok_iff _).mp rfl

theorem isChecked_standard_style : (Record.standard : Record StyleKey).IsChecked :=
  (Record.check_eq_ok_iff _).mp rfl

/-- Settings from options alone are a merge over the defaults.  The two differ only in what they
report about names that they do not know. -/
theorem create_eq_ok_iff : create entries = .ok s ↔ standard.merge entries = .ok s := by
  have hread : standard.style.read StyleValue.create (valueOf? styleName entries) = .ok s.style ↔
      standard.style.read standard.style.update (valueOf? styleName entries) = .ok s.style := by
    unfold StyleValue.read
    split
    case h_1 => rfl
    case h_2 v _ =>
      cases v.group? with
      | none => rfl
      | some g => exact StyleValue.create_eq_ok_iff
  by_cases hempty : entries = []
  · have hnames : unknownNames names [] = [] := unknownNames_eq_nil_iff.mpr (by simp)
    rw [hempty, create, hnames]
    rfl
  · unfold create merge
    rw [if_neg (by simpa using hempty)]
    cases unknownNames names entries with
    | cons name rest => simp
    | nil => simp only [put_eq_ok_iff, hread]

/-! ### Merges in a row -/

end Settings

/-- Entries written over others: a name that is written again takes the new value, and a new style
group adds to the old one. -/
def overrideEntries (old new : Entries) : Entries :=
  old ++ new.map fun entry =>
    (entry.1, if entry.1 = styleName then ((valueOf? styleName old).map entry.2.onTop).getD entry.2
      else entry.2)

theorem valueOf?_overrideEntries (name : Text) (old new : Entries) :
    valueOf? name (overrideEntries old new) =
      if name = styleName then writtenOver (valueOf? styleName old) (valueOf? styleName new)
      else (valueOf? name new).or (valueOf? name old) := by
  rw [overrideEntries, valueOf?_append, valueOf?_map fun name (v : Setting) =>
    if name = styleName then ((valueOf? styleName old).map v.onTop).getD v else v]
  by_cases h : name = styleName
  · simp only [h, if_true]
    rfl
  · simp [h]

theorem overrideEntries_nil_left (new : Entries) : overrideEntries [] new = new := by
  have hsame (entry : Text × Setting) :
      (entry.1, if entry.1 = styleName then
        ((valueOf? styleName ([] : Entries)).map entry.2.onTop).getD entry.2 else entry.2) = entry := by
    rw [show valueOf? styleName ([] : Entries) = none from rfl]
    simp
  simp only [overrideEntries, hsame, List.map_id', List.nil_append]

theorem overrideEntries_nil_right (old : Entries) : overrideEntries old [] = old :=
  List.append_nil old

theorem OptionKey.name_ne_styleName (k : OptionKey) : k.name ≠ styleName := by
  cases k <;> decide

/-- For the fields outside the style group the entries only stand behind each other. -/
theorem Record.replace_overrideEntries (r : Record OptionKey) (old new : Entries) :
    r.replace (overrideEntries old new) = r.replace (old ++ new) := by
  funext k
  have hname : (Field.name k : Text) ≠ styleName := k.name_ne_styleName
  simp only [replace, valueOf?_overrideEntries, if_neg hname, valueOf?_append]

namespace Settings

variable {base s s₁ s₂ : Settings} {old new : Entries}

theorem Writes.override (h₁ : base.Writes old s₁) (h₂ : s₁.Writes new s₂) :
    base.Writes (overrideEntries old new) s₂ where
  names := by
    refine List.forall_mem_append.mpr ⟨h₁.names, ?_⟩
    rw [List.forall_mem_map]
    exact h₂.names
  style := by
    rw [valueOf?_overrideEntries, if_pos rfl]
    exact h₁.style.trans h₂.style
  record := by
    rw [Record.replace_overrideEntries, ← Record.replace_replace, ← h₁.record]
    exact h₂.record
  checked := h₂.checked

/-- Two merges in a row are one merge. -/
theorem merge_overrideEntries (h₁ : base.merge old = .ok s₁) (h₂ : s₁.merge new = .ok s₂) :
    base.merge (overrideEntries old new) = .ok s₂ := by
  obtain ⟨rfl, rfl⟩ | ⟨hold, hwrites₁⟩ := merge_eq_ok_iff.mp h₁
  · rwa [overrideEntries_nil_left]
  · obtain ⟨rfl, rfl⟩ | ⟨-, hwrites₂⟩ := merge_eq_ok_iff.mp h₂
    · rwa [overrideEntries_nil_right]
    · have hne : overrideEntries old new ≠ [] := List.append_ne_nil_of_left_ne_nil hold _
      exact merge_eq_ok_iff.mpr (.inr ⟨hne, hwrites₁.override hwrites₂⟩)

/-- A whole sequence of merges is one merge, over what was merged before them. -/
theorem merge_foldl_overrideEntries {news : List Entries} (h₁ : base.merge old = .ok s₁)
    (h₂ : news.foldlM merge s₁ = .ok s₂) :
    base.merge (news.foldl overrideEntries old) = .ok s₂ := by
  induction news generalizing old s₁ with
  | nil =>
      cases h₂
      exact h₁
  | cons new news ih =>
      rw [List.foldlM_cons, Except.bind_eq_ok_iff] at h₂
      obtain ⟨s, hs, hrest⟩ := h₂
      exact ih (merge_overrideEntries h₁ hs) hrest

end Settings

end RazorLayout
