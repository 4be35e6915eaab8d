import RazorLayout.Proofs.Config.Merging
import Mathlib.Tactic.FinCases

/-!
# Settings that are built in steps

Settings are built from the defaults by constructions and merges.  Every such step checks the values
that it leaves behind, so they pass the checks after any number of steps
(`Settings.isChecked_of_build`).  A value that passes its check respects its limit unless it is the
undefined number, which is in order with nothing.  The limits are therefore respected exactly by
those settings that hold no undefined number where a limit is set (`Settings.IsChecked.isValid_iff`),
and by all settings into which none was written.

`Settings.merge_compositional` puts this together with the composition of merges.
-/

namespace RazorLayout

/-! ### What is asked of settings -/

/-- Settings within their limits. -/
structure Settings.IsValid (s : Settings) : Prop where
  indentSize : (s.record .indentSize).IsAtLeast 1
  maxAttributesPerLine : (s.record .maxAttributesPerLine).IsAtLeast 0
  maxLineLength : (s.record .maxLineLength).IsAtLeast 0
  maxDepth : (s.record .maxDepth).IsAtLeast 1
  codeIndentSize : (s.record .codeIndentSize).IsAtLeast 0
  style : ∃ r, s.style = .record r ∧ (r .indentSize = .null ∨ (r .indentSize).IsAtLeast 1)

/-- The values that are compared with a limit. -/
def Settings.limited (s : Settings) : List Setting :=
  [s.record .indentSize, s.record .maxAttributesPerLine, s.record .maxLineLength,
    s.record .maxDepth, s.record .codeIndentSize] ++
  match s.style with
  | .record r => [r .indentSize]
  | .kept _ => []

/-- Settings whose values are all admitted, with a group in the place of the style group. -/
structure Settings.IsChecked (s : Settings) : Prop where
  record : s.record.IsChecked
  style : ∃ r, s.style = .record r ∧ r.IsChecked

/-- Settings without an undefined number. -/
structure Settings.IsDefined (s : Settings) : Prop where
  record : ∀ k, s.record k ≠ .undefined
  style : ∀ r, s.style = .record r → ∀ k, r k ≠ .undefined

/-- Entries with a group in the place of the style group, if there is anything. -/
def WritesStyleAsGroup (entries : Entries) : Prop :=
  ∀ v, valueOf? styleName entries = some v → ∃ g, v = .group g

/-- The values of a group. -/
def Setting.members : Setting → List Setting
  | group entries => entries.map Prod.snd
  | _ => []

/-- The values that entries write, those inside their groups included. -/
def writtenValues (entries : Entries) : List Setting :=
  entries.flatMap fun entry => entry.2 :: entry.2.members

/-- The entries that are written in a step. -/
def Settings.Step.entries : Settings.Step → Entries
  | create entries => entries
  | merge entries => entries

namespace Settings

variable {base s : Settings} {entries : Entries}

/-! ### Limits and undefined numbers -/

/-- Settings that pass the checks are within their limits where no undefined number stands. -/
theorem IsChecked.isValid_iff (h : s.IsChecked) :
    s.IsValid ↔ ∀ v ∈ s.limited, v ≠ .undefined := by
  obtain ⟨r, hstyle, hr⟩ := h.style
  have hbound {m : Nat} {v : Setting} (hv : v.IsAtLeast m) : v ≠ .undefined := by
    rintro rfl
    exact Setting.not_isAtLeast_undefined m hv
  simp only [limited, hstyle, List.cons_append, List.nil_append, List.forall_mem_cons,
    List.not_mem_nil, false_imp_iff, implies_true, and_true]
  constructor
  · intro hvalid
    refine ⟨hbound hvalid.indentSize, hbound hvalid.maxAttributesPerLine,
      hbound hvalid.maxLineLength, hbound hvalid.maxDepth, hbound hvalid.codeIndentSize, ?_⟩
    obtain ⟨r', hstyle', hnull | hsize⟩ := hvalid.style
    · cases hstyle.symm.trans hstyle'
      rw [hnull]
      nofun
    · cases hstyle.symm.trans hstyle'
      exact hbound hsize
  · rintro ⟨hindent, hattrs, hline, hdepth, hcode, hsize⟩
    exact
      { indentSize := (h.record .indentSize).resolve_right hindent
        maxAttributesPerLine := (h.record .maxAttributesPerLine).resolve_right hattrs
        maxLineLength := (h.record .maxLineLength).resolve_right hline
        maxDepth := (h.record .maxDepth).resolve_right hdepth
        codeIndentSize := (h.record .codeIndentSize).resolve_right hcode
        style := ⟨r, hstyle, (hr .indentSize).imp_right fun hadmits =>
          hadmits.resolve_right hsize⟩ }

theorem IsDefined.ne_undefined_of_mem_limited (h : s.IsDefined) :
    ∀ v ∈ s.limited, v ≠ .undefined := by
  unfold limited
  cases hstyle : s.style with
  | record r => simp [h.record, h.style r hstyle .indentSize]
  | kept v => simp [h.record]

/-! ### One step -/

theorem isChecked_default : standard.IsChecked :=
  ⟨isChecked_standard, .standard, rfl, isChecked_standard_style⟩

theorem isDefined_default : standard.IsDefined where
  record k := by cases k <;> nofun
  style r hr k := by
    cases hr
    cases k <;> nofun

/-- What is kept was admitted before, and what is written has been checked. -/
theorem IsChecked.merge (hbase : base.IsChecked) (hstyle : WritesStyleAsGroup entries)
    (h : base.merge entries = .ok s) : s.IsChecked := by
  obtain ⟨-, rfl⟩ | ⟨-, hwrites⟩ := merge_eq_ok_iff.mp h
  · exact hbase
  · refine ⟨hwrites.checked, ?_⟩
    have hbecomes := hwrites.style
    cases hw : valueOf? styleName entries with
    | none =>
        rw [hw] at hbecomes
        have hsame : s.style = base.style := hbecomes
        rw [hsame]
        exact hbase.style
    | some v =>
        obtain ⟨g, rfl⟩ := hstyle v hw
        rw [hw] at hbecomes
        obtain ⟨-, r, -, hnew, hchecked⟩ := hbecomes
        exact ⟨r.replace g, hnew, hchecked⟩

theorem mem_writtenValues {name : Text} {v : Setting} (h : (name, v) ∈ entries) :
    v ∈ writtenValues entries :=
  List.mem_flatMap.mpr ⟨(name, v), h, List.mem_cons_self⟩

theorem mem_writtenValues_of_mem_group {name : Text} {g : Entries} {entry : Text × Setting}
    (hg : (name, .group g) ∈ entries) (h : entry ∈ g) : entry.2 ∈ writtenValues entries :=
  List.mem_flatMap.mpr
    ⟨(name, .group g), hg, List.mem_cons_of_mem _ (List.mem_map_of_mem h)⟩

/-- A record into which no undefined number is written holds none afterwards. -/
theorem replace_ne_undefined {κ : Type} [Field κ] {r : Record κ} {g : Entries}
    (hr : ∀ k, r k ≠ .undefined) (hg : ∀ entry ∈ g, entry.2 ≠ .undefined) (k : κ) :
    r.replace g k ≠ .undefined := by
  obtain hsame | hmem := r.replace_eq_or_mem g k
  · rw [hsame]
    exact hr k
  · exact hg _ hmem

/-- A merge brings in no undefined number that is not written. -/
theorem IsDefined.merge (hbase : base.IsDefined)
    (hentries : ∀ v ∈ writtenValues entries, v ≠ .undefined)
    (h : base.merge entries = .ok s) : s.IsDefined := by
  obtain ⟨-, rfl⟩ | ⟨-, hwrites⟩ := merge_eq_ok_iff.mp h
  · exact hbase
  · constructor
    case record =>
      rw [hwrites.record]
      exact replace_ne_undefined hbase.record fun entry hmem =>
        hentries _ (mem_writtenValues hmem)
    case style =>
      intro r hr
      have hbecomes := hwrites.style
      rw [hr] at hbecomes
      obtain ⟨-, hold⟩ | ⟨g, r₀, hwritten, -, hold, rfl, -⟩ := hbecomes.of_record
      · exact hbase.style r hold
      · exact replace_ne_undefined (hbase.style r₀ hold) fun entry hmem =>
          hentries _ (mem_writtenValues_of_mem_group (mem_of_valueOf? hwritten) hmem)

/-! ### Any number of steps -/

section Invariants

variable {P : Settings → Prop} {Q : Entries → Prop} {steps : List Step}

/-- A construction is a merge over the defaults, so a step keeps what merges keep. -/
theorem invariant_apply {step : Step} (hstandard : P standard)
    (hmerge : ∀ {base s entries}, P base → Q entries → base.merge entries = .ok s → P s)
    (hbase : P base) (hstep : Q step.entries) (h : step.apply base = .ok s) : P s := by
  cases step with
  | create entries => exact hmerge hstandard hstep (create_eq_ok_iff.mp h)
  | merge entries => exact hmerge hbase hstep h

/-- What merges keep holds after any number of steps. -/
theorem invariant_foldlM (hstandard : P standard)
    (hmerge : ∀ {base s entries}, P base → Q entries → base.merge entries = .ok s → P s)
    (hbase : P base) (hsteps : ∀ step ∈ steps, Q step.entries)
    (h : steps.foldlM Step.apply base = .ok s) : P s := by
  induction steps generalizing base with
  | nil =>
      cases h
      exact hbase
  | cons step steps ih =>
      rw [List.foldlM_cons, Except.bind_eq_ok_iff] at h
      obtain ⟨next, hnext, hrest⟩ := h
      rw [List.forall_mem_cons] at hsteps
      exact ih (invariant_apply hstandard hmerge hbase hsteps.1 hnext) hsteps.2 hrest

end Invariants

theorem isChecked_of_build {steps : List Step} (h : build steps = .ok s)
    (hstyle : ∀ step ∈ steps, WritesStyleAsGroup step.entries) : s.IsChecked :=
  invariant_foldlM isChecked_default IsChecked.merge isChecked_default hstyle h

theorem isDefined_of_build {steps : List Step} (h : build steps = .ok s)
    (hentries : ∀ step ∈ steps, ∀ v ∈ writtenValues step.entries, v ≠ .undefined) :
    s.IsDefined :=
  invariant_foldlM (Q := fun entries => ∀ v ∈ writtenValues entries, v ≠ .undefined)
    isDefined_default IsDefined.merge isDefined_default hentries h

end Settings

/-! ### The configuration that settings describe -/

/-- Whole numbers and flags are the values that count. -/
theorem Setting.eq_of_count? {n : Nat} {v : Setting} (h : v.count? = some n) :
    (∃ k, v = .whole k ∧ n = k.toNat) ∨ ∃ b, v = .flag b ∧ n = b.toNat := by
  cases v with
  | number number =>
      cases number with
      | whole k => exact .inl ⟨k, rfl, (Option.some.inj h).symm⟩
      | flag b => exact .inr ⟨b, rfl, (Option.some.inj h).symm⟩
      | fraction x => cases h
  | _ => cases h

theorem Setting.IsAtLeast.le_count {m n : Nat} {v : Setting} (h : v.IsAtLeast m)
    (hn : v.count? = some n) : m ≤ n := by
  obtain ⟨number, hv, hle⟩ := h
  obtain ⟨k, rfl, rfl⟩ | ⟨b, rfl, rfl⟩ := Setting.eq_of_count? hn
  · cases hv
    have hk : (m : Int) ≤ k := hle
    omega
  · cases hv
    exact hle

theorem Setting.limit?_of_count? {n : Nat} {v : Setting} (h : v.count? = some n) :
    v.limit? = some n := by
  obtain ⟨k, rfl, rfl⟩ | ⟨b, rfl, rfl⟩ := Setting.eq_of_count? h <;> rfl

theorem Setting.width?_of_count? {n : Nat} {v : Setting} (h : v.count? = some n) :
    v.width? = some n := by
  obtain ⟨k, rfl, rfl⟩ | ⟨b, rfl, rfl⟩ := Setting.eq_of_count? h <;> rfl

theorem StyleValue.exists_config {r : Record StyleKey}
    (hsize : r .indentSize = .null ∨
      (r .indentSize).IsAtLeast 1 ∧ ∃ n, (r .indentSize).count? = some n) :
    ∃ c, (record r).config? = some c := by
  obtain hnull | ⟨hle, n, hn⟩ := hsize
  · simp [config?, hnull]
  · have hpos : 0 < n := hle.le_count hn
    cases hv : r .indentSize with
    | null => simp [config?, hv]
    | _ => simp_all [config?]

/-- Settings within their limits describe a configuration, when the values that are compared with
limits are in the types that can count. -/
theorem Settings.IsValid.exists_config {s : Settings} (h : s.IsValid)
    (hcount : ∀ v ∈ s.limited, v = .null ∨ ∃ n, v.count? = some n) :
    ∃ c, s.toConfig = .ok c := by
  obtain ⟨r, hstyle, hsize⟩ := h.style
  simp only [limited, hstyle, List.cons_append, List.nil_append, List.forall_mem_cons,
    List.not_mem_nil, false_imp_iff, implies_true, and_true] at hcount
  obtain ⟨hindent, hattrs, hline, hdepth, hcode, hsizeCount⟩ := hcount
  have hcounts {m : Nat} {v : Setting} (hv : v.IsAtLeast m)
      (hc : v = .null ∨ ∃ n, v.count? = some n) : ∃ n, v.count? = some n :=
    hc.resolve_left fun hnull => Setting.not_isAtLeast_null m (hnull ▸ hv)
  obtain ⟨indent, hindent⟩ := hcounts h.indentSize hindent
  obtain ⟨attrs, hattrs⟩ := hcounts h.maxAttributesPerLine hattrs
  obtain ⟨line, hline⟩ := hcounts h.maxLineLength hline
  obtain ⟨depth, hdepth⟩ := hcounts h.maxDepth hdepth
  obtain ⟨code, hcode⟩ := hcounts h.codeIndentSize hcode
  obtain ⟨style, hconfig⟩ := StyleValue.exists_config (r := r)
    (hsize.imp_right fun hle => ⟨hle, hcounts hle hsizeCount⟩)
  have hpos : 0 < indent ∧ 0 < depth :=
    ⟨h.indentSize.le_count hindent, h.maxDepth.le_count hdepth⟩
  simp [toConfig, config?, hindent, Setting.limit?_of_count? hattrs, hstyle, hconfig,
    Setting.width?_of_count? hline, hdepth, hcode, hpos]

/-! ### The main result -/

namespace Settings

/-- Settings that are built in steps are within their limits exactly where no undefined number
stands in a limited place, which is the case when none is written; and merges compose.

* Settings that are built with groups in the place of the style group are within their limits if and
  only if no limited value is the undefined number.  They are when no undefined number is written,
  and then they describe a configuration as soon as the limited values can count.
* Two merges in a row are one merge of the options written over each other, over any settings, and
  so is any sequence of merges.
* A construction is a merge over the defaults.
* A merge without options changes nothing; any other one succeeds exactly when the names are known
  and the values are admitted, and the outcome is fixed key by key. -/
theorem merge_compositional (steps : List Step) (base : Settings) :
    (∀ s : Settings, build steps = .ok s →
        (∀ step ∈ steps, WritesStyleAsGroup step.entries) →
          (s.IsValid ↔ ∀ v ∈ s.limited, v ≠ .undefined) ∧
            ((∀ step ∈ steps, ∀ v ∈ writtenValues step.entries, v ≠ .undefined) →
              s.IsValid ∧
                ((∀ v ∈ s.limited, v = .null ∨ ∃ n, v.count? = some n) →
                  ∃ c, s.toConfig = .ok c))) ∧
      (∀ (s₁ s₂ : Settings) (old new : Entries), base.merge old = .ok s₁ →
        s₁.merge new = .ok s₂ → base.merge (overrideEntries old new) = .ok s₂) ∧
      (∀ (s : Settings) (news : List Entries), news.foldlM merge base = .ok s →
        base.merge (news.foldl overrideEntries []) = .ok s) ∧
      (∀ (s : Settings) (entries : Entries),
        create entries = .ok s ↔ standard.merge entries = .ok s) ∧
      ∀ (s : Settings) (entries : Entries),
        base.merge entries = .ok s ↔
          entries = [] ∧ s = base ∨ entries ≠ [] ∧ base.Writes entries s := by
  refine ⟨fun s h hstyle => ?_, fun s₁ s₂ old new => merge_overrideEntries, fun s news h => ?_,
    fun s entries => create_eq_ok_iff, fun s entries => merge_eq_ok_iff⟩
  · have hvalid := (isChecked_of_build h hstyle).isValid_iff
    refine ⟨hvalid, fun hentries => ?_⟩
    have hs := hvalid.mpr (isDefined_of_build h hentries).ne_undefined_of_mem_limited
    exact ⟨hs, hs.exists_config⟩
  · have hempty : base.merge [] = .ok base := rfl
    exact merge_foldl_overrideEntries hempty h

/-- A style group that is written in two steps, and a depth that is written as a flag. -/
def sampleSteps : List Step :=
  [.create [("style".toList, .group [("indent_size".toList, .whole 3)])],
    .merge [("style".toList, .group [("enabled".toList, .flag true)]),
      ("max_depth".toList, .flag true)]]

/-- An indentation of two and a half. -/
def sampleFraction : Entries :=
  [("indent_size".toList, .number (.fraction (.finite (.ofDigits false 250 (-2)))))]

/-- A style group keeps what only an earlier step says, a depth is written twice, the second time as
a flag that counts as one, and an indentation may be any number that is at least one. -/
theorem merge_compositional_samples :
    (∃ s, build sampleSteps = .ok s ∧ s.IsValid ∧ ∃ c, s.toConfig = .ok c) ∧
      (∃ s, standard.merge
          (overrideEntries
            [("indent_size".toList, .whole 2),
              ("style".toList, .group [("indent_size".toList, .whole 3)])]
            [("style".toList, .group [("enabled".toList, .flag true)]),
              ("indent_size".toList, .whole 8)]) = .ok s ∧
        s.record .indentSize = .whole 8 ∧
          ∃ r, s.style = .record r ∧ r .enabled = .flag true ∧ r .indentSize = .whole 3) ∧
      (∃ s, standard.merge ([[("max_depth".toList, .whole 9)], [],
          [("max_depth".toList, .flag true)]].foldl overrideEntries []) = .ok s ∧
        s.record .maxDepth = .flag true) ∧
      ∃ s, standard.merge sampleFraction = .ok s := by
  have hmain := merge_compositional sampleSteps standard
  refine ⟨⟨_, rfl, ?_⟩, ⟨_, hmain.2.1 _ _ _ _ rfl rfl, rfl, _, rfl, rfl, rfl⟩,
    ⟨_, hmain.2.2.1 _ _ rfl, rfl⟩,
    ⟨⟨Record.standard.replace sampleFraction, .record .standard⟩, ?_⟩⟩
  · have hstyle : ∀ step ∈ sampleSteps, WritesStyleAsGroup step.entries := by
      intro step hstep v hv
      fin_cases hstep
      all_goals exact ⟨_, (Option.some.inj hv).symm⟩
    have hentries : ∀ step ∈ sampleSteps, ∀ v ∈ writtenValues step.entries, v ≠ .undefined := by
      intro step hstep v hv
      fin_cases hstep
      all_goals
        fin_cases hv
        all_goals nofun
    obtain ⟨hvalid, hconfig⟩ := (hmain.1 _ rfl hstyle).2 hentries
    refine ⟨hvalid, hconfig fun v hv => ?_⟩
    fin_cases hv
    all_goals first | exact .inl rfl | exact .inr ⟨_, rfl⟩
  · refine (hmain.2.2.2.2 _ _).mpr
      (.inr ⟨by simp [sampleFraction], by decide, rfl, rfl, fun k => ?_⟩)
    cases k with
    | indentSize =>
        have hvalue : (Decimal.ofDigits false 250 (-2)).value = 5 / 2 := by
          rw [Decimal.value_ofDigits]
          norm_num
        refine .inl ⟨_, rfl, ?_⟩
        simp only [Number.IsAtLeast, Fractional.IsAtLeast, hvalue, Bound.least]
        norm_num
    | _ => exact isChecked_standard _

/-- The undefined number passes every check: a width that is undefined sets no limit, and with an
undefined indentation the layout has nothing to work with. -/
theorem exists_build_not_isValid :
    (∃ s c, build [.merge [("max_line_length".toList, .undefined)]] = .ok s ∧
        s.record .maxLineLength = .undefined ∧ ¬ s.IsValid ∧ s.toConfig = .ok c) ∧
      ∃ s, build [.merge [("indent_size".toList, .undefined)]] = .ok s ∧
        s.record .indentSize = .undefined ∧ ¬ s.IsValid ∧ s.toConfig = .error .illTyped :=
  ⟨⟨_, _, rfl, rfl, fun h => Setting.not_isAtLeast_undefined 0 h.maxLineLength, rfl⟩,
    ⟨_, rfl, rfl, fun h => Setting.not_isAtLeast_undefined 1 h.indentSize, rfl⟩⟩

end Settings

end RazorLayout
