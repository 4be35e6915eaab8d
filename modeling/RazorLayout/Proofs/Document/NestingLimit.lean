import RazorLayout.Proofs.Document.Agreement
import RazorLayout.Proofs.Document.Downgrade
import RazorLayout.Proofs.Document.SideBySide

/-!
# The nesting limit

Where blocks are nested deeper than the limit allows, a block stays as it is and a warning says so.
Without that warning the limit has played no part: a layout with a higher limit takes the same
steps.  And the warning needs a block inside a block for each level, so a text with few sigils never
gives rise to it.

* `Journal.tooDeepCount` counts the warnings about blocks that are nested too deep;
* `Reports` relates a computation to another one that agrees with it unless such a warning is added;
* `Quiet` says of a computation that it adds none.

Results.  `reports_layout`: a layout reports where it differs from one that may go deeper.
`quiet_layout`: with at most as many sigils as levels nothing is too deep, since the body of a block
has a sigil less than the block.  `formatDocument_withMaxDepth`: both for documents.
-/

namespace RazorLayout

section Counting

/-- How many warnings are about blocks that are nested too deep. -/
def Journal.tooDeepCount (j : Journal) : Nat :=
  j.warnings.countP Warning.isTooDeep

variable {α β : Type}

/-- The first computation adds a warning about nesting, or the second one does the same. -/
def Reports (m m' : Journaled α) : Prop :=
  ∀ j, j.tooDeepCount ≤ (m.run j).2.tooDeepCount ∧
    ((m.run j).2.tooDeepCount = j.tooDeepCount → m'.run j = m.run j)

/-- The computation adds no warning about nesting. -/
def Quiet (m : Journaled α) : Prop :=
  ∀ j, (m.run j).2.tooDeepCount = j.tooDeepCount

theorem Quiet.reports {m : Journaled α} (h : Quiet m) : Reports m m :=
  fun j => ⟨(h j).ge, fun _ => rfl⟩

theorem Reports.bind {m m' : Journaled α} {f f' : α → Journaled β} (hm : Reports m m')
    (hf : ∀ a, Reports (f a) (f' a)) : Reports (m >>= f) (m' >>= f') := by
  intro j
  obtain ⟨hfirst, hsame⟩ := hm j
  obtain ⟨hsecond, hsame'⟩ := hf (m.run j).1 (m.run j).2
  have hrun : (m >>= f).run j = (f (m.run j).1).run (m.run j).2 := rfl
  have hrun' : (m' >>= f').run j = (f' (m'.run j).1).run (m'.run j).2 := rfl
  rw [hrun, hrun']
  refine ⟨hfirst.trans hsecond, fun hcount => ?_⟩
  rw [hsame (by omega), hsame' (by omega)]

theorem Quiet.bind {m : Journaled α} {f : α → Journaled β} (hm : Quiet m)
    (hf : ∀ a, Quiet (f a)) : Quiet (m >>= f) :=
  fun j => (hf (m.run j).1 (m.run j).2).trans (hm j)

end Counting

section Steps

/-- A warning about something else does not count. -/
theorem Journal.tooDeepCount_warn (j : Journal) {w : Warning}
    (h : w.isTooDeep = false) : (j.warn w).tooDeepCount = j.tooDeepCount := by
  simp [tooDeepCount, warn, List.countP_append, h]

variable (c : Collaborators)

theorem quiet_askCode (line : Option Int) (text : Text) : Quiet (c.askCode line text) := by
  intro j
  simp only [Collaborators.askCode, StateT.run]
  split
  · rfl
  · split
    · rfl
    · exact Journal.tooDeepCount_warn _ rfl

theorem quiet_askStyle (text : Text) (size : Nat) : Quiet (c.askStyle text size) := by
  intro j
  simp only [Collaborators.askStyle, StateT.run]
  split
  · rfl
  · rfl
  · exact Journal.tooDeepCount_warn _ rfl

theorem sequential_quiet : Sequential c fun m _ => Quiet m where
  pure _ := fun _ => rfl
  bind hm hf := hm.bind hf
  askCode := quiet_askCode c
  askStyle := quiet_askStyle c
  log _ := fun _ => rfl

theorem sequential_reports : Sequential c Reports where
  pure _ := fun _ => ⟨le_rfl, fun _ => rfl⟩
  bind := Reports.bind
  askCode line text := (quiet_askCode c line text).reports
  askStyle text size := (quiet_askStyle c text size).reports
  log _ := fun _ => ⟨le_rfl, fun _ => rfl⟩

end Steps

section Reporting

variable (config : Config) {n : Nat} (hn : 0 < n) (c : Collaborators)

/-- Where there is no nested layout, every block is reported. -/
theorem reports_blockLines_none (indent raw : Text) (m : Journaled (List Text)) :
    Reports (Context.blockLines ⟨config, c, none⟩ indent raw) m := by
  intro j
  have hcount : ((Context.blockLines ⟨config, c, none⟩ indent raw).run j).2.tooDeepCount =
      j.tooDeepCount + 1 := by
    simp [Context.blockLines, StateT.run, Journal.tooDeepCount, Journal.warn, Journal.log,
      List.countP_append, Warning.tooDeep, Warning.make, Warning.isTooDeep]
  omega

/-- A layout reports where it differs from one whose blocks may be nested deeper. -/
theorem reports_layout {k k' : Nat} (hk : k ≤ k') (tokens : List Token) :
    Reports (Context.layout ⟨config, c, formatWithin config c k⟩ tokens)
      (Context.layout ⟨config.withMaxDepth n hn, c,
        formatWithin (config.withMaxDepth n hn) c k'⟩ tokens) := by
  have hR := sequential_reports c
  induction k generalizing k' tokens with
  | zero =>
      exact hR.layout config hn _ _ fun raw _ indent =>
        reports_blockLines_none config c indent raw _
  | succ k ih =>
      obtain ⟨k', rfl⟩ := Nat.exists_eq_succ_of_ne_zero (by omega : k' ≠ 0)
      refine hR.layout config hn _ _ fun raw _ indent => hR.blockLines config hn _ _ indent ?_
      intro block rest _ body _
      exact (ih (by omega) _).bind fun page => hR.pure _

end Reporting

section Sigils

variable {t raw : Text}

/-- A block starts with its sigil. -/
theorem exists_eq_sigil_cons (h : .block raw ∈ Item.ofTokens (tokenize t)) :
    ∃ tail, raw = sigil :: tail := by
  have htokens : ∀ token ∈ tokenize t, token.kind = .block → ∃ tail, token.raw = sigil :: tail := by
    refine forall_mem_tokenize ?_ (fun _ hkind => nomatch hkind) t
    intro c cs hkind
    obtain ⟨⟨block, rest⟩, hread, -⟩ := Option.map_eq_some_iff.1 (readBlock?_of_kind hkind)
    obtain ⟨behind, hcons, -⟩ := Block.read?_eq_cons hread
    obtain ⟨tail, hraw, -⟩ := exists_raw_eq_cons (Prod.eta (readToken c cs)).symm
    exact ⟨tail, by rw [hraw, (List.cons.inj hcons).1]; rfl⟩
  obtain ⟨token, htoken, hkind, rfl⟩ := Item.exists_token_of_block h
  exact htokens token htoken hkind

theorem Text.unlines_map_sublist {f : Text → Text} (hf : ∀ line, (f line).Sublist line)
    (ls : List Text) : (unlines (ls.map f)).Sublist (unlines ls) := by
  fun_induction unlines ls with
  | case1 => exact List.Sublist.refl _
  | case2 line => exact hf line
  | case3 line next rest ih => exact (hf line).append (ih.cons_cons '\n')

/-- A text at the left margin has lost blanks only. -/
theorem Text.dedent_sublist (t : Text) : (dedent t).Sublist t := by
  have hbody : Margin.body (lines t) <:+: lines t := (List.dropWhile_suffix _).isInfix
  refine (unlines_map_sublist (fun line => ?_) _).trans (unlines_sublist hbody)
  split
  · exact List.nil_sublist line
  · exact List.drop_sublist _ line

/-- The body of a block, moved to the left margin, has fewer sigils than the text around it. -/
theorem count_sigil_dedent_lt (h : .block raw ∈ Item.ofTokens (tokenize t)) {block : Block}
    {rest body : Text} (hread : Block.read? raw = some (block, rest))
    (hbody : body ∈ block.bodies) :
    (Text.dedent body).count sigil < t.count sigil := by
  obtain ⟨tail, rfl⟩ := exists_eq_sigil_cons h
  have hbelow : body.count sigil ≤ tail.count sigil :=
    (Block.bodies_isInfix_tail hread body hbody).sublist.count_le sigil
  calc (Text.dedent body).count sigil
      ≤ body.count sigil := (Text.dedent_sublist body).count_le sigil
    _ < tail.count sigil + 1 := Nat.lt_succ_of_le hbelow
    _ = (sigil :: tail).count sigil := List.count_cons_self.symm
    _ ≤ t.count sigil := (raw_infix_of_block h).sublist.count_le sigil

variable (config : Config) (c : Collaborators)

/-- With at most as many sigils as levels, nothing is nested too deep. -/
theorem quiet_layout {k : Nat} (h : t.count sigil ≤ k) :
    Quiet (Context.layout ⟨config, c, formatWithin config c k⟩ (tokenize t)) := by
  have hR := sequential_quiet c
  induction k generalizing t with
  | zero =>
      refine hR.layout config config.maxDepth_pos none none fun raw hraw indent => ?_
      obtain ⟨tail, rfl⟩ := exists_eq_sigil_cons hraw
      have hcount := (raw_infix_of_block hraw).sublist.count_le sigil
      rw [List.count_cons_self] at hcount
      omega
  | succ k ih =>
      let other : Text → Journaled Text := fun _ => pure []
      refine hR.layout config config.maxDepth_pos _ (some other) fun raw hraw indent =>
        hR.blockLines config config.maxDepth_pos _ other indent ?_
      intro block rest hread body hbody
      have hless := count_sigil_dedent_lt hraw hread hbody
      exact (ih (by omega)).bind fun page _ => rfl

end Sigils

/-- The nesting limit matters only when it is reported.  Where a layout warns of no block nested too
deep, a layout with a higher limit gives the same text and leaves the same journal; and there is no
such warning for a document with at most as many sigils as the limit allows levels. -/
theorem formatDocument_withMaxDepth (config : Config) {n : Nat} (hn : config.maxDepth ≤ n)
    (c : Collaborators) (t : Text) :
    let deeper := config.withMaxDepth n (config.maxDepth_pos.trans_le hn)
    let result := (formatDocument config c t).run {}
    ((∀ w ∈ result.2.warnings, w.isTooDeep = false) →
        (formatDocument deeper c t).run {} = result) ∧
      (t.count sigil ≤ config.maxDepth → ∀ w ∈ result.2.warnings, w.isTooDeep = false) := by
  intro deeper result
  have hcount : result.2.tooDeepCount = 0 ↔
      ∀ w ∈ result.2.warnings, w.isTooDeep = false := by
    simp [Journal.tooDeepCount]
  constructor
  · intro hwarnings
    have hreports : Reports (formatDocument config c t) (formatDocument deeper c t) :=
      (sequential_reports c).formatDocument config _ fun text _ =>
        (reports_layout config _ c hn (tokenize text)).bind fun page =>
          (sequential_reports c).pure _
    exact (hreports {}).2 (hcount.2 hwarnings)
  · intro hsigils
    have hquiet : Quiet (formatDocument config c t) :=
      (sequential_quiet c).formatDocument config config.maxDepth_pos fun text htext =>
        (quiet_layout config c ((htext.count_le sigil).trans hsigils)).bind fun page _ => rfl
    exact hcount.1 (hquiet {})

/-- Two sigils, one of them in a block, and a limit of two. -/
theorem formatDocument_withMaxDepth_two :
    let config : Config := { Config.standard with maxDepth := 2, maxDepth_pos := by decide }
    let t : Text := "@if (x) \x7b\n<p>@name</p>\n\x7d".toList
    let result := (formatDocument config {} t).run {}
    (∀ w ∈ result.2.warnings, w.isTooDeep = false) ∧
      (formatDocument (config.withMaxDepth 9 (by decide)) {} t).run {} = result := by
  intro config t result
  have hlimit : config.maxDepth ≤ 9 := by decide
  obtain ⟨hsame, hquiet⟩ := formatDocument_withMaxDepth config hlimit {} t
  have hwarnings : ∀ w ∈ result.2.warnings, w.isTooDeep = false := hquiet (by decide)
  exact ⟨hwarnings, hsame hwarnings⟩

-- A block inside a block is reported where one level is allowed, and then the limit does matter.
example :
    let config : Config := { Config.standard with maxDepth := 1, maxDepth_pos := by decide }
    let t : Text := "@if (x) \x7b @if (y) \x7b a \x7d \x7d".toList
    let result := (formatDocument config {} t).run {}
    result.2.warnings = [.tooDeep 1] ∧
      ((formatDocument (config.withMaxDepth 2 (by decide)) {} t).run {}).1 ≠ result.1 := by
  decide +kernel

end RazorLayout
