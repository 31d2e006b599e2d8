import StoryScript.Proofs.Script.Sections

/-!
The lines of a script as runs of its glyphs, and what they hold, each annotation with the scope
before its line (`Script.placements`). Diverts stand in lines that open no section, so the scope
before its line is the scope of a divert; and no other annotation starts where a divert does.
-/

namespace StoryScript.Script

open List Scope

variable {line : List Glyph} {scope : Scope} {ls : List (List Glyph)}

/-! ### Diverts -/

theorem isDivert_sectionHeader (scope : Scope) (k : SymbolKind) (id : String → String)
    (b : List Glyph) :
    ∀ x ∈ (sectionHeader scope k id b).references, x.value.isDivert = false := by
  unfold sectionHeader
  split_ifs
  · exact nofun
  · exact forall_mem_cons.mpr ⟨rfl, fun x hi ↦ (stated_parameters _ _ x hi).isDivert⟩

/-- Diverts stand in plain lines only. -/
theorem scanLine_cases (scope : Scope) (line : List Glyph) :
    (∀ item ∈ (scanLine scope line).references, item.value.isDivert = false) ∨ scanLine scope line =
        { scope, references := plainLine scope (skipBlanks (dropComment line)) } := by
  unfold scanLine
  dsimp only
  split
  · exact .inl (isDivert_sectionHeader scope .knot id (knotBody _))
  · exact .inl (isDivert_sectionHeader scope .stitch _ (skipBlanks _))
  · split
    · exact .inl nofun
    · exact .inl fun x hi ↦ (stated_listLine scope line _ x hi).isDivert
    · exact .inr rfl

theorem forall_mem_trail {p : Char → Prop} (hd : p '.') {o : String}
    (ho : ∀ c ∈ o.toList, p c) {ss : List (List Glyph)}
    (hse : ∀ s ∈ ss, ∀ g ∈ s, p g.char) :
    ∀ e ∈ trail o ss, ∀ c ∈ e.2.toList, p c := by
  induction ss generalizing o with
  | nil => exact nofun
  | cons s r ih =>
    obtain ⟨hs, hr⟩ := forall_mem_cons.mp hse
    have hp : ∀ c ∈ (o ++ spell s).toList, p c := by
      rw [String.toList_append, spell, String.toList_ofList]
      exact forall_mem_append.mpr ⟨ho, forall_mem_map.mpr hs⟩
    refine forall_mem_cons.mpr ⟨hp, ih ?_ hr⟩
    rw [String.toList_append]
    exact forall_mem_append.mpr ⟨hp, forall_mem_singleton.mpr hd⟩

/-- A divert along a path, in which no character stands for an unknown type. -/
def PathDivert (x : Annotated Reference) : Prop :=
  ∃ id, x.value = Reference.ofUse .divert id ∧ '?' ∉ id.toList

theorem pathDivert_of_mem_targetReferences {path : List Glyph}
    (h : ∀ g ∈ path, isPathChar g = true) : ∀ x ∈ targetReferences path, PathDivert x := by
  unfold targetReferences
  split_ifs
  · exact nofun
  · intro x hi
    obtain ⟨e, he, rfl⟩ := mem_map.mp hi
    refine ⟨e.2, rfl, fun hm ↦ ?_⟩
    have hse : ∀ s ∈ path.splitOnP isDot, ∀ g ∈ s, '?' ≠ g.char := by
      rintro s hs g hg heq
      have hc := h g ((Text.isInfix_of_mem_splitOnP hs).mem hg)
      rw [isPathChar, ← heq] at hc
      cases hc
    exact forall_mem_trail (by decide) (by simp) hse e (mem_of_mem_filter he) _ hm rfl

theorem pathDivert_of_mem_maskDiverts (line : List Glyph) :
    ∀ i ∈ (maskDiverts line).found, PathDivert i := by
  fun_induction maskDiverts line with
  | case1 => exact forall_mem_nil _
  | case2 => exact forall_mem_nil _
  | case3 x y r _ arrow blanks path tail ih =>
    exact forall_mem_append.mpr
      ⟨pathDivert_of_mem_targetReferences fun g hg ↦ mem_takeWhile_imp hg, ih⟩
  | case4 x y r _ tail ih => exact ih

/-- The diverts of a plain line are those that its mask takes out. -/
theorem mem_found_of_mem_plainLine {x : Annotated Reference}
    (hi : x ∈ plainLine scope line) (hd : x.value.isDivert = true) :
    x ∈ (maskDiverts (maskStrings false line)).found := by
  unfold plainLine at hi
  simp only [mem_append] at hi
  rcases hi with ((hi | hi) | hi) | hi
  · exact hi
  · rw [((taken_maskTags _).uses x hi).2.2] at hd
    cases hd
  · rw [(stated_statementLine _ _ x hi).isDivert] at hd
    cases hd
  · rw [(uses_inlineReads _ x hi).2.2] at hd
    cases hd

section Layout

variable {t : List Char} {ls : List (List Glyph)}

/-- The scope before its line is the scope that a divert lies in. -/
theorem scopeBefore_divert (h : Layout t ls) (hs : scope.Clear)
    {e : Scope × Annotated Reference} (he : e ∈ placements scope ls)
    (hd : e.2.value.isDivert = true) :
    scopeBefore t scope ((placements scope ls).map Prod.snd) e.2.span.start =
      e.1 := by
  induction ls generalizing scope with
  | nil => cases he
  | cons line l ih =>
    have hsc := h.scanned hs
    have hl := (dropReturns_isPrefix line).isInfix
    have hsh := (forall_mem_cons.mp h.shows).1.mono hl
    rw [placements, map_append, map_snd_placed]
    rcases mem_append.mp he with he | he
    · obtain ⟨x, hi, rfl⟩ := mem_map.mp he
      rw [scopeBefore_append_of_le _ _ _ (forall_mem_map.mpr fun o ho ↦
        Nat.le_of_lt (h.start_lt hs hi ho))]
      obtain hn | hpl := scanLine_cases scope (dropReturns line)
      · rw [hn x hi] at hd
        cases hd
      · have hlo : ∀ x ∈ plainLine scope (skipBlanks (dropComment (dropReturns line))),
            Local t scope x :=
          local_plainLine
            (hsh.mono ((skipBlanks_suffix _).isInfix.trans (dropComment_isPrefix _).isInfix))
        rw [hpl]
        exact foldl_visit_of_not_opens (fun o ho ↦ (hlo o (mem_of_mem_filter ho)).opens) t scope
    · have hp := placed_scanLine hs hsh ((forall_mem_cons.mp h.spaced).1.of_isInfix hl)
      rw [scopeBefore_append_of_lt _ _ fun o ho ↦ h.start_lt hs ho he, (Sited.of_placed hp).next_eq]
      exact ih h.tail hsc.clear he

end Layout

/-! ### Whole scripts -/

section Script

variable {t : String} {e : Scope × Annotated Reference}

theorem mem_items_of_mem_placementsOf (h : e ∈ placementsOf t) :
    e.2 ∈ (annotate t).references.items := by
  rw [(perm_lineItems t).mem_iff, lineItems_eq]
  exact mem_map_of_mem h

theorem pathDivert_of_mem_placements (he : e ∈ placementsOf t)
    (hd : e.2.value.isDivert = true) : PathDivert e.2 := by
  obtain ⟨line, -, -, hi⟩ := exists_line_of_mem_placements (layout_lineGlyphs t)
    (show top.Clear from nofun) he
  obtain hn | hp := scanLine_cases e.1 (dropReturns line)
  · rw [hn e.2 hi] at hd
    cases hd
  · rw [hp] at hi
    exact pathDivert_of_mem_maskDiverts _ e.2 (mem_found_of_mem_plainLine hi hd)

/-- A divert lies in the scope at its start. -/
theorem atOffset_divert (h : e ∈ placementsOf t) (hd : e.2.value.isDivert = true) :
    atOffset (annotate t) t.toList e.2.span.start = e.1 := by
  rw [atOffset_annotate, lineItems_eq]
  exact scopeBefore_divert (layout_lineGlyphs t) (show top.Clear from nofun) h hd

end Script

/-- The diverts among annotations that come with scopes: the path of the scope, and that of the
divert. -/
def divertsAt (es : List (Scope × Annotated Reference)) : List (String × String) :=
  es.flatMap fun e ↦ if e.2.value.isDivert then e.2.value.symbolIds.map (e.1.path, ·) else []

theorem walk_eq_map (t : String) :
    walk t.toList top (annotate t).references.items = (annotate t).references.items.map fun item ↦
        (atOffset (annotate t) t.toList item.span.start, item) := by
  have hi := map_snd_walk t.toList top (annotate t).references.items
  conv_rhs => rw [← hi, map_map]
  refine (map_id _).symm.trans (map_congr_left fun e he ↦ ?_)
  exact Prod.ext (eq_atOffset_of_mem_walk (faithful_annotate t) he) rfl

/-- The diverts that a walk over the annotations meets are those of the lines. -/
theorem perm_divertsAt (t : String) :
    (divertsAt (walk t.toList top (annotate t).references.items)).Perm
      (divertsAt (placementsOf t)) := by
  rw [walk_eq_map, divertsAt, flatMap_map]
  refine ((perm_lineItems t).flatMap_right _).trans ?_
  rw [lineItems_eq, flatMap_map]
  refine Perm.of_eq (flatMap_congr fun e he ↦ ?_)
  cases hd : e.2.value.isDivert with
  | false => rfl
  | true => rw [atOffset_divert he hd]

/-! ### Includes -/

/-- A line includes one script at most, and the path of the script is a run of the line. -/
theorem includes_scanLine (scope : Scope) (line : List Glyph) :
    (scanLine scope line).includes.length ≤ 1 ∧ ∀ x ∈ (scanLine scope line).includes,
        ∃ run, run <:+: line ∧ run ≠ [] ∧ x.span = spanOf run := by
  have hc : skipBlanks (dropComment line) <:+: line :=
    (skipBlanks_suffix _).isInfix.trans (dropComment_isPrefix line).isInfix
  unfold scanLine
  dsimp only
  generalize skipBlanks (dropComment line) = c at hc
  split
  · unfold knotHeader
    dsimp only
    split_ifs <;> exact ⟨Nat.zero_le _, nofun⟩
  · unfold stitchHeader
    dsimp only
    split_ifs <;> exact ⟨Nat.zero_le _, nofun⟩
  · split
    · rename_i path hp
      have hpi : Text.trimEndWhile (fun g ↦ Text.isWhiteSpace g.char) (skipBlanks path) <:+:
          line :=
        (Text.trimEndWhile_isPrefix _ _).isInfix.trans ((skipBlanks_suffix path).isInfix.trans
          ((dropWord?_suffix hp).isInfix.trans hc))
      unfold includeLine
      dsimp only
      split_ifs with hn
      · exact ⟨Nat.zero_le _, nofun⟩
      · exact ⟨Nat.le_refl _, forall_mem_singleton.mpr ⟨_, hpi, hn, rfl⟩⟩
    · exact ⟨Nat.zero_le _, nofun⟩
    · exact ⟨Nat.zero_le _, nofun⟩

theorem exists_run_of_mem_inclusions {x : Annotated Include} (h : x ∈ inclusions scope ls) :
    ∃ line ∈ ls, ∃ run, run <:+: line ∧ run ≠ [] ∧ x.span = spanOf run := by
  induction ls generalizing scope with
  | nil => cases h
  | cons line l ih =>
    rcases mem_append.mp h with h | h
    · obtain ⟨run, hr, hn, hs⟩ := (includes_scanLine scope _).2 x h
      exact ⟨line, mem_cons_self, run, hr.trans (dropReturns_isPrefix line).isInfix, hn, hs⟩
    · obtain ⟨o, ho, hr⟩ := ih h
      exact ⟨o, mem_cons_of_mem _ ho, hr⟩

/-- The includes of a script stand in the order of its lines. -/
theorem pairwise_inclusions {t : List Char} (h : Layout t ls) (scope : Scope) :
    (inclusions scope ls).Pairwise fun a y ↦ a.span.start < y.span.start := by
  induction ls generalizing scope with
  | nil => exact .nil
  | cons line l ih =>
    obtain ⟨ho, hru⟩ := includes_scanLine scope (dropReturns line)
    refine pairwise_append.mpr ⟨?_, ih h.tail _, fun x hit o hot ↦ ?_⟩
    · match hi : (scanLine scope (dropReturns line)).includes with
      | [] => exact .nil
      | [x] => exact pairwise_singleton _ x
      | a :: y :: r =>
        rw [hi] at ho
        simp at ho
    · obtain ⟨run, hr, hn, hs⟩ := hru x hit
      obtain ⟨f, hf, run', hr', hn', hs'⟩ := exists_run_of_mem_inclusions hot
      obtain ⟨left, hl, _, _, he⟩ := exists_ends_spanOf hn
      obtain ⟨right, hri, _, _, he'⟩ := exists_ends_spanOf hn'
      rw [hs, hs', he, he']
      exact (pairwise_cons.mp h.pairwise).1 f hf left
        ((dropReturns_isPrefix line).mem (hr.mem hl)) right (hr'.mem hri)

theorem items_includes_annotate (t : String) :
    (annotate t).includes.items = inclusions top (lineGlyphs t) := by
  have hi : (annotate t).includes.items =
      (RangeSet.ofList (inclusions top (lineGlyphs t))).items := by
    rw [annotate, scanLines_eq, lineGlyphs_eq]
    rfl
  rw [hi]
  refine mergeSort_of_pairwise ((pairwise_inclusions (layout_lineGlyphs t) top).imp fun hl ↦ ?_)
  rw [Span.precedes, decide_eq_true hl, Bool.true_or]

end StoryScript.Script
