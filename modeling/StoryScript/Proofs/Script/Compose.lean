import StoryScript.Proofs.Script.Shift

/-!
Scripts are read line by line, and what one line leaves to the next is the scope alone. So the
annotations of texts that are put together are those of the parts, each moved to where it stands.
A part that opens with a knot reads the same wherever it stands, and lines that open no section
leave the lines behind them as they were (`annotate_append_insert`).
-/

namespace StoryScript.Script

open LineScan List RangeSet Scope Text

variable {t : String} {scope : Scope} {start : Nat}

/-! ### Runs of lines -/

/-- What two parts of a script hold, one behind the other. -/
def LineScan.append (first second : LineScan) : LineScan where
  scope := second.scope
  references := first.references ++ second.references
  includes := first.includes ++ second.includes

/-- What some lines hold, and the scope behind them. -/
def scanAll : Scope → List (List Glyph) → LineScan
  | scope, [] => { scope }
  | scope, l :: later =>
    let scan := scanLine scope (dropReturns l)
    scan.append (scanAll scan.scope later)

theorem scanAll_append (scope : Scope) (ls l : List (List Glyph)) :
    scanAll scope (ls ++ l) = (scanAll scope ls).append (scanAll (scanAll scope ls).scope l) := by
  induction ls generalizing scope with
  | nil => rfl
  | cons line r ih =>
    rw [cons_append, scanAll, ih, scanAll]
    simp only [append, append_assoc]

theorem scanAll_add (n : Nat) (scope : Scope) (off : Nat) (ls : List (List Char)) :
    scanAll scope (glyphLines (off + n) ls) = (scanAll scope (glyphLines off ls)).shift n := by
  induction ls generalizing scope off with
  | nil => rfl
  | cons l later ih =>
    rw [glyphLines, glyphLines, scanAll, scanAll, ← glyphs_dropReturns, ← glyphs_dropReturns,
      scanLine_add, Nat.add_right_comm off, Nat.add_right_comm _ n]
    dsimp only [shift]
    rw [ih]
    simp only [append, shift, map_append]

theorem scanAll_eq (scope : Scope) (ls : List (List Glyph)) :
    (scanAll scope ls).references = (placements scope ls).map Prod.snd ∧
      (scanAll scope ls).includes = inclusions scope ls := by
  induction ls generalizing scope with
  | nil => exact ⟨rfl, rfl⟩
  | cons l later ih =>
    obtain ⟨hr, hi⟩ := ih (scanLine scope (dropReturns l)).scope
    rw [scanAll, placements, inclusions, ← hi, map_append, ← hr, map_snd_placed]
    exact ⟨rfl, rfl⟩

/-- What a text holds that starts in a scope. -/
def scan (scope : Scope) (t : String) : LineScan :=
  scanAll scope (lineGlyphs t)

theorem references_scan (t : String) : (scan top t).references = lineItems t := by
  rw [scan, (scanAll_eq _ _).1, lineItems_eq, placementsOf]

theorem references_annotate (t : String) :
    (annotate t).references = ofList (scan top t).references := by
  rw [references_scan]
  rfl

theorem includes_scan (t : String) : (scan top t).includes = (annotate t).includes.items := by
  rw [scan, (scanAll_eq _ _).2, items_includes_annotate]

/-- A text of whole lines. -/
def EndsLine (t : String) : Prop :=
  t = "" ∨ t.toList.getLast? = some '\n'

instance (t : String) : Decidable (EndsLine t) :=
  inferInstanceAs (Decidable (_ ∨ _))

/-- The lines of a text of whole lines stand before those of whatever follows. -/
theorem exists_lineGlyphs_append (h : EndsLine t) :
    ∃ ls, ∀ l : String, lineGlyphs (t ++ l) =
      ls ++ glyphLines (byteLength t.toList) (l.toList.splitOn '\n') := by
  rcases h with rfl | hl
  · refine ⟨[], fun l ↦ ?_⟩
    rw [String.empty_append, lineGlyphs_eq]
    rfl
  · obtain ⟨o, ho⟩ := getLast?_eq_some_iff.mp hl
    refine ⟨(glyphs 0 o).splitOnP isLineFeed, fun l ↦ ?_⟩
    rw [lineGlyphs, String.toList_append, ho, append_assoc, glyphs_append,
      singleton_append, glyphs, splitOnP_append_cons _ _ rfl, splitOnP_glyphs,
      splitOnP_glyphs, byteLength_append, Nat.zero_add]
    rfl

/-- The parts of a script are read one after the other. -/
theorem scan_append {first : String} (h : EndsLine first) (scope : Scope) (second : String) :
    scan scope (first ++ second) = (scan scope first).append
      ((scan (scan scope first).scope second).shift (byteLength first.toList)) := by
  obtain ⟨lines, hl⟩ := exists_lineGlyphs_append h
  have he := hl ""
  rw [String.append_empty] at he
  have hf : scan scope first = scanAll scope lines := by
    rw [scan, he, scanAll_append]
    have hn : scanAll (scanAll scope lines).scope [[]] = { scope := (scanAll scope lines).scope } := by
      rw [scanAll, show dropReturns [] = [] from rfl, scanLine_nil]
      rfl
    change (scanAll scope lines).append (scanAll _ [[]]) = _
    rw [hn]
    simp only [append, append_nil]
  have hs := scanAll_add (byteLength first.toList) (scanAll scope lines).scope 0
    (second.toList.splitOn '\n')
  rw [Nat.zero_add, ← lineGlyphs_eq] at hs
  rw [hf, scan, hl, scanAll_append, hs, scan]

/-! ### Headers of sections -/

/-- The code of a line: what stands between its margin and its comment or its end. -/
def code (l : List Glyph) : List Glyph :=
  skipBlanks (dropComment (dropReturns l))

/-- Whether a line is the header of a knot that has a name. -/
def opensKnot (l : List Glyph) : Bool :=
  (dropText? ['=', '='] (code l)).isSome && takeName (knotBody (code l)) ≠ []

/-- Whether a line is the header of a stitch that has a name. -/
def opensStitch (l : List Glyph) : Bool :=
  (dropText? ['=', '='] (code l)).isNone &&
    (dropText? ['='] (code l)).any fun r ↦ takeName (skipBlanks r) ≠ []

/-- A text whose first line is the header of a knot that has a name. -/
def StartsKnot (t : String) : Prop :=
  (lineGlyphs t).head?.any opensKnot = true

instance (t : String) : Decidable (StartsKnot t) :=
  inferInstanceAs (Decidable (_ = _))

/-- A text without headers of sections that have names. -/
def Sectionless (t : String) : Prop :=
  ∀ l ∈ lineGlyphs t, opensKnot l = false ∧ opensStitch l = false

instance (t : String) : Decidable (Sectionless t) :=
  inferInstanceAs (Decidable (∀ line ∈ lineGlyphs t, _))

theorem scanLine_eq_code (scope : Scope) (l : List Glyph) :
    scanLine scope (dropReturns l) = match dropText? ['=', '='] (code l), dropText? ['='] (code l),
        dropWord? "INCLUDE" (code l), dropWord? "LIST" (code l) with
      | some _, _, _, _ => knotHeader scope (code l)
      | none, some rest, _, _ => stitchHeader scope rest
      | none, none, some path, _ => includeLine scope path
      | none, none, none, some declared => { scope, references := listLine declared }
      | none, none, none, none => { scope, references := plainLine scope (code l) } :=
  scanLine_eq (dropReturns l) scope

/-- A knot's header does not depend on the scope before it. -/
theorem scanLine_of_opensKnot {l : List Glyph} (h : opensKnot l = true) (scope scope' : Scope) :
    scanLine scope (dropReturns l) = scanLine scope' (dropReturns l) := by
  simp only [opensKnot, Bool.and_eq_true, decide_eq_true_eq] at h
  obtain ⟨hs, hn⟩ := h
  obtain ⟨rest, hr⟩ := Option.isSome_iff_exists.mp hs
  rw [scanLine_eq_code, scanLine_eq_code, hr]
  dsimp only
  rw [knotHeader_eq, knotHeader_eq, sectionHeader, sectionHeader, if_neg hn, if_neg hn]
  rfl

/-- A line that opens no section leaves the scope as it is. -/
theorem scope_scanLine {l : List Glyph} (hk : opensKnot l = false)
    (hst : opensStitch l = false) (scope : Scope) :
    (scanLine scope (dropReturns l)).scope = scope := by
  rw [scanLine_eq_code]
  unfold opensKnot at hk
  unfold opensStitch at hst
  cases hs : dropText? ['=', '='] (code l) with
  | some rest =>
    have hn : takeName (knotBody (code l)) = [] := by simpa [hs] using hk
    dsimp only
    rw [knotHeader_eq, sectionHeader, if_pos hn]
  | none =>
    cases hsi : dropText? ['='] (code l) with
    | some rest =>
      have hn : takeName (skipBlanks rest) = [] := by simpa [hs, hsi] using hst
      dsimp only
      rw [stitchHeader_eq, sectionHeader, if_pos hn]
    | none =>
      cases dropWord? "INCLUDE" (code l) with
      | some path => rfl
      | none => cases dropWord? "LIST" (code l) <;> rfl

theorem scan_of_startsKnot (h : StartsKnot t) (scope scope' : Scope) :
    scan scope t = scan scope' t := by
  obtain ⟨l, hf, hk⟩ := Option.any_eq_true _ _ |>.mp h
  obtain ⟨lt, hl⟩ := head?_eq_some_iff.mp hf
  rw [scan, scan, hl, scanAll, scanAll, scanLine_of_opensKnot hk scope scope']

theorem scope_scanAll {ls : List (List Glyph)}
    (h : ∀ l ∈ ls, opensKnot l = false ∧ opensStitch l = false) (scope : Scope) :
    (scanAll scope ls).scope = scope := by
  induction ls generalizing scope with
  | nil => rfl
  | cons l later ih =>
    obtain ⟨⟨hk, hs⟩, hl⟩ := forall_mem_cons.mp h
    change (scanAll (scanLine scope (dropReturns l)).scope later).scope = scope
    rw [scope_scanLine hk hs, ih hl]

/-! ### Annotations in their order -/

theorem marks_scan (hs : scope.Clear) (t : String) :
    ∀ x ∈ (scan scope t).references, Marks (glyphs 0 t.toList) x := by
  have hr := (read_scanLines hs 0 (t.toList.splitOn '\n')).marks
  rwa [intercalate_splitOn, scanLines_eq, ← lineGlyphs_eq, ← (scanAll_eq _ _).1] at hr

theorem clear_scan (hs : scope.Clear) (t : String) : (scan scope t).scope.Clear := by
  have hsp := (layout_lineGlyphs t).spaced
  unfold scan
  generalize lineGlyphs t = ls at hsp
  induction ls generalizing scope with
  | nil => exact hs
  | cons l later ih =>
    obtain ⟨hli, hl⟩ := forall_mem_cons.mp hsp
    exact ih (scanned_scanLine hs (hli.of_isInfix (dropReturns_isPrefix l).isInfix)).clear hl

/-- Whatever a text holds lies within it. -/
theorem stop_le_of_mem_scan (hsc : scope.Clear) (t : String) :
    (∀ x ∈ (scan scope t).references, x.span.start ≤ x.span.stop ∧
        x.span.stop ≤ byteLength t.toList) ∧
      ∀ x ∈ (scan scope t).includes, x.span.stop ≤ byteLength t.toList := by
  refine ⟨fun x hi ↦ ?_, fun x hi ↦ ?_⟩
  · have hm := marks_scan hsc t x hi
    obtain ⟨run, hr, hn, -, hs⟩ := hm.exists_run
    exact ⟨Nat.le_of_lt (hm.start_lt_stop (rising_glyphs _ _)),
      hs ▸ stop_spanOf_le_byteLength hr hn⟩
  · rw [scan, (scanAll_eq _ _).2] at hi
    obtain ⟨l, hl, run, hr, hn, hs⟩ := exists_run_of_mem_inclusions hi
    exact hs ▸ stop_spanOf_le_byteLength (hr.trans (isInfix_of_mem_splitOnP hl)) hn

/-- Sorted annotations of one part of a text, and those of the part behind it. -/
theorem pairwise_append_shift {xs l : List (Annotated Reference)}
    (h : xs.Pairwise fun first second ↦ first.span.start ≤ second.span.start)
    (hl : l.Pairwise fun first second ↦ first.span.start ≤ second.span.start)
    (hit : ∀ x ∈ xs, x.span.start ≤ start) :
    (xs ++ l.map (Annotated.shift start)).Pairwise fun first second ↦
      first.span.start ≤ second.span.start := by
  refine pairwise_append.mpr ⟨h, pairwise_map.mpr (hl.imp fun hle ↦ ?_), fun x hi o ho ↦ ?_⟩
  · exact Nat.add_le_add_right hle start
  · obtain ⟨moved, -, rfl⟩ := mem_map.mp ho
    exact Nat.le_trans (hit x hi) (Nat.le_add_left _ _)

/-- The annotations of a script in two parts: those of the first part in their order, and those of
the second in theirs. -/
theorem items_annotate_of_parts {l back xs : List (Annotated Reference)}
    (hs : (scan top t).references = l ++ back.map (Annotated.shift start))
    (hpe : xs.Perm l)
    (hso : xs.Pairwise fun first second ↦ first.span.start ≤ second.span.start)
    (hst : ∀ x ∈ xs, x.span.start ≤ start) :
    (annotate t).references.items = xs ++ (ofList back).items.map (Annotated.shift start) := by
  have ha : (annotate t).references.Sorted := sorted_ofList _
  have hp : (annotate t).references.items.Perm
      (xs ++ (ofList back).items.map (Annotated.shift start)) := by
    rw [references_annotate, hs]
    exact (perm_ofList _).trans (hpe.append ((perm_ofList back).map _)).symm
  refine hp.eq_of_pairwise ?_ ha (pairwise_append_shift hso (sorted_ofList back) hst)
  -- Annotations that start together are the same, so there is only one order.
  intro first second hf hse hl hl'
  exact eq_of_start_eq_annotate (hp.mem_iff.mpr hse) hf (Nat.le_antisymm hl hl')

theorem shift_shift {α : Type} (first second : Nat) (xs : List (Annotated α)) :
    (xs.map (Annotated.shift first)).map (Annotated.shift second) =
      xs.map (Annotated.shift (first + second)) := by
  simp [Annotated.shift, Span.shift, Nat.add_assoc]

/-! ### Parts of a script -/

/-- What a text has annotated before and after some bytes are inserted into it. -/
def Inserts {α : Type} (start length : Nat) (xs inserted : List (Annotated α)) : Prop :=
  ∃ first own l, xs = first ++ l ∧ inserted = first ++ own ++ l.map (Annotated.shift length) ∧
    (∀ x ∈ first, x.span.stop ≤ start) ∧
    (∀ x ∈ own, start ≤ x.span.start ∧ x.span.stop ≤ start + length) ∧
    ∀ x ∈ l, start ≤ x.span.start

/-- What stands behind a point moves, and what is inserted there stands in between. -/
theorem inserts_shift {α : Type} {length : Nat} {first own l : List (Annotated α)}
    (hf : ∀ x ∈ first, x.span.stop ≤ start)
    (ho : ∀ x ∈ own, x.span.stop ≤ length) :
    Inserts start length (first ++ l.map (Annotated.shift start))
      (first ++ own.map (Annotated.shift start) ++ l.map (Annotated.shift (start + length))) := by
  refine ⟨first, _, _, rfl, by rw [shift_shift], hf, ?_, ?_⟩
  · refine forall_mem_map.mpr fun x hi ↦ ⟨Nat.le_add_left _ _, ?_⟩
    have := ho x hi
    simp only [Annotated.shift, Span.shift]
    omega
  · exact forall_mem_map.mpr fun x _ ↦ Nat.le_add_left _ _

variable {first second before block after : String}

/-- A text that starts with a knot reads the same behind other lines. -/
theorem annotate_append (hf : EndsLine first) (hse : StartsKnot second) :
    (annotate (first ++ second)).references.items = (annotate first).references.items ++
        (annotate second).references.items.map (Annotated.shift (byteLength first.toList)) ∧
      (annotate (first ++ second)).includes.items = (annotate first).includes.items ++
        (annotate second).includes.items.map (Annotated.shift (byteLength first.toList)) := by
  have hs := scan_append hf top second
  rw [scan_of_startsKnot hse _ top] at hs
  constructor
  · rw [references_annotate second]
    refine items_annotate_of_parts (congrArg references hs) ?_ (sorted_ofList _) fun x hi ↦ ?_
    · rw [references_annotate]
      exact perm_ofList _
    · obtain ⟨hl, hst⟩ := stop_le_of_mem_annotate hi
      exact Nat.le_trans hl hst
  · rw [← includes_scan, ← includes_scan, ← includes_scan, hs]
    rfl

theorem EndsLine.append (hbe : EndsLine before) (hb : EndsLine block) :
    EndsLine (before ++ block) := by
  rcases hb with rfl | hl
  · rwa [String.append_empty]
  · refine .inr ?_
    rw [String.toList_append, getLast?_append, hl, Option.some_or]

/-- Lines without section headers leave the other lines as they are. -/
theorem annotate_insert (hb : EndsLine before) (hbl : EndsLine block) (hpl : Sectionless block) :
    Inserts (byteLength before.toList) (byteLength block.toList)
        (annotate (before ++ after)).references.items
        (annotate (before ++ block ++ after)).references.items ∧
      Inserts (byteLength before.toList) (byteLength block.toList)
        (annotate (before ++ after)).includes.items
        (annotate (before ++ block ++ after)).includes.items := by
  have hc := clear_scan (show top.Clear from nofun) before
  have hw := scan_append hb top after
  have hop := scan_append hb top block
  have hin := scan_append (hb.append hbl) top after
  have hl : byteLength (before ++ block).toList =
      byteLength before.toList + byteLength block.toList := by
    rw [String.toList_append, byteLength_append]
  obtain ⟨hf, hf'⟩ := stop_le_of_mem_scan (show top.Clear from nofun) before
  obtain ⟨ho, ho'⟩ := stop_le_of_mem_scan hc block
  have hsc : (scan (scan top before).scope block).scope = (scan top before).scope :=
    scope_scanAll hpl _
  rw [hop, hl] at hin
  dsimp only [append, shift] at hin hw
  rw [hsc] at hin
  generalize scan top before = l at *
  generalize scan l.scope block = m at *
  generalize scan l.scope after = back at *
  generalize byteLength before.toList = start at *
  generalize byteLength block.toList = length at *
  constructor
  · have hp : ∀ xs : List (Annotated Reference), (ofList xs).items.Perm xs :=
      perm_ofList
    have hfr : ∀ x ∈ (ofList l.references).items,
        x.span.start ≤ x.span.stop ∧ x.span.stop ≤ start :=
      fun x hi ↦ hf x ((hp _).mem_iff.mp hi)
    have hm : ∀ x ∈ (ofList m.references).items,
        x.span.start ≤ x.span.stop ∧ x.span.stop ≤ length :=
      fun x hi ↦ ho x ((hp _).mem_iff.mp hi)
    have hs : ∀ x ∈ (ofList l.references).items, x.span.start ≤ start :=
      fun x hi ↦ Nat.le_trans (hfr x hi).1 (hfr x hi).2
    have hso := pairwise_append_shift (sorted_ofList l.references) (sorted_ofList m.references) hs
    have hs' : ∀ x ∈ (ofList l.references).items ++
        (ofList m.references).items.map (Annotated.shift start),
        x.span.start ≤ start + length := by
      refine forall_mem_append.mpr ⟨fun x hi ↦ ?_, forall_mem_map.mpr ?_⟩
      · exact Nat.le_trans (hs x hi) (Nat.le_add_right _ _)
      · intro x hi
        have := hm x hi
        simp only [Annotated.shift, Span.shift]
        omega
    rw [items_annotate_of_parts (congrArg references hw) (hp _) (sorted_ofList _) hs,
      items_annotate_of_parts (congrArg references hin) ((hp _).append ((hp _).map _)) hso hs']
    exact inserts_shift (fun x hi ↦ (hfr x hi).2) fun x hi ↦ (hm x hi).2
  · rw [← includes_scan, ← includes_scan, hw, hin]
    exact inserts_shift hf' ho'

/-- Scripts are put together from parts. Behind whole lines, a text that starts with a knot holds
what it holds alone, moved by the bytes before it. Whole lines without section headers may be
inserted anywhere: the lines before them keep their annotations, and those of the lines behind
them move by the bytes inserted. -/
theorem annotate_compositional :
    (∀ first second : String, EndsLine first → StartsKnot second →
      (annotate (first ++ second)).references.items = (annotate first).references.items ++
          (annotate second).references.items.map (Annotated.shift (Text.byteLength first.toList)) ∧
        (annotate (first ++ second)).includes.items = (annotate first).includes.items ++
          (annotate second).includes.items.map (Annotated.shift (Text.byteLength first.toList))) ∧
    ∀ before block after : String, EndsLine before → EndsLine block → Sectionless block →
      Inserts (Text.byteLength before.toList) (Text.byteLength block.toList)
          (annotate (before ++ after)).references.items
          (annotate (before ++ block ++ after)).references.items ∧
        Inserts (Text.byteLength before.toList) (Text.byteLength block.toList)
          (annotate (before ++ after)).includes.items
          (annotate (before ++ block ++ after)).includes.items :=
  ⟨fun _ _ ↦ annotate_append, fun _ _ _ ↦ annotate_insert⟩

/-- A knot whose header has a comment, behind lines with carriage returns; and a header without a
name, which opens no section, with a line of logic. -/
theorem annotate_compositional_inn :
    (annotate ("INCLUDE inn.ink\r\n= hall\r\n" ++
        "  === function inn(ref guest) // open\n-> hall")).references.items =
      (annotate "INCLUDE inn.ink\r\n= hall\r\n").references.items ++
        (annotate "  === function inn(ref guest) // open\n-> hall").references.items.map
          (Annotated.shift 25) ∧
    Inserts 7 23 (annotate ("= hall\n" ++ "- (door) -> hall")).references.items
      (annotate ("= hall\n" ++ "==\r\n~ temp gold = \"é\"\n" ++
        "- (door) -> hall")).references.items := by
  have happend := annotate_compositional.1 "INCLUDE inn.ink\r\n= hall\r\n"
    "  === function inn(ref guest) // open\n-> hall" (by decide +kernel) (by decide +kernel)
  have hinsert := annotate_compositional.2 "= hall\n" "==\r\n~ temp gold = \"é\"\n" "- (door) -> hall"
    (by decide +kernel) (by decide +kernel) (by decide +kernel)
  exact ⟨happend.1, hinsert.1⟩

end StoryScript.Script
