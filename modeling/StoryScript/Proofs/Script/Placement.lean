import StoryScript.Proofs.Script.Scan

/-!
Which scope the annotations of a line lie in. A line holds a section's header, with the parameters
behind the section's name, or it opens no section at all (`Script.Placed`). Labels, temporary
variables and parameters are named within the scope that they lie in (`Script.Local`).
-/

namespace StoryScript

open List Text

variable {k : SymbolKind}

/-- Symbols that are named within the section they are declared in. -/
def SymbolKind.isLocal : SymbolKind → Bool
  | label | temp | param => true
  | _ => false

namespace Scope

variable {x : Annotated Reference}

/-- Whether an annotation opens a section. -/
def opens (x : Annotated Reference) : Bool :=
  x.value.declaration.any SymbolKind.opensSection

theorem isDeclaration_of_opens (h : opens x = true) : x.value.isDeclaration = true := by
  unfold opens at h
  cases hd : x.value.declaration with
  | none =>
    rw [hd] at h
    cases h
  | some k =>
    rw [Reference.isDeclaration, hd]
    rfl

theorem opens_of_declaration (h : x.value.declaration = some k) : opens x = k.opensSection := by
  rw [opens, h, Option.any_some]

theorem visit_of_not_opens (h : opens x = false) (t : List Char) (sc : Scope) :
    sc.visit t x = sc := by
  unfold opens at h
  unfold visit
  split
  · rename_i k hk
    rw [hk, Option.any_some] at h
    rw [h]
    rfl
  · rfl

theorem foldl_visit_of_not_opens {xs : List (Annotated Reference)}
    (h : ∀ x ∈ xs, opens x = false) (t : List Char) (sc : Scope) :
    xs.foldl (visit t) sc = sc := by
  induction xs with
  | nil => rfl
  | cons x r ih =>
    obtain ⟨hi, hr⟩ := forall_mem_cons.mp h
    rw [foldl_cons, visit_of_not_opens hi, ih hr]

/-- Only sections make a scope. -/
theorem foldl_visit_filter_opens (t : List Char) (sc : Scope) (xs : List (Annotated Reference)) :
    (xs.filter opens).foldl (visit t) sc = xs.foldl (visit t) sc := by
  induction xs generalizing sc with
  | nil => rfl
  | cons x r ih =>
    cases ho : opens x with
    | true => rw [filter_cons_of_pos ho, foldl_cons, foldl_cons, ih]
    | false =>
      rw [filter_cons_of_neg (by simp [ho]), foldl_cons, visit_of_not_opens ho, ih]

end Scope

namespace Script

variable {e : Scope × Annotated Reference}

open Scope (opens)

/-! ### Lines -/

/-- A line whose words are those that a text has at their spans. -/
def Shows (t : List Char) (l : List Glyph) : Prop :=
  ∀ run, run <:+: l → run ≠ [] → (∀ g ∈ run, isWordChar g.char = true) →
    (spanOf run).textIn t = spell run

namespace Shows

variable {t : List Char} {l : List Glyph}

theorem mono {outer : List Glyph} (h : Shows t outer) (hl : l <:+: outer) : Shows t l :=
  fun run hr ↦ h run (hr.trans hl)

theorem mask {m : List Glyph} (h : Shows t l) (hm : Masks m l) : Shows t m := by
  intro run hr hn hw
  refine h run (hm.isInfix_of_isInfix hr fun g hg ↦ ?_) hn hw
  exact (ne_of_isWordChar (hw g hg)).1

theorem of_glyphs (a l lt : List Char) : Shows (a ++ (l ++ lt)) (glyphs (byteLength a) l) := by
  intro run hr hn _
  obtain ⟨pre, w, r, rfl, rfl⟩ := exists_of_isInfix_glyphs hr
  have hw : w ≠ [] := fun h ↦ hn (glyphs_eq_nil.mpr h)
  rw [spanOf_glyphs _ hw, spell_glyphs, ← byteLength_append]
  have ht : a ++ (pre ++ (w ++ r) ++ lt) = (a ++ pre) ++ (w ++ (r ++ lt)) := by
    simp only [append_assoc]
  rw [ht, Span.textIn_append]

end Shows

/-- An annotation that opens no section. What it declares, if that is named within a section, has
its id in a scope. -/
structure Local (t : List Char) (sc : Scope) (x : Annotated Reference) : Prop where
  opens : opens x = false
  symbolIds : ∀ k, x.value.declaration = some k → k.isLocal = true →
    x.value.symbolIds = [Path.within sc.path (x.span.textIn t)]

namespace Local

variable {t : List Char} {sc : Scope} {l : List Glyph}

theorem of_use {x : Annotated Reference} (h : x.value.isDeclaration = false) : Local t sc x := by
  have hn : x.value.declaration = none :=
    Option.isNone_iff_eq_none.mp (Option.isSome_eq_false_iff.mp h)
  refine ⟨?_, fun k hk ↦ ?_⟩
  · rw [Scope.opens, hn]
    rfl
  · rw [hn] at hk
    cases hk

theorem of_uses {diverts : Bool} {xs : List (Annotated Reference)} (h : Uses diverts l xs) :
    ∀ x ∈ xs, Local t sc x :=
  fun x hi ↦ of_use (h x hi).2.1

end Local

/-- What a line states in a scope, besides sections and diverts: uses, globals and the members of
lists, which are named without regard to the scope, and what is named within it. -/
inductive Stated (sc : Scope) (l : List Glyph) : Annotated Reference → Prop
  | use {x : Annotated Reference}
      (hquiet : x.value.isDeclaration = false ∧ x.value.isDivert = false) : Stated sc l x
  | global (run : List Glyph) {k : SymbolKind} (id : String) (hopens : k.opensSection = false)
      (hlocal : k.isLocal = false) : Stated sc l (mark run (Reference.ofDeclaration k id))
  | within {b : List Glyph} (hb : b <:+: l) (hname : takeName b ≠ []) {k : SymbolKind}
      (hopens : k.opensSection = false) : Stated sc l (declareWithin sc k (takeName b))

section Lines

variable {t : List Char} {sc : Scope} {l : List Glyph} {x : Annotated Reference}

theorem Stated.isDivert (h : Stated sc l x) : x.value.isDivert = false := by
  cases h with
  | use hquiet => exact hquiet.2
  | global => rfl
  | within => rfl

theorem Stated.local (h : Stated sc l x) (ht : Shows t l) : Local t sc x := by
  cases h with
  | use hquiet => exact .of_use hquiet.1
  | global run id hs hl =>
    refine ⟨hs, fun o ho ho' ↦ ?_⟩
    rw [← Option.some.inj ho, hl] at ho'
    cases ho'
  | @within b hb hn _ hs =>
    refine ⟨hs, fun _ _ _ ↦ ?_⟩
    have ht := ht _ ((takeName_isPrefix b).isInfix.trans hb) hn (isName_takeName hn).words
    simp only [declareWithin, mark, Reference.ofDeclaration, ht]

theorem Stated.mono {outer : List Glyph} (h : Stated sc l x) (hl : l <:+: outer) :
    Stated sc outer x := by
  cases h with
  | use hquiet => exact .use hquiet
  | global run id hs hl => exact .global run id hs hl
  | within hb hn hs => exact .within (hb.trans hl) hn hs

theorem Quiet.stated {xs : List (Annotated Reference)} (h : Quiet xs) : ∀ x ∈ xs, Stated sc l x :=
  fun x hi ↦ .use (h x hi)

theorem stated_parameters (sc : Scope) (l : List Glyph) : ∀ x ∈ parameters sc l, Stated sc l x := by
  intro x hi
  obtain ⟨b, hb, hem, rfl⟩ := exists_of_mem_parameters l sc hi
  exact .within hb hem rfl

theorem stated_listLine (sc : Scope) (l lt : List Glyph) : ∀ x ∈ listLine lt, Stated sc l x := by
  unfold listLine
  dsimp only
  split_ifs
  · exact nofun
  · refine forall_mem_cons.mpr ⟨.global _ _ rfl rfl, fun x hi ↦ ?_⟩
    obtain ⟨p, -, hf⟩ := mem_filterMap.mp hi
    unfold listMember? at hf
    dsimp only at hf
    split_ifs at hf
    obtain rfl := Option.some.inj hf
    exact .global _ _ rfl rfl

theorem stated_globalLine {lt : List Glyph} (hs : k.opensSection = false) (hl : k.isLocal = false) :
    ∀ x ∈ globalLine k lt, Stated sc l x := by
  unfold globalLine
  dsimp only
  split_ifs
  · exact nofun
  · exact forall_mem_cons.mpr ⟨.global _ _ hs hl, (uses_initialReads _ _).quiet.stated⟩

/-- A line of logic without a temporary variable declares nothing. -/
theorem quiet_logicLine (h : dropWord? "temp" (skipBlanks l) = none) : Quiet (logicLine sc l) := by
  unfold logicLine
  dsimp only
  rw [h]
  split
  · rename_i heq
    cases heq
  · exact (uses_reads _).quiet
  · split
    · exact forall_mem_cons.mpr ⟨⟨rfl, rfl⟩, (uses_assignedReads _ _).quiet⟩
    · exact (uses_reads _).quiet

theorem logicLine_of_temp {tl : List Glyph} (h : dropWord? "temp" (skipBlanks l) = some tl) :
    logicLine sc l = if takeName (skipBlanks tl) = [] then [] else
      declareWithin sc .temp (takeName (skipBlanks tl)) ::
        initialReads (Path.within sc.path (spell (takeName (skipBlanks tl))))
          ((skipBlanks tl).drop (takeName (skipBlanks tl)).length) := by
  unfold logicLine
  dsimp only
  rw [h]

theorem stated_logicLine (sc : Scope) (l : List Glyph) : ∀ x ∈ logicLine sc l, Stated sc l x := by
  cases ht : dropWord? "temp" (skipBlanks l) with
  | none => exact (quiet_logicLine ht).stated
  | some tl =>
    rw [logicLine_of_temp ht]
    split_ifs with hem
    · exact nofun
    · refine forall_mem_cons.mpr ⟨.within (IsSuffix.isInfix ?_) hem rfl,
        (uses_initialReads _ _).quiet.stated⟩
      exact (skipBlanks_suffix tl).trans ((dropWord?_suffix ht).trans (skipBlanks_suffix l))

theorem stated_labelLine (sc : Scope) (l : List Glyph) : ∀ x ∈ labelLine sc l, Stated sc l x := by
  unfold labelLine
  dsimp only
  split
  · rename_i offset r _ hl
    split
    · split_ifs with hem
      · exact nofun
      · refine forall_mem_singleton.mpr (.within (IsSuffix.isInfix ?_) hem rfl)
        exact (skipBlanks_suffix r).trans ((suffix_cons _ r).trans (hl ▸ dropWhile_suffix _))
    · exact nofun
  · exact nofun

theorem stated_statementLine (sc : Scope) (l : List Glyph) :
    ∀ x ∈ statementLine sc l, Stated sc l x := by
  unfold statementLine
  split
  · exact stated_globalLine rfl rfl
  · exact stated_globalLine rfl rfl
  · exact fun x hi ↦ (stated_logicLine sc _ x hi).mono (suffix_cons _ _).isInfix
  · exact stated_labelLine sc _

theorem local_plainLine (h : Shows t l) : ∀ x ∈ plainLine sc l, Local t sc x := by
  have hd := taken_maskDiverts (maskStrings false l)
  have ht := taken_maskTags (maskDiverts (maskStrings false l)).line
  have hm := (ht.masks.trans hd.masks).trans (masks_maskStrings false l)
  unfold plainLine
  dsimp only
  rw [forall_mem_append, forall_mem_append, forall_mem_append]
  exact ⟨⟨⟨Local.of_uses hd.uses, Local.of_uses ht.uses⟩,
    fun x hi ↦ (stated_statementLine sc _ x hi).local (h.mask hm)⟩, Local.of_uses (uses_inlineReads _)⟩

end Lines

/-- What a line holds, in the scope before it: annotations that open no section, or a section and
the parameters behind its name. -/
inductive Placed (t : List Char) (sc : Scope) : LineScan → Prop
  | plain (scan : LineScan) (hscope : scan.scope = sc)
      (hlocal : ∀ x ∈ scan.references, Local t sc x) : Placed t sc scan
  | header (x : Annotated Reference) (parameters : List (Annotated Reference))
      (hopens : opens x = true)
      (hid : x.value.symbolIds = [(sc.visit t x).path])
      (hlocal : ∀ parameter ∈ parameters, Local t (sc.visit t x) parameter)
      (hbehind : ∀ parameter ∈ parameters, x.span.start < parameter.span.start) :
      Placed t sc ⟨sc.visit t x, x :: parameters, []⟩

section Lines

variable {t : List Char} {sc : Scope} {l : List Glyph}

theorem placed_sectionHeader (hscope : sc.Clear) (h : Shows t l) (hsp : Spaced l)
    {b : List Glyph} (hb : b <:+: l) {id : String → String}
    (hs : k.opensSection = true) (hi : ∀ name, id name = (sc.enter k name).path) :
    Placed t sc (sectionHeader sc k id b) := by
  unfold sectionHeader
  split_ifs with hem
  · exact .plain _ rfl nofun
  have hn := isName_takeName hem
  have hh := takeName_isPrefix b
  have ht := h _ (hh.isInfix.trans hb) hem hn.words
  have hin : sc.visit t (mark (takeName b) (Reference.ofDeclaration k (id (spell (takeName b))))) =
        sc.enter k (spell (takeName b)) := by
    simp only [Scope.visit, mark, Reference.ofDeclaration, hs, ht, if_true]
  have hre : b.drop (takeName b).length <:+: l := (drop_suffix _ _).isInfix.trans hb
  have hr := row_parameters (hscope.enter hn.plain k) (hsp.of_isInfix hre)
  have hi := hi (spell (takeName b))
  rw [← hin] at hr hi ⊢
  refine .header _ _ hs (congrArg (fun id ↦ [id]) hi)
    (fun x hx ↦ (stated_parameters _ _ x hx).local (h.mono hre)) fun parameter hp ↦ ?_
  obtain ⟨g, hg, hst, -⟩ := (hr.marks parameter hp).exists_start
  obtain ⟨a, lt, hc⟩ := exists_cons_of_ne_nil hem
  have hw := (hsp.of_isInfix hb).rising
  rw [← takeName_append_drop b, Rising, pairwise_append] at hw
  rw [← hst]
  refine Nat.lt_of_le_of_lt (Nat.le_of_eq ?_) (hw.2.2 a (hc ▸ mem_cons_self) g hg)
  simp only [mark, hc, start_spanOf_cons]

/-- A stitch's id lies within its knot. -/
theorem path_enter_stitch (hscope : sc.Clear) (name : String) :
    Path.within sc.outer.path name = (sc.enter .stitch name).path := by
  obtain ⟨knot, stitch⟩ := sc
  cases knot with
  | none => rfl
  | some knot =>
    have hk : knot ≠ "" := (hscope knot (by simp [Scope.sections])).ne_empty
    exact if_neg hk

theorem placed_scanLine (hscope : sc.Clear) (h : Shows t l) (hsp : Spaced l) :
    Placed t sc (scanLine sc l) := by
  have hp : skipBlanks (dropComment l) <:+: l :=
    (skipBlanks_suffix _).isInfix.trans (dropComment_isPrefix l).isInfix
  unfold scanLine
  dsimp only
  generalize skipBlanks (dropComment l) = c at hp
  have hc := hsp.of_isInfix hp
  have hs := h.mono hp
  split
  · rw [knotHeader_eq]
    exact placed_sectionHeader hscope hs hc (knotBody_suffix _).isInfix rfl fun _ ↦ rfl
  · rename_i offset r _
    have hr := (skipBlanks_suffix r).trans (suffix_cons (⟨offset, '='⟩ : Glyph) r)
    rw [stitchHeader_eq]
    exact placed_sectionHeader hscope hs hc hr.isInfix rfl (path_enter_stitch hscope)
  · split
    · exact .plain _ rfl nofun
    · exact .plain _ rfl fun x hi ↦ (stated_listLine sc c _ x hi).local hs
    · exact .plain _ rfl (local_plainLine hs)

end Lines

/-! ### Lines of a script -/

/-- Whether a glyph ends a line. -/
def isLineFeed (g : Glyph) : Bool :=
  g.char == '\n'

/-- The lines of a script. -/
def lineGlyphs (t : String) : List (List Glyph) :=
  (glyphs 0 t.toList).splitOnP isLineFeed

/-- A line without the carriage returns at its end. -/
def dropReturns (l : List Glyph) : List Glyph :=
  trimEndWhile (fun g ↦ g.char == '\r') l

/-- The annotations of some lines, each with the scope before its line. -/
def placements : Scope → List (List Glyph) → List (Scope × Annotated Reference)
  | _, [] => []
  | sc, l :: lt =>
    let scan := scanLine sc (dropReturns l)
    scan.references.map (sc, ·) ++ placements scan.scope lt

/-- The includes of some lines. -/
def inclusions : Scope → List (List Glyph) → List (Annotated Include)
  | _, [] => []
  | sc, l :: lt =>
    let scan := scanLine sc (dropReturns l)
    scan.includes ++ inclusions scan.scope lt

/-! ### Runs of glyphs -/

theorem map_char_trimEndWhile (drop : Char → Bool) (l : List Glyph) :
    (trimEndWhile (fun g ↦ drop g.char) l).map Glyph.char =
      trimEndWhile drop (l.map Glyph.char) := by
  unfold trimEndWhile
  conv_rhs => rw [← map_reverse, dropWhile_map, ← map_reverse]
  rfl

theorem dropReturns_isPrefix (l : List Glyph) : dropReturns l <+: l :=
  trimEndWhile_isPrefix _ l

theorem glyphs_trimEndWhile (drop : Char → Bool) (off : Nat) (l : List Char) :
    glyphs off (trimEndWhile drop l) = trimEndWhile (fun g ↦ drop g.char) (glyphs off l) := by
  have hs := glyphs_isPrefix off (trimEndWhile_isPrefix drop l)
  have hl : (glyphs off (trimEndWhile drop l)).length =
      (trimEndWhile (fun g ↦ drop g.char) (glyphs off l)).length := by
    have hc := map_char_trimEndWhile drop (glyphs off l)
    rw [map_char_glyphs] at hc
    rw [length_glyphs, ← hc, length_map]
  exact (prefix_of_prefix_length_le hs (trimEndWhile_isPrefix _ _)
    (Nat.le_of_eq hl)).eq_of_length hl

theorem glyphs_dropReturns (off : Nat) (l : List Char) :
    glyphs off (trimEndWhile (· == '\r') l) = dropReturns (glyphs off l) :=
  glyphs_trimEndWhile _ off l

/-- The lines of a text from an offset on. -/
def glyphLines : Nat → List (List Char) → List (List Glyph)
  | _, [] => []
  | off, l :: lt =>
    glyphs off l :: glyphLines (off + byteLength l + 1) lt

theorem splitOnP_glyphs (off : Nat) (t : List Char) :
    (glyphs off t).splitOnP isLineFeed = glyphLines off (t.splitOnP (· == '\n')) := by
  induction t generalizing off with
  | nil => rfl
  | cons c r ih =>
    rw [glyphs, splitOnP_cons_eq_if_modifyHead, splitOnP_cons_eq_if_modifyHead, ih]
    by_cases hc : c = '\n'
    · subst hc
      rfl
    · have hf : (c == '\n') = false := beq_eq_false_iff_ne.mpr hc
      obtain ⟨a, lt, hs⟩ := exists_cons_of_ne_nil (splitOnP_ne_nil (· == '\n') r)
      simp only [isLineFeed, hf, Bool.false_eq_true, if_false, hs, glyphLines,
        modifyHead_cons, glyphs, byteLength, Nat.add_assoc]

theorem map_snd_placed (sc : Scope) (xs : List (Annotated Reference)) :
    (xs.map fun x ↦ (sc, x)).map Prod.snd = xs := by
  rw [map_map]
  exact map_id xs

theorem lineGlyphs_eq (t : String) : lineGlyphs t = glyphLines 0 (t.toList.splitOn '\n') :=
  splitOnP_glyphs 0 t.toList

theorem scanLines_eq (sc : Scope) (off : Nat) (ls : List (List Char)) :
    scanLines sc off ls = ((placements sc (glyphLines off ls)).map Prod.snd,
        inclusions sc (glyphLines off ls)) := by
  induction ls generalizing sc off with
  | nil => rfl
  | cons l lt ih =>
    simp only [scanLines, ih, glyphs_dropReturns, glyphLines, placements, inclusions,
      map_append, map_snd_placed]

/-- The annotations of a script, each with the scope before its line. -/
def placementsOf (t : String) : List (Scope × Annotated Reference) :=
  placements Scope.top (lineGlyphs t)

/-- The annotations of a script in the order of its lines. -/
def lineItems (t : String) : List (Annotated Reference) :=
  (scanLines Scope.top 0 (t.toList.splitOn '\n')).1

theorem lineItems_eq (t : String) : lineItems t = (placementsOf t).map Prod.snd := by
  rw [lineItems, scanLines_eq, placementsOf, lineGlyphs_eq]

/-- Lines of a text, one behind the other. -/
structure Layout (t : List Char) (ls : List (List Glyph)) : Prop where
  shows : ∀ l ∈ ls, Shows t l
  spaced : ∀ l ∈ ls, Spaced l
  pairwise : ls.Pairwise fun first second ↦
    ∀ left ∈ first, ∀ right ∈ second, left.offset < right.offset

theorem layout_lineGlyphs (t : String) : Layout t.toList (lineGlyphs t) := by
  have hs := Shows.of_glyphs [] t.toList []
  rw [nil_append, append_nil] at hs
  have hsp := spaced_glyphs 0 t.toList
  exact ⟨fun l hl ↦ hs.mono (isInfix_of_mem_splitOnP hl),
    fun l hl ↦ hsp.of_isInfix (isInfix_of_mem_splitOnP hl), pairwise_splitOnP hsp.rising isLineFeed⟩

section Layout

variable {t : List Char} {sc : Scope} {l : List Glyph} {lt : List (List Glyph)}

theorem Layout.tail (h : Layout t (l :: lt)) : Layout t lt :=
  ⟨(forall_mem_cons.mp h.shows).2, (forall_mem_cons.mp h.spaced).2, (pairwise_cons.mp h.pairwise).2⟩

theorem Layout.scanned (h : Layout t (l :: lt)) (hscope : sc.Clear) :
    Scanned (dropReturns l) (scanLine sc (dropReturns l)) (lineRepeats sc (dropReturns l)) :=
  scanned_scanLine hscope ((forall_mem_cons.mp h.spaced).1.of_isInfix
    (dropReturns_isPrefix l).isInfix)

section

variable {ls : List (List Glyph)} (h : Layout t ls) (hscope : sc.Clear)
  (he : e ∈ placements sc ls)

include h hscope he

/-- An annotation belongs to one of the lines, in a clear scope. -/
theorem exists_line_of_mem_placements :
    ∃ l ∈ ls, e.1.Clear ∧ e.2 ∈ (scanLine e.1 (dropReturns l)).references := by
  induction ls generalizing sc with
  | nil => cases he
  | cons l lt ih =>
    rcases mem_append.mp he with he | he
    · obtain ⟨x, hit, rfl⟩ := mem_map.mp he
      exact ⟨l, mem_cons_self, hscope, hit⟩
    · obtain ⟨f, hf, hi⟩ := ih h.tail (h.scanned hscope).clear he
      exact ⟨f, mem_cons_of_mem _ hf, hi⟩

theorem exists_start_of_mem_placements : ∃ l ∈ ls, ∃ g ∈ l, g.offset = e.2.span.start := by
  obtain ⟨l, hl, hc, hi⟩ := exists_line_of_mem_placements h hscope he
  have hs := (h.spaced l hl).of_isInfix (dropReturns_isPrefix l).isInfix
  obtain ⟨g, hg, hst, -⟩ := ((scanned_scanLine hc hs).read.marks _ hi).exists_start
  exact ⟨l, hl, g, (dropReturns_isPrefix l).mem hg, hst⟩

end

/-- What a line holds starts before what the lines behind it hold. -/
theorem Layout.start_lt (h : Layout t (l :: lt)) (hscope : sc.Clear)
    {x : Annotated Reference} (hi : x ∈ (scanLine sc (dropReturns l)).references)
    (he : e ∈ placements (scanLine sc (dropReturns l)).scope lt) :
    x.span.start < e.2.span.start := by
  have hsc := h.scanned hscope
  obtain ⟨left, hl, hs, -⟩ := (hsc.read.marks x hi).exists_start
  obtain ⟨o, ho, right, hr, hs'⟩ := exists_start_of_mem_placements h.tail hsc.clear he
  rw [← hs, ← hs']
  exact (pairwise_cons.mp h.pairwise).1 o ho left ((dropReturns_isPrefix l).mem hl) right hr

end Layout

end Script

end StoryScript
