import Mathlib.Data.List.Chain
import StoryScript.Proofs.Script.Checked.Mask

/-!
Declarations, logic, labels, headers and lists read by index are those of the glyphs at their cursor.
-/

namespace StoryScript.Script.Checked

open List

variable {b : Nat} {cd : List Char} {bs : List UInt8} {i j : Nat} {l : List Glyph}

/-! ### Declarations -/

theorem Covers.declaration? {name : List Glyph} (h : Covers b cd i j name) (hn : name ≠ [])
    (sc : Scope) (k : SymbolKind) :
    declaration? cd b sc k i j = some (declareWithin sc k name) := by
  rw [Checked.declaration?, h.word, Option.map_some, h.marked hn]
  rfl

theorem Cursor.initialReads? (h : Cursor b cd bs i l) (a : String) :
    initialReads? cd b a bs i = some (initialReads a l) := by
  obtain ⟨sign, hs, hb⟩ := h.skipBlanks?
  rw [Checked.initialReads?, hs, Option.bind_eq_bind, Option.bind_some, initialReads_eq]
  cases hv : Script.dropText? ['='] (skipBlanks l) with
  | some v =>
    obtain ⟨he, hc⟩ := hb.isAt_of_some (by decide) hv
    rw [if_pos he]
    exact hc.assignedReads? a
  | none =>
    rw [hb.isAt_of_none (by decide) hv]
    rfl

theorem Cursor.globalLine? (h : Cursor b cd bs i l) (k : SymbolKind) :
    globalLine? cd b k bs i = some (globalLine k l) := by
  obtain ⟨start, hs, hb⟩ := h.skipBlanks?
  obtain ⟨stop, hst, hr, hn⟩ := hb.name
  simp only [Checked.globalLine?, globalLine, Option.bind_eq_bind, Option.bind_some, hs, hst,
    hn.eq_iff, hn.word, hr.initialReads?]
  split_ifs with he
  · rfl
  · rw [hn.marked he]
    rfl

/-! ### Logic -/

/-- The length of an assignment's operator. -/
theorem Cursor.assignmentLength (h : Cursor b cd bs i l) :
    assignmentLength bs i =
      if (Script.dropText? ['+', '='] l).isSome ∨ (Script.dropText? ['-', '='] l).isSome then
        some 2
      else (Script.dropText? ['='] l).map fun _ ↦ 1 := by
  have hp : Checked.range? bs i (i + 2) = some (encode ['+', '=']) ↔ _ :=
    h.range?_iff (show ∀ c ∈ ['+', '='], IsSign c by decide)
  have hm : Checked.range? bs i (i + 2) = some (encode ['-', '=']) ↔ _ :=
    h.range?_iff (show ∀ c ∈ ['-', '='], IsSign c by decide)
  simp only [Checked.assignmentLength, hp, hm, h.isAt (c := '=') (by decide)]
  cases Script.dropText? ['='] l <;> rfl

/-- The value behind an assignment's operator. -/
theorem Cursor.dropAssignment? (h : Cursor b cd bs i l) :
    (∃ length v, Checked.assignmentLength bs i = some length ∧
        dropAssignment? l = some v ∧ Cursor b cd bs (i + length) v) ∨
      Checked.assignmentLength bs i = none ∧ dropAssignment? l = none := by
  rw [dropAssignment?_eq, h.assignmentLength]
  cases hp : Script.dropText? ['+', '='] l with
  | some v => exact .inl ⟨2, v, rfl, rfl, h.dropText? (by decide) hp⟩
  | none =>
    cases hm : Script.dropText? ['-', '='] l with
    | some v => exact .inl ⟨2, v, rfl, rfl, h.dropText? (by decide) hm⟩
    | none =>
      cases he : Script.dropText? ['='] l with
      | some v => exact .inl ⟨1, v, rfl, rfl, h.dropText? (by decide) he⟩
      | none => exact .inr ⟨rfl, rfl⟩

theorem Cursor.logicLine? (h : Cursor b cd bs i l) (sc : Scope) :
    logicLine? cd b sc bs i = some (logicLine sc l) := by
  obtain ⟨start, hst, hb⟩ := h.skipBlanks?
  rw [Checked.logicLine?, hst, Option.bind_eq_bind, Option.bind_some, logicLine]
  dsimp only
  cases ht : dropWord? "temp" (skipBlanks l) with
  | some d =>
    obtain ⟨bh, hbe, hd⟩ := hb.wordEnd_of_some (by decide) ht
    obtain ⟨x, hf, hr⟩ := hd.skipBlanks?
    obtain ⟨last, hla, hv, hn⟩ := hr.name
    simp only [hbe, hf, hla, Option.bind_eq_bind, Option.bind_some, hn.eq_iff, hn.word,
      hv.initialReads?]
    split_ifs with he
    · rfl
    · rw [hn.declaration? he]
      rfl
  | none =>
    rw [hb.wordEnd_of_none (by decide) ht]
    cases hre : dropWord? "return" (skipBlanks l) with
    | some r =>
      obtain ⟨bh, hbe, hres⟩ := hb.wordEnd_of_some (by decide) hre
      rw [hbe]
      exact hres.reads?
    | none =>
      rw [hb.wordEnd_of_none (by decide) hre]
      obtain ⟨stop, hsto, hr, hn⟩ := hb.name
      obtain ⟨operator, ho, has⟩ := hr.skipBlanks?
      have hw := prefix_iff_eq_append.mp (takeName_isPrefix (skipBlanks l))
      have hdo := (hw.symm ▸ hb).isDotless? hr
      simp only [hsto, Option.bind_eq_bind, Option.bind_some, hn.lt_iff, hdo, ho,
        hn.word, hb.reads?]
      by_cases he : takeName (skipBlanks l) = []
      · rw [if_neg (not_not.mpr he), if_neg fun hs ↦ hs.1 he]
      · rw [if_pos he]
        by_cases ha : ((takeName (skipBlanks l)).all fun g ↦ g.char ≠ '.') = true
        · rw [if_pos ha, if_pos ⟨he, ha⟩]
          obtain ⟨length, v, hl, hv, hc⟩ | ⟨hl, hv⟩ := has.dropAssignment?
          · simp only [hl, hv, hc.assignedReads?, Option.bind_some, hn.marked he]
            rfl
          · simp only [hl, hv]
        · rw [if_neg ha, if_neg fun hs ↦ ha hs.2]

/-! ### Labels -/

/-- Lines without an arrow. -/
def Arrowless (l : List Glyph) : Prop :=
  l.IsChain fun x y ↦ ¬ (x.char = '-' ∧ y.char = '>')

theorem bullets?_eq (hi : i < bs.length) {byte : UInt8} (hb : bs[i]? = some byte) (s : Bool) :
    bullets? bs s i =
      if asChar byte = '*' ∨ asChar byte = '+' ∨ (asChar byte = '-' ∧ isAt '>' bs (i + 1) = false) then
        bullets? bs true (i + 1)
      else if isBlankChar (asChar byte) then bullets? bs s (i + 1) else some (s, i) := by
  rw [bullets?, if_pos hi, hb]
  rfl

theorem bullets?_add {size : Nat} (hsi : i + size ≤ bs.length)
    (h : ∀ k < size, ∃ byte, bs[i + k]? = some byte ∧ isBlankChar (asChar byte) = true)
    (s : Bool) : bullets? bs s i = bullets? bs s (i + size) := by
  induction size with
  | zero => rfl
  | succ size ih =>
    obtain ⟨byte, hby, hb⟩ := h size (Nat.lt_succ_self size)
    have hs : ¬ (asChar byte = '*' ∨ asChar byte = '+' ∨
        (asChar byte = '-' ∧ isAt '>' bs (i + size + 1) = false)) := by
      rintro (hc | hc | ⟨hc, -⟩)
      all_goals
        rw [hc] at hb
        exact absurd hb (by decide)
    rw [ih (by omega) fun k hk ↦ h k (Nat.lt_succ_of_lt hk), bullets?_eq (by omega) hby, if_neg hs,
      if_pos hb, Nat.add_assoc]

theorem Cursor.bullets? (h : Cursor b cd bs i l) (ha : Arrowless l) (s : Bool) :
    ∃ j, bullets? bs s i = some (s || (l.takeWhile isMargin).any isBullet, j) ∧
      Cursor b cd bs j (l.dropWhile isMargin) := by
  induction l generalizing i s with
  | nil =>
    refine ⟨i, ?_, h⟩
    rw [Checked.bullets?, if_neg (Nat.not_lt.mpr (h.length_le_iff.mpr rfl)), takeWhile_nil,
      any_nil, Bool.or_false]
    rfl
  | cons g r ih =>
    obtain ⟨hf, hr⟩ := isChain_cons.mp ha
    obtain ⟨byte, hby, ho⟩ := h.byte
    rw [takeWhile_cons, dropWhile_cons]
    have hs : ∀ {c : Char}, IsAscii c → (asChar byte = c ↔ g.char = c) :=
      fun hc ↦ asChar_eq_iff hc ho
    by_cases hb : isBullet g = true
    · have hm : isMargin g = true := by rw [isMargin, hb, Bool.true_or]
      have hch : g.char = '*' ∨ g.char = '+' ∨ g.char = '-' := by
        simpa [isBullet, or_assoc] using hb
      have hn : Cursor b cd bs (i + 1) r := by
        rcases hch with hch | hch | hch <;>
          exact h.next (hch ▸ by decide) (hch ▸ by decide)
      obtain ⟨j, hj, hcu⟩ := ih hn hr true
      refine ⟨j, ?_, ?_⟩
      · rw [bullets?_eq h.lt_length hby, if_pos, hj, if_pos hm, any_cons, hb,
          Bool.true_or, Bool.or_true]
        rw [hs (by decide), hs (by decide), hs (by decide), hn.isAt (by decide)]
        refine hch.imp_right (Or.imp_right fun hd ↦ ⟨hd, ?_⟩)
        cases r with
        | nil => rfl
        | cons y lt =>
          rw [Script.dropText?, if_neg fun hmo ↦ hf y rfl ⟨hd, hmo⟩]
          rfl
      · rwa [if_pos hm]
    by_cases hbl : g.isBlank = true
    · obtain ⟨size, hsi, hn, -, hbyt, -⟩ := h.cons
      obtain ⟨j, hj, hcu⟩ := ih hn hr s
      have hm : isMargin g = true := by rw [isMargin, hbl, Bool.or_true]
      refine ⟨j, ?_, ?_⟩
      · rw [bullets?_add hn.le_length (fun k hk ↦ ?_), hj, if_pos hm, any_cons,
          Bool.eq_false_iff.mpr hb, Bool.false_or]
        obtain ⟨byte, hby, ho⟩ := hbyt k hk
        exact ⟨byte, hby, (uniform_isBlankChar.apply ho).trans hbl⟩
      · rwa [if_pos hm]
    · have hm : ¬ isMargin g = true := by
        rw [isMargin, Bool.or_eq_true, not_or]
        exact ⟨hb, hbl⟩
      refine ⟨i, ?_, by rwa [if_neg hm]⟩
      have hch : ¬ (g.char = '*' ∨ g.char = '+' ∨ g.char = '-') := by
        simpa [isBullet, or_assoc] using hb
      have hsp : ¬ isBlankChar (asChar byte) = true := by
        rw [uniform_isBlankChar.apply ho]
        exact hbl
      rw [bullets?_eq h.lt_length hby, if_neg, if_neg hsp, if_neg hm, any_nil, Bool.or_false]
      rw [hs (by decide), hs (by decide), hs (by decide)]
      exact mt (Or.imp_right (Or.imp_right And.left)) hch

theorem Cursor.labelLine? (h : Cursor b cd bs i l) (ha : Arrowless l)
    (sc : Scope) : labelLine? cd b sc bs i = some (labelLine sc l) := by
  obtain ⟨bh, hbe, hr⟩ := h.bullets? ha false
  simp only [Checked.labelLine?, hbe, Option.bind_eq_bind, Option.bind_some, Bool.false_or,
    labelLine_eq]
  by_cases hb : (l.takeWhile isMargin).any isBullet = true
  · cases ho : Script.dropText? ['('] (l.dropWhile isMargin) with
    | none =>
      rw [hr.isAt_of_none (by decide) ho, if_neg fun hl ↦ Bool.false_ne_true hl.2, if_pos hb]
      rfl
    | some inner =>
      obtain ⟨hp, hi⟩ := hr.isAt_of_some (by decide) ho
      obtain ⟨start, hs, hbo⟩ := hi.skipBlanks?
      obtain ⟨stop, hst, ht, hn⟩ := hbo.name
      obtain ⟨close, hcl, hc⟩ := ht.skipBlanks?
      rw [if_pos ⟨hb, hp⟩, if_pos hb]
      simp only [hs, hst, hcl, Option.bind_some, hn.lt_iff]
      cases hen : Script.dropText? [')']
          (skipBlanks ((skipBlanks inner).drop (takeName (skipBlanks inner)).length)) with
      | none =>
        rw [hc.isAt_of_none (by decide) hen, if_neg fun hl ↦ Bool.false_ne_true hl.2]
        rfl
      | some r =>
        rw [(hc.isAt_of_some (by decide) hen).1]
        by_cases he : takeName (skipBlanks inner) = []
        · rw [if_neg fun hl ↦ hl.1 he]
          dsimp only
          rw [if_pos he]
          rfl
        · rw [if_pos ⟨he, rfl⟩, hn.declaration? he]
          dsimp only
          rw [if_neg he]
          rfl
  · rw [if_neg fun hl ↦ hb hl.1, if_neg hb]
    rfl

theorem Cursor.statementLine? (h : Cursor b cd bs i l) (hli : l ≠ [])
    (ha : Arrowless l) (sc : Scope) :
    statementLine? cd b sc bs i = some (statementLine sc l) := by
  rw [Checked.statementLine?, statementLine_eq]
  cases hv : dropWord? "VAR" l with
  | some d =>
    obtain ⟨bh, hb, hc⟩ := h.wordEnd_of_some (by decide) hv
    rw [hb]
    exact hc.globalLine? .var
  | none =>
    rw [h.wordEnd_of_none (by decide) hv]
    cases hco : dropWord? "CONST" l with
    | some d =>
      obtain ⟨bh, hb, hc⟩ := h.wordEnd_of_some (by decide) hco
      rw [hb]
      exact hc.globalLine? .const
    | none =>
      rw [h.wordEnd_of_none (by decide) hco]
      obtain ⟨g, r, rfl⟩ := exists_cons_of_ne_nil hli
      obtain ⟨byte, hby, ho⟩ := h.byte
      simp only [hby, Option.bind_eq_bind, Option.bind_some, asChar_eq_iff (show IsAscii '~' by decide) ho]
      rw [Script.dropText?]
      by_cases hl : g.char = '~'
      · rw [if_pos hl, if_pos hl, Script.dropText?]
        exact (h.next (hl ▸ by decide) (hl ▸ by decide)).logicLine? sc
      · rw [if_neg hl, if_neg hl]
        exact h.labelLine? ha sc

/-! ### Plain lines -/

theorem arrowless_append {run : List Glyph} (hru : ∀ g ∈ run, g.char ≠ '-')
    (h : Arrowless l) : Arrowless (run ++ l) := by
  induction run with
  | nil => exact h
  | cons g r ih =>
    obtain ⟨hg, hr⟩ := forall_mem_cons.mp hru
    exact isChain_cons.mpr ⟨fun _ _ hb ↦ hg hb.1, ih hr⟩

/-- A character that shows at the front of a blanked line is that of the line itself. -/
theorem head?_of_masks {m : List Glyph} (h : Masks m l) {g : Glyph}
    (hg : m.head? = some g) (hs : g.char ≠ ' ') : l.head? = some g := by
  cases h with
  | nil => exact hg
  | cons hf _ =>
    obtain rfl := Option.some.inj hg
    rcases hf with rfl | rfl
    · rfl
    · exact absurd rfl hs

theorem arrowless_of_masks {m : List Glyph} (h : Masks m l) (hli : Arrowless l) : Arrowless m := by
  induction h with
  | nil => exact .nil
  | @cons shown g m l hf hr ih =>
    obtain ⟨hg, hl⟩ := isChain_cons.mp hli
    refine isChain_cons.mpr ⟨fun y hs hb ↦ ?_, ih hl⟩
    have hh := head?_of_masks hr hs (hb.2 ▸ by decide)
    rcases hf with rfl | rfl
    · exact hg y hh hb
    · exact absurd hb.1 (show ' ' ≠ '-' by decide)

/-- No arrow is left where the diverts are taken out. -/
theorem arrowless_maskDiverts (l : List Glyph) : Arrowless (maskDiverts l).line := by
  induction l using diverts_induction with
  | nil =>
    rw [maskDiverts]
    exact .nil
  | cons g l hp ih =>
    rw [maskDiverts_cons hp]
    refine isChain_cons.mpr ⟨fun y hs hb ↦ ?_, ih⟩
    have hh := head?_of_masks (taken_maskDiverts l).masks hs (hb.2 ▸ by decide)
    have ha := hp y hh
    rw [isArrow, hb.1, hb.2] at ha
    exact absurd ha (by decide)
  | arrow x y r ha ih =>
    have hbla : ∀ run : List Glyph, ∀ g ∈ run.map Glyph.blank, g.char ≠ '-' := by
      intro run g hg
      obtain ⟨covered, -, rfl⟩ := mem_map.mp hg
      exact (by decide : ' ' ≠ '-')
    rw [maskDiverts_arrow ha]
    refine arrowless_append (hbla _) (arrowless_append (fun g hg hd ↦ ?_)
      (arrowless_append (hbla _) ih))
    have hbl := all_eq_true.mp all_takeWhile g hg
    rw [Glyph.isBlank, hd] at hbl
    exact absurd hbl (by decide)

/-- Runs of the same number of glyphs end at the same index, whatever is blanked in them. -/
theorem Cursor.unique_of_length {bs' : List UInt8} {run run' l' : List Glyph} {j' : Nat}
    (h : Cursor b cd bs i (run ++ l)) (hj : Cursor b cd bs j l)
    (h' : Cursor b cd bs' i (run' ++ l')) (hj' : Cursor b cd bs' j' l')
    (hl : run.length = run'.length) : j = j' := by
  obtain ⟨pre, x, y, _, _, _, hc, -, hb, -, hs, hf, -⟩ := h.split hj
  obtain ⟨pre', x', y', _, _, _, hc', -, hb', -, hs', hf', -⟩ := h'.split hj'
  obtain ⟨rfl, hr⟩ := eq_of_byteLength_eq (hc.symm.trans hc') (hb.trans hb'.symm)
  obtain ⟨rfl, -⟩ := append_inj hr (by rw [hf.length_text, hl, hf'.length_text])
  rw [← hs, ← hs', hf.length_eq, hf'.length_eq]

/-- A line is read behind its margin, in which there is nothing to take out. -/
theorem Cursor.plainLine? {margin : List Glyph} (hgl : glyphs b cd = margin ++ l)
    (hma : ∀ g ∈ margin, g.isBlank = true) (hl : l ≠ [])
    (h : Cursor b cd (encode cd) i l) (sc : Scope) :
    plainLine? cd b sc i = some (plainLine sc l) := by
  have ho : ∀ {c : Char}, isBlankChar c = false → ∀ g ∈ margin, g.char ≠ c := by
    intro c hc g hg hch
    have hb : isBlankChar g.char = true := hma g hg
    rw [hch, hc] at hb
    exact Bool.false_ne_true hb
  have hco := coded_glyphs b cd
  rw [hgl] at hco
  have hst := hco.maskStrings false
  rw [Script.maskStrings_append false (ho rfl), if_neg Bool.false_ne_true] at hst
  obtain ⟨m, hd, hm⟩ := (cursor_start hst).diverts? (Nat.lt_succ_of_le (Nat.sub_le _ 0))
  rw [maskDiverts_append fun g hg ↦ ⟨ho rfl g hg, ho rfl g hg⟩]
    at hd hm
  obtain ⟨m', ht, hm'⟩ := hm.cursor.tags? (Nat.lt_succ_of_le (Nat.sub_le _ 0))
  rw [maskTags_append (ho rfl)] at ht hm'
  have hi := hm'.cursor.inlineReads? (Nat.lt_succ_of_le (Nat.sub_le _ 0))
  rw [inlineReads_append (ho rfl)] at hi
  obtain ⟨j, -, hs⟩ := hm'.cursor.append
  obtain rfl := (cursor_start hco).unique_of_length h hm'.cursor hs rfl
  have hmas := ((taken_maskTags _).masks.trans (taken_maskDiverts _).masks).trans
    (masks_maskStrings false l)
  have hsh : (maskTags (maskDiverts (Script.maskStrings false l)).line).line ≠ [] := by
    rw [← length_pos_iff, Forall₂.length_eq hmas, length_pos_iff]
    exact hl
  have ha := arrowless_of_masks (taken_maskTags _).masks
    (arrowless_maskDiverts (Script.maskStrings false l))
  simp only [Checked.plainLine?, hd, ht, hi, hs.statementLine? hsh ha,
    Option.bind_eq_bind, Option.bind_some]
  rfl

end StoryScript.Script.Checked
