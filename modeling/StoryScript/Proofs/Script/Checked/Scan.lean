import StoryScript.Proofs.Script.Checked.Header

/-!
The scanner on bytes reads every script to its end, and finds what the scanner on glyphs finds
(`annotate?_eq`): none of its indices is out of range, and none of its slices starts or ends inside a
character.
-/

namespace StoryScript.Script.Checked

open Glyph List Option Text

variable {b : Nat} {cd : List Char} {bs : List UInt8} {i : Nat} {l : List Glyph}

/-! ### Includes -/

/-- In a line without blanked characters, the rest of the line at a cursor is a text of its own. -/
theorem Cursor.exists_eq_append (h : Cursor b cd (encode cd) i l) (hl : l <:+ glyphs b cd) :
    ∃ pre t, cd = pre ++ t ∧ byteLength pre = i ∧ l = glyphs (b + i) t := by
  obtain ⟨run, hr⟩ := hl
  have hc : cd = run.map char ++ l.map char := by
    rw [← map_append, hr, map_char_glyphs]
  have hs := hr
  rw [hc, glyphs_append] at hs
  obtain ⟨-, ht⟩ := append_inj hs (by simp)
  have hcu : Cursor b cd (encode cd) (byteLength (run.map char)) l := by
    refine ⟨run.map char, l.map char, encode (run.map char),
      encode (l.map char), hc, ?_, rfl, (coded_glyphs 0 _).length_eq, ?_⟩
    · rw [encode, hc, flatMap_append]
      rfl
    · have hco := coded_glyphs (b + byteLength (run.map char)) (l.map char)
      rwa [← ht] at hco
  obtain rfl := h.unique hcu
  exact ⟨_, _, hc, rfl, ht⟩

theorem Cursor.includeLine? (h : Cursor b cd (encode cd) i l)
    (hl : l <:+ glyphs b cd) (sc : Scope) :
    includeLine? cd b sc (encode cd) i = some (includeLine sc l) := by
  obtain ⟨start, hst, hb⟩ := h.skipBlanks?
  obtain ⟨pre, t, rfl, rfl, hte⟩ := hb.exists_eq_append ((skipBlanks_suffix l).trans hl)
  rw [Checked.includeLine?, hst, bind_eq_bind, bind_some, includeLine, hte,
    ← glyphs_trimEndWhile, trimEndWhile_append]
  by_cases he : trimEndWhile isWhiteSpace t = []
  · have hle : byteLength (trimEndWhile isWhiteSpace pre) ≤ byteLength pre := by
      obtain ⟨trimmed, ht⟩ := trimEndWhile_isPrefix isWhiteSpace pre
      conv_rhs => rw [← ht, byteLength_append]
      exact Nat.le_add_right _ _
    rw [if_pos he, if_neg (Nat.not_lt.mpr hle), he]
    rfl
  · obtain ⟨trimmed, ht⟩ := trimEndWhile_isPrefix isWhiteSpace t
    have hw : word? (pre ++ t) (byteLength pre)
        (byteLength pre + byteLength (trimEndWhile isWhiteSpace t)) =
          some (String.ofList (trimEndWhile isWhiteSpace t)) := by
      have hs := slice?_append pre (trimEndWhile isWhiteSpace t) trimmed
      rw [ht] at hs
      rw [word?, hs, map_some]
    rw [if_neg he, byteLength_append, if_pos (Nat.lt_add_of_pos_right (byteLength_pos he)), hw,
      if_neg (mt glyphs_eq_nil.mp he), mark, spanOf_glyphs _ he, spell_glyphs, Nat.add_assoc]
    rfl

/-! ### Lines -/

theorem isPrefixOf_eq_isSome_dropText? (o : List Char) (off : Nat) (t : List Char) :
    o.isPrefixOf t = (dropText? o (glyphs off t)).isSome := by
  induction o generalizing off t with
  | nil => rfl
  | cons c o ih =>
    cases t with
    | nil => rfl
    | cons d t =>
      rw [List.isPrefixOf, glyphs, dropText?, ih (off + d.utf8Size)]
      by_cases hc : d = c
      · rw [if_pos hc, hc, beq_self_eq_true, Bool.true_and]
      · rw [if_neg hc, beq_false_of_ne (Ne.symm hc), Bool.false_and, isSome_none]

/-- There is nothing in a line of blanks. -/
theorem scanLine_of_blank (h : skipBlanks (dropComment l) = []) (scope : Scope) :
    scanLine scope l = { scope } := by
  rw [← scanLine_nil scope, scanLine_eq, scanLine_eq, h]
  rfl

/-- The code of a line is read from its margin on. -/
theorem codeLine?_eq (hco : glyphs b cd = dropComment l) (sc : Scope) :
    codeLine? cd b sc = some (scanLine sc l) := by
  obtain ⟨start, hst, hc⟩ := (cursor_start (coded_glyphs b cd)).skipBlanks?
  have hs := skipBlanks_suffix (glyphs b cd)
  simp only [Checked.codeLine?, hst, bind_eq_bind, bind_some]
  by_cases he : skipBlanks (glyphs b cd) = []
  · rw [if_neg (Nat.not_lt.mpr (hc.length_le_iff.mpr he)), scanLine_of_blank (hco ▸ he)]
    rfl
  rw [scanLine_eq, ← hco, if_pos (Nat.lt_of_not_le (mt hc.length_le_iff.mp he))]
  obtain ⟨pre, t, hw, hb, hsl⟩ := hc.slice?_length
  obtain ⟨pre', t', hw', hb', ht⟩ := hc.exists_eq_append hs
  obtain ⟨rfl, rfl⟩ := eq_of_byteLength_eq (hw.symm.trans hw') (hb.trans hb'.symm)
  simp only [hsl, bind_some, isPrefixOf_eq_isSome_dropText? _ (b + start), ← ht]
  cases hk : dropText? ['=', '='] (skipBlanks (glyphs b cd)) with
  | some r =>
    rw [if_pos isSome_some]
    exact hc.knotHeader? sc
  | none =>
    rw [if_neg (by simp)]
    cases hsti : dropText? ['='] (skipBlanks (glyphs b cd)) with
    | some r =>
      rw [if_pos isSome_some]
      exact (hc.dropText? (by decide) hsti).stitchHeader? sc
    | none =>
      rw [if_neg (by simp)]
      cases hi : dropWord? "INCLUDE" (skipBlanks (glyphs b cd)) with
      | some path =>
        obtain ⟨bh, hbe, hp⟩ := hc.wordEnd_of_some (by decide) hi
        rw [hbe]
        exact hp.includeLine? ((dropWord?_suffix hi).trans hs) sc
      | none =>
        rw [hc.wordEnd_of_none (by decide) hi]
        cases hli : dropWord? "LIST" (skipBlanks (glyphs b cd)) with
        | some d =>
          obtain ⟨bh, hbe, hd⟩ := hc.wordEnd_of_some (by decide) hli
          simp only [hbe, hd.listLine?, bind_some]
          rfl
        | none =>
          have hpl := hc.plainLine? takeWhile_append_dropWhile.symm
            (fun g hg ↦ mem_takeWhile_imp hg) he sc
          simp only [hc.wordEnd_of_none (by decide) hli, hpl, bind_some]
          rfl

/-- The text in front of the comment of a line. -/
theorem exists_uncommented (l : List Char) :
    ∃ cd, uncommented? l = some cd ∧ ∀ b, glyphs b cd = dropComment (glyphs b l) := by
  suffices h : ∃ cd comment, l = cd ++ comment ∧ (∀ b, glyphs b cd = dropComment (glyphs b l)) ∧
      (commentStart l = some (byteLength cd) ∨ commentStart l = none ∧ comment = []) by
    obtain ⟨cd, comment, rfl, hg, hs | ⟨hs, rfl⟩⟩ := h
    · refine ⟨cd, ?_, hg⟩
      have hsli := slice?_append [] cd comment
      rw [uncommented?, hs]
      simpa [byteLength] using hsli
    · exact ⟨cd, by rw [uncommented?, hs, append_nil], hg⟩
  induction l with
  | nil => exact ⟨[], [], rfl, fun _ ↦ rfl, .inr ⟨rfl, rfl⟩⟩
  | cons c r ih =>
    by_cases hc : c = '/' ∧ r.head? = some '/'
    · obtain ⟨rfl, hh⟩ := hc
      obtain ⟨lt, rfl⟩ := head?_eq_some_iff.mp hh
      exact ⟨[], _, rfl, fun _ ↦ rfl, .inl rfl⟩
    · obtain ⟨cd, comment, rfl, hg, hs⟩ := ih
      refine ⟨c :: cd, comment, rfl, fun b ↦ ?_, ?_⟩
      · rw [glyphs, glyphs, hg, dropComment_cons]
        rintro hsl n hn
        cases hw : cd ++ comment with
        | nil =>
          rw [hw] at hn
          cases hn
        | cons d lt =>
          rw [hw] at hn hc
          obtain rfl := Option.some.inj hn
          exact fun hsl' ↦ hc ⟨hsl, congrArg some hsl'⟩
      · rw [commentStart, if_neg hc]
        rcases hs with hs | ⟨hs, hni⟩
        · exact .inl (by rw [hs]; rfl)
        · exact .inr ⟨by rw [hs]; rfl, hni⟩

theorem scanLine?_eq (sc : Scope) (l : List Char) (b : Nat) :
    scanLine? sc l b = some (scanLine sc (glyphs b l)) := by
  obtain ⟨cd, hc, hg⟩ := exists_uncommented l
  rw [scanLine?, hc, bind_eq_bind, bind_some, codeLine?_eq (hg b)]

/-! ### Scripts -/

section

variable {l : List Char} (hl : '\n' ∉ l)

include hl

theorem rawLines_append (r : List Char) :
    rawLines (l ++ '\n' :: r) = (l ++ ['\n']) :: rawLines r := by
  induction l with
  | nil => rfl
  | cons c l ih =>
    obtain ⟨hc, hl⟩ := not_or.mp (mt mem_cons.mpr hl)
    rw [cons_append, rawLines, if_neg (Ne.symm hc), ih hl]
    rfl

theorem rawLines_of_notMem : rawLines l = if l = [] then [] else [l] := by
  induction l with
  | nil => rfl
  | cons c l ih =>
    obtain ⟨hc, hl⟩ := not_or.mp (mt mem_cons.mpr hl)
    rw [rawLines, if_neg (Ne.symm hc), ih hl]
    by_cases hn : l = []
    · rw [if_pos hn, hn]
      rfl
    · rw [if_neg hn]
      rfl

theorem trimEndWhile_break :
    trimEndWhile (fun c ↦ c == '\n' || c == '\r') l = trimEndWhile (· == '\r') l := by
  induction l with
  | nil => rfl
  | cons c l ih =>
    obtain ⟨hc, hl⟩ := not_or.mp (mt mem_cons.mpr hl)
    have hb : ∀ drop : Char → Bool, trimEndWhile drop (c :: l) =
        if trimEndWhile drop l = [] then trimEndWhile drop [c]
        else c :: trimEndWhile drop l := fun drop ↦ trimEndWhile_append drop [c] l
    rw [hb, hb, ih hl]
    simp [trimEndWhile, dropWhile_cons, Ne.symm hc]

end

theorem scanLines?_eq {ls : List (List Char)} (hli : ∀ l ∈ ls, '\n' ∉ l) (sc : Scope) (off : Nat) :
    scanLines? sc off (rawLines (['\n'].intercalate ls)) = some (scanLines sc off ls) := by
  induction ls generalizing sc off with
  | nil => rfl
  | cons l lt ih =>
    obtain ⟨hl, hla⟩ := forall_mem_cons.mp hli
    cases lt with
    | nil =>
      rw [intercalate_singleton, rawLines_of_notMem hl]
      by_cases hn : l = []
      · rw [if_pos hn, hn, scanLines, scanLines, scanLine_of_blank rfl]
        rfl
      · simp only [if_neg hn, scanLines?, trimEndWhile_break hl, scanLine?_eq,
          bind_eq_bind, bind_some]
        rfl
    | cons n lt =>
      have ht : trimEndWhile (fun c ↦ c == '\n' || c == '\r') (l ++ ['\n']) =
          trimEndWhile (· == '\r') l := by
        rw [trimEndWhile_append, if_pos (trimEndWhile_of_pos (by decide)), trimEndWhile_break hl]
      have hr : ['\n'].intercalate (l :: n :: lt) = l ++ '\n' :: ['\n'].intercalate (n :: lt) := by
        rw [intercalate_cons_cons, append_assoc]
        rfl
      simp only [hr, rawLines_append hl, scanLines?, ht, scanLine?_eq, ih hla,
        bind_eq_bind, bind_some, byteLength_append, ← Nat.add_assoc]
      rfl

/-- The scanner on bytes has a result for every text: that of the scanner on glyphs. -/
theorem annotate?_eq (text : String) : annotate? text = some (annotate text) := by
  have hli : ∀ l ∈ text.toList.splitOn '\n', '\n' ∉ l := by
    intro l hl hm
    simpa using eq_false_of_mem_splitOnP hl '\n' hm
  have hs := scanLines?_eq hli Scope.top 0
  rw [intercalate_splitOn] at hs
  rw [annotate?, hs]
  rfl

end StoryScript.Script.Checked
