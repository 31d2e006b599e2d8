import StoryScript.Proofs.Script.Compose

/-!
Where the annotations of a script stand (`OnWord`): each on a word of one line, before the comment of
the line and, unless the line is a header, an include or a list, outside of its strings.
-/

namespace StoryScript.Script

open Checked Glyph List Text

variable {line : List Glyph} {item : Annotated Reference}

/-! ### Words of a line -/

/-- A run of a line behind some other glyphs. -/
structure RunBehind (line : List Glyph) (item : Annotated Reference) (before run : List Glyph) :
    Prop where
  isPrefix : before ++ run <+: line
  nonempty : run ≠ []
  words : ∀ glyph ∈ run, isWordChar glyph.char = true
  span_eq : item.span = spanOf run
  ends : ∀ id ∈ item.value.symbolIds, Path.EndsWith id (spell run)

theorem Marks.exists_runBehind (h : Marks line item) : ∃ l run, RunBehind line item l run := by
  cases h with
  | intro run v hr hn hw hna he =>
    obtain ⟨l, r, rfl⟩ := hr
    exact ⟨l, run, prefix_append _ _, hn, hw, rfl, he⟩

/-- A margin before the line. -/
theorem RunBehind.prepend {l run : List Glyph} (h : RunBehind line item l run)
    (margin : List Glyph) : RunBehind (margin ++ line) item (margin ++ l) run :=
  { h with
    isPrefix := by
      rw [append_assoc]
      exact (prefix_append_right_inj margin).mpr h.isPrefix }

/-! ### Strings -/

/-- Behind an odd number of quotes, a string starts or goes on. -/
theorem maskStrings_append_of_count (i : Bool) (l rest : List Glyph) :
    maskStrings i (l ++ rest) = maskStrings i l ++
      maskStrings (i ^^ (l.map char).count '"' % 2 == 1) rest := by
  induction l generalizing i with
  | nil => simp [maskStrings]
  | cons g l ih =>
    rw [cons_append, maskStrings, maskStrings, ih, ih]
    by_cases hq : g.char = '"'
    · have hf : ((!i) ^^ (l.map char).count '"' % 2 == 1) =
          (i ^^ ((l.map char).count '"' + 1) % 2 == 1) := by
        rcases Nat.mod_two_eq_zero_or_one ((l.map char).count '"') with he | ho
        · rw [Nat.add_mod, he]
          cases i <;> rfl
        · rw [Nat.add_mod, ho]
          cases i <;> rfl
      rw [if_pos hq, if_pos hq, map_cons, hq, count_cons_self, hf]
      rfl
    · rw [if_neg hq, if_neg hq, map_cons, count_cons_of_ne hq]
      rfl

/-- A word that is left by the strings of a line stands behind an even number of quotes. -/
theorem Marks.exists_runBehind_strings (h : Marks (maskStrings false line) item) :
    ∃ l run, RunBehind line item l run ∧
      (l.map char).count '"' % 2 = 0 := by
  obtain ⟨l, run, hru⟩ := h.exists_runBehind
  obtain ⟨r, hm⟩ := hru.isPrefix
  have hn : ∀ g ∈ run, g.char ≠ ' ' :=
    fun g hg ↦ (ne_of_isWordChar (hru.words g hg)).1
  have hma := masks_maskStrings false line
  rw [← hm] at hma
  obtain ⟨left, right, rfl, hl, -⟩ := hma.exists_append
  obtain ⟨opening, m, rfl, hop, hmi⟩ := hl.exists_append
  obtain rfl := hmi.eq_of_words hn
  refine ⟨opening, run, { hru with isPrefix := prefix_append _ _ }, ?_⟩
  rw [append_assoc l, append_assoc opening, maskStrings_append_of_count] at hm
  have hle : l.length = (maskStrings false opening).length := by
    rw [hop.length_eq, (masks_maskStrings false opening).length_eq]
  obtain ⟨-, hr⟩ := append_inj hm hle
  by_contra ho
  rw [Nat.mod_two_ne_zero.mp ho] at hr
  -- Behind an odd number of quotes, the first character of the word would be blank.
  obtain ⟨x, lt, rfl⟩ := exists_cons_of_ne_nil hru.nonempty
  have hb : x = x.blank := by
    rw [cons_append, cons_append] at hr
    change x :: _ = maskStrings true _ at hr
    rw [maskStrings, if_pos rfl] at hr
    split_ifs at hr
    · exact (List.cons.inj hr).1
    · exact (List.cons.inj hr).1
  exact hn x mem_cons_self (congrArg char hb)

/-! ### Comments -/

theorem length_dropComment_le {l r : List Char} (h : line.map char = l ++ '/' :: '/' :: r) :
    (dropComment line).length ≤ l.length := by
  induction l generalizing line with
  | nil =>
    obtain ⟨x, rest, rfl, hf, hr⟩ := map_eq_cons_iff.mp h
    obtain ⟨y, lt, rfl, hs, -⟩ := map_eq_cons_iff.mp hr
    obtain ⟨off, _⟩ := x
    obtain ⟨off', _⟩ := y
    subst hf hs
    exact Nat.zero_le _
  | cons c l ih =>
    obtain ⟨x, rest, rfl, -, hr⟩ := map_eq_cons_iff.mp h
    have hl : (dropComment (x :: rest)).length ≤ (dropComment rest).length + 1 := by
      rw [dropComment.eq_def]
      split <;> simp_all
    exact Nat.le_trans hl (Nat.succ_le_succ (ih hr))

/-- Whether a line is no header, include or list. -/
def isPlain (line : List Glyph) : Bool :=
  (dropText? ['='] (code line)).isNone && (dropWord? "INCLUDE" (code line)).isNone &&
    (dropWord? "LIST" (code line)).isNone

theorem scanLine_of_isPlain (h : isPlain line = true) (scope : Scope) :
    scanLine scope (dropReturns line) = { scope, references := plainLine scope (code line) } := by
  simp only [isPlain, Bool.and_eq_true, Option.isNone_iff_eq_none] at h
  obtain ⟨⟨hs, hi⟩, hl⟩ := h
  have hsi : dropText? ['=', '='] (code line) = none := by
    refine dropText?_pair_eq_none fun offset offset' rest hc ↦ ?_
    rw [hc, dropText?_singleton_cons] at hs
    cases hs
  rw [scanLine_eq_code, hsi, hs, hi, hl]

/-- The annotations of a line stand before its comment, and those of a plain line outside of its
strings. -/
theorem exists_runBehind_of_mem_scanLine {sc : Scope} (hs : sc.Clear)
    (hsp : Spaced line) (hi : item ∈ (scanLine sc (dropReturns line)).references) :
    ∃ before run, RunBehind (dropComment (dropReturns line)) item before run ∧
      (isPlain line = true → (before.map char).count '"' % 2 = 0) := by
  have hre := hsp.of_isInfix (dropReturns_isPrefix line).isInfix
  have hw : (dropComment (dropReturns line)).takeWhile isBlank ++ code line =
      dropComment (dropReturns line) := takeWhile_append_dropWhile
  have hm : (((dropComment (dropReturns line)).takeWhile isBlank).map
      char).count '"' = 0 := by
    rw [count_eq_zero, mem_map]
    rintro ⟨g, hg, hq⟩
    have hb := mem_takeWhile_imp hg
    rw [isBlank, hq] at hb
    exact absurd hb (by decide)
  by_cases hpl : isPlain line = true
  · rw [scanLine_of_isPlain hpl] at hi
    have hc := hre.of_isInfix ((skipBlanks_suffix _).isInfix.trans
      (dropComment_isPrefix (dropReturns line)).isInfix)
    obtain ⟨before, run, hr, hqu⟩ := ((read_plainLine hs hc).marks item hi).exists_runBehind_strings
    have hp := hr.prepend ((dropComment (dropReturns line)).takeWhile isBlank)
    refine ⟨_, run, hw ▸ hp, fun _ ↦ ?_⟩
    rw [map_append, count_append, hm, Nat.zero_add, hqu]
  · obtain ⟨before, run, hr⟩ :=
      ((scanned_code hs hre).read.marks item hi).exists_runBehind
    have hp := hr.prepend ((dropComment (dropReturns line)).takeWhile isBlank)
    exact ⟨_, run, hw ▸ hp, fun h ↦ absurd h hpl⟩

/-! ### Lines of a text -/

/-- A line of a text, between line feeds or the ends of the text. -/
structure IsLine (text opening line closing : List Char) : Prop where
  text_eq : text = opening ++ (line ++ closing)
  opening_eq : opening = [] ∨ opening.getLast? = some '\n'
  closing_eq : closing = [] ∨ closing.head? = some '\n'
  notMem : '\n' ∉ line

theorem exists_isLine_of_mem_glyphLines {ls : List (List Char)}
    (hli : ∀ line ∈ ls, '\n' ∉ line) {off : Nat} (h : line ∈ glyphLines off ls) :
    ∃ opening chars closing, IsLine (['\n'].intercalate ls) opening chars closing ∧
      line = glyphs (off + byteLength opening) chars := by
  induction ls generalizing off with
  | nil => cases h
  | cons x l ih =>
    obtain ⟨hf, hlat⟩ := forall_mem_cons.mp hli
    rcases mem_cons.mp h with rfl | h
    · cases l with
      | nil =>
        exact ⟨[], x, [], ⟨by simp, Or.inl rfl, Or.inl rfl, hf⟩, rfl⟩
      | cons n l =>
        refine ⟨[], x, '\n' :: ['\n'].intercalate (n :: l), ⟨?_, Or.inl rfl, Or.inr rfl, hf⟩, rfl⟩
        rw [intercalate_cons_cons, append_assoc]
        rfl
    · obtain ⟨opening, chars, closing, hl, rfl⟩ := ih hlat h
      cases l with
      | nil => cases h
      | cons n l =>
        refine ⟨x ++ '\n' :: opening, chars, closing, ⟨?_, Or.inr ?_, hl.closing_eq, hl.notMem⟩, ?_⟩
        · rw [intercalate_cons_cons, hl.text_eq]
          simp
        · rcases hl.opening_eq with rfl | hla
          · exact getLast?_concat
          · rw [getLast?_append, getLast?_cons, hla]
            rfl
        · rw [byteLength_append, byteLength, Nat.add_assoc, Nat.add_assoc]
          rfl

theorem exists_isLine_of_mem_lineGlyphs {text : String} (h : line ∈ lineGlyphs text) :
    ∃ opening chars closing, IsLine text.toList opening chars closing ∧
      line = glyphs (byteLength opening) chars := by
  have hli : ∀ line ∈ text.toList.splitOn '\n', '\n' ∉ line := by
    intro line hl hm
    simpa using eq_false_of_mem_splitOnP hl '\n' hm
  rw [lineGlyphs, splitOnP_glyphs] at h
  obtain ⟨opening, chars, closing, hl, rfl⟩ := exists_isLine_of_mem_glyphLines hli h
  rw [intercalate_splitOn] at hl
  exact ⟨opening, chars, closing, hl, by rw [Nat.zero_add]⟩

theorem isPlain_glyphs (off : Nat) (line : List Char) :
    isPlain (glyphs off line) = isPlain (glyphs 0 line) := by
  obtain ⟨text, -, ht⟩ := exists_uncommented (trimEndWhile (· == '\r') line)
  have hc : ∀ b, code (glyphs b line) = skipBlanks (glyphs b text) := by
    intro b
    rw [code, ← glyphs_dropReturns, ht]
  have hp : ∀ {b start}, Checked.Cursor b text (encode text) start
      (skipBlanks (glyphs b text)) → isPlain (glyphs b line) = (!isAt '=' (encode text) start &&
          (wordEnd "INCLUDE" (encode text) start).isNone &&
          (wordEnd "LIST" (encode text) start).isNone) := by
    intro b start h
    rw [isPlain, hc, h.isAt (by decide), h.wordEnd_eq (by decide), h.wordEnd_eq (by decide),
      Option.isNone_map, Option.isNone_map, Option.not_isSome]
  obtain ⟨start, hs, h⟩ := (cursor_start (coded_glyphs off text)).skipBlanks?
  obtain ⟨start', hs', h'⟩ := (cursor_start (coded_glyphs 0 text)).skipBlanks?
  obtain rfl := Option.some.inj (hs.symm.trans hs')
  rw [hp h, hp h']

/-- Where an annotation stands: on a word of one line of its text, in front of which there is a
margin. -/
structure OnWord (text : List Char) (item : Annotated Reference)
    (opening margin word rest closing : List Char) : Prop where
  line : IsLine text opening (margin ++ (word ++ rest)) closing
  nonempty : word ≠ []
  span_eq : item.span = ⟨byteLength opening + byteLength margin,
    byteLength opening + byteLength margin + byteLength word⟩
  /-- No comment starts in front of the word or within it. -/
  comment : ∀ before after, margin ++ (word ++ rest) = before ++ '/' :: '/' :: after →
    margin.length + word.length ≤ before.length
  /-- The ids of the reference end with the word. -/
  ends : ∀ id ∈ item.value.symbolIds, Path.EndsWith id (String.ofList word)
  /-- On a plain line, the word stands outside of strings. -/
  strings : isPlain (glyphs 0 (margin ++ (word ++ rest))) = true →
    margin.count '"' % 2 = 0 ∧ '"' ∉ word

theorem trimEndWhile_append_cons {p : Char → Bool} {c : Char} (hc : p c = false) (l r : List Char) :
    trimEndWhile p (l ++ c :: r) = l ++ c :: trimEndWhile p r := by
  unfold trimEndWhile
  rw [reverse_append, reverse_cons, append_assoc, dropWhile_append,
    singleton_append, dropWhile_cons_of_neg (ne_true_of_eq_false hc)]
  split_ifs with he
  · rw [isEmpty_iff.mp he]
    simp
  · simp

/-- Every annotation of a script stands on a word of one line. -/
theorem exists_onWord {text : String} (h : item ∈ (annotate text).references.items) :
    ∃ opening margin word rest closing,
      OnWord text.toList item opening margin word rest closing := by
  rw [(perm_lineItems text).mem_iff, lineItems_eq, mem_map] at h
  obtain ⟨e, hen, rfl⟩ := h
  obtain ⟨line, hli, hcl, hi⟩ := exists_line_of_mem_placements
    (layout_lineGlyphs text) (show Scope.top.Clear from nofun) hen
  obtain ⟨pre, run, hr, hqu⟩ := exists_runBehind_of_mem_scanLine hcl
    ((layout_lineGlyphs text).spaced line hli) hi
  obtain ⟨opening, chars, closing, hch, rfl⟩ := exists_isLine_of_mem_lineGlyphs hli
  obtain ⟨r, ha⟩ := hr.isPrefix.trans ((dropComment_isPrefix _).trans (dropReturns_isPrefix _))
  obtain ⟨margin, word, rest, rfl, rfl, rfl⟩ := exists_of_append_eq_glyphs ha
  have hn : word ≠ [] := fun hni ↦ hr.nonempty (by rw [hni]; rfl)
  refine ⟨opening, margin, word, rest, closing, hch, hn, ?_, ?_, ?_, ?_⟩
  · rw [hr.span_eq, spanOf_glyphs _ hn]
  · intro x l hs
    have hl := hr.isPrefix.length_le
    have hco : (dropReturns (glyphs (byteLength opening) (margin ++ (word ++ rest)))).map char =
          x ++ '/' :: '/' :: trimEndWhile (· == '\r') l := by
      rw [dropReturns, map_char_trimEndWhile (· == '\r'), map_char_glyphs, hs,
        trimEndWhile_append_cons rfl]
      exact congrArg (x ++ '/' :: ·) (trimEndWhile_append_cons rfl [] l)
    have hb := length_dropComment_le hco
    rw [length_append, length_glyphs, length_glyphs] at hl
    exact Nat.le_trans hl hb
  · rw [← spell_glyphs]
    exact hr.ends
  · intro hp
    rw [← isPlain_glyphs (byteLength opening)] at hp
    have he := hqu hp
    rw [map_char_glyphs] at he
    refine ⟨he, fun hq ↦ ?_⟩
    rw [← map_char_glyphs (byteLength opening + byteLength margin) word] at hq
    obtain ⟨g, hg, heq⟩ := mem_map.mp hq
    have hc := hr.words g hg
    rw [heq] at hc
    exact absurd hc (by decide)

namespace OnWord

variable {text opening margin word rest closing : List Char}
  (h : OnWord text item opening margin word rest closing)

include h

theorem start_lt_stop : item.span.start < item.span.stop := by
  rw [h.span_eq]
  exact Nat.lt_add_of_pos_right (byteLength_pos h.nonempty)

theorem stop_le_byteLength : item.span.stop ≤ byteLength text := by
  simp only [h.span_eq, h.line.text_eq, byteLength_append]
  omega

theorem slice?_eq : slice? text item.span.start item.span.stop = some word := by
  have hs := slice?_append (opening ++ margin) word (rest ++ closing)
  rw [byteLength_append] at hs
  rw [h.span_eq, h.line.text_eq]
  simpa only [append_assoc] using hs

end OnWord

/-- The scanner on bytes reads every text to its end, and what it finds stands on words of the text: a
word lies between two characters of one line, before the line's comment and, on a plain line, outside
of its strings, and the ids that are found there end with it. -/
theorem annotate?_wellFormed (text : String) :
    annotate? text = some (annotate text) ∧ ∀ item ∈ (annotate text).references.items,
        item.span.start < item.span.stop ∧ item.span.stop ≤ Text.byteLength text.toList ∧
          ∃ opening margin word rest closing,
            Text.slice? text.toList item.span.start item.span.stop = some word ∧
              OnWord text.toList item opening margin word rest closing := by
  refine ⟨Checked.annotate?_eq text, fun item hitem ↦ ?_⟩
  obtain ⟨opening, margin, word, rest, closing, hword⟩ := exists_onWord hitem
  exact ⟨hword.start_lt_stop, hword.stop_le_byteLength, opening, margin, word, rest, closing,
    hword.slice?_eq, hword⟩

/-- A line with a string in front of a divert, wide characters and a comment. -/
def signText : String :=
  "\"→ né -> far\" -> inn // -> out"

/-- Only the divert between the string and the comment is found, behind two wide characters. -/
theorem annotate?_wellFormed_signText :
    ∃ found, annotate? signText = some found ∧
      found.references.items.map (fun item ↦ (item.span, item.value.symbolIds)) =
        [(⟨20, 23⟩, ["inn"])] ∧
      ∃ item ∈ found.references.items, item.span.start < item.span.stop ∧
        item.span.stop ≤ Text.byteLength signText.toList := by
  obtain ⟨hchecked, hwell⟩ := annotate?_wellFormed signText
  have hitems : (annotate signText).references.items.map
      (fun item ↦ (item.span, item.value.symbolIds)) = [(⟨20, 23⟩, ["inn"])] := by
    rw [annotate_eq_annotateInOrder]
    decide +kernel
  obtain ⟨item, later, hcons, -, -⟩ := map_eq_cons_iff.mp hitems
  have hitem : item ∈ (annotate signText).references.items := by
    rw [hcons]
    exact mem_cons_self
  exact ⟨_, hchecked, hitems, item, hitem, (hwell item hitem).1, (hwell item hitem).2.1⟩

end StoryScript.Script
