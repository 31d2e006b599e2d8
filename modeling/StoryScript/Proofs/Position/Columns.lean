import StoryScript.Proofs.Position

/-!
The offsets of all positions. They are character boundaries and rise with the position, and edits by
the positions of two offsets change just what lies between them (`Position.offset_laws`). A column
past the end of its line stays on the line where the line ends with a carriage return or a line feed,
or is the last one; past any other break, it leads to the start of the next line
(`Position.stays_on_line_iff`).
-/

namespace StoryScript

open List Position

variable {later : List (List Char)} {line : Nat}

namespace Text

section

variable (size : Char → Nat) (text : List Char)

theorem takeWithin_isPrefix (b : Nat) : takeWithin size text b <+: text := by
  fun_induction takeWithin size text b with
  | case1 => exact List.nil_prefix
  | case2 b c r _ ih => exact cons_prefix_cons.mpr ⟨rfl, ih⟩
  | case3 => exact List.nil_prefix

theorem takeWithin_mono {b more : Nat} (h : b ≤ more) :
    takeWithin size text b <+: takeWithin size text more := by
  fun_induction takeWithin size text b generalizing more with
  | case1 => exact List.nil_prefix
  | case2 b c r hf ih =>
    rw [takeWithin, if_pos (Nat.le_trans hf h)]
    exact cons_prefix_cons.mpr ⟨rfl, ih (Nat.sub_le_sub_right h _)⟩
  | case3 => exact List.nil_prefix

theorem takeWithin_concat (last : Char) (b : Nat) :
    takeWithin size (text ++ [last]) b = if (text.map size).sum + size last ≤ b then text ++ [last]
      else takeWithin size text b := by
  induction text generalizing b with
  | nil => simp [takeWithin]
  | cons c r ih =>
    simp only [cons_append, takeWithin, ih, map_cons, sum_cons]
    by_cases hf : size c ≤ b
    · have hi : (r.map size).sum + size last ≤ b - size c ↔
          size c + (r.map size).sum + size last ≤ b := by omega
      simp only [if_pos hf, hi]
      split_ifs <;> rfl
    · rw [if_neg hf, if_neg hf, if_neg (by omega)]

end

theorem byteLength_le_of_isPrefix {x text : List Char} (h : x <+: text) :
    byteLength x ≤ byteLength text := by
  obtain ⟨r, rfl⟩ := h
  rw [byteLength_append]
  exact Nat.le_add_right _ _

theorem unitLength_append (x y : List Char) :
    unitLength (x ++ y) = unitLength x + unitLength y := by
  simp [unitLength_eq_sum]

theorem unitLength_before_le (text : List Char) (offset : Nat) :
    unitLength (before text offset) ≤ unitLength text := by
  obtain ⟨r, hr⟩ := takeWithin_isPrefix Char.utf8Size text offset
  have hsum := congrArg unitLength hr
  rw [unitLength_append] at hsum
  exact Nat.le.intro hsum

/-- Every line but the last has a unit, so the position of an offset has no more lines and columns than
there are units. -/
theorem Broken.ofOffsetIn_le {ls : List (List Char)} (h : Broken ls) (offset : Nat) :
    (ofOffsetIn ls offset).line + (ofOffsetIn ls offset).character ≤ unitLength ls.flatten := by
  induction h generalizing offset with
  | @last line _ =>
    rw [ofOffsetIn, flatten_singleton, Nat.zero_add]
    exact unitLength_before_le line offset
  | @cons content ending later _ he hl ih =>
    obtain ⟨line, more, rfl⟩ : ∃ line more, later = line :: more :=
      exists_cons_of_ne_nil (by rintro rfl; cases hl)
    have hp : 0 < unitLength ending := by
      obtain rfl | ⟨c, -, rfl⟩ := he
      · decide
      · exact unitSize_pos c
    rw [ofOffsetIn, flatten_cons, unitLength_append]
    split_ifs
    · have := unitLength_before_le (content ++ ending) offset
      dsimp only
      omega
    · have := ih (offset - byteLength (content ++ ending))
      rw [unitLength_append]
      dsimp only
      omega

/-- Where a line starts. -/
def lineStart (text : List Char) (line : Nat) : Nat :=
  byteLength ((lines text).take line).flatten

theorem lineStart_mono (text : List Char) {x y : Nat} (h : x ≤ y) :
    lineStart text x ≤ lineStart text y := by
  obtain ⟨r, hr⟩ := take_prefix_take_left h
  rw [lineStart, lineStart, ← hr, flatten_append, byteLength_append]
  exact Nat.le_add_right _ _

/-- What a line has before its break. -/
def content (line : List Char) : List Char :=
  line.takeWhile fun c ↦ !isLineBreak c

/-- Whether a line ends with a break other than a carriage return and a line feed. -/
def endsWide (line : List Char) : Bool :=
  line.getLast?.any fun c ↦ isLineBreak c && c != '\n' && c != '\r'

end Text

namespace Position

open Text

variable (text : List Char)

/-- The lines of a text around one of them. -/
theorem lines_eq (h : line < (lines text).length) :
    lines text = (lines text).take line ++ (lines text)[line] :: (lines text).drop (line + 1) := by
  rw [← drop_eq_getElem_cons h, take_append_drop]

theorem offset_eq (h : line < (lines text).length) (character : Nat) :
    offset text ⟨line, character⟩ = lineStart text line +
      byteLength (takeWithin unitSize (lineContent (lines text)[line]) character) := by
  rw [offset, getElem?_eq_getElem h]
  rfl

theorem offset_of_length_le {p : Position} (h : (lines text).length ≤ p.line) :
    p.offset text = byteLength text := by
  rw [offset, getElem?_eq_none h]

theorem opening_isPrefix (line : List Char) (character : Nat) :
    takeWithin unitSize (lineContent line) character <+: line :=
  (takeWithin_isPrefix _ _ _).trans (trimEndWhile_isPrefix _ _)

/-- The offset of a position lies between two characters. -/
theorem exists_boundary (p : Position) : ∃ x y, text = x ++ y ∧ p.offset text = byteLength x := by
  rcases Nat.lt_or_ge p.line (lines text).length with h | h
  · obtain ⟨rest, hr⟩ := opening_isPrefix (lines text)[p.line] p.character
    have ht := congrArg List.flatten (lines_eq text h)
    rw [flatten_lines, flatten_append, flatten_cons, ← hr] at ht
    rw [append_assoc, ← append_assoc] at ht
    exact ⟨_, _, ht, (offset_eq text h p.character).trans (byteLength_append _ _).symm⟩
  · exact ⟨text, [], (append_nil _).symm, offset_of_length_le text h⟩

theorem lineStart_le_offset (p : Position) : lineStart text p.line ≤ p.offset text := by
  rcases Nat.lt_or_ge p.line (lines text).length with h | h
  · exact Nat.le_trans (Nat.le_add_right _ _) (offset_eq text h p.character).ge
  · rw [offset_of_length_le text h, lineStart, take_of_length_le h, flatten_lines]

theorem lineStart_succ (h : line < (lines text).length) :
    lineStart text (line + 1) = lineStart text line + byteLength (lines text)[line] := by
  rw [lineStart, ← take_append_getElem h, flatten_append, byteLength_append]
  simp [lineStart]

theorem offset_le_lineStart_succ (p : Position) : p.offset text ≤ lineStart text (p.line + 1) := by
  rcases Nat.lt_or_ge p.line (lines text).length with h | h
  · rw [lineStart_succ text h]
    exact Nat.le_trans (offset_eq text h p.character).le
      (Nat.add_le_add_left (byteLength_le_of_isPrefix (opening_isPrefix _ _)) _)
  · rw [offset_of_length_le text h, lineStart, take_of_length_le (by omega), flatten_lines]

/-- A later position has no smaller offset. -/
theorem offset_mono {x y : Position} (h : x.line < y.line ∨
      x.line = y.line ∧ x.character ≤ y.character) :
    x.offset text ≤ y.offset text := by
  rcases h with hl | ⟨hl, hc⟩
  · calc x.offset text
      _ ≤ lineStart text (x.line + 1) := offset_le_lineStart_succ text x
      _ ≤ lineStart text y.line := lineStart_mono text hl
      _ ≤ y.offset text := lineStart_le_offset text y
  · rw [offset, offset, hl]
    split
    · exact Nat.le_refl _
    · exact Nat.add_le_add_left (byteLength_le_of_isPrefix (takeWithin_mono _ _ hc)) _

theorem ofOffset_le (offset : Nat) :
    (ofOffset text offset).line + (ofOffset text offset).character ≤ unitLength text := by
  have hle := (broken_lines text).ofOffsetIn_le offset
  rwa [flatten_lines] at hle

/-- The positions in a text of less than 2 ^ 32 units are as they are written down. -/
theorem wrapped_ofOffset (hshort : unitLength text < 2 ^ 32) (offset : Nat) :
    (ofOffset text offset).wrapped = ofOffset text offset := by
  have hle := ofOffset_le text offset
  rw [wrapped, UInt32.size, Nat.mod_eq_of_lt (by omega), Nat.mod_eq_of_lt (by omega)]

/-- Positions and offsets agree: an offset that does not part a carriage return from its line feed has a
position of two 32-bit numbers that leads back to it, positions lead to character boundaries in their
order, and an edit from the position of one offset to that of another, or back, replaces what lies
between. -/
theorem offset_laws (hshort : unitLength text < 2 ^ 32) :
    (∀ first second, text = first ++ second →
      ¬ (first.getLast? = some '\r' ∧ second.head? = some '\n') →
      let position := ofOffset text (byteLength first)
      position.line < 2 ^ 32 ∧ position.character < 2 ^ 32 ∧
        position.offset text = byteLength first) ∧
    (∀ first second : Position, first.line < second.line ∨
      first.line = second.line ∧ first.character ≤ second.character →
      first.offset text ≤ second.offset text) ∧
    (∀ position : Position, ∃ first second, text = first ++ second ∧
      position.offset text = byteLength first) ∧
    ∀ first old rest (new : String) length, text = first ++ (old ++ rest) →
      ¬ (first.getLast? = some '\r' ∧ (old ++ rest).head? = some '\n') →
      ¬ ((first ++ old).getLast? = some '\r' ∧ rest.head? = some '\n') →
      let start := ofOffset text (byteLength first)
      let stop := ofOffset text (byteLength first + byteLength old)
      Change.apply text ⟨some ⟨start, stop⟩, length, new⟩ = first ++ (new.toList ++ rest) ∧
        Change.apply text ⟨some ⟨stop, start⟩, length, new⟩ = first ++ (new.toList ++ rest) := by
  refine ⟨?_, fun _ _ ↦ offset_mono text, exists_boundary text, ?_⟩
  · rintro first second rfl h
    have hle := ofOffset_le (first ++ second) (byteLength first)
    exact ⟨by omega, by omega, offset_ofOffset first second h⟩
  · rintro first old rest new length rfl hstart hstop
    have hfirst := offset_ofOffset first (old ++ rest) hstart
    have hsecond := offset_ofOffset (first ++ old) rest hstop
    rw [append_assoc, byteLength_append] at hsecond
    have hle := Nat.le_add_right (byteLength first) (byteLength old)
    simp only [Change.apply, hfirst, hsecond, min_eq_left hle, max_eq_right hle, min_eq_right hle,
      max_eq_left hle, Change.replace_append, and_self]

/-- A wide character is replaced on the second line of a text with two kinds of breaks. -/
theorem offset_laws_wideText :
    let text := "a\r\né👋x\u2028".toList
    unitLength text < 2 ^ 32 ∧
      Change.apply text ⟨some ⟨⟨1, 1⟩, ⟨1, 3⟩⟩, none, "!"⟩ = "a\r\né!x\u2028".toList := by
  intro text
  have hshort : unitLength text < 2 ^ 32 := by decide
  obtain ⟨-, -, -, hedit⟩ := offset_laws text hshort
  exact ⟨hshort, (hedit "a\r\né".toList ['👋'] "x\u2028".toList "!" none rfl (by decide)
    (by decide)).1⟩

theorem lineContent_singleton (c : Char) :
    lineContent [c] = if c = '\n' ∨ c = '\r' then [] else [c] := by
  by_cases h : c = '\n' ∨ c = '\r'
  · obtain rfl | rfl := h <;> rfl
  · rw [if_neg h]
    exact trimEndWhile_of_neg (by simpa using not_or.mp h)

/-- How the content of a line and what a column can reach of it differ: where the line ends with
another break than a carriage return or a line feed, the break counts as well. -/
theorem lineContent_cases {line : List Char} (h : Broken (line :: later)) :
    endsWide line = false ∧ lineContent line = content line ∨
      endsWide line = true ∧ lineContent line = line ∧ later ≠ [] ∧
        ∃ c, line = content line ++ [c] ∧ unitSize c = 1 := by
  cases h with
  | last hli =>
    have hl : endsWide line = false := by
      cases hl : line.getLast? with
      | none => simp [endsWide, hl]
      | some c => simp [endsWide, hl, hli c (mem_of_getLast? hl)]
    have hco : content line = line := takeWhile_eq_self_iff.mpr (by simpa using hli)
    have hw := lineContent_append hli []
    rw [append_nil] at hw
    exact .inl ⟨hl, hw.trans (by rw [hco]; exact append_nil _)⟩
  | @cons b ending _ hb he hla =>
    have hco : ∀ c r, isLineBreak c = true → content (b ++ c :: r) = b := by
      intro c r hc
      rw [content, takeWhile_append_of_pos (by simpa using hb),
        takeWhile_cons_of_neg (by simp [hc]), append_nil]
    rw [lineContent_append hb]
    obtain rfl | ⟨c, hc, rfl⟩ := he
    · rw [hco _ _ rfl]
      exact .inl ⟨by simp [endsWide], append_nil _⟩
    · rw [hco _ _ hc, lineContent_singleton]
      split_ifs with hn
      · refine .inl ⟨?_, append_nil _⟩
        obtain rfl | rfl := hn <;> simp [endsWide]
      · have hu : unitSize c = 1 := by
          simp only [isLineBreak, Bool.or_eq_true, beq_iff_eq] at hc
          obtain (((((rfl | rfl) | rfl) | rfl) | rfl) | rfl) | rfl := hc <;> rfl
        refine .inr ⟨?_, rfl, fun hni ↦ ?_, c, rfl, hu⟩
        · obtain ⟨hf, hr⟩ := not_or.mp hn
          simp [endsWide, hc, hf, hr]
        · rw [hni] at hla
          cases hla

/-- A line with no break is the last one. -/
theorem eq_nil_of_content {line : List Char} (h : Broken (line :: later))
    (hco : content line = line) : later = [] := by
  cases h with
  | last => rfl
  | @cons b ending _ _ he =>
    have hp := takeWhile_eq_self_iff.mp hco
    obtain rfl | ⟨c, hc, rfl⟩ := he
    · exact absurd (hp '\r' (by simp)) (by decide)
    · exact absurd (hp c (by simp)) (by simp [hc])

theorem content_isPrefix (line : List Char) : content line <+: line :=
  List.takeWhile_prefix _

/-- What a column has before it in its line: a part of the content, or the line with its break. -/
theorem takeWithin_lineContent {line : List Char} (h : Broken (line :: later)) (character : Nat) :
    takeWithin unitSize (lineContent line) character =
      if endsWide line = true ∧ unitLength (content line) < character then line
      else takeWithin unitSize (content line) character := by
  obtain ⟨hn, hc⟩ | ⟨hw, hc, -, c, hl, hu⟩ := lineContent_cases h
  · rw [hc, if_neg (by simp [hn])]
  · have hi : ((content line).map unitSize).sum + unitSize c ≤ character ↔
        endsWide line = true ∧ unitLength (content line) < character := by
      rw [hu, ← unitLength_eq_sum, and_iff_right hw, Nat.succ_le_iff]
    have ht := takeWithin_concat unitSize (content line) c character
    simp only [hi, ← hl] at ht
    rw [hc, ht]

/-- The line of a cut behind an opening of a line, which is the whole line only at the end of the
text. -/
theorem line_ofOffset (h : line < (lines text).length) {opening : List Char}
    (ho : opening <+: (lines text)[line])
    (hi : opening ≠ (lines text)[line] ∨ (lines text).drop (line + 1) = []) :
    (ofOffset text (lineStart text line + byteLength opening)).line = line := by
  obtain ⟨rest, hr⟩ := ho
  have hn : rest ≠ [] ∨ (lines text).drop (line + 1) = [] := by
    refine hi.imp_left ?_
    rintro hw rfl
    exact hw (by rw [← hr, append_nil])
  have hp := ofOffsetIn_append ((lines text).take line) opening rest _ hn
  rw [hr, ← lines_eq text h] at hp
  rw [ofOffset, lineStart, hp]
  exact length_take_of_le h.le

/-- A column leads to a place on its line, between the line's start and its break, unless the line
ends with another break than a carriage return or a line feed and the column is past it. -/
theorem stays_on_line_iff (line character : Nat) (h : line < (lines text).length) :
    let found := (mk line character).offset text
    let leaves := endsWide (lines text)[line] = true ∧
      unitLength (content (lines text)[line]) < character
    lineStart text line ≤ found ∧
      (found ≤ lineStart text line + byteLength (content (lines text)[line]) ↔ ¬ leaves) ∧
      ((ofOffset text found).line = line ↔ ¬ leaves) := by
  intro found leaves
  have hbroken : Broken ((lines text)[line] :: (lines text).drop (line + 1)) :=
    (lines_eq text h ▸ broken_lines text).of_append (cons_ne_nil _ _)
  have hfound : found = _ := offset_eq text h character
  rw [takeWithin_lineContent hbroken] at hfound
  refine ⟨lineStart_le_offset text ⟨line, character⟩, ?_⟩
  by_cases hleaves : leaves
  · -- The whole line with its break lies before the offset, which is the start of the next line.
    obtain ⟨hnarrow, -⟩ | ⟨-, -, hlater, c, hline, -⟩ := lineContent_cases hbroken
    · simp [leaves, hnarrow] at hleaves
    have hlonger : byteLength (content (lines text)[line]) < byteLength (lines text)[line] := by
      rw [congrArg byteLength hline, byteLength_append]
      exact Nat.lt_add_of_pos_right (byteLength_pos (cons_ne_nil c []))
    have hnext : line + 1 < (lines text).length := Nat.lt_of_not_le (mt drop_eq_nil_of_le hlater)
    rw [drop_eq_getElem_cons hnext] at hbroken
    have hnonempty := (@Broken.of_append [_] _ hbroken (cons_ne_nil _ _)).ne_nil
    have hposition := line_ofOffset text hnext List.nil_prefix (hnonempty.imp_left Ne.symm)
    rw [if_pos hleaves, ← lineStart_succ text h] at hfound
    rw [byteLength, Nat.add_zero, ← hfound] at hposition
    rw [hposition, hfound, lineStart_succ text h]
    exact ⟨iff_of_false (by omega) (not_not_intro hleaves),
      iff_of_false (by omega) (not_not_intro hleaves)⟩
  · rw [if_neg hleaves] at hfound
    have hwithin := takeWithin_isPrefix unitSize (content (lines text)[line]) character
    have hinside : takeWithin unitSize (content (lines text)[line]) character ≠ (lines text)[line] ∨
        (lines text).drop (line + 1) = [] := by
      refine or_iff_not_imp_left.mpr fun hwhole ↦ eq_nil_of_content hbroken ?_
      rw [not_not.mp hwhole] at hwithin
      exact (content_isPrefix _).eq_of_length_le hwithin.length_le
    rw [hfound]
    exact ⟨iff_of_true (Nat.add_le_add_left (byteLength_le_of_isPrefix hwithin) _) hleaves,
      iff_of_true (line_ofOffset text h (hwithin.trans (content_isPrefix _)) hinside) hleaves⟩

/-- Past the end of a line that ends with a line feed, a column stays on the line. -/
theorem stays_on_line_iff_lineFeed :
    let text := "ab\ncd".toList
    lineStart text 0 ≤ (mk 0 9).offset text ∧ (mk 0 9).offset text ≤ 0 + 2 ∧
      (ofOffset text ((mk 0 9).offset text)).line = 0 := by
  intro text
  obtain ⟨hle, hcontent, hline⟩ := stays_on_line_iff text 0 9 (by decide)
  exact ⟨hle, hcontent.mpr (by decide), hline.mpr (by decide)⟩

/-- Past the end of a line that ends with a vertical tab, a column is on the next line. -/
theorem leaves_line_verticalTab :
    let text := "ab\x0bcd".toList
    (mk 0 9).offset text = 3 ∧ lineStart text 0 + byteLength (content "ab\x0b".toList) = 2 ∧
      (lines text)[0]? = some "ab\x0b".toList ∧
      ofOffset text ((mk 0 9).offset text) = ⟨1, 0⟩ := by
  decide

end Position

end StoryScript
