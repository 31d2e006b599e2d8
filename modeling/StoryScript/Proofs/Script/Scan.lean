import StoryScript.Proofs.RangeSet
import StoryScript.Proofs.Script.Line
import StoryScript.Script.Scan

/-!
The annotations of a whole script. `Annotations.Faithful` says how they lie on their text: in the
order of their starts, each on a word that it names, and no declaration where another annotation
starts. The annotations of every script are faithful (`Script.faithful_annotate`).
-/

namespace StoryScript

open List Text

variable {other item : Annotated Reference}

/-- Annotations that lie on words of a text. -/
structure Annotations.Faithful (text : List Char) (annotations : Annotations) : Prop where
  sorted : annotations.references.Sorted
  apart : Script.Apart annotations.references.items
  /-- An annotation names the word that it covers. -/
  names : ∀ item ∈ annotations.references.items, item.value.Names (item.span.textIn text)
  textIn_ne : ∀ item ∈ annotations.references.items, item.span.textIn text ≠ ""
  /-- A span is as long as the word that it covers. -/
  stop_eq : ∀ item ∈ annotations.references.items,
    item.span.stop = item.span.start + byteLength (item.span.textIn text).toList
  /-- The position of an annotation leads back to its start. -/
  offset_start : ∀ item ∈ annotations.references.items,
    (Position.ofOffset text item.span.start).offset text = item.span.start

namespace Script

variable {item : Annotated Reference} {text : List Char}

theorem Apart.eq_of_start_eq {xs : List (Annotated Reference)} (h : Apart xs)
    (hi : item ∈ xs) (ho : other ∈ xs) (hd : item.value.isDeclaration = true)
    (hs : other.span.start = item.span.start) : other = item := by
  have hsy := symm_apart
  by_contra hn
  exact h.forall ho hi hn (Or.inr hd) hs

theorem glyphs_isPrefix (off : Nat) {x : List Char} (h : x <+: text) :
    glyphs off x <+: glyphs off text := by
  obtain ⟨y, rfl⟩ := h
  rw [glyphs_append]
  exact prefix_append _ _

/-- The names of the lines of a script that are read twice. -/
def scanRepeats (sc : Scope) (off : Nat) : List (List Char) → List (Annotated Reference)
  | [] => []
  | l :: lt =>
    let o := glyphs off (trimEndWhile (· == '\r') l)
    lineRepeats sc o ++ scanRepeats (scanLine sc o).scope (off + byteLength l + 1) lt

/-- The lines of a text follow each other, with a line feed between two of them. -/
theorem read_scanLines {sc : Scope} (hsc : sc.Clear) (off : Nat) (ls : List (List Char)) :
    Read (glyphs off (['\n'].intercalate ls)) (scanLines sc off ls).1 (scanRepeats sc off ls) := by
  induction ls generalizing sc off with
  | nil => exact (Row.nil _).read
  | cons l lt ih =>
    have ho := glyphs_isPrefix off (trimEndWhile_isPrefix (· == '\r') l)
    have hl := scanned_scanLine hsc ((spaced_glyphs off l).of_isInfix ho.isInfix)
    have hla := ih hl.clear (off + byteLength l + 1)
    rw [scanLines, scanRepeats]
    cases lt with
    | nil =>
      rw [intercalate_singleton]
      dsimp only
      rw [scanLines, scanRepeats, append_nil, append_nil]
      exact hl.read.mono ho.isInfix
    | cons n lt =>
      have hs := spaced_glyphs off (['\n'].intercalate (l :: n :: lt))
      rw [intercalate_cons_cons, append_assoc, glyphs_append] at hs ⊢
      refine (hl.read.mono ho.isInfix).append (hla.mono ?_) hs
      exact (suffix_cons _ _).isInfix

/-- The names of a script that are read twice: between braces, and by the statement around them. -/
def repeats (text : String) : List (Annotated Reference) :=
  scanRepeats Scope.top 0 (text.toList.splitOn '\n')

theorem read_annotate (text : String) :
    Read (glyphs 0 text.toList) (annotate text).references.items (repeats text) := by
  have hr := read_scanLines (show Scope.top.Clear from nofun) 0 (text.toList.splitOn '\n')
  rw [intercalate_splitOn] at hr
  have hp := RangeSet.perm_ofList (scanLines Scope.top 0 (text.toList.splitOn '\n')).1
  obtain ⟨once, ht, hre⟩ := hr.twice
  exact ⟨fun item hi ↦ hr.marks item (hp.mem_iff.mp hi), hr.uses, once, hp.trans ht, hre⟩

/-- Annotations of a script that start at the same place are the same. -/
theorem eq_of_start_eq_annotate {text : String} (hi : item ∈ (annotate text).references.items)
    (ho : other ∈ (annotate text).references.items)
    (hs : other.span.start = item.span.start) : other = item :=
  (read_annotate text).eq_of_start_eq (rising_glyphs 0 text.toList) hi ho hs

/-- The word of a text that an annotation marks, with what comes before and behind it. -/
theorem Marks.exists_word (h : Marks (glyphs 0 text) item) :
    ∃ x w l, text = x ++ (w ++ l) ∧ item.span = ⟨byteLength x, byteLength x + byteLength w⟩ ∧
      w ≠ [] ∧ (∀ c ∈ w, isWordChar c = true) ∧ item.value.Names (String.ofList w) := by
  cases h with
  | intro run v hr hne hwo hn he =>
    obtain ⟨x, w, l, ht, rfl⟩ := exists_of_isInfix_glyphs hr
    rw [Nat.zero_add] at hne hwo hn ⊢
    have hw : w ≠ [] := fun h ↦ hne (glyphs_eq_nil.mpr h)
    rw [spell_glyphs] at hn
    refine ⟨x, w, l, ht, spanOf_glyphs _ hw, hw, fun c hc ↦ ?_, hn⟩
    rw [← map_char_glyphs (byteLength x) w] at hc
    obtain ⟨g, hg, rfl⟩ := mem_map.mp hc
    exact hwo g hg

/-- A run of a text lies within it. -/
theorem stop_spanOf_le_byteLength {run : List Glyph} (h : run <:+: glyphs 0 text)
    (hn : run ≠ []) : (spanOf run).stop ≤ byteLength text := by
  obtain ⟨x, w, l, rfl, rfl⟩ := exists_of_isInfix_glyphs h
  have hw : w ≠ [] := fun h ↦ hn (glyphs_eq_nil.mpr h)
  rw [spanOf_glyphs _ hw, byteLength_append, byteLength_append]
  dsimp only
  omega

/-- Annotations lie within their text. -/
theorem stop_le_of_mem_annotate {text : String} (h : item ∈ (annotate text).references.items) :
    item.span.start ≤ item.span.stop ∧ item.span.stop ≤ byteLength text.toList := by
  obtain ⟨x, w, l, ht, hs, -⟩ := ((read_annotate text).marks item h).exists_word
  rw [hs, ht, byteLength_append, byteLength_append]
  dsimp only
  omega

theorem faithful_annotate (text : String) : (annotate text).Faithful text.toList := by
  have hr := read_annotate text
  have hw : ∀ item ∈ (annotate text).references.items, _ :=
    fun item hi ↦ (hr.marks item hi).exists_word
  refine ⟨RangeSet.sorted_ofList _, hr.apart (rising_glyphs _ _), ?_, ?_, ?_, ?_⟩
  all_goals
    intro item hi
    obtain ⟨x, w, l, ht, hs, hn, hwo, hna⟩ := hw item hi
    rw [hs, ht]
  · rwa [Span.textIn_append]
  · rw [Span.textIn_append]
    exact fun he ↦ hn (String.ofList_eq_empty_iff.mp he)
  · rw [Span.textIn_append, String.toList_ofList]
  · -- A word does not begin with a line feed, so its start parts no line break.
    refine Position.offset_ofOffset x (w ++ l) fun hb ↦ ?_
    obtain ⟨c, rest, rfl⟩ := exists_cons_of_ne_nil hn
    obtain rfl : c = '\n' := by simpa using hb.2
    exact (ne_of_isWordChar (hwo _ mem_cons_self)).2.1 rfl

end Script

namespace Annotations.Faithful

variable {text : List Char} {annotations : Annotations} (h : annotations.Faithful text)

include h

/-- Annotations of the same word that start together cover the same span. -/
theorem span_ext (hi : item ∈ annotations.references.items)
    (ho : other ∈ annotations.references.items) (hst : item.span.start = other.span.start)
    (ht : item.span.textIn text = other.span.textIn text) : item.span = other.span := by
  have hsto : item.span.stop = other.span.stop := by
    rw [h.stop_eq item hi, h.stop_eq other ho, hst, ht]
  cases hs : item.span
  cases hs' : other.span
  simp_all

/-- A declaration is the annotation that is found at its start. -/
theorem findAt_start (hi : item ∈ annotations.references.items)
    (hd : item.value.isDeclaration = true) :
    annotations.references.findAt item.span.start = some item := by
  refine RangeSet.findAt_start h.sorted hi ?_ fun other ho hs ↦ ?_
  · rw [h.stop_eq item hi]
    exact Nat.le_add_right _ _
  · exact h.apart.eq_of_start_eq hi ho hd hs

end Annotations.Faithful

namespace Script

theorem start_lt_stop_of_mem_annotate {text : String}
    (h : item ∈ (annotate text).references.items) : item.span.start < item.span.stop :=
  ((read_annotate text).marks item h).start_lt_stop (rising_glyphs 0 text.toList)

/-- An annotation that starts no later than another stops before it starts, or is the same. -/
theorem stop_le_or_eq_of_mem_annotate {text : String} {x y : Annotated Reference}
    (hf : x ∈ (annotate text).references.items)
    (hs : y ∈ (annotate text).references.items)
    (hl : x.span.start ≤ y.span.start) :
    x.span.stop ≤ y.span.start ∨ x = y := by
  have hlt := start_lt_stop_of_mem_annotate hs
  rcases (read_annotate text).eq_or_beside hf hs with heq | hst | hst
  · exact .inr heq
  · exact .inl hst
  · omega

/-- Annotations cover some bytes and share none: in their order, each stops before the next one
starts or is the same as it, in its span and its value. So one annotation is found wherever an
offset lies within it. -/
theorem findAt_annotate_of_within (text : String) :
    (∀ item ∈ (annotate text).references.items, item.span.start < item.span.stop) ∧
    ((annotate text).references.items.Pairwise fun first second ↦
      first.span.stop ≤ second.span.start ∨ first = second) ∧
    ∀ item ∈ (annotate text).references.items, ∀ offset, item.span.start ≤ offset →
      offset < item.span.stop → (annotate text).references.findAt offset = some item := by
  have hsorted : (annotate text).references.Sorted := RangeSet.sorted_ofList _
  refine ⟨fun item hitem ↦ start_lt_stop_of_mem_annotate hitem,
    hsorted.imp_of_mem stop_le_or_eq_of_mem_annotate, fun item hitem offset hstart hstop ↦ ?_⟩
  refine RangeSet.findAt_eq_some hsorted hitem ?_ (fun other hother hle ↦ ?_)
    fun other hother heq ↦ eq_of_start_eq_annotate hitem hother heq
  · simp [Span.touches, hstart, Nat.le_of_lt hstop]
  · -- What starts behind this one starts behind the offset.
    by_contra hlt
    rcases stop_le_or_eq_of_mem_annotate hitem hother (Nat.le_of_not_le hlt) with hstop' | rfl
    · omega
    · exact hlt (Nat.le_refl _)

/-- The name that a line of logic and the braces on it both read is found behind its start. -/
theorem findAt_annotate_within_braces :
    (scanLines Scope.top 0 ["~ \x7bgold\x7d".toList]).1.length = 2 ∧
      (annotate "~ \x7bgold\x7d").references.findAt 5 =
        some ⟨⟨3, 7⟩, Reference.ofUse .read "..gold"⟩ := by
  have hitem : ⟨⟨3, 7⟩, Reference.ofUse .read "..gold"⟩ ∈
      (annotate "~ \x7bgold\x7d").references.items :=
    (RangeSet.perm_ofList _).mem_iff.mpr (by decide +kernel)
  exact ⟨by decide +kernel, (findAt_annotate_of_within _).2.2 _ hitem 5 (by decide) (by decide)⟩

end Script

end StoryScript
