import Mathlib.Data.List.TakeWhile
import StoryScript.Proofs.Script.Reads

/-!
What an expression reads, it reads from left to right (`Serial`). Characters that are part of no
word cut an expression into parts that are read on their own (`reads_append_cons`). So what a line
reads between braces is what it would read there as a whole (`inlineReads_sublist_reads`), and two
scanners that visit the same word cut the same annotation from it.
-/

namespace StoryScript.Script

open List

variable {ln : List Glyph} {p : Glyph → Bool}

/-! ### Words from left to right -/

/-- The run of glyphs that an annotation marks. -/
theorem Marks.exists_run {x : Annotated Reference} (h : Marks ln x) :
    ∃ run, run <:+: ln ∧ run ≠ [] ∧ (∀ g ∈ run, isWordChar g.char = true) ∧
      x.span = spanOf run := by
  cases h with
  | intro run v hr hn hw => exact ⟨run, hr, hn, hw, rfl⟩

/-- A word of one part of a line stops before a word of the part behind it starts. -/
theorem Marks.stop_le_start {x y : List Glyph} {i o : Annotated Reference}
    (h : Marks x i) (ho : Marks y o)
    (hsp : ∀ left ∈ x, ∀ right ∈ y, left.stop ≤ right.offset) :
    i.span.stop ≤ o.span.start := by
  obtain ⟨run, hru, hn, -, hs⟩ := h.exists_run
  obtain ⟨b, hb, hn', -, hs'⟩ := ho.exists_run
  rw [hs, hs']
  exact stop_spanOf_le hn hn' fun left hl right hr ↦ hsp left (hru.mem hl) right (hb.mem hr)

/-- Annotations from left to right. -/
def Serial (xs : List (Annotated Reference)) : Prop :=
  xs.Pairwise fun x y ↦ x.span.stop ≤ y.span.start

theorem Serial.append {a y : List Glyph} {xs l : List (Annotated Reference)}
    (h : Serial xs) (hl : Serial l) (hs : Spaced (a ++ y))
    (hm : ∀ x ∈ xs, Marks a x) (hm' : ∀ x ∈ l, Marks y x) :
    Serial (xs ++ l) :=
  pairwise_append.mpr ⟨h, hl, fun x hi o ho ↦
    (hm x hi).stop_le_start (hm' o ho) (pairwise_append.mp hs).2.2⟩

/-- Pieces between separators follow each other. -/
theorem pairwise_splitOnP {r : Glyph → Glyph → Prop} (h : ln.Pairwise r) (p : Glyph → Bool) :
    (ln.splitOnP p).Pairwise fun x y ↦ ∀ left ∈ x, ∀ right ∈ y, r left right := by
  induction ln with
  | nil => simp
  | cons g tl ih =>
    obtain ⟨hg, hr⟩ := pairwise_cons.mp h
    have hl := ih hr
    have hm : ∀ pc ∈ tl.splitOnP p, ∀ right ∈ pc, r g right :=
      fun pc hpi right hri ↦ hg right ((Text.isInfix_of_mem_splitOnP hpi).mem hri)
    obtain ⟨x, l, hs⟩ := exists_cons_of_ne_nil (splitOnP_ne_nil p tl)
    rw [splitOnP_cons_eq_if_modifyHead]
    rw [hs] at hl hm ⊢
    by_cases hp : p g = true
    · rw [if_pos hp]
      exact pairwise_cons.mpr ⟨fun _ _ ↦ nofun, hl⟩
    · rw [if_neg hp]
      obtain ⟨hf, ho⟩ := pairwise_cons.mp hl
      refine pairwise_cons.mpr ⟨fun pc hpi left hle ↦ ?_, ho⟩
      rcases mem_cons.mp hle with rfl | hle
      · exact hm pc (mem_cons_of_mem _ hpi)
      · exact hf pc hpi left hle

/-- Annotations of pieces of a line. -/
theorem serial_of_pieces (hsp : Spaced ln) {runs : List (List Glyph)}
    (hr : runs.Sublist (ln.splitOnP p)) (hn : ∀ run ∈ runs, run ≠ [])
    {xs : List (Annotated Reference)} (hi : xs.map Annotated.span = runs.map spanOf) :
    Serial xs := by
  have hs : (runs.map spanOf).Pairwise fun x y ↦ x.stop ≤ y.start :=
    pairwise_map.mpr (((pairwise_splitOnP hsp p).sublist hr).imp_of_mem
      fun hf hse hb ↦ stop_spanOf_le (hn _ hf) (hn _ hse) hb)
  rw [← hi] at hs
  exact pairwise_map.mp hs

/-! ### Reads -/

theorem map_fst_trail (o : String) (ss : List (List Glyph)) : (trail o ss).map Prod.fst = ss := by
  induction ss generalizing o with
  | nil => rfl
  | cons s r ih => rw [trail, map_cons, ih]

theorem map_span_dottedReads (name : List Glyph) :
    (dottedReads name).map Annotated.span = (name.splitOnP isDot).map spanOf := by
  rw [← map_fst_trail "" (name.splitOnP isDot), dottedReads]
  change _ = ((dottedTrail name).map Prod.fst).map spanOf
  cases dottedTrail name with
  | nil => rfl
  | cons e l =>
    rw [map_cons, map_cons, map_cons, map_map, map_map]
    rfl

theorem serial_dottedReads {name : List Glyph} (h : IsName name) (hsp : Spaced name) :
    Serial (dottedReads name) :=
  serial_of_pieces hsp (Sublist.refl _) (fun _ hs ↦ (h.segment hs).1) (map_span_dottedReads name)

theorem serial_reads (hs : Spaced ln) : Serial (reads ln) := by
  fun_induction reads ln with
  | case1 => exact List.Pairwise.nil
  | case2 g r _ ih =>
    exact ih (hs.of_isInfix ((drop_suffix _ _).trans (suffix_cons _ _)).isInfix)
  | case3 g r _ hst name ih =>
    have hn : IsName name := isName_takeNameRest hst
    have hw : name ++ r.drop (takeNameRest r).length = g :: r :=
      congrArg (g :: ·) (prefix_iff_eq_append.mp (takeNameRest_isPrefix r))
    rw [← hw] at hs
    refine Serial.append ?_ (ih (hs.of_isInfix (suffix_append _ _).isInfix)) hs ?_
      fun x hi ↦ (uses_reads _ x hi).1
    · split_ifs
      · exact List.Pairwise.nil
      · exact serial_dottedReads hn (hs.of_isInfix (prefix_append _ _).isInfix)
    · split_ifs
      · exact forall_mem_nil _
      · exact fun x hi ↦ (uses_dottedReads hn x hi).1
  | case4 g r _ _ ih => exact ih (hs.of_isInfix (suffix_cons _ _).isInfix)

/-! ### Reading part by part -/

/-- Whether a character parts names and numbers from each other. -/
def partsWords (c : Char) : Bool :=
  !continuesName c && c != '.'

section Parts

variable {g : Glyph} (h : partsWords g.char = true)

include h

theorem of_partsWords : continuesName g.char = false ∧ g.char ≠ '.' ∧
    startsName g.char = false ∧ g.char.isDigit = false ∧ continuesNumber g = false := by
  obtain ⟨hn, hd⟩ : continuesName g.char = false ∧ g.char ≠ '.' := by
    simpa [partsWords] using h
  have hs := hn
  simp only [continuesName, Char.isAlphanum, Bool.or_eq_false_iff] at hs
  refine ⟨hn, hd, ?_, hs.1.2, ?_⟩
  · rw [startsName, hs.1.1, hs.2, Bool.false_or]
  · rw [continuesNumber, Char.isAlphanum, hs.1.1, hs.1.2]
    simpa using hd

theorem takeNameRest_append_cons (run r : List Glyph) :
    takeNameRest (run ++ g :: r) = takeNameRest run := by
  obtain ⟨hn, hd, hs, -, -⟩ := of_partsWords h
  induction run with
  | nil =>
    simp [takeNameRest, hn, hd]
  | cons x run ih =>
    have hne : ((run ++ g :: r).head?.any fun n ↦ startsName n.char) =
        run.head?.any fun n ↦ startsName n.char := by
      cases run with
      | nil => simp [hs]
      | cons y run => rfl
    rw [cons_append, takeNameRest, takeNameRest, ih, hne]

/-- Nothing is read across a character that parts words. -/
theorem reads_append_cons (run r : List Glyph) : reads (run ++ g :: r) = reads run ++ reads r := by
  obtain ⟨-, -, hs, hdi, hnu⟩ := of_partsWords h
  have hd : ∀ (n : Nat) (run : List Glyph), n ≤ run.length →
      (run ++ g :: r).drop n = run.drop n ++ g :: r :=
    fun _ _ hc ↦ drop_append_of_le_length hc
  fun_induction reads run with
  | case1 => rw [nil_append, reads, hdi, hs]; rfl
  | case2 x run hf ih =>
    have hnum : (run ++ g :: r).takeWhile continuesNumber = run.takeWhile continuesNumber := by
      rw [takeWhile_append]
      split_ifs with ha
      · rw [takeWhile_cons_of_neg (ne_true_of_eq_false hnu), append_nil]
        exact ((List.takeWhile_prefix _).eq_of_length ha).symm
      · rfl
    rw [cons_append, reads, if_pos hf, hnum, hd _ _ (List.takeWhile_prefix _).length_le, ih]
  | case3 x run hf hn name ih =>
    rw [cons_append, reads, if_neg hf, if_pos hn, takeNameRest_append_cons h,
      hd _ _ (takeNameRest_isPrefix run).length_le, ih, append_assoc]
  | case4 x run hf hn ih =>
    rw [cons_append, reads, if_neg hf, if_neg hn, ih]

theorem reads_cons (r : List Glyph) : reads (g :: r) = reads r := by
  have hp := reads_append_cons h [] r
  rwa [reads, nil_append, nil_append] at hp

end Parts

theorem reads_dropWhile (h : ∀ g, p g = true → partsWords g.char = true)
    (ln : List Glyph) : reads (ln.dropWhile p) = reads ln := by
  induction ln with
  | nil => rfl
  | cons g r ih =>
    rw [dropWhile_cons]
    split_ifs with hp
    · rw [ih, reads_cons (h g hp)]
    · rfl

/-- The first glyph that a predicate refuses, where there is one. -/
theorem exists_eq_takeWhile_append (h : (ln.takeWhile p).length < ln.length) :
    ∃ g r, ln = ln.takeWhile p ++ g :: r ∧ p g = false := by
  cases hr : ln.dropWhile p with
  | nil =>
    have ha := takeWhile_append_dropWhile (p := p) (l := ln)
    rw [hr, append_nil] at ha
    rw [ha] at h
    exact absurd h (Nat.lt_irrefl _)
  | cons g r =>
    refine ⟨g, r, ?_, ?_⟩
    · rw [← hr, takeWhile_append_dropWhile]
    · have hh := head?_dropWhile_not p ln
      rw [hr] at hh
      simpa using hh

theorem braceReads_sublist_reads (i : List Glyph) : (braceReads i).Sublist (reads i) := by
  have hp : ∀ {c d : Char}, partsWords d = true → (c == d) = true → partsWords c = true :=
    fun hd hcd ↦ beq_iff_eq.mp hcd ▸ hd
  have hm : ∀ g : Glyph, (g.char == '~' || g.char == '&' || g.char == '!') =
      true → partsWords g.char = true := by
    intro g hg
    simp only [Bool.or_eq_true] at hg
    rcases hg with (hg | hg) | hg
    all_goals exact hp (by decide) hg
  unfold braceReads
  dsimp only
  rw [← reads_dropWhile hm i]
  generalize i.dropWhile _ = b
  split_ifs with hc
  · obtain ⟨g, r, hb, hg⟩ := exists_eq_takeWhile_append hc
    have hc : g.char = ':' := by simpa using hg
    conv_rhs => rw [hb]
    rw [reads_append_cons (hc ▸ by decide)]
    exact sublist_append_left _ _
  · exact nil_sublist _
  · exact Sublist.refl _

/-- What a line reads between braces is what it would read there as a whole. -/
theorem inlineReads_sublist_reads (l ln : List Glyph) :
    (inlineReads ln).Sublist (reads (l ++ ln)) := by
  fun_induction inlineReads ln generalizing l with
  | case1 => exact nil_sublist _
  | case2 g r hb i hcl ih =>
    obtain ⟨closing, tail, hr, hc⟩ := exists_eq_takeWhile_append hcl
    have hc : closing.char = '\x7d' := by simpa using hc
    have ht : r.drop (i.length + 1) = tail := by
      rw [hr, ← drop_drop, drop_left]
      rfl
    rw [ht] at ih ⊢
    rw [reads_append_cons (hb ▸ by decide), hr, reads_append_cons (hc ▸ by decide)]
    exact ((braceReads_sublist_reads i).append (ih [])).trans (sublist_append_right _ _)
  | case3 => exact nil_sublist _
  | case4 g r _ ih =>
    rw [append_cons]
    exact ih (l ++ [g])

theorem uses_inlineReads (ln : List Glyph) : Uses false ln (inlineReads ln) :=
  fun x hi ↦ uses_reads ln x ((inlineReads_sublist_reads [] ln).mem hi)

theorem inlineReads_append {o : List Glyph} (h : ∀ g ∈ o, g.char ≠ '\x7b') (ln : List Glyph) :
    inlineReads (o ++ ln) = inlineReads ln := by
  induction o with
  | nil => rfl
  | cons g o ih =>
    obtain ⟨hg, ho⟩ := forall_mem_cons.mp h
    rw [cons_append, inlineReads, if_neg hg, ih ho]

end StoryScript.Script
