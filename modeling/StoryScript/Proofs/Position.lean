import Mathlib.Algebra.Ring.Nat
import Mathlib.Data.List.DropRight
import StoryScript.Text.Position

/-!
Byte offsets, and positions as an editor counts them. A text is cut at an offset by writing it as
two parts; slices and positions of offsets follow from the parts. `Position.offset_ofOffset` is the
round trip from an offset to its position and back, for every offset between two characters that
does not part a carriage return from its line feed. The position of such an offset depends only on the
text before it (`Position.behind`).
-/

namespace StoryScript

open List Text

namespace Text

variable (x y : List Char) {t r l : List Char} {n : Nat} {later : List (List Char)} {c : Char}

/-- The bytes of a first character can be taken from a text, and leave those of the rest. -/
theorem exists_byteLength_cons (c : Char) (r : List Char) :
    ∃ n, byteLength (c :: r) = n + 1 ∧ c.utf8Size ≤ n + 1 ∧ n + 1 - c.utf8Size = byteLength r := by
  have hpo := Char.utf8Size_pos c
  obtain ⟨n, hc⟩ : ∃ n, byteLength (c :: r) = n + 1 :=
    Nat.exists_eq_succ_of_ne_zero (by rw [byteLength]; omega)
  refine ⟨n, hc, ?_, ?_⟩
  · rw [← hc, byteLength]
    exact Nat.le_add_right _ _
  · rw [← hc, byteLength]
    exact Nat.add_sub_cancel_left _ _

theorem dropBytes?_append : dropBytes? (x ++ y) (byteLength x) = some y := by
  induction x with
  | nil => simp [byteLength, dropBytes?]
  | cons c r ih =>
    obtain ⟨n, hc, hl, hs⟩ := exists_byteLength_cons c r
    rw [hc, cons_append, dropBytes?, if_pos hl, hs, ih]

theorem takeBytes?_append : takeBytes? (x ++ y) (byteLength x) = some x := by
  induction x with
  | nil => simp [byteLength, takeBytes?]
  | cons c r ih =>
    obtain ⟨n, hc, hl, hs⟩ := exists_byteLength_cons c r
    rw [hc, cons_append, takeBytes?, if_pos hl, hs, ih]
    rfl

theorem slice?_append (z : List Char) :
    slice? (x ++ (y ++ z)) (byteLength x) (byteLength x + byteLength y) = some y := by
  rw [slice?, if_pos (Nat.le_add_right _ _), dropBytes?_append, Nat.add_sub_cancel_left]
  exact takeBytes?_append y z

theorem suffix_of_dropBytes? (h : dropBytes? t n = some r) : r <:+ t := by
  fun_induction dropBytes? t n with
  | case1 => exact (Option.some.inj h) ▸ suffix_rfl
  | case2 => cases h
  | case3 c later n _ ih => exact (ih h).trans (suffix_cons c later)
  | case4 => cases h

theorem prefix_of_takeBytes? {taken : List Char} (h : takeBytes? t n = some taken) :
    taken <+: t := by
  fun_induction takeBytes? t n generalizing taken with
  | case1 => exact (Option.some.inj h) ▸ List.nil_prefix
  | case2 => cases h
  | case3 c later n _ ih =>
    obtain ⟨more, hm, rfl⟩ := Option.map_eq_some_iff.mp h
    exact cons_prefix_cons.mpr ⟨rfl, ih hm⟩
  | case4 => cases h

theorem byteLength_pos (h : t ≠ []) : 0 < byteLength t := by
  obtain ⟨c, r, rfl⟩ := exists_cons_of_ne_nil h
  exact Nat.lt_of_lt_of_le (Char.utf8Size_pos c) (Nat.le_add_right _ _)

/-- Of two cuts of a text, the one with fewer bytes before it comes first. -/
theorem exists_append_of_le {o later : List Char} (h : o ++ r = x ++ later)
    (hl : byteLength o ≤ byteLength x) :
    ∃ k, x = o ++ k ∧ r = k ++ later := by
  obtain hk | ⟨more, rfl, rfl⟩ := append_eq_append_iff.mp h
  · exact hk
  · have hm : more = [] := by
      by_contra hn
      have hpo := byteLength_pos hn
      rw [byteLength_append] at hl
      omega
    subst hm
    exact ⟨[], by simp⟩

theorem byteLength_eq_sum (t : List Char) : byteLength t = (t.map Char.utf8Size).sum := by
  induction t with
  | nil => rfl
  | cons c r ih => rw [byteLength, ih, map_cons, sum_cons]

theorem unitLength_eq_sum (t : List Char) : unitLength t = (t.map unitSize).sum := by
  rw [unitLength, List.sum, foldr_map]

theorem unitSize_pos (c : Char) : 0 < unitSize c := by
  unfold unitSize
  split_ifs <;> omega

theorem takeWithin_append {size : Char → Nat} (hs : ∀ c, 0 < size c) :
    takeWithin size (x ++ y) (x.map size).sum = x := by
  induction x with
  | nil =>
    cases y with
    | nil => rfl
    | cons c r => exact if_neg (Nat.not_le.mpr (hs c))
  | cons c r ih =>
    rw [map_cons, sum_cons, cons_append, takeWithin,
      if_pos (Nat.le_add_right _ _), Nat.add_sub_cancel_left, ih]

section Trim

variable {α : Type} {drop : α → Bool} {run : List α}

theorem trimEndWhile_isPrefix (drop : α → Bool) (t : List α) : trimEndWhile drop t <+: t :=
  rdropWhile_prefix drop t

theorem trimEndWhile_append (drop : α → Bool) (run l : List α) :
    trimEndWhile drop (run ++ l) = if trimEndWhile drop l = [] then trimEndWhile drop run
      else run ++ trimEndWhile drop l := by
  unfold trimEndWhile
  rw [reverse_append, dropWhile_append]
  by_cases he : l.reverse.dropWhile drop = []
  · simp [he]
  · simp [he]

theorem trimEndWhile_of_pos (h : ∀ i ∈ run, drop i = true) : trimEndWhile drop run = [] :=
  rdropWhile_eq_nil_iff.mpr h

theorem trimEndWhile_of_neg (h : ∀ i ∈ run, drop i = false) : trimEndWhile drop run = run :=
  rdropWhile_eq_self_iff.mpr fun hn ↦ by simp [h _ (getLast_mem hn)]

end Trim

theorem before_append : before (x ++ y) (byteLength x) = x := by
  rw [before, byteLength_eq_sum]
  exact takeWithin_append _ _ Char.utf8Size_pos

theorem after_append : after (x ++ y) (byteLength x) = y := by
  rw [after, before_append, drop_left]

theorem lines_ne_nil (t : List Char) : lines t ≠ [] := by
  fun_cases lines t <;> exact cons_ne_nil _ _

theorem lines_of_break (hb : isLineBreak c = true) (hno : ¬ (c = '\r' ∧ r.head? = some '\n')) :
    lines (c :: r) = [c] :: lines r := by
  rw [lines, if_pos hb]
  rintro more rfl rfl
  exact hno ⟨rfl, rfl⟩

theorem lines_of_ne_break (hb : isLineBreak c = false) (hr : lines r = l :: later) :
    lines (c :: r) = (c :: l) :: later := by
  rw [lines, if_neg (by simp [hb]), hr]
  rintro more rfl -
  cases hb

/-- Lines as they make up a text: all but the last end with a break, and have no other. -/
inductive Broken : List (List Char) → Prop
  | last {line : List Char} (hline : ∀ c ∈ line, isLineBreak c = false) : Broken [line]
  | cons {content ending : List Char} {later : List (List Char)}
      (hcontent : ∀ c ∈ content, isLineBreak c = false)
      (hending : ending = ['\r', '\n'] ∨ ∃ c, isLineBreak c = true ∧ ending = [c])
      (hlater : Broken later) : Broken ((content ++ ending) :: later)

theorem Broken.cons_char (h : Broken (l :: later)) (hc : isLineBreak c = false) :
    Broken ((c :: l) :: later) := by
  cases h with
  | last hli => exact .last (forall_mem_cons.mpr ⟨hc, hli⟩)
  | @cons content ending _ hco he hl =>
    exact @Broken.cons (c :: content) _ _ (forall_mem_cons.mpr ⟨hc, hco⟩) he hl

theorem broken_lines (t : List Char) : Broken (lines t) := by
  fun_induction lines t with
  | case1 => exact .last nofun
  | case2 r ih => exact @Broken.cons [] _ _ nofun (Or.inl rfl) ih
  | case3 c r hno hb ih => exact @Broken.cons [] _ _ nofun (Or.inr ⟨c, hb, rfl⟩) ih
  | case4 c r hno hb hni ih => exact absurd hni (lines_ne_nil r)
  | case5 c r hno hb l later hl ih =>
    exact (hl ▸ ih).cons_char (Bool.eq_false_iff.mpr hb)

theorem Broken.of_append {er later : List (List Char)} (h : Broken (er ++ later))
    (hl : later ≠ []) : Broken later := by
  induction er with
  | nil => exact h
  | cons l er ih =>
    cases hc : er ++ later with
    | nil => exact absurd (append_eq_nil_iff.mp hc).2 hl
    | cons n more =>
      rw [cons_append, hc] at h
      cases h with
      | cons _ _ hm => exact ih (hc ▸ hm)

/-- Only the last line can be empty. -/
theorem Broken.ne_nil (h : Broken (l :: later)) : l ≠ [] ∨ later = [] := by
  cases h with
  | last => exact .inr rfl
  | cons _ he =>
    obtain rfl | ⟨c, -, rfl⟩ := he
    all_goals exact .inl (by simp)

theorem flatten_lines (t : List Char) : (lines t).flatten = t := by
  fun_induction lines t with
  | case1 => rfl
  | case2 r ih => exact congrArg (_ ++ ·) ih
  | case3 c r hno hb ih => exact congrArg (_ ++ ·) ih
  | case4 c r hno hb hni ih => exact absurd hni (lines_ne_nil r)
  | case5 c r hno hb l later hl ih =>
    rw [hl, flatten_cons] at ih
    rw [flatten_cons, cons_append, ih]

/-- The lines of a text that is cut in two, not between a carriage return and its line feed. -/
theorem lines_append (h : ¬ (x.getLast? = some '\r' ∧ y.head? = some '\n')) :
    ∃ er o r later, lines x = er ++ [o] ∧ lines y = r :: later ∧
      lines (x ++ y) = er ++ (o ++ r) :: later := by
  have ht : ∀ {c : Char} {x : List Char}, ¬ ((c :: x).getLast? = some '\r' ∧ y.head? = some '\n') →
      ¬ (x.getLast? = some '\r' ∧ y.head? = some '\n') := by
    intro c x hco hf
    refine hco ⟨?_, hf.2⟩
    rw [getLast?_cons, hf.1]
    rfl
  fun_induction lines x with
  | case1 =>
    obtain ⟨r, later, hl⟩ := exists_cons_of_ne_nil (lines_ne_nil y)
    exact ⟨[], [], r, later, rfl, hl, hl⟩
  | case2 r ih =>
    obtain ⟨er, o, more, later, hf, hs, hb⟩ := ih (ht (ht h))
    refine ⟨['\r', '\n'] :: er, o, more, later, ?_, hs, ?_⟩
    · rw [hf]
      rfl
    · rw [cons_append, cons_append, lines, hb]
      rfl
  | case3 c r hno hbr ih =>
    obtain ⟨er, o, more, later, hf, hs, hb⟩ := ih (ht h)
    refine ⟨[c] :: er, o, more, later, ?_, hs, ?_⟩
    · rw [hf]
      rfl
    · rw [cons_append, lines_of_break hbr, hb]
      · rfl
      · rintro ⟨rfl, hh⟩
        cases r with
        | nil => exact h ⟨rfl, hh⟩
        | cons d r => exact hno r rfl (congrArg (· :: r) (Option.some.inj hh))
  | case4 c r hno hbr hni ih => exact absurd hni (lines_ne_nil r)
  | case5 c r hno hbr l lines' hl ih =>
    obtain ⟨er, o, more, later, hf, hs, hb⟩ := ih (ht h)
    have hc := Bool.eq_false_iff.mpr hbr
    rw [hl] at hf
    cases er with
    | nil =>
      obtain ⟨rfl, rfl⟩ := List.cons.inj hf
      exact ⟨[], c :: l, more, later, rfl, hs, lines_of_ne_break hc hb⟩
    | cons head er =>
      obtain ⟨rfl, rfl⟩ := List.cons.inj hf
      exact ⟨(c :: l) :: er, o, more, later, rfl, hs, lines_of_ne_break hc hb⟩

end Text

theorem Span.textIn_append (x y z : List Char) :
    Span.textIn ⟨byteLength x, byteLength x + byteLength y⟩ (x ++ (y ++ z)) = String.ofList y := by
  rw [Span.textIn, slice?_append]

/-- What a span covers is a part of the text. -/
theorem Span.textIn_isInfix (span : Span) (t : List Char) : (span.textIn t).toList <:+: t := by
  unfold textIn
  split
  · rename_i covered hc
    unfold slice? at hc
    split_ifs at hc
    obtain ⟨r, hr, ht⟩ := Option.bind_eq_some_iff.mp hc
    rw [String.toList_ofList]
    exact (prefix_of_takeBytes? ht).isInfix.trans (suffix_of_dropBytes? hr).isInfix
  · exact List.nil_infix

theorem Change.replace_append (x old r new : List Char) :
    replace (x ++ (old ++ r)) (byteLength x)
      (byteLength x + byteLength old) new = x ++ (new ++ r) := by
  have hb := after_append (x ++ old) r
  rw [byteLength_append, append_assoc] at hb
  rw [replace, before_append, hb, append_assoc]

namespace Position

open Text

/-- The position behind a text. -/
def behind (t : List Char) : Position :=
  ⟨(lines t).length - 1, unitLength ((lines t).getLastD [])⟩

theorem lineContent_append {o : List Char} (h : ∀ c ∈ o, isLineBreak c = false)
    (r : List Char) : lineContent (o ++ r) = o ++ lineContent r := by
  have hk : trimEndWhile (fun c ↦ c == '\n' || c == '\r') o = o := by
    refine trimEndWhile_of_neg fun c hc ↦ ?_
    have hb := h c hc
    simp only [isLineBreak, Bool.or_eq_false_iff] at hb ⊢
    tauto
  rw [lineContent, trimEndWhile_append, hk]
  split_ifs with hni
  · rw [lineContent, hni, append_nil]
  · rfl

/-- The position of a cut counts the lines before it and the units before it in its line. -/
theorem ofOffsetIn_append (er : List (List Char)) (o r : List Char)
    (later : List (List Char)) (hi : r ≠ [] ∨ later = []) :
    ofOffsetIn (er ++ (o ++ r) :: later) (byteLength er.flatten + byteLength o) =
        ⟨er.length, unitLength o⟩ := by
  induction er with
  | nil =>
    rw [flatten_nil, nil_append, byteLength, Nat.zero_add]
    cases later with
    | nil => rw [ofOffsetIn, before_append, length_nil]
    | cons n later =>
      have hr := byteLength_pos (hi.resolve_right (cons_ne_nil _ _))
      have hlt : byteLength o < byteLength (o ++ r) := by
        rw [byteLength_append]
        omega
      rw [ofOffsetIn, if_pos hlt, before_append, length_nil]
  | cons l er ih =>
    obtain ⟨n, more, hne⟩ : ∃ n more, er ++ (o ++ r) :: later = n :: more :=
      exists_cons_of_ne_nil (by simp)
    have hl : ¬ byteLength l + byteLength er.flatten + byteLength o < byteLength l := by omega
    have hs : byteLength l + byteLength er.flatten + byteLength o -
        byteLength l = byteLength er.flatten + byteLength o := by omega
    rw [cons_append, hne, flatten_cons, byteLength_append, ofOffsetIn, if_neg hl, hs,
      ← hne, ih, length_cons]

section Cut

variable (x y : List Char)
  (h : ¬ (x.getLast? = some '\r' ∧ y.head? = some '\n'))

include h

/-- The position of an offset tells nothing of the text behind it. -/
theorem ofOffset_append : ofOffset (x ++ y) (byteLength x) = behind x := by
  obtain ⟨l, o, r, later, hf, hs, hb⟩ := lines_append x y h
  have hi := (hs ▸ broken_lines y).ne_nil
  have hpa : byteLength x = byteLength l.flatten + byteLength o := by
    rw [← byteLength_append, ← flatten_lines x, hf]
    simp
  rw [ofOffset, hb, hpa, ofOffsetIn_append l o r later hi, behind, hf]
  simp

theorem offset_behind : (behind x).offset (x ++ y) = byteLength x := by
  obtain ⟨l, o, rest, later, hf, hs, hbo⟩ := lines_append x y h
  have hp : ∀ c ∈ o, isLineBreak c = false := by
    cases (hf ▸ broken_lines x).of_append (cons_ne_nil o []) with
    | last hli => exact hli
    | cons _ _ hl => cases hl
  have hb : behind x = ⟨l.length, unitLength o⟩ := by
    rw [behind, hf]
    simp
  rw [hb, offset, hbo, getElem?_append_right (Nat.le_refl _), Nat.sub_self,
    getElem?_cons_zero, take_left]
  dsimp only
  rw [lineContent_append hp, unitLength_eq_sum, takeWithin_append _ _ unitSize_pos,
    ← byteLength_append, ← flatten_lines x, hf]
  simp

/-- From an offset to its position and back. -/
theorem offset_ofOffset : (ofOffset (x ++ y) (byteLength x)).offset (x ++ y) = byteLength x := by
  rw [ofOffset_append x y h, offset_behind x y h]

end Cut

section Word

variable {w : List Char} (hn : w ≠ []) (hp : ∀ c ∈ w, c ≠ '\r' ∧ c ≠ '\n')
  (x later : List Char)

include hn hp

/-- The ends of a word part no line break. -/
theorem word_parts_no_break : ¬ (x.getLast? = some '\r' ∧ (w ++ later).head? = some '\n') ∧
    ¬ ((x ++ w).getLast? = some '\r' ∧ later.head? = some '\n') := by
  rw [head?_append_of_ne_nil _ hn, getLast?_append_of_ne_nil _ hn]
  exact ⟨fun h ↦ (hp _ (mem_of_mem_head? h.2)).2 rfl, fun h ↦ (hp _ (mem_of_getLast? h.1)).1 rfl⟩

theorem ofSpan_word :
    Range.ofSpan (x ++ (w ++ later)) ⟨byteLength x, byteLength x + byteLength w⟩ =
      ⟨behind x, behind (x ++ w)⟩ := by
  obtain ⟨hs, hst⟩ := word_parts_no_break hn hp x later
  have hb := ofOffset_append _ _ hst
  rw [append_assoc, byteLength_append] at hb
  rw [← hb, ← ofOffset_append _ _ hs]
  rfl

theorem offset_word : ((behind x).offset (x ++ (w ++ later)),
      (behind (x ++ w)).offset (x ++ (w ++ later))) =
    (byteLength x, byteLength x + byteLength w) := by
  obtain ⟨hs, hst⟩ := word_parts_no_break hn hp x later
  have hb := offset_behind _ _ hst
  rw [append_assoc, byteLength_append] at hb
  rw [hb, offset_behind _ _ hs]

end Word

end Position

end StoryScript
