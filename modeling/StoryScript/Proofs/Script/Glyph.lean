import Mathlib.Data.List.Forall2
import Mathlib.Data.List.Nodup
import StoryScript.Proofs.Path
import StoryScript.Proofs.Position
import StoryScript.Script.Glyph

/-!
Runs of glyphs. A run of a text's glyphs covers the bytes of a part of the text (`exists_of_run`),
and a run of words in a line that was blanked in places stands in the line itself (`Masks.run`). The
names that lines hold are such runs, and their spellings are plain paths.
-/

namespace StoryScript.Script

open Glyph List Text

variable {l run r name i x y s : List Glyph} {t : List Char} {g : Glyph} {c : Char} {off : Nat}
  {w : String}

/-- What holds of all characters of a list is decided along the list, and not by a search among all
the characters that there are. -/
instance (priority := high) decidableForallMem (t : List Char) (p : Char → Prop)
    [DecidablePred p] : Decidable (∀ c ∈ t, p c) :=
  List.decidableBAll p t

/-- What holds of the character that was found, if there is one. -/
instance (priority := high) decidableForallEqSome (found : Option Char) (p : Char → Prop)
    [DecidablePred p] : Decidable (∀ c, found = some c → p c) :=
  match found with
  | none => isTrue nofun
  | some c => decidable_of_iff (p c) ⟨fun h _ hc ↦ Option.some.inj hc ▸ h, fun h ↦ h c rfl⟩

/-! ### Characters of names -/

theorem isAlpha_iff : c.isAlpha = true ↔
    0x41 ≤ c.toNat ∧ c.toNat ≤ 0x5a ∨ 0x61 ≤ c.toNat ∧ c.toNat ≤ 0x7a := by
  delta Char.isAlpha Char.isUpper Char.isLower
  simp only [Bool.or_eq_true, Bool.and_eq_true, decide_eq_true_eq, UInt32.le_iff_toNat_le,
    ge_iff_le]
  rfl

theorem isDigit_iff : c.isDigit = true ↔ 0x30 ≤ c.toNat ∧ c.toNat ≤ 0x39 := by
  delta Char.isDigit
  simp only [Bool.and_eq_true, decide_eq_true_eq, UInt32.le_iff_toNat_le, ge_iff_le]
  rfl

theorem isAlphanum_iff : c.isAlphanum = true ↔
    (0x41 ≤ c.toNat ∧ c.toNat ≤ 0x5a ∨ 0x61 ≤ c.toNat ∧ c.toNat ≤ 0x7a) ∨
      0x30 ≤ c.toNat ∧ c.toNat ≤ 0x39 := by
  rw [Char.isAlphanum, Bool.or_eq_true, isAlpha_iff, isDigit_iff]

theorem isDigit_of_startsName (h : startsName c = true) : c.isDigit = false := by
  rw [startsName, Bool.or_eq_true] at h
  rcases h with h | h
  · rw [Bool.eq_false_iff, Ne, isDigit_iff]
    have ha := isAlpha_iff.mp h
    omega
  · rw [eq_of_beq h]
    rfl

/-! ### Glyphs of a text -/

theorem glyphs_append (off : Nat) (x y : List Char) :
    glyphs off (x ++ y) = glyphs off x ++ glyphs (off + byteLength x) y := by
  induction x generalizing off with
  | nil => rfl
  | cons c r ih =>
    rw [cons_append, glyphs, ih, glyphs, cons_append, byteLength, Nat.add_assoc]

theorem map_char_glyphs (off : Nat) (t : List Char) : (glyphs off t).map char = t := by
  induction t generalizing off with
  | nil => rfl
  | cons c r ih => rw [glyphs, map_cons, ih]

@[simp] theorem length_glyphs (off : Nat) (t : List Char) : (glyphs off t).length = t.length := by
  rw [← length_map char, map_char_glyphs]

theorem glyphs_eq_nil : glyphs off t = [] ↔ t = [] := by
  cases t <;> simp [glyphs]

theorem spell_glyphs (off : Nat) (t : List Char) : spell (glyphs off t) = String.ofList t := by
  rw [spell, map_char_glyphs]

theorem spanOf_glyphs (off : Nat) (h : t ≠ []) :
    spanOf (glyphs off t) = ⟨off, off + byteLength t⟩ := by
  obtain ⟨pre, last, ht⟩ := (eq_nil_or_concat t).resolve_left h
  obtain ⟨c, r, hc⟩ := exists_cons_of_ne_nil h
  have hf : (glyphs off t).head? = some ⟨off, c⟩ := by
    rw [hc]
    rfl
  have hl : (glyphs off t).getLast? = some ⟨off + byteLength pre, last⟩ := by
    rw [ht, concat_eq_append, glyphs_append]
    exact getLast?_concat
  have hs : off + byteLength pre + last.utf8Size = off + byteLength t := by
    rw [ht, concat_eq_append, byteLength_append, Nat.add_assoc]
    rfl
  rw [spanOf, hf, hl, ← hs]
  rfl

@[simp] theorem start_spanOf_cons (x : Glyph) (r : List Glyph) :
    (spanOf (x :: r)).start = x.offset := by
  rw [spanOf, head?_cons, getLast?_cons]

/-- The offsets of a line's glyphs rise from one to the next. -/
def Rising (l : List Glyph) : Prop :=
  l.Pairwise fun x y ↦ x.offset < y.offset

theorem le_offset_of_mem_glyphs (h : g ∈ glyphs off t) :
    off ≤ g.offset ∧ g.offset < off + byteLength t := by
  induction t generalizing off with
  | nil => cases h
  | cons c r ih =>
    have hp := Char.utf8Size_pos c
    rw [byteLength]
    rcases mem_cons.mp h with rfl | h
    · exact ⟨Nat.le_refl _, by dsimp only; omega⟩
    · have := ih h
      omega

/-- Glyphs each of which ends before the next one starts. -/
def Spaced (l : List Glyph) : Prop :=
  l.Pairwise fun x y ↦ x.stop ≤ y.offset

theorem spaced_glyphs (off : Nat) (t : List Char) : Spaced (glyphs off t) := by
  induction t generalizing off with
  | nil => exact List.Pairwise.nil
  | cons c r ih =>
    exact pairwise_cons.mpr ⟨fun g hg ↦ (le_offset_of_mem_glyphs hg).1, ih _⟩

theorem Spaced.of_isInfix (h : Spaced l) (hi : i <:+: l) : Spaced i :=
  h.sublist hi.sublist

theorem Glyph.offset_lt_stop (g : Glyph) : g.offset < g.stop :=
  Nat.lt_add_of_pos_right (Char.utf8Size_pos g.char)

theorem Spaced.rising (h : Spaced l) : Rising l :=
  h.imp fun hl ↦ Nat.lt_of_lt_of_le (offset_lt_stop _) hl

theorem rising_glyphs (off : Nat) (t : List Char) : Rising (glyphs off t) :=
  (spaced_glyphs off t).rising

/-- A run reaches from the start of one of its glyphs to the end of another. -/
theorem exists_ends_spanOf (h : run ≠ []) :
    ∃ x ∈ run, ∃ last ∈ run, spanOf run = ⟨x.offset, last.stop⟩ := by
  obtain ⟨x, hf⟩ := Option.isSome_iff_exists.mp (isSome_head?.mpr h)
  have hl := getLast?_eq_getLast_of_ne_nil h
  generalize run.getLast h = last at hl
  refine ⟨x, mem_of_mem_head? hf, last, mem_of_getLast? hl, ?_⟩
  rw [spanOf, hf, hl]

/-- Where every glyph of a run ends before one of another run starts, the whole run does. -/
theorem stop_spanOf_le (hf : x ≠ []) (hse : y ≠ [])
    (h : ∀ left ∈ x, ∀ right ∈ y, left.stop ≤ right.offset) :
    (spanOf x).stop ≤ (spanOf y).start := by
  obtain ⟨_, _, last, hl, hs⟩ := exists_ends_spanOf hf
  obtain ⟨start, hst, _, _, hs'⟩ := exists_ends_spanOf hse
  rw [hs, hs']
  exact h last hl start hst

theorem Spaced.mem_of_isInfix (h : Spaced l) (hr : run <:+: l) (hn : run ≠ [])
    (hg : g ∈ l) (hs : (spanOf run).start ≤ g.offset)
    (hst : g.offset < (spanOf run).stop) : g ∈ run := by
  obtain ⟨pre, post, rfl⟩ := hr
  obtain ⟨x, hf, last, hl, hsp⟩ := exists_ends_spanOf hn
  rw [hsp] at hs hst
  dsimp only at hs hst
  obtain ⟨hfr, -, ha⟩ := pairwise_append.mp h
  have hb := (pairwise_append.mp hfr).2.2
  have hp := g.offset_lt_stop
  rcases mem_append.mp hg with hg | hg
  · rcases mem_append.mp hg with hg | hg
    · have := hb g hg x hf
      omega
    · exact hg
  · have := ha last (mem_append_right _ hl) g hg
    omega

/-- Two runs of a line follow each other or have a glyph in common. -/
theorem Spaced.stop_le_or_exists_mem (h : Spaced l) (hf : x <:+: l) (hse : y <:+: l) (hn : x ≠ [])
    (hn' : y ≠ []) :
    (spanOf x).stop ≤ (spanOf y).start ∨ (spanOf y).stop ≤ (spanOf x).start ∨ ∃ g ∈ x, g ∈ y := by
  obtain ⟨left, hle, _, _, hs⟩ := exists_ends_spanOf hn
  obtain ⟨right, hr, _, _, hs'⟩ := exists_ends_spanOf hn'
  have hst : (spanOf x).start = left.offset := congrArg Span.start hs
  have hst' : (spanOf y).start = right.offset := congrArg Span.start hs'
  -- Unless it lies behind the other run, the run that starts later starts within the other one.
  rcases Nat.le_total left.offset right.offset with hl | hl
  · by_cases hsto : right.offset < (spanOf x).stop
    · exact .inr (Or.inr ⟨right, h.mem_of_isInfix hf hn (hse.mem hr) (hst ▸ hl) hsto, hr⟩)
    · exact .inl (by omega)
  · by_cases hsto : left.offset < (spanOf y).stop
    · exact .inr (Or.inr ⟨left, hle, h.mem_of_isInfix hse hn' (hf.mem hle) (hst' ▸ hl) hsto⟩)
    · exact .inr (Or.inl (by omega))

theorem Rising.of_isInfix (h : Rising l) (hi : i <:+: l) : Rising i :=
  h.sublist hi.sublist

theorem Rising.glyph_ext (h : Rising l) {x y : Glyph} (hf : x ∈ l)
    (hs : y ∈ l) (heq : x.offset = y.offset) : x = y := by
  have hn : (l.map offset).Nodup := pairwise_map.mpr (h.imp fun hl ↦ Nat.ne_of_lt hl)
  exact inj_on_of_nodup_map hn hf hs heq

/-- Runs of a text's glyphs are the glyphs of parts of the text. -/
theorem exists_of_append_eq_glyphs {pre post : List Glyph} (h : pre ++ run ++ post = glyphs off t) :
    ∃ x y z, t = x ++ (y ++ z) ∧ pre = glyphs off x ∧ run = glyphs (off + byteLength x) y := by
  have ht : t = pre.map char ++ (run.map char ++ post.map char) := by
    rw [← map_char_glyphs off t, ← h]
    simp
  refine ⟨_, _, _, ht, ?_⟩
  rw [ht, glyphs_append, glyphs_append, append_assoc] at h
  obtain ⟨hb, hr⟩ := append_inj h (by simp)
  exact ⟨hb, (append_inj hr (by simp)).1⟩

theorem exists_of_isInfix_glyphs (h : run <:+: glyphs off t) :
    ∃ x y z, t = x ++ (y ++ z) ∧ run = glyphs (off + byteLength x) y := by
  obtain ⟨pre, post, heq⟩ := h
  obtain ⟨x, y, z, ht, -, hr⟩ := exists_of_append_eq_glyphs heq
  exact ⟨x, y, z, ht, hr⟩

/-! ### Blanked lines -/

/-- A line in which some glyphs may have been left blank. -/
def Masks (m l : List Glyph) : Prop :=
  Forall₂ (fun shown g ↦ shown = g ∨ shown = g.blank) m l

namespace Masks

variable {m : List Glyph}

theorem refl (l : List Glyph) : Masks l l :=
  forall₂_same.mpr fun _ _ ↦ Or.inl rfl

theorem blank (l : List Glyph) : Masks (l.map blank) l := by
  induction l with
  | nil => exact .nil
  | cons g r ih => exact .cons (Or.inr rfl) ih

theorem trans {twice : List Glyph} (h : Masks twice m) (h' : Masks m l) : Masks twice l := by
  induction h generalizing l with
  | nil => exact h'
  | cons hg _ ih =>
    cases h' with
    | cons hg' hr =>
      refine .cons ?_ (ih hr)
      rcases hg with rfl | rfl
      · exact hg'
      · rcases hg' with rfl | rfl
        · exact .inr rfl
        · exact .inr rfl

theorem append {m' l' : List Glyph} (h : Masks m l) (h' : Masks m' l') :
    Masks (m ++ m') (l ++ l') :=
  rel_append h h'

theorem offsets (h : Masks m l) : m.map offset = l.map offset := by
  induction h with
  | nil => rfl
  | cons hg _ ih =>
    rw [map_cons, map_cons, ih]
    rcases hg with rfl | rfl <;> rfl

theorem rising (h : Masks m l) (hl : Rising l) : Rising m := by
  have ho : (l.map offset).Pairwise (· < ·) := pairwise_map.mpr hl
  rw [← h.offsets] at ho
  exact pairwise_map.mp ho

/-- Blanks take no more room than what they stand for. -/
theorem spaced (h : Masks m l) (hl : Spaced l) : Spaced m := by
  induction h with
  | nil => exact List.Pairwise.nil
  | @cons shown g m l hg hm ih =>
    obtain ⟨hf, hr⟩ := pairwise_cons.mp hl
    refine pairwise_cons.mpr ⟨fun o hot ↦ ?_, ih hr⟩
    have hs : shown.stop ≤ g.stop := by
      rcases hg with rfl | rfl
      · exact Nat.le_refl _
      · exact Nat.add_le_add_left (Char.utf8Size_pos g.char) g.offset
    have ho : o.offset ∈ l.map offset := offsets hm ▸ mem_map_of_mem hot
    obtain ⟨b, hb, heq⟩ := mem_map.mp ho
    exact heq ▸ Nat.le_trans hs (hf b hb)

theorem exists_append {x y : List Glyph} (h : Masks (x ++ y) l) :
    ∃ left right, l = left ++ right ∧ Masks x left ∧ Masks y right := by
  induction x generalizing l with
  | nil => exact ⟨[], l, rfl, .nil, h⟩
  | cons shown r ih =>
    cases h with
    | cons hg hr =>
      obtain ⟨left, right, rfl, hl, hri⟩ := ih hr
      exact ⟨_ :: left, right, rfl, .cons hg hl, hri⟩

theorem eq_of_words (h : Masks m l) (hw : ∀ g ∈ m, g.char ≠ ' ') : m = l := by
  induction h with
  | nil => rfl
  | cons hg _ ih =>
    obtain ⟨hf, hr⟩ := forall_mem_cons.mp hw
    rcases hg with rfl | rfl
    · rw [ih hr]
    · exact absurd rfl hf

/-- A run without blanks stands in the line itself. -/
theorem isInfix_of_isInfix (h : Masks m l) {run : List Glyph} (hr : run <:+: m)
    (hw : ∀ g ∈ run, g.char ≠ ' ') : run <:+: l := by
  obtain ⟨pre, post, rfl⟩ := hr
  obtain ⟨left, right, rfl, hl, -⟩ := h.exists_append
  obtain ⟨o, mid, rfl, -, hm⟩ := hl.exists_append
  rw [hm.eq_of_words hw]
  exact infix_append o mid right

end Masks

/-! ### Words -/

/-- The characters that names, paths and tags are made of. -/
def isWordChar (c : Char) : Bool :=
  c.isAlphanum || c == '_' || c == '.' || c == '^' || c == '-'

theorem ne_of_isWordChar (h : isWordChar c = true) : c ≠ ' ' ∧ c ≠ '\n' ∧ c ≠ '?' := by
  refine ⟨?_, ?_, ?_⟩ <;>
  · rintro rfl
    exact absurd h (by decide)

theorem isWordChar_of_continuesName (h : continuesName c = true) : isWordChar c = true := by
  simp only [continuesName, isWordChar, Bool.or_eq_true] at h ⊢
  tauto

theorem continuesName_of_startsName (h : startsName c = true) : continuesName c = true := by
  simp only [startsName, continuesName, Bool.or_eq_true, Char.isAlphanum] at h ⊢
  tauto

/-- Whether a glyph parts the segments of a dotted name. -/
abbrev isDot (g : Glyph) : Bool :=
  g.char == '.'

theorem isDot_of_continuesName (h : continuesName g.char = true) : isDot g = false := by
  refine beq_eq_false_iff_ne.mpr fun hd ↦ ?_
  rw [hd] at h
  exact absurd h (by decide)

/-- A dotted name: words with single dots between them. -/
structure IsName (name : List Glyph) : Prop where
  chars : ∀ g ∈ name, continuesName g.char = true ∨ g.char = '.'
  segments : [] ∉ name.splitOnP isDot

theorem takeNameRest_isPrefix (l : List Glyph) : takeNameRest l <+: l := by
  fun_induction takeNameRest l with
  | case1 => exact prefix_rfl
  | case2 g r _ ih => exact cons_prefix_cons.mpr ⟨rfl, ih⟩
  | case3 g r _ _ ih => exact cons_prefix_cons.mpr ⟨rfl, ih⟩
  | case4 => exact List.nil_prefix

theorem takeName_isPrefix (l : List Glyph) : takeName l <+: l := by
  unfold takeName
  split_ifs
  · exact takeNameRest_isPrefix l
  · exact List.nil_prefix

theorem chars_takeNameRest (l : List Glyph) :
    ∀ g ∈ takeNameRest l, continuesName g.char = true ∨ g.char = '.' := by
  fun_induction takeNameRest l with
  | case1 => exact nofun
  | case2 g r hn ih => exact forall_mem_cons.mpr ⟨Or.inl hn, ih⟩
  | case3 g r _ hd ih =>
    exact forall_mem_cons.mpr ⟨Or.inr (by simpa using (Bool.and_eq_true_iff.mp hd).1), ih⟩
  | case4 => exact nofun

/-- A word's character in front makes the first segment longer and leaves the others as they are. -/
theorem splitOnP_cons_name (hn : continuesName g.char = true) (r : List Glyph) : ∃ x,
    (g :: r).splitOnP isDot = (g :: x) :: (r.splitOnP isDot).tail := by
  obtain ⟨x, lt, hs⟩ := exists_cons_of_ne_nil (splitOnP_ne_nil isDot r)
  refine ⟨x, ?_⟩
  rw [splitOnP_cons_eq_if_modifyHead, isDot_of_continuesName hn, hs]
  rfl

/-- Only the first segment of what goes on a name can be empty. -/
theorem tail_splitOnP_takeNameRest (l : List Glyph) :
    [] ∉ ((takeNameRest l).splitOnP isDot).tail := by
  fun_induction takeNameRest l with
  | case1 => simp
  | case2 g r hn ih =>
    obtain ⟨x, hs⟩ := splitOnP_cons_name hn (takeNameRest r)
    rwa [hs]
  | case3 g r hno hd ih =>
    -- Behind the dot another name starts, so the segment that begins there is not empty.
    obtain ⟨hg, hne⟩ := Bool.and_eq_true_iff.mp hd
    obtain ⟨n, lt, rfl⟩ : ∃ n lt, r = n :: lt := by
      cases r with
      | nil => cases hne
      | cons n lt => exact ⟨n, lt, rfl⟩
    have hn : continuesName n.char = true := continuesName_of_startsName (by simpa using hne)
    obtain ⟨x, hs⟩ := splitOnP_cons_name hn (takeNameRest lt)
    rw [takeNameRest, if_pos hn, hs] at ih
    rw [splitOnP_cons_eq_if_modifyHead, if_pos hg, tail_cons, takeNameRest, if_pos hn, hs]
    simpa using ih
  | case4 => simp

theorem isName_takeNameRest (h : startsName g.char = true) : IsName (g :: takeNameRest r) := by
  have hn := continuesName_of_startsName h
  obtain ⟨x, hs⟩ := splitOnP_cons_name hn (takeNameRest r)
  constructor
  · exact forall_mem_cons.mpr ⟨Or.inl hn, chars_takeNameRest r⟩
  · rw [hs]
    simpa using tail_splitOnP_takeNameRest r

theorem isName_takeName (h : takeName l ≠ []) : IsName (takeName l) := by
  unfold takeName at h ⊢
  split_ifs at h ⊢ with hs
  · cases l with
    | nil => cases hs
    | cons g r =>
      have hg : startsName g.char = true := by simpa using hs
      rw [takeNameRest, if_pos (continuesName_of_startsName hg)]
      exact isName_takeNameRest hg
  · exact absurd rfl h

theorem splitOnP_map {α β : Type} (f : α → β) (p : β → Bool) (xs : List α) :
    (xs.map f).splitOnP p = (xs.splitOnP (p ∘ f)).map (List.map f) := by
  induction xs with
  | nil => simp
  | cons x r ih =>
    obtain ⟨a, lt, hs⟩ := exists_cons_of_ne_nil (splitOnP_ne_nil (p ∘ f) r)
    rw [map_cons, splitOnP_cons_eq_if_modifyHead, splitOnP_cons_eq_if_modifyHead, ih, hs]
    by_cases hx : p (f x) = true <;> simp [hx]

theorem toList_spell (run : List Glyph) : (spell run).toList = run.map char :=
  String.toList_ofList

/-- The segments of a spelled name are the spelled segments of the name. -/
theorem segments_spell (name : List Glyph) :
    Path.segments (spell name) = (name.splitOnP isDot).map spell := by
  rw [Path.segments, Text.split, toList_spell, splitOn_eq_splitOnP, splitOnP_map, map_map]
  rfl

theorem spell_eq_empty : spell run = "" ↔ run = [] := by
  rw [← String.toList_inj, toList_spell]
  simp

theorem IsName.plain (h : IsName name) : Path.Plain (spell name) := by
  constructor
  · rw [segments_spell]
    intro he
    obtain ⟨p, hp, heq⟩ := mem_map.mp he
    exact h.segments (spell_eq_empty.mp heq ▸ hp)
  · rw [toList_spell]
    intro hm
    obtain ⟨g, hg, heq⟩ := mem_map.mp hm
    rcases h.chars g hg with hn | hd
    · rw [heq] at hn
      exact absurd hn (by decide)
    · rw [heq] at hd
      exact absurd hd (by decide)

theorem IsName.words (h : IsName name) : ∀ g ∈ name, isWordChar g.char = true := by
  intro g hg
  rcases h.chars g hg with hn | hd
  · exact isWordChar_of_continuesName hn
  · rw [hd]
    decide

theorem dotless_of_mem_splitOnP (h : s ∈ name.splitOnP isDot) : '.' ∉ (spell s).toList := by
  rw [toList_spell]
  intro hm
  obtain ⟨g, hg, heq⟩ := mem_map.mp hm
  have hd := eq_false_of_mem_splitOnP h g hg
  rw [isDot, heq] at hd
  cases hd

/-- The path up to a segment ends with the segment. -/
theorem last_of_mem_trail {o : String} {ss : List (List Glyph)}
    (ho : o = "" ∨ ∃ pre, o = pre ++ ".") :
    ∀ e ∈ trail o ss, e.1 ∈ ss ∧ Path.last e.2 = Path.last (spell e.1) := by
  induction ss generalizing o with
  | nil => exact nofun
  | cons s r ih =>
    rw [trail]
    refine forall_mem_cons.mpr ⟨⟨mem_cons_self, ?_⟩, fun e he ↦ ?_⟩
    · rcases ho with rfl | ⟨pre, rfl⟩
      · rw [String.empty_append]
      · exact Path.last_append pre (spell s)
    · obtain ⟨hm, hl⟩ := ih (Or.inr ⟨_, rfl⟩) e he
      exact ⟨mem_cons_of_mem _ hm, hl⟩

theorem last_of_mem_dottedTrail {path : String} (h : (s, path) ∈ dottedTrail name) :
    s ∈ name.splitOnP isDot ∧ Path.last path = spell s := by
  obtain ⟨hm, hl⟩ := last_of_mem_trail (Or.inl rfl) (s, path) h
  exact ⟨hm, hl.trans (Path.last_of_dotless (dotless_of_mem_splitOnP hm))⟩

/-! ### Openings of lines -/

theorem skipBlanks_suffix (l : List Glyph) : skipBlanks l <:+ l :=
  dropWhile_suffix _

theorem eq_of_dropText? (h : dropText? t l = some r) : ∃ o, l = o ++ r ∧ o.map char = t := by
  fun_induction dropText? t l with
  | case1 l =>
    obtain rfl := Option.some.inj h
    exact ⟨[], rfl, rfl⟩
  | case2 => cases h
  | case3 t g l ih =>
    obtain ⟨o, rfl, ho⟩ := ih h
    exact ⟨g :: o, rfl, by rw [map_cons, ho]⟩
  | case4 => cases h

theorem eq_of_dropWord? (h : dropWord? w l = some r) : ∃ o, l = o ++ r ∧ o.map char = w.toList :=
  eq_of_dropText? (Option.filter_eq_some_iff.mp h).1

theorem dropWord?_suffix (h : dropWord? w l = some r) : r <:+ l := by
  obtain ⟨o, rfl, -⟩ := eq_of_dropWord? h
  exact suffix_append o r

theorem dropText?_suffix (h : dropText? t l = some r) : r <:+ l := by
  obtain ⟨o, rfl, -⟩ := eq_of_dropText? h
  exact suffix_append o r

theorem dropText?_singleton_cons (off : Nat) (r : List Glyph) :
    dropText? [c] (⟨off, c⟩ :: r) = some r := by
  rw [dropText?, if_pos rfl, dropText?]

theorem dropText?_singleton_eq_none (h : ∀ off r, l = ⟨off, c⟩ :: r → False) :
    dropText? [c] l = none := by
  cases l with
  | nil => rfl
  | cons g r =>
    rw [dropText?, if_neg]
    rintro rfl
    exact h g.offset r rfl

theorem dropText?_pair_eq_none {d : Char}
    (h : ∀ off off' r, l = ⟨off, c⟩ :: ⟨off', d⟩ :: r → False) :
    dropText? [c, d] l = none := by
  cases l with
  | nil => rfl
  | cons g r =>
    rw [dropText?]
    split_ifs with hg
    · subst hg
      exact dropText?_singleton_eq_none fun off lt hr ↦ h g.offset off lt (hr ▸ rfl)
    · rfl

end StoryScript.Script
