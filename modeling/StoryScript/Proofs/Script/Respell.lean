import StoryScript.Proofs.Script.Line

/-!
A name that is replaced by another one, in places. A line and the line with the other name in it are
made of the same blocks (`Respells`): signs, words that stay, places where the name was replaced, and
gaps that something else has left. Whatever the scanner takes from the one line, it takes from the
other: it looks at the signs, and at words only to tell whether they are its own.
-/

namespace StoryScript.Script

open Glyph List

variable {line run other : List Glyph} {name : List Char} {word : String} {p : Glyph → Bool}

/-- The words by which the scanner tells lines and tags apart, and the targets that every story
has. -/
def scannerWords : List String :=
  ["INCLUDE", "LIST", "VAR", "CONST", "temp", "ref", "function"] ++
    (AssetKind.all.map AssetKind.name ++ reservedTargets)

/-- A name of one word that is none of the scanner's own. -/
structure IsFreeName (name : List Char) : Prop where
  starts : name.head?.any startsName = true
  chars : ∀ c ∈ name, continuesName c = true
  free : String.ofList name ∉ scannerWords

/-- A name, another one for it, and the offsets at which it is replaced. -/
structure Respelling where
  old : List Char
  new : List Char
  starts : Nat → Prop
  /-- Whether parts of lines may have been blanked. -/
  gaps : Prop
  old_free : IsFreeName old
  new_free : IsFreeName new

/-- A line before which a word ends. -/
def Ends (line : List Glyph) : Prop :=
  ∀ n, line.head? = some n → continuesName n.char = false

/-- A line before which a name stands free. -/
def Free (line : List Glyph) : Prop :=
  ∀ n, line.head? = some n → continuesName n.char = false ∧ n.char ≠ '^'

/-- A line at whose front no name is replaced. -/
def Respelling.Keeps (r : Respelling) (line : List Glyph) : Prop :=
  ∀ n, line.head? = some n → continuesName n.char = true → ¬ r.starts n.offset

/-- A part of a line, as it was and as it is, in front of a rest of the line as it was. -/
inductive Block (r : Respelling) (line : List Glyph) : List Glyph → List Glyph → Prop
  /-- A character outside of words. No name is replaced directly behind a caret. -/
  | sign (glyph glyph' : Glyph) (hchar : glyph'.char = glyph.char)
      (hsign : continuesName glyph.char = false) (hcaret : glyph.char = '^' → r.Keeps line) :
      Block r line [glyph] [glyph']
  /-- A word that stays. -/
  | word (word word' : List Glyph) (hne : word ≠ [])
      (hchars : ∀ glyph ∈ word, continuesName glyph.char = true)
      (hsame : word'.map char = word.map char)
      (hkept : ∀ glyph ∈ word, ¬ r.starts glyph.offset) (hends : Ends line) :
      Block r line word word'
  /-- A place where the name is replaced. -/
  | name (name name' : List Glyph) (hold : name.map char = r.old)
      (hnew : name'.map char = r.new)
      (hstart : ∀ first, name.head? = some first → r.starts first.offset) (hfree : Free line) :
      Block r line name name'
  /-- What blanked parts have left, whatever their lengths. -/
  | gap (hgaps : r.gaps) (blanks blanks' : List Glyph) (hne : blanks ≠ [])
      (hne' : blanks' ≠ []) (hblank : ∀ glyph ∈ blanks, glyph.char = ' ')
      (hblank' : ∀ glyph ∈ blanks', glyph.char = ' ') : Block r line blanks blanks'

/-- A line, and the line with the other name in it. -/
inductive Respells (r : Respelling) : List Glyph → List Glyph → Prop
  | nil : Respells r [] []
  | block {run run' line line' : List Glyph} (hblock : Block r line run run')
      (hline : Respells r line line') : Respells r (run ++ line) (run' ++ line')

variable {r : Respelling}

/-! ### Blocks -/

/-- A test that all characters of words pass, or none. -/
structure Uniform (p : Glyph → Bool) (verdict : Bool) : Prop where
  char : ∀ glyph glyph' : Glyph, glyph'.char = glyph.char → p glyph' = p glyph
  words : ∀ glyph : Glyph, continuesName glyph.char = true → p glyph = verdict

theorem ne_of_continuesName {c d : Char} (hc : continuesName c = true)
    (hd : continuesName d = false) : c ≠ d := by
  rintro rfl
  rw [hc] at hd
  cases hd

theorem uniform_eq {c : Char} (hc : continuesName c = false) :
    Uniform (fun g ↦ g.char == c) false where
  char := fun _ _ h ↦ by rw [h]
  words := fun _ h ↦ beq_eq_false_iff_ne.mpr (ne_of_continuesName h hc)

/-- A line that begins like another one, or with a blank, or is empty. -/
def BeginsLike (other line : List Glyph) : Prop :=
  ∀ n, other.head? = some n → n.char = ' ' ∨ line.head? = some n

theorem BeginsLike.of_isPrefix (h : other <+: line) : BeginsLike other line := by
  intro n hn
  obtain ⟨tl, rfl⟩ := h
  cases other with
  | nil => cases hn
  | cons x l => exact .inr hn

theorem not_continuesName_blank : continuesName ' ' = false := by decide

theorem Ends.beginsLike (h : Ends line) (ho : BeginsLike other line) : Ends other := by
  intro n hn
  rcases ho n hn with hb | hs
  · rw [hb]
    exact not_continuesName_blank
  · exact h n hs

theorem Free.beginsLike (h : Free line) (ho : BeginsLike other line) : Free other := by
  intro n hn
  rcases ho n hn with hb | hs
  · rw [hb]
    exact ⟨not_continuesName_blank, by decide⟩
  · exact h n hs

theorem Respelling.Keeps.beginsLike (h : r.Keeps line) (ho : BeginsLike other line) :
    r.Keeps other := by
  intro n hne hn
  rcases ho n hne with hb | hs
  · rw [hb, not_continuesName_blank] at hn
    cases hn
  · exact h n hs hn

theorem Free.ends (h : Free line) : Ends line :=
  fun n hn ↦ (h n hn).1

theorem continuesName_of_map_eq (h : run.map char = name)
    (hn : ∀ c ∈ name, continuesName c = true) : ∀ g ∈ run, continuesName g.char = true :=
  fun _ hg ↦ hn _ (h ▸ mem_map_of_mem hg)

theorem continuesName_of_map_eq_map {word word' : List Glyph} (h : word'.map char = word.map char)
    (hw : ∀ g ∈ word, continuesName g.char = true) :
    ∀ g ∈ word', continuesName g.char = true :=
  continuesName_of_map_eq h (forall_mem_map.mpr hw)

theorem IsFreeName.ne_nil (h : IsFreeName name) : name ≠ [] := by
  rintro rfl
  cases h.starts

theorem ne_nil_of_map_eq (h : run.map char = name) (hn : name ≠ []) : run ≠ [] := by
  rintro rfl
  exact hn h.symm

namespace Block

variable {run' : List Glyph} (h : Block r line run run')

include h

theorem ne_nil : run ≠ [] ∧ run' ≠ [] := by
  cases h with
  | sign => exact ⟨cons_ne_nil _ _, cons_ne_nil _ _⟩
  | word _ _ hn _ hs =>
    exact ⟨hn, ne_nil_of_map_eq hs (by simpa using hn)⟩
  | name _ _ ho hne =>
    exact ⟨ne_nil_of_map_eq ho r.old_free.ne_nil, ne_nil_of_map_eq hne r.new_free.ne_nil⟩
  | gap _ _ _ hn hn' => exact ⟨hn, hn'⟩

theorem beginsLike {other : List Glyph} (ho : BeginsLike other line) : Block r other run run' := by
  cases h with
  | sign glyph glyph' hch hsi hc =>
    exact .sign glyph glyph' hch hsi fun hg ↦ (hc hg).beginsLike ho
  | word _ _ hn hcha hs hk he =>
    exact .word _ _ hn hcha hs hk (he.beginsLike ho)
  | name _ _ hol hne hst hf =>
    exact .name _ _ hol hne hst (hf.beginsLike ho)
  | gap hga _ _ hn hn' hb hb' =>
    exact .gap hga _ _ hn hn' hb hb'

/-- A block is a sign in both lines, or is made of words, or of blanks. -/
theorem kinds :
    (∃ g g' : Glyph, run = [g] ∧ run' = [g'] ∧ g'.char = g.char ∧ continuesName g.char = false) ∨
    (∀ g ∈ run ++ run', continuesName g.char = true) ∨ ∀ g ∈ run ++ run', g.char = ' ' := by
  cases h with
  | sign g g' hch hsi => exact .inl ⟨g, g', rfl, rfl, hch, hsi⟩
  | word _ _ _ hc hs =>
    exact .inr (Or.inl (forall_mem_append.mpr ⟨hc, continuesName_of_map_eq_map hs hc⟩))
  | name _ _ ho hn =>
    exact .inr (Or.inl (forall_mem_append.mpr ⟨continuesName_of_map_eq ho r.old_free.chars,
      continuesName_of_map_eq hn r.new_free.chars⟩))
  | gap _ _ _ _ _ hb hb' =>
    exact .inr (Or.inr (forall_mem_append.mpr ⟨hb, hb'⟩))

/-- What a test says of a block does not depend on the spelling. -/
theorem verdict {verdict : Bool} (hp : Uniform p verdict) :
    ∃ b, (∀ g ∈ run, p g = b) ∧ ∀ g ∈ run', p g = b := by
  obtain ⟨g, g', rfl, rfl, hc, -⟩ | hw | hb := h.kinds
  · exact ⟨p g, forall_mem_singleton.mpr rfl, forall_mem_singleton.mpr (hp.char _ _ hc)⟩
  · exact ⟨verdict, forall_mem_append.mp fun g hg ↦ hp.words g (hw g hg)⟩
  · exact ⟨p ⟨0, ' '⟩, forall_mem_append.mp fun g hg ↦ hp.char ⟨0, ' '⟩ g (hb g hg)⟩

/-- A test that words and blanks fail is passed by a sign in both lines, or by nothing. -/
theorem passes (hp : Uniform p false) (hb : p ⟨0, ' '⟩ = false) :
    (∃ g g' : Glyph, run = [g] ∧ run' = [g'] ∧ p g = true ∧ p g' = true) ∨
      (∀ g ∈ run, p g = false) ∧ ∀ g ∈ run', p g = false := by
  obtain ⟨g, g', rfl, rfl, hc, -⟩ | hw | hbl := h.kinds
  · rw [forall_mem_singleton, forall_mem_singleton, hp.char _ _ hc]
    cases hg : p g with
    | true => exact .inl ⟨g, g', rfl, rfl, hg, (hp.char _ _ hc).trans hg⟩
    | false => exact .inr ⟨rfl, rfl⟩
  · exact .inr (forall_mem_append.mp fun g hg ↦ hp.words g (hw g hg))
  · exact .inr (forall_mem_append.mp fun g hg ↦ (hp.char ⟨0, ' '⟩ g (hbl g hg)).trans hb)

/-- No word and no blank is a given sign. -/
theorem ne_sign {c : Char} (hs : continuesName c = false) (hb : c ≠ ' ') :
    (∃ g g' : Glyph, run = [g] ∧ run' = [g'] ∧ g.char = c ∧ g'.char = c) ∨
      (∀ g ∈ run, g.char ≠ c) ∧ ∀ g ∈ run', g.char ≠ c := by
  simpa using h.passes (uniform_eq hs) (beq_eq_false_iff_ne.mpr hb.symm)

end Block

/-! ### Parts of lines -/

namespace Respells

variable {line' : List Glyph} (h : Respells r line line')

include h

theorem eq_nil_iff : line = [] ↔ line' = [] := by
  cases h with
  | nil => exact Iff.rfl
  | block hb => simp [hb.ne_nil.1, hb.ne_nil.2]

theorem takeWhile {verdict : Bool} (hp : Uniform p verdict) :
    Respells r (line.takeWhile p) (line'.takeWhile p) := by
  induction h with
  | nil => exact .nil
  | @block run run' line line' hb _ ih =>
    obtain ⟨b, hr, hr'⟩ := hb.verdict hp
    cases b with
    | true =>
      rw [takeWhile_append_of_pos hr, takeWhile_append_of_pos hr']
      exact .block (hb.beginsLike (.of_isPrefix (List.takeWhile_prefix p))) ih
    | false =>
      obtain ⟨x, tl, rfl⟩ := exists_cons_of_ne_nil hb.ne_nil.1
      obtain ⟨x', tl', rfl⟩ := exists_cons_of_ne_nil hb.ne_nil.2
      rw [cons_append, cons_append, takeWhile_cons_of_neg (by simp [hr x mem_cons_self]),
        takeWhile_cons_of_neg (by simp [hr' x' mem_cons_self])]
      exact .nil

theorem dropWhile {verdict : Bool} (hp : Uniform p verdict) :
    Respells r (line.dropWhile p) (line'.dropWhile p) := by
  induction h with
  | nil => exact .nil
  | @block run run' line line' hb hl ih =>
    obtain ⟨b, hr, hr'⟩ := hb.verdict hp
    cases b with
    | true =>
      rw [dropWhile_append_of_pos hr, dropWhile_append_of_pos hr']
      exact ih
    | false =>
      have hw : ∀ {part tl : List Glyph}, part ≠ [] → (∀ g ∈ part, p g = false) →
          (part ++ tl).dropWhile p = part ++ tl := by
        intro part tl hpa hf
        obtain ⟨x, l, rfl⟩ := exists_cons_of_ne_nil hpa
        exact dropWhile_cons_of_neg (by simp [hf x mem_cons_self])
      rw [hw hb.ne_nil.1 hr, hw hb.ne_nil.2 hr']
      exact .block hb hl

/-- Lines that may have been blanked in places. -/
theorem blanked : Respells { r with gaps := True } line line' := by
  induction h with
  | nil => exact .nil
  | block hbl _ ih =>
    refine .block ?_ ih
    cases hbl with
    | sign glyph glyph' hch hsi hc => exact .sign glyph glyph' hch hsi hc
    | word _ _ hn hcha hs hk he =>
      exact .word _ _ hn hcha hs hk he
    | name _ _ ho hne hst hf => exact .name _ _ ho hne hst hf
    | gap _ _ _ hn hn' hb hb' =>
      exact .gap trivial _ _ hn hn' hb hb'

/-- A line in which no name is replaced and nothing was blanked stays. -/
theorem map_char_of_not_starts (hga : ¬ r.gaps) (hsta : ∀ g ∈ line, ¬ r.starts g.offset) :
    line'.map char = line.map char := by
  induction h with
  | nil => rfl
  | block hb _ ih =>
    obtain ⟨hr, hl⟩ := forall_mem_append.mp hsta
    rw [map_append, map_append, ih hl]
    congr 1
    cases hb with
    | sign g g' hc => rw [map_singleton, map_singleton, hc]
    | word _ _ _ _ hs => exact hs
    | name _ _ ho _ hst =>
      obtain ⟨x, l, rfl⟩ := exists_cons_of_ne_nil (ne_nil_of_map_eq ho r.old_free.ne_nil)
      exact absurd (hst x rfl) (hr x mem_cons_self)
    | gap hg => exact absurd hg hga

/-- Where a word ends before the one line, it ends before the other. -/
theorem ends (he : Ends line) : Ends line' := by
  cases h with
  | nil => exact he
  | block hb =>
    obtain ⟨x, tl, rfl⟩ := exists_cons_of_ne_nil hb.ne_nil.1
    obtain ⟨x', tl', rfl⟩ := exists_cons_of_ne_nil hb.ne_nil.2
    rintro _ ⟨⟩
    obtain ⟨_, _, ⟨⟩, ⟨⟩, hc, hs⟩ | hw | hbl := hb.kinds
    · rw [hc, hs]
    · have hf := he x rfl
      rw [hw x mem_cons_self] at hf
      cases hf
    · rw [hbl x' (mem_append_right _ mem_cons_self), not_continuesName_blank]

/-- Where a name starts in the one line, one starts in the other. -/
theorem head?_any_startsName :
    (line.head?.any fun x ↦ startsName x.char) = line'.head?.any fun x ↦ startsName x.char := by
  have hm : ∀ run tl : List Glyph, run ≠ [] → ((run ++ tl).head?.any fun x ↦ startsName x.char) =
        (run.map char).head?.any startsName := by
    intro run tl hr
    obtain ⟨x, l, rfl⟩ := exists_cons_of_ne_nil hr
    rfl
  cases h with
  | nil => rfl
  | @block run run' line line' hbl =>
    rw [hm _ _ hbl.ne_nil.1, hm _ _ hbl.ne_nil.2]
    cases hbl with
    | sign g g' hc => rw [map_singleton, map_singleton, hc]
    | word _ _ _ _ hs => rw [hs]
    | name _ _ ho hne => rw [ho, hne, r.old_free.starts, r.new_free.starts]
    | gap _ _ _ hn hn' hb hb' =>
      obtain ⟨x, tl, rfl⟩ := exists_cons_of_ne_nil hn
      obtain ⟨x', tl', rfl⟩ := exists_cons_of_ne_nil hn'
      simp [hb x, hb' x']

end Respells

/-! ### Names -/

theorem takeNameRest_append (hru : ∀ g ∈ run, continuesName g.char = true)
    (line : List Glyph) : takeNameRest (run ++ line) = run ++ takeNameRest line := by
  induction run with
  | nil => rfl
  | cons g tl ih =>
    obtain ⟨hg, hr⟩ := forall_mem_cons.mp hru
    rw [cons_append, takeNameRest, if_pos hg, ih hr, cons_append]

theorem takeNameRest_sign {g : Glyph} (hg : continuesName g.char = false) (line : List Glyph) :
    takeNameRest (g :: line) = if g.char == '.' && line.head?.any fun n ↦ startsName n.char then
        g :: takeNameRest line else [] := by
  rw [takeNameRest, if_neg (by simp [hg])]

theorem takeNameRest_of_blank (hn : run ≠ []) (hr : ∀ g ∈ run, g.char = ' ')
    (line : List Glyph) : takeNameRest (run ++ line) = [] := by
  obtain ⟨x, tl, rfl⟩ := exists_cons_of_ne_nil hn
  have hc := hr x mem_cons_self
  rw [cons_append, takeNameRest, if_neg (by simp [hc, not_continuesName_blank]),
    if_neg (by simp [hc])]

namespace Respells

variable {line' : List Glyph} (h : Respells r line line')

include h

/-- What goes on a name, and what follows it. -/
theorem takeNameRest :
    Respells r (takeNameRest line) (takeNameRest line') ∧
      Respells r (line.drop (takeNameRest line).length)
        (line'.drop (takeNameRest line').length) := by
  induction h with
  | nil => exact ⟨.nil, .nil⟩
  | @block run run' line line' hb hl ih =>
    have hp := hb.beginsLike (.of_isPrefix (takeNameRest_isPrefix line))
    have hw := Respells.block hb hl
    obtain ⟨g, g', rfl, rfl, hc, hs⟩ | hwo | hbl := hb.kinds
    · have hh := hl.head?_any_startsName
      simp only [singleton_append] at hw ⊢
      rw [takeNameRest_sign hs, takeNameRest_sign (hc ▸ hs), hc, ← hh]
      split_ifs
      · exact ⟨.block hp ih.1, ih.2⟩
      · exact ⟨.nil, hw⟩
    · obtain ⟨hr, hr'⟩ := forall_mem_append.mp hwo
      rw [takeNameRest_append hr, takeNameRest_append hr', length_append,
        length_append, drop_length_add_append, drop_length_add_append]
      exact ⟨.block hp ih.1, ih.2⟩
    · obtain ⟨hr, hr'⟩ := forall_mem_append.mp hbl
      rw [takeNameRest_of_blank hb.ne_nil.1 hr, takeNameRest_of_blank hb.ne_nil.2 hr']
      exact ⟨.nil, hw⟩

/-- The name at the front of a line, and what follows it. -/
theorem takeName :
    Respells r (Script.takeName line) (Script.takeName line') ∧
      Respells r (line.drop (Script.takeName line).length)
        (line'.drop (Script.takeName line').length) := by
  unfold Script.takeName
  rw [← h.head?_any_startsName]
  split_ifs
  · exact h.takeNameRest
  · exact ⟨.nil, h⟩

/-- A name of one word stays, or it is the one that is replaced. -/
theorem spell_of_word (hne : line ≠ []) (hw : ∀ g ∈ line, continuesName g.char = true) :
    (r.starts (spanOf line).start ∧ line.map char = r.old ∧ line'.map char = r.new) ∨
      (¬ r.starts (spanOf line).start ∧ line'.map char = line.map char) := by
  cases h with
  | nil => exact absurd rfl hne
  | @block run run' tl tl' hbl hre =>
    have hni : Ends tl → tl = [] ∧ tl' = [] := by
      intro he
      have hem : tl = [] := by
        cases tl with
        | nil => rfl
        | cons n l =>
          have hn := he n rfl
          rw [hw n (mem_append_right _ mem_cons_self)] at hn
          cases hn
      exact ⟨hem, hre.eq_nil_iff.mp hem⟩
    cases hbl with
    | sign g g' hc hs =>
      rw [hw g mem_cons_self] at hs
      cases hs
    | word _ _ hr hch hsa hk he =>
      obtain ⟨rfl, rfl⟩ := hni he
      obtain ⟨x, l, rfl⟩ := exists_cons_of_ne_nil hr
      rw [append_nil, append_nil, start_spanOf_cons]
      exact .inr ⟨hk x mem_cons_self, hsa⟩
    | name _ _ ho hnew hst hf =>
      obtain ⟨rfl, rfl⟩ := hni hf.ends
      obtain ⟨x, l, rfl⟩ := exists_cons_of_ne_nil (ne_nil_of_map_eq ho r.old_free.ne_nil)
      rw [append_nil, append_nil, start_spanOf_cons]
      exact .inl ⟨hst x rfl, ho, hnew⟩
    | gap _ _ _ hr _ hb =>
      obtain ⟨x, l, rfl⟩ := exists_cons_of_ne_nil hr
      have hn := hw x (mem_append_left _ mem_cons_self)
      rw [hb x mem_cons_self, not_continuesName_blank] at hn
      cases hn

/-- Where no name is replaced at the front, a run of words and carets stays. -/
theorem map_char_of_keeps (hk : r.Keeps line)
    (hc : ∀ g ∈ line, continuesName g.char = true ∨ g.char = '^') :
    line'.map char = line.map char := by
  induction h with
  | nil => rfl
  | @block run run' line line' hbl hl ih =>
    have hr : ∀ g ∈ line, continuesName g.char = true ∨ g.char = '^' :=
      fun g hg ↦ hc g (mem_append_right _ hg)
    rw [map_append, map_append]
    cases hbl with
    | sign g g' hch hsi hca =>
      have hg : g.char = '^' := (hc g mem_cons_self).resolve_left (by simp [hsi])
      rw [ih (hca hg) hr, map_singleton, map_singleton, hch]
    | word _ _ _ _ hs _ he =>
      rw [ih (fun n hnex hn ↦ absurd hn (by simp [he n hnex])) hr, hs]
    | name _ _ ho _ hst =>
      obtain ⟨x, l, rfl⟩ := exists_cons_of_ne_nil (ne_nil_of_map_eq ho r.old_free.ne_nil)
      have hn := continuesName_of_map_eq ho r.old_free.chars x mem_cons_self
      exact absurd (hst x rfl) (hk x rfl hn)
    | gap _ _ _ hne _ hb =>
      obtain ⟨x, l, rfl⟩ := exists_cons_of_ne_nil hne
      have hf := hc x (mem_append_left _ mem_cons_self)
      rw [hb x mem_cons_self] at hf
      exact absurd hf (by decide)

end Respells

/-! ### The scanner's words -/

theorem dropText?_append (t : List Glyph) (line : List Glyph) :
    dropText? (t.map char) (t ++ line) = some line := by
  induction t with
  | nil => rfl
  | cons g tl ih => rw [map_cons, cons_append, dropText?, if_pos rfl, ih]

/-- A word is dropped from a line if it is the whole word at the front of the line. -/
theorem dropWord?_append (hw : ∀ c ∈ word.toList, continuesName c = true)
    (hru : ∀ g ∈ run, continuesName g.char = true) (he : Ends line) :
    dropWord? word (run ++ line) = if run.map char = word.toList then some line else none := by
  split_ifs with heq
  · rw [dropWord?, ← heq, dropText?_append, Option.filter_some, if_pos]
    cases line with
    | nil => rfl
    | cons n l => simp [he n rfl]
  · rw [Option.eq_none_iff_forall_ne_some]
    intro tl hr
    obtain ⟨o, hs, ho⟩ := eq_of_dropWord? hr
    have hn := (Option.filter_eq_some_iff.mp hr).2
    have hwo := continuesName_of_map_eq ho hw
    -- A shorter word goes on behind its end, and a longer one reaches beyond the word's end.
    obtain ⟨more, rfl, hm⟩ | ⟨more, rfl, hm⟩ := append_eq_append_iff.mp hs
    · cases more with
      | nil =>
        rw [append_nil] at ho
        exact heq ho
      | cons n l =>
        have hno := he n (by rw [hm]; rfl)
        rw [hwo n (mem_append_right _ mem_cons_self)] at hno
        cases hno
    · cases more with
      | nil =>
        rw [append_nil] at heq
        exact heq ho
      | cons n l =>
        rw [hm] at hn
        simp [hru n (mem_append_right _ mem_cons_self)] at hn

theorem dropWord?_of_ends (hw : ∀ c ∈ word.toList, continuesName c = true)
    (hn : word ≠ "") (hen : Ends line) : dropWord? word line = none := by
  have hd := dropWord?_append hw (forall_mem_nil _) hen
  rw [nil_append, map_nil, if_neg] at hd
  · exact hd
  · intro he
    exact hn (String.toList_eq_nil_iff.mp he.symm)

theorem IsFreeName.ne_toList (h : IsFreeName name) (hw : word ∈ scannerWords) :
    name ≠ word.toList := by
  rintro rfl
  exact h.free (by rwa [String.ofList_toList])

theorem continuesName_of_mem_scannerWords (h : word ∈ scannerWords) :
    word ≠ "" ∧ ∀ c ∈ word.toList, continuesName c = true := by
  revert word
  decide

namespace Respells

variable {line' : List Glyph} (h : Respells r line line')

include h

/-- The scanner finds its own words in both lines or in none. -/
theorem dropWord? (word : String) (hw : word ∈ scannerWords) :
    Option.Rel (Respells r) (Script.dropWord? word line) (Script.dropWord? word line') := by
  obtain ⟨hne, hc⟩ := continuesName_of_mem_scannerWords hw
  have hno : Ends line → Option.Rel (Respells r) (Script.dropWord? word line)
      (Script.dropWord? word line') := by
    intro he
    rw [dropWord?_of_ends hc hne he, dropWord?_of_ends hc hne (h.ends he)]
    exact .none
  cases h with
  | nil => exact hno nofun
  | @block run run' line line' hbl hl =>
    cases hbl with
    | sign g g' hch hsi =>
      refine hno fun n hn ↦ ?_
      obtain rfl : g = n := by simpa using hn
      exact hsi
    | word _ _ _ hr hs _ he =>
      rw [dropWord?_append hc hr he, dropWord?_append hc
        (continuesName_of_map_eq_map hs hr) (hl.ends he), hs]
      split_ifs
      · exact .some hl
      · exact .none
    | name _ _ ho hnew _ hf =>
      rw [dropWord?_append hc (continuesName_of_map_eq ho r.old_free.chars) hf.ends,
        dropWord?_append hc (continuesName_of_map_eq hnew r.new_free.chars)
          (hl.ends hf.ends), ho, hnew, if_neg (r.old_free.ne_toList hw),
        if_neg (r.new_free.ne_toList hw)]
      exact .none
    | gap _ _ _ hr _ hb =>
      refine hno fun n hn ↦ ?_
      obtain ⟨x, l, rfl⟩ := exists_cons_of_ne_nil hr
      obtain rfl : x = n := by simpa using hn
      rw [hb x mem_cons_self, not_continuesName_blank]

/-- A sign stands at the front of both lines, or of none. -/
theorem head_cases {c : Char} (hs : continuesName c = false) (hbl : c ≠ ' ') :
    (∃ off tl off' tl', line = ⟨off, c⟩ :: tl ∧ line' = ⟨off', c⟩ :: tl' ∧ Respells r tl tl') ∨
    (∀ x, line.head? = some x → x.char ≠ c) ∧ ∀ x, line'.head? = some x → x.char ≠ c := by
  have hh : ∀ {run tl : List Glyph}, run ≠ [] → (∀ g ∈ run, g.char ≠ c) →
      ∀ x, (run ++ tl).head? = some x → x.char ≠ c := by
    intro run tl hr hc x hf
    obtain ⟨g, l, rfl⟩ := exists_cons_of_ne_nil hr
    obtain rfl : g = x := by simpa using hf
    exact hc g mem_cons_self
  cases h with
  | nil => exact .inr ⟨nofun, nofun⟩
  | @block run run' tl tl' hb hre =>
    obtain ⟨⟨off, _⟩, ⟨off', _⟩, rfl, rfl, rfl, rfl⟩ | ⟨hr, hr'⟩ := hb.ne_sign hs hbl
    · exact .inl ⟨off, tl, off', tl', rfl, rfl, hre⟩
    · exact .inr ⟨hh hb.ne_nil.1 hr, hh hb.ne_nil.2 hr'⟩

theorem dropText? (t : List Char) (ht : ∀ c ∈ t, continuesName c = false ∧ c ≠ ' ') :
    Option.Rel (Respells r) (Script.dropText? t line) (Script.dropText? t line') := by
  have hn : ∀ {c : Char} {t : List Char} {line : List Glyph},
      (∀ x, line.head? = some x → x.char ≠ c) →
      Script.dropText? (c :: t) line = none := by
    intro c t line hl
    cases line with
    | nil => rfl
    | cons x tl => exact if_neg (hl x rfl)
  induction t generalizing line line' with
  | nil => exact .some h
  | cons c t ih =>
    obtain ⟨⟨hs, hb⟩, ht⟩ := forall_mem_cons.mp ht
    obtain ⟨off, tl, off', tl', rfl, rfl, hr⟩ | ⟨hl, hl'⟩ := h.head_cases hs hb
    · rw [Script.dropText?, Script.dropText?, if_pos rfl, if_pos rfl]
      exact ih hr ht
    · rw [hn hl, hn hl']
      exact .none

/-- Where the first name starts in a line, it starts in the other. -/
theorem dropWhile_not_startsName :
    Respells r (line.dropWhile fun g ↦ !startsName g.char)
      (line'.dropWhile fun g ↦ !startsName g.char) := by
  have hst : ∀ {g : Glyph}, continuesName g.char = false → (!startsName g.char) = true := by
    intro g hg
    cases hsta : startsName g.char with
    | false => rfl
    | true =>
      rw [continuesName_of_startsName hsta] at hg
      cases hg
  have hsto : ∀ {run tl : List Glyph} {name : List Char}, run.map char = name → IsFreeName name →
      (run ++ tl).dropWhile (fun g ↦ !startsName g.char) = run ++ tl := by
    intro run tl name hn hfr
    obtain ⟨first, later, rfl⟩ := exists_cons_of_ne_nil (ne_nil_of_map_eq hn hfr.ne_nil)
    have hf := hfr.starts
    rw [← hn] at hf
    exact dropWhile_cons_of_neg (by simpa using hf)
  induction h with
  | nil => exact .nil
  | @block run run' line line' hbl hl ih =>
    have hw := Respells.block hbl hl
    cases hbl with
    | sign g g' hc hs =>
      have hsk : ∀ {g : Glyph} (tl : List Glyph), continuesName g.char = false →
          (g :: tl).dropWhile (fun g ↦ !startsName g.char) =
            tl.dropWhile fun g ↦ !startsName g.char :=
        fun _ hg ↦ dropWhile_cons_of_pos (hst hg)
      rw [singleton_append, singleton_append, hsk line hs, hsk line' (hc ▸ hs)]
      exact ih
    | word _ _ _ hch hsa hk hen =>
      -- A word may begin with digits; what is left of it is a word that stays.
      have hm : (run'.dropWhile fun g ↦ !startsName g.char).map char =
          (run.dropWhile fun g ↦ !startsName g.char).map char := by
        have hd := congrArg (List.dropWhile fun c ↦ !startsName c) hsa
        rwa [dropWhile_map, dropWhile_map] at hd
      have hsu := dropWhile_suffix (l := run) fun g : Glyph ↦ !startsName g.char
      rw [dropWhile_append, dropWhile_append]
      by_cases he : (run.dropWhile fun g : Glyph ↦ !startsName g.char) = []
      · rw [he, map_nil, map_eq_nil_iff] at hm
        rw [he, hm]
        exact ih
      · have he' : (run'.dropWhile fun g : Glyph ↦ !startsName g.char) ≠ [] := by
          intro hni
          rw [hni, map_nil, eq_comm, map_eq_nil_iff] at hm
          exact he hm
        rw [if_neg (by simpa using he), if_neg (by simpa using he')]
        exact .block (.word _ _ he (fun g hg ↦ hch g (hsu.mem hg)) hm
          (fun g hg ↦ hk g (hsu.mem hg)) hen) hl
    | name _ _ ho hne =>
      rw [hsto ho r.old_free, hsto hne r.new_free]
      exact hw
    | gap _ _ _ _ _ hb hb' =>
      have hp : ∀ {blanks : List Glyph}, (∀ g ∈ blanks, g.char = ' ') →
          ∀ g ∈ blanks, (!startsName g.char) = true :=
        fun hbla g hg ↦ hst (hbla g hg ▸ not_continuesName_blank)
      rw [dropWhile_append_of_pos (hp hb), dropWhile_append_of_pos (hp hb')]
      exact ih

end Respells

/-! ### Separators -/

theorem splitOnP_append_of_neg (hru : ∀ g ∈ run, p g = false) (line : List Glyph) :
    (run ++ line).splitOnP p = (line.splitOnP p).modifyHead (run ++ ·) := by
  induction run with
  | nil => cases hs : line.splitOnP p <;> simp [hs]
  | cons g tl ih =>
    obtain ⟨hg, hr⟩ := forall_mem_cons.mp hru
    rw [cons_append, splitOnP_cons_eq_if_modifyHead, hg, ih hr,
      if_neg Bool.false_ne_true, modifyHead_modifyHead]
    rfl

namespace Respells

variable {line' : List Glyph}

/-- The pieces of the one line are respellings of the pieces of the other. -/
theorem splitOnP (h : Respells r line line') (hp : Uniform p false) (hbl : p ⟨0, ' '⟩ = false) :
    Forall₂ (Respells r) (line.splitOnP p) (line'.splitOnP p) := by
  induction h with
  | nil => simpa using Respells.nil
  | @block run run' line line' hb _ ih =>
    obtain ⟨g, g', rfl, rfl, hg, hg'⟩ | ⟨hr, hr'⟩ := hb.passes hp hbl
    · rw [singleton_append, singleton_append, splitOnP_cons_eq_if_modifyHead,
        splitOnP_cons_eq_if_modifyHead, hg, hg', if_pos rfl, if_pos rfl]
      exact .cons .nil ih
    · rw [splitOnP_append_of_neg hr, splitOnP_append_of_neg hr']
      obtain ⟨x, l, hs⟩ := exists_cons_of_ne_nil (splitOnP_ne_nil p line)
      obtain ⟨x', l', hs'⟩ := exists_cons_of_ne_nil (splitOnP_ne_nil p line')
      rw [hs, hs'] at ih ⊢
      obtain ⟨hf, hl⟩ := forall₂_cons.mp ih
      refine .cons (.block (hb.beginsLike (.of_isPrefix ?_)) hf) hl
      exact (Text.isPrefix_of_splitOnP hs).1

end Respells

end StoryScript.Script
