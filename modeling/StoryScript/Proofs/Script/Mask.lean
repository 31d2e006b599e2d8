import StoryScript.Proofs.Script.Serial
import StoryScript.Script.Mask

/-!
Strings, diverts and tags taken out of a line. What is left masks the line, and blanks are left
wherever a reference was taken out.
-/

namespace StoryScript.Script

open List

variable {ln shown name path b : List Glyph} {k : AssetKind} {x : Annotated Reference} {m : Masked}
  {length : Nat}

theorem masks_maskStrings (i : Bool) (ln : List Glyph) : Masks (maskStrings i ln) ln := by
  fun_induction maskStrings i ln with
  | case1 => exact .nil
  | case2 i g r _ ih => exact .cons (Or.inr rfl) ih
  | case3 i g r _ ih =>
    refine .cons ?_ ih
    cases i
    · exact .inl rfl
    · exact .inr rfl

/-- An annotation of a line whose glyphs are all left blank. -/
def Hides (shown ln : List Glyph) (x : Annotated Reference) : Prop :=
  ∃ run, run <:+: ln ∧ run ≠ [] ∧ x.span = spanOf run ∧ ∀ g ∈ run, g.blank ∈ shown

theorem Hides.mono {shown' l' : List Glyph} (h : Hides shown ln x) (hl : ln <:+: l')
    (hs : shown ⊆ shown') :
    Hides shown' l' x := by
  obtain ⟨run, hr, hn, hsp, hb⟩ := h
  exact ⟨run, hr.trans hl, hn, hsp, fun g hg ↦ hs (hb g hg)⟩

/-- A word of a run that is left blank. -/
theorem Marks.hides {run : List Glyph} (h : Marks run x) (hr : run.map Glyph.blank ⊆ shown) :
    Hides shown run x := by
  obtain ⟨w, hw, hn, -, hs⟩ := h.exists_run
  exact ⟨w, hw, hn, hs, fun g hg ↦ hr (mem_map_of_mem (hw.mem hg))⟩

/-- References taken out of a line, all of them diverts or none. -/
structure Taken (diverts : Bool) (ln : List Glyph) (masked : Masked) : Prop where
  masks : Masks masked.line ln
  uses : Uses diverts ln masked.found
  hides : ∀ item ∈ masked.found, Hides masked.line ln item
  serial : Spaced ln → Serial masked.found

variable {diverts : Bool}

theorem Taken.nothing (ln : List Glyph) : Taken diverts ln ⟨[], ln⟩ :=
  ⟨Masks.refl ln, Uses.nil ln, nofun, fun _ ↦ List.Pairwise.nil⟩

/-- A part of the line that is left as it is. -/
theorem Taken.skip (h : Taken diverts ln m) (g : Glyph) :
    Taken diverts (g :: ln) ⟨m.found, g :: m.line⟩ where
  masks := .cons (Or.inl rfl) h.masks
  uses := h.uses.mono (suffix_cons _ _).isInfix
  hides := fun x hi ↦ (h.hides x hi).mono (suffix_cons _ _).isInfix (subset_cons_self _ _)
  serial := fun hs ↦ h.serial (hs.of_isInfix (suffix_cons _ _).isInfix)

/-- The references of an opening, of which blanks are left, and those behind it. -/
theorem Taken.append {o : List Glyph} {xs : List (Annotated Reference)} (hm : Masks shown o)
    (hu : Uses diverts o xs) (hh : ∀ x ∈ xs, Hides shown o x) (hse : Spaced o → Serial xs)
    (h : Taken diverts ln m) :
    Taken diverts (o ++ ln) ⟨xs ++ m.found, shown ++ m.line⟩ where
  masks := hm.append h.masks
  uses := (hu.mono (prefix_append _ _).isInfix).append (h.uses.mono (suffix_append _ _).isInfix)
  hides := forall_mem_append.mpr ⟨fun x hi ↦ (hh x hi).mono (prefix_append _ _).isInfix
      (subset_append_left _ _),
    fun x hi ↦ (h.hides x hi).mono (suffix_append _ _).isInfix (subset_append_right _ _)⟩
  serial := fun hs ↦ Serial.append (hse (hs.of_isInfix (prefix_append _ _).isInfix))
    (h.serial (hs.of_isInfix (suffix_append _ _).isInfix)) hs
    (fun x hi ↦ (hu x hi).1) (fun x hi ↦ (h.uses x hi).1)

theorem uses_targetReferences (h : ∀ g ∈ path, isPathChar g = true) :
    Uses true path (targetReferences path) := by
  unfold targetReferences
  split_ifs
  · exact Uses.nil path
  · intro x hi
    obtain ⟨⟨s, upTo⟩, he, rfl⟩ := mem_map.mp hi
    obtain ⟨he, hs⟩ := mem_filter.mp he
    obtain ⟨hn, hpa⟩ : s ≠ [] ∧ spell s ≠ Path.parent := by
      simpa using hs
    obtain ⟨hm, hl⟩ := last_of_mem_dottedTrail he
    have hp := Text.isInfix_of_mem_splitOnP hm
    refine ⟨.ofUse .divert hp hn (fun g hg ↦ ?_) hpa hl, rfl, rfl⟩
    have hc := h g (hp.mem hg)
    simp only [isPathChar, isWordChar, Bool.or_eq_true] at hc ⊢
    tauto

theorem serial_targetReferences (h : Spaced path) : Serial (targetReferences path) := by
  unfold targetReferences
  split_ifs
  · exact List.Pairwise.nil
  · have hr : (((dottedTrail path).filter fun e ↦
        e.1 ≠ [] ∧ spell e.1 ≠ Path.parent).map Prod.fst).Sublist (path.splitOnP isDot) :=
      (filter_sublist.map _).trans (map_fst_trail _ _ ▸ Sublist.refl _)
    refine serial_of_pieces h hr (forall_mem_map.mpr fun e he ↦ ?_) ?_
    · exact (of_decide_eq_true (mem_filter.mp he).2).1
    · rw [map_map, map_map]
      rfl

/-- What stands behind an arrow: a second one or none, blanks, a path, and the rest. -/
theorem append_drop_takeWhile (r : List Glyph) (n : Nat) (x y : Glyph → Bool) :
    let arrow := r.take n
    let blanks := (r.drop arrow.length).takeWhile x
    let path := (r.drop (arrow.length + blanks.length)).takeWhile y
    arrow ++ blanks ++ path ++ r.drop (arrow.length + blanks.length + path.length) = r := by
  intro arrow blanks path
  have ha : arrow ++ r.drop arrow.length = r :=
    prefix_iff_eq_append.mp (List.take_prefix n r)
  have hb : blanks ++ r.drop (arrow.length + blanks.length) = r.drop arrow.length := by
    rw [← drop_drop]
    exact prefix_iff_eq_append.mp (List.takeWhile_prefix x)
  have hp : path ++ r.drop (arrow.length + blanks.length + path.length) =
      r.drop (arrow.length + blanks.length) := by
    rw [← drop_drop]
    exact prefix_iff_eq_append.mp (List.takeWhile_prefix y)
  rw [append_assoc, hp, append_assoc, hb, ha]

theorem taken_maskDiverts (ln : List Glyph) : Taken true ln (maskDiverts ln) := by
  fun_induction maskDiverts ln with
  | case1 => exact Taken.nothing []
  | case2 only => exact Taken.nothing [only]
  | case3 x y r _ arrow blanks path tail ih =>
    have hr := append_drop_takeWhile r (secondArrowLength r) Glyph.isBlank isPathChar
    dsimp only at hr
    have hm : Masks ((x :: y :: arrow).map Glyph.blank ++ blanks ++
        path.map Glyph.blank) (x :: y :: arrow ++ blanks ++ path) :=
      ((Masks.blank _).append (Masks.refl blanks)).append (Masks.blank path)
    have hu : Uses true path (targetReferences path) :=
      uses_targetReferences fun g hg ↦ mem_takeWhile_imp hg
    have ht := Taken.append hm (hu.mono (suffix_append _ _).isInfix)
      (fun i hi ↦ ((hu i hi).1.hides (subset_append_right _ _)).mono
        (suffix_append _ _).isInfix (List.Subset.refl _))
      (fun hs ↦ serial_targetReferences (hs.of_isInfix (suffix_append _ _).isInfix)) ih
    rw [cons_append, cons_append, cons_append, cons_append, cons_append, cons_append, hr] at ht
    exact ht
  | case4 x y r _ tail ih => exact ih.skip x

/-- What stands behind the colon of a tag of one kind, which follows a number sign. -/
def tagBody? (ln : List Glyph) (k : AssetKind) : Option (List Glyph) :=
  ((dropWord? k.name (skipBlanks ln)).bind (dropText? [':'])).map skipBlanks

theorem tagBody?_suffix (h : tagBody? ln k = some b) : b <:+ ln := by
  obtain ⟨r, hr, rfl⟩ := Option.map_eq_some_iff.mp h
  obtain ⟨bh, hw, hc⟩ := Option.bind_eq_some_iff.mp hr
  exact (skipBlanks_suffix r).trans ((dropText?_suffix hc).trans
    ((dropWord?_suffix hw).trans (skipBlanks_suffix ln)))

theorem assetTag?_eq (ln : List Glyph) :
    assetTag? ln = AssetKind.all.findSome? fun k ↦ (tagBody? ln k).map fun b ↦
      (k, b.takeWhile isTagChar, ln.length - b.length + (b.takeWhile isTagChar).length) := by
  unfold assetTag?
  congr 1
  funext k
  unfold tagBody?
  split
  · rename_i hw
    rw [hw, Option.bind_some, dropText?_singleton_cons, Option.map_some, Option.map_some]
  · rename_i ho
    cases hw : dropWord? k.name (skipBlanks ln) with
    | none => rfl
    | some bh =>
      rw [Option.bind_some, dropText?_singleton_eq_none fun off r hb ↦
        ho off r (hb ▸ hw), Option.map_none, Option.map_none]

theorem exists_of_assetTag? (h : assetTag? ln = some (k, name, length)) :
    ∃ b, tagBody? ln k = some b ∧ b.takeWhile isTagChar = name ∧
      ln.length - b.length + name.length = length := by
  rw [assetTag?_eq] at h
  obtain ⟨tried, -, hf⟩ := exists_of_findSome?_eq_some h
  obtain ⟨b, hb, heq⟩ := Option.map_eq_some_iff.mp hf
  obtain ⟨rfl, rfl, hl⟩ : tried = k ∧ b.takeWhile isTagChar = name ∧ _ = length := by
    simpa using heq
  exact ⟨b, hb, rfl, hl⟩

theorem eq_of_assetTag? (h : assetTag? ln = some (k, name, length)) :
    (∃ l, ln.take length = l ++ name) ∧ ∀ g ∈ name, isTagChar g = true := by
  obtain ⟨b, hb, rfl, rfl⟩ := exists_of_assetTag? h
  obtain ⟨l, rfl⟩ := tagBody?_suffix hb
  refine ⟨⟨l, ?_⟩, fun g hg ↦ mem_takeWhile_imp hg⟩
  rw [length_append, Nat.add_sub_cancel, take_length_add_append,
    ← prefix_iff_eq_take.mp (List.takeWhile_prefix isTagChar)]

theorem drop_length_takeWhile (p : Glyph → Bool) (ln : List Glyph) :
    ln.drop (ln.takeWhile p).length = ln.dropWhile p := by
  have hs := prefix_iff_eq_append.mp (List.takeWhile_prefix (l := ln) p)
  exact append_cancel_left (hs.trans takeWhile_append_dropWhile.symm)

/-- What stands behind the name of a tag. -/
theorem drop_tag (h : b <:+ ln) :
    ln.drop (ln.length - b.length + (b.takeWhile isTagChar).length) = b.dropWhile isTagChar := by
  obtain ⟨l, rfl⟩ := h
  rw [length_append, Nat.add_sub_cancel, drop_length_add_append, drop_length_takeWhile]

theorem isWordChar_of_isTagChar {g : Glyph} (h : isTagChar g = true) :
    isWordChar g.char = true ∧ g.char ≠ '.' ∧ g.char ≠ '^' := by
  refine ⟨?_, ?_, ?_⟩
  · simp only [isTagChar, isWordChar, Bool.or_eq_true] at h ⊢
    tauto
  · intro hd
    rw [isTagChar, hd] at h
    exact absurd h (by decide)
  · intro hp
    rw [isTagChar, hp] at h
    exact absurd h (by decide)

theorem marks_tag (k : AssetKind) (hn : name <:+: ln) (hne : name ≠ [])
    (ht : ∀ g ∈ name, isTagChar g = true) :
    Marks ln (mark name (Reference.ofUse .read (k.name ++ "." ++ spell name))) := by
  have hm : ∀ c, c ∈ (spell name).toList → ∃ g ∈ name, g.char = c := by
    intro c hc
    rw [toList_spell] at hc
    exact mem_map.mp hc
  refine .ofUse .read hn hne (fun g hg ↦ (isWordChar_of_isTagChar (ht g hg)).1) ?_ ?_
  · intro hp
    obtain ⟨g, hg, heq⟩ := hm '^' (by rw [hp]; decide)
    exact (isWordChar_of_isTagChar (ht g hg)).2.2 heq
  · rw [Path.last_append]
    refine Path.last_of_dotless fun hd ↦ ?_
    obtain ⟨g, hg, heq⟩ := hm '.' hd
    exact (isWordChar_of_isTagChar (ht g hg)).2.1 heq

theorem taken_maskTags (ln : List Glyph) : Taken false ln (maskTags ln) := by
  fun_induction maskTags ln with
  | case1 => exact Taken.nothing []
  | case2 g r k name length ht tail f ih =>
    have ht : assetTag? r = some (k, name, length) := by
      split_ifs at ht
      exact ht
    obtain ⟨⟨l, hb⟩, hc⟩ := eq_of_assetTag? ht
    have hn : name <:+: g :: r.take length := by
      rw [hb]
      exact infix_cons (suffix_append l name).isInfix
    have hu : Uses false (g :: r.take length) f := by
      simp only [f]
      split_ifs with he
      · exact Uses.nil _
      · intro x hi
        obtain rfl := mem_singleton.mp hi
        exact ⟨marks_tag k hn he hc, rfl, rfl⟩
    have hs : Serial f := by
      simp only [f]
      split_ifs
      · exact List.Pairwise.nil
      · exact pairwise_singleton _ _
    have hta := Taken.append (Masks.blank (g :: r.take length)) hu
      (fun x hi ↦ (hu x hi).1.hides (List.Subset.refl _)) (fun _ ↦ hs) ih
    rw [cons_append, take_append_drop] at hta
    exact hta
  | case3 g r _ tail ih => exact ih.skip g

end StoryScript.Script
