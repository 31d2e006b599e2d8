import StoryScript.Proofs.Script.Respell

/-!
Strings, diverts and tags of a line and of its respelling. What is blanked in the one line is blanked
in the other, and the paths of their diverts are respellings of each other.
-/

namespace StoryScript.Script

open Glyph List

variable {r : Respelling} {l run : List Glyph} {x : Glyph}

/-! ### Tests -/

theorem uniform_ne {c : Char} (hc : continuesName c = false) :
    Uniform (fun g ↦ decide (g.char ≠ c)) true where
  char := fun _ _ h ↦ by rw [h]
  words := fun _ h ↦ decide_eq_true (ne_of_continuesName h hc)

theorem Uniform.or {p q : Glyph → Bool} {x y : Bool} (hp : Uniform p x)
    (hq : Uniform q y) : Uniform (fun g ↦ p g || q g) (x || y) where
  char := fun _ _ h ↦ by rw [hp.char _ _ h, hq.char _ _ h]
  words := fun _ h ↦ by rw [hp.words _ h, hq.words _ h]

theorem uniform_isBlank : Uniform isBlank false :=
  (uniform_eq (by decide)).or (uniform_eq (by decide))

theorem uniform_isPathChar : Uniform isPathChar true where
  char := fun _ _ h ↦ by rw [isPathChar, isPathChar, h]
  words := fun g h ↦ by
    rw [continuesName] at h
    rw [isPathChar, h, Bool.true_or, Bool.true_or]

theorem uniform_isTagChar : Uniform isTagChar true where
  char := fun _ _ h ↦ by rw [isTagChar, isTagChar, h]
  words := fun g h ↦ by
    rw [continuesName] at h
    rw [isTagChar, h, Bool.true_or]

theorem Respells.skipBlanks {l' : List Glyph} (h : Respells r l l') :
    Respells r (skipBlanks l) (skipBlanks l') :=
  h.dropWhile uniform_isBlank

theorem Masks.beginsLike {m : List Glyph} (h : Masks m l) : BeginsLike m l := by
  cases h with
  | nil => exact nofun
  | cons hg _ =>
    rintro n hn
    obtain rfl := Option.some.inj hn
    rcases hg with rfl | rfl
    · exact .inr rfl
    · exact .inl rfl

/-- Whatever runs were blanked, gaps are left. -/
theorem Block.blank (hg : r.gaps) {run run' : List Glyph} (hr : run ≠ []) (hr' : run' ≠ [])
    (l : List Glyph) : Block r l (run.map blank) (run'.map blank) :=
  .gap hg _ _ (by simpa using hr) (by simpa using hr') (forall_mem_map.mpr fun _ _ ↦ rfl)
    (forall_mem_map.mpr fun _ _ ↦ rfl)

/-! ### Strings -/

theorem maskStrings_append (i : Bool) (hru : ∀ g ∈ run, g.char ≠ '"')
    (l : List Glyph) :
    maskStrings i (run ++ l) = (if i then run.map blank else run) ++ maskStrings i l := by
  induction run with
  | nil => simp
  | cons g tl ih =>
    obtain ⟨hg, hr⟩ := forall_mem_cons.mp hru
    rw [cons_append, maskStrings, if_neg hg, ih hr]
    cases i <;> rfl

theorem Respells.maskStrings {l' : List Glyph} (h : Respells r l l') (hg : r.gaps)
    (i : Bool) : Respells r (Script.maskStrings i l) (Script.maskStrings i l') := by
  induction h generalizing i with
  | nil => exact .nil
  | @block run run' l l' hb hl ih =>
    obtain ⟨g, g', rfl, rfl, hq, hq'⟩ | ⟨hr, hr'⟩ := hb.ne_sign (c := '"') (by decide) (by decide)
    · rw [singleton_append, singleton_append, Script.maskStrings, Script.maskStrings,
        if_pos hq, if_pos hq']
      exact .block (.blank hg hb.ne_nil.1 hb.ne_nil.2 _) (ih (!i))
    · rw [maskStrings_append i hr, maskStrings_append i hr']
      cases i with
      | false => exact .block (hb.beginsLike (masks_maskStrings false l).beginsLike) (ih false)
      | true => exact .block (.blank hg hb.ne_nil.1 hb.ne_nil.2 _) (ih true)

/-! ### Diverts -/

theorem maskDiverts_cons (h : ∀ y, l.head? = some y → isArrow x y = false) :
    maskDiverts (x :: l) = ⟨(maskDiverts l).found, x :: (maskDiverts l).line⟩ := by
  cases l with
  | nil => rw [maskDiverts, maskDiverts]
  | cons y tl => rw [maskDiverts, if_neg (by simp [h y rfl])]

theorem maskDiverts_append (hru : ∀ g ∈ run, g.char ≠ '-' ∧ g.char ≠ '<') (l : List Glyph) :
    maskDiverts (run ++ l) = ⟨(maskDiverts l).found, run ++ (maskDiverts l).line⟩ := by
  induction run with
  | nil => rfl
  | cons g tl ih =>
    obtain ⟨⟨hd, hl⟩, hr⟩ := forall_mem_cons.mp hru
    rw [cons_append, maskDiverts_cons fun y _ ↦ by simp [isArrow, hd, hl], ih hr, cons_append]

theorem drop_secondArrowLength (l : List Glyph) :
    l.drop (secondArrowLength l) = (dropText? ['-', '>'] l).getD l := by
  match l with
  | [] => rfl
  | [x] =>
    by_cases hf : x.char = '-' <;> simp [secondArrowLength, dropText?, hf]
  | x :: y :: tl =>
    by_cases hf : x.char = '-' <;> by_cases hs : y.char = '>' <;>
      simp [secondArrowLength, dropText?, hf, hs]

/-- Behind an arrow comes a second one or none, then blanks, then a path. -/
theorem maskDiverts_arrow {y : Glyph} (h : isArrow x y = true) (tl : List Glyph) :
    maskDiverts (x :: y :: tl) =
      let b := (dropText? ['-', '>'] tl).getD tl
      let path := (skipBlanks b).takeWhile isPathChar
      let tail := maskDiverts ((skipBlanks b).dropWhile isPathChar)
      ⟨targetReferences path ++ tail.found, (x :: y :: tl.take (secondArrowLength tl)).map blank ++
          (b.takeWhile isBlank ++ (path.map blank ++ tail.line))⟩ := by
  have hl : (tl.take (secondArrowLength tl)).length = secondArrowLength tl := by
    rw [length_take, Nat.min_eq_left]
    match tl with
    | [] => exact Nat.le_refl _
    | [_] => exact Nat.zero_le _
    | _ :: _ :: lt =>
      rw [secondArrowLength]
      split_ifs <;> simp
  have hb : tl.drop (secondArrowLength tl +
      ((tl.drop (secondArrowLength tl)).takeWhile isBlank).length) =
        skipBlanks (tl.drop (secondArrowLength tl)) := by
    rw [← drop_drop, drop_length_takeWhile]
    rfl
  rw [maskDiverts, if_pos h]
  dsimp only
  rw [hl, hb, ← drop_drop, hb, drop_length_takeWhile, drop_secondArrowLength]
  simp only [append_assoc]

/-- The path of a divert in a line, and its respelling. -/
structure PathsAlike (r : Respelling) (l path path' : List Glyph) : Prop where
  respells : Respells r path path'
  isInfix : path <:+: l
  chars : ∀ glyph ∈ path, isPathChar glyph = true

/-- The diverts of a line and of its respelling, with the paths behind their arrows, and the lines
without them. -/
structure DivertsAlike (r : Respelling) (l : List Glyph) (masked masked' : Masked) : Prop where
  paths : ∃ paths paths' : List (List Glyph), Forall₂ (PathsAlike r l) paths paths' ∧
    masked.found = paths.flatMap targetReferences ∧
    masked'.found = paths'.flatMap targetReferences
  line : Respells r masked.line masked'.line

theorem PathsAlike.mono {path path' : List Glyph} (h : PathsAlike r l path path')
    {outer : List Glyph} (ho : l <:+: outer) : PathsAlike r outer path path' :=
  ⟨h.respells, h.isInfix.trans ho, h.chars⟩

namespace Respells

variable {l' : List Glyph}

theorem getD {f f' : Option (List Glyph)} (h : Option.Rel (Respells r) f f')
    (hl : Respells r l l') : Respells r (f.getD l) (f'.getD l') := by
  cases h with
  | some h => exact h
  | none => exact hl

theorem append_blanks {blanks blanks' : List Glyph} (h : Respells r blanks blanks')
    (hbl : ∀ g ∈ blanks, g.isBlank = true) (hl : Respells r l l') :
    Respells r (blanks ++ l) (blanks' ++ l') := by
  induction h with
  | nil => exact hl
  | @block run run' tl tl' hblo _ ih =>
    obtain ⟨hr, hre⟩ := forall_mem_append.mp hbl
    have hw : ∀ {part : List Glyph}, part ≠ [] → (∀ g ∈ part, g.isBlank = true) →
        (∀ g ∈ part, continuesName g.char = true) → False := by
      intro part hp hb hc
      obtain ⟨x, later, rfl⟩ := exists_cons_of_ne_nil hp
      have hno := uniform_isBlank.words x (hc x mem_cons_self)
      rw [hb x mem_cons_self] at hno
      cases hno
    rw [append_assoc, append_assoc]
    refine .block ?_ (ih hre)
    cases hblo with
    | sign g g' hch hs =>
      refine .sign g g' hch hs fun hca ↦ ?_
      have hb := hr g mem_cons_self
      rw [isBlank, hca] at hb
      exact absurd hb (by decide)
    | word _ _ hn hc => exact absurd hc (hw hn hr)
    | name _ _ ho =>
      exact absurd (continuesName_of_map_eq ho r.old_free.chars)
        (hw (ne_nil_of_map_eq ho r.old_free.ne_nil) hr)
    | gap hg _ _ hn hn' hb hb' =>
      exact .gap hg _ _ hn hn' hb hb'

/-- Where a run was blanked, whatever it was. -/
theorem append_blank (hg : r.gaps) {run run' : List Glyph} (hr : run = [] ↔ run' = [])
    (hl : Respells r l l') :
    Respells r (run.map blank ++ l) (run'.map blank ++ l') := by
  by_cases he : run = []
  · rw [he, hr.mp he]
    exact hl
  · exact .block (.blank hg he (mt hr.mpr he) l) hl

theorem maskDiverts (h : Respells r l l') (hga : r.gaps) :
    DivertsAlike r l (maskDiverts l) (maskDiverts l') := by
  induction hle : l.length using Nat.strong_induction_on generalizing l l' with
  | _ length ih =>
    subst hle
    cases h with
    | nil =>
      rw [maskDiverts]
      exact ⟨⟨[], [], .nil, rfl, rfl⟩, .nil⟩
    | @block run run' l l' hb hli =>
      have hsh : l.length < (run ++ l).length := by
        have := length_pos_of_ne_nil hb.ne_nil.1
        rw [length_append]
        omega
      have hsk : ∀ {f : Masked} {f' : Masked},
          f = ⟨(maskDiverts l).found, run ++ (maskDiverts l).line⟩ →
          f' = ⟨(maskDiverts l').found, run' ++ (maskDiverts l').line⟩ →
          DivertsAlike r (run ++ l) f f' := by
        rintro _ _ rfl rfl
        obtain ⟨⟨paths, paths', hp, hfo⟩, hr⟩ := ih _ hsh hli rfl
        exact ⟨⟨paths, paths', hp.imp fun _ _ h ↦ h.mono (suffix_append run l).isInfix,
          hfo⟩, .block (hb.beginsLike (taken_maskDiverts l).masks.beginsLike) hr⟩
      -- An arrow is made of two signs, which stand in both lines.
      have hsi : ∀ {x x' : Glyph} {c d : Char}, run = [x] → run' = [x'] → x.char = c → x'.char = c →
          (∀ g y : Glyph, g.char = c → isArrow g y = (y.char == d)) →
          continuesName d = false → d ≠ ' ' →
          DivertsAlike r (run ++ l) (maskDiverts (run ++ l)) (maskDiverts (run' ++ l')) := by
        rintro x x' c d rfl rfl hf hf' ha hd hbl
        obtain ⟨off, tl, off', tl', rfl, rfl, hr⟩ | ⟨hh, hh'⟩ := hli.head_cases hd hbl
        · rw [singleton_append, singleton_append, maskDiverts_arrow (by simp [ha x _ hf]),
            maskDiverts_arrow (by simp [ha x' _ hf'])]
          dsimp only
          have hbe : Respells r ((Script.dropText? ['-', '>'] tl).getD tl)
              ((Script.dropText? ['-', '>'] tl').getD tl') :=
            getD (hr.dropText? _ (by decide)) hr
          have hpa := hbe.skipBlanks.takeWhile uniform_isPathChar
          have hsu : Script.skipBlanks ((Script.dropText? ['-', '>'] tl).getD tl) <:+
              tl := by
            refine (skipBlanks_suffix _).trans ?_
            rw [← drop_secondArrowLength]
            exact drop_suffix _ _
          have hla := (dropWhile_suffix isPathChar).trans hsu
          have hr : tl <:+: [x] ++ ⟨off, d⟩ :: tl :=
            ((suffix_cons _ tl).trans (suffix_append _ _)).isInfix
          have hsho := hla.length_le
          obtain ⟨⟨paths, paths', hp, hfo, hfo'⟩, ht⟩ :=
            ih _ (by simp only [length_append, length_cons]; omega)
              (hbe.skipBlanks.dropWhile uniform_isPathChar) rfl
          refine ⟨⟨_ :: paths, _ :: paths', .cons ⟨hpa,
            (List.takeWhile_prefix _).isInfix.trans (hsu.isInfix.trans hr),
              fun g hg ↦ mem_takeWhile_imp hg⟩
                (hp.imp fun _ _ h ↦ h.mono (hla.isInfix.trans hr)), ?_, ?_⟩, ?_⟩
          · rw [flatMap_cons, hfo]
          · rw [flatMap_cons, hfo']
          · refine append_blank hga (by simp) (append_blanks (hbe.takeWhile uniform_isBlank)
              (fun g hg ↦ mem_takeWhile_imp hg)
              (append_blank hga hpa.eq_nil_iff ht))
        · refine hsk (maskDiverts_cons fun y hs ↦ ?_) (maskDiverts_cons fun y hs ↦ ?_)
          · rw [ha x y hf]
            exact beq_eq_false_iff_ne.mpr (hh y hs)
          · rw [ha x' y hf']
            exact beq_eq_false_iff_ne.mpr (hh' y hs)
      obtain ⟨g, g', hru, hru', hc, hc'⟩ | ⟨hda, hda'⟩ :=
        hb.ne_sign (c := '-') (by decide) (by decide)
      · exact hsi hru hru' hc hc' (d := '>')
          (fun g y hg ↦ by simp [isArrow, hg]) (by decide) (by decide)
      obtain ⟨g, g', hru, hru', hc, hc'⟩ | ⟨hl, hl'⟩ :=
        hb.ne_sign (c := '<') (by decide) (by decide)
      · exact hsi hru hru' hc hc' (d := '-')
          (fun g y hg ↦ by simp [isArrow, hg]) (by decide) (by decide)
      · exact hsk (maskDiverts_append (fun g hg ↦ ⟨hda g hg, hl g hg⟩) l)
          (maskDiverts_append (fun g hg ↦ ⟨hda' g hg, hl' g hg⟩) l')

end Respells

/-! ### Tags -/

theorem maskTags_cons (h : x.char = '#' → assetTag? l = none) :
    maskTags (x :: l) = ⟨(maskTags l).found, x :: (maskTags l).line⟩ := by
  have hn : (if x.char = '#' then assetTag? l else none) = none := by
    split_ifs with hf
    · exact h hf
    · rfl
  rw [maskTags, hn]

theorem maskTags_append (hru : ∀ g ∈ run, g.char ≠ '#') (l : List Glyph) :
    maskTags (run ++ l) = ⟨(maskTags l).found, run ++ (maskTags l).line⟩ := by
  induction run with
  | nil => rfl
  | cons g tl ih =>
    obtain ⟨hg, hr⟩ := forall_mem_cons.mp hru
    rw [cons_append, maskTags_cons fun hh ↦ absurd hh hg, ih hr, cons_append]

theorem line_maskTags_of_some {name : List Glyph} {k : AssetKind} {length : Nat}
    (hf : x.char = '#') (h : assetTag? l = some (k, name, length)) :
    (maskTags (x :: l)).line =
      (x :: l.take length).map blank ++ (maskTags (l.drop length)).line := by
  rw [maskTags, if_pos hf, h]

namespace Respells

variable {l' : List Glyph}

theorem tagBody? (h : Respells r l l') (k : AssetKind) :
    Option.Rel (Respells r) (Script.tagBody? l k) (Script.tagBody? l' k) := by
  have hw := h.skipBlanks.dropWord? k.name (by cases k <;> decide)
  unfold Script.tagBody?
  generalize Script.dropWord? k.name (Script.skipBlanks l) = f at hw
  generalize Script.dropWord? k.name (Script.skipBlanks l') = f' at hw
  cases hw with
  | none => exact .none
  | @some tl tl' hr =>
    have hc := hr.dropText? [':'] (by decide)
    rw [Option.bind_some, Option.bind_some]
    generalize Script.dropText? [':'] tl = b at hc
    generalize Script.dropText? [':'] tl' = b' at hc
    cases hc with
    | none => exact .none
    | some hb => exact .some hb.skipBlanks

/-- Behind a tag, lines go on alike. -/
theorem assetTag? (h : Respells r l l') :
    Option.Rel (fun tag tag' ↦ Respells r (l.drop tag.2.2) (l'.drop tag'.2.2))
      (Script.assetTag? l) (Script.assetTag? l') := by
  rw [assetTag?_eq, assetTag?_eq]
  induction AssetKind.all with
  | nil => exact .none
  | cons k tl ih =>
    have ht := h.tagBody? k
    rw [findSome?_cons, findSome?_cons]
    generalize hb : Script.tagBody? l k = b at ht
    generalize hb' : Script.tagBody? l' k = b' at ht
    cases ht with
    | none => exact ih
    | some ht =>
      refine .some ?_
      rw [drop_tag (tagBody?_suffix hb), drop_tag (tagBody?_suffix hb')]
      exact ht.dropWhile uniform_isTagChar

theorem line_maskTags (h : Respells r l l') (hg : r.gaps) :
    Respells r (maskTags l).line (maskTags l').line := by
  induction hle : l.length using Nat.strong_induction_on generalizing l l' with
  | _ length ih =>
    subst hle
    cases h with
    | nil =>
      rw [maskTags]
      exact .nil
    | @block run run' l l' hb hl =>
      have hs : l.length < (run ++ l).length := by
        have := length_pos_of_ne_nil hb.ne_nil.1
        rw [length_append]
        omega
      have hr := Respells.block (hb.beginsLike (taken_maskTags l).masks.beginsLike) (ih _ hs hl rfl)
      obtain ⟨g, g', rfl, rfl, hc, hc'⟩ | ⟨hru, hru'⟩ :=
        hb.ne_sign (c := '#') (by decide) (by decide)
      · rw [singleton_append, singleton_append] at hr ⊢
        have ht := hl.assetTag?
        generalize hf : Script.assetTag? l = f at ht
        generalize hf' : Script.assetTag? l' = f' at ht
        cases ht with
        | none =>
          rw [maskTags_cons fun _ ↦ hf, maskTags_cons fun _ ↦ hf']
          exact hr
        | @some tag tag' ht =>
          rw [line_maskTags_of_some hc hf, line_maskTags_of_some hc' hf']
          refine append_blank hg (by simp) (ih _ ?_ ht rfl)
          exact Nat.lt_of_le_of_lt (drop_suffix _ _).length_le hs
      · rw [maskTags_append hru, maskTags_append hru']
        exact hr

end Respells

end StoryScript.Script
