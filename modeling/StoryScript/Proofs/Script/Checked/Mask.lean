import StoryScript.Proofs.Script.Checked.Expression

/-!
Strings, diverts and tags overwritten byte by byte leave the bytes of the line in which their glyphs are
blanked. A step of the scanner changes no byte before its own index (`Rewrites`).
-/

namespace StoryScript.Script.Checked

open Glyph List Option

variable {b : Nat} {cd : List Char} {bs bs' : List UInt8} {i j : Nat}
  {l l' run : List Glyph} {g : Glyph} {fuel : Nat} {c : Char} {name : List Glyph}

/-! ### Strings -/

theorem maskStrings_append (ins : Bool) {cell : List UInt8} (h : ∀ byte ∈ cell, asChar byte ≠ '"')
    (r : List UInt8) :
    maskStrings ins (cell ++ r) =
      (if ins then List.replicate cell.length 32 else cell) ++ maskStrings ins r := by
  induction cell with
  | nil => cases ins <;> rfl
  | cons byte cell ih =>
    obtain ⟨hb, hc⟩ := forall_mem_cons.mp h
    rw [cons_append, maskStrings, if_neg hb, ih hc]
    cases ins <;> rfl

theorem Coded.maskStrings {off : Nat} {t : List Char} (h : Coded off t l bs) (ins : Bool) :
    Coded off t (Script.maskStrings ins l) (maskStrings ins bs) := by
  induction h generalizing ins with
  | nil off => exact .nil off
  | @keep off c t l bs hr ih =>
    rw [Script.maskStrings]
    by_cases hq : c = '"'
    · subst hq
      exact .blank '"' (ih (!ins))
    · rw [if_neg hq, maskStrings_append ins fun byte hb ↦
        mt (asChar_eq_iff (by decide) (isOf_of_mem_utf8EncodeChar hb)).mp hq,
        String.length_utf8EncodeChar]
      cases ins
      · exact .keep c (ih false)
      · exact .blank c (ih true)
  | @blank off c t l bs hr ih =>
    rw [Script.maskStrings, if_neg (show ¬ ' ' = '"' by decide), maskStrings_append ins fun byte hb ↦ ?_,
      length_replicate, ite_self]
    · cases ins
      · exact .blank c (ih false)
      · exact .blank c (ih true)
    · rw [eq_of_mem_replicate hb]
      decide

/-! ### Overwriting -/

/-- Bytes that were changed from an index on, where a line stands now. -/
structure Rewrites (b : Nat) (cd : List Char) (bs : List UInt8) (i : Nat) (bs' : List UInt8)
    (l' : List Glyph) : Prop where
  cursor : Cursor b cd bs' i l'
  keeps : bs'.take i = bs.take i

theorem Rewrites.refl (h : Cursor b cd bs i l) : Rewrites b cd bs i bs l :=
  ⟨h, rfl⟩

theorem Rewrites.trans {bs'' : List UInt8} {l'' : List Glyph}
    (h : Rewrites b cd bs i bs' l') (h' : Rewrites b cd bs' i bs'' l'') :
    Rewrites b cd bs i bs'' l'' :=
  ⟨h'.cursor, h'.keeps.trans h.keeps⟩

/-- Texts are cut in the same place if their first parts have as many bytes. -/
theorem eq_of_byteLength_eq {x x' y y' : List Char} (h : x ++ y = x' ++ y')
    (hl : Text.byteLength x = Text.byteLength x') : x = x' ∧ y = y' := by
  have hd := Text.dropBytes?_append x y
  rw [h, hl, Text.dropBytes?_append] at hd
  obtain rfl := Option.some.inj hd
  exact ⟨append_cancel_right h, rfl⟩

/-- A change behind a run is a change behind the index where the run starts. -/
theorem Rewrites.back (h : Cursor b cd bs i (run ++ l)) (hj : Cursor b cd bs j l)
    (h' : Rewrites b cd bs j bs' l') :
    Rewrites b cd bs i bs' (run ++ l') := by
  have hle := h.le hj
  refine ⟨?_, ?_⟩
  · obtain ⟨pre, x, y, p, cs, r, hc, rfl, hb, hp, hl, hf, -⟩ := h.split hj
    obtain ⟨pre', t', p', r', hc', rfl, hb', hp', hco⟩ := h'.cursor
    have hcu : pre ++ x = pre' ∧ y = t' := by
      refine eq_of_byteLength_eq (by rw [append_assoc, ← hc, hc']) ?_
      rw [Text.byteLength_append, hb, hb', ← hl, hf.length_eq]
    have hby : p' = p ++ cs := by
      have ht := h'.keeps
      rwa [← hp', take_left, hp', ← hl, ← hp, ← length_append, ← append_assoc, take_left] at ht
    refine ⟨pre, x ++ t', p, cs ++ r', hcu.2 ▸ hc, ?_, hb, hp, ?_⟩
    · rw [hby, append_assoc]
    · refine hf.append ?_
      rwa [Nat.add_assoc, ← hf.length_eq, hl]
  · rw [← Nat.min_eq_left hle, ← take_take, h'.keeps, take_take]

theorem Cursor.blank? (h : Cursor b cd bs i (run ++ l)) (hj : Cursor b cd bs j l) :
    ∃ bs', blank? bs i j = some bs' ∧ Cursor b cd bs' j l ∧
      Rewrites b cd bs i bs' (run.map blank ++ l) := by
  obtain ⟨pre, x, y, p, cs, r, hc, rfl, hb, hp, hl, hf, hs⟩ := h.split hj
  refine ⟨p ++ (List.replicate cs.length 32 ++ r), ?_, ?_, ?_, ?_⟩
  · rw [← hl, ← hp, blank?_append]
  · refine ⟨pre ++ x, y, p ++ List.replicate cs.length 32, r, ?_, ?_, ?_, ?_, hs⟩
    · rw [hc, append_assoc]
    · rw [append_assoc]
    · rw [Text.byteLength_append, hb, ← hf.length_eq, hl]
    · rw [length_append, length_replicate, hp, hl]
  · refine ⟨pre, x ++ y, p, _, hc, rfl, hb, hp, ?_⟩
    refine hf.map_blank.append ?_
    rwa [Nat.add_assoc, ← hf.length_eq, hl]
  · rw [← hp, take_left, take_left]

/-! ### Diverts -/

theorem isAscii_of_isPathChar (h : isPathChar ⟨0, c⟩ = true) : IsAscii c := by
  simp only [isPathChar, Bool.or_eq_true, beq_iff_eq] at h
  rcases h with ((h | rfl) | rfl) | rfl
  · exact isAscii_of_isAlphanum h
  all_goals decide

theorem map_filter_eq_flatMap {α β : Type} (p : α → Bool) (f : α → β) (xs : List α) :
    (xs.filter p).map f = xs.flatMap fun x ↦ if p x then [f x] else [] := by
  induction xs with
  | nil => rfl
  | cons x r ih =>
    rw [flatMap_cons, filter_cons, ← ih]
    cases p x <;> rfl

theorem Covers.segmentDivert? {start x last : Nat} {o : List Glyph}
    (h : Covers b cd x last run) (hpa : Covers b cd start last (o ++ run)) :
    segmentDivert? cd b start x last (spell run) = some (if run ≠ [] ∧ spell run ≠ Path.parent then
        [mark run (Reference.ofUse .divert (spell (o ++ run)))] else []) := by
  rw [Checked.segmentDivert?]
  by_cases hs : spell run = "" ∨ spell run = Path.parent
  · rw [if_pos hs, if_neg]
    rw [not_and_or, not_not, not_not, ← spell_eq_empty]
    exact hs
  · obtain ⟨hr, hp⟩ := not_or.mp hs
    rw [spell_eq_empty] at hr
    rw [if_neg hs, if_pos ⟨hr, hp⟩, hpa.word, map_some, h.marked hr]

theorem Cursor.divertTarget? {path tail : List Glyph} (h : Cursor b cd bs i (path ++ tail))
    (hb : ∀ g ∈ path, g.char ≠ ' ') (hc : Covers b cd i j path) :
    divertTarget? cd b i j = some (targetReferences path) := by
  have hsp : Text.split '.' (spell path) = (path.splitOnP isDot).map spell := segments_spell path
  rw [Checked.divertTarget?, hc.word, bind_eq_bind, bind_some, targetReferences]
  split_ifs with hr
  · rfl
  · rw [hsp, dottedTrail, map_filter_eq_flatMap]
    have hst : Cursor b cd bs i ([] ++ (path ++ tail)) := h
    refine hst.segments? hb ?_ h
    intro o s x last _ _ _ hs hp
    rw [hs.segmentDivert? hp]
    simp only [decide_eq_true_eq]

/-- What stands behind a second arrow, which may be missing. -/
def behindArrow (l : List Glyph) : List Glyph :=
  (dropText? ['-', '>'] l).getD l

/-- Overwrites a second arrow. -/
theorem Cursor.secondArrow? (h : Cursor b cd bs i l) :
    ∃ bs' j, secondArrow? bs i = some (bs', j) ∧ Cursor b cd bs' j (behindArrow l) ∧
      Rewrites b cd bs i bs' ((l.take (secondArrowLength l)).map blank ++ behindArrow l) := by
  have hs : ∀ c ∈ ['-', '>'], IsSign c := by decide
  have hd : l.drop (secondArrowLength l) = behindArrow l := drop_secondArrowLength l
  have hw := take_append_drop (secondArrowLength l) l
  rw [hd] at hw
  rw [Checked.secondArrow?, h.startsAt? hs, bind_eq_bind, bind_some]
  cases hr : Script.dropText? ['-', '>'] l with
  | none =>
    have hb : behindArrow l = l := by rw [behindArrow, hr, getD_none]
    rw [hb] at hw ⊢
    rw [append_cancel_right (hw.trans (nil_append l).symm)]
    exact ⟨bs, i, rfl, h, .refl h⟩
  | some r =>
    have hb : behindArrow l = r := by rw [behindArrow, hr, getD_some]
    have hn := h.dropText? hs hr
    rw [hb] at hw ⊢
    rw [← hw] at h
    obtain ⟨bs', hby, hc, hre⟩ := h.blank? hn
    refine ⟨bs', i + 2, ?_, hc, hre⟩
    rw [isSome_some, if_pos rfl]
    exact congrArg (Option.bind · _) hby

/-- Overwrites the path of a divert. -/
theorem Cursor.target? {path tail : List Glyph} (h : Cursor b cd bs i (path ++ tail))
    (hb : ∀ g ∈ path, g.char ≠ ' ') (hj : Cursor b cd bs j tail) :
    ∃ bs', target? cd b bs i j = some (targetReferences path, bs') ∧ Cursor b cd bs' j tail ∧
      Rewrites b cd bs i bs' (path.map blank ++ tail) := by
  have hc := h.covers hj hb
  rw [Checked.target?]
  split_ifs with hp
  · obtain ⟨bs', hby, hcu, hr⟩ := h.blank? hj
    refine ⟨bs', ?_, hcu, hr⟩
    rw [h.divertTarget? hb hc, hby]
    rfl
  · rw [hc.lt_iff, not_not] at hp
    subst hp
    exact ⟨bs, rfl, hj, .refl h⟩

theorem signs_of_isArrow {x y : Glyph} (h : isArrow x y = true) :
    IsSign x.char ∧ IsSign y.char ∧
      ([x.char, y.char] = ['-', '>'] ∨ [x.char, y.char] = ['<', '-']) := by
  simp only [isArrow, Bool.or_eq_true, Bool.and_eq_true, beq_iff_eq] at h
  rcases h with ⟨hf, hs⟩ | ⟨hf, hs⟩
  · rw [hf, hs]
    decide
  · rw [hf, hs]
    decide

theorem uniform_isPathChar : Uniform fun c ↦ isPathChar ⟨0, c⟩ :=
  uniform_of_isAscii fun _ ↦ isAscii_of_isPathChar

/-- Takes out a divert: an arrow, a second one and a path. -/
theorem Cursor.diverts?_arrow {x y : Glyph} {tl : List Glyph}
    (h : Cursor b cd bs i (x :: y :: tl)) (harr : isArrow x y = true)
    (fuel : Nat) :
    ∃ bs' stop, i < stop ∧
      Cursor b cd bs' stop ((skipBlanks (behindArrow tl)).dropWhile isPathChar) ∧
      Rewrites b cd bs i bs' ((x :: y :: tl.take (secondArrowLength tl)).map blank ++
          ((behindArrow tl).takeWhile isBlank ++
            (((skipBlanks (behindArrow tl)).takeWhile isPathChar).map blank ++
              (skipBlanks (behindArrow tl)).dropWhile isPathChar))) ∧
      diverts? cd b (fuel + 1) bs i = (diverts? cd b fuel bs' stop).map
        fun r ↦ (targetReferences ((skipBlanks (behindArrow tl)).takeWhile isPathChar) ++
          r.1, r.2) := by
  obtain ⟨hfi, hse, hpa⟩ := signs_of_isArrow harr
  have hs : ∀ c ∈ [x.char, y.char], IsSign c :=
    forall_mem_cons.mpr ⟨hfi, forall_mem_singleton.mpr hse⟩
  have hd : Script.dropText? [x.char, y.char] (x :: y :: tl) = some tl := by
    rw [Script.dropText?, if_pos rfl, Script.dropText?, if_pos rfl, Script.dropText?]
  have hra : Checked.range? bs i (i + 2) = some (encode [x.char, y.char]) :=
    (h.range?_iff hs).mpr (by rw [hd, isSome_some])
  have hb : Cursor b cd bs (i + 2) tl := h.dropText? hs hd
  -- The arrows, the blanks behind them and the path, each overwritten in its turn.
  have hpi : Cursor b cd bs i ([x, y] ++ tl) := h
  obtain ⟨m, hm, hr, hf⟩ := hpi.blank? hb
  obtain ⟨m', bh, hm', hma, har⟩ := hr.secondArrow?
  have ho := hf.trans (har.back hf.cursor hr)
  obtain ⟨start, hst, hbo⟩ := hma.skipBlanks?
  obtain ⟨stop, hsto, ht⟩ := hbo.skipWhile?_length uniform_isPathChar
  have hp : Cursor b cd m' start ((skipBlanks (behindArrow tl)).takeWhile isPathChar ++
      (skipBlanks (behindArrow tl)).dropWhile isPathChar) := by
    rwa [takeWhile_append_dropWhile]
  have hbl : ∀ g ∈ (skipBlanks (behindArrow tl)).takeWhile isPathChar, g.char ≠ ' ' := by
    intro g hg hsp
    have hmat := all_eq_true.mp all_takeWhile g hg
    rw [isPathChar, hsp] at hmat
    exact absurd hmat (by decide)
  obtain ⟨m'', hm'', he, hta⟩ := hp.target? hbl ht
  have hli : [x, y].map blank ++ ((tl.take (secondArrowLength tl)).map blank ++ behindArrow tl) =
        (x :: y :: tl.take (secondArrowLength tl)).map blank ++
          (behindArrow tl).takeWhile isBlank ++
          ((skipBlanks (behindArrow tl)).takeWhile isPathChar ++
            (skipBlanks (behindArrow tl)).dropWhile isPathChar) := by
    rw [takeWhile_append_dropWhile, append_assoc, skipBlanks,
      takeWhile_append_dropWhile, map_cons, map_cons]
    rfl
  rw [hli] at ho
  have ha := ho.trans (hta.back ho.cursor hp)
  rw [append_assoc] at ha
  have hlt : i + 2 ≤ bh := har.cursor.le hma
  have hl : bh ≤ start := hma.le_of_isSuffix hbo (skipBlanks_suffix _)
  have hl' : start ≤ stop := hp.le ht
  have hbou := hb.le_length
  refine ⟨m'', stop, by omega, he, ha, ?_⟩
  have hmax : max stop bh = stop := Nat.max_eq_left (by omega)
  have hfo : encode [x.char, y.char] = encode ['-', '>'] ∨
      encode [x.char, y.char] = encode ['<', '-'] :=
    hpa.imp (congrArg encode) (congrArg encode)
  rw [Checked.diverts?, if_pos (by omega)]
  simp only [hra, bind_eq_bind, bind_some, if_pos hfo, hm, hm', hst, hsto, hm'', hmax, map_eq_bind]
  rfl

theorem head?_range? {cs : List UInt8} (h : range? bs i (j + 1) = some cs) (hi : i ≤ j) :
    cs.head? = bs[i]? := by
  rw [range?] at h
  split_ifs at h with hb
  obtain rfl := Option.some.inj h
  rw [head?_take, if_neg (by omega), head?_drop]

/-- Two signs within the bytes of a glyph are that glyph and the one behind it. -/
theorem Cursor.of_range?_pair {d : Char} (hc : IsSign c) (hd : IsSign d)
    (h : Cursor b cd bs i (g :: l)) (hj : Cursor b cd bs j l) {k : Nat}
    (hi : i ≤ k) (hk : k < j) {byte : UInt8} (hb : bs[k]? = some byte)
    (ho : IsOf byte g.char) (hr : Checked.range? bs k (k + 2) = some (encode [c, d])) :
    ∃ y, l.head? = some y ∧ g.char = c ∧ y.char = d := by
  have hf := head?_range? hr (Nat.le_succ k)
  rw [hb, encode_cons_of_isAscii hc.1, head?_cons, Option.some.injEq] at hf
  rw [← hf] at ho
  have hch := eq_of_isOf hc.1 ho
  obtain rfl := hj.unique (h.next (hch ▸ hc.1) (hch ▸ hc.2))
  obtain rfl : k = i := by omega
  have hs : ∀ e ∈ [c, d], IsSign e := forall_mem_cons.mpr ⟨hc, forall_mem_singleton.mpr hd⟩
  have hdr := (h.range?_iff hs).mp hr
  cases l with
  | nil => simp [Script.dropText?, hch] at hdr
  | cons y r =>
    refine ⟨y, rfl, hch, ?_⟩
    simpa [Script.dropText?, hch] using hdr

/-- A glyph that starts no divert. -/
theorem Cursor.diverts?_cons (h : Cursor b cd bs i (g :: l))
    (hpl : ∀ y, l.head? = some y → isArrow g y = false)
    (hj : Cursor b cd bs j l) (hf : j - i < fuel) :
    diverts? cd b fuel bs i = diverts? cd b (fuel - (j - i)) bs j := by
  refine h.loop (fun fuel k ↦ diverts? cd b fuel bs k) hj ?_ hf
  intro fuel k byte hpo hi hk hb ho
  obtain ⟨fuel, rfl⟩ := exists_succ_of_lt hpo
  by_cases hl : k + 1 < bs.length
  · have hr : Checked.range? bs k (k + 2) = some ((bs.drop k).take 2) := by
      rw [Checked.range?, if_pos (by omega), Nat.add_sub_cancel_left]
    have hp : ∀ {c d : Char}, IsSign c → IsSign d → isArrow ⟨0, c⟩ ⟨0, d⟩ = true →
        (bs.drop k).take 2 ≠ encode [c, d] := by
      intro c d hc hd ha heq
      rw [heq] at hr
      obtain ⟨y, hs, rfl, rfl⟩ := h.of_range?_pair hc hd hj hi hk hb ho hr
      exact Bool.false_ne_true ((hpl y hs).symm.trans ha)
    rw [diverts?, if_pos hl, hr, bind_eq_bind, bind_some,
      if_neg (not_or.mpr ⟨hp (by decide) (by decide) rfl, hp (by decide) (by decide) rfl⟩)]
  · rw [diverts?, if_neg hl, diverts?, if_neg (by omega)]

/-- Induction along the diverts of a line. -/
@[elab_as_elim]
theorem diverts_induction {motive : List Glyph → Prop} (nil : motive [])
    (cons : ∀ g l, (∀ y, l.head? = some y → isArrow g y = false) → motive l → motive (g :: l))
    (arrow : ∀ x y r, isArrow x y = true →
      motive ((skipBlanks (behindArrow r)).dropWhile isPathChar) → motive (x :: y :: r))
    (l : List Glyph) : motive l := by
  induction hc : l.length using Nat.strong_induction_on generalizing l with
  | _ n ih =>
    match l with
    | [] => exact nil
    | [g] => exact cons g [] nofun nil
    | x :: y :: r =>
      cases ha : isArrow x y
      · refine cons x (y :: r) (fun o ho ↦ ?_) (ih _ ?_ _ rfl)
        · rwa [← Option.some.inj ho]
        · rw [← hc, length_cons]
          exact Nat.lt_succ_self _
      · have hs : (skipBlanks (behindArrow r)).dropWhile isPathChar <:+ r := by
          refine (dropWhile_suffix _).trans ((skipBlanks_suffix _).trans ?_)
          rw [behindArrow, ← drop_secondArrowLength]
          exact drop_suffix _ _
        refine arrow x y r ha (ih _ ?_ _ rfl)
        rw [← hc, length_cons, length_cons]
        exact Nat.lt_succ_of_lt (Nat.lt_succ_of_le hs.length_le)

/-- Taking the diverts out of a line. -/
theorem Cursor.diverts? (h : Cursor b cd bs i l) (hf : bs.length - i < fuel) :
    ∃ bs', diverts? cd b fuel bs i = some ((maskDiverts l).found, bs') ∧
      Rewrites b cd bs i bs' (maskDiverts l).line := by
  induction l using diverts_induction generalizing bs i fuel with
  | nil =>
    obtain ⟨fuel, rfl⟩ := exists_succ_of_lt hf
    have he := h.eq_length
    rw [Checked.diverts?, if_neg (by omega), maskDiverts]
    exact ⟨bs, rfl, .refl h⟩
  | cons g l hp ih =>
    obtain ⟨size, hsi, hn, -⟩ := h.cons
    have hle := hn.le_length
    obtain ⟨bs', heq, hr⟩ := ih hn (show bs.length - _ < fuel - size by omega)
    refine ⟨bs', ?_, ?_⟩
    · rw [h.diverts?_cons hp hn (by omega), Nat.add_sub_cancel_left, heq, maskDiverts_cons hp]
    · rw [maskDiverts_cons hp]
      exact hr.back (singleton_append ▸ h) hn
  | arrow x y r ha ih =>
    obtain ⟨fuel, rfl⟩ := exists_succ_of_lt hf
    obtain ⟨m, stop, hlt, hs, ho, heq⟩ := h.diverts?_arrow ha fuel
    have hlen : m.length = bs.length := by rw [hs.length_eq, h.length_eq]
    have hle := h.lt_length
    obtain ⟨bs', hl, hr⟩ := ih hs (show m.length - stop < fuel by omega)
    refine ⟨bs', ?_, ?_⟩
    · rw [heq, hl, maskDiverts_arrow ha]
      rfl
    · rw [maskDiverts_arrow ha]
      simp only [← append_assoc] at ho ⊢
      exact ho.trans (hr.back ho.cursor hs)

/-! ### Tags -/

theorem isAscii_of_isTagChar (h : isTagChar ⟨0, c⟩ = true) : IsAscii c := by
  simp only [isTagChar, Bool.or_eq_true, beq_iff_eq] at h
  rcases h with (h | rfl) | rfl
  · exact isAscii_of_isAlphanum h
  all_goals decide

theorem uniform_isTagChar : Uniform fun c ↦ isTagChar ⟨0, c⟩ :=
  uniform_of_isAscii fun _ ↦ isAscii_of_isTagChar

theorem isSign_of_mem_name (k : AssetKind) : ∀ c ∈ k.name.toList, IsSign c := by
  cases k <;> decide

/-- The kind of a tag, and where its colon is passed. -/
theorem Cursor.tagAt (h : Cursor b cd bs i (skipBlanks l)) :
    tagAt bs i = (assetTag? l).map fun tag ↦ (tag.1, i + tag.1.name.toList.length + 1) := by
  rw [assetTag?_eq, map_findSome?, Checked.tagAt]
  congr 1
  funext k
  rw [Function.comp_apply, tagBody?, h.wordEnd_eq (isSign_of_mem_name k)]
  cases hw : dropWord? k.name (skipBlanks l) with
  | none => rfl
  | some bh =>
    have hb := h.dropText? (isSign_of_mem_name k) (filter_eq_some_iff.mp hw).1
    rw [map_some, bind_some, bind_some, hb.isAt (by decide)]
    cases Script.dropText? [':'] bh <;> rfl

/-- What stands behind the colon of a tag. -/
theorem Cursor.behind_of_assetTag? {k : AssetKind} {length : Nat}
    (h : Cursor b cd bs i (skipBlanks l))
    (ht : assetTag? l = some (k, name, length)) :
    ∃ r, Cursor b cd bs (i + k.name.toList.length + 1) r ∧
      name = (skipBlanks r).takeWhile isTagChar ∧
      l.drop length = (skipBlanks r).dropWhile isTagChar := by
  obtain ⟨bd, hb, rfl, rfl⟩ := exists_of_assetTag? ht
  have hs := tagBody?_suffix hb
  obtain ⟨r, hr, rfl⟩ := map_eq_some_iff.mp hb
  obtain ⟨bh, hw, hc⟩ := bind_eq_some_iff.mp hr
  have hbe := h.dropText? (isSign_of_mem_name k) (filter_eq_some_iff.mp hw).1
  exact ⟨r, hbe.dropText? (forall_mem_singleton.mpr (by decide)) hc, rfl, drop_tag hs⟩

theorem Covers.tagReference? (h : Covers b cd i j name) (k : AssetKind) :
    tagReference? cd b k i j = some (if name = [] then []
      else [mark name (Reference.ofUse .read (k.name ++ "." ++ spell name))]) := by
  rw [Checked.tagReference?, h.word]
  by_cases hn : name = []
  · rw [if_neg (mt h.lt_iff.mp (not_not.mpr hn)), if_pos hn]
  · rw [if_pos (h.lt_iff.mpr hn), if_neg hn, map_some, h.marked hn]

/-- Takes out a tag. -/
theorem Cursor.tags?_tag (h : Cursor b cd bs i (g :: l)) (hs : g.char = '#')
    {k : AssetKind} {length : Nat} (ht : assetTag? l = some (k, name, length))
    (fuel : Nat) :
    ∃ bs' stop, i < stop ∧ Cursor b cd bs' stop (l.drop length) ∧
      Rewrites b cd bs i bs' ((g :: l.take length).map blank ++ l.drop length) ∧
      tags? cd b (fuel + 1) bs i = (tags? cd b fuel bs' stop).map fun r ↦ ((if name = [] then []
          else [mark name (Reference.ofUse .read (k.name ++ "." ++ spell name))]) ++ r.1,
          r.2) := by
  obtain ⟨byte, hby, ho⟩ := h.byte
  have hn := h.next (hs ▸ by decide) (hs ▸ by decide)
  obtain ⟨fr, hf, hb⟩ := hn.skipBlanks?
  obtain ⟨tl, hre, hna, hd⟩ := hb.behind_of_assetTag? ht
  obtain ⟨start, hst, hwo⟩ := hre.skipBlanks?
  obtain ⟨stop, hsto, hta, hc⟩ := hwo.takeWhile uniform_isTagChar (by decide)
  have hw : Cursor b cd bs i ((g :: l.take length) ++ l.drop length) := by
    rwa [cons_append, take_append_drop]
  have he : Cursor b cd bs stop (l.drop length) := hd ▸ hta
  have hl : i + 1 ≤ stop := hn.le_of_isSuffix he (drop_suffix _ _)
  obtain ⟨bs', hbyt, hcu, hrew⟩ := hw.blank? he
  refine ⟨bs', stop, hl, hcu, hrew, ?_⟩
  have hr : Checked.tagReference? cd b k start stop = _ := hc.tagReference? k
  have hm : max stop (i + 1) = stop := Nat.max_eq_left hl
  rw [hna, tags?, if_pos h.lt_length, hby]
  simp only [bind_eq_bind, bind_some, if_pos ((asChar_eq_iff (by decide) ho).mpr hs),
    hf, hb.tagAt, ht, map_some, hst, hsto, hbyt, hm, hr]
  rw [map_eq_bind]
  rfl

/-- A glyph that starts no tag. -/
theorem Cursor.tags?_cons (h : Cursor b cd bs i (g :: l))
    (hp : g.char = '#' → assetTag? l = none) (hj : Cursor b cd bs j l)
    (hfu : j - i < fuel) :
    tags? cd b fuel bs i = tags? cd b (fuel - (j - i)) bs j := by
  have hl := hj.le_length
  refine h.loop (fun fuel k ↦ tags? cd b fuel bs k) hj ?_ hfu
  intro fuel k byte _ hi hk hby ho
  rw [tags?, if_pos (by omega), hby, bind_eq_bind, bind_some]
  split_ifs with hs
  · rw [asChar_eq_iff (by decide) ho] at hs
    have hn := h.next (hs ▸ by decide) (hs ▸ by decide)
    obtain rfl := hj.unique hn
    obtain rfl : k = i := by omega
    obtain ⟨fr, hf, hb⟩ := hn.skipBlanks?
    rw [hf]
    simp only [bind_eq_bind, bind_some, hb.tagAt, hp hs, map_none]
  · rfl

/-- Taking the tags out of a line. -/
theorem Cursor.tags? (h : Cursor b cd bs i l) (hf : bs.length - i < fuel) :
    ∃ bs', tags? cd b fuel bs i = some ((maskTags l).found, bs') ∧
      Rewrites b cd bs i bs' (maskTags l).line := by
  fun_induction maskTags l generalizing bs i fuel with
  | case1 =>
    obtain ⟨fuel, rfl⟩ := exists_succ_of_lt hf
    rw [Checked.tags?, if_neg (Nat.not_lt.mpr (h.length_le_iff.mpr rfl))]
    exact ⟨bs, rfl, .refl h⟩
  | case2 g r k name length ht =>
    rename_i ih
    obtain ⟨fuel, rfl⟩ := exists_succ_of_lt hf
    rw [dite_eq_ite] at ht
    have hs : g.char = '#' := by_contra fun hne ↦ by simp [hne] at ht
    rw [if_pos hs] at ht
    obtain ⟨m, stop, hlt, hst, ho, heq⟩ := h.tags?_tag hs ht fuel
    have hlen : m.length = bs.length := by rw [hst.length_eq, h.length_eq]
    have hle := h.lt_length
    obtain ⟨bs', hl, hr⟩ := ih hst (show m.length - stop < fuel by omega)
    refine ⟨bs', ?_, ho.trans (hr.back ho.cursor hst)⟩
    rw [heq, hl]
    rfl
  | case3 g r hno =>
    rename_i ih
    have hp : g.char = '#' → assetTag? r = none := by
      intro hs
      rwa [dite_eq_ite, if_pos hs] at hno
    obtain ⟨size, hsi, hn, -⟩ := h.cons
    have hle := hn.le_length
    obtain ⟨bs', heq, hr⟩ := ih hn (show bs.length - _ < fuel - size by omega)
    refine ⟨bs', ?_, hr.back (singleton_append ▸ h) hn⟩
    rw [h.tags?_cons hp hn (by omega), Nat.add_sub_cancel_left, heq]

end StoryScript.Script.Checked
