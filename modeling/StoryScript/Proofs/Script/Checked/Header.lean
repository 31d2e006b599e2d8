import StoryScript.Proofs.Script.Checked.Line

/-!
Headers and lists read by index are those of the glyphs at their cursor. The items of a list are read
without looking for their ends first: no item continues behind the sign that closes it (`Closes`).
-/

namespace StoryScript.Script.Checked

open List Option

variable {b : Nat} {cd : List Char} {bs : List UInt8} {i j : Nat} {ln : List Glyph}
  {r x : List Glyph}

/-! ### Items -/

/-- What stands behind an item of a list: a sign that closes it, or nothing. -/
def Closes (r : List Glyph) : Prop :=
  ∀ glyph, r.head? = some glyph → glyph.char = ',' ∨ glyph.char = ')'

theorem dropWhile_append_of_head {p : Glyph → Bool}
    (h : ∀ glyph, r.head? = some glyph → p glyph = false) (x : List Glyph) :
    (x ++ r).dropWhile p = x.dropWhile p ++ r := by
  induction x with
  | nil =>
    cases r with
    | nil => rfl
    | cons glyph r => exact dropWhile_cons_of_neg (by rw [h glyph rfl]; exact Bool.false_ne_true)
  | cons glyph x ih =>
    rw [cons_append, dropWhile_cons, dropWhile_cons]
    split_ifs
    · exact ih
    · rfl

/-- Stepping over an item ends at what stands behind it. -/
theorem dropWhile_append_eq_right {p : Glyph → Bool} (hi : ∀ glyph ∈ x, p glyph = true)
    (hr : ∀ glyph, r.head? = some glyph → p glyph = false) :
    (x ++ r).dropWhile p = r := by
  rw [dropWhile_append_of_head hr, dropWhile_eq_nil_iff.mpr hi, nil_append]

theorem dropText?_append_of_head {t : List Char}
    (h : ∀ glyph, r.head? = some glyph → glyph.char ∉ t) (x : List Glyph) :
    dropText? t (x ++ r) = (dropText? t x).map (· ++ r) := by
  induction t generalizing x with
  | nil => rfl
  | cons c t ih =>
    have ht : ∀ glyph, r.head? = some glyph → glyph.char ∉ t :=
      fun glyph hg ↦ not_mem_of_not_mem_cons (h glyph hg)
    cases x with
    | nil =>
      cases r with
      | nil => rfl
      | cons glyph r =>
        rw [nil_append, dropText?, dropText?, if_neg (ne_of_not_mem_cons (h glyph rfl))]
        rfl
    | cons glyph x =>
      rw [cons_append, dropText?, dropText?]
      split_ifs
      · exact ih ht x
      · rfl

namespace Closes

variable (h : Closes r)

include h

theorem head {p : Char → Bool} (hco : p ',' = false) (hcl : p ')' = false) :
    ∀ glyph, r.head? = some glyph → p glyph.char = false := by
  intro glyph hg
  rcases h glyph hg with hc | hc
  · rw [hc, hco]
  · rw [hc, hcl]

theorem parts : Parts r := by
  intro glyph hg
  rcases h glyph hg with hc | hc
  · rw [hc]
    rfl
  · rw [hc]
    rfl

theorem skipBlanks_append (x : List Glyph) : skipBlanks (x ++ r) = skipBlanks x ++ r :=
  dropWhile_append_of_head (h.head (p := isBlankChar) rfl rfl) x

theorem takeName_append (x : List Glyph) : takeName (x ++ r) = takeName x := by
  cases x with
  | nil =>
    cases r with
    | nil => rfl
    | cons glyph r =>
      have hs := h.head (p := startsName) rfl rfl glyph rfl
      rw [nil_append, takeName, head?_cons, any_some, hs]
      rfl
  | cons glyph x =>
    rw [takeName, takeName, cons_append, head?_cons, head?_cons, ← cons_append,
      h.parts.takeNameRest_append]

theorem dropText?_append {t : List Char} (hco : ',' ∉ t) (hcl : ')' ∉ t)
    (x : List Glyph) : dropText? t (x ++ r) = (dropText? t x).map (· ++ r) := by
  refine dropText?_append_of_head (fun glyph hg ↦ ?_) x
  rcases h glyph hg with hc | hc
  · rwa [hc]
  · rwa [hc]

theorem dropWord?_append {w : String} (hco : ',' ∉ w.toList) (hc : ')' ∉ w.toList)
    (x : List Glyph) : dropWord? w (x ++ r) = (dropWord? w x).map (· ++ r) := by
  rw [dropWord?, dropWord?, h.dropText?_append hco hc, Option.filter_map]
  congr 2
  funext bh
  cases bh with
  | nil =>
    cases r with
    | nil => rfl
    | cons glyph r => exact congrArg (!·) (h.head (p := continuesName) rfl rfl glyph rfl)
  | cons glyph bh => rfl

end Closes

/-! ### Parameters -/

theorem Cursor.skipWord? {w : String} (hw : ∀ c ∈ w.toList, IsSign c) (h : Cursor b cd bs i ln) :
    ∃ j, skipWord? w bs i = some j ∧
      Cursor b cd bs j (((dropWord? w ln).map skipBlanks).getD ln) := by
  rw [Checked.skipWord?]
  cases hr : dropWord? w ln with
  | some r =>
    obtain ⟨bh, hb, hc⟩ := h.wordEnd_of_some hw hr
    rw [hb]
    exact hc.skipBlanks?
  | none =>
    rw [h.wordEnd_of_none hw hr]
    exact ⟨i, rfl, h⟩

theorem Cursor.skipArrow? (h : Cursor b cd bs i ln) :
    ∃ j, skipArrow? bs i = some j ∧
      Cursor b cd bs j (((Script.dropText? ['-', '>'] ln).map skipBlanks).getD ln) := by
  have hs : ∀ c ∈ ['-', '>'], IsSign c := by decide
  rw [Checked.skipArrow?, h.startsAt? hs, bind_eq_bind, bind_some]
  cases hr : Script.dropText? ['-', '>'] ln with
  | some r => exact (h.dropText? hs hr).skipBlanks?
  | none => exact ⟨i, rfl, h⟩

theorem Covers.parameterAt? {name : List Glyph} (h : Covers b cd i j name) (sc : Scope) :
    parameterAt? cd b sc i j =
      some (if name = [] then none else some (declareWithin sc .param name)).toList := by
  rw [Checked.parameterAt?]
  by_cases hn : name = []
  · rw [if_neg (mt h.lt_iff.mp (not_not.mpr hn)), if_pos hn]
    rfl
  · rw [if_pos (h.lt_iff.mpr hn), if_neg hn, h.declaration? hn]
    rfl

theorem getD_map_skipBlanks_append (h : Closes r) (x : List Glyph) (f : Option (List Glyph)) :
    ((f.map (· ++ r)).map skipBlanks).getD (x ++ r) = (f.map skipBlanks).getD x ++ r := by
  cases f with
  | none => rfl
  | some bh => exact h.skipBlanks_append bh

theorem uniform_inItem : Uniform fun c ↦ c != ',' && c != ')' :=
  (uniform_bne (by decide)).and (uniform_bne (by decide))

/-- One item of a parameter list, up to the sign that closes it. -/
theorem Cursor.parametersFrom?_item {x r : List Glyph} {sc : Scope} (h : Cursor b cd bs i (x ++ r))
    (hi : ∀ glyph ∈ x, glyph.char ≠ ',' ∧ glyph.char ≠ ')') (hr : Closes r)
    (hf : ∃ glyph l, x ++ r = glyph :: l ∧ glyph.char ≠ ')')
    (hj : Cursor b cd bs j r) (fuel : Nat) :
    parametersFrom? cd b sc bs (fuel + 1) i =
      (parametersFrom? cd b sc bs fuel (if Checked.isAt ',' bs j then j + 1 else j)).map
        ((parameter? sc x).toList ++ ·) := by
  obtain ⟨glyph, l, hl, hc⟩ := hf
  obtain ⟨byte, hby, ho⟩ := (hl ▸ h).byte
  obtain ⟨fr, hfr, hb⟩ := h.skipBlanks?
  rw [hr.skipBlanks_append] at hb
  obtain ⟨referred, hre, hw⟩ := hb.skipWord? (show ∀ c ∈ "ref".toList, IsSign c by decide)
  rw [hr.dropWord?_append (by decide) (by decide), getD_map_skipBlanks_append hr] at hw
  obtain ⟨start, hs, hta⟩ := hw.skipArrow?
  rw [hr.dropText?_append (by decide) (by decide), getD_map_skipBlanks_append hr] at hta
  change Cursor b cd bs start (parameterBody x ++ r) at hta
  obtain ⟨stop, hst, ht, hn⟩ := hta.name
  rw [hr.takeName_append] at ht hn
  rw [drop_append_of_le_length (takeName_isPrefix _).length_le] at ht
  obtain ⟨comma, hco, hcu⟩ := ht.skipWhile?_length uniform_inItem
  have hin : ∀ o ∈ (parameterBody x).drop (takeName (parameterBody x)).length,
      (o.char != ',' && o.char != ')') = true := by
    intro o hot
    obtain ⟨hco, hc⟩ := hi o (((drop_suffix _ _).trans (parameterBody_suffix x)).mem hot)
    rw [bne_iff_ne.mpr hco, bne_iff_ne.mpr hc]
    rfl
  rw [dropWhile_append_eq_right hin (hr.head (p := fun c ↦ c != ',' && c != ')') rfl rfl)]
    at hcu
  obtain rfl := hcu.unique hj
  have hch := mt (asChar_eq_iff (show IsAscii ')' by decide) ho).mp hc
  rw [parametersFrom?, if_pos (hl ▸ h).lt_length, hby, bind_eq_bind, bind_some, if_neg hch]
  simp only [hfr, bind_eq_bind, bind_some, hre, hs, hst, hn.parameterAt?, hco]
  rw [map_eq_bind, parameter?_eq]
  rfl

theorem filterMap_cons_toList {α β : Type} (f : α → Option β) (x : α) (r : List α) :
    (x :: r).filterMap f = (f x).toList ++ r.filterMap f := by
  rw [filterMap_cons]
  cases f x <;> rfl

/-- Nothing is read behind the end of a parameter list. -/
theorem Cursor.parametersFrom?_end {tail : List Glyph} {sc : Scope}
    (h : Cursor b cd bs i tail) (ht : ∀ glyph, tail.head? = some glyph → glyph.char = ')')
    (fuel : Nat) : parametersFrom? cd b sc bs (fuel + 1) i = some [] := by
  cases tail with
  | nil =>
    rw [parametersFrom?, if_neg (Nat.not_lt.mpr (h.length_le_iff.mpr rfl))]
    rfl
  | cons glyph r =>
    obtain ⟨byte, hb, ho⟩ := h.byte
    rw [parametersFrom?, if_pos h.lt_length, hb, bind_eq_bind, bind_some,
      if_pos ((asChar_eq_iff (by decide) ho).mpr (ht glyph rfl))]
    rfl

theorem Cursor.parametersFrom? {bd tail : List Glyph} {sc : Scope}
    (h : Cursor b cd bs i (bd ++ tail)) (hb : ∀ glyph ∈ bd, glyph.char ≠ ')')
    (ht : ∀ glyph, tail.head? = some glyph → glyph.char = ')') {fuel : Nat}
    (hfu : bs.length - i < fuel) :
    parametersFrom? cd b sc bs fuel i =
      some ((bd.splitOnP fun glyph ↦ glyph.char == ',').filterMap (parameter? sc)) := by
  obtain ⟨fuel, rfl⟩ := exists_succ_of_lt hfu
  induction bd using pieces_induction (fun glyph : Glyph ↦ glyph.char == ',') generalizing i fuel with
  | last run hru =>
    rw [splitOnP_eq_singleton hru, filterMap_cons_toList]
    by_cases he : run = []
    · subst he
      exact h.parametersFrom?_end ht fuel
    · obtain ⟨j, -, hj⟩ := h.append
      have hlt := (h.lt_iff hj).mpr he
      have hle := hj.le_length
      obtain ⟨fuel, rfl⟩ := Nat.exists_eq_add_one_of_ne_zero (show fuel ≠ 0 by omega)
      have hno : Script.dropText? [','] tail = none := by
        cases tail with
        | nil => rfl
        | cons glyph r => rw [Script.dropText?, if_neg (ht glyph rfl ▸ by decide)]
      have hf : ∃ glyph l, run ++ tail = glyph :: l ∧ glyph.char ≠ ')' := by
        obtain ⟨glyph, l, rfl⟩ := exists_cons_of_ne_nil he
        exact ⟨glyph, l ++ tail, rfl, hb glyph mem_cons_self⟩
      rw [h.parametersFrom?_item
        (fun glyph hg ↦ ⟨bne_iff_ne.mp (congrArg (!·) (hru glyph hg)), hb glyph hg⟩)
        (fun glyph hg ↦ .inr (ht glyph hg)) hf hj, hj.isAt_of_none (by decide) hno,
        if_neg Bool.false_ne_true, hj.parametersFrom?_end ht]
      rfl
  | step run comma r hru hco ih =>
    rw [splitOnP_append_cons_of_forall_mem hru comma hco, filterMap_cons_toList]
    obtain ⟨ho, hbe⟩ := forall_mem_append.mp hb
    obtain ⟨-, hl⟩ := forall_mem_cons.mp hbe
    have hc : comma.char = ',' := beq_iff_eq.mp hco
    rw [append_assoc] at h
    obtain ⟨j, hle, hj⟩ := h.append
    have hn : Cursor b cd bs (j + 1) (r ++ tail) :=
      hj.next (hc ▸ by decide) (hc ▸ by decide)
    have hbo := hn.le_length
    obtain ⟨fuel, rfl⟩ := Nat.exists_eq_add_one_of_ne_zero (show fuel ≠ 0 by omega)
    have hf : ∃ glyph l, run ++ (comma :: r ++ tail) = glyph :: l ∧ glyph.char ≠ ')' := by
      cases run with
      | nil => exact ⟨comma, r ++ tail, rfl, hc ▸ by decide⟩
      | cons glyph run => exact ⟨glyph, _, rfl, ho glyph mem_cons_self⟩
    have ha : Checked.isAt ',' bs j = true := by
      rw [hj.isAt (by decide), cons_append, Script.dropText?, if_pos hc]
      rfl
    rw [h.parametersFrom?_item
      (fun glyph hg ↦ ⟨bne_iff_ne.mp (congrArg (!·) (hru glyph hg)), ho glyph hg⟩)
      (fun glyph hg ↦ .inl (Option.some.inj hg ▸ hc)) hf hj, if_pos ha,
      ih hn hl fuel (by omega), map_some]

theorem Cursor.parameters? (h : Cursor b cd bs i ln) (sc : Scope) :
    parameters? cd b sc bs i = some (parameters sc ln) := by
  obtain ⟨fr, hf, hb⟩ := h.skipBlanks?
  rw [Checked.parameters?, hf, bind_eq_bind, bind_some, parameters_eq]
  cases ho : Script.dropText? ['('] (skipBlanks ln) with
  | none =>
    rw [hb.isAt_of_none (by decide) ho]
    rfl
  | some inner =>
    obtain ⟨ha, hin⟩ := hb.isAt_of_some (by decide) ho
    rw [if_pos ha]
    rw [← takeWhile_append_dropWhile (p := fun glyph ↦ decide (glyph.char ≠ ')')) (l := inner)]
      at hin
    refine hin.parametersFrom? (fun glyph hg ↦ ?_) (fun glyph hg ↦ ?_) (by omega)
    · exact of_decide_eq_true (all_eq_true.mp all_takeWhile glyph hg)
    · obtain ⟨r, hr⟩ := head?_eq_some_iff.mp hg
      exact char_of_dropWhile_ne hr

/-! ### Headers -/

theorem uniform_isHeaderSign : Uniform fun c ↦ c == '=' || isHeaderSpace c := by
  refine (uniform_beq (by decide)).or (uniform_of_isAscii fun c hc ↦ ?_)
  simp only [isHeaderSpace, Bool.or_eq_true, beq_iff_eq] at hc
  rcases hc with (((rfl | rfl) | rfl) | rfl) | rfl <;> decide

theorem Cursor.knotHeader? (h : Cursor b cd bs i ln) (sc : Scope) :
    knotHeader? cd b sc bs i = some (knotHeader sc ln) := by
  obtain ⟨l, hf, hb⟩ := h.skipWhile?_length uniform_isHeaderSign
  obtain ⟨start, hs, hr⟩ := hb.skipWord? (show ∀ c ∈ "function".toList, IsSign c by decide)
  obtain ⟨stop, hst, ht, hn⟩ := hr.name
  simp only [Checked.knotHeader?, knotHeader, bind_eq_bind, bind_some, hf, hs,
    hst, hn.eq_iff, hn.word, ht.parameters?]
  split_ifs with he
  · rfl
  · rw [hn.marked he]
    rfl

theorem Cursor.stitchHeader? (h : Cursor b cd bs i ln) (sc : Scope) :
    stitchHeader? cd b sc bs i = some (stitchHeader sc ln) := by
  obtain ⟨start, hs, hb⟩ := h.skipBlanks?
  obtain ⟨stop, hst, ht, hn⟩ := hb.name
  simp only [Checked.stitchHeader?, stitchHeader, bind_eq_bind, bind_some, hs, hst,
    hn.eq_iff, hn.word, ht.parameters?]
  split_ifs with he
  · rfl
  · rw [hn.declaration? he]
    rfl

/-! ### Lists -/

theorem uniform_beforeMember : Uniform fun c ↦ !startsName c && c != ',' :=
  uniform_startsName.not.and (uniform_bne (by decide))

/-- Where the search for a member of a list ends. -/
theorem dropWhile_beforeMember (hi : ∀ glyph ∈ x, glyph.char ≠ ',')
    (hr : ∀ glyph, r.head? = some glyph → glyph.char = ',') :
    (x ++ r).dropWhile (fun glyph ↦ !startsName glyph.char && glyph.char != ',') =
      x.dropWhile (fun glyph ↦ !startsName glyph.char) ++ r := by
  rw [dropWhile_append_of_head fun glyph hg ↦ by rw [hr glyph hg]; rfl]
  congr 1
  induction x with
  | nil => rfl
  | cons glyph x ih =>
    obtain ⟨hg, hl⟩ := forall_mem_cons.mp hi
    rw [dropWhile_cons, dropWhile_cons, bne_iff_ne.mpr hg, Bool.and_true, ih hl]

theorem takeName_ne_nil_of_dropWhile {glyph : Glyph}
    (h : (x.dropWhile fun glyph ↦ !startsName glyph.char) = glyph :: r) :
    takeName (glyph :: r) ≠ [] := by
  have hs := head?_dropWhile_not (fun glyph : Glyph ↦ !startsName glyph.char) x
  rw [h] at hs
  rw [takeName_of_startsName (by simpa using hs)]
  exact cons_ne_nil _ _

/-- A member of a list starts where a name does. -/
theorem listMember?_eq (list : String) (x : List Glyph) :
    listMember? list x = match x.dropWhile fun glyph ↦ !startsName glyph.char with
      | [] => none
      | glyph :: r => some (mark (takeName (glyph :: r))
          (Reference.ofDeclaration .define (list ++ "." ++ spell (takeName (glyph :: r))))) := by
  unfold listMember?
  dsimp only
  cases hb : x.dropWhile fun glyph ↦ !startsName glyph.char with
  | nil => rfl
  | cons glyph r => exact if_neg (takeName_ne_nil_of_dropWhile hb)

theorem ne_nil_of_listMember? {list : String} {m : Annotated Reference}
    (h : listMember? list x = some m) : x ≠ [] := by
  rintro rfl
  exact some_ne_none m (h.symm.trans rfl)

section Item

variable (list : String) (h : Cursor b cd bs i (x ++ r))
  (hi : ∀ glyph ∈ x, glyph.char ≠ ',')
  (hr : ∀ glyph, r.head? = some glyph → glyph.char = ',') (hj : Cursor b cd bs j r)
  (fuel : Nat)

include h hi hr hj

/-- An item without a name. -/
theorem Cursor.listMembers?_of_none (hn : listMember? list x = none) :
    listMembers? cd b list bs (fuel + 1) i = listMembers? cd b list bs (fuel + 1) j := by
  have hb : x.dropWhile (fun glyph ↦ !startsName glyph.char) = [] := by
    rw [listMember?_eq] at hn
    cases hb : x.dropWhile fun glyph ↦ !startsName glyph.char with
    | nil => rfl
    | cons glyph r =>
      rw [hb] at hn
      exact absurd hn (some_ne_none _)
  -- Both searches end at the sign behind the item.
  obtain ⟨start, hs, hc⟩ := h.skipWhile?_length uniform_beforeMember
  rw [dropWhile_beforeMember hi hr, hb] at hc
  obtain rfl := hc.unique hj
  obtain ⟨start', hs', hc'⟩ := hj.skipWhile?_length uniform_beforeMember
  rw [← nil_append r, dropWhile_beforeMember (forall_mem_nil _) hr] at hc'
  obtain rfl := hc'.unique hj
  have hle := h.le hj
  rw [listMembers?, listMembers?, hs, hs']
  simp only [bind_eq_bind, bind_some]
  by_cases hl : start' < bs.length
  · rw [if_pos (show i < bs.length by omega), if_pos hl, if_pos hl]
  · rw [if_neg hl, ite_self, ite_self]

/-- An item with a name. -/
theorem Cursor.listMembers?_of_some {m : Annotated Reference} (hs : listMember? list x = some m) :
    listMembers? cd b list bs (fuel + 1) i = (listMembers? cd b list bs fuel j).map (m :: ·) := by
  have hcl : Closes r := fun glyph hg ↦ .inl (hr glyph hg)
  obtain ⟨start, hst, hc⟩ := h.skipWhile?_length uniform_beforeMember
  rw [dropWhile_beforeMember hi hr] at hc
  rw [listMember?_eq] at hs
  cases hb : x.dropWhile fun glyph ↦ !startsName glyph.char with
  | nil =>
    rw [hb] at hs
    exact absurd hs.symm (some_ne_none m)
  | cons glyph l =>
    rw [hb] at hs hc
    obtain rfl := Option.some.inj hs
    obtain ⟨byte, hby, hof⟩ := Cursor.byte hc
    have hm : glyph :: l <:+ x := hb ▸ dropWhile_suffix _
    have hch := mt (asChar_eq_iff (show IsAscii ',' by decide) hof).mp
      (hi glyph (hm.mem mem_cons_self))
    obtain ⟨stop, hsto, ht, hn⟩ := hc.name
    rw [hcl.takeName_append] at ht hn
    rw [drop_append_of_le_length (takeName_isPrefix _).length_le] at ht
    obtain ⟨comma, hco, hbe⟩ := ht.skipWhile?_length (uniform_bne (d := ',') (by decide))
    have hin : ∀ o ∈ (glyph :: l).drop (takeName (glyph :: l)).length,
        (o.char != ',') = true := fun o ho ↦
      bne_iff_ne.mpr (hi o (((drop_suffix _ _).trans hm).mem ho))
    rw [dropWhile_append_eq_right hin fun o ho ↦ by rw [hr o ho]; rfl] at hbe
    obtain rfl := hbe.unique hj
    have hl := Cursor.lt_length hc
    have hle := h.le_of_isSuffix hc (suffix_append_self_iff.mpr hm)
    rw [listMembers?, if_pos (by omega), hst]
    simp only [bind_eq_bind, bind_some, if_pos hl, hby, if_neg hch, hsto, hn.word,
      hco, hn.marked (takeName_ne_nil_of_dropWhile hb), map_eq_bind]
    rfl

end Item

/-- The comma behind an item. -/
theorem Cursor.listMembers?_comma {comma : Glyph} (h : Cursor b cd bs i (comma :: ln))
    (hc : comma.char = ',') (list : String) (fuel : Nat) :
    listMembers? cd b list bs (fuel + 1) i = listMembers? cd b list bs fuel (i + 1) := by
  obtain ⟨byte, hb, ho⟩ := h.byte
  obtain ⟨start, hs, hcu⟩ := h.skipWhile?_length uniform_beforeMember
  rw [dropWhile_cons_of_neg (by rw [hc]; decide)] at hcu
  obtain rfl := hcu.unique h
  rw [listMembers?, if_pos h.lt_length, hs]
  simp only [bind_eq_bind, bind_some, if_pos h.lt_length, hb,
    if_pos ((asChar_eq_iff (by decide) ho).mpr hc)]

theorem Cursor.listMembers? {values : List Glyph} (list : String)
    (h : Cursor b cd bs i values) {fuel : Nat} (hf : bs.length - i < fuel) :
    listMembers? cd b list bs fuel i =
      some ((values.splitOnP fun glyph ↦ glyph.char == ',').filterMap (listMember? list)) := by
  obtain ⟨fuel, rfl⟩ := exists_succ_of_lt hf
  induction values using pieces_induction (fun glyph : Glyph ↦ glyph.char == ',') generalizing i fuel with
  | last run hru =>
    have hi : ∀ glyph ∈ run, glyph.char ≠ ',' :=
      fun glyph hg ↦ bne_iff_ne.mp (congrArg (!·) (hru glyph hg))
    have he : ∀ fuel, Checked.listMembers? cd b list bs (fuel + 1) bs.length = some [] := by
      intro fuel
      rw [Checked.listMembers?, if_neg (Nat.lt_irrefl _)]
      rfl
    rw [splitOnP_eq_singleton hru, filterMap_cons_toList]
    have hw := (append_nil run).symm ▸ h
    cases hm : listMember? list run with
    | none =>
      rw [hw.listMembers?_of_none list hi nofun h.stop fuel hm, he]
      rfl
    | some m =>
      have hl := (hw.lt_iff h.stop).mpr (ne_nil_of_listMember? hm)
      obtain ⟨fuel, rfl⟩ := Nat.exists_eq_add_one_of_ne_zero (show fuel ≠ 0 by omega)
      rw [hw.listMembers?_of_some list hi nofun h.stop _ hm, he]
      rfl
  | step run comma r hru hco ih =>
    have hi : ∀ glyph ∈ run, glyph.char ≠ ',' :=
      fun glyph hg ↦ bne_iff_ne.mp (congrArg (!·) (hru glyph hg))
    have hc : comma.char = ',' := beq_iff_eq.mp hco
    have hcl : ∀ glyph, (comma :: r).head? = some glyph → glyph.char = ',' :=
      fun glyph hg ↦ Option.some.inj hg ▸ hc
    obtain ⟨j, hle, hj⟩ := h.append
    have hn := hj.next (hc ▸ by decide) (hc ▸ by decide)
    have hb := hn.le_length
    obtain ⟨fuel, rfl⟩ := Nat.exists_eq_add_one_of_ne_zero (show fuel ≠ 0 by omega)
    rw [splitOnP_append_cons_of_forall_mem hru comma hco, filterMap_cons_toList]
    cases hm : listMember? list run with
    | none =>
      rw [h.listMembers?_of_none list hi hcl hj _ hm, hj.listMembers?_comma hc,
        ih hn fuel (by omega)]
      rfl
    | some m =>
      have hl := (h.lt_iff hj).mpr (ne_nil_of_listMember? hm)
      obtain ⟨fuel, rfl⟩ := Nat.exists_eq_add_one_of_ne_zero (show fuel ≠ 0 by omega)
      rw [h.listMembers?_of_some list hi hcl hj _ hm, hj.listMembers?_comma hc,
        ih hn fuel (by omega)]
      rfl

theorem Cursor.initialMembers? (list : String) (h : Cursor b cd bs i ln) :
    initialMembers? cd b list bs i =
      some ((((ln.dropWhile fun glyph ↦ glyph.char ≠ '=').drop 1).splitOnP fun glyph ↦
        glyph.char == ',').filterMap (listMember? list)) := by
  obtain ⟨sign, hs, hc⟩ := h.skipWhile?_length (uniform_ne (d := '=') (by decide))
  rw [Checked.initialMembers?, hs, bind_eq_bind, bind_some]
  cases hv : ln.dropWhile fun glyph ↦ glyph.char ≠ '=' with
  | nil =>
    rw [hv] at hc
    rw [if_neg (Nat.not_lt.mpr (hc.length_le_iff.mpr rfl))]
    rfl
  | cons equal values =>
    rw [hv] at hc
    have hch := char_of_dropWhile_ne hv
    rw [if_pos hc.lt_length]
    exact (hc.next (hch ▸ by decide) (hch ▸ by decide)).listMembers? list (by omega)

/-- The rest of a line is cut out at a character. -/
theorem Cursor.slice?_length (h : Cursor b cd bs i ln) :
    ∃ l t, cd = l ++ t ∧ Text.byteLength l = i ∧ Text.slice? cd i bs.length = some t := by
  have hl := h.length_eq
  obtain ⟨l, t, -, -, rfl, -, rfl, -, -⟩ := h
  refine ⟨l, t, rfl, rfl, ?_⟩
  have hs := Text.slice?_append l t []
  rwa [append_nil, ← Text.byteLength_append, ← hl] at hs

theorem Cursor.listLine? (h : Cursor b cd bs i ln) : listLine? cd b bs i = some (listLine ln) := by
  obtain ⟨start, hst, hb⟩ := h.skipBlanks?
  obtain ⟨stop, hsto, ht, hn⟩ := hb.name
  obtain ⟨-, values, -, -, hs⟩ := ht.slice?_length
  have hv : word? cd stop bs.length = some (String.ofList values) := by
    rw [word?, hs, map_some]
  simp only [Checked.listLine?, listLine, bind_eq_bind, bind_some, hst, hsto,
    hn.eq_iff, hn.word, hv, ht.initialMembers?]
  split_ifs with he
  · rfl
  · rw [hn.marked he]
    rfl

end StoryScript.Script.Checked
