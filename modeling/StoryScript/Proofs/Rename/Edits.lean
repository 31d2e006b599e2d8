import StoryScript.Proofs.Script.RespellScan
import StoryScript.Proofs.Search.Agreement
import StoryScript.Rename

/-!
The texts of the documents after a rename. The ranges of an edit are those of the text before it, so
its replacements are made from the last one to the first (`DocumentEdit.apply`). Where the name stands
free at each of them, the text before and the text after are made of the same parts
(`Script.Replaced`), and the glyphs of the one are respelled by those of the other.
-/

namespace StoryScript

open List Script Text

/-- The text of a document after an edit. -/
def DocumentEdit.apply (edit : DocumentEdit) (t : List Char) : List Char :=
  (edit.ranges.map fun range ↦ (range.start.offset t, range.stop.offset t)).foldr
    (fun cut edited ↦ Change.replace edited cut.1 cut.2 edit.text.toList) t

/-- The text that a document has after a rename. -/
def Rename.textOf (rename : Rename) (u : Uri) (t : String) : String :=
  match rename.edits.find? fun edit ↦ edit.uri = u with
  | some edit => String.ofList (edit.apply t.toList)
  | none => t

/-- Where the scripts are found after a rename. -/
def Rename.loader (rename : Rename) (ld : Loader) : Loader :=
  fun u ↦ (ld u).map fun s ↦ { s with text := rename.textOf u s.text }

namespace Script

variable {off : Nat} {t : List Char}

/-- A character before or behind which a name stands free. -/
def standsFree (c : Char) : Bool :=
  !continuesName c && c != '^'

/-- A text from an offset on, and the text with another name at some spans, at each of which the old
name stands free. -/
inductive Replaced (old new : List Char) : Nat → List Char → List Char → List Span → Prop
  | nil (off : Nat) (t : List Char) : Replaced old new off t t []
  | cons (off : Nat) (kept : List Char) {rest rest' : List Char} {spans : List Span}
      (hbefore : ∀ c, kept.getLast? = some c → standsFree c = true)
      (hbehind : ∀ c, rest.head? = some c → standsFree c = true)
      (hrest : Replaced old new (off + byteLength kept + byteLength old) rest rest' spans) :
      Replaced old new off (kept ++ (old ++ rest)) (kept ++ (new ++ rest'))
        (⟨off + byteLength kept, off + byteLength kept + byteLength old⟩ :: spans)

namespace Replaced

variable {old new edited : List Char} {spans : List Span}

theorem le_start (h : Replaced old new off t edited spans) : ∀ span ∈ spans, off ≤ span.start := by
  induction h with
  | nil => exact nofun
  | cons off k _ _ _ ih =>
    refine forall_mem_cons.mpr ⟨Nat.le_add_right _ _, fun span hs ↦ ?_⟩
    have hl := ih span hs
    omega

/-- Making the replacements from the last one to the first leads to the other text. -/
theorem foldr_replace (h : Replaced old new off t edited spans) {o : List Char}
    (hope : byteLength o = off) :
    (spans.map fun span ↦ (span.start, span.stop)).foldr
      (fun cut edited ↦ Change.replace edited cut.1 cut.2 new) (o ++ t) = o ++ edited := by
  induction h generalizing o with
  | nil => rfl
  | @cons off k tl tl' spans _ _ _ ih =>
    have hl := ih (by rw [byteLength_append, byteLength_append, hope] :
      byteLength (o ++ k ++ old) = off + byteLength k + byteLength old)
    have hc := Change.replace_append (o ++ k) old tl' new
    rw [byteLength_append, hope] at hc
    rw [map_cons, foldr_cons]
    dsimp only
    simp only [append_assoc] at hl hc ⊢
    rw [hl, hc]

end Replaced

/-- A span at which a name stands free. -/
def Stands (name t : List Char) (span : Span) : Prop :=
  ∃ x l, t = x ++ (name ++ l) ∧ span = ⟨byteLength x, byteLength x + byteLength name⟩ ∧
    (∀ c, x.getLast? = some c → standsFree c = true) ∧
    ∀ c, l.head? = some c → standsFree c = true

theorem continuesName_of_standsFree {c : Char} (h : standsFree c = true) :
    continuesName c = false ∧ c ≠ '^' := by
  simpa [standsFree] using h

section Stands

variable {name : List Char} (hn : ∀ c ∈ name, continuesName c = true)

include hn

/-- Two places where a name stands free do not overlap. -/
theorem Stands.stop_le {span o : Span} (h : Stands name t span)
    (hot : Stands name t o) (hl : span.start < o.start) :
    span.stop ≤ o.start := by
  obtain ⟨x, l, ht, rfl, -⟩ := h
  obtain ⟨x', l', ht', rfl, hfr, -⟩ := hot
  dsimp only at hl ⊢
  by_contra hov
  obtain ⟨more, hf, hm⟩ | ⟨more, hf, hm⟩ := append_eq_append_iff.mp (ht.symm.trans ht')
  · rw [hf, byteLength_append] at hl hov
    -- What lies between the two starts is the opening of the name, and the second place stands
    -- directly behind it.
    obtain ⟨tl, hr, -⟩ | ⟨tl, hr, -⟩ := append_eq_append_iff.mp hm
    · rw [hr, byteLength_append] at hov
      omega
    · have hem : more ≠ [] := by
        rintro rfl
        simp [byteLength] at hl
      obtain ⟨pre, last, hla⟩ := (eq_nil_or_concat more).resolve_left hem
      rw [concat_eq_append] at hla
      have hno := (continuesName_of_standsFree (hfr last (by simp [hf, hla]))).1
      rw [hn last (by simp [hr, hla])] at hno
      cases hno
  · rw [hf, byteLength_append] at hl
    omega

/-- Where a name stands free at some spans, it can be replaced there. -/
theorem exists_replaced (new : List Char) {spans : List Span}
    (hst : ∀ span ∈ spans, Stands name t span)
    (hr : spans.Pairwise fun x y ↦ x.start < y.start) :
    ∃ edited, Replaced name new 0 t edited spans := by
  have hf : ∀ op tl : List Char, t = op ++ tl → (∀ span ∈ spans, byteLength op ≤ span.start) →
      ∃ edited, Replaced name new (byteLength op) tl edited spans := by
    induction spans with
    | nil => exact fun op tl _ _ ↦ ⟨tl, .nil _ tl⟩
    | cons span spans ih =>
      intro op tl ht hope
      obtain ⟨hs, hsp⟩ := forall_mem_cons.mp hst
      obtain ⟨hl, hr'⟩ := pairwise_cons.mp hr
      have hsto : ∀ o ∈ spans, span.stop ≤ o.start :=
        fun o hot ↦ hs.stop_le hn (hsp o hot) (hl o hot)
      obtain ⟨x, l, ht', rfl, hb, hbe⟩ := hs
      obtain ⟨k, rfl, rfl⟩ := exists_append_of_le _ (ht.symm.trans ht') (hope _ mem_cons_self)
      obtain ⟨edited, hed⟩ := ih hsp hr' (op ++ k ++ name) l (by rw [ht', append_assoc (op ++ k)])
        (fun o hot ↦ by
          rw [byteLength_append]
          exact hsto o hot)
      refine ⟨k ++ (new ++ edited), ?_⟩
      rw [byteLength_append]
      rw [byteLength_append, byteLength_append] at hed
      refine .cons _ k (fun c hc ↦ hb c ?_) hbe hed
      rw [getLast?_append, hc]
      rfl
  exact hf [] t rfl fun _ _ ↦ Nat.zero_le _

end Stands

section Glyphs

variable {r : Respelling}

/-- Text in which nothing is replaced, in front of a line. -/
theorem Respells.append_glyphs {k : List Char} (off' : Nat) {ln ln' : List Glyph}
    (h : Respells r ln ln') (hk : ∀ g ∈ glyphs off k, ¬ r.starts g.offset)
    (hen : ∀ c, k.getLast? = some c → continuesName c = true → Ends ln)
    (hca : ∀ c, k.getLast? = some c → c = '^' → r.Keeps ln) :
    Respells r (glyphs off k ++ ln) (glyphs off' k ++ ln') := by
  -- The text is taken apart into signs and into words that end where no other begins.
  induction hle : k.length using Nat.strong_induction_on generalizing k off off' with
  | _ length ih =>
    have hst : ∀ run more : List Char, run ≠ [] → run ++ more = k →
        Block r (glyphs (off + byteLength run) more ++ ln) (glyphs off run) (glyphs off' run) →
        Respells r (glyphs off k ++ ln) (glyphs off' k ++ ln') := by
      rintro run more hr rfl hb
      have hp := length_pos_iff.mpr hr
      have hl : ∀ c, more.getLast? = some c → (run ++ more).getLast? = some c := by
        intro c hc
        rw [getLast?_append, hc, Option.some_or]
      rw [length_append] at hle
      rw [glyphs_append] at hk
      rw [glyphs_append, glyphs_append, append_assoc, append_assoc]
      exact .block hb (ih more.length (by omega) _ (fun g hg ↦ hk g (mem_append_right _ hg))
        (fun c hc ↦ hen c (hl c hc)) (fun c hc ↦ hca c (hl c hc)) rfl)
    cases k with
    | nil => exact h
    | cons c tl =>
      by_cases hc : continuesName c = true
      · have hs := takeWhile_append_dropWhile (p := continuesName) (l := c :: tl)
        have hw : (c :: tl).takeWhile continuesName ≠ [] := by
          rw [takeWhile_cons_of_pos hc]
          exact cons_ne_nil _ _
        refine hst _ _ hw hs (.word _ _ (mt glyphs_eq_nil.mp hw) ?_ ?_ ?_ ?_)
        · exact continuesName_of_map_eq (map_char_glyphs _ _) fun c hc ↦ mem_takeWhile_imp hc
        · rw [map_char_glyphs, map_char_glyphs]
        · intro g hg
          refine hk g ?_
          rw [← hs, glyphs_append]
          exact mem_append_left _ hg
        · cases hm : (c :: tl).dropWhile continuesName with
          | nil =>
            rw [hm, append_nil] at hs
            obtain ⟨last, hl⟩ : ∃ last, (c :: tl).getLast? = some last :=
              ⟨_, getLast?_eq_getLast_of_ne_nil (cons_ne_nil _ _)⟩
            refine hen last hl (mem_takeWhile_imp (l := c :: tl) ?_)
            rw [hs]
            exact mem_of_getLast? hl
          | cons d more =>
            rintro n ⟨⟩
            have hh := head?_dropWhile_not continuesName (c :: tl)
            rw [hm] at hh
            simpa using hh
      · refine hst [c] tl (cons_ne_nil _ _) rfl
          (.sign _ _ rfl (Bool.eq_false_iff.mpr hc) fun hc ↦ ?_)
        cases tl with
        | nil => exact hca c rfl hc
        | cons d tl =>
          rintro n ⟨⟩ -
          exact hk _ (mem_cons_of_mem _ mem_cons_self)

theorem Respells.cons_glyphs {name name' : List Char} (hol : name = r.old) (hne : name' = r.new)
    (off' : Nat) {l l' : List Glyph} (h : Respells r l l') (hs : r.starts off)
    (hfr : Free l) :
    Respells r (glyphs off name ++ l) (glyphs off' name' ++ l') := by
  refine .block (.name _ _ ?_ ?_ (fun x hf ↦ ?_) hfr) h
  · rw [map_char_glyphs, hol]
  · rw [map_char_glyphs, hne]
  · cases name with
    | nil => cases hf
    | cons c name =>
      cases hf
      exact hs

theorem free_glyphs (h : ∀ c, t.head? = some c → standsFree c = true) : Free (glyphs off t) := by
  cases t with
  | nil => exact nofun
  | cons c t =>
    rintro n ⟨⟩
    exact continuesName_of_standsFree (h c rfl)

/-- The text after the replacements is the text before it, respelled. -/
theorem Replaced.respells (off' : Nat) {edited : List Char} {spans : List Span}
    (h : Replaced r.old r.new off t edited spans)
    (hsta : ∀ start, off ≤ start → (r.starts start ↔ ∃ span ∈ spans, span.start = start)) :
    Respells r (glyphs off t) (glyphs off' edited) := by
  induction h generalizing off' with
  | nil off t =>
    have hno : ∀ g ∈ glyphs off t, ¬ r.starts g.offset := by
      intro g hg hst
      obtain ⟨span, hs, -⟩ := (hsta _ (le_offset_of_mem_glyphs hg).1).mp hst
      cases hs
    have hw := Respells.nil.append_glyphs off' hno (fun _ _ _ ↦ nofun) (fun _ _ _ ↦ nofun)
    rwa [append_nil, append_nil] at hw
  | @cons off k tl tl' spans hb hbe hr ih =>
    have hp := byteLength_pos r.old_free.ne_nil
    have hre := ih (off' + byteLength k + byteLength r.new) fun start hl ↦ by
      rw [hsta start (by omega), exists_mem_cons_iff]
      exact or_iff_right (fun heq ↦ by dsimp only at heq; omega)
    have hst : r.starts (off + byteLength k) :=
      (hsta _ (Nat.le_add_right _ _)).mpr ⟨_, mem_cons_self, rfl⟩
    have hn := hre.cons_glyphs rfl rfl (off' + byteLength k) hst (free_glyphs hbe)
    rw [glyphs_append, glyphs_append, glyphs_append off', glyphs_append]
    refine hn.append_glyphs off' (fun g hg hst ↦ ?_) (fun c hc hn ↦ ?_) (fun c hc hca ↦ ?_)
    · obtain ⟨hl, hlt⟩ := le_offset_of_mem_glyphs hg
      obtain ⟨span, hs, heq⟩ := (hsta _ hl).mp hst
      rcases mem_cons.mp hs with rfl | hs
      · dsimp only at heq
        omega
      · have := hr.le_start span hs
        omega
    · rw [(continuesName_of_standsFree (hb c hc)).1] at hn
      cases hn
    · exact absurd hca (continuesName_of_standsFree (hb c hc)).2

end Glyphs

/-- The range of a place where a name stands free leads back to its span. -/
theorem Stands.offset_ofSpan {name : List Char} {span : Span} (h : Stands name t span)
    (hn : IsFreeName name) :
    ((Range.ofSpan t span).start.offset t, (Range.ofSpan t span).stop.offset t) =
      (span.start, span.stop) := by
  obtain ⟨x, l, rfl, rfl, -, -⟩ := h
  have hp : ∀ c ∈ name, c ≠ '\r' ∧ c ≠ '\n' := by
    refine fun c hc ↦ ⟨?_, ?_⟩ <;>
    · rintro rfl
      exact absurd (hn.chars _ hc) (by decide)
  rw [Position.ofSpan_word hn.ne_nil hp, Position.offset_word hn.ne_nil hp]

end Script

namespace Query

variable (q : Query)

theorem spansFrom_sublist (t : List Char) (sc : Scope) (xs : List (Annotated Reference)) :
    (q.spansFrom t sc xs).Sublist (xs.map Annotated.span) := by
  induction xs generalizing sc with
  | nil => exact Sublist.slnil
  | cons x tl ih =>
    rw [spansFrom, map_cons]
    split_ifs
    · exact (ih _).cons_cons _
    · exact (ih _).cons _

theorem spansIn_sublist (doc : Document) : (q.spansIn doc).Sublist
    (q.spansFrom doc.text.toList Scope.top doc.annotations.references.items) := by
  refine q.spansIn_induction .slnil (fun kept found span h ↦ ?_) doc
  split_ifs
  · exact h.trans (sublist_append_left _ _)
  · exact h.append (Sublist.refl _)

/-- The spans of a document's occurrences stand one behind the other. -/
theorem rising_spansIn {doc : Document} (h : doc.annotations.Faithful doc.text.toList) :
    (q.spansIn doc).Pairwise fun x y ↦ x.start < y.start := by
  have hi : (doc.annotations.references.items.map Annotated.span).Pairwise
      fun x y ↦ x.start ≤ y.start := pairwise_map.mpr h.sorted
  have hs := hi.sublist ((q.spansIn_sublist doc).trans (q.spansFrom_sublist _ _ _))
  have hno := pairwise_map.mp (q.represents_spansIn doc).nodup
  exact (hs.and hno).imp fun hb ↦ Nat.lt_of_le_of_ne hb.1 hb.2

theorem filter_occurrences {st : Store} {u : Uri} {doc : Document} (hop : st.get? u = some doc) :
    ((q.occurrences st).filter fun o ↦ o.uri = u) = (q.spansIn doc).map (⟨u, doc, ·⟩) := by
  have hen := (Table.mem_entries_iff _ _ _).mpr hop
  have hd := st.documents.sorted.imp fun hl ↦ hl.2
  rw [occurrences]
  generalize st.documents.entries = es at hen hd
  induction es with
  | nil => cases hen
  | cons e tl ih =>
    obtain ⟨hot, hd⟩ := pairwise_cons.mp hd
    rw [flatMap_cons, filter_append]
    rcases mem_cons.mp hen with rfl | hen
    · rw [filter_eq_self.mpr ?_, filter_eq_nil_iff.mpr ?_, append_nil]
      · intro o hoc
        obtain ⟨e, hen, hi⟩ := mem_flatMap.mp hoc
        obtain ⟨span, -, rfl⟩ := mem_map.mp hi
        simpa using (hot e hen).symm
      · exact forall_mem_map.mpr fun span _ ↦ decide_eq_true rfl
    · rw [filter_eq_nil_iff.mpr ?_, nil_append, ih hen hd]
      refine forall_mem_map.mpr fun span _ ↦ ?_
      simpa using hot _ hen

end Query

namespace Rename

/-- The ranges of a document among some locations. -/
def rangesIn (u : Uri) (located : List Location) : List Range :=
  (located.filter fun l ↦ l.uri = u).map Location.range

theorem get?_foldl_alter (located : List Location) (tb : Table Uri (List Range)) (u : Uri) :
    (located.foldl (fun tb l ↦ tb.alter l.uri fun ranges ↦ ranges.getD [] ++ [l.range]) tb).get? u =
        if rangesIn u located = [] then tb.get? u
        else some ((tb.get? u).getD [] ++ rangesIn u located) := by
  induction located generalizing tb with
  | nil => rfl
  | cons l tl ih =>
    rw [foldl_cons, ih, Table.get?_alter]
    by_cases hu : l.uri = u
    · have hc : rangesIn u (l :: tl) = l.range :: rangesIn u tl := by
        rw [rangesIn, filter_cons_of_pos (by simpa using hu)]
        rfl
      rw [if_pos hu, hc, if_neg (cons_ne_nil _ _), hu]
      split_ifs with hni
      · rw [hni]
      · rw [Option.getD_some, append_assoc, singleton_append]
    · have hc : rangesIn u (l :: tl) = rangesIn u tl := by
        rw [rangesIn, filter_cons_of_neg (by simpa using hu)]
        rfl
      rw [if_neg hu, hc]

/-- The ranges of a document that a rename replaces. -/
def rangesOf (se : Search) (u : Uri) : List Range :=
  rangesIn u ((se.occurrences.map Occurrence.location).filter fun l ↦ l.uri ∉ se.assets)

theorem find?_documentEdits (st : Store) (se : Search) (new : String) (u : Uri) :
    ((documentEdits st se new).find? fun edit ↦ edit.uri = u) = if rangesOf se u = [] then none
      else some ⟨u, st.version? u, rangesOf se u, new⟩ := by
  have hg := get?_foldl_alter ((se.occurrences.map Occurrence.location).filter
      fun l ↦ l.uri ∉ se.assets) Table.empty u
  rw [Table.get?_empty, Option.getD_none, nil_append, Table.get?] at hg
  have hf := congrArg (Option.map fun ranges ↦ (⟨u, st.version? u, ranges, new⟩ : DocumentEdit)) hg
  rw [Option.map_map, apply_ite (Option.map _)] at hf
  rw [documentEdits, find?_map]
  refine Eq.trans (Option.map_congr fun e hen ↦ ?_) hf
  have hk : e.1 = u := by simpa using find?_some hen
  rw [← hk]
  rfl

theorem rangesOf_eq (se : Search) {u : Uri} (ha : u ∉ se.assets) :
    rangesOf se u = (se.occurrences.filter fun o ↦ o.uri = u).map fun o ↦ o.location.range := by
  rw [rangesOf, rangesIn, filter_filter, filter_map, map_map]
  refine congrArg _ (filter_congr fun o _ ↦ ?_)
  by_cases hu : o.uri = u
  · simp [Occurrence.location, hu, ha]
  · simp [Occurrence.location, hu]

/-- The text of a document that is not open stays. -/
theorem textOf_of_closed {st : Store} {q : Query} {se : Search} {rename : Rename}
    {u : Uri} {new : String} (he : rename.edits = documentEdits st se new)
    (ho : se.occurrences = q.occurrences st) (hc : st.get? u = none)
    (t : String) : rename.textOf u t = t := by
  have hno : rangesOf se u = [] := by
    rw [rangesOf, rangesIn, filter_filter, filter_eq_nil_iff.mpr ?_, map_nil]
    intro l hl
    obtain ⟨o, hoc, rfl⟩ := mem_map.mp hl
    rw [ho, Query.mem_occurrences_iff] at hoc
    have hu : o.uri ≠ u := by
      rintro rfl
      rw [hc] at hoc
      cases hoc.1
    simp [Occurrence.location, hu]
  rw [textOf, he, find?_documentEdits, if_pos hno]

section TextOf

variable {st : Store} {q : Query} {se : Search} {rename : Rename} {u : Uri}
  {doc : Document} {new : String}
  (he : rename.edits = documentEdits st se new)
  (ho : se.occurrences = q.occurrences st)
  (hop : st.get? u = some doc) (ha : u ∉ se.assets)

include he ho hop ha

/-- A document's text after a rename. -/
theorem textOf_eq {name edited : List Char} (hn : IsFreeName name)
    (hst : ∀ span ∈ q.spansIn doc, Stands name doc.text.toList span)
    (h : Replaced name new.toList 0 doc.text.toList edited (q.spansIn doc)) :
    rename.textOf u doc.text = String.ofList edited := by
  have hr : rangesOf se u = (q.spansIn doc).map (Range.ofSpan doc.text.toList) := by
    rw [rangesOf_eq se ha, ho, q.filter_occurrences hop, map_map]
    rfl
  have hc : (((q.spansIn doc).map (Range.ofSpan doc.text.toList)).map fun range ↦
      (range.start.offset doc.text.toList, range.stop.offset doc.text.toList)) =
        (q.spansIn doc).map fun span ↦ (span.start, span.stop) := by
    rw [map_map]
    exact map_congr_left fun span hs ↦ (hst span hs).offset_ofSpan hn
  have hap := h.foldr_replace (show byteLength [] = 0 from rfl)
  rw [nil_append, nil_append, ← hc] at hap
  rw [textOf, he, find?_documentEdits, hr]
  split_ifs with hno
  · rw [hno] at hap
    rw [← hap]
    exact String.ofList_toList.symm
  · exact congrArg String.ofList hap

/-- A document's text after a rename is the text before it, respelled at its occurrences. -/
theorem respells_textOf {r : Respelling}
    (hf : doc.annotations.Faithful doc.text.toList) (hne : r.new = new.toList)
    (hs : ∀ span ∈ q.spansIn doc, Stands r.old doc.text.toList span)
    (hst : ∀ start, r.starts start ↔ ∃ span ∈ q.spansIn doc, span.start = start) :
    Respells r (glyphs 0 doc.text.toList) (glyphs 0 (rename.textOf u doc.text).toList) := by
  obtain ⟨edited, hed⟩ := exists_replaced r.old_free.chars r.new hs (q.rising_spansIn hf)
  have hr := hed.respells 0 fun start _ ↦ hst start
  rw [hne] at hed
  rwa [textOf_eq he ho hop ha r.old_free hs hed, String.toList_ofList]

end TextOf

end Rename

end StoryScript
