import StoryScript.Proofs.Rename.Documents

/-!
What a rename does to the diverts of a project.
-/

namespace StoryScript

open Bool List StoryScript.Path Query Script

variable {bs : Keys String}

/-! ### Names -/

theorem Text.isAlphabetic_of_isAlpha {c : Char} (h : c.isAlpha = true) : isAlphabetic c = true := by
  rw [isAlphabetic, inRanges, any_eq_true]
  rcases isAlpha_iff.mp h with hu | hl
  · exact ⟨(0x41, 0x5a), mem_cons_self, by simpa using hu⟩
  · exact ⟨(0x61, 0x7a), mem_cons_of_mem _ mem_cons_self, by simpa using hl⟩

theorem Text.isAlphanumeric_of_isAlphanum {c : Char} (h : c.isAlphanum = true) :
    isAlphanumeric c = true := by
  rw [Char.isAlphanum, or_eq_true] at h
  rw [isAlphanumeric, or_eq_true]
  refine h.imp isAlphabetic_of_isAlpha fun hdi ↦ ?_
  rw [inRanges, any_eq_true]
  exact ⟨(0x30, 0x39), mem_cons_self, by simpa using isDigit_iff.mp hdi⟩

/-- A free name is one that a symbol can be given. -/
theorem Rename.isValidName_of_isFreeName {name : String} (h : IsFreeName name.toList) :
    isValidName name = true := by
  have hst := h.starts
  have hch := h.chars
  unfold isValidName
  cases hna : name.toList with
  | nil => exact absurd hna h.ne_nil
  | cons x r =>
    rw [hna] at hst hch
    rw [and_eq_true, all_eq_true]
    constructor
    · have hf : startsName x = true := by simpa using hst
      rw [startsName, or_eq_true] at hf
      rw [or_eq_true]
      exact hf.imp_left Text.isAlphabetic_of_isAlpha
    · intro c hc
      have hco := hch c (mem_cons_of_mem _ hc)
      rw [continuesName, or_eq_true] at hco
      rw [or_eq_true]
      exact hco.imp_left Text.isAlphanumeric_of_isAlphanum

/-! ### Where diverts lead -/

/-- Paths along which a divert can lead: they end with a name, and leave no type open. -/
def Path.Leads (dv : String) : Prop :=
  last dv ≠ "" ∧ last dv ≠ parent ∧ '?' ∉ dv.toList

theorem Script.leads_of_mem_divertsAt {t : String} {dv : String × String}
    (h : dv ∈ divertsAt (placementsOf t)) : Leads dv.2 := by
  obtain ⟨e, he, hi⟩ := mem_flatMap.mp h
  cases hdi : e.2.value.isDivert with
  | false =>
    rw [hdi] at hi
    cases hi
  | true =>
    obtain ⟨id, hv, hq⟩ := pathDivert_of_mem_placements he hdi
    rw [hdi, if_pos rfl, hv] at hi
    obtain rfl : dv = (e.1.path, id) := mem_singleton.mp hi
    have hna := (faithful_annotate t).names e.2 (mem_items_of_mem_placementsOf he)
    rw [hv] at hna
    generalize e.2.span.textIn t.toList = wd at hna
    cases hna with
    | uses _ _ _ hl _ hw =>
      have hl : last id = wd := hl id mem_cons_self
      exact ⟨hl ▸ hw.1, hl ▸ hw.2, hq⟩

/-- Where a divert leads is told by what is known. -/
theorem Context.leads_congr {context o : Context}
    (h : ∀ id, context.knows bs id = o.knows bs id) (sc : String)
    {dv : String} (hdi : Leads dv) :
    context.leads bs sc dv = o.leads bs sc dv := by
  obtain ⟨he, hp, hq⟩ := hdi
  rw [Bool.eq_iff_iff, context.leads_iff bs he hp hq, o.leads_iff bs he hp hq]
  simp only [h]

theorem Program.declares_symbolsOf_iff_exists {ss : List Script}
    (h : ∀ sc ∈ ss, sc.annotations = annotate sc.text)
    (id : String) :
    (symbolsOf ss).declares id = true ↔ ∃ sc ∈ ss, id ∈ declaredIds
        ((placementsOf sc.text).map Prod.snd) := by
  have hl : ∀ sc ∈ ss, ∀ x, x ∈ sc.annotations.references.items ↔
      x ∈ (placementsOf sc.text).map Prod.snd := by
    intro sc hsc x
    rw [h sc hsc, (perm_lineItems sc.text).mem_iff, lineItems_eq]
  have hv : ∀ sc ∈ ss, ∀ x ∈ sc.annotations.references.items,
      x.value.isDeclaration = true → ∃ k id, x.value = Reference.ofDeclaration k id := by
    intro sc hsc x hi hde
    rw [h sc hsc] at hi
    obtain ⟨k, id, hv, -⟩ := ((faithful_annotate sc.text).names x hi).exists_declaration hde
    exact ⟨k, id, hv⟩
  rw [declares_symbolsOf_iff]
  constructor
  · rintro ⟨one, hon, rfl⟩
    obtain ⟨sc, hsc, hin⟩ := mem_flatMap.mp hon
    obtain ⟨x, hi, hof⟩ := mem_filterMap.mp hin
    refine ⟨sc, hsc, mem_flatMap.mpr ⟨x, (hl sc hsc x).mp hi, ?_⟩⟩
    cases hde : x.value.isDeclaration with
    | false =>
      rw [Reference.isDeclaration, Option.isSome_eq_false_iff, Option.isNone_iff_eq_none] at hde
      rw [Declared.of?, hde] at hof
      cases hof
    | true =>
      obtain ⟨k, id, hv⟩ := hv sc hsc x hi hde
      rw [Declared.of?, hv] at hof
      cases hof
      rw [if_pos rfl, hv]
      exact mem_singleton.mpr rfl
  · rintro ⟨sc, hsc, hid⟩
    obtain ⟨x, hi, hin⟩ := mem_flatMap.mp hid
    split_ifs at hin with hde
    · have hi := (hl sc hsc x).mpr hi
      obtain ⟨k, id, hv⟩ := hv sc hsc x hi hde
      rw [hv] at hin
      rw [mem_singleton.mp hin]
      exact exists_declared hsc hi hv
    · cases hin

namespace Query

variable (q : Query) (new : String) {id : String}

/-- An id after the rename. -/
def renamedId (id : String) : String :=
  respell (fun id ↦ id ∈ q.targets) q.name new id

/-- The symbols that are known after the rename. -/
def renamed : Context :=
  { Context.empty with
    symbols := Table.ofList (q.context.symbols.entries.map fun e ↦ (q.renamedId new e.1, e.2)) }

/-- A divert in a scope, as it is after the rename. -/
def renamedDivert (dv : String × String) : String × String :=
  (q.renamedId new dv.1, respell (q.reaches dv.1) q.name new dv.2)

/-- Among the ids that a divert may lead to there is a known one that it may lead to after the
rename, both with the new name. -/
def StillLeads (dv : String × String) : Prop :=
  ∃ id ∈ targetsOf dv.1 dv.2, q.context.knows q.builtins id = true ∧
    q.renamedId new id ∈ targetsOf (q.renamedDivert new dv).1 (q.renamedDivert new dv).2

theorem declares_renamed_iff (id : String) :
    (q.renamed new).declares id = true ↔
      ∃ l, q.context.declares l = true ∧ q.renamedId new l = id := by
  refine (Table.contains_ofList_iff _ id).trans ?_
  simp only [mem_map, Context.declares, Table.contains, any_eq_true]
  constructor
  · rintro ⟨_, ⟨e, he, rfl⟩, rfl⟩
    exact ⟨e.1, ⟨e, he, decide_eq_true rfl⟩, rfl⟩
  · rintro ⟨l, ⟨e, he, heq⟩, rfl⟩
    exact ⟨_, ⟨e, he, rfl⟩, by rw [of_decide_eq_true heq]⟩

variable {q new}

theorem renamedId_of_notMem (h : q.name ∉ segments id) : q.renamedId new id = id :=
  respell_of_notMem h

section Renamed

variable (hol : IsFreeName q.name.toList) (hn : IsFreeName new.toList)
  (hb : ∀ id, q.builtins.contains id = true → q.name ∉ segments id ∧ new ∉ segments id)

include hb

theorem knows_renamed_of_knows (h : q.context.knows q.builtins id = true) :
    (q.renamed new).knows q.builtins (q.renamedId new id) = true := by
  rw [Context.knows, or_eq_true] at h ⊢
  refine h.imp (fun hde ↦ ?_) fun hbu ↦ ?_
  · exact (q.declares_renamed_iff new _).mpr ⟨id, hde, rfl⟩
  · rwa [renamedId_of_notMem (hb id hbu).1]

variable (hd : ∀ id, q.context.declares id = true → new ∉ segments id)

include hn hd

/-- What is known after the rename is known before it, by the old name in place of the new one. -/
theorem knows_restore_of_knows_renamed (h : (q.renamed new).knows q.builtins id = true) :
    q.context.knows q.builtins (mapSegments (restore q.name new) id) = true ∧
      q.renamedId new (mapSegments (restore q.name new) id) = id := by
  have hdo := (ne_of_isFreeName hn).2.2.1
  rw [Context.knows, or_eq_true] at h ⊢
  rcases h with hde | hbu
  · obtain ⟨l, hbe, rfl⟩ := (q.declares_renamed_iff new id).mp hde
    rw [renamedId, mapSegments_restore_respell hdo (hd l hbe)]
    exact ⟨Or.inl hbe, rfl⟩
  · rw [mapSegments_restore_of_notMem (hb id hbu).2]
    exact ⟨Or.inr hbu, renamedId_of_notMem (hb id hbu).1⟩

include hol

/-- After a rename to a name that nothing has, a divert leads somewhere just if it still leads
where it did. -/
theorem leads_renamed_iff {dv : String × String} (hsc : new ∉ segments dv.1)
    (hdiv : new ∉ segments dv.2) (hl : Leads dv.2)
    (hr : Leads (q.renamedDivert new dv).2) :
    (q.renamed new).leads q.builtins (q.renamedDivert new dv).1
        (q.renamedDivert new dv).2 = true ↔ q.StillLeads new dv := by
  have hdo := (ne_of_isFreeName hn).2.2.1
  have hsco : mapSegments (restore q.name new)
      (q.renamedDivert new dv).1 = dv.1 := mapSegments_restore_respell hdo hsc
  have hdi : mapSegments (restore q.name new)
      (q.renamedDivert new dv).2 = dv.2 := mapSegments_restore_respell hdo hdiv
  obtain ⟨he, hp, hq⟩ := hr
  have ht := (renames_restore hol hn).targetsOf_mapSegments
    (q.renamedDivert new dv).1 hq (by rw [hdi]; exact hl.2.2)
  rw [hsco, hdi] at ht
  rw [Context.leads_iff _ _ he hp hq]
  constructor
  · rintro ⟨id, hi, hk⟩
    obtain ⟨hbe, hba⟩ := knows_restore_of_knows_renamed hn hb hd hk
    refine ⟨_, ?_, hbe, hba.symm ▸ hi⟩
    rw [ht]
    exact mem_map_of_mem hi
  · rintro ⟨id, -, hk, hi⟩
    exact ⟨_, hi, knows_renamed_of_knows hb hk⟩

end Renamed

end Query

/-! ### Conditions -/

/-- A name that nothing in a project has. -/
structure Rename.Fresh (st : Store) (bs : Keys String) (new : String) : Prop where
  free : IsFreeName new.toList
  /-- It stands in no script. -/
  absent : ∀ u d, st.get? u = some d → ¬ new.toList <:+: d.text.toList
  /-- No builtin id has it as a segment. -/
  unknown : ∀ id, bs.contains id = true → new ∉ segments id

/-- What is asked of the old name and of the places where it stands. -/
structure Query.Regular (q : Query) (st : Store) (w : Workspace) : Prop where
  free : IsFreeName q.name.toList
  /-- Occurrences touch neither characters of names nor carets. -/
  stands : ∀ u d, st.get? u = some d → ∀ span ∈ q.spansIn d, Stands q.name.toList d.text.toList span
  /-- Names are declared one by one. -/
  dotless : ∀ u d, st.get? u = some d → Dotless d.text
  /-- No builtin id has it as a segment. -/
  unknown : ∀ id, q.builtins.contains id = true → q.name ∉ segments id
  /-- No open script is the file of an asset that is renamed. -/
  assets : ∀ id ∈ q.targets, ∀ file ∈ w.findAssets id, st.get? file = none

/-! ### The search of a rename -/

/-- What a rename of a symbol searches for. -/
def Query.ofSymbol (context : Context) (bs : Keys String) (s : SymbolAt) : Query :=
  ⟨context, bs, .rename, s.name, context.resolveReference bs s.item.value true s.scope⟩

section Symbol

variable {st : Store} {w : Workspace} {pr : Program} {bs : Keys String}
  {u : Uri} {p : Position} {d : Document} {s : SymbolAt}
  (ho : st.get? u = some d) (hs : d.symbolAt? p = some s)
  (ht : (ofSymbol pr.context bs s).targets ≠ [])

include ho hs ht

omit ht in
theorem Search.find_rename :
    ∃ assets, find st w (some pr) bs .rename u p = ⟨(ofSymbol pr.context bs s).occurrences st,
          Keys.ofList (ofSymbol pr.context bs s).targets, assets⟩ ∧
      ∀ file ∈ assets, ∃ id ∈ (ofSymbol pr.context bs s).targets, file ∈ w.findAssets id :=
  ⟨_, find_eq ho hs rfl w (some pr) bs, fun _ ↦ exists_of_mem_assets⟩

omit ho in
/-- The symbol at the position is one of its occurrences. -/
theorem Query.spansIn_ofSymbol_ne_nil (ha : d.annotations = annotate d.text) :
    (ofSymbol pr.context bs s).spansIn d ≠ [] := by
  unfold Document.symbolAt? at hs
  dsimp only at hs
  cases hf : d.annotations.references.findAt (p.offset d.text.toList) with
  | none =>
    rw [hf] at hs
    cases hs
  | some x =>
    rw [hf] at hs
    dsimp only at hs
    split_ifs at hs with hno
    obtain rfl := Option.some.inj hs
    have hi := RangeSet.mem_of_findAt hf
    refine ne_nil_of_mem (mem_spansIn_of_matchesIn ha hi ?_)
    refine (matchesIn_iff SearchFilter.full_rename
      ((faithful_of_annotations ha).names _ hi) _).mpr ⟨rfl, ?_⟩
    obtain ⟨t, hta⟩ := exists_mem_of_ne_nil _ ht
    exact any_eq_true.mpr ⟨t, hta, decide_eq_true hta⟩

end Symbol

/-- A rename is made where there is a symbol, as soon as its new name is one. -/
theorem Rename.exists_at? {st : Store} {w : Workspace} {pr : Program}
    {se : Search} {q : Query} {u : Uri} {p : Position} {d : Document}
    {new : String}
    (hse : Search.find st w (some pr) bs .rename u p = se)
    (hoc : se.occurrences = q.occurrences st)
    (ho : st.get? u = some d) (ha : u ∉ se.assets)
    (hsp : q.spansIn d ≠ []) (hn : isValidName new = true) (moveAssets : Bool) :
    ∃ rename, at? st w (some pr) bs moveAssets u p new =
        some rename ∧ rename.edits = documentEdits st se new := by
  have hr : rangesOf se u ≠ [] := by
    rw [rangesOf_eq se ha, hoc, q.filter_occurrences ho, map_map]
    simpa using hsp
  have he : documentEdits st se new ≠ [] := by
    intro hni
    have hf := find?_documentEdits st se new u
    rw [hni, if_neg hr] at hf
    cases hf
  unfold at?
  rw [if_pos hn, hse]
  dsimp only
  rw [if_neg he]
  exact ⟨_, rfl, rfl⟩

/-- A rename of all occurrences that a query has, to a name that nothing has. -/
structure Rename.Renews (rename : Rename) (st : Store) (w : Workspace)
    (bs : Keys String) (q : Query) (search : Search) (new : String) : Prop where
  filter : q.filter = .rename
  regular : q.Regular st w
  fresh : Fresh st bs new
  edits : rename.edits = documentEdits st search new
  occurrences : search.occurrences = q.occurrences st
  assets : ∀ u ∈ search.assets, st.get? u = none

/-- What a document declares, diverts to and includes after a rename. -/
theorem Rename.Renews.alike_textOf {rename : Rename} {st : Store} {w : Workspace}
    {q : Query} {se : Search} {new : String}
    (h : rename.Renews st w bs q se new) {u : Uri} {d : Document}
    (ho : st.get? u = some d)
    (ha : d.annotations = annotate d.text) :
    declaredIds ((placementsOf (rename.textOf u d.text)).map Prod.snd) =
        (declaredIds ((placementsOf d.text).map Prod.snd)).map (q.renamedId new) ∧
      divertsAt (placementsOf (rename.textOf u d.text)) =
        (divertsAt (placementsOf d.text)).map (q.renamedDivert new) ∧
      (annotate (rename.textOf u d.text)).includes.items.map Annotated.value =
        (annotate d.text).includes.items.map Annotated.value := by
  have has : u ∉ se.assets := by
    intro hm
    rw [h.assets u hm] at ho
    cases ho
  have hr := respells_textOf (r := q.respelling d h.regular.free h.fresh.free)
    h.edits h.occurrences ho has (faithful_of_annotations ha) rfl
    (h.regular.stands u d ho) fun _ ↦ Iff.rfl
  obtain ⟨hd, hdi, hi⟩ := scriptsAlike ha h.filter
    (h.regular.dotless u d ho) h.regular.free h.fresh.free hr
  have hol : (q.respelling d h.regular.free h.fresh.free).oldName = q.name :=
    String.ofList_toList
  have hn : (q.respelling d h.regular.free h.fresh.free).newName = new := String.ofList_toList
  rw [hol, hn] at hd hdi
  refine ⟨hd, hdi, ?_⟩
  rwa [items_includes_annotate, items_includes_annotate]

end StoryScript
