import StoryScript.Proofs.Script.Sections
import StoryScript.Proofs.Store
import StoryScript.Search

/-!
What a search reports. In each document it keeps one span from each start, so that no place is
reported twice (`Query.nodup_starts`), and if all annotations that start together and match cover
the same span, every match is kept (`Query.mem_spansIn_iff`). Over all open documents, a search is
the result of one query, which its symbol determines (`Search.find_eq`).
-/

namespace StoryScript

open List Scope

variable {d : Document} {q : Query} {st : Store} {w : Workspace} {filter : SearchFilter}
  {x : Annotated Reference} {u : Uri} {pos : Position} {s : SymbolAt}

/-- Every open document has annotations that lie on words of its text. -/
def Store.Faithful (st : Store) : Prop :=
  ∀ u d, st.get? u = some d → d.annotations.Faithful d.text.toList

/-- Spans that stand for a list of spans: one of them from each start. -/
structure Span.Represents (kept found : List Span) : Prop where
  mem : ∀ span ∈ kept, span ∈ found
  start : ∀ span ∈ found, ∃ other ∈ kept, other.start = span.start
  nodup : (kept.map Span.start).Nodup

namespace Span.Represents

theorem nil : Represents [] [] :=
  ⟨nofun, nofun, nodup_nil⟩

theorem push {k f : List Span} (h : Represents k f) (span : Span) :
    Represents (if k.any fun l ↦ l.start = span.start then k else k ++ [span]) (f ++ [span]) := by
  split_ifs with han
  · obtain ⟨l, he, hs⟩ := any_eq_true.mp han
    refine ⟨fun o ho ↦ mem_append_left _ (h.mem o ho), ?_, h.nodup⟩
    refine forall_mem_append.mpr ⟨h.start, forall_mem_singleton.mpr ?_⟩
    exact ⟨l, he, of_decide_eq_true hs⟩
  · refine ⟨?_, ?_, ?_⟩
    · intro o ho
      exact mem_append.mpr ((mem_append.mp ho).imp_left (h.mem o))
    · refine forall_mem_append.mpr ⟨fun o ho ↦ ?_, forall_mem_singleton.mpr ?_⟩
      · obtain ⟨l, he, hs⟩ := h.start o ho
        exact ⟨l, mem_append_left _ he, hs⟩
      · exact ⟨span, mem_append_right _ (mem_singleton.mpr rfl), rfl⟩
    · rw [map_append]
      refine nodup_append.mpr ⟨h.nodup, nodup_singleton _, ?_⟩
      intro start hs o ho heq
      obtain ⟨l, he, rfl⟩ := mem_map.mp hs
      obtain rfl := mem_singleton.mp ho
      exact han (any_eq_true.mpr ⟨l, he, decide_eq_true heq⟩)

theorem mem_iff {k f : List Span} (h : Represents k f)
    (he : ∀ a ∈ f, ∀ y ∈ f, a.start = y.start → a = y)
    {span : Span} : span ∈ k ↔ span ∈ f := by
  refine ⟨h.mem span, fun hs ↦ ?_⟩
  obtain ⟨o, ho, hst⟩ := h.start span hs
  rwa [← he o (h.mem o ho) span hs hst]

end Span.Represents

namespace Query

variable (q : Query)

theorem mem_spansFrom_iff (text : List Char) (sc : Scope) (items : List (Annotated Reference))
    (span : Span) :
    span ∈ q.spansFrom text sc items ↔
      ∃ e ∈ walk text sc items, q.matchesIn text e.1 e.2 = true ∧ e.2.span = span := by
  induction items generalizing sc with
  | nil => simp [spansFrom, walk]
  | cons x r ih =>
    rw [walk, exists_mem_cons_iff, ← ih, spansFrom]
    dsimp only
    split_ifs with hm
    · rw [mem_cons, eq_comm]
      simp [hm]
    · simp [hm]

/-- The spans that a search finds one by one, and those of them that it keeps. -/
theorem spansIn_induction {motive : List Span → List Span → Prop} (nil : motive [] [])
    (push : ∀ kept found span, motive kept found → motive
      (if kept.any fun er ↦ er.start = span.start then kept else kept ++ [span]) (found ++ [span]))
    (d : Document) :
    motive (q.spansIn d) (q.spansFrom d.text.toList top d.annotations.references.items) := by
  unfold spansIn
  induction q.spansFrom d.text.toList top d.annotations.references.items using reverseRecOn with
  | nil => exact nil
  | append_singleton found span ih =>
    rw [foldl_concat]
    exact push _ _ span ih

theorem represents_spansIn (d : Document) : Span.Represents (q.spansIn d)
    (q.spansFrom d.text.toList top d.annotations.references.items) :=
  q.spansIn_induction .nil (fun _ _ span h ↦ h.push span) d

theorem exists_item_of_mem_spansIn {d : Document} {span : Span} (h : span ∈ q.spansIn d) :
    ∃ x ∈ d.annotations.references.items, x.span = span := by
  obtain ⟨e, he, -, rfl⟩ :=
    (q.mem_spansFrom_iff _ _ _ span).mp ((q.represents_spansIn d).mem span h)
  exact ⟨e.2, mem_of_mem_walk he, rfl⟩

/-- All annotations that match are reported: those that start together cover the same word. -/
theorem mem_spansIn_iff {d : Document} (h : d.annotations.Faithful d.text.toList) (span : Span) :
    span ∈ q.spansIn d ↔ ∃ e ∈ walk d.text.toList top d.annotations.references.items,
        q.matchesIn d.text.toList e.1 e.2 = true ∧ e.2.span = span := by
  have hn : ∀ {sc : Scope} {x : Annotated Reference}, q.matchesIn d.text.toList sc x = true →
        x.span.textIn d.text.toList = q.name := by
    intro sc x hm
    simp only [matchesIn, Bool.and_eq_true, decide_eq_true_eq] at hm
    exact hm.1.2
  rw [← mem_spansFrom_iff]
  refine (q.represents_spansIn d).mem_iff fun a hf y hs hst ↦ ?_
  obtain ⟨left, hl, hm, rfl⟩ := (q.mem_spansFrom_iff _ _ _ a).mp hf
  obtain ⟨right, hr, hm', rfl⟩ := (q.mem_spansFrom_iff _ _ _ y).mp hs
  exact h.span_ext (mem_of_mem_walk hl) (mem_of_mem_walk hr) hst ((hn hm).trans (hn hm').symm)

/-- All occurrences in the open documents. -/
def occurrences (st : Store) : List Occurrence :=
  st.documents.entries.flatMap fun (u, d) ↦ (q.spansIn d).map (⟨u, d, ·⟩)

theorem mem_occurrences_iff (st : Store) (o : Occurrence) :
    o ∈ q.occurrences st ↔ st.get? o.uri = some o.document ∧ o.span ∈ q.spansIn o.document := by
  simp only [occurrences, mem_flatMap, mem_map]
  constructor
  · rintro ⟨⟨u, d⟩, he, span, hs, rfl⟩
    exact ⟨(Table.mem_entries_iff _ _ _).mp he, hs⟩
  · rintro ⟨ho, hs⟩
    exact ⟨(o.uri, o.document), (Table.mem_entries_iff _ _ _).mpr ho, o.span, hs, rfl⟩

/-- No position is reported twice: the positions of a document lead back to the starts of its
annotations, which differ. -/
theorem nodup_starts (hfa : st.Faithful) :
    ((q.occurrences st).map fun o ↦ (o.uri, o.location.range.start)).Nodup := by
  rw [Nodup, pairwise_map, occurrences, pairwise_flatMap]
  refine ⟨?_, st.documents.sorted.imp fun hl ↦ ?_⟩
  · rintro ⟨u, d⟩ he
    have h := hfa u d ((Table.mem_entries_iff _ _ _).mp he)
    have hb : ∀ span ∈ q.spansIn d,
        (Position.ofOffset d.text.toList span.start).offset d.text.toList =
          span.start := by
      intro span hsp
      obtain ⟨x, hi, rfl⟩ := q.exists_item_of_mem_spansIn hsp
      exact h.offset_start x hi
    have hno := pairwise_map.mp (q.represents_spansIn d).nodup
    refine pairwise_map.mpr (hno.imp_of_mem fun hf hs hn heq ↦ hn ?_)
    have hp := (Prod.mk.inj heq).2
    rw [← hb _ hf, ← hb _ hs]
    exact congrArg _ hp
  · intro a hf y hs heq
    obtain ⟨_, _, rfl⟩ := mem_map.mp hf
    obtain ⟨_, _, rfl⟩ := mem_map.mp hs
    exact hl.2 (Prod.mk.inj heq).1

end Query

/-- Filters that leave out no occurrence. -/
structure SearchFilter.Full (filter : SearchFilter) : Prop where
  declarations : filter.declarations = true
  uses : filter.uses = true
  otherFiles : filter.otherFiles = true

theorem SearchFilter.full_rename : rename.Full :=
  ⟨rfl, rfl, rfl⟩

theorem SearchFilter.Full.admits (h : filter.Full) (r : Reference) : filter.admits r = true := by
  unfold SearchFilter.admits
  split_ifs
  · exact h.declarations
  · exact h.uses

/-- Without a filter, a match has the name and one of the ids that are searched for. -/
theorem Query.matchesIn_iff (hf : q.filter.Full) {text : List Char}
    (hn : x.value.Names (x.span.textIn text)) (sc : Scope) :
    q.matchesIn text sc x = true ↔ x.span.textIn text = q.name ∧
        (q.resolve x.value sc.path).any (· ∈ q.targets) = true := by
  simp only [matchesIn, hf.admits, hn.symbolIds_ne_nil, Bool.and_true, Bool.and_eq_true,
    decide_eq_true_eq, ne_eq, not_false_eq_true, true_and, decide_true]

namespace Query

variable {q : Query} (ha : d.annotations = Script.annotate d.text)

include ha

theorem faithful_of_annotations : d.annotations.Faithful d.text.toList :=
  ha ▸ Script.faithful_annotate d.text

variable {x : Annotated Reference} (hi : x ∈ d.annotations.references.items)

include hi

theorem mem_spansIn_of_matchesIn (hm : q.matchesIn d.text.toList
      (atOffset d.annotations d.text.toList x.span.start) x = true) :
    x.span ∈ q.spansIn d := by
  have hf := faithful_of_annotations ha
  obtain ⟨e, he, rfl⟩ := (mem_iff_exists_mem_walk d.text.toList top).mp hi
  rw [← eq_atOffset_of_mem_walk hf he] at hm
  exact (q.mem_spansIn_iff hf _).mpr ⟨e, he, hm, rfl⟩

/-- An occurrence starts where an annotation does if the annotation is one. -/
theorem exists_span_iff :
    (∃ span ∈ q.spansIn d, span.start = x.span.start) ↔ q.matchesIn d.text.toList
        (atOffset d.annotations d.text.toList x.span.start) x = true := by
  have hf := faithful_of_annotations ha
  constructor
  · rintro ⟨span, hs, hst⟩
    obtain ⟨e, he, hm, rfl⟩ := (q.mem_spansIn_iff hf span).mp hs
    have hl := mem_of_mem_walk he
    rw [ha] at hi hl
    obtain rfl := Script.eq_of_start_eq_annotate hi hl hst
    rwa [← eq_atOffset_of_mem_walk hf he]
  · exact fun hm ↦ ⟨x.span, mem_spansIn_of_matchesIn ha hi hm, rfl⟩

end Query

/-- An annotation that is found at its start is the symbol there. -/
theorem Document.symbolAt?_start (h : d.annotations.Faithful d.text.toList)
    (hi : x ∈ d.annotations.references.items)
    (hf : d.annotations.references.findAt x.span.start = some x) :
    d.symbolAt? (Position.ofOffset d.text.toList x.span.start) =
      some ⟨x, x.span.textIn d.text.toList,
        (atOffset d.annotations d.text.toList x.span.start).path⟩ := by
  unfold symbolAt?
  dsimp only
  rw [h.offset_start x hi, hf]
  exact if_neg (not_or.mpr ⟨(h.names x hi).symbolIds_ne_nil, h.textIn_ne x hi⟩)

namespace Workspace

theorem findAssets_of_none (h : w.assets = Table.empty) (id : String) : w.findAssets id = [] := by
  unfold findAssets
  rw [h]
  split <;> rfl

end Workspace

namespace Query

/-- The query of a search for a symbol. -/
def forSymbol (c : Context) (bs : Keys String) (filter : SearchFilter) (s : SymbolAt) : Query :=
  ⟨c, bs, filter, s.name, c.resolveReference bs s.item.value filter.interdependent s.scope⟩

/-- What a query finds in all open documents. -/
def result (q : Query) (st : Store) (w : Workspace) : Search where
  occurrences := q.occurrences st
  ids := Keys.ofList q.targets
  assets := Search.assetFiles w (q.occurrences st) (Keys.ofList q.targets).keys

/-- Nothing is found if there are no ids to look for. -/
theorem occurrences_of_targets_nil (h : q.targets = []) (st : Store) : q.occurrences st = [] := by
  refine eq_nil_iff_forall_not_mem.mpr fun o ho ↦ ?_
  have hs := ((q.mem_occurrences_iff st o).mp ho).2
  obtain ⟨e, -, hm, -⟩ := (q.mem_spansFrom_iff _ _ _ _).mp
    ((q.represents_spansIn o.document).mem _ hs)
  simp [matchesIn, h] at hm

end Query

/-- A search of all open documents is the result of the query for the symbol at the position. -/
theorem Search.find_eq (ho : st.get? u = some d) (hs : d.symbolAt? pos = some s)
    (hot : filter.otherFiles = true) (w : Workspace) (p : Option Program) (bs : Keys String) :
    find st w p bs filter u pos =
      (Query.forSymbol ((p.map Program.context).getD Context.empty) bs filter s).result st w := by
  unfold find
  rw [ho]
  dsimp only
  rw [hs]
  dsimp only
  rw [if_pos hot]
  generalize (p.map Program.context).getD Context.empty = c
  split_ifs with ht
  · -- With no ids, the query finds nothing either.
    have hn : (Query.forSymbol c bs filter s).targets = [] := ht
    rw [Query.result, Query.occurrences_of_targets_nil hn, hn]
    rfl
  · rfl

/-- The files among the assets of a result belong to the ids. -/
theorem Query.exists_of_mem_assets {file : Uri} (h : file ∈ (q.result st w).assets) :
    ∃ id ∈ q.targets, file ∈ w.findAssets id := by
  rw [result, Search.assetFiles, mem_filter, Context.mem_distinct, mem_flatMap] at h
  obtain ⟨⟨id, hid, hf⟩, -⟩ := h
  exact ⟨id, Keys.mem_of_mem_ofList hid, hf⟩

/-- Where a search with the usual filter finds a symbol that is no asset. -/
theorem Search.locations_find {p : Program} {bs : Keys String} {targets : List String}
    (ho : st.get? u = some d) (hs : d.symbolAt? pos = some s)
    (ht : p.context.resolveReference bs s.item.value false s.scope = targets)
    (has : w.assets = Table.empty) :
    (find st w (some p) bs {} u pos).locations =
      ((Query.mk p.context bs {} s.name targets).occurrences st).map
        Occurrence.location := by
  subst ht
  have hf : ∀ occurrences ids, assetFiles w occurrences ids = [] := by
    intro occurrences ids
    have hn : ids.flatMap w.findAssets = [] :=
      flatMap_eq_nil_iff.mpr fun id _ ↦ Workspace.findAssets_of_none has id
    rw [assetFiles, hn]
    rfl
  rw [find_eq ho hs rfl, locations, Query.result, hf, map_nil, append_nil]
  rfl

end StoryScript
