import StoryScript.Proofs.Search.Agreement

/-!
Searches that start from the annotations of open documents. At its own start an annotation is the
symbol that the search is for, and it is met in the scope that the search took for it. So one
annotation is reported from another if both have the same text and resolve to a common id
(`Mention.reports_iff`), and neither side of this is set apart.
-/

namespace StoryScript

open List Query Script Table

/-- An annotation of an open document. -/
structure Mention (store : Store) where
  uri : Uri
  document : Document
  item : Annotated Reference
  get?_eq : store.get? uri = some document
  mem_items : item ∈ document.annotations.references.items

namespace Mention

variable {store : Store}

def position (m : Mention store) : Position :=
  Position.ofOffset m.document.text.toList m.item.span.start

/-- The scope that the annotation stands in. -/
def scope (m : Mention store) : Scope :=
  Scope.atOffset m.document.annotations m.document.text.toList m.item.span.start

def symbol (m : Mention store) : SymbolAt :=
  ⟨m.item, m.item.span.textIn m.document.text.toList, m.scope.path⟩

/-- The query of a search for the annotation. -/
def query (m : Mention store) (program : Option Program) (builtins : Keys String)
    (filter : SearchFilter) : Query :=
  forSymbol ((program.map Program.context).getD Context.empty) builtins filter m.symbol

/-- The ids that the annotation resolves to. -/
def ids (m : Mention store) (program : Option Program) (builtins : Keys String)
    (filter : SearchFilter) : List String :=
  (m.query program builtins filter).targets

/-- The search at the start of the annotation. -/
def search (m : Mention store) (workspace : Workspace) (program : Option Program)
    (builtins : Keys String) (filter : SearchFilter) : Search :=
  Search.find store workspace program builtins filter m.uri m.position

end Mention

/-- Whether a search reports the place where an annotation starts. -/
def Search.Reports {store : Store} (s : Search) (m : Mention store) : Prop :=
  ∃ l ∈ s.locations, l.uri = m.uri ∧ l.range.start = m.position

instance {store : Store} (search : Search) (mention : Mention store) :
    Decidable (search.Reports mention) :=
  inferInstanceAs (Decidable (∃ location ∈ search.locations, _))

/-- The files of assets are known as assets. -/
theorem Workspace.contains_of_mem_findAssets {workspace : Workspace} {id : String} {file : Uri}
    (h : file ∈ workspace.findAssets id) : workspace.assets.contains file = true := by
  unfold findAssets at h
  split at h
  · cases h
  · obtain ⟨⟨uri, k⟩, he, rfl⟩ := mem_map.mp h
    exact (contains_iff _ _).mpr ⟨k, (mem_entries_iff _ _ _).mp (mem_filter.mp he).1⟩

section Scanned

variable {store : Store} {workspace : Workspace} {filter : SearchFilter}
  (hscanned : ∀ uri document, store.get? uri = some document →
    document.annotations = annotate document.text)
  (hassets : ∀ uri, store.contains uri = true → workspace.assets.contains uri = false)
  (hfilter : filter.Full) (program : Option Program) (builtins : Keys String)

include hscanned

theorem Mention.symbolAt?_position (m : Mention store) :
    m.document.symbolAt? m.position = some m.symbol := by
  have ha := hscanned _ _ m.get?_eq
  have hf := faithful_of_annotations ha
  refine Document.symbolAt?_start hf m.mem_items ?_
  refine RangeSet.findAt_start hf.sorted m.mem_items ?_ fun o ho hs ↦ ?_
  · rw [hf.stop_eq _ m.mem_items]
    exact Nat.le_add_right _ _
  · have hi := m.mem_items
    rw [ha] at ho hi
    exact eq_of_start_eq_annotate hi ho hs

/-- An occurrence of a query starts where an annotation does if the annotation is one. -/
theorem Query.exists_occurrence_iff (q : Query) (m : Mention store) :
    (∃ o ∈ q.occurrences store, o.uri = m.uri ∧ o.location.range.start = m.position) ↔
      q.matchesIn m.document.text.toList m.scope m.item = true := by
  have ha := hscanned _ _ m.get?_eq
  have hf := faithful_of_annotations ha
  rw [Mention.scope, ← exists_span_iff ha m.mem_items]
  constructor
  · rintro ⟨⟨uri, document, span⟩, ho, rfl, hst⟩
    obtain ⟨hop, hs⟩ := (q.mem_occurrences_iff store _).mp ho
    obtain rfl : m.document = document := Option.some.inj (m.get?_eq.symm.trans hop)
    refine ⟨span, hs, ?_⟩
    -- Positions lead back to the offsets that they were made of.
    obtain ⟨x, hi, rfl⟩ := q.exists_item_of_mem_spansIn hs
    have hb := congrArg (Position.offset m.document.text.toList) hst
    exact (hf.offset_start _ hi).symm.trans (hb.trans (hf.offset_start _ m.mem_items))
  · rintro ⟨span, hs, hst⟩
    refine ⟨⟨m.uri, m.document, span⟩, (q.mem_occurrences_iff store _).mpr ⟨m.get?_eq, hs⟩, rfl, ?_⟩
    exact congrArg (Position.ofOffset m.document.text.toList) hst

include hfilter

theorem Mention.search_eq (m : Mention store) :
    m.search workspace program builtins filter =
      (m.query program builtins filter).result store workspace :=
  Search.find_eq m.get?_eq (m.symbolAt?_position hscanned) hfilter.otherFiles _ _ _

include hassets

/-- One annotation is reported from another if they have the same text and a common id. -/
theorem Mention.reports_iff (x y : Mention store) :
    (x.search workspace program builtins filter).Reports y ↔ y.symbol.name = x.symbol.name ∧
        ∃ id ∈ y.ids program builtins filter, id ∈ x.ids program builtins filter := by
  have hn := (faithful_of_annotations (hscanned _ _ y.get?_eq)).names _ y.mem_items
  have hm := matchesIn_iff
    (show (x.query program builtins filter).filter.Full from hfilter) hn y.scope
  rw [any_eq_true] at hm
  simp only [decide_eq_true_eq] at hm
  refine Iff.trans ?_ ((exists_occurrence_iff hscanned _ y).trans hm)
  rw [x.search_eq hscanned hfilter]
  constructor
  · rintro ⟨l, hl, hu, hs⟩
    rcases mem_append.mp hl with hl | hl
    · obtain ⟨o, ho, rfl⟩ := mem_map.mp hl
      exact ⟨o, ho, hu, hs⟩
    · -- The other locations are those of assets, none of which is open.
      obtain ⟨file, hf, rfl⟩ := mem_map.mp hl
      obtain ⟨id, -, hf⟩ := exists_of_mem_assets hf
      have hk := Workspace.contains_of_mem_findAssets hf
      rw [hassets file ((contains_iff _ _).mpr ⟨_, hu ▸ y.get?_eq⟩)] at hk
      cases hk
  · rintro ⟨o, ho, hu, hs⟩
    exact ⟨o.location, mem_append_left _ (mem_map_of_mem ho), hu, hs⟩

end Scanned

/-- The searches from the annotations of open documents, by a filter that leaves out none of them.
An annotation that resolves to an id is reported from itself; if it is reported from another one,
the other one is reported from it; and if in addition each resolves to one id only, both searches
give the same result. -/
theorem Mention.search_symmetric {store : Store} {workspace : Workspace} {filter : SearchFilter}
    (hscanned : ∀ uri document, store.get? uri = some document →
      document.annotations = Script.annotate document.text)
    (hassets : ∀ uri, store.contains uri = true → workspace.assets.contains uri = false)
    (hfilter : filter.Full) (program : Option Program) (builtins : Keys String) :
    (∀ mention : Mention store, mention.ids program builtins filter ≠ [] →
      (mention.search workspace program builtins filter).Reports mention) ∧
    (∀ first second : Mention store,
      (first.search workspace program builtins filter).Reports second ↔
        (second.search workspace program builtins filter).Reports first) ∧
    ∀ first second : Mention store, (first.ids program builtins filter).length = 1 →
      (second.ids program builtins filter).length = 1 →
      (first.search workspace program builtins filter).Reports second →
        first.search workspace program builtins filter =
          second.search workspace program builtins filter := by
  refine ⟨fun mention hids ↦ ?_, fun first second ↦ ?_, fun first second hfirst hsecond h ↦ ?_⟩
  · obtain ⟨id, hid⟩ := exists_mem_of_ne_nil _ hids
    exact (reports_iff hscanned hassets hfilter program builtins _ _).mpr ⟨rfl, id, hid, hid⟩
  · rw [reports_iff hscanned hassets hfilter, reports_iff hscanned hassets hfilter, eq_comm]
    exact and_congr_right fun _ ↦
      ⟨fun ⟨id, hid, hid'⟩ ↦ ⟨id, hid', hid⟩, fun ⟨id, hid, hid'⟩ ↦ ⟨id, hid', hid⟩⟩
  · obtain ⟨hname, id, hid', hid⟩ :=
      (reports_iff hscanned hassets hfilter program builtins _ _).mp h
    obtain ⟨target, htarget⟩ := length_eq_one_iff.mp hfirst
    obtain ⟨target', htarget'⟩ := length_eq_one_iff.mp hsecond
    -- The common id is the only one on either side, so both queries are the same.
    rw [htarget, mem_singleton] at hid
    rw [htarget', mem_singleton] at hid'
    have hids : first.ids program builtins filter = second.ids program builtins filter := by
      rw [htarget, htarget', ← hid, ← hid']
    have hquery : first.query program builtins filter = second.query program builtins filter :=
      congrArg₂ (Query.mk _ builtins filter) hname.symm hids
    rw [first.search_eq hscanned hfilter, second.search_eq hscanned hfilter, hquery]

namespace Search

/-- The knot of the story in three scripts. -/
def shopKnot : Mention storyStore where
  uri := shopUri
  document :=
    { version := 1, text := "INCLUDE street.ink\n== shop\n"
      annotations := annotate "INCLUDE street.ink\n== shop\n" }
  item := ⟨⟨22, 26⟩, Reference.ofDeclaration .knot "shop"⟩
  get?_eq := by decide +kernel
  mem_items := by decide +kernel

/-- A divert to the knot, in a script that does not include it. -/
def streetDivert : Mention storyStore where
  uri := streetUri
  document := { version := 1, text := "-> shop\n", annotations := annotate "-> shop\n" }
  item := ⟨⟨3, 7⟩, Reference.ofUse .divert "shop"⟩
  get?_eq := by decide +kernel
  mem_items := by decide +kernel

/-- A workspace with a picture that bears the name of the knot. -/
def shopWorkspace : Workspace :=
  { extensions := ["ink"], assets := empty.insert ⟨"file:///shop.png"⟩ .image }

theorem search_symmetric_of_shop :
    shopKnot.ids (some storyProgram) empty .rename = ["shop"] ∧
      (shopKnot.search shopWorkspace (some storyProgram) empty .rename).Reports shopKnot ∧
      (shopKnot.search shopWorkspace (some storyProgram) empty .rename).Reports streetDivert ∧
      (streetDivert.search shopWorkspace (some storyProgram) empty .rename).Reports shopKnot ∧
      shopKnot.search shopWorkspace (some storyProgram) empty .rename =
        streetDivert.search shopWorkspace (some storyProgram) empty .rename := by
  have hscanned : ∀ uri document, storyStore.get? uri = some document →
      document.annotations = Script.annotate document.text := by
    have hentries : ∀ entry ∈ storyStore.documents.entries,
        entry.2.annotations = Script.annotate entry.2.text := by decide +kernel
    exact fun uri document h ↦ hentries (uri, document) ((mem_entries_iff _ _ _).mpr h)
  have hassets : ∀ uri, storyStore.contains uri = true →
      shopWorkspace.assets.contains uri = false := by
    have hkeys : ∀ uri ∈ storyStore.documents.keys,
        shopWorkspace.assets.contains uri = false := by decide +kernel
    exact fun uri h ↦ hkeys uri ((mem_keys_iff _ _).mpr ((contains_iff _ _).mp h))
  obtain ⟨hself, hsymm, hsame⟩ := Mention.search_symmetric hscanned hassets
    SearchFilter.full_rename (some storyProgram) empty
  have hids : shopKnot.ids (some storyProgram) empty .rename = ["shop"] := by decide +kernel
  have hids' : streetDivert.ids (some storyProgram) empty .rename = ["shop"] := by
    decide +kernel
  have hreports : (shopKnot.search shopWorkspace (some storyProgram) empty .rename).Reports
      streetDivert :=
    (Mention.reports_iff hscanned hassets SearchFilter.full_rename _ _ _ _).mpr
      ⟨by decide +kernel, "shop", hids' ▸ mem_singleton.mpr rfl, hids ▸ mem_singleton.mpr rfl⟩
  exact ⟨hids, hself _ (hids ▸ cons_ne_nil _ _), hreports, (hsymm _ _).mp hreports,
    hsame _ _ (hids ▸ rfl) (hids' ▸ rfl) hreports⟩

end Search

end StoryScript
