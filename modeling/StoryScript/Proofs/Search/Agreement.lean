import StoryScript.Proofs.Search.Occurrences

/-!
A search agrees with the program whose symbols it looks up. Both walk over the annotations of each
script and resolve them in the scope they stand in. The search passes over annotations of another
text than the symbol's; but whatever resolves to an id covers its last segment, so that none of the
recorded uses is passed over.
-/

namespace StoryScript

open List Program Query Reference Scope Script Table

variable {item : Annotated Reference}

def Occurrence.site (o : Occurrence) : Site :=
  ⟨o.uri.text, o.span⟩

namespace Store

/-- A store whose open documents are the scripts of a program: they have the texts that were
compiled, and the annotations of these texts. -/
structure Mirrors (store : Store) (load : Loader) (ann : Annotator) (program : Program) :
    Prop where
  contains_eq : ∀ uri, store.contains uri = program.covers uri
  text_eq : ∀ uri document, store.get? uri = some document →
    (load uri).map Source.text = some document.text
  annotations_eq : ∀ uri document, store.get? uri = some document →
    document.annotations = ann document.text

/-- The declarations of an id in the open documents. -/
def declarationsOf (store : Store) (id : String) : List (Uri × Annotated Reference) :=
  store.documents.entries.flatMap fun (uri, document) ↦
    (document.annotations.references.items.filter fun item ↦
      item.value.isDeclaration && id ∈ item.value.symbolIds).map (uri, ·)

/-- The location of a site in the open documents. -/
def locate? (store : Store) (site : Site) : Option Location :=
  (store.get? ⟨site.uri⟩).map fun document ↦
    ⟨⟨site.uri⟩, Range.ofSpan document.text.toList site.span⟩

/-- The locations are those of the sites, in any order, and no two of them start at one position of
a document. -/
def Locates (store : Store) (sites : List Site) (locations : List Location) : Prop :=
  (locations.map some).Perm (sites.map store.locate?) ∧
    (locations.map fun l ↦ (l.uri, l.range.start)).Nodup

theorem mem_declarationsOf_iff (store : Store) (id : String) (uri : Uri)
    (item : Annotated Reference) :
    (uri, item) ∈ store.declarationsOf id ↔ ∃ document, store.get? uri = some document ∧
      item ∈ document.annotations.references.items ∧ item.value.isDeclaration = true ∧
      id ∈ item.value.symbolIds := by
  simp only [declarationsOf, mem_flatMap, mem_map, mem_filter, Bool.and_eq_true, decide_eq_true_eq]
  constructor
  · rintro ⟨⟨listed, document⟩, he, o, ho, heq⟩
    obtain ⟨rfl, rfl⟩ := Prod.mk.inj heq
    exact ⟨document, (mem_entries_iff _ _ _).mp he, ho⟩
  · rintro ⟨document, hopen, hi⟩
    exact ⟨(uri, document), (mem_entries_iff _ _ _).mpr hopen, item, hi, rfl⟩

/-- Whether a store mirrors a program can be told from the entries of its table. -/
theorem mirrors_of_entries {store : Store} {load : Loader} {ann : Annotator}
    {p : Program} (hk : store.documents.keys = p.scripts.keys)
    (he : ∀ e ∈ store.documents.entries, (load e.1).map Source.text = some e.2.text ∧
        e.2.annotations = ann e.2.text) :
    store.Mirrors load ann p := by
  refine ⟨fun uri ↦ ?_, fun uri document hopen ↦ ?_, fun uri document hopen ↦ ?_⟩
  · rw [Bool.eq_iff_iff, contains, Program.covers, Table.contains_iff, Table.contains_iff,
      ← Table.mem_keys_iff, ← Table.mem_keys_iff, hk]
  · exact (he _ ((Table.mem_entries_iff _ _ _).mpr hopen)).1
  · exact (he _ ((Table.mem_entries_iff _ _ _).mpr hopen)).2

namespace Locates

variable {store : Store} {sites : List Site} {locations : List Location}

theorem perm (h : store.Locates sites locations) {os : List Site} (hp : sites.Perm os) :
    store.Locates os locations :=
  ⟨h.1.trans (hp.map _), h.2⟩

theorem length_eq (h : store.Locates sites locations) : locations.length = sites.length := by
  simpa using h.1.length_eq

theorem nodup (h : store.Locates sites locations) : sites.Nodup := by
  have hs := Nodup.map (fun _ _ heq ↦ Option.some.inj heq) h.2
  have hm : (locations.map fun l ↦ (l.uri, l.range.start)).map some =
      (locations.map some).map (Option.map fun l ↦ (l.uri, l.range.start)) := by
    rw [map_map, map_map]
    rfl
  rw [hm, (h.1.map _).nodup_iff] at hs
  exact hs.of_map.of_map

end Locates

namespace Mirrors

variable {store : Store} {load : Loader} {ann : Annotator} {builtins : Keys String} {root : Uri}
  {collected : Program.Collected}
  (h : store.Mirrors load ann (ofScripts builtins root collected))
  (hcollected : collectFrom? load ann root = some collected) {document : Document}
  {uri : Uri} {s : Program.Script} {k : SymbolKind} {id : String}

include h hcollected

/-- A script and the open document of its uri have the same text and the same annotations. -/
theorem script_eq (hs : s ∈ collected.scripts) (hopen : store.get? s.uri = some document) :
    s.text = document.text ∧ s.annotations = document.annotations := by
  have hl := load?_of_mem_collectFrom? hcollected hs
  obtain ⟨src, hsr, heq⟩ := Option.map_eq_some_iff.mp hl
  have ht := h.text_eq _ document hopen
  rw [hsr, Option.map_some, Option.some.injEq] at ht
  rw [h.annotations_eq _ document hopen, ← heq, ← ht]
  exact ⟨rfl, rfl⟩

theorem exists_script (hopen : store.get? uri = some document) :
    ∃ s ∈ collected.scripts, s.uri = uri ∧ s.text = document.text ∧
      s.annotations = document.annotations := by
  have hc : store.contains uri = true := by
    rw [contains_eq_isSome, hopen]
    rfl
  rw [h.contains_eq, covers_ofScripts_iff] at hc
  obtain ⟨s, hs, rfl⟩ := hc
  exact ⟨s, hs, rfl, h.script_eq hcollected hs hopen⟩

theorem exists_document (hs : s ∈ collected.scripts) :
    ∃ document, store.get? s.uri = some document ∧ s.text = document.text ∧
      s.annotations = document.annotations := by
  have hc := h.contains_eq s.uri
  rw [(covers_ofScripts_iff builtins root collected s.uri).mpr ⟨s, hs, rfl⟩,
    contains_eq_isSome, Option.isSome_iff_exists] at hc
  obtain ⟨document, hopen⟩ := hc
  exact ⟨document, hopen, h.script_eq hcollected hs hopen⟩

omit hcollected in
theorem faithful (ha : ann = Script.annotate) : store.Faithful := by
  intro uri document hopen
  rw [h.annotations_eq uri document hopen, ha]
  exact Script.faithful_annotate document.text

/-- The recorded uses of a declared id, in terms of the open documents. -/
theorem mem_sitesOf_iff (hopen : store.get? uri = some document)
    (hi : item ∈ document.annotations.references.items)
    (hv : item.value = ofDeclaration k id) (site : Site) :
    site ∈ (ofScripts builtins root collected).context.sitesOf id ↔
      ∃ uri document, store.get? uri = some document ∧
        ∃ e ∈ walk document.text.toList top document.annotations.references.items,
          e.2.value.isDeclaration = false ∧
          id ∈ (ofScripts builtins root collected).context.resolveReference builtins
            e.2.value false e.1.path ∧
          site = ⟨uri.text, e.2.span⟩ := by
  obtain ⟨s, hs, -, -, ha⟩ := h.exists_script hcollected hopen
  have hd := exists_declared hs (ha ▸ hi) hv
  rw [mem_sitesOf_ofScripts builtins root collected hd]
  constructor
  · rintro ⟨s, hs, he⟩
    obtain ⟨document, hopen, ht, ha⟩ := h.exists_document hcollected hs
    rw [ht, ha] at he
    exact ⟨s.uri, document, hopen, he⟩
  · rintro ⟨uri, document, hopen, he⟩
    obtain ⟨s, hs, rfl, ht, ha⟩ := h.exists_script hcollected hopen
    rw [← ht, ← ha] at he
    exact ⟨s, hs, he⟩

/-- A declaration is none of the uses of its id. -/
theorem nodup_sites (hfaithful : store.Faithful) (hopen : store.get? uri = some document)
    (hi : item ∈ document.annotations.references.items)
    (hv : item.value = ofDeclaration k id) :
    (⟨uri.text, item.span⟩ :: (ofScripts builtins root collected).context.sitesOf id).Nodup := by
  refine nodup_cons.mpr ⟨fun hus ↦ ?_, Context.nodup_distinct _⟩
  obtain ⟨o, document', ho', e, he, hu, -, heq⟩ :=
    (h.mem_sitesOf_iff hcollected hopen hi hv _).mp hus
  obtain ⟨hur, hsp⟩ := Site.mk.inj heq
  obtain rfl : uri = o := Uri.ext hur
  obtain rfl : document = document' := Option.some.inj (hopen.symm.trans ho')
  have hs := (hfaithful uri document hopen).apart.eq_of_start_eq hi
    (mem_of_mem_walk he) (by rw [hv]; rfl) (by rw [hsp])
  rw [hs, hv] at hu
  cases hu

end Mirrors

end Store

/-- What a search reports are the locations of its occurrences. -/
theorem Query.locates_occurrences {store : Store} (hfaithful : store.Faithful) (q : Query) :
    store.Locates ((q.occurrences store).map Occurrence.site)
      ((q.occurrences store).map Occurrence.location) := by
  constructor
  · rw [map_map, map_map]
    refine Perm.of_eq (map_congr_left fun o ho ↦ ?_)
    obtain ⟨hopen, -⟩ := (q.mem_occurrences_iff store o).mp ho
    exact (congrArg (Option.map fun document ↦ (⟨o.uri,
      Range.ofSpan document.text.toList o.span⟩ : Location)) hopen).symm
  · rw [map_map]
    exact q.nodup_starts hfaithful

/-- An annotation of the right text that resolves to the id in question is an occurrence. -/
theorem Query.matchesIn_singleton_iff {c : Context} {builtins : Keys String}
    {w id : String} {t : List Char} {sc : Scope}
    (hn : item.value.Names (item.span.textIn t)) :
    (mk c builtins {} w [id]).matchesIn t sc item = true ↔ item.span.textIn t = w ∧
        id ∈ c.resolveReference builtins item.value false sc.path := by
  rw [matchesIn_iff ⟨rfl, rfl, rfl⟩ hn]
  simp [resolve]

section Once

variable {store : Store} (hfaithful : store.Faithful) {id : String} {uri : Uri}
  {document : Document} {item : Annotated Reference} (hopen : store.get? uri = some document)

include hfaithful hopen

theorem exists_ofDeclaration (h : (uri, item) ∈ store.declarationsOf id) :
    item ∈ document.annotations.references.items ∧
      ∃ k, item.value = ofDeclaration k id ∧ Path.Plain id ∧
        Path.last id = Path.last (item.span.textIn document.text.toList) := by
  obtain ⟨o, ho, hi, hd, hid⟩ := (store.mem_declarationsOf_iff id uri item).mp h
  obtain rfl : document = o := Option.some.inj (hopen.symm.trans ho)
  obtain ⟨k, d, hv, hp, hl⟩ :=
    ((hfaithful uri document hopen).names item hi).exists_declaration hd
  obtain rfl : id = d := by simpa [hv, ofDeclaration] using hid
  exact ⟨hi, k, hv, hp, hl⟩

/-- The occurrences of an id that is declared once: the declaration, and all uses that resolve to
the id, whatever is known of other symbols. -/
theorem mem_sites_iff (ho : store.declarationsOf id = [(uri, item)])
    (hd : '.' ∉ (item.span.textIn document.text.toList).toList) (c : Context)
    (builtins : Keys String) (site : Site) :
    site ∈ ((mk c builtins {} (item.span.textIn document.text.toList)
        [id]).occurrences store).map Occurrence.site ↔
      site = ⟨uri.text, item.span⟩ ∨ ∃ uri document, store.get? uri = some document ∧
        ∃ e ∈ walk document.text.toList top document.annotations.references.items,
          e.2.value.isDeclaration = false ∧
          id ∈ c.resolveReference builtins e.2.value false e.1.path ∧
          site = ⟨uri.text, e.2.span⟩ := by
  obtain ⟨hi, k, hv, hp, hla⟩ :=
    exists_ofDeclaration hfaithful hopen (ho ▸ mem_singleton.mpr rfl)
  rw [Path.last_of_dotless hd] at hla
  simp only [mem_map, mem_occurrences_iff]
  constructor
  · rintro ⟨⟨uri', document', span⟩, ⟨ho', hs⟩, rfl⟩
    have hf' := hfaithful uri' document' ho'
    obtain ⟨e, he, hm, rfl⟩ := (mem_spansIn_iff _ hf' span).mp hs
    have hn := hf'.names e.2 (mem_of_mem_walk he)
    obtain ⟨-, hr⟩ := (matchesIn_singleton_iff hn).mp hm
    cases hu : e.2.value.isDeclaration with
    | false => exact .inr ⟨uri', document', ho', e, he, hu, hr, rfl⟩
    | true =>
      obtain ⟨k', d, hv', hp', -⟩ := hn.exists_declaration hu
      rw [hv', c.resolveReference_ofDeclaration builtins hp'] at hr
      have hl : (uri', e.2) ∈ store.declarationsOf id := by
        refine (store.mem_declarationsOf_iff id uri' e.2).mpr
          ⟨document', ho', mem_of_mem_walk he, hu, ?_⟩
        rwa [hv']
      rw [ho, mem_singleton, Prod.mk.injEq] at hl
      rw [hl.1, hl.2]
      exact .inl rfl
  · rintro (rfl | ⟨uri', document', ho', e, he, hu, hr, rfl⟩)
    · obtain ⟨e, he, rfl⟩ :=
        (mem_iff_exists_mem_walk document.text.toList top).mp hi
      have hf' := hfaithful uri document hopen
      refine ⟨⟨uri, document, e.2.span⟩, ⟨hopen, ?_⟩, rfl⟩
      refine (mem_spansIn_iff _ hf' _).mpr ⟨e, he, ?_, rfl⟩
      refine (matchesIn_singleton_iff (hf'.names e.2 hi)).mpr ⟨rfl, ?_⟩
      rw [hv, c.resolveReference_ofDeclaration builtins hp]
      exact mem_singleton.mpr rfl
    · have hf' := hfaithful uri' document' ho'
      have hn := hf'.names e.2 (mem_of_mem_walk he)
      have hw := c.last_of_mem_resolveReference builtins hn hu hr
      refine ⟨⟨uri', document', e.2.span⟩, ⟨ho', ?_⟩, rfl⟩
      refine (mem_spansIn_iff _ hf' _).mpr ⟨e, he, ?_, rfl⟩
      exact (matchesIn_singleton_iff hn).mpr ⟨hw.symm.trans hla, hr⟩

/-- What a search at a declaration reports. -/
theorem locations_find_declaration {w : Workspace}
    (ha : w.assets = empty) (h : (uri, item) ∈ store.declarationsOf id)
    (p : Program) (builtins : Keys String) :
    (Search.find store w (some p) builtins {} uri
        (Position.ofOffset document.text.toList item.span.start)).locations =
      ((mk p.context builtins {} (item.span.textIn document.text.toList)
        [id]).occurrences store).map Occurrence.location := by
  obtain ⟨hi, k, hv, hp, -⟩ := exists_ofDeclaration hfaithful hopen h
  have hfaithful := hfaithful uri document hopen
  have hf := hfaithful.findAt_start hi (by rw [hv]; rfl)
  refine Search.locations_find hopen (Document.symbolAt?_start hfaithful hi hf) ?_ ha
  rw [hv]
  exact p.context.resolveReference_ofDeclaration builtins hp false _

end Once

/-- An id that is declared once, by a text without dots: at its declaration, the search finds the
declaration and the uses that the program recorded, each of them once. -/
theorem Search.locates_declaration_and_uses {load : Loader} {builtins : Keys String} {root : Uri}
    {program : Program} {store : Store} {workspace : Workspace} {id : String} {uri : Uri}
    {document : Document} {item : Annotated Reference}
    (hassets : workspace.assets = empty)
    (hbuild : build? annotate builtins load root = some program)
    (hstore : store.Mirrors load annotate program) (hopen : store.get? uri = some document)
    (honce : store.declarationsOf id = [(uri, item)])
    (hdotless : '.' ∉ (item.span.textIn document.text.toList).toList) :
    store.Locates (⟨uri.text, item.span⟩ :: program.context.sitesOf id)
        (find store workspace (some program) builtins {} uri
          (Position.ofOffset document.text.toList item.span.start)).locations ∧
      (find store workspace (some program) builtins {} uri
          (Position.ofOffset document.text.toList item.span.start)).locations.length =
        (program.context.sitesOf id).length + 1 := by
  obtain ⟨collected, hcollected, rfl⟩ := Option.map_eq_some_iff.mp hbuild
  have hfaithful := hstore.faithful rfl
  have hlisted : (uri, item) ∈ store.declarationsOf id := honce ▸ mem_singleton.mpr rfl
  obtain ⟨hitem, kind, hvalue, -, -⟩ := exists_ofDeclaration hfaithful hopen hlisted
  have huses := hstore.mem_sitesOf_iff hcollected hopen hitem hvalue
  rw [locations_find_declaration hfaithful hopen hassets hlisted]
  have hlocates := locates_occurrences hfaithful
    ⟨(ofScripts builtins root collected).context, builtins, {},
      item.span.textIn document.text.toList, [id]⟩
  have hnodup := hstore.nodup_sites hcollected hfaithful hopen hitem hvalue
  have hperm := (perm_ext_iff_of_nodup hlocates.nodup hnodup).mpr fun site ↦ by
    rw [mem_sites_iff hfaithful hopen honce hdotless, ← huses, mem_cons]
  exact ⟨hlocates.perm hperm, (hlocates.perm hperm).length_eq⟩

namespace Search

def storyUri : Uri := ⟨"file:///story.ink"⟩

def shopUri : Uri := ⟨"file:///shop.ink"⟩

def streetUri : Uri := ⟨"file:///street.ink"⟩

/-- A story in three scripts. The knot of the second one is used in the two others. -/
def storyTexts : List (Uri × String) :=
  [(storyUri, "INCLUDE shop.ink\n-> shop\n"), (shopUri, "INCLUDE street.ink\n== shop\n"),
    (streetUri, "-> shop\n")]

def storyLoader : Loader := fun uri ↦ (storyTexts.find? fun e ↦ e.1 = uri).map fun e ↦ ⟨1, e.2⟩

def storyStore : Store :=
  storyTexts.foldl (fun store e ↦ (store.open? e.1 1 e.2).2) ⟨Script.annotate, 1000, empty, {}⟩

def storyProgram : Program :=
  (build? annotate empty storyLoader storyUri).getD {}

theorem locates_declaration_and_uses_of_shop :
    build? annotate empty storyLoader storyUri = some storyProgram ∧
      storyStore.Mirrors storyLoader annotate storyProgram ∧
      storyStore.declarationsOf "shop" =
        [(shopUri, ⟨⟨22, 26⟩, ofDeclaration .knot "shop"⟩)] ∧
      storyProgram.context.sitesOf "shop" =
        [⟨storyUri.text, ⟨20, 24⟩⟩, ⟨streetUri.text, ⟨3, 7⟩⟩] ∧
      storyStore.Locates (⟨shopUri.text, ⟨22, 26⟩⟩ :: storyProgram.context.sitesOf "shop")
        (find storyStore { extensions := ["ink"] } (some storyProgram) empty {} shopUri
          ⟨1, 3⟩).locations ∧
      (find storyStore { extensions := ["ink"] } (some storyProgram) empty {} shopUri
        ⟨1, 3⟩).locations.length = 3 := by
  have hbuild : build? annotate empty storyLoader storyUri = some storyProgram := by decide +kernel
  have hstore : storyStore.Mirrors storyLoader annotate storyProgram :=
    Store.mirrors_of_entries (by decide +kernel) (by decide +kernel)
  have honce : storyStore.declarationsOf "shop" =
      [(shopUri, ⟨⟨22, 26⟩, ofDeclaration .knot "shop"⟩)] := by decide +kernel
  have hsites : storyProgram.context.sitesOf "shop" =
      [⟨storyUri.text, ⟨20, 24⟩⟩, ⟨streetUri.text, ⟨3, 7⟩⟩] := by decide +kernel
  have hopen : storyStore.get? shopUri = some
      { version := 1, text := "INCLUDE street.ink\n== shop\n"
        annotations := annotate "INCLUDE street.ink\n== shop\n" } := by decide +kernel
  have hposition : Position.ofOffset "INCLUDE street.ink\n== shop\n".toList 22 = ⟨1, 3⟩ := by
    decide +kernel
  obtain ⟨hlocates, hlength⟩ := locates_declaration_and_uses
    (show ({ extensions := ["ink"] } : Workspace).assets = empty from rfl) hbuild hstore hopen
    honce (by decide +kernel)
  rw [hposition] at hlocates hlength
  rw [hsites] at hlength
  exact ⟨hbuild, hstore, honce, hsites, hlocates, hlength⟩

end Search

end StoryScript
