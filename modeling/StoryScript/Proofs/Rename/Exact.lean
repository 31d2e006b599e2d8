import StoryScript.Proofs.Rename.Edits
import StoryScript.Proofs.Story

/-!
The edits of a rename, as the editor carries them out: change by change, from the last one to the
first, each by its two positions in the text that the changes behind it have left. They replace just
the places where the symbol was found (`Rename.at?_exact`).
-/

namespace StoryScript

open List Script Table Text

/-- A text from an offset on, with new text in place of spans that follow each other. -/
def Text.replaceFrom (t new : List Char) : Nat → List Span → List Char
  | start, [] => after t start
  | start, span :: l =>
    (slice? t start span.start).getD [] ++ (new ++ replaceFrom t new span.stop l)

/-- The replacements of an edit, from the last one to the first. -/
def DocumentEdit.changes (edit : DocumentEdit) : List Change :=
  edit.ranges.reverse.map fun range ↦ ⟨some range, none, edit.text⟩

/-- A text has a word at a span. -/
def Script.HasWord (t w : List Char) (span : Span) : Prop :=
  ∃ x l, t = x ++ (w ++ l) ∧ span = ⟨byteLength x, byteLength x + byteLength w⟩

section Apply

variable {t w : List Char} (hn : w ≠ []) (hp : ∀ c ∈ w, c ≠ '\r' ∧ c ≠ '\n')

include hn hp

/-- The replacement of one word, in a text of which only the part behind the word has changed. -/
theorem Change.apply_word (x l ch : List Char) (length : Option Nat) (new : String) :
    apply (x ++ (w ++ ch)) ⟨some (Range.ofSpan (x ++ (w ++ l))
        ⟨byteLength x, byteLength x + byteLength w⟩), length, new⟩ =
      x ++ (new.toList ++ ch) := by
  obtain ⟨hs, hst⟩ := Prod.mk.inj (Position.offset_word hn hp x ch)
  have hl := Nat.le_add_right (byteLength x) (byteLength w)
  rw [apply, Position.ofSpan_word hn hp]
  simp only [hs, hst, min_eq_left hl, max_eq_right hl, replace_append]

/-- The changes behind a word leave it where it is, so that all words can be replaced from the last
one to the first. -/
theorem Change.foldr_apply {spans : List Span} (hw : ∀ span ∈ spans, HasWord t w span)
    (hap : spans.Pairwise fun x y ↦ x.stop ≤ y.start) (new : String)
    {o r : List Char} (ht : t = o ++ r)
    (ho : ∀ span ∈ spans, byteLength o ≤ span.start) :
    spans.foldr (fun span edited ↦ apply edited ⟨some (Range.ofSpan t span), none, new⟩) t =
      o ++ replaceFrom t new.toList (byteLength o) spans := by
  induction spans generalizing o r with
  | nil => rw [replaceFrom, ht, after_append, foldr_nil]
  | cons span spans ih =>
    obtain ⟨⟨x, l, hf, rfl⟩, hs⟩ := forall_mem_cons.mp hw
    obtain ⟨hl, hr⟩ := pairwise_cons.mp hap
    obtain ⟨k, rfl, rfl⟩ := exists_append_of_le _ (ht.symm.trans hf) (ho _ mem_cons_self)
    have he := @ih hs hr (o ++ k ++ w) l (by rw [hf, append_assoc (o ++ k)])
      (by rwa [byteLength_append (o ++ k)])
    have hk : slice? t (byteLength o) (byteLength (o ++ k)) = some k := by
      rw [byteLength_append, ht]
      exact slice?_append o k (w ++ l)
    rw [append_assoc (o ++ k), byteLength_append (o ++ k)] at he
    rw [foldr_cons, he, hf, Change.apply_word hn hp, ← hf, replaceFrom, hk, append_assoc]
    rfl

end Apply

/-- What makes the edit of a document exact: its ranges denote spans of the old name, one behind the
other, and carrying it out replaces just these. -/
structure DocumentEdit.Exact (edit : DocumentEdit) (document : Document) (spans : List Span)
    (old new : String) : Prop where
  version : edit.version = some document.version
  denotes : (edit.ranges.map fun range ↦ (⟨range.start.offset document.text.toList,
    range.stop.offset document.text.toList⟩ : Span)) = spans
  apart : spans.Pairwise fun first second ↦ first.stop ≤ second.start
  spells : ∀ span ∈ spans, span.textIn document.text.toList = old
  nonempty : ∀ span ∈ spans, span.start < span.stop
  applied : Change.applyAll document.text.toList edit.changes =
    replaceFrom document.text.toList new.toList 0 spans

namespace Query

variable (query : Query) {document : Document}
  (ha : document.annotations = annotate document.text)

include ha

/-- The occurrences of a document are words that spell the name. -/
theorem hasWord_of_mem_spansIn {span : Span} (h : span ∈ query.spansIn document) :
    HasWord document.text.toList query.name.toList span ∧ query.name.toList ≠ [] ∧
      ∀ c ∈ query.name.toList, c ≠ '\r' ∧ c ≠ '\n' := by
  obtain ⟨e, he, hm, rfl⟩ := (query.mem_spansIn_iff (faithful_of_annotations ha) span).mp h
  have hi := Scope.mem_of_mem_walk he
  rw [ha] at hi
  obtain ⟨x, w, l, ht, hs, hn, hch, -⟩ := ((read_annotate document.text).marks _ hi).exists_word
  have hna : query.name = String.ofList w := by
    simp only [matchesIn, Bool.and_eq_true, decide_eq_true_eq] at hm
    rw [← hm.1.2, ht, hs, Span.textIn_append]
  rw [hna, String.toList_ofList]
  refine ⟨⟨x, l, ht, hs⟩, hn, fun c hc ↦ ⟨?_, (ne_of_isWordChar (hch c hc)).2.1⟩⟩
  rintro rfl
  exact absurd (hch _ hc) (by decide)

theorem apart_spansIn : (query.spansIn document).Pairwise fun x y ↦ x.stop ≤ y.start := by
  refine (query.rising_spansIn (faithful_of_annotations ha)).imp_of_mem ?_
  intro x y hf hs hl
  obtain ⟨i, hi, rfl⟩ := query.exists_item_of_mem_spansIn hf
  obtain ⟨o, ho, rfl⟩ := query.exists_item_of_mem_spansIn hs
  rw [ha] at hi ho
  obtain hst | rfl := stop_le_or_eq_of_mem_annotate hi ho hl.le
  · exact hst
  · exact absurd hl (Nat.lt_irrefl _)

/-- The edit of a document by the ranges of its occurrences. -/
theorem exact_spansIn (uri : Uri) (new : String) :
    DocumentEdit.Exact ⟨uri, some document.version,
        (query.spansIn document).map (Range.ofSpan document.text.toList), new⟩
      document (query.spansIn document) query.name new := by
  have hap := apart_spansIn query ha
  have hw : ∀ span ∈ query.spansIn document, _ :=
    fun span hs ↦ hasWord_of_mem_spansIn query ha hs
  refine ⟨rfl, ?_, hap, fun span hs ↦ ?_, fun span hs ↦ ?_, ?_⟩
  · rw [map_map]
    refine (map_congr_left fun span hs ↦ ?_).trans (map_id _)
    obtain ⟨⟨x, l, ht, rfl⟩, hn, hp⟩ := hw span hs
    obtain ⟨hst, hsto⟩ := Prod.mk.inj (Position.offset_word hn hp x l)
    rw [Function.comp_apply, ht, Position.ofSpan_word hn hp, hst, hsto, id]
  · obtain ⟨⟨x, l, ht, rfl⟩, -⟩ := hw span hs
    rw [ht, Span.textIn_append, String.ofList_toList]
  · obtain ⟨⟨x, l, ht, rfl⟩, hn, -⟩ := hw span hs
    exact Nat.lt_add_of_pos_right (byteLength_pos hn)
  · rw [Change.applyAll, DocumentEdit.changes, map_reverse, foldl_reverse, foldr_map, foldr_map]
    cases hsp : query.spansIn document with
    | nil => exact (after_append [] _).symm
    | cons span l =>
      obtain ⟨-, hn, hp⟩ := hw span (hsp ▸ mem_cons_self)
      rw [← hsp]
      exact Change.foldr_apply hn hp (fun span hs ↦ (hw span hs).1) hap new
        (nil_append _).symm fun _ _ ↦ Nat.zero_le _

end Query

namespace Rename

section Documents

variable (store : Store) (search : Search) (new : String)

/-- Each document with ranges to replace has one edit, with all its ranges. -/
theorem mem_documentEdits (edit : DocumentEdit) :
    edit ∈ documentEdits store search new ↔ rangesOf search edit.uri ≠ [] ∧
      edit = ⟨edit.uri, store.version? edit.uri, rangesOf search edit.uri, new⟩ := by
  have hg : ∀ uri, _ = if rangesOf search uri = [] then none else some (rangesOf search uri) :=
    fun uri ↦ get?_foldl_alter ((search.occurrences.map Occurrence.location).filter
      fun l ↦ l.uri ∉ search.assets) empty uri
  rw [documentEdits, mem_map]
  constructor
  · rintro ⟨⟨uri, ranges⟩, hen, rfl⟩
    have hr := (hg uri).symm.trans ((mem_entries_iff _ _ _).mp hen)
    split_ifs at hr with hno
    exact ⟨hno, by rw [Option.some.inj hr]⟩
  · rintro ⟨hr, he⟩
    exact ⟨(edit.uri, rangesOf search edit.uri),
      (mem_entries_iff _ _ _).mpr ((hg edit.uri).trans (if_neg hr)), he.symm⟩

theorem nodup_documentEdits : ((documentEdits store search new).map DocumentEdit.uri).Nodup := by
  rw [documentEdits, map_map]
  exact nodup_keys _

variable {search} (hassets : ∀ occurrence ∈ search.occurrences, occurrence.uri ∉ search.assets)

include hassets

theorem rangesOf_of_assets (uri : Uri) :
    rangesOf search uri = (search.occurrences.filter fun occurrence ↦ occurrence.uri = uri).map
      fun occurrence ↦ occurrence.location.range := by
  rw [rangesOf, filter_eq_self.mpr ?_, rangesIn, filter_map, map_map]
  · rfl
  · exact forall_mem_map.mpr fun occurrence hf ↦ decide_eq_true (hassets occurrence hf)

/-- The documents that are edited are those with an occurrence. -/
theorem mem_uris_documentEdits (uri : Uri) :
    uri ∈ (documentEdits store search new).map DocumentEdit.uri ↔
      uri ∈ search.occurrences.map Occurrence.uri := by
  have hr : rangesOf search uri ≠ [] ↔ uri ∈ search.occurrences.map Occurrence.uri := by
    rw [rangesOf_of_assets hassets, ne_eq, map_eq_nil_iff, filter_eq_nil_iff, mem_map]
    simp
  rw [← hr, mem_map]
  constructor
  · rintro ⟨edit, he, rfl⟩
    exact ((mem_documentEdits store search new edit).mp he).1
  · exact fun hn ↦ ⟨⟨uri, store.version? uri, rangesOf search uri, new⟩,
      (mem_documentEdits store search new _).mpr ⟨hn, rfl⟩, rfl⟩

end Documents

/-- A search finds nothing in documents, or is the result of the query for the symbol that it is made
for. -/
theorem find_cases (store : Store) (ws : Workspace) (pr : Option Program)
    (bs : Keys String) (uri : Uri) (p : Position) :
    let search := Search.find store ws pr bs .rename uri p
    search.occurrences = [] ∨ ∃ document s, store.get? uri = some document ∧
      document.symbolAt? p = some s ∧
      ∃ query : Query, query.name = s.name ∧ search = query.result store ws := by
  intro search
  cases ho : store.get? uri with
  | none => exact .inl (by simp only [search, Search.find, ho])
  | some document =>
    cases hs : document.symbolAt? p with
    | none => exact .inl (by simp only [search, Search.find, ho, hs])
    | some s =>
      exact .inr ⟨document, s, rfl, hs, _, rfl, Search.find_eq ho hs rfl ws pr bs⟩

/-- The files of assets that a query reports are known as assets. -/
theorem mem_assets_of_result {query : Query} {store : Store} {ws : Workspace} {file : Uri}
    (h : file ∈ (query.result store ws).assets) : ws.assets.get? file ≠ none := by
  obtain ⟨id, -, hf⟩ := Query.exists_of_mem_assets h
  unfold Workspace.findAssets at hf
  split at hf
  · cases hf
  · obtain ⟨⟨uri, k⟩, he, rfl⟩ := mem_map.mp hf
    rw [(mem_entries_iff _ _ _).mp (mem_of_mem_filter he)]
    exact Option.some_ne_none _

/-- The edits of what a query has found are exact. -/
theorem exact_documentEdits {query : Query} (store : Store) {search : Search} (new : String)
    (hassets : ∀ occurrence ∈ search.occurrences, occurrence.uri ∉ search.assets)
    (hoc : search.occurrences = query.occurrences store)
    (ha : ∀ uri document, store.get? uri = some document →
      document.annotations = annotate document.text) :
    ∀ edit ∈ documentEdits store search new, ∃ edited, store.get? edit.uri = some edited ∧
      edit.Exact edited ((search.occurrences.filter fun occurrence ↦
        occurrence.uri = edit.uri).map Occurrence.span) query.name new := by
  intro edit he
  obtain ⟨hr, he⟩ := (mem_documentEdits store search new edit).mp he
  rw [rangesOf_of_assets hassets, hoc] at hr he
  obtain ⟨occurrence, hf⟩ := exists_mem_of_ne_nil _ (mt map_eq_nil_iff.mpr hr)
  obtain ⟨hf, hu⟩ := mem_filter.mp hf
  have ho := ((query.mem_occurrences_iff store occurrence).mp hf).1
  rw [of_decide_eq_true hu] at ho
  have hv : store.version? edit.uri = some occurrence.document.version := congrArg (Option.map _) ho
  have hex := query.exact_spansIn (ha _ _ ho) edit.uri new
  have hs := query.filter_occurrences ho
  rw [hv, hs, map_map] at he
  have hse : (query.spansIn occurrence.document).map (Occurrence.span ∘
      (⟨edit.uri, occurrence.document, ·⟩)) = query.spansIn occurrence.document := map_id _
  rw [hoc, hs, map_map, hse]
  exact ⟨occurrence.document, ho, he ▸ hex⟩

/-- A rename is made as soon as the symbol is found in a document. It edits the documents in which it
is found, each once and exactly. -/
theorem at?_exact (store : Store) (workspace : Workspace) (program : Option Program)
    (builtins : Keys String) (moveAssets : Bool) (uri : Uri) (position : Position) (new : String)
    (hannotated : ∀ uri document, store.get? uri = some document →
      document.annotations = Script.annotate document.text)
    (hscripts : ∀ uri document, store.get? uri = some document → workspace.assets.get? uri = none)
    (hnew : isValidName new = true) :
    let search := Search.find store workspace program builtins .rename uri position
    let renamed := at? store workspace program builtins moveAssets uri position new
    (renamed = none ↔ search.occurrences = []) ∧
    ∀ rename, renamed = some rename → (rename.edits.map DocumentEdit.uri).Nodup ∧
      (∀ other, other ∈ rename.edits.map DocumentEdit.uri ↔
        other ∈ search.occurrences.map Occurrence.uri) ∧
      ∃ document symbol, store.get? uri = some document ∧
        document.symbolAt? position = some symbol ∧
        ∀ edit ∈ rename.edits, ∃ edited, store.get? edit.uri = some edited ∧
          edit.Exact edited ((search.occurrences.filter fun occurrence ↦
            occurrence.uri = edit.uri).map Occurrence.span) symbol.name new := by
  have hcases := find_cases store workspace program builtins uri position
  simp only [at?, hnew, if_true] at hcases ⊢
  generalize Search.find store workspace program builtins .rename uri position = search at hcases ⊢
  have hassets : ∀ occurrence ∈ search.occurrences, occurrence.uri ∉ search.assets := by
    intro occurrence hfound hasset
    obtain hnone | ⟨-, -, -, -, query, -, rfl⟩ := hcases
    · simp [hnone] at hfound
    · have hopen := ((query.mem_occurrences_iff store occurrence).mp hfound).1
      exact mem_assets_of_result hasset (hscripts _ _ hopen)
  have huris := mem_uris_documentEdits store new hassets
  have hempty : documentEdits store search new = [] ↔ search.occurrences = [] := by
    rw [← map_eq_nil_iff (f := DocumentEdit.uri), eq_nil_iff_forall_not_mem]
    simp only [huris]
    rw [← eq_nil_iff_forall_not_mem, map_eq_nil_iff]
  by_cases hedits : documentEdits store search new = []
  · rw [if_pos hedits]
    exact ⟨iff_of_true rfl (hempty.mp hedits), nofun⟩
  · rw [if_neg hedits]
    refine ⟨iff_of_false (Option.some_ne_none _) (mt hempty.mpr hedits), ?_⟩
    rintro _ ⟨⟩
    obtain hnone | ⟨document, symbol, hopen, hsymbol, query, hname, rfl⟩ := hcases
    · exact absurd (hempty.mpr hnone) hedits
    · exact ⟨nodup_documentEdits store _ new, huris, document, symbol, hopen, hsymbol,
        hname ▸ exact_documentEdits store new hassets rfl hannotated⟩

/-- A knot and the diverts to it, between wide characters and three kinds of line breaks. -/
def wideText : String := "== inn ==\r\né -> inn\u2028👋 -> inn // inn\n"

theorem at?_exact_wideText :
    let uri := mainUri
    let store := ((⟨Script.annotate, 1000, empty, {}⟩ : Store).open? uri 1 wideText).2
    let program := Program.build? Script.annotate empty (fun _ ↦ some ⟨1, wideText⟩) uri
    let edit : DocumentEdit :=
      ⟨uri, some 1, [⟨⟨0, 3⟩, ⟨0, 6⟩⟩, ⟨⟨1, 5⟩, ⟨1, 8⟩⟩, ⟨⟨2, 6⟩, ⟨2, 9⟩⟩], "hall"⟩
    at? store ⟨["ink"], empty, empty⟩ program empty true uri ⟨0, 3⟩ "hall" =
        some ⟨[edit], []⟩ ∧
      ∃ edited spans name, store.get? uri = some edited ∧ edit.Exact edited spans name "hall" := by
  intro uri store program edit
  have hat : at? store ⟨["ink"], empty, empty⟩ program empty true uri ⟨0, 3⟩
      "hall" = some ⟨[edit], []⟩ := by
    dsimp only [store, program]
    rw [Script.annotate_eq_annotateInOrder]
    decide +kernel
  have hannotated : ∀ other document, store.get? other = some document →
      document.annotations = Script.annotate document.text := by
    intro other document hopen
    rw [Store.get?_open?] at hopen
    split_ifs at hopen
    · exact Option.some.inj hopen ▸ rfl
    · cases hopen
  obtain ⟨-, -, document, symbol, hopen, hsymbol, hedits⟩ := (at?_exact store
    ⟨["ink"], empty, empty⟩ program empty true uri ⟨0, 3⟩ "hall" hannotated
    (fun _ _ _ ↦ rfl) (by decide)).2 _ hat
  obtain ⟨edited, hedited, hexact⟩ := hedits edit mem_cons_self
  exact ⟨hat, edited, _, _, hedited, hexact⟩

end Rename

end StoryScript
