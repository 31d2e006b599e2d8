import StoryScript.Proofs.Program
import StoryScript.Proofs.Wire.Notice

/-!
Programs arrive as they were made. `Program.Fits` says what a program has to be like for this: its
uris are read back from their texts, positions and offsets are words of the sizes that the format
gives them, and its diagnostics have no more than a range, a message, a severity and a source. Then
it is read back from its JSON (`Program.Fits.reads`).
-/

namespace StoryScript

open Diagnostic Json.Decoder List Table
open Json (Decoder Draft Layout)

theorem Json.Decoder.reads_variant {α : Type} {values : List α} {nameOf : α → String} {v : α}
    (hm : v ∈ values)
    (hi : ∀ x ∈ values, ∀ y ∈ values, nameOf x = nameOf y → x = y) :
    (variant values nameOf).Reads (fun v ↦ .string (nameOf v)) v := by
  have hfi : values.find? (fun o ↦ nameOf o = nameOf v) = some v := by
    cases hf : values.find? fun o ↦ nameOf o = nameOf v with
    | none => simpa using find?_eq_none.mp hf v hm
    | some o =>
      have hn : nameOf o = nameOf v := by simpa using find?_some hf
      rw [hi o (mem_of_find?_eq_some hf) v hm hn]
  intro ly
  simp only [ly.string, variant, hfi]

/-- A field that is null if it has no value, as it was written. -/
theorem Json.Draft.nullable_ofOption {α : Type} (d : Draft) (ly : Layout) (index : Nat)
    {name : String} {decode : Decoder α} {encode : α → Json} {v : Option α}
    (h : d.options[index]? = some (name, some (Json.ofOption encode v)))
    (hr : ∀ f, v = some f → encode f ≠ .null ∧ decode.Reads encode f) :
    (d.record ly).nullable name decode = .ok v := by
  have hf : Decoder.nullable decode (ly.view (Json.ofOption encode v)) = .ok v := by
    cases v with
    | none =>
      rw [Json.ofOption, (ly.null_iff .null).mpr rfl]
      rfl
    | some f => exact nullable_view ly (hr f rfl).1 ((hr f rfl).2 ly)
  rw [Record.nullable, d.field? ly index h hf]
  rfl

theorem SymbolKind.reads (k : SymbolKind) :
    (variant SymbolKind.all SymbolKind.name).Reads (fun k ↦ .string k.name) k := by
  refine reads_variant ?_ (by decide)
  cases k <;> decide

/-- A place whose offsets are words of 64 bits. -/
structure Site.Fits (site : Site) : Prop where
  start : site.span.start < 2 ^ 64
  stop : site.span.stop < 2 ^ 64

theorem Site.Fits.reads {site : Site} (h : site.Fits) :
    Decoder.Reads Site.ofJson Site.toJson site := by
  intro ly
  let d : Draft := ⟨[("uri", some (.string site.uri)), ("from", some (.ofNat site.span.start)),
    ("to", some (.ofNat site.span.stop))], by simp⟩
  have hc {v : Nat} (h : v < 2 ^ 64) : count.Reads .ofNat v :=
    reads_natural "usize" h
  change Site.ofJson (ly.view d.toJson) = _
  simp only [Site.ofJson, d.ofJson_view, bind, Except.bind,
    d.required ly 0 rfl (reads_text site.uri ly),
    d.required ly 1 rfl (hc h.start ly), d.required ly 2 rfl (hc h.stop ly)]
  rfl

def Symbol.Fits (s : Symbol) : Prop :=
  ∀ site, s.site = some site → site.Fits

theorem Symbol.Fits.reads {s : Symbol} (h : s.Fits) :
    Decoder.Reads Symbol.ofJson Symbol.toJson s := by
  intro ly
  let d : Draft := ⟨[("kind", some (.string s.kind.name)),
    ("location", s.site.map Site.toJson), ("typeName", s.typeName.map .string)], by simp⟩
  change Symbol.ofJson (ly.view d.toJson) = _
  simp only [Symbol.ofJson, d.ofJson_view, bind, Except.bind, d.required ly 0 rfl (s.kind.reads ly),
    d.optional ly 1 rfl fun site hs ↦ ⟨nofun, (h site hs).reads⟩,
    d.optional ly 2 rfl fun name _ ↦ ⟨nofun, reads_text name⟩]
  rfl

structure Context.Fits (context : Context) : Prop where
  symbols : ∀ entry ∈ context.symbols.entries, entry.2.Fits
  uses : ∀ entry ∈ context.uses.entries, ∀ site ∈ entry.2, site.Fits

theorem Context.Fits.reads {context : Context} (h : context.Fits) :
    Decoder.Reads Context.ofJson Context.toJson context := by
  intro ly
  let d : Draft := ⟨[("symbols", some (context.symbols.toJson Symbol.toJson)),
    ("types", some (context.types.toJson Keys.toJson)),
    ("members", some (context.members.toJson Keys.toJson)),
    ("references", some (context.uses.toJson (Json.ofList Site.toJson)))], by simp⟩
  have hn {β : Type} {v : Decoder β} {content : β → Json} {t : Table String β}
      (h : ∀ e ∈ t.entries, v.Reads content e.2) :
      (table text v).Reads (Table.toJson content) t :=
    reads_table (fun _ _ ↦ reads_text _) h
  have hs (t : Table String (Keys String)) :
      (table text (keys text)).Reads (Table.toJson Keys.toJson)
        t :=
    hn fun _ _ ↦ reads_keys fun _ _ ↦ reads_text _
  have hu (e : String × List Site) (he : e ∈ context.uses.entries) :
      (list Site.ofJson).Reads (Json.ofList Site.toJson) e.2 :=
    reads_list fun site hsi ↦ (h.uses e he site hsi).reads
  change Context.ofJson (ly.view d.toJson) = _
  simp only [Context.ofJson, d.ofJson_view, bind, Except.bind,
    d.defaulted ly 0 rfl (hn (fun e he ↦ (h.symbols e he).reads) ly),
    d.defaulted ly 1 rfl (hs context.types ly),
    d.defaulted ly 2 rfl (hs context.members ly), d.defaulted ly 3 rfl (hn hu ly)]
  rfl

/-- A diagnostic with a range, a message, perhaps a severity and a source, and nothing else. -/
structure Diagnostic.Fits (diagnostic : Diagnostic) : Prop where
  range : diagnostic.range.Fits
  plain : diagnostic =
    { range := diagnostic.range, message := diagnostic.message, severity := diagnostic.severity,
      source := diagnostic.source }

theorem Diagnostic.Fits.reads {d : Diagnostic} (h : d.Fits) : Decoder.Reads ofJson toJson d := by
  obtain ⟨hr, hp⟩ := h
  rw [hp]
  generalize d.range = range at hr ⊢
  generalize d.message = m
  generalize d.severity = severity
  generalize d.source = s
  intro ly
  let draft : Draft := ⟨[("range", some range.toJson),
    ("severity", severity.map fun severity ↦ .ofInt severity.toInt), ("code", none),
    ("codeDescription", none), ("source", s.map .string), ("message", some (.string m)),
    ("relatedInformation", none), ("tags", none), ("data", none)], by simp⟩
  have hn {α : Type} (index : Nat) {name : String} {decode : Decoder α}
      (h : draft.options[index]? = some (name, (none : Option α).map fun _ ↦ .null)) :
      (draft.record ly).nullable name decode = .ok none := draft.nullable ly index h nofun
  change ofJson (ly.view draft.toJson) = _
  simp only [ofJson, draft.ofJson_view, bind, Except.bind, draft.required ly 0 rfl (hr.reads ly),
    draft.nullable ly 1 rfl fun v _ ↦ ⟨nofun, reads_word32 "i32" v⟩,
    draft.nullable ly 4 rfl fun v _ ↦ ⟨nofun, reads_text v⟩,
    draft.required ly 5 rfl (reads_text m ly),
    hn 2 rfl, hn 3 rfl, hn 6 rfl, hn 7 rfl, hn 8 rfl]
  rfl

namespace Program

/-- A program that arrives as it was made. -/
structure Fits (program : Program) : Prop where
  root : ∀ root, program.root = some root → root.IsNormal
  scripts : ∀ entry ∈ program.scripts.entries, entry.1.IsNormal
  diagnosed : ∀ entry ∈ program.diagnostics.entries, entry.1.IsNormal
  diagnostics : ∀ entry ∈ program.diagnostics.entries, ∀ diagnostic ∈ entry.2, diagnostic.Fits
  context : program.context.Fits

theorem Fits.reads {p : Program} (h : p.Fits) : Decoder.Reads Program.ofJson Program.toJson p := by
  intro ly
  let d : Draft := ⟨[("root", some (Json.ofOption Uri.toJson p.root)),
    ("scripts", some (p.scripts.toJson Json.ofVersion)),
    ("diagnostics", some (p.diagnostics.toJson (Json.ofList Diagnostic.toJson))),
    ("context", some p.context.toJson)], by simp⟩
  have hdi : (table Uri.ofJson (list Diagnostic.ofJson)).Reads
      (Table.toJson (Json.ofList Diagnostic.toJson)) p.diagnostics :=
    reads_table (fun e he ↦ (h.diagnosed e he).reads) fun e he ↦ reads_list fun dg hd ↦
        (h.diagnostics e he dg hd).reads
  have hs : (table Uri.ofJson version).Reads (Table.toJson Json.ofVersion)
      p.scripts :=
    reads_table (fun e he ↦ (h.scripts e he).reads) fun e _ ↦ reads_version e.2
  change Program.ofJson (ly.view d.toJson) = _
  simp only [Program.ofJson, d.ofJson_view, bind, Except.bind,
    d.nullable_ofOption ly 0 rfl fun r hr ↦ ⟨nofun, (h.root r hr).reads⟩,
    d.defaulted ly 1 rfl (hs ly), d.defaulted ly 2 rfl (hdi ly),
    d.defaulted ly 3 rfl (h.context.reads ly)]
  rfl

theorem fits_fault (ls : List (List Char)) (span : Span) (m : String) : (fault ls span m).Fits :=
  ⟨⟨⟨Nat.mod_lt _ (by decide), Nat.mod_lt _ (by decide)⟩,
    Nat.mod_lt _ (by decide), Nat.mod_lt _ (by decide)⟩, rfl⟩

/-- A script whose uri is read back, and whose annotations stand at offsets of 64 bits. -/
structure Script.Fits (script : Script) : Prop where
  uri : script.uri.IsNormal
  spans : ∀ item ∈ script.annotations.references.items, (script.site item.span).Fits

section

variable {context : Context}

theorem fits_declareOne (h : context.Fits) {d : Declared}
    (hs : (d.script.site d.span).Fits) : (declareOne context d).Fits := by
  unfold declareOne
  split_ifs with hk
  · exact h
  · have hn : (context.declare d.id
        { kind := d.kind, site := some (d.script.site d.span) }).Fits := by
      refine ⟨fun e he ↦ ?_, fun e he ↦ ?_⟩
      · rw [symbols_declare _ _ (Bool.eq_false_iff.mpr hk)] at he
        obtain rfl | ho := mem_insertEntry he
        · rintro site ⟨⟩
          exact hs
        · exact h.symbols e ho
      · rw [uses_declare] at he
        exact h.uses e he
    dsimp only
    split
    · exact ⟨hn.symbols, hn.uses⟩
    · exact hn

theorem fits_setType (h : context.Fits) (id type : String) : (setType context id type).Fits := by
  unfold setType
  cases hg : context.symbols.get? id with
  | none => exact h
  | some s =>
    dsimp only
    split_ifs
    · exact h
    · refine ⟨fun e he ↦ ?_, h.uses⟩
      obtain rfl | ho := mem_insertEntry he
      · have hm := (mem_entries_iff _ _ _).mpr hg
        exact fun site hs ↦ h.symbols _ hm site hs
      · exact h.symbols e ho

theorem fits_addUse (h : context.Fits) (id : String) {site : Site} (hs : site.Fits) :
    (context.addUse id site).Fits := by
  refine ⟨h.symbols, fun e he ↦ ?_⟩
  obtain rfl | hol := mem_insertEntry he
  · refine forall_mem_append.mpr ⟨fun o ho ↦ ?_, fun o ho ↦ ?_⟩
    · cases hg : context.uses.get? id with
      | none =>
        rw [hg] at ho
        cases ho
      | some sites =>
        rw [hg] at ho
        exact h.uses _ ((mem_entries_iff _ _ _).mpr hg) o ho
    · rw [mem_singleton.mp ho]
      exact hs
  · exact h.uses e hol

/-- What all items of a list keep, folding over the list keeps. -/
theorem fits_foldl {α : Type} {step : Context → α → Context} {xs : List α}
    (hs : ∀ context, context.Fits → ∀ x ∈ xs, (step context x).Fits)
    (h : context.Fits) : (xs.foldl step context).Fits := by
  induction xs generalizing context with
  | nil => exact h
  | cons x r ih =>
    exact ih (fun context h o ho ↦ hs context h o (mem_cons_of_mem _ ho))
      (hs context h x mem_cons_self)

theorem exists_item_of_mem_usesFrom {bs : Keys String} {t : List Char} {sc : Scope}
    {xs : List (Annotated Reference)} {use : Use}
    (h : use ∈ usesFrom context bs t sc xs) :
    ∃ x ∈ xs, x.span = use.span := by
  induction xs generalizing sc with
  | nil => cases h
  | cons x r ih =>
    unfold usesFrom at h
    split_ifs at h
    · obtain ⟨o, ho, hs⟩ := ih h
      exact ⟨o, mem_cons_of_mem _ ho, hs⟩
    · obtain rfl | hl := mem_cons.mp h
      · exact ⟨x, mem_cons_self, rfl⟩
      · obtain ⟨o, ho, hs⟩ := ih hl
        exact ⟨o, mem_cons_of_mem _ ho, hs⟩

end

theorem fits_usedSites {s : Script} (h : s.Fits) (context : Context)
    (bs : Keys String) : ∀ e ∈ usedSites context bs s, e.2.Fits := by
  intro e he
  obtain ⟨use, hu, hi⟩ := mem_flatMap.mp he
  obtain ⟨id, -, rfl⟩ := mem_map.mp hi
  obtain ⟨x, hit, hs⟩ := exists_item_of_mem_usesFrom hu
  have hf := h.spans x hit
  rwa [hs] at hf

theorem fits_declarations {ss : List Script} (h : ∀ s ∈ ss, s.Fits) :
    ∀ d ∈ declarations ss, (d.script.site d.span).Fits := by
  intro d hd
  obtain ⟨s, hsc, hi⟩ := mem_flatMap.mp hd
  obtain ⟨x, hm, hs⟩ := mem_filterMap.mp hi
  unfold Declared.of? at hs
  split at hs
  · obtain rfl := Option.some.inj hs
    exact (h s hsc).spans x hm
  · cases hs

theorem fits_ofScripts (builtins : Keys String) {root : Uri} (hr : root.IsNormal)
    {c : Collected} (h : ∀ s ∈ c.scripts, s.Fits) :
    (ofScripts builtins root c).Fits where
  root := by
    rintro _ ⟨⟩
    exact hr
  scripts := by
    intro e he
    obtain ⟨s, hs, rfl⟩ := mem_map.mp (mem_of_mem_ofList he)
    exact (h s hs).uri
  diagnosed := by
    intro e he
    obtain ⟨s, hs, rfl⟩ := mem_map.mp (mem_of_mem_ofList he)
    exact (h s hs).uri
  diagnostics := by
    intro e he diagnostic hdi
    obtain ⟨s, hs, rfl⟩ := mem_map.mp (mem_of_mem_ofList he)
    obtain ⟨fault, -, rfl⟩ := mem_map.mp hdi
    exact fits_fault _ _ _
  context := by
    have hem : Context.empty.Fits := ⟨nofun, nofun⟩
    have hd : (declareAll (declarations c.scripts)).Fits :=
      fits_foldl (fun _ hn declared hm ↦ fits_declareOne hn (fits_declarations h declared hm)) hem
    have ht : (inferTypes (declareAll (declarations c.scripts))
        c.scripts).Fits := fits_foldl (fun _ hn _ _ ↦ fits_setType hn _ _) hd
    refine fits_foldl (fun context hn e he ↦ ?_) ht
    obtain ⟨s, hs, hm⟩ := mem_flatMap.mp he
    exact fits_addUse hn e.1 (fits_usedSites (h s hs) _ _ e hm)

/-- A program that was built from scripts that fit arrives as it was made. -/
theorem fits_of_build? {ann : Annotator} {bs : Keys String} {ld : Loader} {r : Uri}
    {p : Program} (h : build? ann bs ld r = some p)
    (hl : ∀ u s, load? ld ann u = some s → s.Fits) : p.Fits := by
  obtain ⟨c, hc, rfl⟩ := Option.map_eq_some_iff.mp h
  obtain ⟨x, hf, -⟩ := Option.map_eq_some_iff.mp hc
  have hr : r.IsNormal := uri_of_load? hf ▸ (hl r x hf).uri
  refine fits_ofScripts bs hr fun s hs ↦ ?_
  exact hl s.uri s (load?_of_mem_collectFrom? hc hs)

end Program

end StoryScript
