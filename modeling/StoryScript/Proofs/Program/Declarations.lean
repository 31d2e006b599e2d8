import Mathlib.Algebra.BigOperators.Group.List.Basic
import Mathlib.Data.Finset.Card
import StoryScript.Proofs.Program.Closed
import StoryScript.Proofs.Script.Sections

/-!
The first declaration of an id counts, and every further one is reported. The symbols of a program
are the ids that its scripts declare, each of the kind and at the place of its first declaration: the
first one in the order in which scripts are loaded, and within a script in the order of positions.
Every other declaration is reported where it stands, with the kind that the id has already, and
nothing else is reported as declared again (`Program.declaresFirst_of_build?`).
-/

namespace StoryScript

open Diagnostic List Script

/-- Whether a diagnostic tells of an id that is declared again. -/
def Diagnostic.tellsDuplicate (d : Diagnostic) : Bool :=
  "Duplicate declaration of '".toList.isPrefixOf d.message.toList

namespace Program

variable {one : Declared}

/-! ### Further declarations -/

/-- The declarations whose id is declared by an earlier one. -/
def further (d : List Declared) : List Declared :=
  (d.zipIdx.filter fun e ↦ (d.take e.2).any fun l ↦ l.id = e.1.id).map Prod.fst

theorem further_append (d : List Declared) (one : Declared) :
    further (d ++ [one]) = further d ++ if d.any fun l ↦ l.id = one.id then [one] else [] := by
  have he : ∀ e ∈ d.zipIdx, ((d ++ [one]).take e.2).any (fun l ↦ l.id = e.1.id) =
        (d.take e.2).any fun l ↦ l.id = e.1.id := by
    intro e hen
    have hl : e.2 < d.length := by simpa using snd_lt_of_mem_zipIdx hen
    rw [take_append_of_le_length (Nat.le_of_lt hl)]
  rw [further, zipIdx_append, filter_append, map_append, filter_congr he]
  congr 1
  simp only [zipIdx_singleton, Nat.zero_add, filter_singleton, take_left]
  cases d.any fun l ↦ l.id = one.id <;> rfl

/-- A declaration that is looked at last is a duplicate if its id is known by then. -/
theorem duplicates_append (c : Context) (d : List Declared) (one : Declared) :
    duplicates c (d ++ [one]) = duplicates c d ++ (((d.foldl declareOne c).symbols.get? one.id).map
        fun s ↦ (one, s.kind)).toList := by
  induction d generalizing c with
  | nil =>
    rw [nil_append, duplicates, duplicates, nil_append, foldl_nil]
    cases c.symbols.get? one.id <;> rfl
  | cons x r ih =>
    rw [cons_append, duplicates, duplicates, foldl_cons]
    cases hf : c.symbols.get? x.id with
    | some s =>
      have hs : declareOne c x = c := if_pos ((Table.contains_iff _ _).mpr ⟨s, hf⟩)
      dsimp only
      rw [ih, hs, cons_append]
    | none => exact ih _

theorem map_fst_duplicates (d : List Declared) :
    (duplicates Context.empty d).map Prod.fst = further d := by
  induction d using reverseRecOn with
  | nil => rfl
  | append_singleton pre one ih =>
    rw [duplicates_append, map_append, ih, further_append]
    congr 1
    rw [show pre.foldl declareOne Context.empty = declareAll pre from rfl, get?_declareAll]
    cases hf : pre.find? fun l ↦ l.id = one.id with
    | none =>
      have ha : (pre.any fun l ↦ l.id = one.id) = false := by
        rw [← isSome_find?, hf]
        rfl
      rw [ha]
      rfl
    | some x =>
      have ha : (pre.any fun l ↦ l.id = one.id) = true := by
        rw [← isSome_find?, hf]
        rfl
      rw [ha]
      rfl

/-- A duplicate comes with the kind that its id keeps. -/
theorem kind_of_mem_duplicates {d : List Declared} {e : Declared × SymbolKind}
    (h : e ∈ duplicates Context.empty d) :
    ((declareAll d).symbols.get? e.1.id).map Symbol.kind = some e.2 := by
  induction d using reverseRecOn with
  | nil => cases h
  | append_singleton l one ih =>
    rw [declareAll_append, get?_declareOne]
    rw [duplicates_append] at h
    rcases mem_append.mp h with ho | hn
    · obtain ⟨s, hs, hk⟩ := Option.map_eq_some_iff.mp (ih ho)
      rw [hs, Option.some_or, Option.map_some, hk]
    · obtain ⟨s, hs, rfl⟩ := Option.map_eq_some_iff.mp (Option.mem_toList.mp hn)
      rw [show (declareAll l).symbols.get? one.id = some s from hs, Option.some_or, Option.map_some]

theorem length_further (d : List Declared) :
    (further d).length + (d.map Declared.id).toFinset.card = d.length := by
  induction d using reverseRecOn with
  | nil => rfl
  | append_singleton l one ih =>
    have ha : (l.any fun er ↦ er.id = one.id) = true ↔ one.id ∈ (l.map Declared.id).toFinset := by
      simp
    rw [further_append, length_append, length_append, map_append,
      toFinset_append, length_singleton, ← ih]
    simp only [map_cons, map_nil, toFinset_cons, toFinset_nil,
      LawfulSingleton.insert_empty_eq, Finset.union_singleton]
    split_ifs with hk
    · rw [Finset.insert_eq_of_mem (ha.mp hk), length_singleton]
      omega
    · rw [Finset.card_insert_of_notMem (mt ha.mpr hk), length_nil]
      omega

/-! ### What is declared in a program -/

theorem kind_symbolsOf (ss : List Script) (id : String) :
    ((symbolsOf ss).symbols.get? id).map Symbol.kind =
      ((declareAll (declarations ss)).symbols.get? id).map Symbol.kind := by
  have ho := congrArg (Option.map Prod.fst) (origin_symbolsOf ss id)
  rw [Option.map_map, Option.map_map] at ho
  rw [get?_declareAll, Option.map_map]
  exact ho

theorem size_symbolsOf (ss : List Script) :
    (symbolsOf ss).symbols.size = ((declarations ss).map Declared.id).toFinset.card := by
  have hk : (symbolsOf ss).symbols.keys.toFinset =
      ((declarations ss).map Declared.id).toFinset := by
    ext id
    rw [mem_toFinset, mem_toFinset, Table.mem_keys_iff, ← Table.contains_iff, mem_map]
    exact declares_symbolsOf_iff ss id
  rw [← hk, toFinset_card_of_nodup (Table.nodup_keys _), Table.keys, length_map]
  rfl

/-! ### What is reported -/

theorem tellsDuplicate_duplicateFaults (fd : List (Declared × SymbolKind)) (s : Script) :
    ∀ f ∈ duplicateFaults fd s, ∀ ls, (fault ls f.1 f.2).tellsDuplicate = true := by
  intro f hf ls
  obtain ⟨e, -, rfl⟩ := mem_map.mp hf
  rw [tellsDuplicate, fault, isPrefixOf_iff_prefix]
  simp only [String.toList_append, append_assoc]
  exact prefix_append _ _

theorem filter_tellsDuplicate_faultsOf (builtins : Keys String) (collected : Collected)
    (s : Script) :
    (s.report (faultsOf builtins collected s)).filter tellsDuplicate = s.report (duplicateFaults
        (duplicates Context.empty (declarations collected.scripts)) s) := by
  have hi : ∀ f ∈ includeFaults collected.missing s, ∀ ls,
      (fault ls f.1 f.2).tellsDuplicate = false := by
    intro f hf ls
    obtain ⟨inclusion, -, rfl⟩ := mem_map.mp hf
    simp [tellsDuplicate, fault, List.isPrefixOf]
  have hd : ∀ f ∈ divertFaults (symbolsOf collected.scripts) builtins s, ∀ ls,
      (fault ls f.1 f.2).tellsDuplicate = false := by
    intro f hf ls
    obtain ⟨use, -, rfl⟩ := mem_map.mp hf
    simp [tellsDuplicate, fault, List.isPrefixOf]
  rw [faultsOf, Script.report_append, Script.report_append, filter_append, filter_append,
    filter_report _ false hi,
    filter_report _ true (tellsDuplicate_duplicateFaults _ s), filter_report _ false hd]
  simp

/-- Each declaration is reported in one script. -/
theorem sum_length_duplicateFaults {ss : List Script}
    (hn : (ss.map Script.uri).Nodup) {f : List (Declared × SymbolKind)}
    (h : ∀ e ∈ f, e.1.script ∈ ss) :
    (ss.map fun s ↦ (duplicateFaults f s).length).sum = f.length := by
  have hc : ∀ (ss : List Script) (u : Uri), (ss.map fun s ↦ if u = s.uri then 1 else 0).sum =
        (ss.map Script.uri).count u := by
    intro ss u
    induction ss with
    | nil => rfl
    | cons s r ih =>
      rw [map_cons, map_cons, sum_cons, ih, count_cons, Nat.add_comm]
      simp only [beq_iff_eq, @eq_comm _ u]
  simp only [duplicateFaults, length_map, ← countP_eq_length_filter]
  induction f with
  | nil => simp
  | cons e r ih =>
    obtain ⟨he, hr⟩ := forall_mem_cons.mp h
    have ho := hc ss e.1.script.uri
    rw [count_eq_one_of_mem hn (mem_map_of_mem he)] at ho
    simp only [countP_cons, decide_eq_true_eq, sum_map_add, ih hr, ho, length_cons]

/-! ### First declarations in a program -/

/-- Whether an annotation declares an id, as a symbol of some kind. -/
def Declares (x : Annotated Reference) (k : SymbolKind) (id : String) : Prop :=
  x.value.declaration = some k ∧ x.value.symbolIds.head? = some id

theorem of?_eq_some_iff {s : Script} {x : Annotated Reference} :
    Declared.of? s x = some one ↔
      Declares x one.kind one.id ∧ one.script = s ∧ one.span = x.span := by
  obtain ⟨src, span, k, id⟩ := one
  unfold Declared.of? Declares
  cases x.value.declaration with
  | none => simp
  | some f =>
    cases x.value.symbolIds with
    | nil => simp
    | cons a r => simp; tauto

/-- The first declaration of an id: no script that was loaded earlier declares it, nor does an
annotation that stands earlier in the same script. -/
structure FirstDeclaration (scripts : List Script) (id : String) (script : Script)
    (item : Annotated Reference) (kind : SymbolKind) : Prop where
  declares : Declares item kind id
  loaded : ∃ earlier later, scripts = earlier ++ script :: later ∧
    ∀ other ∈ earlier, ∀ item ∈ other.annotations.references.items, ∀ kind, ¬ Declares item kind id
  placed : ∃ earlier later, script.annotations.references.items = earlier ++ item :: later ∧
    ∀ item ∈ earlier, ∀ kind, ¬ Declares item kind id

theorem firstDeclaration_of_find? {ss : List Script} {id : String}
    (h : (declarations ss).find? (fun one ↦ one.id = id) = some one) :
    ∃ x, FirstDeclaration ss id one.script x one.kind ∧ one.span = x.span := by
  have hno : ∀ {s : Script} {xs : List (Annotated Reference)},
      (xs.filterMap (Declared.of? s)).find? (fun one ↦ one.id = id) = none →
        ∀ x ∈ xs, ∀ k, ¬ Declares x k id := by
    intro s xs hf x hi k hd
    have ho : Declared.of? s x = some ⟨s, x.span, k, id⟩ := of?_eq_some_iff.mpr ⟨hd, rfl, rfl⟩
    have hn := find?_eq_none.mp hf _ (mem_filterMap.mpr ⟨x, hi, ho⟩)
    simp at hn
  rw [declarations, find?_flatMap, findSome?_eq_some_iff] at h
  obtain ⟨l, s, lt, hs, hf, he⟩ := h
  rw [find?_filterMap] at hf
  obtain ⟨x, hi, ho⟩ := Option.bind_eq_some_iff.mp hf
  obtain ⟨hd, rfl, hsp⟩ := of?_eq_some_iff.mp ho
  obtain ⟨ha, pre, r, hit, hb⟩ := find?_eq_some_iff_append.mp hi
  rw [ho, Option.any_some, decide_eq_true_eq] at ha
  rw [ha] at hd
  refine ⟨x, ⟨hd, ⟨l, lt, hs, fun o hot ↦ hno (he o hot)⟩, pre, r, hit, fun o hot k hag ↦ ?_⟩, hsp⟩
  have ho : Declared.of? one.script o = some ⟨one.script, o.span, k, id⟩ :=
    of?_eq_some_iff.mpr ⟨hag, rfl, rfl⟩
  have hn := hb o hot
  rw [ho] at hn
  simp at hn

/-- A program whose symbols are the first declarations in its scripts, and which reports all other
declarations. -/
structure DeclaresFirst (program : Program) (scripts : List Script) : Prop where
  declared : ∀ id, program.context.declares id = true ↔ ∃ script ∈ scripts,
    ∃ item ∈ script.annotations.references.items, ∃ kind, Declares item kind id
  kept : ∀ id symbol, program.context.symbols.get? id = some symbol → ∃ script item,
    FirstDeclaration scripts id script item symbol.kind ∧ symbol.site = some (script.site item.span)
  /-- The reports in a script are those of its further declarations, one for each and in order. -/
  reported : ∀ script ∈ scripts, Forall₂
    (fun one diagnostic ↦ ∃ symbol, program.context.symbols.get? one.id = some symbol ∧
      diagnostic = fault (Text.lines script.text.toList) one.span
        ("Duplicate declaration of '" ++ one.id ++ "' (already a " ++ symbol.kind.name ++ ")"))
    ((further (declarations scripts)).filter fun one ↦ one.script = script)
    ((program.diagnosticsFor script.uri).filter tellsDuplicate)
  counted : (program.diagnostics.entries.map fun entry ↦
      entry.2.countP tellsDuplicate).sum + program.context.symbols.size =
    (declarations scripts).length

section Building

variable {builtins : Keys String} {root : Uri} {collected : Collected}

theorem mem_declarations_iff {ss : List Script} :
    one ∈ declarations ss ↔ ∃ s ∈ ss, ∃ x ∈ s.annotations.references.items,
      Declares x one.kind one.id ∧ one.script = s ∧ one.span = x.span := by
  simp only [declarations, mem_flatMap, mem_filterMap, of?_eq_some_iff]

theorem script_of_mem_duplicates {ss : List Script} {e : Declared × SymbolKind}
    (h : e ∈ duplicates Context.empty (declarations ss)) : e.1.script ∈ ss := by
  have hf : e.1 ∈ further (declarations ss) :=
    map_fst_duplicates (declarations ss) ▸ mem_map_of_mem h
  obtain ⟨numbered, hn, heq⟩ := mem_map.mp hf
  have hm := fst_mem_of_mem_zipIdx (mem_filter.mp hn).1
  rw [heq] at hm
  obtain ⟨s, hs, -, -, -, rfl, -⟩ := mem_declarations_iff.mp hm
  exact hs

theorem declaresFirst_ofScripts (hn : (collected.scripts.map Script.uri).Nodup) :
    (ofScripts builtins root collected).DeclaresFirst collected.scripts where
  declared := by
    intro id
    rw [declares_ofScripts, declares_symbolsOf_iff]
    simp only [mem_declarations_iff]
    constructor
    · rintro ⟨one, ⟨s, hs, x, hi, hd, -⟩, rfl⟩
      exact ⟨s, hs, x, hi, one.kind, hd⟩
    · rintro ⟨s, hs, x, hi, k, hd⟩
      exact ⟨⟨s, x.span, k, id⟩, ⟨s, hs, x, hi, hd, rfl, rfl⟩, rfl⟩
  kept := by
    intro id sym hsy
    rw [symbols_ofScripts] at hsy
    have ho := origin_symbolsOf collected.scripts id
    rw [hsy, Option.map_some] at ho
    obtain ⟨one, hf, heq⟩ := Option.map_eq_some_iff.mp ho.symm
    obtain ⟨hk, hsi⟩ := Prod.mk.inj heq
    obtain ⟨x, hfi, hsp⟩ := firstDeclaration_of_find? hf
    exact ⟨one.script, x, hk ▸ hfi, by rw [← hsi, hsp]⟩
  reported := by
    intro s hs
    rw [diagnosticsFor_ofScripts hn hs, filter_tellsDuplicate_faultsOf,
      ← map_fst_duplicates, filter_map, duplicateFaults, Script.report, map_map,
      forall₂_map_left_iff, forall₂_map_right_iff]
    have hsa : ∀ e ∈ duplicates Context.empty (declarations collected.scripts),
        decide (e.1.script = s) = decide (e.1.script.uri = s.uri) := by
      intro e he
      refine decide_eq_decide.mpr ⟨congrArg Script.uri, fun hu ↦ ?_⟩
      exact inj_on_of_nodup_map hn (script_of_mem_duplicates he) hs hu
    rw [filter_congr (q := fun e ↦ e.1.script.uri = s.uri) hsa]
    refine forall₂_same.mpr fun e he ↦ ?_
    have hk := kind_of_mem_duplicates (mem_filter.mp he).1
    rw [← kind_symbolsOf] at hk
    obtain ⟨sym, hsy, hk⟩ := Option.map_eq_some_iff.mp hk
    exact ⟨sym, by rw [symbols_ofScripts, hsy], by rw [hk]; rfl⟩
  counted := by
    have hke : ((collected.scripts.map fun s ↦
        (s.uri, s.report (faultsOf builtins collected s))).map Prod.fst).Nodup := by
      rw [map_map]
      exact hn
    have hp := (Table.perm_entries_ofList hke).map fun e ↦ e.2.countP tellsDuplicate
    have hc : ∀ s, (s.report (faultsOf builtins collected s)).countP tellsDuplicate =
          (duplicateFaults (duplicates Context.empty (declarations collected.scripts))
            s).length := by
      intro s
      rw [countP_eq_length_filter, filter_tellsDuplicate_faultsOf, Script.report, length_map]
    have hsu := hp.sum_eq
    rw [map_map] at hsu
    simp only [Function.comp_def, hc] at hsu
    rw [sum_length_duplicateFaults hn fun e ↦ script_of_mem_duplicates,
      ← length_map Prod.fst, map_fst_duplicates] at hsu
    rw [symbols_ofScripts, size_symbolsOf, ← length_further (declarations collected.scripts), ← hsu]
    rfl

end Building

/-- Built programs keep the first declaration of each id among their scripts, in the order in which
these are loaded, and report every further one. -/
theorem declaresFirst_of_build? {annotate : Annotator} {builtins : Keys String} {load : Loader}
    {root : Uri} {program : Program} (h : build? annotate builtins load root = some program) :
    ∃ scripts : List Script, (progress annotate load root).map Prod.fst = scripts.map Script.uri ∧
      (∀ script ∈ scripts, load? load annotate script.uri = some script) ∧
      program.DeclaresFirst scripts := by
  obtain ⟨collected, hcollected, rfl⟩ := Option.map_eq_some_iff.mp h
  exact ⟨collected.scripts, map_fst_progress hcollected,
    fun script ↦ load?_of_mem_collectFrom? hcollected,
    declaresFirst_ofScripts (nodup_collectFrom? hcollected)⟩

/-- A story in two scripts that declare `bed` four times: as a knot, as a knot again, as a variable,
and in the second script as a list. -/
def bedLoader : Loader := fun u ↦
  if u = innUri then some ⟨1, "INCLUDE room.ink\n== bed\n== bed\nVAR bed = 1\n"⟩
  else if u = roomUri then some ⟨2, "LIST bed = straw, down\n== room\n"⟩
  else none

theorem declaresFirst_of_build?_bed :
    ∃ program scripts, build? annotate Table.empty bedLoader innUri = some program ∧
      program.DeclaresFirst scripts ∧ scripts.map Script.uri = [innUri, roomUri] ∧
      program.context.symbols.keys = ["bed", "bed.down", "bed.straw", "room"] ∧
      program.context.symbols.get? "bed" = some ⟨.knot, some ⟨innUri.text, ⟨20, 23⟩⟩, none⟩ ∧
      ((program.diagnosticsFor innUri).filter tellsDuplicate).map message =
        ["Duplicate declaration of 'bed' (already a knot)",
          "Duplicate declaration of 'bed' (already a knot)"] ∧
      ((program.diagnosticsFor roomUri).filter tellsDuplicate).map
        (fun diagnostic ↦ diagnostic.range) = [⟨⟨0, 5⟩, ⟨0, 8⟩⟩] := by
  obtain ⟨program, hprogram⟩ := Option.isSome_iff_exists.mp
    (@isSome_build? annotate Table.empty bedLoader innUri (by decide))
  obtain ⟨scripts, hprogress, -, hfirst⟩ := declaresFirst_of_build? hprogram
  have hloaded : (progress annotate bedLoader innUri).map Prod.fst = [innUri, roomUri] := by
    rw [annotate_eq_annotateInOrder]
    decide +kernel
  have htables : ((build? annotate Table.empty bedLoader innUri).map
      fun program ↦ (program.context.symbols.keys, program.context.symbols.get? "bed",
        ((program.diagnosticsFor innUri).filter tellsDuplicate).map message,
        ((program.diagnosticsFor roomUri).filter tellsDuplicate).map
          fun diagnostic ↦ diagnostic.range)) =
      some (["bed", "bed.down", "bed.straw", "room"],
        some ⟨.knot, some ⟨innUri.text, ⟨20, 23⟩⟩, none⟩,
        ["Duplicate declaration of 'bed' (already a knot)",
          "Duplicate declaration of 'bed' (already a knot)"], [⟨⟨0, 5⟩, ⟨0, 8⟩⟩]) := by
    rw [annotate_eq_annotateInOrder]
    decide +kernel
  rw [hprogram, Option.map_some, Option.some.injEq] at htables
  simp only [Prod.mk.injEq] at htables
  obtain ⟨hkeys, hbed, hinn, hroom⟩ := htables
  exact ⟨program, scripts, hprogram, hfirst, hprogress ▸ hloaded, hkeys, hbed, hinn, hroom⟩

end Program

end StoryScript
