import Mathlib.Data.List.Nodup
import StoryScript.Proofs.Program
import StoryScript.Script.Scan

/-!
What a built program says is about itself. Its diagnostics are those of its scripts, its symbols and
their uses stand in its scripts, and only declared symbols have uses. Nothing is lost on the way
either: a divert that leads to nothing known is reported, each one once, and every other use is
recorded under all declared ids that it resolves to (`Program.closed_of_build?`).
-/

namespace StoryScript

open Diagnostic List Table

/-- Whether a diagnostic tells of a divert that leads nowhere. -/
def Diagnostic.tellsLostDivert (d : Diagnostic) : Bool :=
  "Divert target '".toList.isPrefixOf d.message.toList &&
    "' not found".toList.isSuffixOf d.message.toList

namespace Program

/-! ### Scripts -/

/-- A walk in which no script waits twice, and in which those that wait have been named. -/
structure Frontier.Distinct (frontier : Frontier) : Prop where
  nodup : (frontier.queue.map Pending.uri).Nodup
  named : ∀ uri ∈ frontier.queue.map Pending.uri, uri ∈ frontier.seen

/-- Whether a walk may still come to a script. -/
def Frontier.Awaits (f : Frontier) (u : Uri) : Prop :=
  u ∈ f.queue.map Pending.uri ∨ u ∉ f.seen

variable {p : Pending} {q : List Pending} {s : List Uri} {ss : List Script}

theorem Frontier.Distinct.tail (h : Frontier.Distinct ⟨p :: q, s⟩) : Frontier.Distinct ⟨q, s⟩ :=
  ⟨(nodup_cons.mp h.nodup).2, (forall_mem_cons.mp h.named).2⟩

/-- The script that waits first comes before all that a walk may come to without it. -/
theorem Frontier.Distinct.next {ns : List Uri} (h : Frontier.Distinct ⟨p :: q, s⟩) (hno : ns.Nodup)
    (ha : ∀ u ∈ ns, Frontier.Awaits ⟨q, s⟩ u) :
    (p.uri :: ns).Nodup ∧ ∀ u ∈ p.uri :: ns, Frontier.Awaits ⟨p :: q, s⟩ u := by
  obtain ⟨hp, -⟩ := nodup_cons.mp h.nodup
  have hn : p.uri ∈ s := h.named _ mem_cons_self
  refine ⟨nodup_cons.mpr ⟨fun hag ↦ ?_, hno⟩, forall_mem_cons.mpr
    ⟨Or.inl mem_cons_self, fun u hur ↦ ?_⟩⟩
  · exact (ha _ hag).elim hp fun hu ↦ hu hn
  · exact (ha u hur).imp_left (mem_cons_of_mem _)

theorem Frontier.Distinct.extend {f : Frontier} (h : f.Distinct) (script : Script)
    (xs : List (Annotated Include)) :
    (f.extend script xs).Distinct ∧ ∀ u, (f.extend script xs).Awaits u → f.Awaits u := by
  fun_induction Frontier.extend script f xs with
  | case1 | case3 => exact ⟨h, fun _ ↦ id⟩
  | case2 _ _ _ _ ih | case4 _ _ _ _ _ _ _ ih => exact ih h
  | case5 f x r t _ _ hn ih =>
    obtain ⟨hd, ha⟩ := ih (by
      constructor
      · rw [map_append]
        refine nodup_append.mpr ⟨h.nodup, nodup_singleton _, fun u hu o ho ↦ ?_⟩
        rw [mem_singleton.mp ho]
        rintro rfl
        exact hn (h.named _ hu)
      · rw [map_append]
        refine forall_mem_append.mpr ⟨fun u hu ↦ ?_, forall_mem_singleton.mpr ?_⟩
        · exact mem_cons_of_mem _ (h.named u hu)
        · exact mem_cons_self)
    refine ⟨hd, fun u hu ↦ ?_⟩
    rcases ha u hu with hq | hs
    · rw [map_append, mem_append] at hq
      refine hq.imp_right fun ht ↦ ?_
      rwa [mem_singleton.mp ht]
    · exact .inr (mt (mem_cons_of_mem _) hs)

section Collecting

variable {load : Loader} {annotate : Annotator} {root : Uri} {collected : Collected}

/-- A walk loads no script twice. -/
theorem nodup_collect {q : List Pending} {s : List Uri} (h : Frontier.Distinct ⟨q, s⟩) :
    ((collect load annotate q s).scripts.map Script.uri).Nodup ∧
      ∀ u ∈ (collect load annotate q s).scripts.map Script.uri, Frontier.Awaits ⟨q, s⟩ u := by
  fun_induction collect load annotate q s with
  | case1 => exact ⟨nodup_nil, forall_mem_nil _⟩
  | case2 s p q _ r ih =>
    obtain ⟨hs, ha⟩ := ih h.tail
    exact ⟨hs, fun u hu ↦ (ha u hu).imp_left (mem_cons_of_mem _)⟩
  | case3 s p q script hl f r ih =>
    obtain ⟨hd, hb⟩ := h.tail.extend script script.annotations.includes.items
    obtain ⟨hs, ha⟩ := ih hd
    rw [map_cons, uri_of_load? hl]
    exact h.next hs fun u hu ↦ hb u (ha u hu)

/-- No script of a program is loaded twice. -/
theorem nodup_collectFrom? (h : collectFrom? load annotate root = some collected) :
    (collected.scripts.map Script.uri).Nodup := by
  obtain ⟨script, hl, rfl⟩ := Option.map_eq_some_iff.mp h
  have he : Frontier.Distinct ⟨[], [root]⟩ := ⟨nodup_nil, nofun⟩
  obtain ⟨hd, hb⟩ := he.extend script script.annotations.includes.items
  obtain ⟨hs, haw⟩ := @nodup_collect load annotate _ _ hd
  refine nodup_cons.mpr ⟨fun ha ↦ ?_, hs⟩
  rw [uri_of_load? hl] at ha
  exact (hb _ (haw _ ha)).elim nofun fun hu ↦ hu (mem_singleton.mpr rfl)

/-- The scripts of a program are told of in the order in which they are loaded. -/
theorem map_fst_progress (h : collectFrom? load annotate root = some collected) :
    (progress annotate load root).map Prod.fst = collected.scripts.map Script.uri := by
  have hc : (Prod.fst ∘ fun e : Script × Nat ↦ (e.1.uri, e.2 + 1)) = Script.uri ∘ Prod.fst := rfl
  rw [progress, h]
  dsimp only
  rw [map_map, hc, ← map_map, zipIdx_map_fst]

end Collecting

/-! ### Diverts that lead nowhere -/

/-- Whether an annotation, in the scope that it stands in, is a divert to nothing known. -/
def isLostDivert (c : Context) (builtins : Keys String) (e : Scope × Annotated Reference) : Bool :=
  e.2.value.isDivert && !e.2.value.isDeclaration &&
    (c.resolveReference builtins e.2.value false e.1.path).all fun id ↦ !c.knows builtins id

section Lost

variable {c : Context} {builtins : Keys String} {script : Script}

theorem filter_report {tells : Diagnostic → Bool} (faults : List (Span × String)) (verdict : Bool)
    (h : ∀ f ∈ faults, ∀ ls, tells (fault ls f.1 f.2) = verdict) :
    (script.report faults).filter tells = if verdict then script.report faults else [] := by
  have ha : ∀ d ∈ script.report faults, tells d = verdict := by
    intro d hd
    obtain ⟨f, hf, rfl⟩ := mem_map.mp hd
    exact h f hf _
  cases verdict with
  | true => exact filter_eq_self.mpr ha
  | false =>
    exact filter_eq_nil_iff.mpr fun d hd ↦ ne_true_of_eq_false (ha d hd)

theorem tellsLostDivert_includeFaults (missing : List Inclusion) :
    ∀ f ∈ includeFaults missing script, ∀ ls, (fault ls f.1 f.2).tellsLostDivert = false := by
  intro f hf ls
  obtain ⟨inclusion, -, rfl⟩ := mem_map.mp hf
  simp [tellsLostDivert, fault]

theorem tellsLostDivert_duplicateFaults (fd : List (Declared × SymbolKind)) :
    ∀ f ∈ duplicateFaults fd script, ∀ ls, (fault ls f.1 f.2).tellsLostDivert = false := by
  intro f hf ls
  obtain ⟨d, -, rfl⟩ := mem_map.mp hf
  simp [tellsLostDivert, fault]

theorem tellsLostDivert_divertFaults :
    ∀ f ∈ divertFaults c builtins script, ∀ ls, (fault ls f.1 f.2).tellsLostDivert = true := by
  intro f hf ls
  obtain ⟨use, -, rfl⟩ := mem_map.mp hf
  rw [tellsLostDivert, fault, Bool.and_eq_true, isPrefixOf_iff_prefix,
    isSuffixOf_iff_suffix, String.toList_append, String.toList_append]
  exact ⟨(prefix_append _ _).trans (prefix_append _ _), suffix_append _ _⟩

/-- The faults of a script's diverts are its lost ones, in order. -/
theorem divertFaults_eq_map :
    divertFaults c builtins script =
      ((Scope.walk script.text.toList Scope.top script.annotations.references.items).filter
        (isLostDivert c builtins)).map fun e ↦ (e.2.span,
          "Divert target '" ++ e.2.value.symbolIds.head?.getD "" ++ "' not found") := by
  rw [divertFaults, uses, usesFrom_eq_map, filter_map, filter_filter, map_map]
  refine congrArg (List.map _) (filter_congr fun e _ ↦ ?_)
  have hk : ((c.resolveReference builtins e.2.value false e.1.path).filter
      (c.knows builtins)).isEmpty = (c.resolveReference builtins e.2.value false e.1.path).all
          fun id ↦ !c.knows builtins id := by
    rw [Bool.eq_iff_iff, List.isEmpty_iff, filter_eq_nil_iff, all_eq_true]
    simp
  simp only [isLostDivert, Function.comp_apply, hk]
  rw [Bool.and_assoc, Bool.and_comm]

theorem length_divertFaults :
    (divertFaults c builtins script).length =
      (Scope.walk script.text.toList Scope.top script.annotations.references.items).countP
        (isLostDivert c builtins) := by
  rw [divertFaults_eq_map, length_map, countP_eq_length_filter]

end Lost

/-- All faults of a script, as its program reports them. -/
def faultsOf (builtins : Keys String) (collected : Collected) (script : Script) :
    List (Span × String) :=
  includeFaults collected.missing script ++
    duplicateFaults (duplicates Context.empty (declarations collected.scripts)) script ++
      divertFaults (symbolsOf collected.scripts) builtins script

theorem Script.report_append (script : Script) (x y : List (Span × String)) :
    script.report (x ++ y) = script.report x ++ script.report y :=
  map_append

/-- The diagnostics of a script that tell of lost diverts are the faults of its diverts. -/
theorem filter_report_faultsOf (builtins : Keys String) (collected : Collected) (script : Script) :
    (script.report (faultsOf builtins collected script)).filter Diagnostic.tellsLostDivert =
      script.report (divertFaults (symbolsOf collected.scripts) builtins script) := by
  rw [faultsOf, Script.report_append, Script.report_append, filter_append, filter_append,
    filter_report _ false (tellsLostDivert_includeFaults _),
    filter_report _ false (tellsLostDivert_duplicateFaults _),
    filter_report _ true tellsLostDivert_divertFaults]
  rfl

theorem countP_report_faultsOf (builtins : Keys String) (collected : Collected) (script : Script) :
    (script.report (faultsOf builtins collected script)).countP Diagnostic.tellsLostDivert =
      (divertFaults (symbolsOf collected.scripts) builtins script).length := by
  rw [countP_eq_length_filter, filter_report_faultsOf, Script.report, length_map]

/-! ### Sites -/

theorem script_mem_of_mem_declarations {one : Declared} (h : one ∈ declarations ss) :
    one.script ∈ ss := by
  obtain ⟨script, hs, hi⟩ := mem_flatMap.mp h
  obtain ⟨x, -, ho⟩ := mem_filterMap.mp hi
  unfold Declared.of? at ho
  split at ho
  · obtain rfl := Option.some.inj ho
    exact hs
  · cases ho

/-- All symbols are declared in scripts. -/
theorem exists_site_of_symbolsOf {id : String} {s : Symbol}
    (h : (symbolsOf ss).symbols.get? id = some s) :
    ∃ script ∈ ss, ∃ span, s.site = some (script.site span) := by
  have ho := origin_symbolsOf ss id
  rw [h, Option.map_some] at ho
  obtain ⟨one, hf, heq⟩ := Option.map_eq_some_iff.mp ho.symm
  exact ⟨one.script, script_mem_of_mem_declarations (mem_of_find?_eq_some hf), one.span,
    (congrArg Prod.snd heq).symm⟩

/-! ### Programs -/

theorem keys_ofList {α β : Type} (xs : List α) (key : α → Uri) (v : α → β) :
    (ofList (xs.map fun x ↦ (key x, v x))).keys = (Keys.ofList (xs.map key)).keys := by
  have hf : ∀ (t : Table Uri β) (keys : Keys Uri), t.map (fun _ _ ↦ ()) = keys →
      ((xs.map fun x ↦ (key x, v x)).foldl (fun t e ↦ t.insert e.1 e.2) t).map (fun _ _ ↦ ()) =
          (xs.map key).foldl Keys.add keys := by
    induction xs with
    | nil => exact fun _ _ h ↦ h
    | cons x r ih =>
      intro t keys h
      refine ih _ _ ?_
      rw [map_insert, h]
      rfl
  have hk := congrArg Table.keys (hf empty empty rfl)
  rw [← Keys.ofList, ← ofList] at hk
  rw [← hk, Table.keys, Table.keys, Table.map, map_map]
  rfl

/-- Whether a place lies in one of a program's scripts. -/
def hasSite (p : Program) (site : Site) : Prop :=
  ∃ u, p.covers u = true ∧ site.uri = u.text

/-- A program whose tables refer to nothing outside of it. -/
structure Closed (program : Program) : Prop where
  diagnosed : program.diagnostics.keys = program.scripts.keys
  declared : ∀ id ∈ program.context.uses.keys, program.context.declares id = true
  declarations : ∀ id symbol, program.context.symbols.get? id = some symbol →
    ∃ site, symbol.site = some site ∧ program.hasSite site
  uses : ∀ id sites, program.context.uses.get? id = some sites → ∀ site ∈ sites, program.hasSite site

/-- What a program says of the annotations of one of its scripts: as many lost diverts are reported
as there are, and the uses of declared ids are recorded. -/
structure Accounts (program : Program) (builtins : Keys String) (uri : Uri) (text : String)
    (annotations : Annotations) : Prop where
  lost : (program.diagnosticsFor uri).countP tellsLostDivert =
    (Scope.walk text.toList Scope.top annotations.references.items).countP
      (isLostDivert program.context builtins)
  recorded : ∀ entry ∈ Scope.walk text.toList Scope.top annotations.references.items,
    entry.2.value.isDeclaration = false →
      ∀ id ∈ program.context.resolveReference builtins entry.2.value false entry.1.path,
        program.context.declares id = true →
          ⟨uri.text, entry.2.span⟩ ∈ (program.context.uses.get? id).getD []

section Building

variable (builtins : Keys String) (root : Uri) (collected : Collected)

theorem exists_context_ofScripts :
    ∃ uses, (ofScripts builtins root collected).context =
      { symbolsOf collected.scripts with uses } :=
  exists_foldl_addUse (symbolsOf collected.scripts) (sitesIn builtins collected.scripts)

theorem symbols_ofScripts : (ofScripts builtins root collected).context.symbols =
    (symbolsOf collected.scripts).symbols := by
  obtain ⟨uses, hc⟩ := exists_context_ofScripts builtins root collected
  rw [hc]

theorem declares_ofScripts (id : String) :
    (ofScripts builtins root collected).context.declares id =
      (symbolsOf collected.scripts).declares id := by
  rw [Context.declares, symbols_ofScripts, Context.declares]

theorem isLostDivert_ofScripts :
    isLostDivert (ofScripts builtins root collected).context builtins =
      isLostDivert (symbolsOf collected.scripts) builtins := by
  funext e
  simp only [isLostDivert, resolveReference_ofScripts, Context.knows, declares_ofScripts]

theorem contains_uses_ofScripts_iff (id : String) :
    (ofScripts builtins root collected).context.uses.contains id = true ↔
      ∃ site, (id, site) ∈ sitesIn builtins collected.scripts := by
  rw [contains_eq_isSome, get?_uses_ofScripts, Option.isSome_filter, Option.any_some,
    decide_eq_true_eq, ne_eq, map_eq_nil_iff, filter_eq_nil_iff]
  simp

variable {builtins root collected}

theorem hasSite_ofScripts {script : Script} (h : script ∈ collected.scripts) (span : Span) :
    (ofScripts builtins root collected).hasSite (script.site span) :=
  ⟨script.uri, (covers_ofScripts_iff builtins root collected script.uri).mpr ⟨script, h, rfl⟩, rfl⟩

/-- Uses that are recorded are those of declared ids, in a script. -/
theorem exists_of_mem_sitesIn {ss : List Script} {id : String} {site : Site}
    (h : (id, site) ∈ sitesIn builtins ss) :
    (symbolsOf ss).declares id = true ∧ ∃ script ∈ ss, ∃ span, site = script.site span := by
  obtain ⟨script, hs, hi⟩ := mem_flatMap.mp h
  obtain ⟨use, -, hi⟩ := mem_flatMap.mp hi
  obtain ⟨_, hid, heq⟩ := mem_map.mp hi
  obtain ⟨rfl, rfl⟩ := Prod.mk.inj heq
  exact ⟨(mem_filter.mp hid).2, script, hs, use.span, rfl⟩

theorem closed_ofScripts : (ofScripts builtins root collected).Closed where
  diagnosed := (keys_ofList collected.scripts Script.uri _).trans
    (keys_ofList collected.scripts Script.uri _).symm
  declared := by
    intro id hi
    rw [mem_keys_iff, ← Table.contains_iff, contains_uses_ofScripts_iff] at hi
    obtain ⟨site, hs⟩ := hi
    rw [declares_ofScripts]
    exact (exists_of_mem_sitesIn hs).1
  declarations := by
    intro id s hg
    rw [symbols_ofScripts] at hg
    obtain ⟨script, hsc, span, hs⟩ := exists_site_of_symbolsOf hg
    exact ⟨_, hs, hasSite_ofScripts hsc span⟩
  uses := by
    intro id sites hg site hs
    have hm : site ∈ ((ofScripts builtins root collected).context.uses.get? id).getD [] := by
      rwa [hg]
    replace hm := (mem_usesOf_ofScripts_iff builtins root collected id site).mp hm
    obtain ⟨-, script, hsc, span, rfl⟩ := exists_of_mem_sitesIn hm
    exact hasSite_ofScripts hsc span

theorem diagnosticsFor_ofScripts (hn : (collected.scripts.map Script.uri).Nodup)
    {script : Script} (h : script ∈ collected.scripts) :
    (ofScripts builtins root collected).diagnosticsFor script.uri =
      script.report (faultsOf builtins collected script) := by
  have hk : ((collected.scripts.map fun script ↦
      (script.uri, script.report (faultsOf builtins collected script))).map Prod.fst).Nodup := by
    rw [map_map]
    exact hn
  have hm := (perm_entries_ofList hk).mem_iff.mpr (mem_map_of_mem h)
  rw [diagnosticsFor]
  exact congrArg (Option.getD · []) ((mem_entries_iff _ _ _).mp hm)

theorem accounts_ofScripts (hn : (collected.scripts.map Script.uri).Nodup) {script : Script}
    (h : script ∈ collected.scripts) :
    (ofScripts builtins root collected).Accounts builtins script.uri script.text
      script.annotations where
  lost := by
    rw [diagnosticsFor_ofScripts hn h, countP_report_faultsOf, length_divertFaults,
      isLostDivert_ofScripts]
  recorded := by
    intro e he hu id hi hd
    rw [resolveReference_ofScripts] at hi
    rw [declares_ofScripts] at hd
    refine (mem_usesOf_ofScripts_iff builtins root collected id _).mpr ?_
    refine mem_flatMap.mpr ⟨script, h, ?_⟩
    exact (mem_usedSites_iff _ builtins script hd _).mpr ⟨e, he, hu, hi, rfl⟩

end Building

/-- Built programs are closed, and no divert of their scripts is lost: it is reported if it leads to
nothing known, and else recorded with all other uses. -/
theorem closed_of_build? {annotate : Annotator} {builtins : Keys String} {load : Loader} {root : Uri}
    {program : Program} (h : build? annotate builtins load root = some program) :
    program.Closed ∧ ∀ uri, program.covers uri = true → ∃ source, load uri = some source ∧
      program.Accounts builtins uri source.text (annotate source.text) := by
  obtain ⟨collected, hcollected, rfl⟩ := Option.map_eq_some_iff.mp h
  refine ⟨closed_ofScripts, fun uri hcovers ↦ ?_⟩
  obtain ⟨script, hscript, rfl⟩ := (covers_ofScripts_iff _ _ _ _).mp hcovers
  obtain ⟨source, hsource, heq⟩ :=
    Option.map_eq_some_iff.mp (load?_of_mem_collectFrom? hcollected hscript)
  have haccounts := @accounts_ofScripts builtins root collected (nodup_collectFrom? hcollected)
    script hscript
  refine ⟨source, hsource, ?_⟩
  rw [← heq] at haccounts ⊢
  exact haccounts

def innUri : Uri := ⟨"file:///inn.ink"⟩

def roomUri : Uri := ⟨"file:///room.ink"⟩

def hallUri : Uri := ⟨"file:///hall.ink"⟩

def atticUri : Uri := ⟨"file:///attic.ink"⟩

/-- A story in four scripts. The first one diverts to a knot that there is not, the second one to a
knot of the third, and the last one to a builtin knot; it includes a script that there is not. -/
def innLoader : Loader := fun u ↦
  if u = innUri then some ⟨1, "INCLUDE room.ink\n-> cellar\n"⟩
  else if u = roomUri then some ⟨3, "INCLUDE hall.ink\n-> hall\n"⟩
  else if u = hallUri then some ⟨1, "INCLUDE attic.ink\n== hall\n"⟩
  else if u = atticUri then some ⟨2, "INCLUDE roof.ink\n-> credits\n"⟩
  else none

def innBuiltins : Keys String := Keys.ofList ["credits"]

def innProgram : Program :=
  (build? StoryScript.Script.annotate innBuiltins innLoader innUri).getD {}

theorem closed_of_build?_inn :
    build? StoryScript.Script.annotate innBuiltins innLoader innUri = some innProgram ∧
      innProgram.Closed ∧ innProgram.diagnostics.keys = [atticUri, hallUri, innUri, roomUri] ∧
      innProgram.context.uses.get? "hall" = some [⟨roomUri.text, ⟨20, 24⟩⟩] ∧
      ∃ source, innLoader innUri = some source ∧ innProgram.Accounts innBuiltins innUri source.text
          (StoryScript.Script.annotate source.text) ∧
        (innProgram.diagnosticsFor innUri).countP tellsLostDivert = 1 := by
  have hbuild : build? StoryScript.Script.annotate innBuiltins innLoader innUri =
      some innProgram := by
    obtain ⟨program, hprogram⟩ := Option.isSome_iff_exists.mp
      (@isSome_build? StoryScript.Script.annotate innBuiltins innLoader innUri (by decide))
    rw [innProgram, hprogram, Option.getD_some]
  have htables : innProgram.diagnostics.keys = [atticUri, hallUri, innUri, roomUri] ∧
      innProgram.context.uses.get? "hall" = some [⟨roomUri.text, ⟨20, 24⟩⟩] ∧
      (innProgram.diagnosticsFor innUri).countP tellsLostDivert = 1 := by
    decide +kernel
  obtain ⟨hclosed, haccounts⟩ := closed_of_build? hbuild
  obtain ⟨source, hsource, haccounts⟩ := haccounts innUri (covers_root_of_build? hbuild)
  exact ⟨hbuild, hclosed, htables.1, htables.2.1, source, hsource, haccounts, htables.2.2⟩

end Program

end StoryScript
