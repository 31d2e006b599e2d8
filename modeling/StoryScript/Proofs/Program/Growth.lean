import StoryScript.Proofs.Program.Walk
import StoryScript.Proofs.Rename.Diverts

/-!
More scripts never break a divert. While fewer scripts can be reached than a program may name, a
program has all scripts that its root leads to (`Program.mem_collectFrom?_of_reachable`). If more
scripts can be loaded, more are reached and more ids are known; a divert that led somewhere then
still does, though perhaps elsewhere (`Context.leads_of_knows`). So no divert is reported that was not
reported before (`Program.lostDiverts_of_more`).
-/

namespace StoryScript

open Diagnostic List Script

namespace Program

/-- Whether fewer scripts can be reached than a program may name. -/
def FewReachable (load : Loader) (annotate : Annotator) (root : Uri) : Prop :=
  Set.encard {uri | Reachable load annotate root uri} < maxScripts

/-- Few scripts can be reached if includes do not lead out of a short list. -/
theorem fewReachable_of_closed {load : Loader} {annotate : Annotator} {root : Uri}
    (us : List Uri) (hr : root ∈ us)
    (hc : ∀ u ∈ us, ∀ s ∈ load? load annotate u, ∀ t ∈ s.targets, t ∈ us)
    (hl : us.length < maxScripts) : FewReachable load annotate root :=
  lt_of_le_of_lt (encard_reachable_le us hr hc) (by exact_mod_cast hl)

/-! ### More scripts -/

/-- Whether a loader finds all that another one finds. -/
def LoadsMore (load load' : Loader) : Prop :=
  ∀ u s, load u = some s → load' u = some s

section More

variable {load load' : Loader} {annotate : Annotator} {root : Uri} (hmore : LoadsMore load load')

include hmore

theorem LoadsMore.load? {u : Uri} {s : Script} (h : load? load annotate u = some s) :
    load? load' annotate u = some s := by
  obtain ⟨src, hs, rfl⟩ := Option.map_eq_some_iff.mp h
  exact Option.map_eq_some_iff.mpr ⟨src, hmore u src hs, rfl⟩

theorem LoadsMore.reachable {u : Uri} (h : Reachable load annotate root u) :
    Reachable load' annotate root u := by
  induction h with
  | root => exact .root
  | included _ hl ht ih => exact .included ih (hmore.load? hl) ht

/-- Where more can be loaded, a program has more scripts. -/
theorem LoadsMore.mem_scripts (hf : FewReachable load' annotate root)
    {c c' : Collected} (h : collectFrom? load annotate root = some c)
    (h' : collectFrom? load' annotate root = some c') :
    ∀ s ∈ c.scripts, s ∈ c'.scripts := by
  intro s hs
  have hr := hmore.reachable (reachable_of_mem_collectFrom? h s hs)
  exact mem_collectFrom?_of_reachable h' (le_of_lt hf) hr
    (hmore.load? (load?_of_mem_collectFrom? h hs))

end More

theorem knows_symbolsOf_of_subset {ss ss' : List Script}
    (h : ∀ s ∈ ss, s ∈ ss') (bs : Keys String) {id : String}
    (hk : (symbolsOf ss).knows bs id = true) :
    (symbolsOf ss').knows bs id = true := by
  rw [Context.knows, Bool.or_eq_true] at hk ⊢
  refine hk.imp_left fun hd ↦ ?_
  obtain ⟨one, ho, hi⟩ := (declares_symbolsOf_iff ss id).mp hd
  obtain ⟨s, hs, hin⟩ := mem_flatMap.mp ho
  exact (declares_symbolsOf_iff ss' id).mpr ⟨one, mem_flatMap.mpr ⟨s, h s hs, hin⟩, hi⟩

end Program

/-- Where a divert leads somewhere, it does so too if more is known. -/
theorem Context.leads_of_knows {c more : Context} {bs : Keys String}
    (h : ∀ id, c.knows bs id = true → more.knows bs id = true) {sc d : String}
    (hd : Path.Leads d) (hl : c.leads bs sc d = true) :
    more.leads bs sc d = true := by
  obtain ⟨he, hp, hq⟩ := hd
  rw [Context.leads_iff _ bs he hp hq] at hl ⊢
  obtain ⟨id, hi, hk⟩ := hl
  exact ⟨id, hi, h id hk⟩

/-- A divert of a script goes along a path that can lead somewhere. -/
theorem Script.exists_divert {text : String} {item : Annotated Reference}
    (hi : item ∈ (annotate text).references.items) (hd : item.value.isDivert = true) :
    ∃ id, item.value = Reference.ofUse .divert id ∧ Path.Leads id := by
  rw [(perm_lineItems text).mem_iff, lineItems_eq] at hi
  obtain ⟨entry, he, rfl⟩ := mem_map.mp hi
  obtain ⟨id, hv, -⟩ := pathDivert_of_mem_placements he hd
  have hm : (entry.1.path, id) ∈ divertsAt (placementsOf text) := by
    refine mem_flatMap.mpr ⟨entry, he, ?_⟩
    rw [if_pos hd, hv]
    exact mem_singleton.mpr rfl
  have hl := leads_of_mem_divertsAt hm
  exact ⟨id, hv, hl⟩

namespace Program

/-- A divert that is lost though more is known was lost before. -/
theorem isLostDivert_of_knows {context more : Context} {builtins : Keys String}
    (h : ∀ id, context.knows builtins id = true → more.knows builtins id = true) {text : String}
    {entry : Scope × Annotated Reference}
    (he : entry ∈ Scope.walk text.toList Scope.top (annotate text).references.items)
    (hl : isLostDivert more builtins entry = true) :
    isLostDivert context builtins entry = true := by
  simp only [isLostDivert, Bool.and_eq_true] at hl ⊢
  obtain ⟨⟨hd, hu⟩, hn⟩ := hl
  refine ⟨⟨hd, hu⟩, ?_⟩
  obtain ⟨id, hv, hle⟩ := exists_divert (Scope.mem_of_mem_walk he) hd
  rw [hv, ← not_any_eq_all_not, Bool.not_eq_true'] at hn ⊢
  exact Bool.eq_false_iff.mpr fun hs ↦ Bool.eq_false_iff.mp hn (Context.leads_of_knows h hle hs)

/-- If more scripts can be loaded, a program has all the scripts that it had, and the diverts that it
reports as lost in them it reported before. -/
theorem lostDiverts_of_more {load load' : Loader} (hmore : LoadsMore load load')
    (builtins : Keys String) {root : Uri}
    (hfew : FewReachable load' annotate root) {program : Program}
    (h : build? annotate builtins load root = some program) :
    ∃ program', build? annotate builtins load' root = some program' ∧
      ∀ uri, program.covers uri = true → program'.covers uri = true ∧
        ((program'.diagnosticsFor uri).filter tellsLostDivert).Sublist
          ((program.diagnosticsFor uri).filter tellsLostDivert) := by
  obtain ⟨source, hsource⟩ := Option.isSome_iff_exists.mp (isSome_load_of_build? h)
  have hroot : (load' root).isSome = true := by rw [hmore root source hsource, Option.isSome_some]
  obtain ⟨program', h'⟩ := Option.isSome_iff_exists.mp
    (@isSome_build? annotate builtins load' root hroot)
  refine ⟨program', h', fun uri hcovers ↦ ?_⟩
  obtain ⟨collected, hcollected, rfl⟩ := Option.map_eq_some_iff.mp h
  obtain ⟨collected', hcollected', rfl⟩ := Option.map_eq_some_iff.mp h'
  obtain ⟨script, hscript, rfl⟩ := (covers_ofScripts_iff _ _ _ _).mp hcovers
  have hsubset := hmore.mem_scripts hfew hcollected hcollected'
  have hscript' := hsubset script hscript
  refine ⟨(covers_ofScripts_iff _ _ _ _).mpr ⟨script, hscript', rfl⟩, ?_⟩
  rw [diagnosticsFor_ofScripts (nodup_collectFrom? hcollected) hscript,
    diagnosticsFor_ofScripts (nodup_collectFrom? hcollected') hscript', filter_report_faultsOf,
    filter_report_faultsOf, divertFaults_eq_map, divertFaults_eq_map]
  refine ((List.Sublist.map _ ?_).map _)
  have hknows : ∀ id, (symbolsOf collected.scripts).knows builtins id = true →
      (symbolsOf collected'.scripts).knows builtins id = true :=
    fun id ↦ knows_symbolsOf_of_subset hsubset builtins
  rw [annotations_of_mem_collectFrom? hcollected hscript]
  generalize hwalk : Scope.walk script.text.toList Scope.top
    (annotate script.text).references.items = entries
  have hfilter : entries.filter (isLostDivert (symbolsOf collected'.scripts) builtins) =
      (entries.filter (isLostDivert (symbolsOf collected.scripts) builtins)).filter
        (isLostDivert (symbolsOf collected'.scripts) builtins) := by
    rw [filter_filter]
    refine filter_congr fun entry hentry ↦ ?_
    rw [← hwalk] at hentry
    rw [Bool.eq_iff_iff, Bool.and_eq_true]
    exact ⟨fun hlost ↦ ⟨hlost, isLostDivert_of_knows hknows hentry hlost⟩, And.left⟩
  rw [hfilter]
  exact filter_sublist

/-- A story whose second script is missing. -/
def cutLoader : Loader := fun u ↦
  if u = innUri then some ⟨1, "INCLUDE room.ink\n-> cellar\n-> bed\n"⟩ else none

/-- The same story with the second script, which declares one of two sections that the first script
diverts to. -/
def wholeLoader : Loader := fun u ↦
  if u = roomUri then some ⟨1, "== bed\n-> out\n"⟩ else cutLoader u

theorem lostDiverts_of_more_inn :
    ∃ program program' : Program, build? annotate Table.empty cutLoader innUri = some program ∧
      build? annotate Table.empty wholeLoader innUri = some program' ∧
      program'.covers innUri = true ∧
      ((program'.diagnosticsFor innUri).filter tellsLostDivert).Sublist
        ((program.diagnosticsFor innUri).filter tellsLostDivert) ∧
      (program.diagnosticsFor innUri).countP tellsLostDivert = 2 ∧
      (program'.diagnosticsFor innUri).countP tellsLostDivert = 1 := by
  have hmore : LoadsMore cutLoader wholeLoader := by
    intro uri source hsource
    have hne : uri ≠ roomUri := by
      rintro rfl
      cases hsource
    rw [wholeLoader, if_neg hne, hsource]
  have hfew : FewReachable wholeLoader annotate innUri :=
    fewReachable_of_closed [innUri, roomUri] (by decide) (by decide +kernel) (by decide)
  obtain ⟨program, hprogram⟩ := Option.isSome_iff_exists.mp
    (@isSome_build? annotate Table.empty cutLoader innUri (by decide))
  obtain ⟨program', hprogram', hreports⟩ := lostDiverts_of_more hmore Table.empty hfew hprogram
  obtain ⟨hcovers, hsublist⟩ := hreports innUri (covers_root_of_build? hprogram)
  have hbefore : ((build? annotate Table.empty cutLoader innUri).map fun program ↦
      (program.diagnosticsFor innUri).countP tellsLostDivert) = some 2 := by
    rw [annotate_eq_annotateInOrder]
    decide +kernel
  have hafter : ((build? annotate Table.empty wholeLoader innUri).map
      fun program ↦ (program.diagnosticsFor innUri).countP tellsLostDivert) = some 1 := by
    rw [annotate_eq_annotateInOrder]
    decide +kernel
  rw [hprogram] at hbefore
  rw [hprogram'] at hafter
  exact ⟨program, program', hprogram, hprogram', hcovers, hsublist, Option.some.inj hbefore,
    Option.some.inj hafter⟩

end Program

end StoryScript
