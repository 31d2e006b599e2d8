import StoryScript.Proofs.Program.Closed
import StoryScript.Proofs.Rename.Edits

/-!
The program that is built from the scripts after a rename. As long as these include the same scripts,
it has the same scripts, in the same order, each with its new text (`Rename.collectFrom?_loader`). The
diverts that lead nowhere can be counted script by script, since no script is loaded twice
(`Program.lostDiverts_ofScripts`).
-/

namespace StoryScript

open List

namespace Program

/-- How many diagnostics of a program tell of diverts that lead nowhere. -/
def lostDiverts (p : Program) : Nat :=
  (p.diagnostics.entries.flatMap Prod.snd).countP Diagnostic.tellsLostDivert

/-- The diverts of a script, each with the path of its scope. -/
def Script.diverts (s : Script) : List (String × String) :=
  StoryScript.Script.divertsAt (Scope.walk s.text.toList Scope.top s.annotations.references.items)

/-- A divert along a path is lost if it leads to nothing known. -/
theorem countP_isLostDivert (c : Context) (bs : Keys String)
    {es : List (Scope × Annotated Reference)}
    (h : ∀ e ∈ es, e.2.value.isDivert = true → StoryScript.Script.PathDivert e.2) :
    es.countP (isLostDivert c bs) = (StoryScript.Script.divertsAt es).countP
        fun d ↦ !c.leads bs d.1 d.2 := by
  induction es with
  | nil => rfl
  | cons e r ih =>
    obtain ⟨he, hr⟩ := forall_mem_cons.mp h
    rw [StoryScript.Script.divertsAt, flatMap_cons, countP_append, countP_cons, ih hr, Nat.add_comm]
    congr 1
    cases hd : e.2.value.isDivert with
    | false => simp [isLostDivert, hd]
    | true =>
      obtain ⟨id, hv, -⟩ := he hd
      have hl : ((c.resolveReference bs (.ofUse .divert id) false
          e.1.path).all fun id ↦ !c.knows bs id) = !c.leads bs e.1.path id := by
        rw [Context.leads, not_any_eq_all_not]
      rw [isLostDivert, if_pos rfl, hv, hl]
      simp [Reference.ofUse, Reference.isDivert, Reference.isDeclaration]

/-- The diagnostics on lost diverts of a program tell of the diverts of its scripts that lead to
nothing known. -/
theorem lostDiverts_ofScripts (bs : Keys String) (r : Uri) {c : Collected}
    (hn : (c.scripts.map Script.uri).Nodup)
    (h : ∀ s ∈ c.scripts, ∀ x ∈ s.annotations.references.items,
      x.value.isDivert = true → StoryScript.Script.PathDivert x) :
    (ofScripts bs r c).lostDiverts = (c.scripts.flatMap Script.diverts).countP fun d ↦
        !(symbolsOf c.scripts).leads bs d.1 d.2 := by
  have hke : ((c.scripts.map fun s ↦ (s.uri, s.report (faultsOf bs c s))).map Prod.fst).Nodup := by
    rw [map_map]
    exact hn
  refine (((Table.perm_entries_ofList hke).flatMap_right Prod.snd).countP_eq _).trans ?_
  rw [flatMap_map, countP_flatMap, countP_flatMap]
  refine congrArg List.sum (map_congr_left fun s hs ↦ ?_)
  refine (countP_report_faultsOf bs c s).trans ?_
  rw [length_divertFaults]
  exact countP_isLostDivert _ bs fun e he ↦ h s hs e.2 (Scope.mem_of_mem_walk he)

/-! ### Walks over included scripts -/

/-- Walks that have named the same scripts. -/
structure Frontier.Alike (frontier frontier' : Frontier) : Prop where
  queue : frontier'.queue.map Pending.uri = frontier.queue.map Pending.uri
  seen : frontier'.seen = frontier.seen

theorem Frontier.Alike.extend {s s' : Script} (hu : s'.uri = s.uri)
    {f f' : Frontier} (h : f.Alike f')
    {xs xs' : List (Annotated Include)}
    (hi : xs'.map Annotated.value = xs.map Annotated.value) :
    (f.extend s xs).Alike (f'.extend s' xs') := by
  induction xs generalizing xs' f f' with
  | nil =>
    rw [map_nil, map_eq_nil_iff] at hi
    rw [hi]
    exact h
  | cons x r ih =>
    obtain ⟨x', r', rfl, hit, hr⟩ := map_eq_cons_iff.mp hi
    rw [Frontier.extend, Frontier.extend, hu, hit, h.seen]
    split
    · exact ih h hr
    · split_ifs
      · exact h
      · exact ih h hr
      · refine ih ?_ hr
        refine ⟨?_, rfl⟩
        rw [map_append, map_append, h.queue]
        rfl

end Program

namespace Rename

open Program (Script Frontier Pending Collected load? collect collectFrom?)

variable {rename : Rename} {ld : Loader} {ann : Annotator}

/-- A script after a rename. -/
def scriptOf (rename : Rename) (ann : Annotator) (s : Script) : Script :=
  let text := rename.textOf s.uri s.text
  { s with text, annotations := ann text }

/-- Whether all scripts include the same scripts after a rename. -/
def KeepsIncludes (rename : Rename) (ld : Loader) (ann : Annotator) : Prop :=
  ∀ u s, load? ld ann u = some s →
    (rename.scriptOf ann s).annotations.includes.items.map Annotated.value =
      s.annotations.includes.items.map Annotated.value

theorem load?_loader (uri : Uri) :
    load? (rename.loader ld) ann uri = (load? ld ann uri).map (rename.scriptOf ann) := by
  rw [load?, load?, loader, Option.map_map, Option.map_map]
  rfl

variable (hk : rename.KeepsIncludes ld ann)

include hk

theorem KeepsIncludes.extend {u : Uri} {s : Script} (hl : load? ld ann u = some s) {f f' : Frontier}
    (h : f.Alike f') :
    (f.extend s s.annotations.includes.items).Alike (f'.extend (rename.scriptOf ann s)
        (rename.scriptOf ann s).annotations.includes.items) :=
  @Frontier.Alike.extend s (rename.scriptOf ann s) rfl _ _ h _ _ (hk u s hl)

theorem scripts_collect_loader (q : List Pending) (sn : List Uri) :
    ∀ q' : List Pending, q'.map Pending.uri = q.map Pending.uri →
      (collect (rename.loader ld) ann q' sn).scripts =
        (collect ld ann q sn).scripts.map (rename.scriptOf ann) := by
  fun_induction collect ld ann q sn with
  | case1 =>
    intro q' hq
    rw [map_eq_nil_iff.mp hq, collect]
    rfl
  | case2 sn p q hl r ih =>
    intro q' hq
    obtain ⟨p', r', rfl, hp, hr⟩ := map_eq_cons_iff.mp hq
    rw [collect, hp, load?_loader, hl]
    exact ih r' hr
  | case3 sn p q s hl f r ih =>
    intro q' hq
    obtain ⟨p', r', rfl, hp, hr⟩ := map_eq_cons_iff.mp hq
    have hqu : Frontier.Alike ⟨q, sn⟩ ⟨r', sn⟩ := ⟨hr, rfl⟩
    obtain ⟨hn, hs⟩ := hk.extend hl hqu
    rw [collect, hp, load?_loader, hl]
    have hla := ih _ hn
    nth_rewrite 1 [← hs] at hla
    exact congrArg (rename.scriptOf ann s :: ·) hla

/-- After a rename that keeps what is included, a program has the same scripts with other texts. -/
theorem collectFrom?_loader {r : Uri} {c : Collected} (h : collectFrom? ld ann r = some c) :
    ∃ c', collectFrom? (rename.loader ld) ann r = some c' ∧
      c'.scripts = c.scripts.map (rename.scriptOf ann) := by
  obtain ⟨s, hlo, rfl⟩ := Option.map_eq_some_iff.mp h
  have hr : Frontier.Alike ⟨[], [r]⟩ ⟨[], [r]⟩ := ⟨rfl, rfl⟩
  obtain ⟨hn, hs⟩ := hk.extend hlo hr
  have hl := scripts_collect_loader hk _
    (Frontier.extend s ⟨[], [r]⟩ s.annotations.includes.items).seen _ hn
  nth_rewrite 1 [← hs] at hl
  rw [collectFrom?, load?_loader, hlo]
  exact ⟨_, rfl, congrArg (rename.scriptOf ann s :: ·) hl⟩

end Rename

end StoryScript
