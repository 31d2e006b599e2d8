import Mathlib.Data.List.Perm.Basic
import StoryScript.Proofs.Rename.Diverts
import StoryScript.Proofs.Story

/-!
The diverts that a rename breaks. Each segment of a divert is an occurrence of what the path up to it
leads to by itself, while the divert as a whole may lead elsewhere. A divert is torn if its segments
and those of the ids that it may lead to get the new name in different places (`Query.tears`). No
other divert that leads somewhere is lost, and no lost one is found (`Rename.lostDiverts_after`);
diverts of a single name are never torn (`Query.tears_of_dotless`).
-/

namespace StoryScript

open Context List StoryScript.Path Program Program.Script Query Reference Script Table

variable {divert : String × String} {new : String}

namespace Path

variable {name : String}

/-! ### Diverts of a single name -/

theorem mem_candidates_iff {sc : List String} {id : String} :
    id ∈ candidates sc name ↔ ∃ depth ≤ sc.length, ofSegments (sc.take depth ++ [name]) = id := by
  simp only [candidates, mem_map, mem_reverse, mem_range, Nat.lt_succ_iff]

section Single

variable {sc divert : String} (hd : '.' ∉ divert.toList) (he : divert ≠ "")
  (hp : divert ≠ parent)

include hd he hp

theorem ofDivert?_of_dotless :
    ofDivert? divert sc = if isNumeric divert then none else some divert := by
  have hne : divert ≠ "." := by
    rintro rfl
    exact hd (by decide)
  rw [ofDivert?, if_neg hne, if_neg he, segments_of_dotless hd]
  simp only [start?, if_neg he, if_neg hp, follow?]
  split_ifs
  · rfl
  · rfl

omit he hp in
theorem isDivertPath_of_dotless (hq : '?' ∉ divert.toList) : isDivertPath divert = true := by
  rw [isDivertPath_eq hq, segments_of_dotless hd]
  rfl

/-- A name may lead to what has it within the scope, or within one of those that enclose it. -/
theorem mem_targetsOf_of_dotless (hq : '?' ∉ divert.toList)
    (hnu : isNumeric divert = false) {depth : Nat} (hde : depth ≤ (names sc).length)
    (hex : isExplicit divert = true → depth = 0) :
    ofSegments ((names sc).take depth ++ [divert]) ∈ targetsOf sc divert := by
  rw [targetsOf, if_pos (isDivertPath_of_dotless hd hq),
    ofDivert?_of_dotless hd he hp, hnu, if_neg Bool.false_ne_true,
    Option.toList_some, flatMap_singleton]
  by_cases hca : isExplicit divert = true
  · rw [hex hca]
    exact mem_cons_self
  · rw [if_neg hca]
    exact mem_cons_of_mem _ (mem_candidates_iff.mpr ⟨depth, hde, rfl⟩)

end Single

theorem isExplicit_of_isFreeName (h : Script.IsFreeName name.toList) : isExplicit name = false := by
  obtain ⟨he, -, hd, hca⟩ := ne_of_isFreeName h
  rw [isExplicit_eq (segments_of_dotless hd)]
  simp [hca]

/-! ### Scopes with other names -/

section Respell

variable {oc : String → Bool} {old new : String}

theorem take_respellFrom (o : String) (ns : List String) (depth : Nat) :
    (respellFrom oc old new o ns).take depth = respellFrom oc old new o (ns.take depth) := by
  induction ns generalizing o depth with
  | nil => simp [respellFrom]
  | cons x r ih =>
    cases depth with
    | zero => rfl
    | succ depth => rw [respellFrom, take_succ_cons, ih, take_succ_cons, respellFrom]

theorem length_respellFrom (o : String) (ns : List String) :
    (respellFrom oc old new o ns).length = ns.length := by
  induction ns generalizing o with
  | nil => rfl
  | cons x r ih => rw [respellFrom, length_cons, ih, length_cons]

theorem respell_ofSegments_concat {ns : List String} (hnam : ∀ part ∈ ns, '.' ∉ part.toList)
    (hna : '.' ∉ name.toList) :
    respell oc old new (ofSegments (ns ++ [name])) =
      ofSegments (respellFrom oc old new "" ns ++
        [if name = old ∧ oc (ofSegments (ns ++ [name])) then new else name]) := by
  by_cases he : ns = []
  · subst he
    exact respell_of_dotless hna
  · rw [ofSegments_concat he, respell_append _ hna,
      ofSegments_concat (respellFrom_ne_nil he ""), respell, segments_ofSegments he hnam]
    rfl

theorem names_eq_segments {path : String} (h : Plain path) : names path = segments path :=
  filter_eq_self.mpr fun _ hna ↦ decide_eq_true fun heq ↦ h.nonempty (heq ▸ hna)

theorem names_respell (ho : old ≠ "") (hn : new ≠ "" ∧ '.' ∉ new.toList) {path : String}
    (h : path = "" ∨ Plain path) :
    names (respell oc old new path) = respellFrom oc old new "" (names path) := by
  rcases h with rfl | h
  · rw [(respell_eq_empty_iff ho hn "").mpr rfl]
    rfl
  · have ha : ∀ (o : String) (parts : List String), "" ∉ parts →
        "" ∉ respellFrom oc old new o parts := by
      intro o parts hpa
      induction parts generalizing o with
      | nil => exact not_mem_nil
      | cons x r ih =>
        obtain ⟨hf, hr⟩ := not_or.mp (mt mem_cons.mpr hpa)
        refine mt mem_cons.mp (not_or.mpr ⟨?_, ih _ hr⟩)
        unfold respellName
        split_ifs
        · exact hn.1.symm
        · exact hf
    rw [names_eq_segments h, names, segments_respell hn.2]
    refine filter_eq_self.mpr fun name hna ↦ decide_eq_true fun heq ↦ ?_
    exact ha "" _ h.nonempty (heq ▸ hna)

end Respell

end Path

namespace Context

variable {c : Context} {builtins : Keys String} {sc divert : String}

theorem resolveReference_divert (hpa : isDivertPath divert = true) (dep : Bool) :
    c.resolveReference builtins (ofUse .divert divert) dep sc =
      (c.resolveDivert? builtins sc divert).toList := by
  have hi : (ofUse .divert divert).symbolIds ++
      (if dep then (ofUse .divert divert).interdependentIds else []) = [divert] := by
    cases dep <;> rfl
  have hdi : (ofUse .divert divert).isDivert = true := rfl
  rw [resolveReference, hi]
  simp only [hdi, hpa, Bool.and_self, if_true, filterMap_cons, filterMap_nil]
  cases c.resolveDivert? builtins sc divert with
  | none => rfl
  | some id => rfl

/-- A divert of a single name that leads somewhere leads to one id: the name within the scope, or
within one of those that enclose it. -/
theorem exists_resolved_of_leads (hd : '.' ∉ divert.toList) (hdi : Leads divert)
    (h : c.leads builtins sc divert = true) :
    ∃ id, (∀ dep, c.resolveReference builtins (ofUse .divert divert)
        dep sc = [id]) ∧ c.knows builtins id = true ∧
      isNumeric divert = false ∧
      ∃ depth ≤ (names sc).length, (isExplicit divert = true → depth = 0) ∧
        ofSegments ((names sc).take depth ++ [divert]) = id := by
  obtain ⟨he, hp, hq⟩ := hdi
  rw [last_of_dotless hd] at he hp
  have hr := @resolveReference_divert c builtins sc divert (isDivertPath_of_dotless hd hq)
  cases hnu : isNumeric divert with
  | true =>
    rw [leads, hr, resolveDivert?, ofDivert?_of_dotless hd he hp, if_pos hnu] at h
    cases h
  | false =>
    have hf : c.resolveDivert? builtins sc divert =
        some (if c.knows builtins divert then divert else if isExplicit divert then divert
          else (c.lookup? builtins sc divert).getD divert) := by
      rw [resolveDivert?, ofDivert?_of_dotless hd he hp, hnu,
        if_neg Bool.false_ne_true, Option.map_some]
    rw [leads, hr, hf, Option.toList_some, any_cons, any_nil, Bool.or_false] at h
    refine ⟨_, fun dep ↦ ?_, h, rfl, ?_⟩
    · rw [hr, hf, Option.toList_some]
    split_ifs with _ hex
    · exact ⟨0, Nat.zero_le _, fun _ ↦ rfl, rfl⟩
    · exact ⟨0, Nat.zero_le _, fun _ ↦ rfl, rfl⟩
    · cases hl : c.lookup? builtins sc divert with
      | none => exact ⟨0, Nat.zero_le _, fun _ ↦ rfl, rfl⟩
      | some f =>
        rw [lookup?, if_neg he] at hl
        obtain ⟨depth, hde, hf⟩ := mem_candidates_iff.mp (mem_of_find?_eq_some hl)
        exact ⟨depth, hde, fun hca ↦ absurd hca hex, hf⟩

end Context

namespace Query

variable (query : Query) (new : String)

/-- Whether a rename breaks a divert: it leads somewhere, and none of the ids that it may lead to is
where it may lead after the rename, when both have the new name. -/
def tears (divert : String × String) : Bool :=
  query.context.leads query.builtins divert.1 divert.2 && (targetsOf divert.1 divert.2).all fun id ↦
      !(query.context.knows query.builtins id &&
        decide (query.renamedId new id ∈ targetsOf (query.renamedDivert new divert).1
          (query.renamedDivert new divert).2))

variable {query new}

theorem tears_eq_false_iff {divert : String × String} : query.tears new divert = false ↔
    (query.context.leads query.builtins divert.1 divert.2 = true → query.StillLeads new divert) := by
  rw [tears, Bool.and_eq_false_iff, all_eq_false, ← Bool.not_eq_true, ← imp_iff_not_or]
  simp [StillLeads]

theorem countP_not_tears {ld : String × String → Bool}
    (h : ∀ divert, query.tears new divert = true → ld divert = true)
    (diverts : List (String × String)) :
    diverts.countP (fun divert ↦ !(ld divert && !query.tears new divert)) =
      diverts.countP (fun divert ↦ !ld divert) + diverts.countP (query.tears new) := by
  induction diverts with
  | nil => rfl
  | cons divert r ih =>
    rw [countP_cons, countP_cons, countP_cons, ih]
    cases ht : query.tears new divert with
    | false => simp only [Bool.not_false, Bool.and_true, Bool.false_eq_true, if_false]; omega
    | true => simp only [h divert ht, Bool.not_true, Bool.and_false, Bool.not_false, if_true,
        Bool.false_eq_true, if_false]; omega

variable (ho : Script.IsFreeName query.name.toList) (hn : Script.IsFreeName new.toList)

include ho hn

/-- Diverts of a single name are not broken. -/
theorem tears_of_dotless {divert : String × String} (hs : divert.1 = "" ∨ Plain divert.1)
    (hd : '.' ∉ divert.2.toList) (hdi : Leads divert.2) :
    query.tears new divert = false := by
  cases hl : query.context.leads query.builtins divert.1 divert.2 with
  | false => rw [tears, hl, Bool.false_and]
  | true =>
    obtain ⟨id, hr, hk, hnu, depth, hde, hex, rfl⟩ := exists_resolved_of_leads hd hdi hl
    obtain ⟨he, hp, hq⟩ := hdi
    rw [last_of_dotless hd] at he hp
    obtain ⟨ho', -, -, -⟩ := ne_of_isFreeName ho
    obtain ⟨hn', hp', hd', -⟩ := ne_of_isFreeName hn
    refine tears_eq_false_iff.mpr fun _ ↦ ⟨_, mem_targetsOf_of_dotless hd he hp
      hq hnu hde hex, hk, ?_⟩
    have hna : ∀ part ∈ (names divert.1).take depth, '.' ∉ part.toList :=
      fun part hpa ↦ dotless_of_mem_names (take_subset _ _ hpa)
    have hs' : names (query.renamedDivert new divert).1 =
        respellFrom (fun id ↦ id ∈ query.targets) query.name new "" (names divert.1) :=
      names_respell ho' ⟨hn', hd'⟩ hs
    have hde' : depth ≤ (names (query.renamedDivert new divert).1).length := by
      rwa [hs', length_respellFrom]
    -- The name is replaced in the divert if it is in the one id that the divert leads to.
    have hdi' : (query.renamedDivert new divert).2 =
        if divert.2 = query.name ∧ decide (ofSegments ((names divert.1).take depth ++
          [divert.2]) ∈ query.targets) = true then new else divert.2 := by
      rw [renamedDivert, respell_of_dotless hd, respellName, String.empty_append,
        reaches, resolve, hr, any_cons, any_nil, Bool.or_false]
    rw [renamedId, respell_ofSegments_concat hna hd, ← hdi', ← take_respellFrom, ← hs']
    have hca : (query.renamedDivert new divert).2 = new ∨
        (query.renamedDivert new divert).2 = divert.2 := by
      rw [hdi']
      split_ifs
      · exact .inl rfl
      · exact .inr rfl
    generalize (query.renamedDivert new divert).2 = name at hca
    generalize (query.renamedDivert new divert).1 = sc at hde'
    rcases hca with rfl | rfl
    · refine mem_targetsOf_of_dotless hd' hn' hp' ?_ ?_ hde' ?_
      · exact notMem_of_isFreeName hn (by decide)
      · exact isNumeric_of_isFreeName hn
      · intro hex
        rw [isExplicit_of_isFreeName hn] at hex
        cases hex
    · exact mem_targetsOf_of_dotless hd he hp hq hnu hde' hex

end Query

/-! ### The diverts of a project -/

/-- The scopes of diverts have names only. -/
theorem Script.plain_of_mem_divertsAt {t : String} (h : divert ∈ divertsAt (placementsOf t)) :
    divert.1 = "" ∨ Plain divert.1 := by
  obtain ⟨e, hen, hi⟩ := mem_flatMap.mp h
  split_ifs at hi
  · obtain ⟨id, -, rfl⟩ := mem_map.mp hi
    obtain ⟨_, -, hcl, -⟩ := exists_line_of_mem_placements (layout_lineGlyphs t)
      (show Scope.top.Clear from nofun) hen
    exact hcl.path
  · cases hi

/-- The diverts of a program's scripts that lead to nothing known are reported. -/
theorem Program.lostDiverts_of_collectFrom? {load : Loader} {root : Uri} {collected : Collected}
    (builtins : Keys String)
    (hcollected : collectFrom? load annotate root = some collected) :
    (ofScripts builtins root collected).lostDiverts =
      (collected.scripts.flatMap diverts).countP fun divert ↦
        !(symbolsOf collected.scripts).leads builtins divert.1 divert.2 := by
  refine lostDiverts_ofScripts builtins root (nodup_collectFrom? hcollected) fun s hs x hi hdi ↦ ?_
  rw [annotations_of_mem_collectFrom? hcollected hs,
    (perm_lineItems s.text).mem_iff, lineItems_eq] at hi
  obtain ⟨e, hen, rfl⟩ := mem_map.mp hi
  exact pathDivert_of_mem_placements hen hdi

theorem Program.leads_ofScripts (builtins : Keys String) (root : Uri) (collected : Collected)
    (sc divert : String) :
    (ofScripts builtins root collected).context.leads builtins sc divert =
      (symbolsOf collected.scripts).leads builtins sc divert := by
  have hk : (ofScripts builtins root collected).context.knows builtins =
      (symbolsOf collected.scripts).knows builtins := by
    funext id
    rw [knows, knows, declares_ofScripts]
  rw [leads, leads, resolveReference_ofScripts, hk]

theorem Program.leads_of_mem_diverts {s : Program.Script} (ha : s.annotations = annotate s.text)
    (h : divert ∈ s.diverts) : Leads divert.2 := by
  rw [diverts, ha, (perm_divertsAt s.text).mem_iff] at h
  exact leads_of_mem_divertsAt h

/-- The diverts of a document, each with the path of its scope. -/
def Document.diverts (d : Document) : List (String × String) :=
  divertsAt (Scope.walk d.text.toList Scope.top d.annotations.references.items)

/-- The diverts of all open documents. -/
def Store.diverts (store : Store) : List (String × String) :=
  store.documents.entries.flatMap fun e ↦ e.2.diverts

section Project

variable {store : Store} {load : Loader} {builtins : Keys String} {root : Uri}
  {collected : Program.Collected}
  (hcollected : collectFrom? load Script.annotate root = some collected)
  (hstore : store.Mirrors load Script.annotate (ofScripts builtins root collected))

include hcollected hstore

/-- The diverts of a program are those of the open documents. -/
theorem Store.Mirrors.perm_diverts :
    (collected.scripts.flatMap Program.Script.diverts).Perm store.diverts := by
  have hu : (collected.scripts.map uri).Perm
      (store.documents.entries.map Prod.fst) := by
    refine (perm_ext_iff_of_nodup (nodup_collectFrom? hcollected)
      store.documents.nodup_keys).mpr fun u ↦ ?_
    have hco := (covers_ofScripts_iff builtins root collected u).symm
    rw [← hstore.contains_eq, Store.contains, Table.contains_iff, ← Table.mem_keys_iff] at hco
    rwa [mem_map]
  have hsc : collected.scripts.flatMap Program.Script.diverts =
      (collected.scripts.map uri).flatMap fun u ↦
        ((store.get? u).map Document.diverts).getD [] := by
    rw [flatMap_map]
    refine flatMap_congr fun s hs ↦ ?_
    obtain ⟨d, hop, ht, ha⟩ := hstore.exists_document hcollected hs
    rw [hop, Program.Script.diverts, ht, ha]
    rfl
  have hen : store.diverts = (store.documents.entries.map Prod.fst).flatMap fun u ↦
      ((store.get? u).map Document.diverts).getD [] := by
    rw [Store.diverts, flatMap_map]
    refine flatMap_congr fun e hent ↦ ?_
    have hop : store.get? e.1 = some e.2 := (Table.mem_entries_iff _ _ _).mp hent
    rw [hop]
    rfl
  rw [hsc, hen]
  exact hu.flatMap_right _

variable {workspace : Workspace} {query : Query} {se : Search} {rename : Rename} {new : String}
  (hrenews : rename.Renews store workspace builtins query se new)

include hrenews

namespace Rename

variable {s : Program.Script}

/-- What a script declares, diverts to and includes after a rename. -/
theorem alike_scriptOf (hs : s ∈ collected.scripts) :
    declaredIds ((placementsOf (rename.scriptOf annotate s).text).map Prod.snd) =
        (declaredIds ((placementsOf s.text).map Prod.snd)).map (query.renamedId new) ∧
      (rename.scriptOf annotate s).diverts.Perm (s.diverts.map (query.renamedDivert new)) := by
  obtain ⟨d, hop, ht, han⟩ := hstore.exists_document hcollected hs
  have ha := hstore.annotations_eq _ d hop
  obtain ⟨hde, hdi, -⟩ := hrenews.alike_textOf hop ha
  have hbe := (perm_divertsAt d.text).map (query.renamedDivert new)
  rw [← hdi] at hbe
  have haf := perm_divertsAt (rename.textOf s.uri d.text)
  rw [diverts, diverts, han, ht, ha]
  simp only [scriptOf, ht]
  exact ⟨hde, haf.trans hbe.symm⟩

omit hcollected in
theorem keepsIncludes : rename.KeepsIncludes load annotate := by
  intro u s hl
  obtain ⟨src, hs, rfl⟩ := Option.map_eq_some_iff.mp hl
  cases hop : store.get? u with
  | none => simp only [scriptOf, textOf_of_closed hrenews.edits hrenews.occurrences hop]
  | some d =>
    have ht := hstore.text_eq u d hop
    rw [hs, Option.map_some, Option.some.injEq] at ht
    simp only [scriptOf, ht]
    exact (hrenews.alike_textOf hop (hstore.annotations_eq u d hop)).2.2

variable (hc : query.context = (ofScripts builtins root collected).context)

include hc

/-- What is declared after a rename. -/
theorem declares_symbolsOf_scriptOf (id : String) :
    (symbolsOf (collected.scripts.map (rename.scriptOf annotate))).declares id =
      (query.renamed new).declares id := by
  have ha := fun s ↦ @Program.annotations_of_mem_collectFrom? _ _ _ _ hcollected s
  rw [Bool.eq_iff_iff, query.declares_renamed_iff, hc,
    declares_symbolsOf_iff_exists (forall_mem_map.mpr fun _ _ ↦ rfl)]
  simp only [declares_ofScripts, declares_symbolsOf_iff_exists ha]
  constructor
  · rintro ⟨_, hs', hi⟩
    obtain ⟨s, hs, rfl⟩ := mem_map.mp hs'
    rw [(alike_scriptOf hcollected hstore hrenews hs).1] at hi
    obtain ⟨l, hbe, rfl⟩ := mem_map.mp hi
    exact ⟨l, ⟨s, hs, hbe⟩, rfl⟩
  · rintro ⟨l, ⟨s, hs, hbe⟩, rfl⟩
    refine ⟨_, mem_map_of_mem hs, ?_⟩
    rw [(alike_scriptOf hcollected hstore hrenews hs).1]
    exact mem_map_of_mem hbe

variable (hb : query.builtins = builtins) (hne : query.name ≠ new)

omit hc

include hne

/-- The new name is a segment of no path of the project. -/
theorem notMem_segments_of_fresh (hs : s ∈ collected.scripts) :
    (∀ id ∈ declaredIds ((placementsOf s.text).map Prod.snd), new ∉ segments id) ∧
      ∀ divert ∈ s.diverts, new ∉ segments divert.1 ∧ new ∉ segments divert.2 := by
  obtain ⟨d, hop, ht, -⟩ := hstore.exists_document hcollected hs
  have hno := notMem_segments_of_absent hrenews.fresh.free hrenews.regular.free hne
    (hrenews.fresh.absent _ d hop) (hrenews.regular.dotless _ d hop)
  rw [← ht] at hno
  refine ⟨hno.1, fun divert hdi ↦ hno.2 divert ?_⟩
  rwa [diverts, annotations_of_mem_collectFrom? hcollected hs,
    (perm_divertsAt s.text).mem_iff] at hdi

include hc

theorem notMem_segments_of_declares {id : String} (h : query.context.declares id = true) :
    new ∉ segments id := by
  have ha := fun s ↦ @Program.annotations_of_mem_collectFrom? _ _ _ _ hcollected s
  rw [hc, declares_ofScripts, declares_symbolsOf_iff_exists ha] at h
  obtain ⟨s, hs, hi⟩ := h
  exact (notMem_segments_of_fresh hcollected hstore hrenews hne hs).1 id hi

include hb

/-- A divert leads somewhere after a rename if it did so before and is not broken. -/
theorem leads_scriptOf (hs : s ∈ collected.scripts) {divert : String × String}
    (hdi : divert ∈ s.diverts) :
    (symbolsOf (collected.scripts.map (rename.scriptOf annotate))).leads builtins
        (query.renamedDivert new divert).1 (query.renamedDivert new divert).2 =
      ((symbolsOf collected.scripts).leads builtins divert.1 divert.2 &&
        !query.tears new divert) := by
  subst hb
  have hl := leads_of_mem_diverts (annotations_of_mem_collectFrom? hcollected hs) hdi
  have ha : Leads (query.renamedDivert new divert).2 := by
    have hpe := (alike_scriptOf hcollected hstore hrenews hs).2
    exact leads_of_mem_diverts rfl (hpe.mem_iff.mpr (mem_map_of_mem hdi))
  have hkn : ∀ id, (symbolsOf
      (collected.scripts.map (rename.scriptOf annotate))).knows query.builtins id =
        (query.renamed new).knows query.builtins id := by
    intro id
    rw [knows, knows, declares_symbolsOf_scriptOf hcollected hstore hrenews hc]
  obtain ⟨hsc, hpa⟩ := (notMem_segments_of_fresh hcollected hstore hrenews hne hs).2 divert hdi
  have hex := leads_renamed_iff hrenews.regular.free hrenews.fresh.free
    (fun id hi ↦ ⟨hrenews.regular.unknown id hi, hrenews.fresh.unknown id hi⟩)
    (fun _ ↦ notMem_segments_of_declares hcollected hstore hrenews hc hne)
    hsc hpa hl ha
  rw [leads_congr hkn _ ha, ← leads_ofScripts, ← hc, Bool.eq_iff_iff,
    hex, Bool.and_eq_true, Bool.not_eq_true']
  constructor
  · intro hi
    refine ⟨?_, tears_eq_false_iff.mpr fun _ ↦ hi⟩
    obtain ⟨id, ht, hk, -⟩ := hi
    exact (query.context.leads_iff _ hl.1 hl.2.1 hl.2.2).mpr ⟨id, ht, hk⟩
  · exact fun h ↦ tears_eq_false_iff.mp h.2 h.1

/-- The diverts that are lost after a rename. -/
theorem lostDiverts_rename {r : Program.Collected}
    (ha : Program.collectFrom? (rename.loader load) Script.annotate root = some r) :
    (ofScripts builtins root r).lostDiverts =
      (ofScripts builtins root collected).lostDiverts +
        store.diverts.countP (query.tears new) := by
  have hk := keepsIncludes hstore hrenews
  obtain ⟨_, hag, hsc⟩ := collectFrom?_loader hk hcollected
  obtain rfl := Option.some.inj (ha.symm.trans hag)
  have hdiv : (r.scripts.flatMap diverts).Perm
      ((collected.scripts.flatMap diverts).map (query.renamedDivert new)) := by
    rw [hsc, flatMap_map, map_flatMap]
    exact Perm.flatMap_left _ fun s hs ↦ (alike_scriptOf hcollected hstore hrenews hs).2
  rw [lostDiverts_of_collectFrom? builtins ha,
    lostDiverts_of_collectFrom? builtins hcollected, hdiv.countP_eq, countP_map,
    ← (hstore.perm_diverts hcollected).countP_eq, hsc]
  rw [← Query.countP_not_tears]
  · refine countP_congr fun divert hdi ↦ ?_
    obtain ⟨s, hs, hdi⟩ := mem_flatMap.mp hdi
    rw [Function.comp_apply, leads_scriptOf hcollected hstore hrenews hc hb hne hs hdi]
  · intro divert ht
    rw [← leads_ofScripts, ← hc, ← hb]
    exact (Bool.and_eq_true_iff.mp ht).1

end Rename

end Project

/-- Diverts that a rename breaks have more than one segment. -/
theorem Store.Mirrors.dot_of_tears {store : Store} {load : Loader} {p : Program}
    (hstore : store.Mirrors load Script.annotate p) {query : Query}
    (ho : Script.IsFreeName query.name.toList) (hn : Script.IsFreeName new.toList)
    (hdi : divert ∈ store.diverts) (ht : query.tears new divert = true) :
    '.' ∈ divert.2.toList := by
  obtain ⟨⟨u, d⟩, hen, hdi⟩ := mem_flatMap.mp hdi
  have ha := hstore.annotations_eq u d ((Table.mem_entries_iff _ _ _).mp hen)
  dsimp only at hdi
  rw [Document.diverts, ha, (perm_divertsAt d.text).mem_iff] at hdi
  by_contra hd
  rw [Query.tears_of_dotless ho hn (plain_of_mem_divertsAt hdi) hd
    (leads_of_mem_divertsAt hdi)] at ht
  cases ht

/-- After a rename, and a build of the edited scripts, the diverts that lead nowhere are those that
did so before and those that the rename tears. Each of the latter is a path of several segments:
these are resolved one by one, and other than the path as a whole. -/
theorem Rename.lostDiverts_after {store : Store} {workspace : Workspace} {load : Loader}
    {builtins : Keys String} {root uri : Uri} {program : Program} {position : Position}
    {document : Document} {symbol : SymbolAt} {query : Query} {new : String}
    (hbuild : build? annotate builtins load root = some program)
    (hstore : store.Mirrors load annotate program)
    (hopen : store.get? uri = some document) (hsymbol : document.symbolAt? position = some symbol)
    (hquery : ofSymbol program.context builtins symbol = query) (htargets : query.targets ≠ [])
    (hfresh : Fresh store builtins new) (hregular : query.Regular store workspace)
    (moveAssets : Bool) :
    ∃ rename, at? store workspace (some program) builtins moveAssets uri position new = some rename ∧
      ∃ after, build? annotate builtins (rename.loader load) root = some after ∧
        after.lostDiverts = program.lostDiverts + store.diverts.countP (query.tears new) ∧
        ∀ divert ∈ store.diverts, query.tears new divert = true → '.' ∈ divert.2.toList := by
  subst hquery
  obtain ⟨collected, hcollected, rfl⟩ := Option.map_eq_some_iff.mp hbuild
  obtain ⟨assets, hfind, hassets⟩ :=
    @Search.find_rename store workspace _ builtins _ _ _ _ hopen hsymbol
  have hclosed : ∀ file ∈ assets, store.get? file = none := by
    intro file hfile
    obtain ⟨id, hid, hfound⟩ := hassets file hfile
    exact hregular.assets id hid file hfound
  have hasset : uri ∉ assets := by
    intro hmem
    rw [hclosed uri hmem] at hopen
    cases hopen
  have hspans := spansIn_ofSymbol_ne_nil hsymbol htargets (hstore.annotations_eq uri document hopen)
  have hne : (ofSymbol (ofScripts builtins root collected).context builtins symbol).name ≠ new := by
    intro heq
    obtain ⟨span, hspan⟩ := exists_mem_of_ne_nil _ hspans
    obtain ⟨first, later, htext, -⟩ := hregular.stands uri document hopen span hspan
    refine hfresh.absent uri document hopen ⟨first, later, ?_⟩
    rw [htext, heq, append_assoc]
  obtain ⟨rename, hrename, hedits⟩ := exists_at? hfind rfl hopen hasset hspans
    (isValidName_of_isFreeName hfresh.free) moveAssets
  have hrenews : rename.Renews store workspace builtins _ _ new :=
    ⟨rfl, hregular, hfresh, hedits, rfl, hclosed⟩
  have hkeeps := keepsIncludes hstore hrenews
  obtain ⟨after, hafter, -⟩ := collectFrom?_loader hkeeps hcollected
  refine ⟨rename, hrename, ofScripts builtins root after, ?_, ?_, fun divert ↦ ?_⟩
  · rw [build?, hafter, Option.map_some]
  · exact lostDiverts_rename hcollected hstore hrenews rfl rfl hne hafter
  · exact hstore.dot_of_tears hregular.free hfresh.free

namespace Rename

def endings : Keys String := Keys.ofList ["DONE", "END"]

/-- A project of one script. -/
def loaderOf (t : String) : Loader := fun u ↦ if u = mainUri then some ⟨1, t⟩ else none

def storeOf (annotate : Annotator) (t : String) : Store :=
  ((⟨annotate, 1000, empty, {}⟩ : Store).open? mainUri 1 t).2

def programOf (annotate : Annotator) (t : String) : Program :=
  (build? annotate endings (loaderOf t) mainUri).getD {}

/-- A knot, and a stitch of another knot, of the same name. The divert leads to a label of the
stitch, but its first segment by itself leads to the knot. -/
def forkText : String := "== K\n= S\n- (x)\n-> S.x\n== S\n"

/-- More diverts to what has this name, and one that leads nowhere. -/
def crossingText : String := "== K\n= S\n- (x)\n-> S.x\n-> S\n== S\n-> K.S.x\n-> lost\n"

def crossingSymbol : SymbolAt := ⟨⟨⟨30, 31⟩, ofDeclaration .knot "S"⟩, "S", "K.S"⟩

def crossingQuery : Query :=
  ofSymbol (programOf annotate crossingText).context endings crossingSymbol

theorem forall_contains_endings (h : ∀ id ∈ ["DONE", "END"], new ∉ segments id) :
    ∀ id, endings.contains id = true → new ∉ segments id := by
  intro id hi
  obtain ⟨v, hv⟩ := (contains_iff _ _).mp hi
  exact h id (Keys.mem_of_mem_ofList ((mem_keys_iff _ _).mpr ⟨v, hv⟩))

theorem fresh_of_entries {store : Store} (hf : Script.IsFreeName new.toList)
    (hent : ∀ e ∈ store.documents.entries, ¬ new.toList <:+: e.2.text.toList)
    (hen : ∀ id ∈ ["DONE", "END"], new ∉ segments id) : Fresh store endings new where
  free := hf
  absent := fun _ _ hop ↦ hent _ ((mem_entries_iff _ _ _).mpr hop)
  unknown := forall_contains_endings hen

def forkSymbol : SymbolAt := ⟨⟨⟨25, 26⟩, ofDeclaration .knot "S"⟩, "S", "K.S"⟩

/-- Another name for the knot, in its header and in the divert. -/
def forkRename : Rename :=
  ⟨[⟨mainUri, some 1, [⟨⟨3, 3⟩, ⟨3, 4⟩⟩, ⟨⟨4, 3⟩, ⟨4, 4⟩⟩], "N"⟩], []⟩

def tornText : String := "== K\n= S\n- (x)\n-> N.x\n== N\n"

/-- Renaming the knot tears the divert. -/
theorem lostDiverts_after_forkText :
    let store := storeOf annotate forkText
    let program := programOf annotate forkText
    let document : Document :=
      { version := 1, text := forkText, annotations := annotate forkText }
    build? annotate endings (loaderOf forkText) mainUri = some program ∧
      store.Mirrors (loaderOf forkText) annotate program ∧ Fresh store endings "N" ∧
      store.get? mainUri = some document ∧ document.symbolAt? ⟨4, 3⟩ = some forkSymbol ∧
      (ofSymbol program.context endings forkSymbol).targets = ["S"] ∧
      program.context.declares "S" = true ∧ program.lostDiverts = 0 ∧
      at? store ⟨["ink"], empty, empty⟩ (some program) endings true mainUri ⟨4, 3⟩ "N" =
        some forkRename ∧
      build? annotate endings (forkRename.loader (loaderOf forkText)) mainUri =
        some (programOf annotate tornText) ∧
      (programOf annotate tornText).lostDiverts = 1 := by
  dsimp only
  refine ⟨?_, Store.mirrors_of_entries ?_ ?_, fresh_of_entries ⟨by decide, by decide, by decide⟩ ?_
    (by decide +kernel), ?_⟩
  all_goals
    rw [annotate_eq_annotateInOrder]
    decide +kernel

def crossingDocument (annotate : Annotator) : Document where
  version := 1
  text := crossingText
  annotations := annotate crossingText

theorem entries_crossingText : (storeOf annotate crossingText).documents.entries =
    [(mainUri, crossingDocument annotate)] := by
  rw [annotate_eq_annotateInOrder]
  decide +kernel

theorem regular_crossingQuery : crossingQuery.Regular (storeOf annotate crossingText)
    ⟨["ink"], empty, empty⟩ := by
  have hop : ∀ {u d}, (storeOf annotate crossingText).get? u = some d →
      d = crossingDocument annotate := by
    intro u d hop
    have hm := (mem_entries_iff _ _ _).mpr hop
    rw [entries_crossingText, mem_singleton] at hm
    exact congrArg Prod.snd hm
  have hsp : crossingQuery.spansIn (crossingDocument annotate) =
      [⟨18, 19⟩, ⟨25, 26⟩, ⟨30, 31⟩] := by
    rw [crossingQuery, annotate_eq_annotateInOrder]
    decide +kernel
  constructor
  · exact ⟨by decide, by decide, by decide⟩
  · rintro u d hdo span hs
    rw [hop hdo, hsp] at hs
    rw [hop hdo]
    simp only [mem_cons, not_mem_nil, or_false] at hs
    rcases hs with rfl | rfl | rfl
    · exact ⟨"== K\n= S\n- (x)\n-> ".toList, ".x\n-> S\n== S\n-> K.S.x\n-> lost\n".toList,
        by decide⟩
    · exact ⟨"== K\n= S\n- (x)\n-> S.x\n-> ".toList, "\n== S\n-> K.S.x\n-> lost\n".toList,
        by decide⟩
    · exact ⟨"== K\n= S\n- (x)\n-> S.x\n-> S\n== ".toList, "\n-> K.S.x\n-> lost\n".toList,
        by decide⟩
  · intro u d hdo
    rw [hop hdo, Dotless, annotate_eq_annotateInOrder]
    decide +kernel
  · exact forall_contains_endings (by decide +kernel)
  · intro id _ file hf
    rw [Workspace.findAssets_of_none rfl] at hf
    cases hf

/-- Beside the torn divert there are one that is renamed with the knot, one that leads to the stitch
from elsewhere, and one that leads nowhere. -/
theorem lostDiverts_after_crossingText :
    let store := storeOf annotate crossingText
    let program := programOf annotate crossingText
    let workspace : Workspace := ⟨["ink"], empty, empty⟩
    crossingQuery.targets = ["S"] ∧ crossingQuery.Regular store workspace ∧
      Fresh store endings "N" ∧
      store.diverts = [("K.S", "S"), ("K.S", "S.x"), ("K.S", "S"), ("S", "K"), ("S", "K.S"),
        ("S", "K.S.x"), ("S", "lost")] ∧
      store.diverts.filter (crossingQuery.tears "N") = [("K.S", "S.x")] ∧
      program.lostDiverts = 1 ∧
      ∃ rename, at? store workspace (some program) endings true mainUri ⟨5, 3⟩ "N" = some rename ∧
        ∃ after, build? annotate endings (rename.loader (loaderOf crossingText))
            mainUri = some after ∧ after.lostDiverts = 2 := by
  intro store program workspace
  have hbuild : build? annotate endings (loaderOf crossingText) mainUri = some program := by
    dsimp only [program]
    rw [annotate_eq_annotateInOrder]
    decide +kernel
  have hentries : store.documents.entries =
      [(mainUri, crossingDocument annotate)] := entries_crossingText
  have hopen : store.get? mainUri = some (crossingDocument annotate) :=
    (mem_entries_iff _ _ _).mp (hentries ▸ mem_cons_self)
  have hstore : store.Mirrors (loaderOf crossingText) annotate program := by
    refine Store.mirrors_of_entries ?_ (hentries ▸ forall_mem_singleton.mpr ⟨by decide, rfl⟩)
    dsimp only [store, program]
    rw [annotate_eq_annotateInOrder]
    decide +kernel
  have hsymbol : (crossingDocument annotate).symbolAt? ⟨5, 3⟩ = some crossingSymbol := by
    rw [annotate_eq_annotateInOrder]
    decide +kernel
  have htargets : crossingQuery.targets = ["S"] := by
    rw [crossingQuery, annotate_eq_annotateInOrder]
    decide +kernel
  have hfresh : Fresh store endings "N" :=
    fresh_of_entries ⟨by decide, by decide, by decide⟩
      (hentries ▸ forall_mem_singleton.mpr (by decide +kernel)) (by decide +kernel)
  have htorn : store.diverts.filter (crossingQuery.tears "N") = [("K.S", "S.x")] := by
    dsimp only [store]
    rw [crossingQuery, annotate_eq_annotateInOrder]
    decide +kernel
  have hlost : program.lostDiverts = 1 := by
    dsimp only [program]
    rw [annotate_eq_annotateInOrder]
    decide +kernel
  obtain ⟨rename, hrename, after, hafter, hcount, -⟩ := lostDiverts_after hbuild hstore hopen hsymbol
    (show ofSymbol program.context endings crossingSymbol = crossingQuery from rfl)
    (by rw [htargets]; exact cons_ne_nil _ _) hfresh regular_crossingQuery true
  rw [countP_eq_length_filter, htorn, hlost] at hcount
  refine ⟨htargets, regular_crossingQuery, hfresh, ?_, htorn, hlost, rename, hrename, after, hafter,
    hcount⟩
  dsimp only [store]
  rw [annotate_eq_annotateInOrder]
  decide +kernel

end Rename

end StoryScript
