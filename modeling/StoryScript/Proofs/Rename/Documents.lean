import StoryScript.Proofs.Rename.Rebuild

/-!
A document after a rename. The places where its text changes are the occurrences of the search, and
these are the declarations of the ids that are renamed and the diverts that lead to them
(`Query.agrees`), so that its declarations, diverts and includes after the rename are known from those
before it (`Query.scriptsAlike`). A name that stands nowhere in a text is a segment of none of its
paths.
-/

namespace StoryScript

open Script

/-! ### Names that stand nowhere -/

theorem Path.notMem_of_respell {name o path : String} (hn : o ≠ name)
    (ho : '.' ∉ o.toList) (h : respell (fun _ ↦ true) name o path = path) :
    name ∉ segments path := by
  have hfr : ∀ (op : String) (ns : List String),
      respellFrom (fun _ ↦ true) name o op ns = ns → name ∉ ns := by
    intro op ns
    induction ns generalizing op with
    | nil => exact fun _ ↦ List.not_mem_nil
    | cons x r ih =>
      intro heq
      obtain ⟨hf, hr⟩ := List.cons.inj heq
      refine mt List.mem_cons.mp (not_or.mpr ⟨?_, ih _ hr⟩)
      rintro rfl
      rw [respellName, if_pos ⟨rfl, rfl⟩] at hf
      exact hn hf
  refine hfr "" _ ?_
  rw [← segments_respell ho, h]

namespace Script

/-- The respelling that replaces a name nowhere. -/
def idle {name o : String} (hname : IsFreeName name.toList) (hother : IsFreeName o.toList) :
    Respelling where
  old := name.toList
  new := o.toList
  starts := fun _ ↦ False
  gaps := False
  old_free := hname
  new_free := hother

/-- A text in which no declared name has a dot. -/
def Dotless (text : String) : Prop :=
  ∀ x ∈ (annotate text).references.items, x.value.isDeclaration = true →
    '.' ∉ (x.span.textIn text.toList).toList

/-- A name that stands nowhere in a script is a segment of none of its paths. -/
theorem notMem_segments_of_absent {text name o : String} (hn : IsFreeName name.toList)
    (ho : IsFreeName o.toList) (hne : o ≠ name) (hab : ¬ name.toList <:+: text.toList)
    (hdo : Dotless text) :
    (∀ id ∈ declaredIds ((placementsOf text).map Prod.snd), name ∉ Path.segments id) ∧
      ∀ dv ∈ divertsAt (placementsOf text),
        name ∉ Path.segments dv.1 ∧ name ∉ Path.segments dv.2 := by
  have hd := (Path.ne_of_isFreeName ho).2.2.1
  have hno : ∀ span : Span, span.textIn text.toList ≠ name := by
    intro span heq
    exact hab (heq ▸ span.textIn_isInfix text.toList)
  have hs : Respells (idle hn ho) (glyphs 0 text.toList ++ []) (glyphs 0 text.toList ++ []) :=
    Respells.nil.append_glyphs 0 (fun _ _ ↦ id) (fun _ _ _ ↦ nofun) (fun _ _ _ ↦ nofun)
  rw [List.append_nil] at hs
  have hol : (idle hn ho).oldName = name := String.ofList_toList
  have hnew : (idle hn ho).newName = o := String.ofList_toList
  have hag : ∀ e ∈ placementsOf text,
      Agrees (idle hn ho) text.toList (fun _ ↦ true) (fun _ ↦ true) e.2 := by
    intro e he
    refine ⟨hdo _ (mem_items_of_mem_placementsOf he), fun _ _ _ ↦ ?_, fun _ _ ↦ ?_⟩
    all_goals
      rw [hol]
      exact ⟨False.elim, fun hst ↦ hno _ hst.1⟩
  have hal : ScriptsAlike (idle hn ho) (fun _ ↦ true) (fun _ _ ↦ true) Scope.top Scope.top
      (lineGlyphs text) (lineGlyphs text) := hs.script id hag nofun
  obtain ⟨hde, hdi, -⟩ := hal
  rw [hol, hnew] at hde hdi
  have hf : ∀ {α : Type} {f : α → α} {xs : List α}, xs = xs.map f → ∀ x ∈ xs, f x = x :=
    fun h ↦ List.map_inj_left.mp (h.symm.trans (List.map_id _).symm)
  constructor
  · intro id hi
    exact Path.notMem_of_respell hne hd (hf hde id hi)
  · intro dv hdiv
    obtain ⟨hsc, hp⟩ := Prod.mk.inj (hf hdi dv hdiv)
    exact ⟨Path.notMem_of_respell hne hd hsc, Path.notMem_of_respell hne hd hp⟩

end Script

/-! ### Occurrences -/

namespace Query

variable (q : Query)

/-- Whether a divert in a scope leads to one of the ids that are searched for. -/
def reaches (sc dv : String) : Bool :=
  (q.resolve (Reference.ofUse .divert dv) sc).any (· ∈ q.targets)

/-- The name of the search with another one for it, replaced at the occurrences of a document. -/
def respelling (d : Document) {new : String} (hold : IsFreeName q.name.toList)
    (hnew : IsFreeName new.toList) : Respelling where
  old := q.name.toList
  new := new.toList
  starts := fun off ↦ ∃ span ∈ q.spansIn d, span.start = off
  gaps := False
  old_free := hold
  new_free := hnew

variable {q} {d : Document}
  (ha : d.annotations = annotate d.text)

include ha

/-- The declarations and the diverts of a document are renamed that stand for the ids. -/
theorem agrees (hfi : q.filter = .rename) (hdo : Dotless d.text)
    {new : String} (ho : IsFreeName q.name.toList)
    (hne : IsFreeName new.toList) :
    ∀ e ∈ placementsOf d.text, Agrees (q.respelling d ho hne) d.text.toList
        (fun id ↦ id ∈ q.targets) (q.reaches e.1.path) e.2 := by
  intro e he
  have hn : (q.respelling d ho hne).oldName = q.name := String.ofList_toList
  have hl := mem_items_of_mem_placementsOf he
  have hi := ha ▸ hl
  have hf := faithful_of_annotations ha
  refine ⟨hdo _ hl, fun k id hv ↦ ?_, fun id hv ↦ ?_⟩
  · have hd : e.2.value.isDeclaration = true := by rw [hv]; rfl
    have hr : ∀ sc, q.resolve e.2.value sc = [id] := by
      intro sc
      obtain ⟨_, _, hv', hp, -⟩ := (hf.names e.2 hi).exists_declaration hd
      obtain ⟨rfl, rfl⟩ : _ = k ∧ _ = id := by
        simpa [hv, Reference.ofDeclaration, eq_comm] using hv'
      rw [resolve, hv]
      exact q.context.resolveReference_ofDeclaration q.builtins hp _ sc
    refine (exists_span_iff ha hi).trans ?_
    rw [matchesIn_iff (hfi ▸ SearchFilter.full_rename) (hf.names _ hi), hr, hn]
    simp
  · have hdi : e.2.value.isDivert = true := by rw [hv]; rfl
    refine (exists_span_iff ha hi).trans ?_
    rw [matchesIn_iff (hfi ▸ SearchFilter.full_rename) (hf.names _ hi), ha,
      atOffset_divert he hdi, hv, hn, reaches]

/-- What a document declares, diverts to and includes, before and after a rename. -/
theorem scriptsAlike (hf : q.filter = .rename) (hd : Dotless d.text)
    {new : String} (ho : IsFreeName q.name.toList)
    (hn : IsFreeName new.toList) {text : String}
    (h : Respells (q.respelling d ho hn) (glyphs 0 d.text.toList) (glyphs 0 text.toList)) :
    ScriptsAlike (q.respelling d ho hn) (fun id ↦ id ∈ q.targets)
      q.reaches Scope.top Scope.top (lineGlyphs d.text) (lineGlyphs text) := by
  refine h.script id (agrees ha hf hd ho hn) ?_
  rintro off ⟨span, hs, rfl⟩
  obtain ⟨x, hi, rfl⟩ := q.exists_item_of_mem_spansIn hs
  exact ⟨x, ha ▸ hi, rfl⟩

end Query

end StoryScript
