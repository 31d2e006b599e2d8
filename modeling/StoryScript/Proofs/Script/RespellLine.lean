import StoryScript.Proofs.Rename.Spelling
import StoryScript.Proofs.Script.Pieces
import StoryScript.Proofs.Script.RespellMask

/-!
What a line and its respelling hold. Suppose that a name is replaced just where an annotation of the
line stands for one of some ids (`Agrees`). Then the respelled line declares the same symbols and
holds the same diverts, each under its respelled id (`Alike`), and it leads to the respelled scope.
-/

namespace StoryScript.Script

open List Reference StoryScript.Path

variable {bd b' : List Glyph}

namespace Respelling

def oldName (r : Respelling) : String :=
  String.ofList r.old

def newName (r : Respelling) : String :=
  String.ofList r.new

variable (r : Respelling)

theorem isFreeName_oldName : IsFreeName r.oldName.toList := by
  rw [oldName, String.toList_ofList]
  exact r.old_free

theorem isFreeName_newName : IsFreeName r.newName.toList := by
  rw [newName, String.toList_ofList]
  exact r.new_free

theorem oldName_ne_empty : r.oldName ≠ "" :=
  (ne_of_isFreeName r.isFreeName_oldName).1

theorem newName_ne : r.newName ≠ "" ∧ '.' ∉ r.newName.toList :=
  ⟨(ne_of_isFreeName r.isFreeName_newName).1, (ne_of_isFreeName r.isFreeName_newName).2.2.1⟩

theorem respellName_eq_parent_iff (occurs : String → Bool) (o name : String) :
    respellName occurs r.oldName r.newName o name = parent ↔ name = parent := by
  unfold respellName
  split_ifs with h
  · rw [h.1]
    exact iff_of_false (ne_of_isFreeName r.isFreeName_newName).2.1
      (ne_of_isFreeName r.isFreeName_oldName).2.1
  · rfl

end Respelling

/-- The name is replaced at an annotation just if this stands for one of some ids, which are told
apart by one test for declarations and by another one for diverts. -/
structure Agrees (r : Respelling) (t : List Char) (occurs leads : String → Bool)
    (item : Annotated Reference) : Prop where
  dotless : item.value.isDeclaration = true → '.' ∉ (item.span.textIn t).toList
  declares : ∀ k id, item.value = ofDeclaration k id →
    (r.starts item.span.start ↔ item.span.textIn t = r.oldName ∧ occurs id = true)
  diverts : ∀ id, item.value = ofUse .divert id →
    (r.starts item.span.start ↔ item.span.textIn t = r.oldName ∧ leads id = true)

/-- The ids that annotations declare. -/
def declaredIds (items : List (Annotated Reference)) : List String :=
  items.flatMap fun x ↦ if x.value.isDeclaration then x.value.symbolIds else []

/-- The paths of the diverts among annotations. -/
def divertIds (items : List (Annotated Reference)) : List String :=
  items.flatMap fun x ↦ if x.value.isDivert then x.value.symbolIds else []

theorem declaredIds_append (items lt : List (Annotated Reference)) :
    declaredIds (items ++ lt) = declaredIds items ++ declaredIds lt :=
  flatMap_append

theorem divertIds_append (items lt : List (Annotated Reference)) :
    divertIds (items ++ lt) = divertIds items ++ divertIds lt :=
  flatMap_append

/-- Annotations with the same declarations and diverts, under respelled ids. -/
structure Alike (r : Respelling) (occurs leads : String → Bool)
    (items items' : List (Annotated Reference)) : Prop where
  declared : declaredIds items' = (declaredIds items).map (respell occurs r.oldName r.newName)
  diverts : divertIds items' = (divertIds items).map (respell leads r.oldName r.newName)

variable {r : Respelling} {t : List Char} {occurs leads : String → Bool}

theorem Agrees.blanked {x : Annotated Reference} (h : Agrees r t occurs leads x) :
    Agrees { r with gaps := True } t occurs leads x :=
  ⟨h.dotless, h.declares, h.diverts⟩

namespace Alike

variable {items items' : List (Annotated Reference)}

theorem nil : Alike r occurs leads [] [] :=
  ⟨rfl, rfl⟩

theorem append {lt lt' : List (Annotated Reference)} (h : Alike r occurs leads items items')
    (hl : Alike r occurs leads lt lt') :
    Alike r occurs leads (items ++ lt) (items' ++ lt') := by
  constructor
  · rw [declaredIds_append, declaredIds_append, map_append, h.declared, hl.declared]
  · rw [divertIds_append, divertIds_append, map_append, h.diverts, hl.diverts]

theorem of_quiet (h : Quiet items) (h' : Quiet items') : Alike r occurs leads items items' := by
  have hn : ∀ {items : List (Annotated Reference)}, Quiet items →
      declaredIds items = [] ∧ divertIds items = [] := by
    intro items h
    refine ⟨flatMap_eq_nil_iff.mpr fun x hi ↦ ?_, flatMap_eq_nil_iff.mpr fun x hi ↦ ?_⟩
    · rw [(h x hi).1, if_neg Bool.false_ne_true]
    · rw [(h x hi).2, if_neg Bool.false_ne_true]
  constructor
  · rw [(hn h).1, (hn h').1, map_nil]
  · rw [(hn h).2, (hn h').2, map_nil]

theorem cons_declaration {name name' : List Glyph} {k kind' : SymbolKind} {id id' : String}
    (hi : id' = respell occurs r.oldName r.newName id)
    (h : Alike r occurs leads items items') :
    Alike r occurs leads (mark name (ofDeclaration k id) :: items)
      (mark name' (ofDeclaration kind' id') :: items') := by
  have ho : Alike r occurs leads [mark name (ofDeclaration k id)]
      [mark name' (ofDeclaration kind' id')] :=
    ⟨congrArg (fun id ↦ [id]) hi, rfl⟩
  exact ho.append h

theorem cons_divert {name name' : List Glyph} {id id' : String}
    (hi : id' = respell leads r.oldName r.newName id)
    (h : Alike r occurs leads items items') :
    Alike r occurs leads (mark name (ofUse .divert id) :: items)
      (mark name' (ofUse .divert id') :: items') := by
  have ho : Alike r occurs leads [mark name (ofUse .divert id)] [mark name' (ofUse .divert id')] :=
    ⟨rfl, congrArg (fun id ↦ [id]) hi⟩
  exact ho.append h

end Alike

/-! ### Declarations -/

section Names

variable {k : SymbolKind}

/-- A declared name has no dots. -/
theorem Agrees.dotless_takeName {id : String}
    (h : Agrees r t occurs leads (mark (takeName bd) (ofDeclaration k id)))
    (hs : Shows t bd) (hn : takeName bd ≠ []) :
    '.' ∉ (spell (takeName bd)).toList := by
  have hd := h.dotless rfl
  rwa [mark, hs _ (takeName_isPrefix bd).isInfix hn (isName_takeName hn).words] at hd

/-- A declared name is replaced just if it stands for one of the ids. -/
theorem Agrees.spell_takeName {o : String} (h : Agrees r t occurs leads
      (mark (takeName bd) (ofDeclaration k (o ++ spell (takeName bd)))))
    (hsh : Shows t bd) (hn : takeName bd ≠ []) (hb : Respells r bd b') :
    spell (takeName b') = respellName occurs r.oldName r.newName o (spell (takeName bd)) := by
  have hna := isName_takeName hn
  have ht := hsh _ (takeName_isPrefix bd).isInfix hn hna.words
  have hdo := h.dotless_takeName hsh hn
  have hst := h.declares k _ rfl
  simp only [mark, ht] at hst
  have hw : ∀ g ∈ takeName bd, continuesName g.char = true := by
    intro g hg
    refine (hna.chars g hg).resolve_right fun hd ↦ hdo ?_
    rw [toList_spell, ← hd]
    exact mem_map_of_mem hg
  unfold respellName
  obtain ⟨hs, -, hne⟩ | ⟨hs, hsa⟩ := hb.takeName.1.spell_of_word hn hw
  · rw [if_pos (hst.mp hs), spell, hne]
    rfl
  · rw [if_neg (mt hst.mpr hs), spell, hsa]
    rfl

/-- A name that is declared within a scope. -/
theorem Agrees.within_takeName {scope : Scope}
    (h : Agrees r t occurs leads (declareWithin scope k (takeName bd)))
    (hsc : scope.Simple) (hs : Shows t bd) (hn : takeName bd ≠ [])
    (hb : Respells r bd b') :
    within (scope.respell occurs r.oldName r.newName).path (spell (takeName b')) =
      respell occurs r.oldName r.newName (within scope.path (spell (takeName bd))) := by
  have hd := h.dotless_takeName hs hn
  unfold declareWithin at h
  rw [within_eq] at h
  rw [respell_within r.oldName_ne_empty r.newName_ne scope.path hd,
    Scope.path_respell r.oldName_ne_empty hsc, h.spell_takeName hs hn hb]

/-- A name that is declared at the top. -/
theorem Agrees.respell_takeName (h : Agrees r t occurs leads
      (mark (takeName bd) (ofDeclaration k (spell (takeName bd)))))
    (hs : Shows t bd) (hn : takeName bd ≠ []) (hb : Respells r bd b') :
    spell (takeName b') = respell occurs r.oldName r.newName (spell (takeName bd)) := by
  have hd := h.dotless_takeName hs hn
  have ho : Agrees r t occurs leads
      (mark (takeName bd) (ofDeclaration k ("" ++ spell (takeName bd)))) := by
    rwa [String.empty_append]
  rw [respell_of_dotless hd, ho.spell_takeName hs hn hb]

end Names

theorem Respells.takeName_eq_nil_iff (h : Respells r bd b') :
    Script.takeName bd = [] ↔ Script.takeName b' = [] :=
  h.takeName.1.eq_nil_iff

theorem Respells.getD_map_skipBlanks {l l' : List Glyph}
    {f f' : Option (List Glyph)} (hf : Option.Rel (Respells r) f f')
    (h : Respells r l l') :
    Respells r ((f.map Script.skipBlanks).getD l) ((f'.map Script.skipBlanks).getD l') := by
  cases hf with
  | some hr => exact hr.skipBlanks
  | none => exact h

theorem Alike.filterMap {ps ps' : List (List Glyph)}
    {f f' : List Glyph → Option (Annotated Reference)}
    (h : Forall₂ (Respells r) ps ps')
    (hfo : ∀ p ∈ ps, ∀ p', Respells r p p' → Alike r occurs leads (f p).toList (f' p').toList) :
    Alike r occurs leads (ps.filterMap f) (ps'.filterMap f') := by
  rw [filterMap_eq_flatMap_toList, filterMap_eq_flatMap_toList]
  induction h with
  | nil => exact nil
  | cons hp _ ih =>
    obtain ⟨hf, hr⟩ := forall_mem_cons.mp hfo
    exact (hf _ hp).append (ih hr)

/-- What is declared if there is a name at the front. -/
theorem Alike.of_takeName {items items' : List (Annotated Reference)}
    (hb : Respells r bd b') (h : takeName bd ≠ [] → Alike r occurs leads items items') :
    Alike r occurs leads (if takeName bd = [] then [] else items)
      (if takeName b' = [] then [] else items') := by
  simp only [← hb.takeName_eq_nil_iff]
  split_ifs with he
  · exact nil
  · exact h he

theorem uniform_isHeaderSpace : Uniform (fun g ↦ g.char == '=' || isHeaderSpace g.char) false where
  char := fun _ _ h ↦ by rw [h]
  words := fun g h ↦ by
    have hn : ∀ {c : Char}, continuesName c = false → g.char ≠ c := ne_of_continuesName h
    simp only [isHeaderSpace, Bool.or_eq_false_iff, beq_eq_false_iff_ne]
    exact ⟨hn (by decide), ⟨⟨⟨hn (by decide), hn (by decide)⟩, hn (by decide)⟩,
      hn (by decide)⟩, hn (by decide)⟩

namespace Respells

variable {l l' : List Glyph}

theorem parameterBody (h : Respells r l l') :
    Respells r (Script.parameterBody l) (Script.parameterBody l') := by
  have hr := getD_map_skipBlanks (h.skipBlanks.dropWord? "ref" (by decide)) h.skipBlanks
  exact getD_map_skipBlanks (hr.dropText? _ (by decide)) hr

theorem knotBody (h : Respells r l l') : Respells r (Script.knotBody l) (Script.knotBody l') := by
  have hb := h.dropWhile uniform_isHeaderSpace
  exact getD_map_skipBlanks (hb.dropWord? _ (by decide)) hb

end Respells

section Lines

variable {scope : Scope} {l l' : List Glyph}

theorem toList_parameter? (x : List Glyph) :
    (parameter? scope x).toList = if takeName (parameterBody x) = [] then []
      else [declareWithin scope .param (takeName (parameterBody x))] :=
  apply_ite Option.toList (takeName (parameterBody x) = []) none _

theorem Respells.parameters (h : Respells r l l') (hs : scope.Simple) (hsh : Shows t l)
    (ha : ∀ x ∈ parameters scope l, Agrees r t occurs leads x) :
    Alike r occurs leads (parameters scope l)
      (parameters (scope.respell occurs r.oldName r.newName) l') := by
  have hpa := h.skipBlanks.dropText? ['('] (by decide)
  rw [parameters_eq] at ha ⊢
  rw [parameters_eq]
  generalize hf : Script.dropText? ['('] (Script.skipBlanks l) = f at hpa ha
  generalize Script.dropText? ['('] (Script.skipBlanks l') = f' at hpa
  cases hpa with
  | none => exact .nil
  | @some i i' hi =>
    refine Alike.filterMap ((hi.takeWhile (uniform_ne (c := ')') (by decide))).splitOnP
      (uniform_eq (c := ',') (by decide)) rfl) fun p hp p' hr ↦ ?_
    have hw : p <:+: l :=
      (Text.isInfix_of_mem_splitOnP hp).trans ((List.takeWhile_prefix _).isInfix.trans
        ((dropText?_suffix hf).trans (skipBlanks_suffix l)).isInfix)
    have hp : ∀ x ∈ (parameter? scope p).toList, Agrees r t occurs leads x :=
      fun x hit ↦ ha x (mem_filterMap.mpr ⟨p, hp, Option.mem_toList.mp hit⟩)
    rw [toList_parameter?] at hp ⊢
    rw [toList_parameter?]
    refine Alike.of_takeName hr.parameterBody fun hn ↦ ?_
    rw [if_neg hn] at hp
    exact .cons_declaration ((hp _ mem_cons_self).within_takeName hs
      (hsh.mono ((parameterBody_suffix p).isInfix.trans hw)) hn hr.parameterBody) .nil

/-! ### Headers -/

/-- Lines that hold the same, up to respelling, and lead to the same scope. -/
structure ScansAlike (r : Respelling) (occurs leads : String → Bool) (scan scan' : LineScan) :
    Prop where
  references : Alike r occurs leads scan.references scan'.references
  includes : scan'.includes.map Annotated.value = scan.includes.map Annotated.value
  scope_eq : scan'.scope = scan.scope.respell occurs r.oldName r.newName
  simple : scan.scope.Simple

/-- A line without a header or an include. -/
theorem Alike.scansAlike {items items' : List (Annotated Reference)}
    (h : Alike r occurs leads items items') (hs : scope.Simple) :
    ScansAlike r occurs leads { scope, references := items }
      { scope := scope.respell occurs r.oldName r.newName, references := items' } :=
  ⟨h, rfl, rfl, hs⟩

/-- A header whose name is respelled, and whose section is entered under the respelled name. -/
theorem ScansAlike.header (h : Respells r bd b') (hs : scope.Simple)
    (hsh : Shows t bd) {k : SymbolKind} {id id' : String → String}
    (ha : ∀ x ∈ (sectionHeader scope k id bd).references, Agrees r t occurs leads x)
    (hn : takeName bd ≠ [] → Agrees r t occurs leads
        (mark (takeName bd) (ofDeclaration k (id (spell (takeName bd))))) →
      id' (spell (takeName b')) = respell occurs r.oldName r.newName (id (spell (takeName bd))) ∧
        (scope.respell occurs r.oldName r.newName).enter k (spell (takeName b')) =
          (scope.enter k (spell (takeName bd))).respell occurs r.oldName r.newName) :
    ScansAlike r occurs leads (sectionHeader scope k id bd)
      (sectionHeader (scope.respell occurs r.oldName r.newName) k id' b') := by
  unfold sectionHeader at ha ⊢
  simp only [← h.takeName_eq_nil_iff]
  split_ifs at ha ⊢ with he
  · exact Alike.nil.scansAlike hs
  · obtain ⟨hf, hr⟩ := forall_mem_cons.mp ha
    obtain ⟨hid, hen⟩ := hn he hf
    have hi := hs.enter ⟨fun heq ↦ he (spell_eq_empty.mp heq), hf.dotless_takeName hsh he⟩ k
    rw [hen]
    exact ⟨.cons_declaration hid (h.takeName.2.parameters hi
      (hsh.mono (drop_suffix _ _).isInfix) hr), rfl, rfl, hi⟩

theorem Respells.knotHeader (h : Respells r l l') (hsc : scope.Simple) (hs : Shows t l)
    (ha : ∀ x ∈ (knotHeader scope l).references, Agrees r t occurs leads x) :
    ScansAlike r occurs leads (knotHeader scope l)
      (knotHeader (scope.respell occurs r.oldName r.newName) l') := by
  have hs := hs.mono (knotBody_suffix l).isInfix
  rw [knotHeader_eq] at ha ⊢
  rw [knotHeader_eq]
  refine .header h.knotBody hsc hs ha fun he hn ↦ ?_
  have hsp := hn.respell_takeName hs he h.knotBody
  refine ⟨hsp, ?_⟩
  rw [← Scope.enter_knot_respell, hsp.trans (respell_of_dotless (hn.dotless_takeName hs he))]

theorem Respells.stitchHeader (h : Respells r l l') (hsc : scope.Simple) (hs : Shows t l)
    (ha : ∀ x ∈ (stitchHeader scope l).references, Agrees r t occurs leads x) :
    ScansAlike r occurs leads (stitchHeader scope l)
      (stitchHeader (scope.respell occurs r.oldName r.newName) l') := by
  have hs := hs.mono (skipBlanks_suffix l).isInfix
  rw [stitchHeader_eq] at ha ⊢
  rw [stitchHeader_eq]
  refine .header h.skipBlanks hsc hs ha fun he hn ↦ ?_
  refine ⟨hn.within_takeName hsc.outer hs he h.skipBlanks, ?_⟩
  rw [within_eq] at hn
  rw [hn.spell_takeName hs he h.skipBlanks, Scope.enter_stitch_respell]

/-! ### Lists, globals and temporary variables -/

/-- What stands behind the first sign of a kind. -/
theorem Respells.behind (h : Respells r l l') {c : Char} (hs : continuesName c = false)
    (hb : c ≠ ' ') :
    Respells r ((l.dropWhile fun g ↦ g.char ≠ c).drop 1)
      ((l'.dropWhile fun g ↦ g.char ≠ c).drop 1) := by
  have hn : ∀ {l : List Glyph}, (∀ x, (l.dropWhile fun g ↦ g.char ≠ c).head? =
      some x → x.char ≠ c) → (l.dropWhile fun g ↦ g.char ≠ c) = [] := by
    intro l hh
    rw [← head?_eq_none_iff, Option.eq_none_iff_forall_ne_some]
    intro x hf
    have hp := head?_dropWhile_not (fun g : Glyph ↦ decide (g.char ≠ c)) l
    rw [hf] at hp
    exact hh x hf (by simpa using hp)
  obtain ⟨off, tl, off', tl', hl, hl', hr⟩ | ⟨hh, hh'⟩ :=
    (h.dropWhile (uniform_ne hs)).head_cases hs hb
  · rw [hl, hl']
    exact hr
  · rw [hn hh, hn hh']
    exact .nil

theorem toList_listMember? (list : String) (x : List Glyph) :
    (listMember? list x).toList = if takeName (x.dropWhile fun g ↦ !startsName g.char) = [] then []
      else [mark (takeName (x.dropWhile fun g ↦ !startsName g.char)) (ofDeclaration .define
          (list ++ "." ++ spell (takeName (x.dropWhile fun g ↦ !startsName g.char))))] :=
  apply_ite Option.toList (takeName (x.dropWhile fun g ↦ !startsName g.char) = []) none _

theorem Respells.listLine (h : Respells r l l') (hs : Shows t l)
    (ha : ∀ x ∈ listLine l, Agrees r t occurs leads x) :
    Alike r occurs leads (listLine l) (listLine l') := by
  have hb := h.skipBlanks
  have hs := hs.mono (skipBlanks_suffix l).isInfix
  unfold Script.listLine at ha ⊢
  dsimp only at ha ⊢
  refine Alike.of_takeName hb fun hn ↦ ?_
  rw [if_neg hn] at ha
  obtain ⟨hna, hme⟩ := forall_mem_cons.mp ha
  have hsp := hna.respell_takeName hs hn hb
  refine .cons_declaration hsp (Alike.filterMap ((hb.takeName.2.behind (by decide)
    (by decide)).splitOnP (uniform_eq (by decide)) rfl) fun p hp p' hr ↦ ?_)
  have hw : (p.dropWhile fun g ↦ !startsName g.char) <:+: Script.skipBlanks l :=
    (dropWhile_suffix _).isInfix.trans ((Text.isInfix_of_mem_splitOnP hp).trans
      ((drop_suffix _ _).trans ((dropWhile_suffix _).trans (drop_suffix _ _))).isInfix)
  have hp : ∀ x ∈ (listMember? (spell (Script.takeName (Script.skipBlanks l)))
      p).toList, Agrees r t occurs leads x :=
    fun x hi ↦ hme x (mem_filterMap.mpr ⟨p, hp, Option.mem_toList.mp hi⟩)
  rw [toList_listMember?] at hp ⊢
  rw [toList_listMember?]
  refine Alike.of_takeName hr.dropWhile_not_startsName fun hn ↦ ?_
  rw [if_neg hn] at hp
  have hm := hp _ mem_cons_self
  have hs := hs.mono hw
  refine .cons_declaration ?_ .nil
  rw [respell_append _ (hm.dotless_takeName hs hn), hsp,
    hm.spell_takeName hs hn hr.dropWhile_not_startsName]

theorem Respells.globalLine (h : Respells r l l') (k : SymbolKind) (hs : Shows t l)
    (ha : ∀ x ∈ globalLine k l, Agrees r t occurs leads x) :
    Alike r occurs leads (globalLine k l) (globalLine k l') := by
  have hb := h.skipBlanks
  unfold Script.globalLine at ha ⊢
  dsimp only at ha ⊢
  refine Alike.of_takeName hb fun hn ↦ ?_
  rw [if_neg hn] at ha
  exact .cons_declaration ((ha _ mem_cons_self).respell_takeName
    (hs.mono (skipBlanks_suffix l).isInfix) hn hb)
      (.of_quiet (uses_initialReads _ _).quiet (uses_initialReads _ _).quiet)

theorem Respells.logicLine (h : Respells r l l') (hs : scope.Simple) (hsh : Shows t l)
    (ha : ∀ x ∈ logicLine scope l, Agrees r t occurs leads x) :
    Alike r occurs leads (logicLine scope l)
      (logicLine (scope.respell occurs r.oldName r.newName) l') := by
  have ht := h.skipBlanks.dropWord? "temp" (by decide)
  generalize hf : Script.dropWord? "temp" (Script.skipBlanks l) = f at ht
  generalize hf' : Script.dropWord? "temp" (Script.skipBlanks l') = f' at ht
  cases ht with
  | none => exact .of_quiet (quiet_logicLine hf) (quiet_logicLine hf')
  | @some tl tl' hr =>
    have hsu : Script.skipBlanks tl <:+ l :=
      (skipBlanks_suffix tl).trans ((dropWord?_suffix hf).trans (skipBlanks_suffix l))
    rw [logicLine_of_temp hf] at ha ⊢
    rw [logicLine_of_temp hf']
    refine Alike.of_takeName hr.skipBlanks fun hn ↦ ?_
    rw [if_neg hn] at ha
    exact .cons_declaration ((ha _ mem_cons_self).within_takeName hs
      (hsh.mono hsu.isInfix) hn hr.skipBlanks)
        (.of_quiet (uses_initialReads _ _).quiet (uses_initialReads _ _).quiet)

/-! ### Labels -/

theorem uniform_isBullet : Uniform isBullet false :=
  ((uniform_eq (by decide)).or (uniform_eq (by decide))).or (uniform_eq (by decide))

theorem Respells.any (h : Respells r l l') {p : Glyph → Bool} {verdict : Bool}
    (hp : Uniform p verdict) : l.any p = l'.any p := by
  have hr : ∀ {run : List Glyph} {b : Bool}, run ≠ [] → (∀ g ∈ run, p g = b) → run.any p = b := by
    intro run b hn ha
    cases b with
    | false => exact any_eq_false.mpr fun g hg ↦ by simp [ha g hg]
    | true =>
      obtain ⟨x, tl, rfl⟩ := exists_cons_of_ne_nil hn
      rw [any_cons, ha x mem_cons_self, Bool.true_or]
  induction h with
  | nil => rfl
  | @block run run' l l' hb _ ih =>
    obtain ⟨b, ha, ha'⟩ := hb.verdict hp
    rw [any_append, any_append, ih, hr hb.ne_nil.1 ha, hr hb.ne_nil.2 ha']

theorem Respells.labelLine (h : Respells r l l') (hs : scope.Simple) (hsh : Shows t l)
    (ha : ∀ x ∈ labelLine scope l, Agrees r t occurs leads x) :
    Alike r occurs leads (labelLine scope l)
      (labelLine (scope.respell occurs r.oldName r.newName) l') := by
  have hm := uniform_isBullet.or uniform_isBlank
  have hp := (h.dropWhile hm).dropText? ['('] (by decide)
  rw [labelLine_eq] at ha ⊢
  rw [labelLine_eq, ← (h.takeWhile hm).any uniform_isBullet]
  split_ifs at ha ⊢
  · generalize hf : Script.dropText? ['('] (l.dropWhile isMargin) = f at hp ha
    generalize Script.dropText? ['('] (l'.dropWhile isMargin) = f' at hp
    cases hp with
    | none => exact .nil
    | @some tl tl' hr =>
      have hb := hr.skipBlanks
      have hc := hb.takeName.2.skipBlanks.dropText? [')'] (by decide)
      have hsu : Script.skipBlanks tl <:+ l :=
        (skipBlanks_suffix tl).trans ((dropText?_suffix hf).trans (dropWhile_suffix _))
      dsimp only at ha ⊢
      generalize Script.dropText? [')'] _ = closed at hc ha
      generalize Script.dropText? [')'] _ = closed' at hc
      cases hc with
      | none => exact .nil
      | some _ =>
        refine Alike.of_takeName hb fun hn ↦ ?_
        simp only [if_neg hn] at ha
        exact .cons_declaration ((ha _ mem_cons_self).within_takeName hs
          (hsh.mono hsu.isInfix) hn hb) .nil
  · exact .nil

end Lines

end StoryScript.Script
