import StoryScript.Proofs.Script.RespellLine

/-!
A script and its respelling. Their lines hold the same declarations, diverts and includes, line by
line, under the respelled ids and in the respelled scopes.
-/

namespace StoryScript.Script

open List StoryScript.Path Text

variable {r : Respelling} {t : List Char} {oc ld : String → Bool}
  {path path' l : List Glyph}

/-! ### Diverts -/

/-- The references of the sections that a divert's path names. -/
def trailReferences (es : List (List Glyph × String)) : List (Annotated Reference) :=
  (es.filter fun (s, _) ↦ s ≠ [] ∧ spell s ≠ parent).map
    fun (s, upTo) ↦ mark s (Reference.ofUse .divert upTo)

/-- A segment of a divert's path is replaced just if the divert stands for one of the ids up to
there. -/
theorem Respells.spell_segment {s s' : List Glyph} (h : Respells r s s')
    (hch : ∀ g ∈ s, continuesName g.char = true ∨ g.char = '^')
    (hsh : Shows t s) {o : String}
    (ha : s ≠ [] → spell s ≠ parent → Agrees r t oc ld
      (mark s (Reference.ofUse .divert (o ++ spell s)))) :
    spell s' = respellName ld r.oldName r.newName o (spell s) := by
  by_cases he : s = []
  · subst he
    rw [h.eq_nil_iff.mp rfl]
    exact (respellName_of_ne r.oldName_ne_empty.symm o).symm
  obtain ⟨x, tl, rfl⟩ := exists_cons_of_ne_nil he
  have hwo : ∀ g ∈ x :: tl, isWordChar g.char = true := by
    intro g hg
    rcases hch g hg with hn | hc
    · exact isWordChar_of_continuesName hn
    · rw [hc]
      rfl
  have ht := hsh _ infix_rfl he hwo
  have hp : continuesName x.char = true → spell (x :: tl) ≠ parent := by
    intro hn heq
    have hl := congrArg String.toList heq
    rw [toList_spell] at hl
    rw [(List.cons.inj hl).1] at hn
    exact absurd hn (by decide)
  have hs : continuesName x.char = true → (r.starts x.offset ↔
      spell (x :: tl) = r.oldName ∧ ld (o ++ spell (x :: tl)) = true) := by
    intro hn
    have hs := (ha he (hp hn)).diverts _ rfl
    simpa only [mark, ht, start_spanOf_cons] using hs
  by_cases hw : ∀ g ∈ x :: tl, continuesName g.char = true
  · have hs := hs (hw x mem_cons_self)
    have hca := h.spell_of_word he hw
    rw [start_spanOf_cons] at hca
    unfold respellName
    obtain ⟨hst, -, hne⟩ | ⟨hst, hsa⟩ := hca
    · rw [if_pos (hs.mp hst), spell, hne]
      rfl
    · rw [if_neg (mt hs.mpr hst), spell, hsa]
      rfl
  · -- A segment with a caret in it is not the name, so it stays.
    push Not at hw
    obtain ⟨g, hg, hsi⟩ := hw
    have hc : '^' ∈ (x :: tl).map Glyph.char := (hch g hg).resolve_left hsi ▸ mem_map_of_mem hg
    have ho : spell (x :: tl) ≠ r.oldName := by
      intro heq
      have hl := congrArg String.toList heq
      rw [toList_spell, Respelling.oldName, String.toList_ofList] at hl
      exact absurd (r.old_free.chars '^' (hl ▸ hc)) (by decide)
    have hk : r.Keeps (x :: tl) := by
      intro n hnex hn hst
      obtain rfl := Option.some.inj hnex
      exact ho ((hs hn).mp hst).1
    rw [respellName_of_ne ho, spell, h.map_char_of_keeps hk hch]
    rfl

theorem trailReferences_cons (s : List Glyph) (upTo : String) (es : List (List Glyph × String)) :
    trailReferences ((s, upTo) :: es) = if s ≠ [] ∧ spell s ≠ parent then
        mark s (Reference.ofUse .divert upTo) :: trailReferences es
      else trailReferences es := by
  unfold trailReferences
  split_ifs with h
  · rw [filter_cons_of_pos (by simpa using h), map_cons]
  · rw [filter_cons_of_neg (by simpa using h)]

/-- Segments of a divert's path, behind an opening that is respelled already. -/
theorem alike_trailReferences {ss ss' : List (List Glyph)} (h : Forall₂ (Respells r) ss ss')
    (hc : ∀ s ∈ ss, ∀ g ∈ s, continuesName g.char = true ∨ g.char = '^')
    (hs : ∀ s ∈ ss, Shows t s) {o o' : String}
    (ho : ∀ name : String, '.' ∉ name.toList → respell ld r.oldName r.newName (o ++ name) =
        o' ++ respellName ld r.oldName r.newName o name)
    (ha : ∀ x ∈ trailReferences (trail o ss), Agrees r t oc ld x) :
    Alike r oc ld (trailReferences (trail o ss)) (trailReferences (trail o' ss')) := by
  induction h generalizing o o' with
  | nil => exact .nil
  | @cons s s' tl tl' hse _ ih =>
    obtain ⟨hc, hc'⟩ := forall_mem_cons.mp hc
    obtain ⟨hs, hs'⟩ := forall_mem_cons.mp hs
    simp only [trail, trailReferences_cons] at ha ⊢
    have hdo : '.' ∉ (spell s).toList := by
      rw [toList_spell]
      intro hd
      obtain ⟨g, hg, hch⟩ := mem_map.mp hd
      have hn := hc g hg
      rw [hch] at hn
      exact absurd hn (by decide)
    have hsp := hse.spell_segment hc hs fun hne hp ↦ by
      rw [if_pos ⟨hne, hp⟩] at ha
      exact ha _ mem_cons_self
    have hi := ho _ hdo
    rw [← hsp] at hi
    have hr : ∀ name : String, '.' ∉ name.toList →
        respell ld r.oldName r.newName (o ++ spell s ++ "." ++ name) =
          o' ++ spell s' ++ "." ++
            respellName ld r.oldName r.newName (o ++ spell s ++ ".") name :=
      fun name hna ↦ by rw [respell_append _ hna, hi]
    have hp : spell s' = parent ↔ spell s = parent := by
      rw [hsp, r.respellName_eq_parent_iff]
    simp only [ne_eq, ← hse.eq_nil_iff, hp]
    split_ifs at ha ⊢
    · exact .cons_divert hi.symm (ih hc' hs' hr fun x hit ↦ ha x (mem_cons_of_mem _ hit))
    · exact ih hc' hs' hr ha

theorem uniform_continuesName : Uniform (fun g ↦ continuesName g.char) true where
  char := fun _ _ h ↦ by rw [h]
  words := fun _ h ↦ h

/-- A target that every story has is never replaced. -/
theorem Respells.mem_reservedTargets_iff (h : Respells r path path') :
    spell path ∈ reservedTargets ↔ spell path' ∈ reservedTargets := by
  have hr : ∀ {name : List Char}, String.ofList name ∈ reservedTargets →
      name ≠ [] ∧ (∀ c ∈ name, continuesName c = true) ∧ String.ofList name ∈ scannerWords := by
    intro name hna
    have hs : String.ofList name ∈ scannerWords := mem_append_right _ (mem_append_right _ hna)
    obtain ⟨hn, hc⟩ := continuesName_of_mem_scannerWords hs
    rw [String.toList_ofList] at hc
    exact ⟨fun he ↦ hn (String.ofList_eq_empty_iff.mpr he), hc, hs⟩
  have hw : path.dropWhile (fun g ↦ continuesName g.char) = [] ↔
      path'.dropWhile (fun g ↦ continuesName g.char) = [] :=
    (h.dropWhile uniform_continuesName).eq_nil_iff
  simp only [dropWhile_eq_nil_iff] at hw
  -- Whichever of the two is reserved, it is a word, and so is the other.
  constructor
  · intro hm
    obtain ⟨hn, hc, hs⟩ := hr hm
    rw [ne_eq, map_eq_nil_iff] at hn
    obtain ⟨-, ho, -⟩ | ⟨-, heq⟩ := h.spell_of_word hn (forall_mem_map.mp hc)
    · exact absurd (ho ▸ hs) r.old_free.free
    · rwa [spell, heq]
  · intro hm
    obtain ⟨hn, hc, hs⟩ := hr hm
    rw [ne_eq, map_eq_nil_iff, ← h.eq_nil_iff] at hn
    obtain ⟨-, -, hne⟩ | ⟨-, heq⟩ := h.spell_of_word hn (hw.mpr (forall_mem_map.mp hc))
    · exact absurd (hne ▸ hs) r.new_free.free
    · rwa [spell, heq] at hm

theorem targetReferences_eq (path : List Glyph) :
    targetReferences path = if spell path ∈ reservedTargets then []
      else trailReferences (trail "" (path.splitOnP isDot)) :=
  rfl

theorem PathsAlike.targetReferences (h : PathsAlike r l path path') (hsh : Shows t l)
    (ha : ∀ x ∈ targetReferences path, Agrees r t oc ld x) :
    Alike r oc ld (targetReferences path) (targetReferences path') := by
  rw [targetReferences_eq] at ha ⊢
  rw [targetReferences_eq]
  simp only [← h.respells.mem_reservedTargets_iff]
  split_ifs at ha ⊢
  · exact .nil
  · refine alike_trailReferences (h.respells.splitOnP (uniform_eq (by decide)) rfl)
      (fun s hs g hg ↦ ?_) (fun s hs ↦ ?_) (fun name hn ↦ ?_)
      ha
    · have hc := h.chars g ((isInfix_of_mem_splitOnP hs).mem hg)
      have hd := eq_false_of_mem_splitOnP hs g hg
      simp only [isPathChar, Bool.or_eq_true, beq_iff_eq, beq_eq_false_iff_ne] at hc hd
      simp only [continuesName, Bool.or_eq_true, beq_iff_eq]
      tauto
    · exact hsh.mono ((isInfix_of_mem_splitOnP hs).trans h.isInfix)
    · rw [String.empty_append, String.empty_append, respell_of_dotless hn]

/-- The diverts of a line are respelled. -/
theorem DivertsAlike.found {m m' : Masked} (h : DivertsAlike r l m m')
    (hs : Shows t l) (ha : ∀ x ∈ m.found, Agrees r t oc ld x) :
    Alike r oc ld m.found m'.found := by
  obtain ⟨paths, paths', hpa, hf, hf'⟩ := h.paths
  rw [hf] at ha ⊢
  rw [hf']
  clear hf hf'
  induction hpa with
  | nil => exact .nil
  | cons hp _ ih =>
    obtain ⟨hfi, hr⟩ := forall_mem_append.mp ha
    exact (hp.targetReferences hs hfi).append (ih hr)

/-! ### Lines -/

section Lines

variable {sc : Scope} {l' : List Glyph}

theorem Respells.statementLine (h : Respells r l l') (hsc : sc.Simple) (hs : Shows t l)
    (ha : ∀ x ∈ statementLine sc l, Agrees r t oc ld x) :
    Alike r oc ld (statementLine sc l) (statementLine (sc.respell oc r.oldName r.newName) l') := by
  have hv := h.dropWord? "VAR" (by decide)
  have hc := h.dropWord? "CONST" (by decide)
  have ht := h.dropText? ['~'] (by decide)
  rw [statementLine_eq] at ha ⊢
  rw [statementLine_eq]
  generalize hf : Script.dropWord? "VAR" l = f at hv ha
  generalize Script.dropWord? "VAR" l' = f' at hv
  cases hv with
  | some hr =>
    exact hr.globalLine .var (hs.mono (dropWord?_suffix hf).isInfix) ha
  | none =>
    generalize hf : Script.dropWord? "CONST" l = f at hc ha
    generalize Script.dropWord? "CONST" l' = f' at hc
    cases hc with
    | some hr =>
      exact hr.globalLine .const (hs.mono (dropWord?_suffix hf).isInfix) ha
    | none =>
      generalize hf : Script.dropText? ['~'] l = f at ht ha
      generalize Script.dropText? ['~'] l' = f' at ht
      cases ht with
      | some hl =>
        exact hl.logicLine hsc (hs.mono (dropText?_suffix hf).isInfix) ha
      | none => exact h.labelLine hsc hs ha

theorem Respells.plainLine (h : Respells r l l') (hsc : sc.Simple) (hsh : Shows t l)
    (ha : ∀ x ∈ plainLine sc l, Agrees r t oc ld x) :
    Alike r oc ld (plainLine sc l) (plainLine (sc.respell oc r.oldName r.newName) l') := by
  have hstr := h.blanked.maskStrings trivial false
  have hd := hstr.maskDiverts trivial
  have hta := hd.line.line_maskTags trivial
  have hm := hsh.mask (masks_maskStrings false l)
  have htak := taken_maskDiverts (Script.maskStrings false l)
  have ht := taken_maskTags (Script.maskDiverts (Script.maskStrings false l)).line
  unfold Script.plainLine at ha ⊢
  dsimp only at ha ⊢
  rw [forall_mem_append, forall_mem_append, forall_mem_append] at ha
  obtain ⟨⟨⟨hf, -⟩, hst⟩, -⟩ := ha
  have hl := hd.found hm fun x hi ↦ (hf x hi).blanked
  have hs := hta.statementLine hsc
    ((hm.mask htak.masks).mask ht.masks) fun x hi ↦ (hst x hi).blanked
  refine .append (.append (.append ⟨hl.declared, hl.diverts⟩ ?_) ⟨hs.declared, hs.diverts⟩) ?_
  · exact .of_quiet (taken_maskTags _).uses.quiet (taken_maskTags _).uses.quiet
  · exact .of_quiet (uses_inlineReads _).quiet (uses_inlineReads _).quiet

/-! ### Comments -/

theorem dropComment_cons {g : Glyph} (h : g.char = '/' → ∀ n, l.head? = some n → n.char ≠ '/') :
    dropComment (g :: l) = g :: dropComment l := by
  refine dropComment.eq_2 _ _ fun _ _ _ hg hl ↦ ?_
  subst hg hl
  exact h rfl _ rfl rfl

theorem dropComment_append {run : List Glyph} (h : ∀ g ∈ run, g.char ≠ '/')
    (l : List Glyph) : dropComment (run ++ l) = run ++ dropComment l := by
  induction run with
  | nil => rfl
  | cons g tl ih =>
    obtain ⟨hg, hr⟩ := forall_mem_cons.mp h
    rw [cons_append, cons_append, ← ih hr, dropComment_cons fun hs ↦ absurd hs hg]

theorem Respells.dropComment (h : Respells r l l') :
    Respells r (Script.dropComment l) (Script.dropComment l') := by
  induction h with
  | nil => exact .nil
  | @block run run' l l' hb hl ih =>
    have hre := Respells.block (hb.beginsLike (.of_isPrefix (dropComment_isPrefix l))) ih
    obtain ⟨g, g', rfl, rfl, hc, hc'⟩ | ⟨hr, hr'⟩ := hb.ne_sign (c := '/') (by decide) (by decide)
    · obtain ⟨off, char⟩ := g
      obtain ⟨off', char'⟩ := g'
      obtain ⟨rfl, rfl⟩ : char = '/' ∧ char' = '/' := ⟨hc, hc'⟩
      obtain ⟨_, tl, _, tl', rfl, rfl, -⟩ | ⟨hh, hh'⟩ :=
        hl.head_cases (c := '/') (by decide) (by decide)
      · exact .nil
      · rw [singleton_append, singleton_append, dropComment_cons fun _ ↦ hh,
          dropComment_cons fun _ ↦ hh']
        exact hre
    · rw [dropComment_append hr, dropComment_append hr']
      exact hre

/-! ### Whole lines -/

theorem map_char_skipBlanks (l : List Glyph) :
    (skipBlanks l).map Glyph.char = (l.map Glyph.char).dropWhile fun c ↦ c == ' ' || c == '\t' := by
  rw [dropWhile_map]
  rfl

/-- The path of an include is told by the characters behind its keyword. -/
theorem includes_includeLine (h : path'.map Glyph.char = path.map Glyph.char) (sc sc' : Scope) :
    (includeLine sc' path').includes.map Annotated.value =
      (includeLine sc path).includes.map Annotated.value := by
  have hc : (trimEndWhile (fun g ↦ isWhiteSpace g.char) (skipBlanks path')).map Glyph.char =
        (trimEndWhile (fun g ↦ isWhiteSpace g.char) (skipBlanks path)).map Glyph.char := by
    rw [map_char_trimEndWhile, map_char_trimEndWhile, map_char_skipBlanks, map_char_skipBlanks, h]
  unfold includeLine
  dsimp only
  generalize trimEndWhile (fun g ↦ isWhiteSpace g.char) (skipBlanks path) = name at hc
  generalize trimEndWhile (fun g ↦ isWhiteSpace g.char) (skipBlanks path') = name' at hc
  have he : name' = [] ↔ name = [] := by
    rw [← map_eq_nil_iff (f := Glyph.char), hc, map_eq_nil_iff]
  simp only [he]
  split_ifs
  · rfl
  · rw [map_singleton, map_singleton, mark, mark, spell, hc]
    rfl

/-- What a line holds is respelled. Includes stay, for no name is replaced in their lines. -/
theorem Respells.scanLine (h : Respells r l l') (hga : ¬ r.gaps) (hs : sc.Simple) (hsh : Shows t l)
    (ha : ∀ x ∈ (scanLine sc l).references, Agrees r t oc ld x)
    (hst : ∀ g ∈ l, r.starts g.offset → (scanLine sc l).references ≠ []) :
    ScansAlike r oc ld (scanLine sc l) (scanLine (sc.respell oc r.oldName r.newName) l') := by
  have hc := h.dropComment.skipBlanks
  have hw : Script.skipBlanks (Script.dropComment l) <:+: l :=
    (skipBlanks_suffix _).isInfix.trans (dropComment_isPrefix l).isInfix
  have hk := hc.dropText? ['=', '='] (by decide)
  have hsti := hc.dropText? ['='] (by decide)
  have hi := hc.dropWord? "INCLUDE" (by decide)
  have hl := hc.dropWord? "LIST" (by decide)
  rw [scanLine_eq] at ha hst ⊢
  rw [scanLine_eq]
  dsimp only at ha hst ⊢
  generalize Script.dropText? ['=', '='] _ = f at hk ha hst
  generalize Script.dropText? ['=', '='] _ = f' at hk
  cases hk with
  | some _ => exact hc.knotHeader hs (hsh.mono hw) ha
  | none =>
    generalize hf : Script.dropText? ['='] _ = f at hsti ha hst
    generalize Script.dropText? ['='] _ = f' at hsti
    cases hsti with
    | some hr =>
      exact hr.stitchHeader hs (hsh.mono ((dropText?_suffix hf).isInfix.trans hw)) ha
    | none =>
      generalize hf : Script.dropWord? "INCLUDE" _ = f at hi ha hst
      generalize Script.dropWord? "INCLUDE" _ = f' at hi
      cases hi with
      | @some path path' hp =>
        have hsa := hp.map_char_of_not_starts hga fun g hg hsta ↦
          hst g (hw.mem ((dropWord?_suffix hf).mem hg)) hsta rfl
        exact ⟨.nil, includes_includeLine hsa _ _, rfl, hs⟩
      | none =>
        generalize hf : Script.dropWord? "LIST" _ = f at hl ha
        generalize Script.dropWord? "LIST" _ = f' at hl
        cases hl with
        | some hd =>
          exact (hd.listLine (hsh.mono ((dropWord?_suffix hf).isInfix.trans hw)) ha).scansAlike hs
        | none => exact (hc.plainLine hs (hsh.mono hw) ha).scansAlike hs

end Lines

/-! ### Scripts -/

theorem Respells.dropReturns {l' : List Glyph} (h : Respells r l l') :
    Respells r (Script.dropReturns l) (Script.dropReturns l') := by
  have hr : Uniform (fun g ↦ g.char == '\r') false := uniform_eq (by decide)
  unfold Script.dropReturns
  induction h with
  | nil => exact .nil
  | @block run run' l l' hb hl ih =>
    rw [trimEndWhile_append, trimEndWhile_append]
    simp only [← ih.eq_nil_iff]
    split_ifs with he
    · obtain ⟨b, ha, ha'⟩ := hb.verdict hr
      cases b with
      | true =>
        rw [trimEndWhile_of_pos ha, trimEndWhile_of_pos ha']
        exact .nil
      | false =>
        have hw := Respells.block (hb.beginsLike (.of_isPrefix List.nil_prefix)) .nil
        rwa [append_nil, append_nil, ← trimEndWhile_of_neg ha, ← trimEndWhile_of_neg ha'] at hw
    · exact .block (hb.beginsLike (.of_isPrefix (trimEndWhile_isPrefix _ l))) ih

/-- What some lines and their respellings hold. -/
structure ScriptsAlike (r : Respelling) (oc : String → Bool) (ld : String → String → Bool)
    (sc scope' : Scope) (lines lines' : List (List Glyph)) : Prop where
  declared : declaredIds ((placements scope' lines').map Prod.snd) =
    (declaredIds ((placements sc lines).map Prod.snd)).map (respell oc r.oldName r.newName)
  diverts : divertsAt (placements scope' lines') =
    (divertsAt (placements sc lines)).map fun divert ↦ (respell oc r.oldName r.newName divert.1,
        respell (ld divert.1) r.oldName r.newName divert.2)
  includes : (inclusions scope' lines').map Annotated.value =
    (inclusions sc lines).map Annotated.value

theorem divertsAt_append (es lt : List (Scope × Annotated Reference)) :
    divertsAt (es ++ lt) = divertsAt es ++ divertsAt lt :=
  flatMap_append

theorem divertsAt_placed (sc : Scope) (xs : List (Annotated Reference)) :
    divertsAt (xs.map fun x ↦ (sc, x)) = (divertIds xs).map (sc.path, ·) := by
  rw [divertsAt, divertIds, flatMap_map, map_flatMap]
  refine flatMap_congr fun x _ ↦ ?_
  dsimp only
  split_ifs
  · rfl
  · rfl

theorem scriptsAlike {ls ls' : List (List Glyph)} {sc : Scope}
    {ld : String → String → Bool} (h : Forall₂ (Respells r) ls ls')
    (hga : ¬ r.gaps) (hl : Layout t ls) (hsco : sc.Simple) (hc : sc.Clear)
    (ha : ∀ e ∈ placements sc ls, Agrees r t oc (ld e.1.path) e.2)
    (hsta : ∀ l ∈ ls, ∀ g ∈ l, r.starts g.offset →
      ∃ e ∈ placements sc ls, e.2.span.start = g.offset) :
    ScriptsAlike r oc ld sc (sc.respell oc r.oldName r.newName) ls ls' := by
  induction h generalizing sc with
  | nil => exact ⟨rfl, rfl, rfl⟩
  | @cons l l' lt lt' hli _ ih =>
    have hsc := hl.scanned hc
    obtain ⟨ha, ha'⟩ := forall_mem_append.mp ha
    have hs : ScansAlike r oc (ld sc.path) (Script.scanLine sc (dropReturns l))
        (Script.scanLine (sc.respell oc r.oldName r.newName) (dropReturns l')) := by
      refine hli.dropReturns.scanLine hga hsco
        ((forall_mem_cons.mp hl.shows).1.mono (dropReturns_isPrefix l).isInfix)
        (fun x hi ↦ ha _ (mem_map_of_mem hi)) fun g hg hst hn ↦ ?_
      have hg := (dropReturns_isPrefix l).mem hg
      obtain ⟨e, he, hof⟩ := hsta l mem_cons_self g hg hst
      rw [placements, hn] at he
      obtain ⟨o, ho, right, hri, hri'⟩ := exists_start_of_mem_placements hl.tail hsc.clear he
      have hlt := (pairwise_cons.mp hl.pairwise).1 o ho g hg right hri
      omega
    have hr := ih hl.tail hs.simple hsc.clear ha' fun o ho g hg hst ↦ by
        obtain ⟨e, he, hof⟩ := hsta o (mem_cons_of_mem _ ho) g hg hst
        refine ⟨e, (mem_append.mp he).resolve_left fun he ↦ ?_, hof⟩
        obtain ⟨x, hi, rfl⟩ := mem_map.mp he
        obtain ⟨left, hle, hle', -⟩ := (hsc.read.marks x hi).exists_start
        have hlt := (pairwise_cons.mp hl.pairwise).1 o ho left
          ((dropReturns_isPrefix l).mem hle) g hg
        dsimp only at hof
        omega
    rw [← hs.scope_eq] at hr
    obtain ⟨hd, hdi, hin⟩ := hr
    constructor
    · rw [placements, placements, map_append, map_append, map_snd_placed, map_snd_placed,
        declaredIds_append, declaredIds_append, map_append, hs.references.declared, hd]
    · rw [placements, placements, divertsAt_append, divertsAt_append, map_append, hdi,
        divertsAt_placed, divertsAt_placed, hs.references.diverts, map_map, map_map,
        Scope.path_respell r.oldName_ne_empty hsco]
      rfl
    · rw [inclusions, inclusions, map_append, map_append, hs.includes, hin]

/-- What a script and its respelling hold. -/
theorem Respells.script {t t' : String} {ld : String → String → Bool}
    (h : Respells r (glyphs 0 t.toList) (glyphs 0 t'.toList)) (hg : ¬ r.gaps)
    (ha : ∀ e ∈ placementsOf t, Agrees r t.toList oc (ld e.1.path) e.2)
    (hst : ∀ off, r.starts off → ∃ x ∈ (annotate t).references.items, x.span.start = off) :
    ScriptsAlike r oc ld Scope.top Scope.top (lineGlyphs t) (lineGlyphs t') := by
  refine scriptsAlike (h.splitOnP (uniform_eq (by decide)) rfl) hg (layout_lineGlyphs t)
    nofun nofun ha fun _ _ g _ hs ↦ ?_
  obtain ⟨x, hi, ho⟩ := hst g.offset hs
  rw [(perm_lineItems t).mem_iff, lineItems_eq] at hi
  obtain ⟨e, he, rfl⟩ := mem_map.mp hi
  exact ⟨e, he, ho⟩

end StoryScript.Script
