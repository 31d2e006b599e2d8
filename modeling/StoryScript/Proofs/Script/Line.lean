import Mathlib.Data.List.Pairwise
import StoryScript.Proofs.Script.Mask
import StoryScript.Script.Line

/-!
What one line of a script holds. All its annotations mark words of the line, and two of them share
no byte unless they are the same use of a word, which then stands there twice (`Read`). Diverts and
tags leave blanks in their place, which no other word covers. What is read between braces stands
behind whatever a statement declares, and is read by the statement's own expression as well if they
meet (`Statement`).
-/

namespace StoryScript

open List StoryScript.Path

variable {scope : Scope} (ag : String)

theorem Path.plain_ofSegments {ss : List String} (hn : ss ≠ [])
    (h : ∀ s ∈ ss, Plain s) : Plain (ofSegments ss) := by
  induction ss with
  | nil => exact absurd rfl hn
  | cons a r ih =>
    obtain ⟨hf, hre⟩ := forall_mem_cons.mp h
    cases r with
    | nil => exact hf
    | cons y l => exact hf.append (ih (cons_ne_nil _ _) hre)

/-- A scope of sections that are named by plain paths. -/
def Scope.Clear (scope : Scope) : Prop :=
  ∀ name ∈ scope.sections, Plain name

theorem Scope.Clear.path (h : scope.Clear) : scope.path = "" ∨ Plain scope.path := by
  by_cases he : scope.sections = []
  · exact .inl (by rw [Scope.path, he]; rfl)
  · exact .inr (plain_ofSegments he h)

/-- A declaration adds no section but its own. -/
theorem Scope.eq_or_mem_sections_enter {k : SymbolKind} {name part : String}
    (h : part ∈ (scope.enter k name).sections) : part = name ∨ part ∈ scope.sections := by
  cases k with
  | knot => exact .inl (by simpa [Scope.enter, Scope.sections] using h)
  | stitch =>
    rcases mem_append.mp h with hk | hs
    · exact .inr (mem_append_left _ hk)
    · exact .inl (by simpa [Scope.enter] using hs)
  | label | const | var | list | define | temp | param => exact .inr h

theorem Scope.Clear.enter (h : scope.Clear) {name : String} (hn : Plain name)
    (k : SymbolKind) : (scope.enter k name).Clear := by
  intro part hp
  rcases Scope.eq_or_mem_sections_enter hp with rfl | hp
  · exact hn
  · exact h part hp

/-- The scope that a stitch is named in: its knot. -/
def Scope.outer (scope : Scope) : Scope :=
  { scope with stitch := none }

theorem Scope.Clear.outer (h : scope.Clear) : scope.outer.Clear := by
  intro part hp
  refine h part (mem_append_left _ ?_)
  simpa [Scope.outer, Scope.sections] using hp

namespace Script

variable {line b outer m a y name r v : List Glyph} {xs repeated l : List (Annotated Reference)}
  {x : Annotated Reference} {g : Glyph}

/-! ### Lines by what they open with -/

/-- Whether a glyph stands before the label of a choice or gather. -/
abbrev isMargin (glyph : Glyph) : Bool :=
  isBullet glyph || glyph.isBlank

section Openings

variable (line : List Glyph) (scope : Scope)

theorem parameters_eq :
    parameters scope line = match dropText? ['('] (skipBlanks line) with
      | some i => ((i.takeWhile fun g ↦ g.char ≠ ')').splitOnP fun g ↦
          g.char == ',').filterMap (parameter? scope)
      | none => [] := by
  unfold parameters
  split
  · rename_i hl
    rw [hl, dropText?_singleton_cons]
  · rename_i ho
    rw [dropText?_singleton_eq_none ho]

theorem initialReads_eq :
    initialReads ag line = match dropText? ['='] (skipBlanks line) with
      | some v => assignedReads ag v
      | none => [] := by
  unfold initialReads
  split
  · rename_i hl
    rw [hl, dropText?_singleton_cons]
  · rename_i ho
    rw [dropText?_singleton_eq_none ho]

theorem dropAssignment?_eq :
    dropAssignment? line = ((dropText? ['+', '='] line).or (dropText? ['-', '='] line)).or
      (dropText? ['='] line) := by
  unfold dropAssignment?
  split
  · simp [dropText?]
  · simp [dropText?]
  · simp [dropText?]
  · rename_i hp hm he
    rw [dropText?_pair_eq_none hp, dropText?_pair_eq_none hm, dropText?_singleton_eq_none he]
    rfl

theorem labelLine_eq :
    labelLine scope line = if (line.takeWhile isMargin).any isBullet then
        match dropText? ['('] (line.dropWhile isMargin) with
        | some r =>
          let name := takeName (skipBlanks r)
          match dropText? [')'] (skipBlanks ((skipBlanks r).drop name.length)) with
          | some _ => if name = [] then [] else [declareWithin scope .label name]
          | none => []
        | none => []
      else [] := by
  unfold labelLine
  dsimp only
  split
  · rename_i hb hl
    rw [hb, if_pos rfl, hl, dropText?_singleton_cons]
    dsimp only
    split
    · rename_i hc
      rw [hc, dropText?_singleton_cons]
    · rename_i ho
      rw [dropText?_singleton_eq_none ho]
  · rename_i ho
    split_ifs with hb
    · rw [dropText?_singleton_eq_none fun off r hl ↦ ho off r hb hl]
    · rfl

theorem statementLine_eq :
    statementLine scope line =
      match dropWord? "VAR" line, dropWord? "CONST" line, dropText? ['~'] line with
      | some d, _, _ => globalLine .var d
      | none, some d, _ => globalLine .const d
      | none, none, some logic => logicLine scope logic
      | none, none, none => labelLine scope line := by
  unfold statementLine
  split
  · rename_i hv
    rw [hv]
  · rename_i hv hc
    rw [hv, hc]
  · rename_i hv hc
    rw [hv, hc, dropText?_singleton_cons]
  · rename_i ho hv hc
    rw [hv, hc, dropText?_singleton_eq_none ho]

theorem scanLine_eq :
    scanLine scope line =
      let c := skipBlanks (dropComment line)
      match dropText? ['=', '='] c, dropText? ['='] c, dropWord? "INCLUDE" c,
        dropWord? "LIST" c with
      | some _, _, _, _ => knotHeader scope c
      | none, some r, _, _ => stitchHeader scope r
      | none, none, some path, _ => includeLine scope path
      | none, none, none, some declared => { scope, references := listLine declared }
      | none, none, none, none => { scope, references := plainLine scope c } := by
  unfold scanLine
  dsimp only
  split
  · rename_i hc
    rw [hc, dropText?, if_pos rfl, dropText?_singleton_cons]
  · rename_i hs hc
    rw [hc, dropText?, if_pos rfl, dropText?_singleton_eq_none hs, dropText?_singleton_cons]
  · rename_i hk hst
    rw [dropText?_pair_eq_none hk, dropText?_singleton_eq_none hst]
    split
    · rename_i hi
      rw [hi]
    · rename_i hi hl
      rw [hi, hl]
    · rename_i hi hl
      rw [hi, hl]

theorem scanLine_nil (scope : Scope) : scanLine scope [] = { scope } := by
  have hp : plainLine scope [] = [] := by
    simp [plainLine, maskStrings, maskDiverts, maskTags, statementLine_eq, labelLine_eq, inlineReads,
      dropWord?, dropText?]
  rw [scanLine_eq]
  simp [dropComment, skipBlanks, dropWord?, dropText?, hp]

/-- What an item of a parameter list has behind its marks. -/
def parameterBody (x : List Glyph) : List Glyph :=
  let b := skipBlanks x
  let b := ((dropWord? "ref" b).map skipBlanks).getD b
  ((dropText? ['-', '>'] b).map skipBlanks).getD b

/-- What a knot's header has behind its opening. -/
def knotBody : List Glyph :=
  let b := line.dropWhile fun g ↦ g.char == '=' || isHeaderSpace g.char
  ((dropWord? "function" b).map skipBlanks).getD b

variable {line} in
theorem map_skipBlanks_getD_suffix {f : Option (List Glyph)}
    (h : ∀ r, f = some r → r <:+ line) : (f.map skipBlanks).getD line <:+ line := by
  cases f with
  | none => exact suffix_rfl
  | some r => exact (skipBlanks_suffix r).trans (h r rfl)

theorem parameterBody_suffix (x : List Glyph) : parameterBody x <:+ x :=
  (map_skipBlanks_getD_suffix fun _ ↦ dropText?_suffix).trans
    ((map_skipBlanks_getD_suffix fun _ ↦ dropWord?_suffix).trans (skipBlanks_suffix x))

theorem knotBody_suffix : knotBody line <:+ line :=
  (map_skipBlanks_getD_suffix fun _ ↦ dropWord?_suffix).trans (dropWhile_suffix _)

theorem parameter?_eq (x : List Glyph) :
    parameter? scope x = if takeName (parameterBody x) = [] then none
      else some (declareWithin scope .param (takeName (parameterBody x))) :=
  rfl

/-- A parameter is the name at the front of some part of the line. -/
theorem exists_of_mem_parameters (h : x ∈ parameters scope line) :
    ∃ b, b <:+: line ∧ takeName b ≠ [] ∧ x = declareWithin scope .param (takeName b) := by
  rw [parameters_eq] at h
  cases ho : dropText? ['('] (skipBlanks line) with
  | none =>
    rw [ho] at h
    cases h
  | some i =>
    rw [ho] at h
    obtain ⟨p, hp, hf⟩ := mem_filterMap.mp h
    rw [parameter?_eq] at hf
    split_ifs at hf with he
    refine ⟨parameterBody p, ?_, he, (Option.some.inj hf).symm⟩
    exact (parameterBody_suffix p).isInfix.trans ((Text.isInfix_of_mem_splitOnP hp).trans
      ((List.takeWhile_prefix _).isInfix.trans
        ((dropText?_suffix ho).trans (skipBlanks_suffix line)).isInfix))

/-- A section's header behind its opening: a name, which is declared under an id, and
parameters. -/
def sectionHeader (kind : SymbolKind) (id : String → String) (b : List Glyph) : LineScan :=
  if takeName b = [] then { scope }
  else
    { scope := scope.enter kind (spell (takeName b))
      references := mark (takeName b) (Reference.ofDeclaration kind (id (spell (takeName b)))) ::
        parameters (scope.enter kind (spell (takeName b))) (b.drop (takeName b).length) }

theorem knotHeader_eq : knotHeader scope line = sectionHeader scope .knot id (knotBody line) :=
  rfl

theorem stitchHeader_eq :
    stitchHeader scope line =
      sectionHeader scope .stitch (Path.within scope.outer.path) (skipBlanks line) :=
  rfl

end Openings

/-! ### Annotations of a line -/

/-- No declaration starts where another annotation does. -/
def Apart (xs : List (Annotated Reference)) : Prop :=
  xs.Pairwise fun a y ↦ a.value.isDeclaration = true ∨ y.value.isDeclaration = true →
      a.span.start ≠ y.span.start

theorem symm_apart : Std.Symm fun a y : Annotated Reference ↦
    a.value.isDeclaration = true ∨ y.value.isDeclaration = true → a.span.start ≠ y.span.start :=
  ⟨fun _ _ hn hd heq ↦ hn hd.symm heq.symm⟩

/-- Annotations that share no byte. -/
def Beside (a y : Annotated Reference) : Prop :=
  a.span.stop ≤ y.span.start ∨ y.span.stop ≤ a.span.start

instance : Std.Symm Beside where
  symm := fun _ _ ↦ Or.symm

theorem Serial.beside (h : Serial xs) : xs.Pairwise Beside :=
  h.imp Or.inl

/-- Words of a line, from left to right. -/
structure Row (line : List Glyph) (xs : List (Annotated Reference)) : Prop where
  marks : ∀ x ∈ xs, Marks line x
  serial : Serial xs

/-- The annotations of a line. Each stands there once, and a use that is repeated stands there once
more. -/
structure Read (line : List Glyph) (xs repeated : List (Annotated Reference)) : Prop where
  marks : ∀ x ∈ xs, Marks line x
  uses : ∀ x ∈ repeated, x.value.isDeclaration = false
  twice : ∃ once, xs.Perm (once ++ repeated) ∧ repeated ⊆ once ∧ once.Pairwise Beside ∧
    repeated.Pairwise Beside

theorem Row.nil (line : List Glyph) : Row line [] :=
  ⟨nofun, List.Pairwise.nil⟩

theorem Row.mono (h : Row line xs) (ho : line <:+: outer) : Row outer xs :=
  ⟨fun x hi ↦ (h.marks x hi).mono ho, h.serial⟩

theorem Row.read (h : Row line xs) : Read line xs [] where
  marks := h.marks
  uses := forall_mem_nil _
  twice := ⟨xs, by rw [append_nil], nil_subset _, h.serial.beside, List.Pairwise.nil⟩

theorem Read.mono (h : Read line xs repeated) (ho : line <:+: outer) : Read outer xs repeated :=
  { h with marks := fun x hi ↦ (h.marks x hi).mono ho }

theorem Read.unmask (h : Read m xs repeated) (hm : Masks m line) : Read line xs repeated :=
  { h with marks := fun x hi ↦ (h.marks x hi).unmask hm }

/-- A run at the front of a rising line starts before all its glyphs. -/
theorem start_le_of_isPrefix {run : List Glyph} (hr : Rising b) (hru : run <+: b)
    (hn : run ≠ []) : ∀ g ∈ b, (spanOf run).start ≤ g.offset := by
  obtain ⟨a, tl, rfl⟩ := exists_cons_of_ne_nil hn
  obtain ⟨r, rfl⟩ := hru
  obtain ⟨hf, -⟩ := pairwise_cons.mp hr
  rw [start_spanOf_cons]
  refine forall_mem_cons.mpr ⟨Nat.le_refl _, fun g hg ↦ ?_⟩
  exact Nat.le_of_lt (hf g hg)

theorem Marks.start_lt_stop (h : Marks line x) (hr : Rising line) : x.span.start < x.span.stop := by
  obtain ⟨run, hru, hn, -, hs⟩ := h.exists_run
  obtain ⟨_, _, last, hl, he⟩ := exists_ends_spanOf hn
  rw [hs]
  calc (spanOf run).start ≤ last.offset :=
        start_le_of_isPrefix (hr.of_isInfix hru) prefix_rfl hn last hl
    _ < last.stop := last.offset_lt_stop
    _ = (spanOf run).stop := (congrArg Span.stop he).symm

theorem Beside.start_ne {a y : Annotated Reference} (h : Beside a y)
    (hf : a.span.start < a.span.stop)
    (hs : y.span.start < y.span.stop) : a.span.start ≠ y.span.start := by
  unfold Beside at h
  omega

namespace Read

variable (h : Read line xs repeated) {o : Annotated Reference}

include h

theorem mem_of_mem_repeated (hi : x ∈ repeated) : x ∈ xs := by
  obtain ⟨once, hp, -⟩ := h.twice
  exact hp.mem_iff.mpr (mem_append_right _ hi)

theorem eq_or_beside (hi : x ∈ xs) (hot : o ∈ xs) : x = o ∨ Beside x o := by
  obtain ⟨once, hp, hre, ho, -⟩ := h.twice
  have hm : ∀ x ∈ xs, x ∈ once := fun x hi ↦
    (mem_append.mp (hp.mem_iff.mp hi)).elim id fun hi ↦ hre hi
  exact or_iff_not_imp_left.mpr (ho.forall (hm x hi) (hm o hot))

variable (hr : Rising line)

include hr

theorem start_ne (hi : x ∈ xs) (ho : o ∈ xs) (hb : Beside x o) : x.span.start ≠ o.span.start :=
  hb.start_ne ((h.marks x hi).start_lt_stop hr) ((h.marks o ho).start_lt_stop hr)

/-- Annotations that start at the same place are the same. -/
theorem eq_of_start_eq (hi : x ∈ xs) (ho : o ∈ xs) (hs : o.span.start = x.span.start) : o = x :=
  (h.eq_or_beside ho hi).elim id fun hb ↦ absurd hs (h.start_ne hr ho hi hb)

theorem apart : Apart xs := by
  obtain ⟨once, hp, hre, hon, hb⟩ := h.twice
  have hsy := symm_apart
  have hm : ∀ x ∈ once, x ∈ xs := fun x hi ↦ hp.mem_iff.mpr (mem_append_left _ hi)
  refine hp.symm.pairwise (pairwise_append.mpr ⟨?_, ?_, ?_⟩) (hsy.symm _ _)
  · exact hon.imp_of_mem fun hf hs hb _ ↦ h.start_ne hr (hm _ hf) (hm _ hs) hb
  · exact hb.imp_of_mem fun hf hs hb _ ↦ h.start_ne hr (hm _ (hre hf)) (hm _ (hre hs)) hb
  · intro x hi o ho hd hst
    have hu := h.uses o ho
    rw [h.eq_of_start_eq hr (hm o (hre ho)) (hm x hi) hst, hu] at hd
    simp at hd

/-- How often an annotation stands in a line. -/
theorem count (hi : x ∈ xs) : xs.count x = if x ∈ repeated then 2 else 1 := by
  obtain ⟨once, hp, hre, ho, hb⟩ := h.twice
  have hm : ∀ x ∈ once, x ∈ xs := fun x hi ↦ hp.mem_iff.mpr (mem_append_left _ hi)
  have hne : ∀ {a y : Annotated Reference}, a ∈ once → y ∈ once →
      Beside a y → a ≠ y := fun hf hs hb heq ↦
    h.start_ne hr (hm _ hf) (hm _ hs) hb (heq ▸ rfl)
  have hn : once.Nodup := ho.imp_of_mem hne
  have hn' : repeated.Nodup := hb.imp_of_mem fun hf hs ↦ hne (hre hf) (hre hs)
  have ho : x ∈ once := (mem_append.mp (hp.mem_iff.mp hi)).elim id fun hi ↦ hre hi
  rw [hp.count_eq, count_append, count_eq_one_of_mem hn ho]
  split_ifs with ha
  · rw [count_eq_one_of_mem hn' ha]
  · rw [count_eq_zero_of_not_mem ha]

end Read

/-- Annotations of one part of a line, and of the part behind it. -/
theorem Row.append (h : Row a xs) (h' : Row y l) (hs : Spaced (a ++ y)) :
    Row (a ++ y) (xs ++ l) where
  marks := forall_mem_append.mpr ⟨fun x hi ↦ (h.marks x hi).mono (prefix_append _ _).isInfix,
      fun x hi ↦ (h'.marks x hi).mono (suffix_append _ _).isInfix⟩
  serial := h.serial.append h'.serial hs h.marks h'.marks

theorem Read.append {repeated' : List (Annotated Reference)} (h : Read a xs repeated)
    (h' : Read y l repeated') (hs : Spaced (a ++ y)) :
    Read (a ++ y) (xs ++ l) (repeated ++ repeated') := by
  obtain ⟨once, hp, hre, ho, hb⟩ := h.twice
  obtain ⟨once', hp', hre', ho', hb'⟩ := h'.twice
  have ha : ∀ x ∈ once, ∀ o ∈ once', Beside x o := fun x hi o hot ↦
    Or.inl ((h.marks x (hp.mem_iff.mpr (mem_append_left _ hi))).stop_le_start
      (h'.marks o (hp'.mem_iff.mpr (mem_append_left _ hot)))
      (pairwise_append.mp hs).2.2)
  refine ⟨forall_mem_append.mpr ⟨fun x hi ↦ ?_, fun x hi ↦ ?_⟩,
    forall_mem_append.mpr ⟨h.uses, h'.uses⟩, once ++ once', ?_, ?_, ?_, ?_⟩
  · exact (h.marks x hi).mono (prefix_append _ _).isInfix
  · exact (h'.marks x hi).mono (suffix_append _ _).isInfix
  · refine (hp.append hp').trans ?_
    rw [append_assoc, append_assoc]
    exact (perm_append_comm_assoc _ _ _).append_left once
  · exact append_subset.mpr ⟨fun x hi ↦ mem_append_left _ (hre hi),
      fun x hi ↦ mem_append_right _ (hre' hi)⟩
  · exact pairwise_append.mpr ⟨ho, ho', ha⟩
  · exact pairwise_append.mpr ⟨hb, hb', fun x hi o hot ↦ ha x (hre hi) o (hre' hot)⟩

/-- A word in front of what is annotated already. -/
theorem Row.cons {x : Annotated Reference} {xs : List (Annotated Reference)} (h : Row r xs)
    (hs : Spaced (name ++ r)) (hi : Marks name x) : Row (name ++ r) (x :: xs) :=
  Row.append ⟨forall_mem_singleton.mpr hi, pairwise_singleton _ _⟩ h hs

/-- At most one annotation from each piece between separators. -/
theorem row_filterMap_splitOnP (h : Spaced line) (p : Glyph → Bool)
    {f : List Glyph → Option (Annotated Reference)}
    (hm : ∀ pc x, f pc = some x → Marks pc x) :
    Row line ((line.splitOnP p).filterMap f) := by
  constructor
  · intro x hi
    obtain ⟨pc, hp, heq⟩ := mem_filterMap.mp hi
    exact (hm pc x heq).mono (Text.isInfix_of_mem_splitOnP hp)
  · refine pairwise_filterMap.mpr ((pairwise_splitOnP h p).imp ?_)
    intro a y hb left hl right hri
    exact (hm a left hl).stop_le_start (hm y right hri) hb

theorem marks_ofDeclaration {id : String} (h : IsName name) (hn : name ≠ []) (k : SymbolKind)
    (hp : Plain id) (he : EndsWith id (spell name)) :
    Marks name (mark name (Reference.ofDeclaration k id)) :=
  .intro name _ infix_rfl hn h.words (.declares k id hp he.last_eq) (forall_mem_singleton.mpr he)

theorem marks_declareWithin (h : IsName name) (hn : name ≠ []) (hs : scope.Clear) (k : SymbolKind) :
    Marks name (declareWithin scope k name) :=
  marks_ofDeclaration h hn k (.within hs.path h.plain) (endsWith_within _ _)

theorem marks_parameter? (hs : scope.Clear) (p : List Glyph) (x : Annotated Reference)
    (h : parameter? scope p = some x) : Marks p x := by
  rw [parameter?_eq] at h
  split_ifs at h with he
  obtain rfl := Option.some.inj h
  exact (marks_declareWithin (isName_takeName he) he hs .param).mono
    ((takeName_isPrefix _).isInfix.trans (parameterBody_suffix p).isInfix)

theorem row_parameters (hs : scope.Clear) (hsp : Spaced line) :
    Row line (parameters scope line) := by
  unfold parameters
  split
  · rename_i offset i hl
    have hp : (i.takeWhile fun g ↦ g.char ≠ ')') <:+: line :=
      (List.takeWhile_prefix _).isInfix.trans ((suffix_cons _ i).trans
        (hl ▸ skipBlanks_suffix line)).isInfix
    have hro := row_filterMap_splitOnP (hsp.of_isInfix hp) (fun g ↦ g.char == ',')
      (marks_parameter? hs)
    exact hro.mono hp
  · exact Row.nil line

theorem takeName_append_drop (b : List Glyph) : takeName b ++ b.drop (takeName b).length = b :=
  prefix_iff_eq_append.mp (takeName_isPrefix b)

theorem Row.cons_takeName (h : Row (b.drop (takeName b).length) xs) (hs : Spaced b)
    (hi : Marks (takeName b) x) : Row b (x :: xs) := by
  have hro := h.cons (by rwa [takeName_append_drop]) hi
  rwa [takeName_append_drop] at hro

/-- What a line holds, in a scope that is clear before and behind it. -/
structure Scanned (line : List Glyph) (scan : LineScan) (repeated : List (Annotated Reference)) :
    Prop where
  read : Read line scan.references repeated
  clear : scan.scope.Clear

theorem scanned_sectionHeader (hs : scope.Clear) (hsu : b <:+ line)
    (hsp : Spaced line) {k : SymbolKind} {id : String → String}
    (hi : takeName b ≠ [] → Marks (takeName b)
      (mark (takeName b) (Reference.ofDeclaration k (id (spell (takeName b)))))) :
    Scanned line (sectionHeader scope k id b) [] := by
  unfold sectionHeader
  split_ifs with he
  · exact ⟨(Row.nil line).read, hs⟩
  · have hc := hs.enter (isName_takeName he).plain k
    have hb := hsp.of_isInfix hsu.isInfix
    have hp := row_parameters hc (hb.of_isInfix (drop_suffix (takeName b).length b).isInfix)
    exact ⟨((hp.cons_takeName hb (hi he)).mono hsu.isInfix).read, hc⟩

theorem scanned_knotHeader (hs : scope.Clear) (hsp : Spaced line) :
    Scanned line (knotHeader scope line) [] := by
  rw [knotHeader_eq]
  exact scanned_sectionHeader hs (knotBody_suffix line) hsp fun he ↦
    marks_ofDeclaration (isName_takeName he) he .knot (isName_takeName he).plain (Or.inl rfl)

theorem scanned_stitchHeader (hs : scope.Clear) (hsp : Spaced line) :
    Scanned line (stitchHeader scope line) [] := by
  rw [stitchHeader_eq]
  exact scanned_sectionHeader hs (skipBlanks_suffix line) hsp fun he ↦
    marks_declareWithin (isName_takeName he) he hs.outer .stitch

theorem marks_listMember? {list : String} (hl : Plain list) (p : List Glyph)
    (x : Annotated Reference) (h : listMember? list p = some x) : Marks p x := by
  unfold listMember? at h
  dsimp only at h
  split_ifs at h with he
  obtain rfl := Option.some.inj h
  have hn := isName_takeName he
  exact (marks_ofDeclaration hn he .define (hl.append hn.plain)
    (Or.inr ⟨list, rfl⟩)).mono ((takeName_isPrefix _).isInfix.trans (dropWhile_suffix _).isInfix)

theorem row_listLine (hsp : Spaced line) : Row line (listLine line) := by
  have hs := skipBlanks_suffix line
  have hb := hsp.of_isInfix hs.isInfix
  unfold listLine
  dsimp only
  split_ifs with he
  · exact Row.nil line
  · have hn := isName_takeName he
    have hv : ∀ r : List Glyph, (r.dropWhile fun g ↦ g.char ≠ '=').drop 1 <:+ r :=
      fun _ ↦ (drop_suffix _ _).trans (dropWhile_suffix _)
    have hm := (row_filterMap_splitOnP (hb.of_isInfix ((hv _).trans
      (drop_suffix (takeName (skipBlanks line)).length _)).isInfix)
        (fun g ↦ g.char == ',') (marks_listMember? hn.plain)).mono (hv _).isInfix
    exact (hm.cons_takeName hb
      (marks_ofDeclaration hn he .list hn.plain (Or.inl rfl))).mono hs.isInfix

/-! ### Plain lines -/

/-- The statement of a line, with the annotations that meet no others between braces. -/
structure Statement (line : List Glyph) (xs : List (Annotated Reference)) : Prop extends
    Row line xs where
  inline : ∀ x ∈ xs, ∀ read ∈ inlineReads line, x = read ∨ Beside x read

theorem Statement.nil (line : List Glyph) : Statement line [] :=
  ⟨Row.nil line, nofun⟩

/-- A statement behind an opening without braces. -/
theorem Statement.prepend {op : List Glyph} (h : Statement line xs)
    (ho : ∀ g ∈ op, g.char ≠ '\x7b') : Statement (op ++ line) xs where
  toRow := h.toRow.mono (suffix_append _ _).isInfix
  inline := by
    rw [inlineReads_append ho]
    exact h.inline

theorem Statement.cons {line : List Glyph} {xs : List (Annotated Reference)} (h : Statement line xs)
    (hg : g.char ≠ '\x7b') : Statement (g :: line) xs :=
  h.prepend (forall_mem_singleton.mpr hg)

theorem Statement.of_skipBlanks (h : Statement (skipBlanks line) xs) : Statement line xs := by
  have hbl : ∀ g ∈ line.takeWhile Glyph.isBlank, g.char ≠ '\x7b' := by
    intro g hg hbr
    have hb := mem_takeWhile_imp hg
    rw [Glyph.isBlank, hbr] at hb
    exact absurd hb (by decide)
  have hs := h.prepend hbl
  rwa [skipBlanks, takeWhile_append_dropWhile] at hs

theorem Statement.of_dropWord? {w : String} (h : Statement r xs) (hre : dropWord? w line = some r)
    (hw : '\x7b' ∉ w.toList) :
    Statement line xs := by
  obtain ⟨op, rfl, ho⟩ := eq_of_dropWord? hre
  refine h.prepend fun g hg hb ↦ hw ?_
  rw [← ho, ← hb]
  exact mem_map_of_mem hg

/-- A name at the front of a line, and a statement behind it. -/
theorem statement_takeName (hs : Spaced b) (he : takeName b ≠ [])
    (hit : Marks (takeName b) x) (h : Statement (b.drop (takeName b).length) xs) :
    Statement b (x :: xs) where
  toRow := h.toRow.cons_takeName hs hit
  inline := by
    have hbo := takeName_append_drop b
    have hb : ∀ g ∈ takeName b, g.char ≠ '\x7b' := fun g hg hb ↦ by
      have hw := (isName_takeName he).words g hg
      rw [hb] at hw
      exact absurd hw (by decide)
    have hi := inlineReads_append hb (b.drop (takeName b).length)
    rw [hbo] at hi
    rw [← hbo] at hs
    rw [hi]
    refine forall_mem_cons.mpr ⟨fun read hre ↦ Or.inr (Or.inl ?_), h.inline⟩
    exact hit.stop_le_start (uses_inlineReads _ read hre).1 (pairwise_append.mp hs).2.2

theorem statement_reads (hs : Spaced line) : Statement line (reads line) where
  marks := fun x hi ↦ (uses_reads line x hi).1
  serial := serial_reads hs
  inline := fun _ hi _ hre ↦ or_iff_not_imp_left.mpr ((serial_reads hs).beside.forall
    hi ((inlineReads_sublist_reads [] line).mem hre))

theorem statement_assignedReads (hs : Spaced line) : Statement line (assignedReads ag line) := by
  unfold assignedReads
  dsimp only
  split_ifs with hsi
  · obtain ⟨hn, hd, -, -⟩ := hsi
    exact .of_skipBlanks (statement_takeName (hs.of_isInfix (skipBlanks_suffix line).isInfix)
      hn (marks_assigned (isName_takeName hn) hn (by simpa using hd) ag) (Statement.nil _))
  · exact statement_reads hs

theorem uses_initialReads (line : List Glyph) : Uses false line (initialReads ag line) := by
  unfold initialReads
  split
  · rename_i offset v hl
    exact (uses_assignedReads ag v).mono
      ((suffix_cons _ v).trans (hl ▸ skipBlanks_suffix line)).isInfix
  · exact Uses.nil line

theorem statement_initialReads (hs : Spaced line) : Statement line (initialReads ag line) := by
  unfold initialReads
  split
  · rename_i offset v hl
    have hv : v <:+ line := (suffix_cons _ v).trans (hl ▸ skipBlanks_suffix line)
    apply Statement.of_skipBlanks
    rw [hl]
    exact (statement_assignedReads ag (hs.of_isInfix hv.isInfix)).cons (by decide : '=' ≠ '\x7b')
  · exact Statement.nil line

theorem statement_globalLine (k : SymbolKind) (hs : Spaced line) :
    Statement line (globalLine k line) := by
  unfold globalLine
  dsimp only
  split_ifs with he
  · exact Statement.nil line
  · have hn := isName_takeName he
    have hb := hs.of_isInfix (skipBlanks_suffix line).isInfix
    exact .of_skipBlanks (statement_takeName hb he
      (marks_ofDeclaration hn he k hn.plain (Or.inl rfl))
      (statement_initialReads _ (hb.of_isInfix (drop_suffix _ _).isInfix)))

theorem eq_of_dropAssignment? (h : dropAssignment? line = some v) :
    ∃ op, line = op ++ v ∧ ∀ g ∈ op, g.char ≠ '\x7b' := by
  unfold dropAssignment? at h
  split at h
  · obtain rfl := Option.some.inj h
    exact ⟨[_, _], rfl, by simp⟩
  · obtain rfl := Option.some.inj h
    exact ⟨[_, _], rfl, by simp⟩
  · obtain rfl := Option.some.inj h
    exact ⟨[_], rfl, by simp⟩
  · cases h

/-- An assignment to a name without dots: the write, and what the value reads. -/
theorem statement_assignment (hsp : Spaced b) (hn : takeName b ≠ [])
    (hd : ∀ g ∈ takeName b, g.char ≠ '.')
    (hv : dropAssignment? (skipBlanks (b.drop (takeName b).length)) = some v) :
    Statement b (mark (takeName b)
      (Reference.ofUse .write (".." ++ spell (takeName b))) ::
        assignedReads (spell (takeName b)) v) := by
  have hs : takeName b ∈ (takeName b).splitOnP isDot := by
    rw [splitOnP_of_dotless hd]
    exact mem_singleton.mpr rfl
  obtain ⟨-, hw, hp⟩ := (isName_takeName hn).segment hs
  obtain ⟨op, ho, hb⟩ := eq_of_dropAssignment? hv
  have hre : Spaced (op ++ v) := ho ▸ hsp.of_isInfix
    ((skipBlanks_suffix _).trans (drop_suffix _ _)).isInfix
  refine statement_takeName hsp hn ?_ (.of_skipBlanks ?_)
  · refine .ofUse .write infix_rfl hn hw hp ?_
    rw [last_searched, last_of_dotless (dotless_of_mem_splitOnP hs)]
  · rw [ho]
    exact (statement_assignedReads _ (hre.of_isInfix (suffix_append _ _).isInfix)).prepend hb

theorem statement_logicLine (hs : scope.Clear) (hsp : Spaced line) :
    Statement line (logicLine scope line) := by
  apply Statement.of_skipBlanks
  have hb := hsp.of_isInfix (skipBlanks_suffix line).isInfix
  unfold logicLine
  dsimp only
  split
  · rename_i rest ht
    refine .of_dropWord? ?_ ht (by decide)
    apply Statement.of_skipBlanks
    have hre := hb.of_isInfix ((skipBlanks_suffix rest).trans (dropWord?_suffix ht)).isInfix
    split_ifs with he
    · exact Statement.nil _
    · exact statement_takeName hre he (marks_declareWithin (isName_takeName he) he hs .temp)
        (statement_initialReads _ (hre.of_isInfix (drop_suffix _ _).isInfix))
  · rename_i result _ hret
    exact (statement_reads (hb.of_isInfix (dropWord?_suffix hret).isInfix)).of_dropWord?
      hret (by decide)
  · split
    · rename_i value hv
      split_ifs at hv with ha
      exact statement_assignment hb ha.1 (by simpa using ha.2) hv
    · exact statement_reads hb

theorem ne_brace_of_isMargin (h : isMargin g = true) : g.char ≠ '\x7b' := by
  intro hb
  rw [isMargin, isBullet, Glyph.isBlank, hb] at h
  exact absurd h (by decide)

theorem statement_labelLine (hs : scope.Clear) (hsp : Spaced line) :
    Statement line (labelLine scope line) := by
  unfold labelLine
  dsimp only
  split
  · rename_i off rest hbu hl
    split
    · split_ifs with he
      · exact Statement.nil line
      · have ho : ∀ g ∈ line.takeWhile isMargin ++ [⟨off, '('⟩], g.char ≠ '\x7b' := by
          rw [forall_mem_append]
          refine ⟨fun g hg ↦ ne_brace_of_isMargin (mem_takeWhile_imp hg), ?_⟩
          intro g hg
          rw [mem_singleton.mp hg]
          exact (by decide : '(' ≠ '\x7b')
        have hw : line.takeWhile isMargin ++ [⟨off, '('⟩] ++ rest = line := by
          rw [append_assoc, singleton_append, ← hl, takeWhile_append_dropWhile]
        have hb : Spaced (skipBlanks rest) :=
          hsp.of_isInfix ((skipBlanks_suffix rest).trans ⟨_, hw⟩).isInfix
        rw [← hw]
        exact Statement.prepend (.of_skipBlanks (statement_takeName hb he
          (marks_declareWithin (isName_takeName he) he hs .label)
          (Statement.nil _))) ho
    · exact Statement.nil line
  · exact Statement.nil line

theorem statement_statementLine (hsc : scope.Clear) (hs : Spaced line) :
    Statement line (statementLine scope line) := by
  unfold statementLine
  split
  · rename_i declared hw
    exact (statement_globalLine .var
      (hs.of_isInfix (dropWord?_suffix hw).isInfix)).of_dropWord? hw (by decide)
  · rename_i declared _ hw
    exact (statement_globalLine .const
      (hs.of_isInfix (dropWord?_suffix hw).isInfix)).of_dropWord? hw (by decide)
  · refine Statement.cons (statement_logicLine hsc (hs.of_isInfix (suffix_cons _ _).isInfix)) ?_
    exact (by decide : '~' ≠ '\x7b')
  · exact statement_labelLine hsc hs

/-- A word that is left in a line covers none of the blanks that a taken reference left. -/
theorem Hides.beside {o : Annotated Reference} (h : Hides m line x) (hm : Masks m line)
    (hsp : Spaced line) (ho : Marks m o) : Beside x o := by
  obtain ⟨run, hru, hno, hs, hb⟩ := h
  obtain ⟨w, hw, hn', hwo, hs'⟩ := ho.exists_run
  have hn : ∀ g ∈ w, g.char ≠ ' ' :=
    fun g hg ↦ (ne_of_isWordChar (hwo g hg)).1
  unfold Beside
  rw [hs, hs']
  rcases hsp.stop_le_or_exists_mem hru (hm.isInfix_of_isInfix hw hn) hno
    hn' with hst | hst | ⟨g, hg, hsh⟩
  · exact .inl hst
  · exact .inr hst
  · have heq : g.blank = g := (hm.rising hsp.rising).glyph_ext (hb g hg) (hw.mem hsh) rfl
    exact absurd (congrArg Glyph.char heq).symm (hn g hsh)

/-- What strings, diverts and tags leave of a line. -/
def unmasked (line : List Glyph) : List Glyph :=
  (maskTags (maskDiverts (maskStrings false line)).line).line

/-- The names between the braces of a plain line that its statement reads as well. -/
def plainRepeats (scope : Scope) (line : List Glyph) : List (Annotated Reference) :=
  (inlineReads (unmasked line)).filter fun x ↦ x ∈ statementLine scope (unmasked line)

/-- The annotations of a plain line mark what its strings leave of it. -/
theorem read_plainLine (hsc : scope.Clear) (hs : Spaced line) :
    Read (maskStrings false line) (plainLine scope line) (plainRepeats scope line) := by
  have hd := taken_maskDiverts (maskStrings false line)
  have ht := taken_maskTags (maskDiverts (maskStrings false line)).line
  have hs := (masks_maskStrings false line).spaced hs
  unfold plainLine plainRepeats unmasked
  dsimp only
  generalize maskStrings false line = quoted at *
  generalize maskDiverts quoted = diverts at *
  generalize maskTags diverts.line = tags at *
  have hs' := hd.masks.spaced hs
  have hres : Spaced tags.line := ht.masks.spaced hs'
  have hst := statement_statementLine hsc hres
  have hin := uses_inlineReads tags.line
  -- What is left is marked by the statement and between braces.
  have hl : ∀ x ∈ statementLine scope tags.line ++ inlineReads tags.line, Marks tags.line x :=
    forall_mem_append.mpr ⟨hst.marks, fun x hi ↦ (hin x hi).1⟩
  have hm : ∀ x ∈ tags.found ++ (statementLine scope tags.line ++ inlineReads tags.line),
      Marks diverts.line x :=
    forall_mem_append.mpr ⟨fun x hi ↦ (ht.uses x hi).1, fun x hi ↦ (hl x hi).unmask ht.masks⟩
  have hre : (inlineReads tags.line).Pairwise Beside :=
    (serial_reads hres).beside.sublist (inlineReads_sublist_reads [] _)
  have hf : ∀ p : Annotated Reference → Bool, statementLine scope tags.line ++
      (inlineReads tags.line).filter p ⊆ statementLine scope tags.line ++ inlineReads tags.line :=
    fun p ↦ (filter_sublist.append_left _).subset
  rw [append_assoc, append_assoc]
  refine ⟨forall_mem_append.mpr ⟨fun x hi ↦ (hd.uses x hi).1, fun x hi ↦ (hm x hi).unmask hd.masks⟩,
    fun x hi ↦ (hin x (mem_of_mem_filter hi)).2.1,
    diverts.found ++ (tags.found ++ (statementLine scope tags.line ++
      (inlineReads tags.line).filter fun x ↦ x ∉ statementLine scope tags.line)), ?_, ?_, ?_,
    hre.sublist filter_sublist⟩
  · rw [append_assoc, append_assoc, append_assoc]
    refine (((Perm.symm ?_).append_left _).append_left _).append_left _
    refine perm_append_comm.trans ?_
    simpa using filter_append_perm (fun x ↦ decide (x ∈ statementLine scope tags.line))
      (inlineReads tags.line)
  · intro x hi
    exact mem_append_right _ (mem_append_right _ (mem_append_left _
      (by simpa using (mem_filter.mp hi).2)))
  · rw [pairwise_append, pairwise_append, pairwise_append]
    refine ⟨(hd.serial hs).beside, ⟨(ht.serial hs').beside,
      ⟨hst.serial.beside, hre.sublist filter_sublist, ?_⟩, ?_⟩, ?_⟩
    · intro x hi o ho
      obtain ⟨hrea, hn⟩ := mem_filter.mp ho
      refine (hst.inline x hi o hrea).resolve_left fun heq ↦ ?_
      exact absurd (heq ▸ hi) (of_decide_eq_true hn)
    · exact fun x hi o ho ↦ (ht.hides x hi).beside ht.masks hs' (hl o (hf _ ho))
    · exact fun x hi o ho ↦ (hd.hides x hi).beside hd.masks hs
        (hm o (((Sublist.refl _).append (filter_sublist.append_left _)).subset ho))

theorem dropComment_isPrefix (line : List Glyph) : dropComment line <+: line := by
  fun_induction dropComment line with
  | case1 => exact List.nil_prefix
  | case2 g r _ ih => exact cons_prefix_cons.mpr ⟨rfl, ih⟩
  | case3 => exact prefix_rfl

/-- The names of a line that are read twice: between braces, and by the statement around them. -/
def lineRepeats (scope : Scope) (line : List Glyph) : List (Annotated Reference) :=
  let c := skipBlanks (dropComment line)
  match dropText? ['='] c, dropWord? "INCLUDE" c, dropWord? "LIST" c with
  | none, none, none => plainRepeats scope c
  | _, _, _ => []

/-- The annotations of a line mark words between its margin and its comment, two of them share no
byte or are the same use, and the scope stays clear. -/
theorem scanned_code (hs : scope.Clear) (hsp : Spaced line) :
    Scanned (skipBlanks (dropComment line)) (scanLine scope line) (lineRepeats scope line) := by
  have hc := hsp.of_isInfix ((skipBlanks_suffix _).isInfix.trans
    (dropComment_isPrefix line).isInfix)
  unfold scanLine lineRepeats
  dsimp only
  generalize skipBlanks (dropComment line) = c at hc
  have hm : ∀ {i : List Glyph} {scan : LineScan}, i <:+ c → Scanned i scan [] → Scanned c scan [] :=
    fun hin h ↦ ⟨h.read.mono hin.isInfix, h.clear⟩
  split
  · exact scanned_knotHeader hs hc
  · rename_i offset r _
    have hre := suffix_cons (⟨offset, '='⟩ : Glyph) r
    exact hm hre (scanned_stitchHeader hs (hc.of_isInfix hre.isInfix))
  · rename_i hst
    rw [dropText?_singleton_eq_none hst]
    split
    · rename_i hw
      rw [hw]
      exact ⟨(Row.nil c).read, hs⟩
    · rename_i declared hi hw
      rw [hi, hw]
      have hd := dropWord?_suffix hw
      exact hm hd ⟨(row_listLine (hc.of_isInfix hd.isInfix)).read, hs⟩
    · rename_i hi hw
      rw [hi, hw]
      exact ⟨(read_plainLine hs hc).unmask (masks_maskStrings false c), hs⟩

theorem scanned_scanLine (hs : scope.Clear) (hsp : Spaced line) :
    Scanned line (scanLine scope line) (lineRepeats scope line) := by
  obtain ⟨hre, hc⟩ := scanned_code hs hsp
  exact ⟨hre.mono ((skipBlanks_suffix _).isInfix.trans (dropComment_isPrefix line).isInfix), hc⟩

end Script

end StoryScript
