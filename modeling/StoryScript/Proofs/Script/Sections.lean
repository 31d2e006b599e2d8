import StoryScript.Proofs.Program
import StoryScript.Proofs.Script.Placement

/-!
The sections of a script. The scanner keeps a scope while it goes from line to line, and a walk over
the annotations makes scopes of the sections that it meets. The two agree, line by line
(`Script.Sited`), so the ids that the scanner gave are those that the walk leads to, and a scope is
made of the last knot and the last stitch since (`Script.ids_follow_scope`).
-/

namespace StoryScript

open List RangeSet Scope

variable {text : List Char} {entry : Scope × Annotated Reference}

namespace Script

open Scope (opens)

/-- The scope that the annotations before an offset lead to. -/
def scopeBefore (text : List Char) (sc : Scope) (xs : List (Annotated Reference))
    (offset : Nat) : Scope :=
  (xs.filter fun item ↦ item.span.start < offset).foldl (visit text) sc

section ScopeBefore

variable (text : List Char) (sc : Scope) {xs lt : List (Annotated Reference)} {offset : Nat}

/-- What starts at an offset or behind it does not stand before it. -/
theorem scopeBefore_append_of_le (xs : List (Annotated Reference))
    (h : ∀ item ∈ lt, offset ≤ item.span.start) :
    scopeBefore text sc (xs ++ lt) offset = scopeBefore text sc xs offset := by
  have hn : lt.filter (fun item ↦ decide (item.span.start < offset)) = [] :=
    filter_eq_nil_iff.mpr fun item hi ↦ by simpa using h item hi
  rw [scopeBefore, filter_append, hn, append_nil, scopeBefore]

theorem scopeBefore_append_of_lt (h : ∀ item ∈ xs, item.span.start < offset)
    (lt : List (Annotated Reference)) :
    scopeBefore text sc (xs ++ lt) offset =
      scopeBefore text (xs.foldl (visit text) sc) lt offset := by
  have ha : xs.filter (fun item ↦ decide (item.span.start < offset)) = xs :=
    filter_eq_self.mpr fun item hi ↦ decide_eq_true (h item hi)
  rw [scopeBefore, filter_append, ha, foldl_append, scopeBefore]

end ScopeBefore

/-- The annotation of a section has the path of the section as its id, and any other annotation
lies in the scope before it. -/
def Sits (text : List Char) (sc : Scope) (item : Annotated Reference) : Prop :=
  (opens item = true → item.value.symbolIds = [(sc.visit text item).path]) ∧
    (opens item = false → Local text sc item)

/-- Annotations of lines, from one scope to another. -/
structure Sited (text : List Char) (sc n : Scope) (xs : List (Annotated Reference)) :
    Prop where
  next_eq : xs.foldl (visit text) sc = n
  rising : (xs.filter opens).Pairwise fun first second ↦ first.span.start < second.span.start
  sits : ∀ item ∈ xs, Sits text (scopeBefore text sc xs item.span.start) item

namespace Sited

variable {text : List Char} {sc n : Scope} {xs : List (Annotated Reference)}

theorem nil (text : List Char) (sc : Scope) : Sited text sc sc [] :=
  ⟨rfl, List.Pairwise.nil, nofun⟩

theorem of_placed {scan : LineScan} (h : Placed text sc scan) :
    Sited text sc scan.scope scan.references := by
  cases h with
  | plain _ hs hl =>
    have ho : ∀ item ∈ scan.references, opens item = false :=
      fun item hi ↦ (hl item hi).opens
    refine ⟨?_, ?_, fun item hi ↦ ⟨fun h ↦ ?_, fun _ ↦ ?_⟩⟩
    · rw [hs, foldl_visit_of_not_opens ho]
    · rw [filter_eq_nil_iff.mpr fun item hi ↦ by simp [ho item hi]]
      exact List.Pairwise.nil
    · rw [ho item hi] at h
      cases h
    · rw [scopeBefore, foldl_visit_of_not_opens fun o hot ↦ ho o (mem_of_mem_filter hot)]
      exact hl item hi
  | header item parameters ho hid hl hb =>
    have hc : ∀ parameter ∈ parameters, opens parameter = false :=
      fun parameter hp ↦ (hl parameter hp).opens
    have hf : parameters.filter opens = [] :=
      filter_eq_nil_iff.mpr fun parameter hp ↦ by simp [hc parameter hp]
    refine ⟨?_, ?_, forall_mem_cons.mpr ⟨⟨fun _ ↦ ?_, fun h ↦ ?_⟩, ?_⟩⟩
    · rw [foldl_cons, foldl_visit_of_not_opens hc]
    · rw [filter_cons_of_pos ho, hf]
      exact pairwise_singleton _ _
    · -- Nothing stands before the name of the section.
      have hn : (item :: parameters).filter
          (fun o ↦ decide (o.span.start < item.span.start)) = [] := by
        refine filter_eq_nil_iff.mpr (forall_mem_cons.mpr ⟨by simp, ?_⟩)
        intro parameter hp
        simpa using Nat.le_of_lt (hb parameter hp)
      rw [scopeBefore, hn]
      exact hid
    · rw [ho] at h
      cases h
    · intro parameter hp
      refine ⟨fun h ↦ ?_, fun _ ↦ ?_⟩
      · rw [hc parameter hp] at h
        cases h
      · rw [scopeBefore, filter_cons_of_pos (by simpa using hb parameter hp),
          foldl_cons, foldl_visit_of_not_opens fun o hot ↦ hc o (mem_of_mem_filter hot)]
        exact hl parameter hp

theorem append {last : Scope} {lt : List (Annotated Reference)} (h : Sited text sc n xs)
    (h' : Sited text n last lt)
    (hb : ∀ item ∈ xs, ∀ o ∈ lt, item.span.start < o.span.start) :
    Sited text sc last (xs ++ lt) := by
  refine ⟨?_, ?_, forall_mem_append.mpr ⟨fun item hi ↦ ?_, fun item hi ↦ ?_⟩⟩
  · rw [foldl_append, h.next_eq, h'.next_eq]
  · rw [filter_append, pairwise_append]
    exact ⟨h.rising, h'.rising, fun item hi o ho ↦
      hb item (mem_of_mem_filter hi) o (mem_of_mem_filter ho)⟩
  · rw [scopeBefore_append_of_le _ _ _ fun o ho ↦ Nat.le_of_lt (hb item hi o ho)]
    exact h.sits item hi
  · rw [scopeBefore_append_of_lt _ _ fun o ho ↦ hb o ho item hi, h.next_eq]
    exact h'.sits item hi

end Sited

theorem exists_sited_placements {ls : List (List Glyph)} (h : Layout text ls)
    {sc : Scope} (hs : sc.Clear) :
    ∃ n, Sited text sc n ((placements sc ls).map Prod.snd) := by
  induction ls generalizing sc with
  | nil => exact ⟨sc, Sited.nil text sc⟩
  | cons l lt ih =>
    have hl := (dropReturns_isPrefix l).isInfix
    have hp := placed_scanLine hs ((forall_mem_cons.mp h.shows).1.mono hl)
      ((forall_mem_cons.mp h.spaced).1.of_isInfix hl)
    obtain ⟨last, hla⟩ := ih h.tail (h.scanned hs).clear
    rw [placements, map_append, map_snd_placed]
    exact ⟨last, (Sited.of_placed hp).append hla fun item hi ↦
      forall_mem_map.mpr fun entry he ↦ h.start_lt hs hi he⟩

theorem perm_lineItems (text : String) : (annotate text).references.items.Perm (lineItems text) :=
  perm_ofList _

theorem items_annotate_of_sorted {text : String}
    (h : (lineItems text).Pairwise fun x y ↦ x.span.precedes y.span = true) :
    (annotate text).references.items = lineItems text :=
  mergeSort_of_pairwise h

/-- The annotations of a script, sorted only where the lines do not have them in order. -/
def annotateInOrder (text : String) : Annotations :=
  let (rs, includes) := scanLines top 0 (text.toList.splitOn '\n')
  if rs.Pairwise (fun x y ↦ x.span.precedes y.span = true) ∧
      includes.Pairwise (fun x y ↦ x.span.precedes y.span = true) then
    ⟨⟨rs⟩, ⟨includes⟩⟩
  else Annotations.ofLists rs includes

theorem annotate_eq_annotateInOrder : annotate = annotateInOrder := by
  funext text
  unfold annotate annotateInOrder
  dsimp only
  split_ifs with hs
  · rw [Annotations.ofLists, ofList, ofList, mergeSort_of_pairwise hs.1, mergeSort_of_pairwise hs.2]
  · rfl

theorem exists_sited_lineItems (text : String) : ∃ n, Sited text.toList top n (lineItems text) := by
  rw [lineItems_eq]
  exact exists_sited_placements (layout_lineGlyphs text) (show top.Clear from nofun)

/-- The sections of a script come in the order of its lines. -/
theorem filter_opens_annotate (text : String) :
    (annotate text).references.items.filter opens = (lineItems text).filter opens := by
  obtain ⟨n, hs⟩ := exists_sited_lineItems text
  have hso : (annotate text).references.Sorted := sorted_ofList _
  have hp := (perm_lineItems text).filter opens
  refine hp.eq_of_pairwise ?_ (hso.sublist filter_sublist) (hs.rising.imp Nat.le_of_lt)
  intro x second hf hse hl hl'
  by_contra hn
  have hsy : Std.Symm fun x second : Annotated Reference ↦
      x.span.start ≠ second.span.start := ⟨fun _ _ h ↦ h.symm⟩
  exact (hs.rising.imp Nat.ne_of_lt).forall (hp.mem_iff.mp hf) hse hn (Nat.le_antisymm hl hl')

end Script

namespace Scope

variable {xs : List (Annotated Reference)} {kind : SymbolKind} {item : Annotated Reference}

theorem exists_of_mem_walk {sc : Scope} (h : entry ∈ walk text sc xs) :
    ∃ l r, xs = l ++ entry.2 :: r ∧ entry.1 = l.foldl (visit text) sc := by
  induction xs generalizing sc with
  | nil => cases h
  | cons item tl ih =>
    rcases mem_cons.mp h with rfl | h
    · exact ⟨[], tl, rfl, rfl⟩
    · obtain ⟨l, r, rfl, hs⟩ := ih h
      exact ⟨item :: l, r, rfl, hs⟩

/-- The scope in which a walk meets an annotation is the scope at the annotation's start: sections
that start there as well come from no faithful annotations. -/
theorem eq_atOffset_of_mem_walk {annotations : Annotations} (h : annotations.Faithful text)
    (he : entry ∈ walk text top annotations.references.items) :
    entry.1 = atOffset annotations text entry.2.span.start := by
  obtain ⟨l, r, hit, hsc⟩ := exists_of_mem_walk he
  have hs := h.sorted
  have ha := h.apart
  rw [atOffset, hs.takeWhile_start_lt, hsc]
  rw [RangeSet.Sorted, hit, pairwise_append] at hs
  rw [hit, Script.Apart, pairwise_append] at ha
  have hl : (entry.2 :: r).filter
      (fun item ↦ decide (item.span.start < entry.2.span.start)) = [] := by
    refine filter_eq_nil_iff.mpr (forall_mem_cons.mpr ⟨by simp, fun item hi ↦ ?_⟩)
    simpa using (pairwise_cons.mp hs.2.1).1 item hi
  rw [hit, filter_append, hl, append_nil,
    ← foldl_visit_filter_opens text top (l.filter _), filter_filter,
    ← foldl_visit_filter_opens text top l]
  congr 1
  refine filter_congr fun item hi ↦ ?_
  cases ho : opens item with
  | false => rfl
  | true =>
    have hle := hs.2.2 item hi entry.2 mem_cons_self
    have hn := ha.2.2 item hi entry.2 mem_cons_self (Or.inl ?_)
    · simpa using Nat.lt_of_le_of_ne hle hn
    · exact isDeclaration_of_opens ho

/-! ### A stack of sections -/

/-- Sections within each other, outermost first. -/
abbrev Stack := List (SymbolKind × String)

/-- Enters a section: a knot leaves all others, a stitch a stitch that is innermost. -/
def Stack.enter (stack : Stack) (kind : SymbolKind) (name : String) : Stack :=
  match kind with
  | .knot => [(kind, name)]
  | .stitch =>
    (if stack.getLast?.any fun inner ↦ inner.1 = .stitch then stack.dropLast else stack) ++
      [(kind, name)]
  | _ => stack

/-- The stack after an annotation of a text. -/
def Stack.visit (text : List Char) (stack : Stack) (item : Annotated Reference) : Stack :=
  match item.value.declaration with
  | some kind => if kind.opensSection then stack.enter kind (item.span.textIn text) else stack
  | none => stack

def stack (scope : Scope) : Stack :=
  scope.knot.toList.map (SymbolKind.knot, ·) ++ scope.stitch.toList.map (SymbolKind.stitch, ·)

theorem map_snd_stack (scope : Scope) : scope.stack.map Prod.snd = scope.sections := by
  simp [stack, sections, Function.comp_def]

theorem stack_enter (scope : Scope) (kind : SymbolKind) (name : String) :
    (scope.enter kind name).stack = scope.stack.enter kind name := by
  obtain ⟨knot, stitch⟩ := scope
  cases kind <;> cases knot <;> cases stitch <;> rfl

theorem stack_visit (text : List Char) (scope : Scope) (item : Annotated Reference) :
    (scope.visit text item).stack = scope.stack.visit text item := by
  unfold visit Stack.visit
  cases item.value.declaration with
  | none => rfl
  | some kind =>
    dsimp only
    split_ifs
    · exact stack_enter _ _ _
    · rfl

/-- A stack that starts empty never holds more than a knot and a stitch: it is that of the scope which
the same annotations lead to. -/
theorem stack_foldl_visit (text : List Char) (xs : List (Annotated Reference)) :
    xs.foldl (Stack.visit text) top.stack = (xs.foldl (visit text) top).stack :=
  foldl_hom stack fun scope item ↦ (stack_visit text scope item).symm

/-! ### The last sections -/

/-- The last of some annotations that declares a symbol of a kind. -/
def lastOf? (kind : SymbolKind) (xs : List (Annotated Reference)) : Option (Annotated Reference) :=
  (xs.filter fun item ↦ item.value.declaration = some kind).getLast?

/-- The stitch that is declared last among some annotations, since their last knot. -/
def lastStitch? (xs : List (Annotated Reference)) : Option (Annotated Reference) :=
  lastOf? .stitch (xs.filter fun item ↦
    (lastOf? .knot xs).all fun knot ↦ knot.span.start < item.span.start)

theorem mem_of_lastOf? (h : lastOf? kind xs = some item) :
    item ∈ xs ∧ item.value.declaration = some kind := by
  simpa using mem_of_getLast? h

theorem lastOf?_concat_of_eq (h : item.value.declaration = some kind)
    (xs : List (Annotated Reference)) : lastOf? kind (xs ++ [item]) = some item := by
  rw [lastOf?, filter_append, filter_cons_of_pos (by simpa using h)]
  exact getLast?_concat

theorem lastOf?_concat_of_ne (h : item.value.declaration ≠ some kind)
    (xs : List (Annotated Reference)) : lastOf? kind (xs ++ [item]) = lastOf? kind xs := by
  rw [lastOf?, filter_append, filter_cons_of_neg (by simpa using h), filter_nil,
    append_nil, lastOf?]

/-- Annotations whose sections come one behind the other lead to the scope of their last knot and
the last stitch since. -/
theorem foldl_visit_top (text : List Char)
    (h : (xs.filter opens).Pairwise fun x y ↦ x.span.start < y.span.start) :
    xs.foldl (visit text) top =
      { knot := (lastOf? .knot xs).map fun item ↦ item.span.textIn text
        stitch := (lastStitch? xs).map fun item ↦ item.span.textIn text } := by
  induction xs using reverseRecOn with
  | nil => rfl
  | append_singleton xs item ih =>
    rw [filter_append, pairwise_append] at h
    have hbe : ∀ o ∈ xs, opens o = true → opens item = true →
        o.span.start < item.span.start := fun o hot ho ho' ↦
      h.2.2 o (mem_filter.mpr ⟨hot, ho⟩) item (by simp [ho'])
    rw [foldl_append, ih h.1, foldl_cons, foldl_nil]
    cases ho : opens item with
    | false =>
      have hkn : item.value.declaration ≠ some .knot := fun hk ↦ by
        rw [opens_of_declaration hk] at ho
        cases ho
      have hst : item.value.declaration ≠ some .stitch := fun hk ↦ by
        rw [opens_of_declaration hk] at ho
        cases ho
      rw [visit_of_not_opens ho, lastStitch?, lastStitch?, lastOf?_concat_of_ne hkn, filter_append]
      congr 2
      rw [filter_singleton]
      cases Option.all (fun knot ↦ decide (knot.span.start < item.span.start))
          (lastOf? .knot xs) with
      | true => exact (lastOf?_concat_of_ne hst _).symm
      | false => rw [cond_false, append_nil]
    | true =>
      obtain ⟨kind, hk⟩ := Option.isSome_iff_exists.mp (isDeclaration_of_opens ho)
      have hs := opens_of_declaration hk
      rw [ho] at hs
      cases kind with
      | knot =>
        have hn : lastStitch? (xs ++ [item]) = none := by
          rw [lastStitch?, lastOf?_concat_of_eq hk, lastOf?, filter_filter,
            getLast?_eq_none_iff, filter_eq_nil_iff]
          intro o hot hb
          simp only [Option.all_some, Bool.and_eq_true, decide_eq_true_eq] at hb
          rcases mem_append.mp hot with hot | hot
          · have := hbe o hot (opens_of_declaration hb.1) ho
            omega
          · rw [mem_singleton.mp hot] at hb
            omega
        rw [lastOf?_concat_of_eq hk, hn]
        simp [visit, hk, SymbolKind.opensSection, enter]
      | stitch =>
        have hl : lastStitch? (xs ++ [item]) = some item := by
          rw [lastStitch?, lastOf?_concat_of_ne (by simp [hk]), filter_append,
            filter_cons_of_pos, filter_nil, lastOf?_concat_of_eq hk]
          rw [Option.all_eq_true]
          intro knot hkn
          obtain ⟨hm, hd⟩ := mem_of_lastOf? hkn
          simpa using hbe knot hm (opens_of_declaration hd) ho
        rw [lastOf?_concat_of_ne (by simp [hk]), hl]
        simp [visit, hk, SymbolKind.opensSection, enter]
      | label | const | var | list | define | temp | param => cases hs

end Scope

namespace Script

theorem pairwise_filter_opens_annotate (text : String) :
    ((annotate text).references.items.filter opens).Pairwise fun x y ↦
      x.span.start < y.span.start := by
  obtain ⟨n, hs⟩ := exists_sited_lineItems text
  rw [filter_opens_annotate]
  exact hs.rising

theorem atOffset_annotate (text : String) (offset : Nat) :
    atOffset (annotate text) text.toList offset =
      scopeBefore text.toList top (lineItems text) offset := by
  have hs : (annotate text).references.Sorted := sorted_ofList _
  rw [atOffset, hs.takeWhile_start_lt, scopeBefore, ← foldl_visit_filter_opens,
    ← foldl_visit_filter_opens _ _ ((lineItems text).filter _), filter_filter, filter_filter]
  have hc : ∀ xs : List (Annotated Reference),
      (xs.filter fun item ↦ opens item && decide (item.span.start < offset)) =
        (xs.filter opens).filter fun item ↦ item.span.start < offset := by
    intro xs
    rw [filter_filter]
    exact filter_congr fun item _ ↦ Bool.and_comm _ _
  rw [hc, hc, filter_opens_annotate]

/-- The annotations of a script, as a walk meets them: each one in the scope at its start, and with
an id that agrees with that scope. -/
theorem sits_of_mem_walk {text : String}
    (h : entry ∈ walk text.toList top (annotate text).references.items) :
    entry.1 = atOffset (annotate text) text.toList entry.2.span.start ∧
      Sits text.toList entry.1 entry.2 := by
  have hs := eq_atOffset_of_mem_walk (faithful_annotate text) h
  obtain ⟨n, hsi⟩ := exists_sited_lineItems text
  refine ⟨hs, ?_⟩
  rw [hs, atOffset_annotate]
  exact hsi.sits _ ((perm_lineItems text).mem_iff.mp (mem_of_mem_walk h))

/-- What the scanner calls a symbol agrees with the scopes that a walk over the annotations makes.
Behind a knot or a stitch, the path of the scope is its id; a label, a temporary variable and a
parameter are named within the scope at their start, which is the scope of the walk; and the scope
at an offset is the last knot before it and the last stitch since, which is all that a stack holds of
the sections before the offset. -/
theorem ids_follow_scope (text : String) :
    (∀ entry ∈ walk text.toList top (annotate text).references.items,
      entry.1 = atOffset (annotate text) text.toList entry.2.span.start ∧
      ∀ kind, entry.2.value.declaration = some kind → (kind ∈ [.knot, .stitch] →
          entry.2.value.symbolIds = [(entry.1.visit text.toList entry.2).path]) ∧
        (kind ∈ [.label, .temp, .param] → entry.2.value.symbolIds =
            [Path.within entry.1.path (entry.2.span.textIn text.toList)])) ∧
    ∀ offset,
      let before := (annotate text).references.items.filter fun item ↦ item.span.start < offset
      (atOffset (annotate text) text.toList offset).path =
        Path.ofSegments (((lastOf? .knot before).toList ++
          (lastStitch? before).toList).map fun item ↦ item.span.textIn text.toList) ∧
      (atOffset (annotate text) text.toList offset).depth ≤ 2 ∧
      (atOffset (annotate text) text.toList offset).sections =
        (before.foldl (Scope.Stack.visit text.toList) []).map Prod.snd := by
  refine ⟨fun entry hentry ↦ ?_, fun offset ↦ ?_⟩
  · obtain ⟨hscope, hsection, hlocal⟩ := sits_of_mem_walk hentry
    refine ⟨hscope, fun kind hkind ↦ ⟨fun hmem ↦ hsection ?_, fun hmem ↦ ?_⟩⟩
    · rw [opens_of_declaration hkind]
      rcases mem_pair.mp hmem with rfl | rfl <;> rfl
    · have hnamed : ∀ kind ∈ [SymbolKind.label, .temp, .param],
          kind.opensSection = false ∧ kind.isLocal = true := by decide
      obtain ⟨hnot, hnamed⟩ := hnamed kind hmem
      exact (hlocal ((opens_of_declaration hkind).trans hnot)).symbolIds kind hkind hnamed
  · have hsorted : (annotate text).references.Sorted := RangeSet.sorted_ofList _
    have hrising := (pairwise_filter_opens_annotate text).sublist
      ((filter_sublist (p := fun item : Annotated Reference ↦
        decide (item.span.start < offset))).filter opens)
    have hstack := stack_foldl_visit text.toList
      ((annotate text).references.items.filter fun item ↦ item.span.start < offset)
    intro before
    rw [atOffset, hsorted.takeWhile_start_lt, ← map_snd_stack, ← hstack,
      foldl_visit_top _ hrising]
    refine ⟨?_, ?_, rfl⟩
    · rw [path, Scope.sections, map_append, Option.toList_map, Option.toList_map]
    · rw [depth, Scope.sections, length_append]
      exact Nat.add_le_add (Option.length_toList_le) (Option.length_toList_le)

/-- A stitch before any knot, a header without a name, and a knot whose name has a dot. -/
def gateText : String :=
  "= gate(key)\n- (bell)\n== (lost)\n== Hill.North(ref path) ==\n= top\n~ temp wind = 1\n"

theorem ids_follow_scope_gateText :
    let entries := walk gateText.toList top (annotate gateText).references.items
    let gate : Scope := ⟨none, some "gate"⟩
    let hill : Scope := ⟨some "Hill.North", none⟩
    let key : Annotated Reference := ⟨⟨7, 10⟩, .ofDeclaration .param "gate.key"⟩
    let top : Annotated Reference := ⟨⟨60, 63⟩, .ofDeclaration .stitch "Hill.North.top"⟩
    (gate, key) ∈ entries ∧ (hill, top) ∈ entries ∧
      ["gate.key"] = [Path.within gate.path (key.span.textIn gateText.toList)] ∧
      ["Hill.North.top"] = [(hill.visit gateText.toList top).path] ∧
      hill = atOffset (annotate gateText) gateText.toList 60 ∧
      (atOffset (annotate gateText) gateText.toList 71).path = "Hill.North.top" := by
  intro entries gate hill key top
  have hitems := items_annotate_of_sorted (show (lineItems gateText).Pairwise _ by decide +kernel)
  have hkey : (gate, key) ∈ entries := by
    simp only [entries, hitems]
    decide +kernel
  have htop : (hill, top) ∈ entries := by
    simp only [entries, hitems]
    decide +kernel
  obtain ⟨hids, hscopes⟩ := ids_follow_scope gateText
  refine ⟨hkey, htop, ((hids _ hkey).2 .param rfl).2 (by decide),
    ((hids _ htop).2 .stitch rfl).1 (by decide), (hids _ htop).1, ?_⟩
  rw [(hscopes 71).1, hitems]
  decide +kernel

end Script

end StoryScript
