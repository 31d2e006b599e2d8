import StoryScript.Proofs.Script.Checked.Scan

/-!
Scanning a line does not depend on where the line stands: what it holds moves with it
(`scanLine_add`). The scanner on bytes adds the offset of a line to the indices that it finds, and
looks at it nowhere else; so each part of it is made of parts that move (`Moved`).
-/

namespace StoryScript

/-- A span that starts and stops some bytes later. -/
def Span.shift (n : Nat) (span : Span) : Span :=
  ⟨span.start + n, span.stop + n⟩

/-- An annotation that stands some bytes later. -/
def Annotated.shift {α : Type} (n : Nat) (x : Annotated α) : Annotated α :=
  { x with span := x.span.shift n }

namespace Script

def LineScan.shift (n : Nat) (scan : LineScan) : LineScan :=
  { scan with
    references := scan.references.map (Annotated.shift n)
    includes := scan.includes.map (Annotated.shift n) }

namespace Checked

variable {n : Nat}

/-- What a part of the scanner finds, and what it finds where the line stands some bytes later. -/
def Moved {α : Type} (shift : α → α) (f f' : Option α) : Prop :=
  f' = f.map shift

/-- The references of a part of a line, moved. -/
abbrev MovedItems (n : Nat) : Option (List (Annotated Reference)) →
    Option (List (Annotated Reference)) → Prop :=
  Moved (List.map (Annotated.shift n))

/-- What a part of the scanner finds moves with the line. -/
abbrev Moves {α : Type} (shift : α → α) (b n : Nat) (find : Nat → Option α) : Prop :=
  Moved shift (find b) (find (b + n))

abbrev MovesItems (b n : Nat) : (Nat → Option (List (Annotated Reference))) → Prop :=
  Moves (List.map (Annotated.shift n)) b n

namespace Moved

variable {α β γ : Type} {shift : α → α} {shift' : β → β}

theorem pure {v v' : α} (h : v' = shift v) : Moved shift (some v) (some v') :=
  congrArg some h

/-- What is found first moves, and so does what is found with it. -/
theorem bind {f f' : Option α} (h : Moved shift f f') {nx nx' : α → Option β}
    (hn : ∀ v, Moved shift' (nx v) (nx' (shift v))) :
    Moved shift' (f >>= nx) (f' >>= nx') := by
  subst h
  cases f with
  | none => rfl
  | some v => exact hn v

/-- A step that does not depend on where the line stands. -/
theorem step {f : Option γ} {nx nx' : γ → Option β} (hn : ∀ v, Moved shift' (nx v) (nx' v)) :
    Moved shift' (f >>= nx) (f >>= nx') := by
  cases f with
  | none => rfl
  | some v => exact hn v

theorem map (f : Option γ) {v v' : γ → α} (h : ∀ e, v' e = shift (v e)) :
    Moved shift (f.map v) (f.map v') := by
  rw [Moved, Option.map_map, funext h]
  rfl

theorem ite {p : Prop} [Decidable p] {f f' o o' : Option α}
    (h : Moved shift f f') (ho : Moved shift o o') :
    Moved shift (if p then f else o) (if p then f' else o') := by
  split_ifs
  · exact h
  · exact ho

/-- What is found in two places, one behind the other. -/
theorem append {f f' l l' : Option (List (Annotated Reference))}
    (h : MovedItems n f f') (hl : MovedItems n l l') :
    MovedItems n (do return (← f) ++ (← l)) (do return (← f') ++ (← l')) :=
  .bind h fun _ ↦ .bind hl fun _ ↦ .pure List.map_append.symm

end Moved

variable {c : List Char} {b : Nat} {m : List UInt8}

theorem marked_add {α : Type} (start stop : Nat) (v : α) :
    marked (b + n) start stop v = (marked b start stop v).shift n := by
  simp only [marked, Annotated.shift, Span.shift, Nat.add_right_comm]

theorem marked_cons (start stop : Nat) (v : Reference) (l : List (Annotated Reference)) :
    marked (b + n) start stop v :: l.map (Annotated.shift n) =
      (marked b start stop v :: l).map (Annotated.shift n) := by
  rw [marked_add, List.map_cons]

/-! ### Names -/

theorem moved_segments? {visit visit' : Nat → Nat → String → Option (List (Annotated Reference))}
    (h : ∀ start stop s, MovedItems n (visit start stop s) (visit' start stop s))
    (start : Nat) (ss : List String) :
    MovedItems n (segments? visit start ss) (segments? visit' start ss) := by
  induction ss generalizing start with
  | nil => rfl
  | cons s l ih => exact .append (h _ _ _) (ih _)

theorem moved_dottedRead? (start stop : Nat) : MovesItems b n (dottedRead? c · start stop) := by
  refine .step fun _ ↦ moved_segments? (fun x last s ↦ ?_) _ _
  exact .ite rfl (.ite (.pure (marked_cons _ _ _ [])) (.map _ fun _ ↦ marked_cons _ _ _ []))

theorem moved_divertTarget? (start stop : Nat) : MovesItems b n (divertTarget? c · start stop) := by
  refine .step fun _ ↦ .ite rfl (moved_segments? (fun x last s ↦ ?_) _ _)
  exact .ite rfl (.map _ fun _ ↦ marked_cons _ _ _ [])

/-! ### Diverts and tags -/

/-- The references of a part of a line, moved, and the line without them. -/
abbrev MovedMask (n : Nat) : Option (List (Annotated Reference) × List UInt8) →
    Option (List (Annotated Reference) × List UInt8) → Prop :=
  Moved (Prod.map (List.map (Annotated.shift n)) id)

abbrev MovesMask (b n : Nat) : (Nat → Option (List (Annotated Reference) × List UInt8)) → Prop :=
  Moves (Prod.map (List.map (Annotated.shift n)) id) b n

theorem Moved.appendMask {xs : List (Annotated Reference)}
    {l l' : Option (List (Annotated Reference) × List UInt8)}
    (h : MovedMask n l l') :
    MovedMask n (do let (l, m) ← l; return (xs ++ l, m))
      (do let (l, m) ← l'; return (xs.map (Annotated.shift n) ++ l, m)) :=
  .bind h fun _ ↦ .pure (Prod.ext List.map_append.symm rfl)

theorem moved_target? (start stop : Nat) : MovesMask b n (target? c · m start stop) :=
  .ite (.bind (moved_divertTarget? _ _) fun _ ↦ .step fun _ ↦ .pure rfl) rfl

theorem moved_diverts? (fuel : Nat) (m : List UInt8) (i : Nat) :
    MovesMask b n (diverts? c · fuel m i) := by
  induction fuel generalizing m i with
  | zero => rfl
  | succ fuel ih =>
    refine .ite (.step fun _ ↦ .ite (.step fun _ ↦ .step fun _ ↦
      .step fun _ ↦ .step fun _ ↦ .bind (moved_target? _ _) fun _ ↦ ?_) (ih _ _)) rfl
    exact .appendMask (ih _ _)

theorem moved_tags? (fuel : Nat) (m : List UInt8) (i : Nat) :
    MovesMask b n (tags? c · fuel m i) := by
  induction fuel generalizing m i with
  | zero => rfl
  | succ fuel ih =>
    refine .ite (.step fun _ ↦ .ite (.step fun l ↦ ?_) (ih _ _)) rfl
    cases tagAt m l with
    | none => exact ih _ _
    | some tag =>
      have hf : ∀ start stop, MovesItems b n (tagReference? c · tag.1 start stop) :=
        fun start stop ↦ .ite (.map _ fun _ ↦ marked_cons _ _ _ []) rfl
      exact .step fun _ ↦ .step fun _ ↦ .bind (hf _ _) fun _ ↦ .step fun _ ↦ .appendMask (ih _ _)

/-! ### Expressions -/

theorem moved_expression? (stop fuel i : Nat) : MovesItems b n (expression? c · m stop fuel i) := by
  induction fuel generalizing i with
  | zero => rfl
  | succ fuel ih =>
    refine .ite (.step fun _ ↦ .ite (.step fun _ ↦ ih _) (.ite ?_ (ih _))) rfl
    exact .step fun _ ↦ .step fun _ ↦
      .ite (.append rfl (ih _)) (.append (moved_dottedRead? _ _) (ih _))

theorem moved_assignedReads? (a : String) (i : Nat) :
    MovesItems b n (assignedReads? c · a m i) := by
  refine .step fun _ ↦ .step fun _ ↦ .ite (.step fun _ ↦ .step fun _ ↦
    .step fun _ ↦ .step fun _ ↦ .ite ?_ (moved_expression? _ _ _)) (moved_expression? _ _ _)
  exact .pure (marked_cons _ _ _ [])

theorem moved_inlineReads? (fuel i : Nat) : MovesItems b n (inlineReads? c · m fuel i) := by
  induction fuel generalizing i with
  | zero => rfl
  | succ fuel ih =>
    have hb : ∀ start stop, MovesItems b n (braceReads? c · m start stop) :=
      fun start stop ↦ .step fun _ ↦ .step fun _ ↦ .step fun _ ↦ moved_expression? _ _ _
    exact .ite (.step fun _ ↦ .ite (.step fun _ ↦ .step fun _ ↦
      .ite (.append (hb _ _) (ih _)) rfl) (ih _)) rfl

/-! ### Statements -/

variable (sc : Scope)

theorem moved_declaration? (k : SymbolKind) (start stop : Nat) :
    Moved (Annotated.shift n) (declaration? c b sc k start stop)
      (declaration? c (b + n) sc k start stop) :=
  .map _ fun _ ↦ marked_add _ _ _

theorem moved_initialReads? (a : String) (i : Nat) : MovesItems b n (initialReads? c · a m i) :=
  .step fun _ ↦ .ite (moved_assignedReads? _ _) rfl

theorem moved_globalLine? (k : SymbolKind) (i : Nat) : MovesItems b n (globalLine? c · k m i) :=
  .step fun _ ↦ .step fun _ ↦ .ite rfl (.step fun _ ↦
    .bind (moved_initialReads? _ _) fun v ↦ .pure (marked_cons _ _ _ v))

theorem moved_logicLine? (i : Nat) : MovesItems b n (logicLine? c · sc m i) := by
  refine .step fun i ↦ ?_
  cases wordEnd "temp" m i with
  | some bh =>
    exact .step fun _ ↦ .step fun _ ↦ .ite rfl (.step fun _ ↦
      .bind (moved_declaration? _ _ _ _) fun _ ↦ .bind (moved_initialReads? _ _) fun v ↦ .pure rfl)
  | none =>
    cases wordEnd "return" m i with
    | some bh => exact moved_expression? _ _ _
    | none =>
      refine .step fun _ ↦ .ite (.step fun _ ↦ .ite (.step fun operator ↦ ?_)
        (moved_expression? _ _ _)) (moved_expression? _ _ _)
      cases assignmentLength m operator with
      | some length =>
        exact .step fun _ ↦ .bind (moved_assignedReads? _ _) fun v ↦ .pure (marked_cons _ _ _ v)
      | none => exact moved_expression? _ _ _

theorem moved_labelLine? (i : Nat) : MovesItems b n (labelLine? c · sc m i) :=
  .step fun _ ↦ .ite (.step fun _ ↦ .step fun _ ↦ .step fun _ ↦
    .ite (.bind (moved_declaration? _ _ _ _) fun _ ↦ .pure rfl) rfl) rfl

theorem moved_statementLine? (i : Nat) : MovesItems b n (statementLine? c · sc m i) := by
  unfold statementLine?
  cases wordEnd "VAR" m i with
  | some bh => exact moved_globalLine? _ _
  | none =>
    cases wordEnd "CONST" m i with
    | some bh => exact moved_globalLine? _ _
    | none => exact .step fun _ ↦ .ite (moved_logicLine? _ _) (moved_labelLine? _ _)

theorem moved_plainLine? (i : Nat) : MovesItems b n (plainLine? c · sc i) := by
  refine .bind (moved_diverts? _ _ _) fun _ ↦ .bind (moved_tags? _ _ _) fun _ ↦
    .bind (moved_statementLine? _ _) fun _ ↦ .bind (moved_inlineReads? _ _) fun _ ↦ .pure ?_
  simp only [List.map_append]

/-! ### Headers, lists and includes -/

section

variable (bs : List UInt8) (i : Nat)

theorem moved_parameters? : MovesItems b n (parameters? c · sc bs i) := by
  have hp : ∀ start stop, MovesItems b n (parameterAt? c · sc start stop) := by
    refine fun start stop ↦ .ite ?_ rfl
    rw [moved_declaration?, Moved, Option.map_map, Option.map_map]
    rfl
  have hf : ∀ fuel i, MovesItems b n (parametersFrom? c · sc bs fuel i) := by
    intro fuel
    induction fuel with
    | zero => exact fun _ ↦ rfl
    | succ fuel ih =>
      intro i
      exact .ite (.step fun _ ↦ .ite rfl (.step fun _ ↦ .step fun _ ↦ .step fun _ ↦
        .step fun _ ↦ .bind (hp _ _) fun _ ↦ .step fun _ ↦
          .bind (ih _) fun _ ↦ .pure List.map_append.symm)) rfl
  exact .step fun _ ↦ .ite (hf _ _) rfl

theorem moved_knotHeader? : Moves (LineScan.shift n) b n (knotHeader? c · sc bs i) :=
  .step fun _ ↦ .step fun _ ↦ .step fun _ ↦ .ite rfl (.step fun _ ↦
    .bind (moved_parameters? _ _ _) fun d ↦ .pure
      (congrArg (LineScan.mk _ · []) (marked_cons _ _ _ d)))

theorem moved_stitchHeader? : Moves (LineScan.shift n) b n (stitchHeader? c · sc bs i) :=
  .step fun _ ↦ .step fun _ ↦ .ite rfl (.step fun _ ↦
    .bind (moved_declaration? _ _ _ _) fun _ ↦ .bind (moved_parameters? _ _ _) fun _ ↦ .pure rfl)

theorem moved_listLine? : MovesItems b n (listLine? c · bs i) := by
  have hm : ∀ list fuel i, MovesItems b n (listMembers? c · list bs fuel i) := by
    intro list fuel
    induction fuel with
    | zero => exact fun _ ↦ rfl
    | succ fuel ih =>
      intro i
      exact .ite (.step fun _ ↦ .ite (.step fun _ ↦ .ite (ih _) (.step fun stop ↦
        .step fun _ ↦ .step fun _ ↦ .bind (ih _) fun l ↦ .pure (marked_cons _ _ _ l))) rfl) rfl
  have hi : ∀ list stop, MovesItems b n (initialMembers? c · list bs stop) :=
    fun list stop ↦ .step fun _ ↦ .ite (hm _ _ _) rfl
  exact .step fun _ ↦ .step fun _ ↦ .ite rfl (.step fun _ ↦ .step fun _ ↦
    .bind (hi _ _) fun members ↦ .pure (marked_cons _ _ _ members))

theorem moved_includeLine? : Moves (LineScan.shift n) b n (includeLine? c · sc bs i) :=
  .step fun _ ↦ .ite (.step fun _ ↦ .pure (congrArg (LineScan.mk _ [] [·]) (marked_add _ _ _))) rfl

end

theorem moved_codeLine? : Moves (LineScan.shift n) b n (codeLine? c · sc) := by
  refine .step fun start ↦ .ite (.step fun _ ↦ .ite (moved_knotHeader? _ _ _)
    (.ite (moved_stitchHeader? _ _ _) ?_)) rfl
  cases wordEnd "INCLUDE" (encode c) start with
  | some bh => exact moved_includeLine? _ _ _
  | none =>
    cases wordEnd "LIST" (encode c) start with
    | some bh => exact .bind (moved_listLine? _ _) fun _ ↦ .pure rfl
    | none => exact .bind (moved_plainLine? _ _) fun _ ↦ .pure rfl

end Checked

/-- What a line holds moves with the line. -/
theorem scanLine_add (sc : Scope) (l : List Char) (b n : Nat) :
    scanLine sc (glyphs (b + n) l) = (scanLine sc (glyphs b l)).shift n := by
  have hm : Checked.Moved (LineScan.shift n) (Checked.scanLine? sc l b)
      (Checked.scanLine? sc l (b + n)) :=
    .step fun _ ↦ Checked.moved_codeLine? sc
  rw [Checked.Moved, Checked.scanLine?_eq, Checked.scanLine?_eq] at hm
  exact Option.some.inj hm

end Script

end StoryScript
