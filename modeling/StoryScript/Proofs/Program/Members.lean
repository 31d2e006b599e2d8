import StoryScript.Proofs.Program.Declarations

/-!
Which types own which members. A program keeps the members of each type and the types of each member,
and both say the same as its symbols: a type owns a member if the member is declared within it
(`Context.Coherent`). So what is looked up by an expected type is a declared member
(`Program.coherent_of_build?`).
-/

namespace StoryScript

open Context List Option StoryScript.Path Script Table

namespace Context

variable (c : Context)

/-- Whether a member is known to belong to a type. -/
def isOwned (type m : String) : Bool :=
  (c.members.get? m).any fun types ↦ types.contains type

/-- The kind of symbol that an id is declared as. -/
def kindOf? (id : String) : Option SymbolKind :=
  (c.symbols.get? id).map Symbol.kind

/-- Types and members that agree with each other and with the symbols. -/
structure Coherent : Prop where
  owned : ∀ type member, c.owns member type = true ↔ c.isOwned type member = true
  declared : ∀ type member, c.owns member type = true ↔
    '.' ∉ member.toList ∧ c.kindOf? (type ++ "." ++ member) = some .define

end Context

/-- An item that is added under a key of an index. -/
theorem Table.any_contains_alter_iff (t : Table String (Keys String)) (key x o f : String) :
    ((t.alter key fun old ↦ (old.getD empty).add x).get? o).any (fun xs ↦ xs.contains f) = true ↔
      (t.get? o).any (fun xs ↦ xs.contains f) = true ∨ (key = o ∧ x = f) := by
  rw [get?_alter]
  split_ifs with hk
  · subst hk
    rw [any_some, Keys.add, contains_insert_iff]
    cases t.get? key <;> simp [contains, empty]
  · simp [hk]

namespace Program

/-! ### Ids of members -/

theorem splitLast?_eq_some_iff (id type m : String) :
    splitLast? id = some (type, m) ↔
      '.' ∉ m.toList ∧ type ++ "." ++ m = id := by
  constructor
  · intro h
    unfold splitLast? at h
    split at h
    · cases h
    · cases h
    · rename_i last before hl hr
      obtain ⟨rfl, rfl⟩ := Prod.mk.inj (Option.some.inj h)
      have hs : Path.segments id = before.reverse ++ [last] := by
        rw [← reverse_cons, ← hr, reverse_reverse]
      refine ⟨dotless_of_mem_segments (hs ▸ mem_concat_self), ?_⟩
      rw [← ofSegments_concat, ← hs, ofSegments_segments]
      exact fun he ↦ hl (reverse_eq_nil_iff.mp he)
  · rintro ⟨hd, rfl⟩
    obtain ⟨x, l, ht⟩ := exists_cons_of_ne_nil (mt reverse_eq_nil_iff.mp (segments_ne_nil type))
    rw [splitLast?, segments_append, segments_of_dotless hd, reverse_append,
      reverse_singleton, singleton_append, ht]
    change some (ofSegments (x :: l).reverse, m) = _
    rw [← ht, reverse_reverse, ofSegments_segments]

/-! ### Declaring members -/

theorem owns_addMember_iff (c : Context) (type m type' m' : String) :
    ((c.addMember type m).owns m' type' = true ↔ c.owns m' type' = true ∨ (type = type' ∧ m = m')) ∧
    ((c.addMember type m).isOwned type' m' = true ↔
      c.isOwned type' m' = true ∨ (m = m' ∧ type = type')) :=
  ⟨Table.any_contains_alter_iff c.types type m type' m',
    any_contains_alter_iff c.members m type m' type'⟩

theorem owns_declare (c : Context) (id : String) (s : Symbol) :
    (c.declare id s).types = c.types ∧ (c.declare id s).members = c.members := by
  unfold declare
  split <;> exact ⟨rfl, rfl⟩

/-- What becomes owned by a declaration: the member of its id, if it declares a new one. -/
theorem owns_declareOne_iff {c : Context} {one : Declared}
    (hne : c.declares one.id = false) (type m : String) :
    ((declareOne c one).owns m type = true ↔ c.owns m type = true ∨
      (one.kind = .define ∧ splitLast? one.id = some (type, m))) ∧
    ((declareOne c one).isOwned type m = true ↔ c.isOwned type m = true ∨
      (one.kind = .define ∧ splitLast? one.id = some (type, m))) := by
  unfold declareOne
  rw [hne, if_neg Bool.false_ne_true]
  dsimp only
  obtain ⟨ht, hm⟩ := owns_declare c one.id ⟨one.kind, some (one.script.site one.span), none⟩
  split
  · rename_i found item hk hs
    obtain ⟨how, hi⟩ := owns_addMember_iff (c.declare one.id
      ⟨one.kind, some (one.script.site one.span), none⟩) found item type m
    rw [how, hi, hs, owns, isOwned, ht, hm]
    simp [owns, isOwned, hk, and_comm]
  · rename_i ho
    rw [owns, isOwned, ht, hm]
    have hn : ¬ (one.kind = .define ∧ splitLast? one.id = some (type, m)) :=
      fun h ↦ ho type m h.1 h.2
    exact ⟨(or_iff_left hn).symm, (or_iff_left hn).symm⟩

theorem coherent_declareOne {c : Context} (h : c.Coherent) (one : Declared) :
    (declareOne c one).Coherent := by
  cases hk : c.declares one.id with
  | true =>
    rw [declareOne, hk, if_pos rfl]
    exact h
  | false =>
    have hn : c.symbols.get? one.id = none := by
      rwa [declares, contains_eq_isSome, isSome_eq_false_iff, isNone_iff_eq_none] at hk
    constructor
    · intro type m
      obtain ⟨ho, his⟩ := owns_declareOne_iff hk type m
      rw [ho, his, h.owned]
    · intro type m
      rw [(owns_declareOne_iff hk type m).1, h.declared, splitLast?_eq_some_iff,
        kindOf?, kindOf?, get?_declareOne]
      by_cases hi : one.id = type ++ "." ++ m
      · rw [if_pos hi, ← hi, hn]
        simp [Declared.symbol, and_comm]
      · rw [if_neg hi, or_none]
        simp [Ne.symm hi]

theorem coherent_declareAll (d : List Declared) : (declareAll d).Coherent := by
  induction d using reverseRecOn with
  | nil =>
    refine ⟨fun type m ↦ Iff.rfl, fun type m ↦ ?_⟩
    exact iff_of_false Bool.false_ne_true fun h ↦ some_ne_none _ h.2.symm
  | append_singleton l one ih =>
    rw [declareAll_append]
    exact coherent_declareOne ih one

theorem coherent_ofScripts (bs : Keys String) (r : Uri) (coll : Collected) :
    (ofScripts bs r coll).context.Coherent := by
  obtain ⟨uses, hu⟩ := @exists_context_ofScripts bs r coll
  obtain ⟨symbols, hs, -⟩ := exists_symbolsOf coll.scripts
  have hk := kind_symbolsOf coll.scripts
  obtain ⟨ho, hd⟩ := coherent_declareAll (declarations coll.scripts)
  rw [hu]
  rw [hs] at hk ⊢
  refine ⟨ho, fun type m ↦ (hd type m).trans ?_⟩
  rw [kindOf?, kindOf?, hk, get?_declareAll]

end Program

/-! ### Expected types -/

/-- The first key of a table is the least one. -/
theorem Table.head?_keys_eq_some_iff {β : Type} (t : Table String β) (key : String) :
    t.keys.head? = some key ↔ t.contains key = true ∧ ∀ o, t.contains o = true → key ≤ o := by
  simp only [contains_iff, ← mem_keys_iff]
  have hs : t.keys.Pairwise fun x y ↦ x ≤ y := pairwise_map.mpr (t.sorted.imp And.left)
  cases hke : t.keys with
  | nil => simp
  | cons x r =>
    rw [hke, pairwise_cons] at hs
    rw [head?_cons, Option.some.injEq]
    constructor
    · rintro rfl
      refine ⟨mem_cons_self, fun o ho ↦ ?_⟩
      rcases mem_cons.mp ho with rfl | ho
      · exact String.le_refl o
      · exact hs.1 o ho
    · rintro ⟨hk, hl⟩
      rcases mem_cons.mp hk with rfl | hk
      · rfl
      · exact String.le_antisymm (hs.1 key hk) (hl x mem_cons_self)

namespace Context

variable {c : Context}

/-- The type that a symbol is known to have. -/
def typeOf? (c : Context) (id : String) : Option String :=
  (c.symbols.get? id).bind Symbol.typeName

/-- A type that owns a member, and whose name comes before those of all others that own it. -/
def FirstOwner (c : Context) (m type : String) : Prop :=
  c.owns m type = true ∧ ∀ o, c.owns m o = true → type ≤ o

namespace Coherent

variable {selector : Selector} {assigned : Option String} {id : String} (h : c.Coherent)

include h

theorem head?_members (m type : String) :
    (c.members.get? m).bind (fun owners ↦ owners.keys.head?) = some type ↔ c.FirstOwner m type := by
  simp only [FirstOwner, h.owned, isOwned]
  cases c.members.get? m with
  | none => simp
  | some owners => exact owners.head?_keys_eq_some_iff type

theorem expected?_of_untyped (hty : selector.types = [])
    (hh : ∀ type, assigned.bind c.typeOf? = some type →
      c.owns selector.name type = false) (id : String) :
    c.expected? selector assigned = some id ↔
      ∃ type, c.FirstOwner selector.name type ∧ type ++ "." ++ selector.name = id := by
  have hn : ((assigned.bind c.symbols.get?).bind Symbol.typeName).filter
      (c.owns selector.name) = none := by
    rw [bind_assoc]
    exact filter_eq_none_iff.mpr fun type ht ↦ by simp [hh type ht]
  simp only [expected?, hty, ne_eq, not_true_eq_false, if_false, hn,
    map_eq_some_iff, h.head?_members]

/-- A member that is looked up is owned by the type it is found in. -/
theorem owns_of_expected? (he : c.expected? selector assigned = some id) :
    ∃ type, c.owns selector.name type = true ∧ type ++ "." ++ selector.name = id := by
  obtain ⟨type, ho, rfl⟩ := map_eq_some_iff.mp he
  refine ⟨type, ?_, rfl⟩
  split_ifs at ho
  · exact find?_some ho
  · dsimp only at ho
    split at ho
    · rename_i hint hf
      obtain rfl := Option.some.inj ho
      exact (filter_eq_some_iff.mp hf).2
    · exact ((h.head?_members _ _).mp ho).1

theorem kindOf?_of_expected? (he : c.expected? selector assigned = some id) :
    c.kindOf? id = some .define := by
  obtain ⟨type, ho, rfl⟩ := h.owns_of_expected? he
  exact ((h.declared type selector.name).mp ho).2

theorem kindOf?_of_resolveId? {bs : Keys String} {r : Reference}
    {sc f : String} {tl : List Char} (hi : id.toList = '?' :: '.' :: tl)
    (hf : c.resolveId? bs r sc id = some f) :
    c.kindOf? f = some .define := by
  have hfo : IdForm.ofId id = .inferred := by
    rw [IdForm.ofId, hi]
    rfl
  rw [resolveId?, hfo] at hf
  obtain ⟨selector, -, he⟩ := exists_of_findSome?_eq_some hf
  exact h.kindOf?_of_expected? he

end Coherent

end Context

namespace Program

/-- In built programs both indexes of members agree with the symbols. So a member without a type is
looked up in the first type that owns it, and whatever is looked up is a declared member. -/
theorem coherent_of_build? {annotate : Annotator} {builtins : Keys String} {load : Loader}
    {root : Uri} {program : Program} (h : build? annotate builtins load root = some program) :
    program.context.Coherent ∧
    (∀ selector assigned, selector.types = [] →
      (∀ type, assigned.bind program.context.typeOf? = some type →
        program.context.owns selector.name type = false) →
      ∀ id, program.context.expected? selector assigned = some id ↔
        ∃ type, program.context.FirstOwner selector.name type ∧
          type ++ "." ++ selector.name = id) ∧
    (∀ selector assigned id, program.context.expected? selector assigned = some id →
      program.context.kindOf? id = some .define) ∧
    ∀ known reference scope id rest found, id.toList = '?' :: '.' :: rest →
      program.context.resolveId? known reference scope id = some found →
      program.context.kindOf? found = some .define := by
  obtain ⟨collected, -, rfl⟩ := Option.map_eq_some_iff.mp h
  have hcoherent := coherent_ofScripts builtins root collected
  exact ⟨hcoherent, fun selector assigned ↦ hcoherent.expected?_of_untyped,
    fun selector assigned id ↦ hcoherent.kindOf?_of_expected?,
    fun known reference scope id rest found ↦ hcoherent.kindOf?_of_resolveId?⟩

/-- A story in two scripts with three lists that have a member `red`. In the second script the one
of `bed` comes after a stitch of that name, so that it is no member. -/
def redLoader : Loader := fun u ↦
  if u = innUri then some ⟨1, "INCLUDE room.ink\nLIST sky = red, blue\n== bed\n= red\n"⟩
  else if u = roomUri then some ⟨2, "LIST dawn = red\nLIST bed = red, green\n"⟩
  else none

theorem coherent_of_build?_red :
    ∃ program, build? annotate empty redLoader innUri = some program ∧ program.context.Coherent ∧
      program.context.kindOf? "bed.red" = some .stitch ∧
      program.context.owns "red" "bed" = false ∧ program.context.owns "green" "bed" = true ∧
      program.context.expected? (Selector.any "red") none = some "dawn.red" ∧
      (∃ type, program.context.FirstOwner "red" type ∧ type ++ "." ++ "red" = "dawn.red") ∧
      program.context.resolveId? empty { selectors := [⟨["bed", "sky"], "red"⟩] } "bed"
        "?.red" = some "sky.red" ∧
      program.context.kindOf? "sky.red" = some .define := by
  obtain ⟨program, hprogram⟩ := Option.isSome_iff_exists.mp
    (@isSome_build? annotate empty redLoader innUri (by decide))
  have hanswers : (build? annotate empty redLoader innUri).map
      (fun program ↦ (program.context.kindOf? "bed.red", program.context.owns "red" "bed",
        program.context.owns "green" "bed", program.context.expected? (Selector.any "red") none,
        program.context.resolveId? empty { selectors := [⟨["bed", "sky"], "red"⟩] } "bed"
          "?.red")) =
      some (some .stitch, false, true, some "dawn.red", some "sky.red") := by
    rw [annotate_eq_annotateInOrder]
    decide +kernel
  rw [hprogram, Option.map_some, Option.some.injEq] at hanswers
  simp only [Prod.mk.injEq] at hanswers
  obtain ⟨hstitch, hbed, hgreen, hred, hsky⟩ := hanswers
  obtain ⟨hcoherent, hfirst, -, hresolved⟩ := coherent_of_build? hprogram
  exact ⟨program, hprogram, hcoherent, hstitch, hbed, hgreen, hred,
    (hfirst (Selector.any "red") none rfl (by rintro type ⟨⟩) _).mp hred, hsky,
    hresolved _ _ _ _ ['r', 'e', 'd'] _ (by decide) hsky⟩

end Program

end StoryScript
