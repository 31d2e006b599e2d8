import Mathlib.Data.List.Induction
import StoryScript.Program.Build
import StoryScript.Proofs.Resolution
import StoryScript.Proofs.Table

/-!
What a built program knows of its scripts. Each of them is one that could be loaded, every id that
is declared in one of them is declared in the program, and the uses of a declared id are those that
resolve to it in the scope they stand in (`mem_sitesOf_ofScripts`).
-/

namespace StoryScript

open Context List Option Table

variable {x : Annotated Reference} {xs : List (Annotated Reference)}

/-- The annotations of a text, each with the scope that it stands in. -/
def Scope.walk (t : List Char) :
    Scope → List (Annotated Reference) → List (Scope × Annotated Reference)
  | _, [] => []
  | sc, x :: tl => (sc, x) :: walk t (sc.visit t x) tl

theorem Scope.map_snd_walk (t : List Char) (sc : Scope) (xs : List (Annotated Reference)) :
    (walk t sc xs).map Prod.snd = xs := by
  induction xs generalizing sc with
  | nil => rfl
  | cons x tl ih => rw [walk, map_cons, ih]

theorem Scope.mem_iff_exists_mem_walk (t : List Char) (sc : Scope) :
    x ∈ xs ↔ ∃ e ∈ walk t sc xs, e.2 = x := by
  rw [← List.mem_map, map_snd_walk]

theorem Scope.mem_of_mem_walk {t : List Char} {sc : Scope} {e : Scope × Annotated Reference}
    (h : e ∈ walk t sc xs) : e.2 ∈ xs :=
  (mem_iff_exists_mem_walk t sc).mpr ⟨e, h, rfl⟩

theorem Scope.visit_of_use (h : x.value.isDeclaration = false) (t : List Char)
    (sc : Scope) : sc.visit t x = sc := by
  rw [visit, isNone_iff_eq_none.mp (isSome_eq_false_iff.mp h)]

/-- What a declaration says of its symbol. -/
def Symbol.origin (sym : Symbol) : SymbolKind × Option Site :=
  (sym.kind, sym.site)

/-- The places where an id is used, in the order in which they are recorded. -/
def Context.usesOf (ctx : Context) (id : String) : List Site :=
  (ctx.uses.get? id).getD []

/-- The places where an id is used, each once. -/
def Context.sitesOf (ctx : Context) (id : String) : List Site :=
  distinct ((ctx.uses.get? id).getD [])

namespace Program

variable {s : Script} {id : String}

section Loading

variable {ld : Loader} {ann : Annotator}

theorem uri_of_load? {u : Uri} (h : load? ld ann u = some s) : s.uri = u := by
  obtain ⟨src, -, rfl⟩ := map_eq_some_iff.mp h
  rfl

theorem load?_of_mem_collect {q : List Pending} {sn : List Uri}
    (h : s ∈ (collect ld ann q sn).scripts) :
    load? ld ann s.uri = some s := by
  fun_induction collect ld ann q sn with
  | case1 => cases h
  | case2 _ _ _ _ _ ih => exact ih h
  | case3 _ _ _ _ hl _ _ ih =>
    rcases mem_cons.mp h with rfl | h
    · rwa [uri_of_load? hl]
    · exact ih h

variable {r : Uri} {c : Collected}
  (hc : collectFrom? ld ann r = some c)

include hc

/-- The scripts of a program are those that their uris load. -/
theorem load?_of_mem_collectFrom? (h : s ∈ c.scripts) : load? ld ann s.uri = some s := by
  obtain ⟨a, hl, rfl⟩ := map_eq_some_iff.mp hc
  rcases mem_cons.mp h with rfl | h
  · rwa [uri_of_load? hl]
  · exact load?_of_mem_collect h

theorem annotations_of_mem_collectFrom? {s : Script} (h : s ∈ c.scripts) :
    s.annotations = ann s.text := by
  obtain ⟨src, -, heq⟩ := map_eq_some_iff.mp (load?_of_mem_collectFrom? hc h)
  rw [← heq]

end Loading

theorem covers_ofScripts_iff (bs : Keys String) (r : Uri) (c : Collected) (u : Uri) :
    (ofScripts bs r c).covers u = true ↔ ∃ s ∈ c.scripts, s.uri = u := by
  refine (contains_ofList_iff _ u).trans ?_
  simp

section Building

variable {ann : Annotator} {bs : Keys String} {ld : Loader} {r : Uri}
  {p : Program}

theorem isSome_build? (h : (ld r).isSome = true) : (build? ann bs ld r).isSome = true := by
  rw [build?, isSome_map, collectFrom?, isSome_map, load?, isSome_map]
  exact h

variable (h : build? ann bs ld r = some p)

include h

theorem isSome_load_of_build? : (ld r).isSome = true := by
  obtain ⟨c, hc, -⟩ := map_eq_some_iff.mp h
  obtain ⟨a, hf, -⟩ := map_eq_some_iff.mp hc
  obtain ⟨src, hs, -⟩ := map_eq_some_iff.mp hf
  rw [hs]
  rfl

theorem covers_root_of_build? : p.covers r = true := by
  obtain ⟨c, hc, rfl⟩ := map_eq_some_iff.mp h
  obtain ⟨a, hf, rfl⟩ := map_eq_some_iff.mp hc
  exact (covers_ofScripts_iff _ _ _ _).mpr ⟨a, mem_cons_self, uri_of_load? hf⟩

/-- A program has each of its scripts at the version at which it is loaded. -/
theorem versionOf?_of_build? {u : Uri} {src : Source} (hlo : ld u = some src)
    (hco : p.covers u = true) : p.versionOf? u = some src.version := by
  obtain ⟨c, hc, rfl⟩ := map_eq_some_iff.mp h
  obtain ⟨v, hv⟩ := (contains_iff _ _).mp hco
  have hm := mem_of_mem_ofList ((mem_entries_iff _ u v).mpr hv)
  obtain ⟨s, hs, heq⟩ := mem_map.mp hm
  obtain ⟨rfl, rfl⟩ := Prod.mk.inj heq
  have hl := load?_of_mem_collectFrom? hc hs
  rw [load?, hlo, map_some, Option.some.injEq] at hl
  rw [versionOf?, hv, ← hl]

end Building

section Declaring

variable (ctx : Context)

theorem symbols_declare (sym : Symbol) (h : ctx.declares id = false) :
    (ctx.declare id sym).symbols = ctx.symbols.insert id sym := by
  rw [declares, contains_eq_isSome, isSome_eq_false_iff, isNone_iff_eq_none] at h
  rw [declare, h]

theorem uses_declare (id : String) (sym : Symbol) : (ctx.declare id sym).uses = ctx.uses := by
  unfold declare
  split <;> rfl

/-- What a declaration can do: nothing if its id is declared, else it declares the id at its own
place. No use is recorded by it. -/
theorem declareOne_cases (d : Declared) :
    (ctx.declares d.id = true ∧ declareOne ctx d = ctx) ∨
      (declareOne ctx d).symbols = ctx.symbols.insert d.id
          ⟨d.kind, some (d.script.site d.span), none⟩ ∧
        (declareOne ctx d).uses = ctx.uses := by
  unfold declareOne
  cases hk : ctx.declares d.id with
  | true => exact .inl ⟨rfl, if_pos rfl⟩
  | false =>
    rw [if_neg Bool.false_ne_true]
    dsimp only
    refine .inr ?_
    -- Making a member known concerns neither symbols nor uses.
    split
    all_goals exact ⟨symbols_declare ctx _ hk, uses_declare ctx _ _⟩

/-- The symbol that a declaration makes known. -/
def Declared.symbol (d : Declared) : Symbol :=
  ⟨d.kind, some (d.script.site d.span), none⟩

theorem get?_declareOne (one : Declared) (id : String) :
    (declareOne ctx one).symbols.get? id =
      (ctx.symbols.get? id).or (if one.id = id then some one.symbol else none) := by
  cases hk : ctx.declares one.id with
  | true =>
    have hs : declareOne ctx one = ctx := if_pos hk
    rw [hs]
    split_ifs with hi
    · obtain ⟨sym, hsy⟩ := (contains_iff _ _).mp hk
      rw [← hi, hsy, some_or]
    · rw [or_none]
  | false =>
    obtain ⟨hd, -⟩ | ⟨hsym, -⟩ := declareOne_cases ctx one
    · rw [hk] at hd
      cases hd
    · rw [hsym, get?_insert]
      split_ifs with hi
      · rw [declares, contains_eq_isSome, isSome_eq_false_iff, isNone_iff_eq_none] at hk
        rw [← hi, hk, none_or]
        rfl
      · rw [or_none]

theorem uses_declareOne (d : Declared) : (declareOne ctx d).uses = ctx.uses := by
  obtain ⟨-, hs⟩ | ⟨-, hu⟩ := declareOne_cases ctx d
  · rw [hs]
  · exact hu

theorem declareAll_append (d : List Declared) (one : Declared) :
    declareAll (d ++ [one]) = declareOne (declareAll d) one := by
  rw [declareAll, foldl_append]
  rfl

/-- The symbol of an id is that of its first declaration. -/
theorem get?_declareAll (d : List Declared) (id : String) :
    (declareAll d).symbols.get? id = (d.find? fun one ↦ one.id = id).map Declared.symbol := by
  induction d using reverseRecOn with
  | nil => rfl
  | append_singleton l one ih =>
    rw [declareAll_append, get?_declareOne, ih, find?_append, map_or]
    by_cases hi : one.id = id <;> simp [hi]

theorem uses_declareAll (d : List Declared) : (declareAll d).uses = Table.empty := by
  induction d using reverseRecOn with
  | nil => rfl
  | append_singleton l one ih => rw [declareAll_append, uses_declareOne, ih]

variable (ss : List Script)

/-- Giving symbols types changes nothing else. -/
theorem exists_setType (id type : String) :
    ∃ symbols, setType ctx id type = { ctx with symbols } ∧
      ∀ o, (symbols.get? o).map Symbol.origin = (ctx.symbols.get? o).map Symbol.origin := by
  unfold setType
  cases hg : ctx.symbols.get? id with
  | none => exact ⟨_, rfl, fun _ ↦ rfl⟩
  | some sym =>
    dsimp only
    split_ifs
    · exact ⟨_, rfl, fun _ ↦ rfl⟩
    · refine ⟨_, rfl, fun o ↦ ?_⟩
      rw [get?_insert]
      split_ifs with hi
      · rw [← hi, hg]
        rfl
      · rfl

theorem exists_inferTypes :
    ∃ symbols, inferTypes ctx ss = { ctx with symbols } ∧
      ∀ o, (symbols.get? o).map Symbol.origin = (ctx.symbols.get? o).map Symbol.origin := by
  unfold inferTypes
  dsimp only
  generalize (ss.flatMap fun s ↦ s.annotations.references.items).filterMap
    (fun x ↦ inferred? ctx x.value) = f
  induction f generalizing ctx with
  | nil => exact ⟨_, rfl, fun _ ↦ rfl⟩
  | cons pair tl ih =>
    obtain ⟨symbols, hs, ho⟩ := exists_setType ctx pair.1 pair.2
    obtain ⟨l, hl, ho'⟩ := ih (setType ctx pair.1 pair.2)
    rw [hs] at hl ho'
    exact ⟨l, by rw [foldl_cons, hs]; exact hl, fun o ↦ (ho' o).trans (ho o)⟩

end Declaring

/-- An annotation that declares an id makes the program declare it. -/
theorem exists_declared {ss : List Script} {k : SymbolKind} (hs : s ∈ ss)
    (hi : x ∈ s.annotations.references.items)
    (hv : x.value = Reference.ofDeclaration k id) :
    ∃ one ∈ declarations ss, one.id = id := by
  refine ⟨⟨s, x.span, k, id⟩, mem_flatMap.mpr ⟨s, hs, ?_⟩, rfl⟩
  refine mem_filterMap.mpr ⟨x, hi, ?_⟩
  rw [Declared.of?, hv]
  rfl

section Using

variable (ctx : Context) (bs : Keys String)

theorem usesFrom_eq_map (t : List Char) (sc : Scope) (xs : List (Annotated Reference)) :
    usesFrom ctx bs t sc xs = ((Scope.walk t sc xs).filter fun e ↦ !e.2.value.isDeclaration).map
        fun e ↦ ⟨e.2.span, e.2.value, (ctx.resolveReference bs e.2.value false e.1.path).filter
            (ctx.knows bs)⟩ := by
  induction xs generalizing sc with
  | nil => rfl
  | cons x tl ih =>
    rw [usesFrom, Scope.walk]
    cases hu : x.value.isDeclaration with
    | true =>
      rw [if_pos rfl, ih, filter_cons_of_neg (by simp [hu])]
    | false =>
      rw [if_neg Bool.false_ne_true, ih, filter_cons_of_pos (by simp [hu]), map_cons,
        Scope.visit_of_use hu]

theorem mem_usedSites_iff (s : Script) (hd : ctx.declares id = true) (site : Site) :
    (id, site) ∈ usedSites ctx bs s ↔
      ∃ e ∈ Scope.walk s.text.toList Scope.top s.annotations.references.items,
        e.2.value.isDeclaration = false ∧
        id ∈ ctx.resolveReference bs e.2.value false e.1.path ∧
        site = s.site e.2.span := by
  have hk : ctx.knows bs id = true := by rw [knows, hd, Bool.true_or]
  simp only [usedSites, uses, usesFrom_eq_map, mem_flatMap, List.mem_map, mem_filter]
  constructor
  · rintro ⟨_, ⟨e, ⟨he, hu⟩, rfl⟩, _, ⟨hi, -⟩, heq⟩
    obtain ⟨rfl, rfl⟩ := Prod.mk.inj heq
    exact ⟨e, he, by simpa using hu, (mem_filter.mp hi).1, rfl⟩
  · rintro ⟨e, he, hu, hi, rfl⟩
    exact ⟨_, ⟨e, ⟨he, by simpa using hu⟩, rfl⟩, id, ⟨mem_filter.mpr ⟨hi, hk⟩, hd⟩, rfl⟩

/-- Recording uses changes nothing else. -/
theorem exists_foldl_addUse (sites : List (String × Site)) :
    ∃ uses, sites.foldl (fun ctx (id, site) ↦ ctx.addUse id site) ctx = { ctx with uses } := by
  induction sites generalizing ctx with
  | nil => exact ⟨ctx.uses, rfl⟩
  | cons pair tl ih => exact ih (ctx.addUse pair.1 pair.2)

/-- The uses that are recorded for an id. There is no entry for an id without any. -/
theorem get?_uses_foldl_addUse (h : ctx.uses = Table.empty) (sites : List (String × Site))
    (id : String) :
    (sites.foldl (fun ctx (id, site) ↦ ctx.addUse id site) ctx).uses.get? id =
      (some ((sites.filter fun pair ↦ pair.1 = id).map Prod.snd)).filter (· ≠ []) := by
  induction sites using reverseRecOn with
  | nil => rw [foldl_nil, h]; rfl
  | append_singleton l pair ih =>
    rw [foldl_append, filter_append, map_append]
    refine (get?_alter _ pair.1 id _).trans ?_
    by_cases hi : pair.1 = id
    · rw [if_pos hi, hi, ih, filter_cons_of_pos (by simpa using hi)]
      cases (l.filter fun pair ↦ pair.1 = id).map Prod.snd <;> rfl
    · rw [if_neg hi, ih, filter_cons_of_neg (by simpa using hi)]
      simp

end Using

/-- The symbols of a program, before its uses are recorded. -/
def symbolsOf (ss : List Script) : Context :=
  inferTypes (declareAll (declarations ss)) ss

section

variable (ss : List Script)

/-- The symbols of a program are those of first declarations, but for their types. -/
theorem exists_symbolsOf :
    ∃ symbols, symbolsOf ss = { declareAll (declarations ss) with symbols } ∧
      ∀ id, (symbols.get? id).map Symbol.origin =
        ((declarations ss).find? fun one ↦ one.id = id).map
          fun one ↦ (one.kind, some (one.script.site one.span)) := by
  obtain ⟨symbols, hs, ho⟩ := exists_inferTypes (declareAll (declarations ss)) ss
  refine ⟨symbols, hs, fun id ↦ ?_⟩
  rw [ho, get?_declareAll, Option.map_map]
  rfl

theorem origin_symbolsOf (id : String) :
    ((symbolsOf ss).symbols.get? id).map Symbol.origin =
      ((declarations ss).find? fun one ↦ one.id = id).map
        fun one ↦ (one.kind, some (one.script.site one.span)) := by
  obtain ⟨symbols, hs, ho⟩ := exists_symbolsOf ss
  rw [hs, ← ho]

theorem declares_symbolsOf_iff (id : String) :
    (symbolsOf ss).declares id = true ↔ ∃ one ∈ declarations ss, one.id = id := by
  rw [declares, contains_eq_isSome, ← isSome_map (f := Symbol.origin),
    origin_symbolsOf, isSome_map, find?_isSome]
  simp only [decide_eq_true_eq]

theorem uses_symbolsOf : (symbolsOf ss).uses = Table.empty := by
  obtain ⟨symbols, hs, -⟩ := exists_symbolsOf ss
  rw [hs, ← uses_declareAll]

end

variable (bs : Keys String) (r : Uri) (c : Collected)

theorem resolveReference_ofScripts (ref : Reference) (dep : Bool) (sc : String) :
    (ofScripts bs r c).context.resolveReference bs ref dep sc =
      (symbolsOf c.scripts).resolveReference bs ref dep sc := by
  obtain ⟨uses, hct⟩ := exists_foldl_addUse (symbolsOf c.scripts)
    (c.scripts.flatMap (usedSites (symbolsOf c.scripts) bs))
  have hp : (ofScripts bs r c).context = { symbolsOf c.scripts with uses } := hct
  rw [hp, resolveReference_withUses]

/-- All uses of declared ids in a program's scripts. -/
def sitesIn (bs : Keys String) (ss : List Script) : List (String × Site) :=
  ss.flatMap (usedSites (symbolsOf ss) bs)

theorem get?_uses_ofScripts (id : String) :
    (ofScripts bs r c).context.uses.get? id =
      (some (((sitesIn bs c.scripts).filter fun pair ↦ pair.1 = id).map
        Prod.snd)).filter (· ≠ []) :=
  get?_uses_foldl_addUse (symbolsOf c.scripts) (uses_symbolsOf _) _ id

theorem usesOf_ofScripts (id : String) :
    (ofScripts bs r c).context.usesOf id =
      ((sitesIn bs c.scripts).filter fun pair ↦ pair.1 = id).map Prod.snd := by
  rw [usesOf, get?_uses_ofScripts]
  cases ((sitesIn bs c.scripts).filter fun pair ↦ pair.1 = id).map Prod.snd <;> rfl

theorem mem_usesOf_ofScripts_iff (id : String) (site : Site) :
    site ∈ (ofScripts bs r c).context.usesOf id ↔ (id, site) ∈ sitesIn bs c.scripts := by
  simp [usesOf_ofScripts]

/-- The uses of a declared id: all that resolve to it, in the scope that they stand in. -/
theorem mem_sitesOf_ofScripts (hd : ∃ one ∈ declarations c.scripts, one.id = id) (site : Site) :
    site ∈ (ofScripts bs r c).context.sitesOf id ↔
      ∃ s ∈ c.scripts, ∃ e ∈ Scope.walk s.text.toList Scope.top s.annotations.references.items,
          e.2.value.isDeclaration = false ∧
          id ∈ (ofScripts bs r c).context.resolveReference bs e.2.value false e.1.path ∧
          site = s.site e.2.span := by
  have hde := (declares_symbolsOf_iff c.scripts id).mpr hd
  simp only [resolveReference_ofScripts, ← mem_usedSites_iff _ _ _ hde]
  rw [sitesOf, mem_distinct]
  exact (mem_usesOf_ofScripts_iff bs r c id site).trans mem_flatMap

end Program

end StoryScript
