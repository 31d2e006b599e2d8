import StoryScript.Proofs.Path

/-!
What the ids of a reference can resolve to. A reference `Names` a word if it declares an id that
ends with the word and stands for itself, or if each of its ids ends with the word. A use of a word
resolves to ids that end with it only, whatever is declared (`last_of_mem_resolveReference`); a
declaration resolves to its own id.
-/

namespace StoryScript

open List StoryScript.Path

/-- A reference that names a word of a script, by declaring or by using it. -/
inductive Reference.Names (w : String) : Reference → Prop
  | declares (kind : SymbolKind) (id : String) (hplain : Plain id)
      (hlast : last id = last w) : Names w (ofDeclaration kind id)
  | uses (r : Reference) (huse : r.declaration = none)
      (hids : r.symbolIds ≠ []) (hlast : ∀ id ∈ r.symbolIds, last id = w)
      (hselectors : ∀ selector ∈ r.selectors, last selector.name = w)
      (hword : w ≠ "" ∧ w ≠ parent) : Names w r

namespace Reference.Names

variable {w : String} {r : Reference}

theorem symbolIds_ne_nil (h : r.Names w) : r.symbolIds ≠ [] := by
  cases h with
  | declares k id => exact cons_ne_nil _ _
  | uses _ _ hi => exact hi

theorem exists_declaration (h : r.Names w) (hd : r.isDeclaration = true) :
    ∃ k id, r = ofDeclaration k id ∧ Plain id ∧ last id = last w := by
  cases h with
  | declares k id hp hl => exact ⟨k, id, rfl, hp, hl⟩
  | uses _ hu =>
    rw [isDeclaration, hu] at hd
    cases hd

end Reference.Names

namespace Path

variable {reached next l scope : List String} {s : String} {p : String → Prop}

theorem follow?_eq_some (hs : s ≠ parent) (h : follow? reached s = some next) :
    next = reached ++ [s] := by
  unfold follow? at h
  rw [if_neg hs] at h
  split_ifs at h
  exact (Option.some.inj h).symm

/-- What holds of steps up, of where a divert starts and of the segments that it may follow holds of
all segments that it leads to. -/
theorem forall_of_follow? (hpa : p parent) (hr : ∀ name ∈ reached, p name)
    (hs : isNumeric s = false → p s) (h : follow? reached s = some next) :
    ∀ name ∈ next, p name := by
  have ha : ∀ added, p added → ∀ name ∈ reached ++ [added], p name := fun added hp ↦
    forall_mem_append.mpr ⟨hr, forall_mem_singleton.mpr hp⟩
  unfold follow? ascend at h
  split_ifs at h with _ hnu
  · obtain rfl := Option.some.inj h
    split
    · exact ha parent hpa
    · split_ifs
      · exact ha parent hpa
      · exact fun name hn ↦ hr name (dropLast_subset _ hn)
  · obtain rfl := Option.some.inj h
    exact ha s (hs (Bool.eq_false_iff.mpr hnu))

theorem forall_of_foldlM_follow? (hp : p parent) (hr : ∀ name ∈ reached, p name)
    (hl : ∀ name ∈ l, isNumeric name = false → p name) (h : l.foldlM follow? reached = some next) :
    ∀ name ∈ next, p name := by
  induction l generalizing reached with
  | nil =>
    obtain rfl : reached = next := by simpa using h
    exact hr
  | cons s tl ih =>
    obtain ⟨hs, hre⟩ := forall_mem_cons.mp hl
    rw [foldlM_cons] at h
    obtain ⟨m, hm, hn⟩ := Option.bind_eq_some_iff.mp h
    exact ih (forall_of_follow? hp hr hs hm) hre hn

theorem forall_of_start? (hp : p parent) (hs : ∀ name ∈ scope, p name)
    (hse : isNumeric s = false → p s) (h : start? scope s = some next) : ∀ name ∈ next, p name := by
  unfold start? at h
  split_ifs at h with he hu
  · obtain rfl := Option.some.inj h
    exact hs
  · refine forall_of_follow? hp hs hse ?_
    rw [follow?, if_pos hu]
    exact h
  · exact forall_of_follow? hp (forall_mem_nil _) hse h

theorem foldlM_follow?_append (hs : s ≠ parent)
    (h : (l ++ [s]).foldlM follow? reached = some next) :
    ∃ m, next = m ++ [s] := by
  rw [foldlM_append] at h
  obtain ⟨m, -, hl⟩ := Option.bind_eq_some_iff.mp h
  refine ⟨m, follow?_eq_some hs ?_⟩
  simpa using hl

/-- Where a divert leads whose segments end with a word: the word is the last one of the path. -/
theorem start?_foldlM_append {x w : String} (he : w ≠ "") (hp : w ≠ parent)
    (hw : (x :: l).getLast (cons_ne_nil _ _) = w)
    (h : ((start? scope x).bind fun start ↦ l.foldlM follow? start) = some reached) :
    ∃ m, reached = m ++ [w] := by
  obtain ⟨start, hs, hl⟩ := Option.bind_eq_some_iff.mp h
  rcases eq_nil_or_concat l with rfl | ⟨pre, s, rfl⟩
  · obtain rfl : x = w := hw
    obtain rfl : start = reached := by simpa using hl
    rw [start?, if_neg he, if_neg hp] at hs
    exact ⟨[], follow?_eq_some hp hs⟩
  · obtain rfl : s = w := by simpa using hw
    exact foldlM_follow?_append hp (by simpa using hl)

/-- A divert whose last segment is a word leads to a path that ends with the word. -/
theorem last_ofDivert? {d scope path : String} (he : last d ≠ "")
    (hp : last d ≠ parent) (h : ofDivert? d scope = some path) :
    last path = last d := by
  have hd : d ≠ "." := by
    rintro rfl
    exact he (by decide)
  have hso : d ≠ "" := by
    rintro rfl
    exact he (by decide)
  obtain ⟨x, l, hs⟩ := exists_cons_of_ne_nil (segments_ne_nil d)
  rw [ofDivert?, if_neg hd, if_neg hso, hs] at h
  obtain ⟨reached, hr, rfl⟩ := Option.map_eq_some_iff.mp h
  have hw : (x :: l).getLast (cons_ne_nil _ _) = last d := by
    unfold last
    simp only [hs]
  obtain ⟨m, rfl⟩ := start?_foldlM_append he hp hw hr
  rw [last_ofSegments_append, last_last]

end Path

namespace Context

variable (ctx : Context) (builtins : Keys String) {scope found id name w : String} {r : Reference}

theorem last_lookup? (h : ctx.lookup? builtins scope name = some found) :
    last found = last name := by
  unfold lookup? at h
  split_ifs at h
  have hm := mem_of_find?_eq_some h
  simp only [candidates, mem_map] at hm
  obtain ⟨depth, -, rfl⟩ := hm
  exact last_ofSegments_append _ _

theorem last_expected? {sel : Selector} {a : Option String} (h : ctx.expected? sel a = some id) :
    last id = last sel.name := by
  obtain ⟨type, -, rfl⟩ := Option.map_eq_some_iff.mp h
  exact last_append _ _

/-- An id of a reference that names a word resolves to an id that ends with the word. -/
theorem last_resolveId? (hi : last id = w) (hse : ∀ sel ∈ r.selectors, last sel.name = w)
    (h : ctx.resolveId? builtins r scope id = some found) : last found = w := by
  unfold resolveId? at h
  cases hf : IdForm.ofId id with
  | inferred =>
    rw [hf] at h
    obtain ⟨sel, hs, he⟩ := exists_of_findSome?_eq_some h
    exact (ctx.last_expected? he).trans (hse sel hs)
  | inScope name =>
    rw [hf] at h
    obtain rfl := Option.some.inj h
    rw [last_within, ← hi, IdForm.eq_of_ofId_inScope hf]
    exact (last_append "" name).symm
  | searched start name =>
    have hn : last name = w := by
      rw [← hi, IdForm.eq_of_ofId_searched hf, last_append]
      exact (last_append "" name).symm
    rw [hf] at h
    dsimp only at h
    split at h
    · rename_i hl
      obtain rfl := Option.some.inj h
      exact (ctx.last_lookup? builtins hl).trans hn
    · split_ifs at h
      obtain rfl := Option.some.inj h
      exact hi
  | literal =>
    rw [hf] at h
    dsimp only at h
    split_ifs at h
    obtain rfl := Option.some.inj h
    exact hi

theorem last_resolveDivert? {d : String} (he : last d ≠ "")
    (hp : last d ≠ parent)
    (h : ctx.resolveDivert? builtins scope d = some found) :
    last found = last d := by
  obtain ⟨path, hpa, hf⟩ := Option.map_eq_some_iff.mp h
  have hl := last_ofDivert? he hp hpa
  split_ifs at hf
  · rw [← hf, hl]
  · rw [← hf, hl]
  · cases hlo : ctx.lookup? builtins scope path with
    | none =>
      rw [hlo] at hf
      rw [← hf, ← hl]
      rfl
    | some t =>
      rw [hlo] at hf
      rw [← hl, ← ctx.last_lookup? builtins hlo]
      exact congrArg last hf.symm

section Distinct

variable {α : Type} [DecidableEq α] (xs : List α)

private theorem mem_foldl_distinct (x : α) (k : List α) :
    x ∈ xs.foldl (fun k i ↦ if i ∈ k then k else k ++ [i]) k ↔ x ∈ k ∨ x ∈ xs := by
  induction xs generalizing k with
  | nil => simp
  | cons i tl ih =>
    rw [foldl_cons, ih]
    by_cases hi : i ∈ k
    · rw [if_pos hi, mem_cons]
      constructor
      · exact Or.imp_right Or.inr
      · rintro (h | rfl | h)
        · exact .inl h
        · exact .inl hi
        · exact .inr h
    · rw [if_neg hi]
      simp [or_assoc]

private theorem nodup_foldl_distinct {k : List α} (h : k.Nodup) :
    (xs.foldl (fun k i ↦ if i ∈ k then k else k ++ [i]) k).Nodup := by
  induction xs generalizing k with
  | nil => exact h
  | cons i tl ih =>
    rw [foldl_cons]
    by_cases hi : i ∈ k
    · rw [if_pos hi]
      exact ih h
    · rw [if_neg hi]
      refine ih (nodup_append.mpr ⟨h, pairwise_singleton _ _, ?_⟩)
      intro x hx y hy heq
      obtain rfl : y = i := by simpa using hy
      exact hi (heq ▸ hx)

theorem mem_distinct {x : α} : x ∈ distinct xs ↔ x ∈ xs :=
  (mem_foldl_distinct xs x []).trans (by simp)

theorem nodup_distinct : (distinct xs).Nodup :=
  nodup_foldl_distinct xs nodup_nil

end Distinct

/-- A use of a word resolves to ids that end with the word. -/
theorem last_of_mem_resolveReference (h : r.Names w) (hu : r.isDeclaration = false)
    (hf : found ∈ ctx.resolveReference builtins r false scope) :
    last found = w := by
  cases h with
  | declares k id => cases hu
  | uses _ _ hid hl hs hw =>
    rw [resolveReference, mem_distinct] at hf
    obtain ⟨id, hi, hr⟩ := mem_filterMap.mp hf
    have hi : last id = w := hl id (by simpa using hi)
    split_ifs at hr
    · rw [ctx.last_resolveDivert? builtins (hi ▸ hw.1) (hi ▸ hw.2) hr, hi]
    · exact ctx.last_resolveId? builtins hi hs hr

/-- A declaration stands for the id that it declares. -/
theorem resolveReference_ofDeclaration {k : SymbolKind} (h : Plain id)
    (dep : Bool) (scope : String) :
    ctx.resolveReference builtins (Reference.ofDeclaration k id) dep scope = [id] := by
  have hr : ctx.resolveId? builtins (Reference.ofDeclaration k id) scope id = some id := by
    rw [resolveId?, IdForm.ofId_of_plain h]
    exact if_neg h.ne_empty
  have hi : (Reference.ofDeclaration k id).symbolIds ++
      (if dep = true then (Reference.ofDeclaration k id).interdependentIds else []) = [id] := by
    cases dep <;> rfl
  have hd : (Reference.ofDeclaration k id).isDivert = false := rfl
  simp only [resolveReference, hi, hd, Bool.false_and, Bool.false_eq_true, if_false,
    filterMap_cons, filterMap_nil, hr]
  rfl

/-- What is used where does not matter for what a reference stands for. -/
theorem resolveReference_withUses (uses : Table String (List Site)) (r : Reference)
    (dep : Bool) (scope : String) :
    { ctx with uses }.resolveReference builtins r dep scope =
      ctx.resolveReference builtins r dep scope :=
  rfl

/-! ### The search outwards -/

/-- The id of a name within the outer sections of a scope, as many as a depth says. -/
def candidate (scope name : String) (depth : Nat) : String :=
  ofSegments ((names scope).take depth ++ [name])

/-- A search outwards finds the first hit. -/
theorem find?_outwards (f : Nat → String) (p : String → Bool) (n : Nat) (found : String) :
    ((range n).reverse.map f).find? p = some found ↔ ∃ depth < n, found = f depth ∧
      p found = true ∧ ∀ i < n, depth < i → p (f i) = false := by
  induction n with
  | zero => simp
  | succ n ih =>
    rw [range_succ, reverse_append, reverse_singleton, singleton_append, map_cons]
    cases hp : p (f n) with
    | true =>
      rw [find?_cons_of_pos hp]
      constructor
      · rintro ⟨⟩
        exact ⟨n, n.lt_succ_self, rfl, hp, fun i hi hl ↦ by omega⟩
      · rintro ⟨depth, hd, rfl, -, hi⟩
        rcases Nat.eq_or_lt_of_le (Nat.le_of_lt_succ hd) with rfl | hlt
        · rfl
        · cases hp.symm.trans (hi n n.lt_succ_self hlt)
    | false =>
      rw [find?_cons_of_neg (by simp [hp]), ih]
      constructor
      · rintro ⟨depth, hd, hf, hk, hi⟩
        refine ⟨depth, by omega, hf, hk, fun i hle hlt ↦ ?_⟩
        rcases Nat.eq_or_lt_of_le (Nat.le_of_lt_succ hle) with rfl | h
        · exact hp
        · exact hi i h hlt
      · rintro ⟨depth, hd, rfl, hk, hi⟩
        rcases Nat.eq_or_lt_of_le (Nat.le_of_lt_succ hd) with rfl | h
        · cases hp.symm.trans hk
        · exact ⟨depth, h, rfl, hk, fun i hle ↦ hi i (by omega)⟩

theorem isExplicit_iff (d : String) :
    isExplicit d = true ↔ d.toList.head? ∈ [some '.', some '^'] := by
  unfold isExplicit
  cases d.toList with
  | nil => simp
  | cons char tl => split <;> simp_all

theorem lookup?_eq_some_iff :
    ctx.lookup? builtins scope name = some found ↔ name ≠ "" ∧ ∃ depth ≤ (names scope).length,
      found = candidate scope name depth ∧ ctx.knows builtins found = true ∧
      ∀ i ≤ (names scope).length, depth < i →
        ctx.knows builtins (candidate scope name i) = false := by
  unfold lookup?
  split_ifs with hn
  · exact iff_of_false nofun fun h ↦ h.1 hn
  · rw [and_iff_right hn]
    have ho := find?_outwards (candidate scope name) (ctx.knows builtins)
      ((names scope).length + 1) found
    simp only [Nat.lt_succ_iff] at ho
    exact ho

theorem lookup?_eq_none_iff :
    ctx.lookup? builtins scope name = none ↔ name = "" ∨
      ∀ depth ≤ (names scope).length, ctx.knows builtins (candidate scope name depth) = false := by
  unfold lookup?
  split_ifs with hn
  · exact iff_of_true rfl (.inl hn)
  · rw [or_iff_right hn]
    simp only [candidates, find?_eq_none, forall_mem_map, mem_reverse, mem_range, Nat.lt_succ_iff,
      Bool.not_eq_true]
    rfl

/-- A name means the innermost known id that it has in the sections around it. A divert means the
path that it names if that is known, else, unless it says itself where it starts, what its path
means as a name in its scope; so it leads to an unknown id only if all of these are unknown. -/
theorem lookup?_shadows (scope name d : String) :
    (∀ found, ctx.lookup? builtins scope name = some found ↔ name ≠ "" ∧
      ∃ depth ≤ (names scope).length, found = candidate scope name depth ∧
      ctx.knows builtins found = true ∧
      ∀ inner ≤ (names scope).length, depth < inner →
        ctx.knows builtins (candidate scope name inner) = false) ∧
    (ctx.lookup? builtins scope name = none ↔ name = "" ∨
      ∀ depth ≤ (names scope).length, ctx.knows builtins (candidate scope name depth) = false) ∧
    ∀ literal, ofDivert? d scope = some literal →
      ∃ target, ctx.resolveDivert? builtins scope d = some target ∧
      (ctx.knows builtins literal = true → target = literal) ∧
      (ctx.knows builtins literal = false → d.toList.head? ∉ [some '.', some '^'] →
        target = (ctx.lookup? builtins scope literal).getD literal) ∧
      (ctx.knows builtins literal = false → d.toList.head? ∈ [some '.', some '^'] → target = literal) ∧
      (ctx.knows builtins target = false → target = literal ∧
        (d.toList.head? ∉ [some '.', some '^'] → literal ≠ "" →
          ∀ depth ≤ (names scope).length,
            ctx.knows builtins (candidate scope literal depth) = false)) := by
  refine ⟨fun found ↦ ctx.lookup?_eq_some_iff builtins, ctx.lookup?_eq_none_iff builtins,
    fun literal h ↦ ?_⟩
  simp only [← isExplicit_iff]
  refine ⟨_, congrArg (Option.map _) h, ?_⟩
  cases hk : ctx.knows builtins literal with
  | true => simp [hk]
  | false =>
    cases he : isExplicit d with
    | true => simp [hk]
    | false =>
      cases hl : ctx.lookup? builtins scope literal with
      | none =>
        have hn := (ctx.lookup?_eq_none_iff builtins).mp hl
        simpa [hk, he, hl] using hn.resolve_left
      | some found =>
        obtain ⟨-, depth, -, -, hf, -⟩ := (ctx.lookup?_eq_some_iff builtins).mp hl
        simp [hk, hl, hf]

end Context

end StoryScript
