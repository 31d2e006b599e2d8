import StoryScript.Proofs.Rename.Paths
import StoryScript.Proofs.Script.Respell

/-!
Paths and scopes with another name for some of their sections. A path is respelled segment by
segment, each one as the opening of the path that ends with it says (`Path.respell`); to go back, the
new name is replaced wherever it stands (`Path.restore`).
-/

namespace StoryScript

open List Script StoryScript.Path

namespace Path

variable {name path : String} {ns : List String}

section Respell

variable (oc : String → Bool) (old new : String)

/-- A segment with another name, if it has the old one and the path that ends with it is one of the
places where that is replaced. -/
def respellName (o name : String) : String :=
  if name = old ∧ oc (o ++ name) then new else name

/-- Segments that follow an opening of a path. -/
def respellFrom : String → List String → List String
  | _, [] => []
  | o, name :: r =>
    respellName oc old new o name :: respellFrom (o ++ name ++ ".") r

/-- A path with another name for some of its segments. -/
def respell (path : String) : String :=
  ofSegments (respellFrom oc old new "" (segments path))

/-- The old name in place of the new one. -/
def restore (name : String) : String :=
  if name = new then old else name

variable {oc old new}

theorem dotless_respellFrom (hn : '.' ∉ new.toList) (h : ∀ name ∈ ns, '.' ∉ name.toList)
    (o : String) : ∀ name ∈ respellFrom oc old new o ns, '.' ∉ name.toList := by
  induction ns generalizing o with
  | nil => exact nofun
  | cons x r ih =>
    obtain ⟨hf, hr⟩ := forall_mem_cons.mp h
    refine forall_mem_cons.mpr ⟨?_, ih hr _⟩
    unfold respellName
    split_ifs
    · exact hn
    · exact hf

theorem respellFrom_ne_nil (h : ns ≠ []) (o : String) : respellFrom oc old new o ns ≠ [] := by
  obtain ⟨x, r, rfl⟩ := exists_cons_of_ne_nil h
  exact cons_ne_nil _ _

theorem segments_respell (hn : '.' ∉ new.toList) (path : String) :
    segments (respell oc old new path) = respellFrom oc old new "" (segments path) :=
  segments_ofSegments (respellFrom_ne_nil (segments_ne_nil path) _)
    (dotless_respellFrom hn (fun _ ↦ dotless_of_mem_segments) _)

theorem map_restore_respellFrom (h : new ∉ ns) (o : String) :
    (respellFrom oc old new o ns).map (restore old new) = ns := by
  induction ns generalizing o with
  | nil => rfl
  | cons x r ih =>
    obtain ⟨hf, hr⟩ := not_or.mp (mt mem_cons.mpr h)
    rw [respellFrom, map_cons, ih hr]
    congr 1
    unfold restore respellName
    split_ifs with hn hne
    · exact hn.1.symm
    · exact absurd rfl hne
    · exact absurd ‹x = new›.symm hf
    · rfl

/-- A path in which the new name did not occur is restored. -/
theorem mapSegments_restore_respell (hn : '.' ∉ new.toList) (h : new ∉ segments path) :
    mapSegments (restore old new) (respell oc old new path) = path := by
  rw [mapSegments, segments_respell hn, map_restore_respellFrom h, ofSegments_segments]

theorem mapSegments_restore_of_notMem (h : new ∉ segments path) :
    mapSegments (restore old new) path = path := by
  have hs : ∀ name ∈ segments path, restore old new name = id name := by
    intro name hn
    refine if_neg ?_
    rintro rfl
    exact h hn
  rw [mapSegments, map_congr_left hs, map_id, ofSegments_segments]

theorem respellName_of_ne (h : name ≠ old) (o : String) : respellName oc old new o name = name :=
  if_neg fun heq ↦ h heq.1

/-- A path in which the old name does not occur stays as it is. -/
theorem respell_of_notMem (h : old ∉ segments path) : respell oc old new path = path := by
  have hfr : ∀ (o : String) (ns : List String), old ∉ ns → respellFrom oc old new o ns = ns := by
    intro o ns hn
    induction ns generalizing o with
    | nil => rfl
    | cons x r ih =>
      obtain ⟨hf, hr⟩ := not_or.mp (mt mem_cons.mpr hn)
      rw [respellFrom, respellName_of_ne (Ne.symm hf), ih _ hr]
  rw [respell, hfr "" _ h, ofSegments_segments]

theorem respell_of_dotless (h : '.' ∉ name.toList) :
    respell oc old new name = respellName oc old new "" name := by
  rw [respell, segments_of_dotless h]
  rfl

theorem respellFrom_append (o : String) (l lt : List String) :
    respellFrom oc old new o (l ++ lt) = respellFrom oc old new o l ++
        respellFrom oc old new (l.foldl (fun path name ↦ path ++ name ++ ".") o)
          lt := by
  induction l generalizing o with
  | nil => rfl
  | cons x r ih =>
    rw [cons_append, respellFrom, respellFrom, cons_append, ih, foldl_cons]

theorem foldl_opening (o : String) (h : ns ≠ []) :
    ns.foldl (fun path name ↦ path ++ name ++ ".") o = o ++ ofSegments ns ++ "." := by
  induction ns generalizing o with
  | nil => exact absurd rfl h
  | cons x r ih =>
    by_cases hr : r = []
    · subst hr
      rfl
    · rw [foldl_cons, ih _ hr, ofSegments_cons x hr]
      simp only [String.append_assoc]

theorem respell_append (path : String) (h : '.' ∉ name.toList) :
    respell oc old new (path ++ "." ++ name) =
      respell oc old new path ++ "." ++ respellName oc old new (path ++ ".") name := by
  have hp := segments_ne_nil path
  rw [respell, segments_append, segments_of_dotless h, respellFrom_append, foldl_opening "" hp,
    ofSegments_segments, String.empty_append]
  exact ofSegments_concat (respellFrom_ne_nil hp "") _

/-- What stands before a name within a scope. -/
def opening (sc : String) : String :=
  if sc = "" then "" else sc ++ "."

theorem within_eq (sc name : String) : within sc name = opening sc ++ name := by
  unfold within opening
  split_ifs
  · rw [String.empty_append]
  · rfl

theorem respell_eq_empty_iff (ho : old ≠ "") (hn : new ≠ "" ∧ '.' ∉ new.toList)
    (path : String) : respell oc old new path = "" ↔ path = "" := by
  have he : segments "" = [""] := segments_of_dotless (by decide)
  rw [eq_iff_segments_eq he, eq_iff_segments_eq he, segments_respell hn.2]
  cases hs : segments path with
  | nil => simp [respellFrom]
  | cons x r =>
    have hr : respellFrom oc old new ("" ++ x ++ ".") r = [] ↔ r = [] := by
      cases r with
      | nil => simp [respellFrom]
      | cons second later => simp [respellFrom]
    rw [respellFrom, List.cons.injEq, List.cons.injEq, hr]
    refine and_congr_left fun _ ↦ ?_
    unfold respellName
    split_ifs with hna
    · simp [hna.1, ho, hn.1]
    · rfl

theorem respell_within (ho : old ≠ "") (hn : new ≠ "" ∧ '.' ∉ new.toList) (sc : String)
    (h : '.' ∉ name.toList) :
    respell oc old new (within sc name) =
      within (respell oc old new sc) (respellName oc old new (opening sc) name) := by
  unfold within opening
  by_cases hs : sc = ""
  · rw [if_pos hs, if_pos hs, if_pos ((respell_eq_empty_iff ho hn sc).mpr hs), respell_of_dotless h]
  · rw [if_neg hs, if_neg hs, if_neg (mt (respell_eq_empty_iff ho hn sc).mp hs),
      respell_append sc h]

end Respell

/-- A free name is an ordinary segment. -/
theorem isNumeric_of_isFreeName (h : IsFreeName name.toList) : isNumeric name = false := by
  have hs := h.starts
  unfold isNumeric
  cases hc : name.toList with
  | nil =>
    rw [hc] at hs
    cases hs
  | cons c r =>
    rw [hc] at hs
    rw [all_cons, isDigit_of_startsName (by simpa using hs), Bool.false_and]

theorem notMem_of_isFreeName (h : IsFreeName name.toList) {c : Char}
    (hc : continuesName c = false) : c ∉ name.toList := by
  intro hm
  rw [h.chars _ hm] at hc
  cases hc

theorem ne_of_isFreeName (h : IsFreeName name.toList) :
    name ≠ "" ∧ name ≠ parent ∧ '.' ∉ name.toList ∧ name.toList.head? ≠ some '^' := by
  have hc : '^' ∉ name.toList := notMem_of_isFreeName h (by decide)
  refine ⟨?_, ?_, notMem_of_isFreeName h (by decide), fun hh ↦ hc (mem_of_head? hh)⟩
  · rintro rfl
    exact h.ne_nil rfl
  · rintro rfl
    exact hc (by decide)

theorem renames_restore {old new : String} (ho : IsFreeName old.toList)
    (hn : IsFreeName new.toList) : Renames (restore old new) := by
  obtain ⟨he, hp, hd, hca⟩ := ne_of_isFreeName ho
  obtain ⟨he', hp', -, hca'⟩ := ne_of_isFreeName hn
  have hc : ∀ {P : String → String → Prop}, P old new → (∀ name, P name name) →
      ∀ name, P (restore old new name) name := by
    intro P hna hs name
    unfold restore
    split_ifs with heq
    · exact heq ▸ hna
    · exact hs name
  constructor
  · exact hc (P := fun name name' ↦ name = "" ↔ name' = "") (by simp [he, he'])
      fun _ ↦ Iff.rfl
  · exact hc (P := fun name name' ↦ name = parent ↔ name' = parent)
      (by simp [hp, hp']) fun _ ↦ Iff.rfl
  · exact hc (P := fun name name' ↦ isNumeric name = isNumeric name')
      (by rw [isNumeric_of_isFreeName ho, isNumeric_of_isFreeName hn]) fun _ ↦ rfl
  · exact hc (P := fun name name' ↦ '.' ∉ name'.toList → '.' ∉ name.toList) (fun _ ↦ hd) fun _ ↦ id
  · exact hc (P := fun name name' ↦ name.toList.head? = some '^' ↔ name'.toList.head? = some '^')
      (by simp [hca, hca']) fun _ ↦ Iff.rfl

end Path

namespace Scope

/-- A scope of sections whose names have no dots. -/
def Simple (sc : Scope) : Prop :=
  ∀ name ∈ sc.sections, name ≠ "" ∧ '.' ∉ name.toList

variable (oc : String → Bool) (old new : String)

/-- The scope with another name for some of its sections. -/
def respell (sc : Scope) : Scope where
  knot := sc.knot.map (respellName oc old new "")
  stitch := sc.stitch.map (respellName oc old new (opening sc.outer.path))

variable {oc old new} {sc : Scope}

theorem Simple.outer (h : sc.Simple) : sc.outer.Simple := by
  intro name hn
  exact h name (mem_append_left _ (by simpa [Scope.outer, sections] using hn))

theorem path_respell (ho : old ≠ "") (h : sc.Simple) :
    (sc.respell oc old new).path = Path.respell oc old new sc.path := by
  obtain ⟨knot, stitch⟩ := sc
  cases knot with
  | none =>
    cases stitch with
    | none =>
      rw [show (⟨none, none⟩ : Scope).path = "" from rfl, respell_of_dotless (by decide),
        respellName_of_ne ho.symm]
      rfl
    | some stitch =>
      have hs := (h stitch (by simp [sections])).2
      exact (respell_of_dotless hs).symm
  | some knot =>
    have hk := h knot (by simp [sections])
    cases stitch with
    | none => exact (respell_of_dotless hk.2).symm
    | some stitch =>
      have hs := (h stitch (by simp [sections])).2
      have hop : Path.opening (⟨some knot, none⟩ : Scope).path = knot ++ "." := if_neg hk.1
      rw [show (⟨some knot, some stitch⟩ : Scope).path = knot ++ "." ++ stitch from rfl,
        respell_append knot hs, respell_of_dotless hk.2, ← hop]
      rfl

/-- A section that is entered under its other name. -/
theorem enter_knot_respell (name : String) :
    (sc.respell oc old new).enter .knot (respellName oc old new "" name) =
      (sc.enter .knot name).respell oc old new :=
  rfl

theorem enter_stitch_respell (name : String) :
    (sc.respell oc old new).enter .stitch
        (respellName oc old new (opening sc.outer.path) name) =
      (sc.enter .stitch name).respell oc old new :=
  rfl

theorem Simple.enter (h : sc.Simple) {name : String} (hn : name ≠ "" ∧ '.' ∉ name.toList)
    (k : SymbolKind) : (sc.enter k name).Simple := by
  intro part hp
  rcases eq_or_mem_sections_enter hp with rfl | hp
  · exact hn
  · exact h part hp

end Scope

end StoryScript
