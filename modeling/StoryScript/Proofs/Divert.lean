import StoryScript.Proofs.Resolution

/-!
The algebra of diverts. A divert leads nowhere exactly if one of its segments does, and where it leads
is reduced: steps up stand before all names (`Path.Reduced`). A path of names alone leads to itself
from everywhere, and a step up undoes a step into a section (`Path.ofDivert?_laws`).
-/

namespace StoryScript.Path

open List Option

variable {resolved next l : List String} {s path d name : String}

/-! ### Diverts that lead nowhere -/

theorem follow?_eq_none_iff (resolved : List String) (s : String) :
    follow? resolved s = none ↔ isNumeric s = true := by
  unfold follow?
  split_ifs with hp hn
  · rw [hp]
    decide
  · exact iff_of_true rfl hn
  · exact iff_of_false not_false hn

theorem foldlM_follow?_eq_none_iff (resolved l : List String) :
    l.foldlM follow? resolved = none ↔ ∃ s ∈ l, isNumeric s = true := by
  induction l generalizing resolved with
  | nil => simp
  | cons s r ih =>
    rw [foldlM_cons, exists_mem_cons_iff, ← follow?_eq_none_iff resolved s]
    cases follow? resolved s with
    | none => simp
    | some next => simpa using ih next

theorem start?_eq_none_iff (sc : List String) (s : String) :
    start? sc s = none ↔ s ≠ "" ∧ isNumeric s = true := by
  unfold start?
  split_ifs with he hp
  · exact iff_of_false not_false fun h ↦ h.1 he
  · rw [hp]
    simp +decide
  · rw [follow?_eq_none_iff, and_iff_right he]

/-- A segment of digits. -/
def IsNumber (s : String) : Prop :=
  s ≠ "" ∧ isNumeric s = true

theorem ofDivert?_eq_none_iff (d sc : String) :
    ofDivert? d sc = none ↔ d ≠ "." ∧ (d = "" ∨
      "" ∈ (segments d).tail ∨ ∃ s ∈ segments d, IsNumber s) := by
  obtain ⟨x, l, hse⟩ := exists_cons_of_ne_nil (segments_ne_nil d)
  unfold ofDivert?
  split_ifs with hd he
  · exact iff_of_false not_false fun h ↦ h.1 hd
  · exact iff_of_true rfl ⟨hd, Or.inl he⟩
  · rw [hse, tail_cons, exists_mem_cons_iff, and_iff_right hd, or_iff_right he,
      map_eq_none_iff, bind_eq_none_iff]
    have hl : (∃ s ∈ l, isNumeric s = true) ↔
        "" ∈ l ∨ ∃ s ∈ l, IsNumber s := by
      constructor
      · rintro ⟨s, hs, hn⟩
        by_cases heq : s = ""
        · exact .inl (heq ▸ hs)
        · exact .inr ⟨s, hs, heq, hn⟩
      · rintro (hg | ⟨s, hs, -, hn⟩)
        · exact ⟨"", hg, rfl⟩
        · exact ⟨s, hs, hn⟩
    simp only [foldlM_follow?_eq_none_iff, hl]
    cases hst : start? (names sc) x with
    | none =>
      have hf := (start?_eq_none_iff _ _).mp hst
      exact iff_of_true nofun (Or.inr (Or.inl hf))
    | some start =>
      have hf : ¬ IsNumber x := fun h ↦
        some_ne_none _ (hst.symm.trans ((start?_eq_none_iff _ _).mpr h))
      rw [or_iff_right hf]
      exact ⟨fun h ↦ h start rfl, fun h _ _ ↦ h⟩

/-! ### Where diverts lead -/

/-- Steps up, and names behind them. -/
def Reduced (ss : List String) : Prop :=
  ∃ steps l, ss = List.replicate steps parent ++ l ∧ parent ∉ l

theorem Reduced.of_names {ns : List String} (h : parent ∉ ns) : Reduced ns :=
  ⟨0, ns, rfl, h⟩

theorem Reduced.ascend (h : Reduced resolved) : Reduced (Path.ascend resolved) := by
  obtain ⟨ss, lt, rfl, hl⟩ := h
  rcases eq_nil_or_concat lt with rfl | ⟨l, last, rfl⟩
  · -- Steps up alone become one more.
    refine ⟨ss + 1, [], ?_, not_mem_nil⟩
    rw [append_nil, append_nil, replicate_succ', Path.ascend]
    cases ss with
    | zero => rfl
    | succ n => simp [getLast?_replicate]
  · rw [concat_eq_append, mem_append, not_or, mem_singleton] at hl
    refine ⟨ss, l, ?_, hl.1⟩
    rw [concat_eq_append, ← append_assoc, Path.ascend, getLast?_concat]
    simp [Ne.symm hl.2]

theorem Reduced.follow? (h : Reduced resolved) (hn : Path.follow? resolved s = some next) :
    Reduced next := by
  unfold Path.follow? at hn
  split_ifs at hn with hp
  · obtain rfl := Option.some.inj hn
    exact h.ascend
  · obtain rfl := Option.some.inj hn
    obtain ⟨ss, l, rfl, hl⟩ := h
    refine ⟨ss, l ++ [s], append_assoc _ _ _, ?_⟩
    rw [mem_append, not_or, mem_singleton]
    exact ⟨hl, Ne.symm hp⟩

theorem Reduced.foldlM_follow? (h : Reduced resolved)
    (hn : l.foldlM Path.follow? resolved = some next) : Reduced next := by
  induction l generalizing resolved with
  | nil =>
    obtain rfl : resolved = next := by simpa using hn
    exact h
  | cons s r ih =>
    rw [foldlM_cons] at hn
    obtain ⟨m, hm, hn⟩ := bind_eq_some_iff.mp hn
    exact ih (h.follow? hm) hn

theorem Reduced.start? {sc : List String} (h : Reduced sc) (hn : Path.start? sc s = some next) :
    Reduced next := by
  unfold Path.start? at hn
  split_ifs at hn
  · obtain rfl := Option.some.inj hn
    exact h
  · obtain rfl := Option.some.inj hn
    exact h.ascend
  · exact (Reduced.of_names not_mem_nil).follow? hn

/-- Names are followed as they stand. -/
theorem foldlM_follow?_of_names (h : ∀ name ∈ l, name ≠ parent ∧ isNumeric name = false)
    (resolved : List String) :
    l.foldlM follow? resolved = some (resolved ++ l) := by
  induction l generalizing resolved with
  | nil => simp
  | cons name r ih =>
    obtain ⟨⟨hp, hn⟩, hr⟩ := forall_mem_cons.mp h
    have hf : follow? resolved name = some (resolved ++ [name]) := by
      rw [follow?, if_neg hp, hn, if_neg Bool.false_ne_true]
    rw [foldlM_cons, hf, bind_eq_bind, bind_some, ih hr, append_assoc, singleton_append]

/-- A path of names leads to itself, from every scope. -/
theorem ofDivert?_of_names (h : ∀ name ∈ segments path, name ≠ parent ∧ isNumeric name = false)
    (sc : String) :
    ofDivert? path sc = some path := by
  obtain ⟨x, later, hs⟩ := exists_cons_of_ne_nil (segments_ne_nil path)
  have hg : "" ∉ segments path := fun hm ↦ absurd (h "" hm).2 (by decide)
  have hd : path ≠ "." := fun heq ↦ hg (heq ▸ by decide)
  have hso : path ≠ "" := by
    rintro rfl
    exact hg (by decide)
  rw [hs] at h hg
  obtain ⟨⟨hp, -⟩, -⟩ := forall_mem_cons.mp h
  have hfi : x ≠ "" := fun heq ↦ hg (heq ▸ mem_cons_self)
  have hf := foldlM_follow?_of_names h []
  rw [foldlM_cons, bind_eq_bind] at hf
  rw [ofDivert?, if_neg hd, if_neg hso, hs]
  simp only [start?, if_neg hfi, if_neg hp]
  rw [hf, map_some, nil_append, ← hs, ofSegments_segments]

/-- What a divert leads to from a scope of names: a reduced path of segments that lead somewhere. -/
theorem exists_of_ofDivert? {sc : String}
    (hs : ∀ name ∈ names sc, name ≠ parent ∧ isNumeric name = false)
    (h : ofDivert? d sc = some path) :
    ∃ resolved, path = ofSegments resolved ∧ Reduced resolved ∧
      ∀ name ∈ resolved, '.' ∉ name.toList ∧ isNumeric name = false := by
  have hna : ∀ name ∈ names sc, '.' ∉ name.toList ∧ isNumeric name = false :=
    fun name hn ↦ ⟨dotless_of_mem_names hn, (hs name hn).2⟩
  have hr : Reduced (names sc) := .of_names fun hm ↦ (hs parent hm).1 rfl
  obtain ⟨x, later, hse⟩ := exists_cons_of_ne_nil (segments_ne_nil d)
  unfold ofDivert? at h
  split_ifs at h
  · exact ⟨_, (Option.some.inj h).symm, hr, hna⟩
  · rw [hse] at h
    obtain ⟨resolved, hre, rfl⟩ := map_eq_some_iff.mp h
    obtain ⟨start, hst, hl⟩ := bind_eq_some_iff.mp hre
    have hd : ∀ name ∈ x :: later, isNumeric name = false →
        '.' ∉ name.toList ∧ isNumeric name = false :=
      fun name hn hnu ↦ ⟨dotless_of_mem_segments (hse ▸ hn), hnu⟩
    obtain ⟨hf, hres⟩ := forall_mem_cons.mp hd
    exact ⟨resolved, rfl, (hr.start? hst).foldlM_follow? hl,
      forall_of_foldlM_follow? (by decide) (forall_of_start? (by decide) hna hf hst) hres hl⟩

theorem names_within (he : name ≠ "") (hd : '.' ∉ name.toList) (sc : String) :
    names (within sc name) = names sc ++ [name] := by
  have hn : names name = [name] := by
    rw [names, segments_of_dotless hd, filter_singleton]
    simp [he]
  unfold within
  split_ifs with hs
  · rw [hs, hn]
    rfl
  · rw [names, segments_append, filter_append]
    exact congrArg _ hn

/-- A step up, and on from there, in a section is the same as going on in what encloses it. -/
theorem ofDivert?_within (hd : d ≠ "") (he : name ≠ "") (hdo : '.' ∉ name.toList)
    (hp : name ≠ parent) (sc : String) :
    ofDivert? ("^." ++ d) (within sc name) = ofDivert? ("." ++ d) sc := by
  have hu : segments ("^." ++ d) = "^" :: segments d := segments_append "^" d
  have hh : segments ("." ++ d) = "" :: segments d := segments_append "" d
  have hn : ∀ o, o ++ d ≠ o := by
    intro o heq
    apply hd
    rw [← String.toList_inj] at heq ⊢
    simpa using heq
  have hc : "^." ++ d ≠ "." := by
    intro heq
    rw [heq] at hu
    exact absurd (head_eq_of_cons_eq ((segments_append "" "").symm.trans hu)) (by decide)
  have ha : ascend (names sc ++ [name]) = names sc := by
    rw [ascend, getLast?_concat]
    simp [hp]
  have hs : start? (names (within sc name)) "^" = start? (names sc) "" := by
    rw [names_within he hdo]
    exact congrArg some ha
  unfold ofDivert?
  rw [if_neg hc, if_neg (hn "."), hu, hh]
  simp only [hs]
  simp +decide [String.append_eq_empty_iff]

/-- The laws of diverts. One leads nowhere exactly if it is empty, ends with a dot, or has an empty
segment behind the first or a number. From a scope of names it leads to a reduced path, which leads
to itself from everywhere if it is made of names. A step up leaves the innermost section. -/
theorem ofDivert?_laws (divert scope : String) :
    (ofDivert? divert scope = none ↔ divert ≠ "." ∧ (divert = "" ∨
      (∃ front, divert = front ++ ".") ∨ "" ∈ (segments divert).tail ∨
      ∃ segment ∈ segments divert, IsNumber segment)) ∧
    (∀ name, name ≠ "" → '.' ∉ name.toList → name ≠ parent → divert ≠ "" →
      ofDivert? ("^." ++ divert) (within scope name) = ofDivert? ("." ++ divert) scope) ∧
    ((∀ name ∈ names scope, name ≠ parent ∧ isNumeric name = false) →
      ∀ path, ofDivert? divert scope = some path → Reduced (segments path) ∧
        (path ≠ "" → parent ∉ segments path → ∀ other, ofDivert? path other = some path)) := by
  refine ⟨?_, fun name hempty hdotless hparent hdivert ↦
    ofDivert?_within hdivert hempty hdotless hparent scope, fun hscope path hpath ↦ ?_⟩
  · have htrailing : (∃ front, divert = front ++ ".") → "" ∈ (segments divert).tail := by
      rintro ⟨front, rfl⟩
      obtain ⟨first, later, hfront⟩ := exists_cons_of_ne_nil (segments_ne_nil front)
      have hsegments := segments_append front ""
      rw [String.append_empty, hfront] at hsegments
      rw [hsegments, cons_append, tail_cons]
      exact mem_append_right _ mem_cons_self
    rw [ofDivert?_eq_none_iff]
    tauto
  · obtain ⟨resolved, rfl, hreduced, hsegments⟩ := exists_of_ofDivert? hscope hpath
    by_cases hempty : resolved = []
    · rw [hempty]
      exact ⟨.of_names (by decide), fun h ↦ absurd rfl h⟩
    · rw [segments_ofSegments hempty fun name hname ↦ (hsegments name hname).1]
      refine ⟨hreduced, fun _ hparent other ↦ ofDivert?_of_names (fun name hname ↦ ?_) other⟩
      rw [segments_ofSegments hempty fun name hname ↦ (hsegments name hname).1] at hname
      exact ⟨fun heq ↦ hparent (heq ▸ hname), (hsegments name hname).2⟩

/-- From within a stitch, two steps up and a knot's name lead to the knot, and a third step stays. -/
theorem ofDivert?_laws_clearing :
    ofDivert? "^.^.^.Shore" "Forest.Clearing" = some "^.Shore" ∧ Reduced (segments "^.Shore") ∧
      ofDivert? "^.Path" "Forest.Clearing" = ofDivert? ".Path" "Forest" ∧
      ofDivert? "Forest.Path" "Shore" = some "Forest.Path" := by
  have hdivert : ofDivert? "^.^.^.Shore" "Forest.Clearing" = some "^.Shore" := by decide +kernel
  have hpath : ofDivert? ".Path" "Forest" = some "Forest.Path" := by decide +kernel
  refine ⟨hdivert, ?_, ?_, ?_⟩
  · exact ((ofDivert?_laws _ _).2.2 (by decide +kernel) _ hdivert).1
  · exact (ofDivert?_laws "Path" "Forest").2.1 "Clearing" (by decide) (by decide) (by decide)
      (by decide)
  · exact ((ofDivert?_laws _ _).2.2 (by decide +kernel) _ hpath).2 (by decide) (by decide +kernel)
      "Shore"

end StoryScript.Path
