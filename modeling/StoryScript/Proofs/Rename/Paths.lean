import StoryScript.Proofs.Resolution

/-!
Paths with other names in place of their segments (`Path.mapSegments`). Where a divert may lead is
told by its segments and those of its scope (`Path.targetsOf`), so that replacing names and following
diverts commute.
-/

namespace StoryScript

open Context IdForm List Reference StoryScript.Path

namespace Path

/-! ### Names in place of segments -/

/-- Segments that stand for others: none becomes or ceases to be empty, numeric or a step up. -/
structure Renames (f : String → String) : Prop where
  eq_empty_iff : ∀ name, f name = "" ↔ name = ""
  eq_parent_iff : ∀ name, f name = parent ↔ name = parent
  isNumeric : ∀ name, isNumeric (f name) = isNumeric name
  dotless : ∀ name, '.' ∉ name.toList → '.' ∉ (f name).toList
  caret : ∀ name, (f name).toList.head? = some '^' ↔ name.toList.head? = some '^'

/-- The path with other segments in place of its own. -/
def mapSegments (f : String → String) (path : String) : String :=
  ofSegments ((segments path).map f)

variable {f : String → String} {ns l r : List String}

section

variable (hf : Renames f)

include hf

theorem Renames.forall_dotless (h : ∀ name ∈ ns, '.' ∉ name.toList) :
    ∀ name ∈ ns.map f, '.' ∉ name.toList :=
  forall_mem_map.mpr fun name hn ↦ hf.dotless name (h name hn)

theorem Renames.segments_mapSegments (path : String) :
    segments (mapSegments f path) = (segments path).map f :=
  segments_ofSegments (by simpa using segments_ne_nil path)
    (hf.forall_dotless fun _ ↦ dotless_of_mem_segments)

theorem Renames.mapSegments_ofSegments (h : ∀ name ∈ ns, '.' ∉ name.toList) :
    mapSegments f (ofSegments ns) = ofSegments (ns.map f) := by
  by_cases he : ns = []
  · subst he
    have hf' : f "" = "" := (hf.eq_empty_iff "").mpr rfl
    exact congrArg (fun name ↦ ofSegments [name]) hf'
  · rw [mapSegments, segments_ofSegments he h]

theorem Renames.names_mapSegments (path : String) :
    names (mapSegments f path) = (names path).map f := by
  rw [names, names, hf.segments_mapSegments, filter_map]
  congr 1
  refine filter_congr fun name _ ↦ ?_
  simp [hf.eq_empty_iff]

theorem Renames.mapSegments_eq_empty_iff (path : String) : mapSegments f path = "" ↔ path = "" := by
  have he : segments "" = [""] := segments_of_dotless (by decide)
  rw [eq_iff_segments_eq he, eq_iff_segments_eq he, hf.segments_mapSegments]
  cases hs : segments path with
  | nil => simp
  | cons first rest => simp [hf.eq_empty_iff]

theorem Renames.mapSegments_append (x y : String) :
    mapSegments f (x ++ "." ++ y) =
      mapSegments f x ++ "." ++ mapSegments f y := by
  apply segments_injective
  rw [hf.segments_mapSegments, segments_append, segments_append, hf.segments_mapSegments,
    hf.segments_mapSegments, map_append]

theorem Renames.mapSegments_within (sc name : String) :
    mapSegments f (within sc name) = within (mapSegments f sc) (mapSegments f name) := by
  unfold within
  by_cases hs : sc = ""
  · rw [if_pos hs, if_pos ((hf.mapSegments_eq_empty_iff sc).mpr hs)]
  · rw [if_neg hs, if_neg (mt (hf.mapSegments_eq_empty_iff sc).mp hs), hf.mapSegments_append]

end

/-! ### Following diverts -/

theorem Renames.ascend_map (hf : Renames f) (r : List String) :
    ascend (r.map f) = (ascend r).map f := by
  have hp : f parent = parent := (hf.eq_parent_iff parent).mpr rfl
  unfold ascend
  rw [getLast?_map]
  cases r.getLast? with
  | none => simp [hp]
  | some last =>
    simp only [Option.map_some, hf.eq_parent_iff]
    split_ifs
    · simp [hp]
    · rw [map_dropLast]

theorem Renames.follow?_map (hf : Renames f) (r : List String) (s : String) :
    follow? (r.map f) (f s) = (follow? r s).map (List.map f) := by
  unfold follow?
  simp only [hf.eq_parent_iff, hf.isNumeric]
  split_ifs
  · simp [hf.ascend_map]
  · rfl
  · simp

theorem Renames.foldlM_follow?_map (hf : Renames f) (r l : List String) :
    (l.map f).foldlM follow? (r.map f) = (l.foldlM follow? r).map (List.map f) := by
  induction l generalizing r with
  | nil => rfl
  | cons s tl ih =>
    rw [map_cons, foldlM_cons, foldlM_cons, hf.follow?_map]
    cases follow? r s with
    | none => rfl
    | some n => exact ih n

theorem Renames.start?_map (hf : Renames f) (sc : List String) (s : String) :
    start? (sc.map f) (f s) = (start? sc s).map (List.map f) := by
  unfold start?
  simp only [hf.eq_parent_iff, hf.eq_empty_iff]
  split_ifs
  · rfl
  · simp [hf.ascend_map]
  · exact hf.follow?_map [] s

/-- Renaming what a divert names is naming it by the renamed divert. -/
theorem Renames.ofDivert?_mapSegments (hf : Renames f) (dv sc : String) :
    ofDivert? (mapSegments f dv) (mapSegments f sc) = (ofDivert? dv sc).map (mapSegments f) := by
  have he := hf.mapSegments_eq_empty_iff dv
  have hd : mapSegments f dv = "." ↔ dv = "." := by
    have hd : segments "." = ["", ""] := segments_append "" ""
    rw [eq_iff_segments_eq hd, eq_iff_segments_eq hd, hf.segments_mapSegments]
    cases hc : segments dv with
    | nil => simp
    | cons x rest =>
      cases rest with
      | nil => simp
      | cons second later => simp [hf.eq_empty_iff]
  unfold ofDivert?
  simp only [hd, he, hf.segments_mapSegments, hf.names_mapSegments]
  split_ifs
  · rw [Option.map_some, hf.mapSegments_ofSegments fun _ ↦ dotless_of_mem_names]
  · rfl
  · cases hse : segments dv with
    | nil => rfl
    | cons x later =>
      have hdo : ∀ name ∈ x :: later, '.' ∉ name.toList := hse ▸ fun _ ↦ dotless_of_mem_segments
      obtain ⟨hfi, hl⟩ := forall_mem_cons.mp hdo
      simp only [map_cons]
      rw [hf.start?_map]
      cases hs : start? (names sc) x with
      | none => rfl
      | some start =>
        have hs := forall_of_start? (by decide) (fun _ ↦ dotless_of_mem_names) (fun _ ↦ hfi) hs
        simp only [Option.map_some, Option.bind_some]
        rw [hf.foldlM_follow?_map]
        cases hne : later.foldlM follow? start with
        | none => rfl
        | some next =>
          simp only [Option.map_some]
          rw [hf.mapSegments_ofSegments (forall_of_foldlM_follow? (by decide) hs
            (fun name hn _ ↦ hl name hn) hne)]

/-! ### Double dots -/

/-- The segments before and after the first gap: an empty segment between two others. -/
def splitGap? : List String → Option (List String × List String)
  | x :: y :: z :: r =>
    if y = "" then some ([x], z :: r)
    else (splitGap? (y :: z :: r)).map fun parts ↦ (x :: parts.1, parts.2)
  | _ => none

theorem splitGap?_map (hf : ∀ name, f name = "" ↔ name = "") (ns : List String) :
    splitGap? (ns.map f) = (splitGap? ns).map fun parts ↦ (parts.1.map f, parts.2.map f) := by
  fun_induction splitGap? ns with
  | case1 x z r =>
    rw [map_cons, map_cons, map_cons, splitGap?, if_pos ((hf "").mpr rfl)]
    rfl
  | case2 x y z r hs ih =>
    rw [map_cons, map_cons, map_cons, splitGap?, if_neg (mt (hf y).mp hs)]
    simp only [map_cons] at ih
    rw [ih, Option.map_map, Option.map_map]
    rfl
  | case3 ns hn =>
    match ns with
    | [] | [_] | [_, _] => rfl
    | x :: y :: z :: r => exact absurd rfl (hn x y z r)

theorem eq_of_splitGap? (h : splitGap? ns = some (l, r)) : ns = l ++ "" :: r ∧ l ≠ [] := by
  fun_induction splitGap? ns generalizing l r with
  | case1 x z tl =>
    obtain ⟨rfl, rfl⟩ := Prod.mk.inj (Option.some.inj h)
    exact ⟨rfl, cons_ne_nil _ _⟩
  | case2 x y z tl _ ih =>
    obtain ⟨parts, hp, heq⟩ := Option.map_eq_some_iff.mp h
    obtain ⟨rfl, rfl⟩ := Prod.mk.inj heq
    exact ⟨congrArg (x :: ·) (ih hp).1, cons_ne_nil _ _⟩
  | case3 => cases h

end Path

namespace IdForm

open StoryScript.Path (ofSegments segments splitGap?)

theorem splitAtDots?_append {w : List Char} (hw : '.' ∉ w) (t : List Char) :
    splitAtDots? (w ++ t) = (splitAtDots? t).map fun parts ↦ (w ++ parts.1, parts.2) := by
  induction w with
  | nil => simp
  | cons c r ih =>
    obtain ⟨hc, hr⟩ : c ≠ '.' ∧ '.' ∉ r := by
      simpa [eq_comm] using hw
    rw [cons_append, splitAtDots?.eq_2 _ _ fun _ h _ ↦ hc h, ih hr, Option.map_map]
    rfl

theorem splitAtDots?_of_dotless {w : List Char} (hw : '.' ∉ w) : splitAtDots? w = none := by
  have hn := splitAtDots?_append hw []
  rwa [append_nil] at hn

/-- A dot before a word, or before the end. -/
theorem splitAtDots?_dot {t : List Char} (ht : t.head? ≠ some '.') :
    splitAtDots? ('.' :: t) = (splitAtDots? t).map fun parts ↦ ('.' :: parts.1, parts.2) := by
  refine splitAtDots?.eq_2 _ _ fun r _ h ↦ ht ?_
  rw [h]
  rfl

theorem splitAtDots?_ofSegments {ns : List String} (h : ∀ name ∈ ns, '.' ∉ name.toList) :
    splitAtDots? (ofSegments ns).toList =
      (splitGap? ns).map fun parts ↦ ((ofSegments parts.1).toList, (ofSegments parts.2).toList) := by
  fun_induction splitGap? ns with
  | case1 x z r =>
    obtain ⟨hfi, -⟩ := forall_mem_cons.mp h
    rw [ofSegments_cons x (cons_ne_nil _ _), ofSegments_cons "" (cons_ne_nil _ _)]
    simp only [String.toList_append, append_assoc]
    rw [splitAtDots?_append hfi]
    simp [splitAtDots?, ofSegments, Text.join]
  | case2 x y z r hs ih =>
    obtain ⟨hfi, hr⟩ := forall_mem_cons.mp h
    have hh : (ofSegments (y :: z :: r)).toList.head? ≠ some '.' := by
      obtain ⟨c, chars, hch⟩ := exists_cons_of_ne_nil (mt String.toList_eq_nil_iff.mp hs)
      rw [ofSegments_cons y (cons_ne_nil _ _), String.toList_append, String.toList_append, hch]
      have hc := (forall_mem_cons.mp hr).1
      rw [hch] at hc
      rintro heq
      obtain rfl := Option.some.inj heq
      exact hc mem_cons_self
    rw [ofSegments_cons x (cons_ne_nil _ _)]
    simp only [String.toList_append, append_assoc]
    rw [splitAtDots?_append hfi, show ".".toList = ['.'] from rfl, singleton_append,
      splitAtDots?_dot hh, ih hr, Option.map_map, Option.map_map, Option.map_map]
    refine Option.map_congr fun parts hp ↦ ?_
    rw [Function.comp_apply, Function.comp_apply, Function.comp_apply,
      ofSegments_cons x (eq_of_splitGap? hp).2]
    simp
  | case3 ns hn =>
    match ns with
    | [] => rfl
    | [x] => exact splitAtDots?_of_dotless (h x mem_cons_self)
    | [x, y] =>
      have hfi := h x mem_cons_self
      have hs := h y (mem_cons_of_mem _ mem_cons_self)
      have hh : y.toList.head? ≠ some '.' := fun hd ↦ hs (mem_of_head? hd)
      rw [ofSegments_cons x (cons_ne_nil _ _)]
      simp only [String.toList_append, append_assoc]
      rw [splitAtDots?_append hfi, show ".".toList = ['.'] from rfl, singleton_append]
      have hno : splitAtDots? ('.' :: y.toList) = none := by
        rw [splitAtDots?_dot hh, splitAtDots?_of_dotless hs]
        rfl
      exact congrArg (Option.map _) hno
    | x :: y :: z :: r => exact absurd rfl (hn x y z r)

theorem splitAtDots?_eq (path : String) :
    splitAtDots? path.toList = (splitGap? (segments path)).map fun parts ↦
        ((ofSegments parts.1).toList, (ofSegments parts.2).toList) := by
  conv_lhs => rw [← ofSegments_segments path]
  exact splitAtDots?_ofSegments fun _ ↦ dotless_of_mem_segments

theorem toList_of_segments {path x : String} {r : List String}
    (h : segments path = x :: r) (hr : r ≠ []) :
    path.toList = x.toList ++ '.' :: (ofSegments r).toList := by
  conv_lhs => rw [← ofSegments_segments path, h, ofSegments_cons x hr]
  simp

/-- An id with two dots in a row, by its segments. -/
theorem ofId_of_gap {id x : String} {l r tl : List String}
    (hi : '?' ∉ id.toList) (hs : segments id = x :: tl)
    (hg : splitGap? (segments id) = some (l, r)) :
    ofId id =
      if ofSegments l = "" then searched "" (ofSegments r)
      else if x = "" then inScope (ofSegments tl)
      else searched (ofSegments l) (ofSegments r) := by
  have hsp := splitAtDots?_eq id
  rw [hg, Option.map_some] at hsp
  have hr : tl ≠ [] := by
    rintro rfl
    rw [hs] at hg
    cases hg
  have ht := toList_of_segments hs hr
  have hfi : '.' ∉ x.toList := dotless_of_mem_segments (hs ▸ mem_cons_self)
  unfold ofId
  split
  · rename_i hq
    exact absurd (hq ▸ mem_cons_self) hi
  · rw [hsp]
    by_cases hb : ofSegments l = ""
    · rw [if_pos hb, hb]
      simp
    · rw [if_neg hb]
      obtain ⟨c, chars, hc⟩ := exists_cons_of_ne_nil (mt String.toList_eq_nil_iff.mp hb)
      by_cases he : x = ""
      · subst he
        rw [if_pos rfl, ht, hc]
        simp
      · obtain ⟨d, more, hm⟩ := exists_cons_of_ne_nil (mt String.toList_eq_nil_iff.mp he)
        have hd : d ≠ '.' := fun heq ↦ hfi (hm ▸ heq ▸ mem_cons_self)
        rw [if_neg he, ht, hc, hm]
        simp only [cons_append]
        split
        · rename_i heq
          cases heq
        · rename_i heq _
          exact absurd (List.cons.inj heq).1 hd
        · rename_i heq _
          obtain ⟨rfl, rfl⟩ := Prod.mk.inj (Option.some.inj heq)
          rw [← hc, String.ofList_toList, String.ofList_toList]
        · rename_i heq _
          cases heq

end IdForm

namespace Path

variable {dv : String}

/-- The ids that a divert may lead to from a scope, in the order in which they are tried. -/
def targetsOf (sc dv : String) : List String :=
  if isDivertPath dv then
    (ofDivert? dv sc).toList.flatMap fun literal ↦ literal :: if isExplicit dv then [] else
        candidates (names sc) literal
  else
    match ofId dv with
    | .searched start name =>
      candidates (names (if start = "" then sc else start)) name ++ [dv]
    | .inScope name => [within sc name]
    | _ => []

variable {f : String → String}

theorem isDivertPath_eq (hd : '?' ∉ dv.toList) :
    isDivertPath dv = (splitGap? (segments dv)).isNone := by
  unfold isDivertPath
  split
  · rename_i hq
    exact absurd (hq ▸ mem_cons_self) hd
  · rw [splitAtDots?_eq, Option.isNone_map]

theorem isExplicit_eq {x : String} {r : List String} (h : segments dv = x :: r) :
    isExplicit dv =
      (x.toList.head? == some '^' || (x == "" && !r.isEmpty)) := by
  by_cases hr : r = []
  · subst hr
    have hdi : dv = x := by
      rw [← ofSegments_segments dv, h]
      rfl
    have hd : '.' ∉ x.toList := dotless_of_mem_segments (h ▸ mem_cons_self)
    rw [hdi, isExplicit]
    cases hch : x.toList with
    | nil => simp
    | cons c chars =>
      have hc : c ≠ '.' := fun heq ↦ hd (hch ▸ heq ▸ mem_cons_self)
      by_cases hca : c = '^'
      · simp [hca]
      · simp [hc, hca]
  · rw [isExplicit, toList_of_segments h hr]
    cases hch : x.toList with
    | nil =>
      have hfi : x = "" := String.toList_eq_nil_iff.mp hch
      simp [hfi, hr]
    | cons c chars =>
      have hfi : x ≠ "" := by
        rintro rfl
        cases hch
      have hd : '.' ∉ x.toList := dotless_of_mem_segments (h ▸ mem_cons_self)
      have hc : c ≠ '.' := fun heq ↦ hd (hch ▸ heq ▸ mem_cons_self)
      by_cases hca : c = '^'
      · simp [hca]
      · simp [hc, hca, hfi]

theorem Renames.isExplicit_mapSegments (hf : Renames f) (dv : String) :
    isExplicit (mapSegments f dv) = isExplicit dv := by
  obtain ⟨x, r, hs⟩ := exists_cons_of_ne_nil (segments_ne_nil dv)
  have hm := hf.segments_mapSegments dv
  rw [hs, map_cons] at hm
  rw [isExplicit_eq hs, isExplicit_eq hm, Bool.eq_iff_iff]
  simp [hf.caret, hf.eq_empty_iff]

theorem Renames.candidates_map (hf : Renames f) {sc : List String}
    (hs : ∀ name ∈ sc, '.' ∉ name.toList) (name : String) :
    candidates (sc.map f) (mapSegments f name) = (candidates sc name).map (mapSegments f) := by
  unfold candidates
  rw [length_map, map_map]
  refine map_congr_left fun depth _ ↦ ?_
  have hd : ∀ part ∈ sc.take depth ++ segments name, '.' ∉ part.toList :=
    forall_mem_append.mpr ⟨fun part hp ↦ hs part (take_subset _ _ hp),
      fun _ ↦ dotless_of_mem_segments⟩
  have hn : segments name ≠ [] := segments_ne_nil name
  rw [Function.comp_apply, ← map_take]
  conv_rhs => rw [← ofSegments_segments name, ofSegments_append hn]
  rw [hf.mapSegments_ofSegments hd, mapSegments, ofSegments_append (by simpa using hn), map_append]

/-- Renaming where a divert may lead is leading where the renamed divert may. -/
theorem Renames.targetsOf_mapSegments (hf : Renames f) (sc : String)
    (hdi : '?' ∉ dv.toList) (hm : '?' ∉ (mapSegments f dv).toList) :
    targetsOf (mapSegments f sc) (mapSegments f dv) = (targetsOf sc dv).map (mapSegments f) := by
  have hg := splitGap?_map hf.eq_empty_iff (segments dv)
  rw [← hf.segments_mapSegments] at hg
  unfold targetsOf
  rw [isDivertPath_eq hdi, isDivertPath_eq hm, hg, Option.isNone_map, hf.isExplicit_mapSegments]
  cases hsp : splitGap? (segments dv) with
  | none =>
    rw [Option.isNone_none, if_pos rfl, if_pos rfl, hf.ofDivert?_mapSegments]
    cases ofDivert? dv sc with
    | none => rfl
    | some literal =>
      simp only [Option.map_some, Option.toList_some, flatMap_singleton, map_cons]
      rw [hf.names_mapSegments]
      split_ifs
      · rfl
      · rw [hf.candidates_map fun _ ↦ dotless_of_mem_names]
  | some parts =>
    obtain ⟨before, after⟩ := parts
    obtain ⟨first, rest, hs⟩ := exists_cons_of_ne_nil (segments_ne_nil dv)
    have hs' := hf.segments_mapSegments dv
    rw [hs, map_cons] at hs'
    rw [hsp, Option.map_some] at hg
    have hd : ∀ name ∈ segments dv, '.' ∉ name.toList :=
      fun _ ↦ dotless_of_mem_segments
    obtain ⟨hb, ha⟩ := forall_mem_append.mp ((eq_of_splitGap? hsp).1 ▸ hd)
    replace ha := (forall_mem_cons.mp ha).2
    have hr : ∀ name ∈ rest, '.' ∉ name.toList :=
      fun name hn ↦ hd name (hs ▸ mem_cons_of_mem _ hn)
    rw [Option.isNone_some, if_neg Bool.false_ne_true, if_neg Bool.false_ne_true,
      ofId_of_gap hdi hs hsp, ofId_of_gap hm hs' hg,
      ← hf.mapSegments_ofSegments hb, ← hf.mapSegments_ofSegments ha,
      ← hf.mapSegments_ofSegments hr]
    simp only [hf.mapSegments_eq_empty_iff, hf.eq_empty_iff]
    split_ifs with he hfi
    · simp [hf.names_mapSegments, hf.candidates_map fun _ ↦ dotless_of_mem_names]
    · simp [hf.mapSegments_within]
    · simp [hf.mapSegments_eq_empty_iff, he, hf.names_mapSegments,
        hf.candidates_map fun _ ↦ dotless_of_mem_names]

end Path

namespace Context

variable (ctx : Context) (bs : Keys String)

/-- Whether a divert leads to an id that is known. -/
def leads (sc dv : String) : Bool :=
  (ctx.resolveReference bs (ofUse .divert dv) false sc).any (ctx.knows bs)

variable {sc dv : String}

/-- A divert leads to a known id if it may lead to one. -/
theorem leads_iff (he : last dv ≠ "") (hpa : last dv ≠ parent)
    (hd : '?' ∉ dv.toList) :
    ctx.leads bs sc dv = true ↔ ∃ id ∈ targetsOf sc dv, ctx.knows bs id = true := by
  have hr : ∀ id, id ∈ ctx.resolveReference bs (ofUse .divert dv)
      false sc ↔ (if isDivertPath dv then ctx.resolveDivert? bs sc dv
        else ctx.resolveId? bs (ofUse .divert dv) sc dv) = some id := by
    intro id
    rw [resolveReference, mem_distinct]
    simp [ofUse, isDivert]
  simp only [leads, any_eq_true, hr]
  unfold targetsOf
  by_cases hp : isDivertPath dv = true
  · simp only [hp, if_true, resolveDivert?]
    cases hl : ofDivert? dv sc with
    | none => simp
    | some literal =>
      have hn : literal ≠ "" := by
        rintro rfl
        exact he ((last_ofDivert? he hpa hl).symm.trans (by decide))
      simp only [Option.map_some, Option.some.injEq, exists_eq_left', Option.toList_some,
        flatMap_singleton, exists_mem_cons_iff, lookup?, if_neg hn]
      by_cases hk : ctx.knows bs literal = true
      · simp [hk]
      by_cases hex : isExplicit dv = true
      · simp [hk, hex]
      · simp only [hk, hex, Bool.false_eq_true, if_false, false_or]
        cases hfi : (candidates (names sc) literal).find? (ctx.knows bs) with
        | none => simpa [hk] using hfi
        | some fd =>
          simp only [Option.getD_some, find?_some hfi, true_iff]
          exact ⟨fd, mem_of_find?_eq_some hfi, find?_some hfi⟩
  · simp only [hp, Bool.false_eq_true, if_false, resolveId?]
    cases hfo : ofId dv with
    | inferred => simp [ofUse]
    | inScope name => simp
    | literal =>
      -- Two dots in a row stand for a search, or for a name within the scope.
      obtain ⟨x, tl, hs⟩ := exists_cons_of_ne_nil (segments_ne_nil dv)
      rw [isDivertPath_eq hd, Option.isNone_iff_eq_none] at hp
      obtain ⟨⟨before, r⟩, hg⟩ := Option.ne_none_iff_exists'.mp hp
      rw [ofId_of_gap hd hs hg] at hfo
      split_ifs at hfo
    | searched start name =>
      have hn : name ≠ "" := by
        rintro rfl
        refine he ?_
        rw [eq_of_ofId_searched hfo]
        exact (last_append _ _).trans (by decide)
      simp only [lookup?, if_neg hn]
      cases hfi : (candidates (names (if start = "" then sc else start)) name).find?
          (ctx.knows bs) with
      | none =>
        have hno : ∀ id ∈ candidates (names (if start = "" then sc else start)) name,
            ctx.knows bs id = false := by
          simpa using hfi
        simp only [Option.some.injEq, exists_eq_left', mem_append, mem_singleton]
        constructor
        · exact fun hk ↦ ⟨dv, Or.inr rfl, hk⟩
        · rintro ⟨id, hi | rfl, hk⟩
          · rw [hno id hi] at hk
            cases hk
          · exact hk
      | some fd =>
        simp only [Option.some.injEq, exists_eq_left', find?_some hfi, true_iff]
        exact ⟨fd, mem_append_left _ (mem_of_find?_eq_some hfi), find?_some hfi⟩

end Context

end StoryScript
