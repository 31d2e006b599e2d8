import Mathlib.Data.List.Induction
import Mathlib.Data.List.TakeDrop
import StoryScript.Proofs.Percent
import StoryScript.Uri.Parse

/-!
Files beside a file. The parts of a uri are read off its text (`Uri.isComposed_ofParts` says when they
are those it was put together from), so another last segment changes only the path
(`Uri.parts_beside`), and a plain name leads to the file of that name in the directory of the uri that
it is joined to (`Uri.join?_name`). That file is in the form that reading gives, too
(`Uri.isComposed_join?`).
-/

namespace StoryScript

open List Percent UriPath

namespace Text

variable {c : Char} {t : List Char}

theorem span_ne_append (h : c ∉ t) (r : List Char) : (t ++ c :: r).span (· ≠ c) = (t, c :: r) := by
  have hn : ∀ d ∈ t, decide (d ≠ c) = true :=
    fun d hd ↦ decide_eq_true (ne_of_mem_of_not_mem hd h)
  rw [span_eq_takeWhile_dropWhile, takeWhile_append_of_pos hn, dropWhile_append_of_pos hn]
  simp

theorem span_ne_of_not_mem (h : c ∉ t) : t.span (· ≠ c) = (t, []) := by
  have hn : ∀ d ∈ t, decide (d ≠ c) = true :=
    fun d hd ↦ decide_eq_true (ne_of_mem_of_not_mem hd h)
  rw [span_eq_takeWhile_dropWhile, takeWhile_eq_self_iff.mpr hn, dropWhile_eq_nil_iff.mpr hn]

end Text

namespace UriPath

theorem text_cons (s : String) (ss : List String) :
    (rooted (s :: ss)).text.toList = '/' :: (s.toList ++ (rooted ss).text.toList) := by
  simp [text, String.toList_join]

variable {ss : List String}

theorem mem_text {c : Char} : c ∈ (rooted ss).text.toList ↔ ∃ s ∈ ss, c = '/' ∨ c ∈ s.toList := by
  simp [text, String.toList_join]

theorem eq_of_text_eq (h : ∀ s ∈ ss, '/' ∉ s.toList) {r : List Char}
    (ht : (rooted ss).text.toList = '/' :: '/' :: r) : ∃ s tl, ss = "" :: s :: tl := by
  rcases ss with _ | ⟨x, ss⟩
  · simp [text] at ht
  · rw [text_cons, cons.injEq] at ht
    rcases hc : x.toList with _ | ⟨c, cs⟩
    · obtain rfl : x = "" := by simpa using hc
      rcases ss with _ | ⟨s, ss⟩
      · simp [text] at ht
      · exact ⟨s, ss, rfl⟩
    · rw [hc, cons_append, cons.injEq] at ht
      exact absurd (by simp [hc, ht.2.1]) (h x mem_cons_self)

/-- Segments behind a text are the last ones of the path. -/
theorem ofRooted_append (path : List Char) (h : ∀ s ∈ ss, '/' ∉ s.toList) :
    ofRooted (path ++ (rooted ss).text.toList) =
      .rooted (((path.splitOn '/').drop 1).map String.ofList ++ ss) := by
  induction ss generalizing path with
  | nil => simp [ofRooted, text]
  | cons s ss ih =>
    obtain ⟨hs, hss⟩ := forall_mem_cons.mp h
    rw [text_cons, ← cons_append, ← append_assoc, ih _ hss, splitOn_append_cons_self,
      splitOn_eq_singleton hs,
      drop_append_of_le_length (length_pos_of_ne_nil (splitOn_ne_nil _ _))]
    simp

end UriPath

namespace UriParts

variable {t : List Char} {parts : UriParts}

/-- The segments of a path have no slashes. -/
theorem slashless_of_placeOf {ss : List String} (h : (placeOf t).2 = .rooted ss) :
    ∀ s ∈ ss, '/' ∉ s.toList := by
  have hr : ∀ path, ofRooted path = .rooted ss → ∀ s ∈ ss, '/' ∉ s.toList := by
    rintro path ⟨⟩ s hse hsl
    obtain ⟨p, hp, rfl⟩ := mem_map.mp hse
    simpa using Text.eq_false_of_mem_splitOnP (mem_of_mem_drop hp) '/' (by simpa using hsl)
  revert h
  fun_cases placeOf t with
  | case1 => exact hr _
  | case2 => exact hr _
  | case3 => exact hr _
  | case4 => rintro ⟨⟩

/-- An authority and the segments of a path that are read back from their text. Without an authority
there is a segment, and a dot before an empty one and another would be the mark of a path without
authority. -/
structure Legible (place : Option Authority) (ss : List String) : Prop where
  authority : ∀ a ∈ place, '/' ∉ a.text.toList ∧ Authority.ofText a.text.toList = a
  slashless : ∀ s ∈ ss, '/' ∉ s.toList
  undotted : place = none → ss ≠ [] ∧ ∀ s tl, ss ≠ "." :: "" :: s :: tl

variable {scheme : String} {a : Authority} {ss : List String} {q f : Option String}

theorem placeOf_some (hs : ∀ s ∈ ss, '/' ∉ s.toList) :
    placeOf (authorityText ⟨scheme, some a, .rooted ss, q, f⟩ ++ (rooted ss).text).toList =
        (some a, .rooted ss) ↔ '/' ∉ a.text.toList ∧ Authority.ofText a.text.toList = a := by
  have hpl : (authorityText ⟨scheme, some a, .rooted ss, q, f⟩ ++ (rooted ss).text).toList =
        '/' :: '/' :: (a.text.toList ++ (rooted ss).text.toList) := by
    simp [authorityText]
  by_cases ha : '/' ∈ a.text.toList
  · -- A slash in the authority would make the path longer.
    refine iff_of_false (fun h ↦ ?_) fun h ↦ h.1 ha
    obtain ⟨x, y, he, hx⟩ := eq_append_cons_of_mem ha
    rw [hpl, he, append_assoc, placeOf, cons_append, Text.span_ne_append hx, ← cons_append] at h
    have hl := congrArg Prod.snd h
    dsimp only at hl
    rw [ofRooted_append _ hs, rooted.injEq] at hl
    have hy := splitOn_append_cons_self [] y (a := '/')
    rw [nil_append] at hy
    simpa [hy, splitOn_ne_nil] using congrArg length hl
  · have hsp : (a.text.toList ++ (rooted ss).text.toList).span (· ≠ '/') =
        (a.text.toList, (rooted ss).text.toList) := by
      cases ss with
      | nil => exact (congrArg (span _) (append_nil _)).trans (Text.span_ne_of_not_mem ha)
      | cons s ss => rw [text_cons, Text.span_ne_append ha]
    have ho := ofRooted_append [] hs
    rw [nil_append] at ho
    rw [hpl, placeOf, hsp]
    simp [ho, ha]

theorem placeOf_slash (hsl : ∀ r, t ≠ '/' :: r) (hd : ∀ r, t ≠ '.' :: '/' :: '/' :: r) :
    placeOf ('/' :: t) = (none, .ofRooted ('/' :: t)) := by
  rw [placeOf.eq_def]
  split <;> simp_all

theorem placeOf_none (hs : ∀ s ∈ ss, '/' ∉ s.toList) :
    placeOf (authorityText ⟨scheme, none, .rooted ss, q, f⟩ ++ (rooted ss).text).toList =
        (none, .rooted ss) ↔ ss ≠ [] ∧ ∀ s tl, ss ≠ "." :: "" :: s :: tl := by
  have ho : ∀ {ss}, (∀ s ∈ ss, '/' ∉ s.toList) → .ofRooted (rooted ss).text.toList =
      rooted ss := ofRooted_append []
  by_cases hm : ∃ s tl, ss = "" :: s :: tl
  · obtain ⟨s, tl, rfl⟩ := hm
    refine iff_of_true (Prod.ext_iff.mpr ⟨?_, ?_⟩) (by simp)
    · simp [authorityText, text_cons, placeOf]
    · simpa [authorityText, text_cons, placeOf] using ho hs
  have ht : authorityText ⟨scheme, none, .rooted ss, q, f⟩ = "" := by
    unfold authorityText
    split <;> simp_all
  rw [ht, String.empty_append]
  rcases ss with _ | ⟨x, tl⟩
  · simp [UriPath.text, placeOf]
  obtain ⟨hx, htl⟩ := forall_mem_cons.mp hs
  by_cases hd : x = "." ∧ ∃ s ss, tl = "" :: s :: ss
  · -- The dot is taken for the mark, and the path is shorter.
    obtain ⟨rfl, s, ss, rfl⟩ := hd
    have hn := ho htl
    simp only [text_cons, String.toList_empty, nil_append] at hn
    simp [text_cons, placeOf, hn]
  · refine iff_of_true ?_ ⟨cons_ne_nil _ _, ?_⟩
    · have hp := ho hs
      rw [text_cons] at hp ⊢
      refine (placeOf_slash (fun r he ↦ hm ?_) fun r he ↦ ?_).trans (Prod.ext rfl hp)
      · exact eq_of_text_eq hs ((text_cons x tl).trans (congrArg _ he))
      · rcases hc : x.toList with _ | ⟨c, _ | ⟨d, ds⟩⟩ <;> rw [hc] at he
        · cases tl <;> simp [UriPath.text] at he
        · obtain ⟨rfl, htx⟩ := cons.inj he
          exact hd ⟨String.toList_inj.mp hc, eq_of_text_eq htl htx⟩
        · simp only [cons_append, cons.injEq] at he
          exact hx (by simp [hc, he.2.1])
    · rintro s ss ⟨⟩
      exact hd ⟨rfl, s, ss, rfl⟩

/-- When an authority and a path are read back from their text. -/
theorem placeOf_iff (hp : parts.path = .rooted ss) :
    placeOf (parts.authorityText ++ parts.path.text).toList = (parts.authority, parts.path) ↔
      Legible parts.authority ss := by
  obtain ⟨scheme, authority, path, q, f⟩ := parts
  obtain rfl : path = _ := hp
  refine ⟨fun h ↦ ?_, fun h ↦ ?_⟩
  · have hs := slashless_of_placeOf (congrArg Prod.snd h)
    cases authority with
    | none => exact ⟨nofun, hs, fun _ ↦ (placeOf_none hs).mp h⟩
    | some a => exact ⟨fun _ ha ↦ Option.some.inj ha ▸ (placeOf_some hs).mp h, hs, nofun⟩
  · cases authority with
    | none => exact (placeOf_none h.slashless).mpr (h.undotted rfl)
    | some a => exact (placeOf_some h.slashless).mpr (h.authority a rfl)

/-- When neither an authority nor a path has a mark of a query or a fragment. -/
theorem unmarked_iff (hp : parts.path = .rooted ss) :
    (∀ c ∈ (parts.authorityText ++ parts.path.text).toList, Uri.endsPath c = false) ↔
      (∀ a ∈ parts.authority, ∀ c ∈ a.text.toList, Uri.endsPath c = false) ∧
        ∀ s ∈ ss, ∀ c ∈ s.toList, Uri.endsPath c = false := by
  have ht : (∀ c ∈ parts.path.text.toList, Uri.endsPath c = false) ↔
      ∀ s ∈ ss, ∀ c ∈ s.toList, Uri.endsPath c = false := by
    simp only [hp, mem_text]
    refine ⟨fun h s hs c hc ↦ h c ⟨s, hs, .inr hc⟩, ?_⟩
    rintro h c ⟨s, hs, rfl | hc⟩
    · rfl
    · exact h s hs c hc
  rw [String.toList_append, forall_mem_append, ht]
  refine and_congr_left fun _ ↦ ?_
  unfold authorityText
  split <;> simp [*, Uri.endsPath]

/-- The last segments of a path may be changed. An empty segment may not get another one behind it. -/
theorem Legible.concat {place : Option Authority} {front tl : List String} {new : String}
    (h : Legible place (front ++ tl)) (hr : tl = [] → front.getLast? ≠ some "")
    (hn : '/' ∉ new.toList) : Legible place (front ++ [new]) := by
  refine ⟨h.authority, forall_mem_append.mpr ⟨fun s hs ↦ h.slashless s (mem_append_left _ hs),
    forall_mem_singleton.mpr hn⟩, fun hnone ↦ ⟨concat_ne_nil _ _, fun s ss he ↦ ?_⟩⟩
  rcases front with _ | ⟨x, _ | ⟨y, front⟩⟩ <;> simp only [cons_append, nil_append, cons.injEq,
    reduceCtorEq, and_false] at he
  obtain ⟨rfl, rfl, -⟩ := he
  rcases hf : front ++ tl with _ | ⟨z, zs⟩
  · obtain ⟨rfl, rfl⟩ := append_eq_nil_iff.mp hf
    exact hr rfl rfl
  · exact (h.undotted hnone).2 z zs (by simp [hf])

/-- Parts that are read back from the text of their uri. -/
structure IsSound (p : UriParts) : Prop where
  scheme : ':' ∉ p.scheme.toList
  place : placeOf (p.authorityText ++ p.path.text).toList = (p.authority, p.path)
  unmarked : ∀ c ∈ (p.authorityText ++ p.path.text).toList, Uri.endsPath c = false
  query : ∀ q ∈ p.query, '#' ∉ q.toList

theorem IsSound.ofText_text {p : UriParts} (h : p.IsSound) : ofText p.text = p := by
  obtain ⟨scheme, authority, path, q, f⟩ := p
  obtain ⟨hs, hp, hu, hq⟩ := h
  dsimp only at hs hp hq
  generalize ht : (authorityText ⟨scheme, authority, path, q, f⟩ ++ path.text).toList = t at hp hu
  have hfr : '#' ∉ t := fun hm ↦ by cases hu _ hm
  have hqu : '?' ∉ t := fun hm ↦ by cases hu _ hm
  have htx : (text ⟨scheme, authority, path, q, f⟩).toList = scheme.toList ++ ':' :: (t ++
      ((q.elim [] fun q ↦ '?' :: q.toList) ++ f.elim [] fun f ↦ '#' :: f.toList)) := by
    rw [← ht]
    cases q <;> cases f <;> simp [text, authorityText]
  have hsp {c : Char} {t : List Char} (h : c ∉ t) (o : Option String) :
      (t ++ o.elim [] fun s ↦ c :: s.toList).span (· ≠ c) = (t, o.elim [] fun s ↦ c :: s.toList) := by
    cases o with
    | none => exact (congrArg (span _) (append_nil t)).trans (Text.span_ne_of_not_mem h)
    | some s => exact Text.span_ne_append h s.toList
  have hfq : '#' ∉ t ++ q.elim [] fun q ↦ '?' :: q.toList := by
    cases q with
    | none => simpa using hfr
    | some q => simpa [hfr] using hq q rfl
  rw [ofText, htx, Text.span_ne_append hs]
  simp only [drop_succ_cons, drop_zero]
  rw [← append_assoc, hsp hfq]
  simp only [hsp hqu, hp]
  cases q <;> cases f <;> simp

end UriParts

namespace Uri

/-- A uri in the form that reading gives it: its authority and path are read back from their text,
which has no marks of a query or a fragment, and the path of a file has no empty segments at its
front. -/
structure IsComposed (u : Uri) : Prop where
  place : UriParts.placeOf (u.parts.authorityText ++ u.parts.path.text).toList =
    (u.parts.authority, u.parts.path)
  unmarked : ∀ c ∈ (u.parts.authorityText ++ u.parts.path.text).toList, endsPath c = false
  front : u.parts.scheme = "file" → ∀ segments ∈ u.segments?, segments.head? = some "" →
    segments.length = 1

instance (u : Uri) : Decidable u.IsComposed :=
  decidable_of_iff (_ ∧ _ ∧ _) ⟨fun h ↦ ⟨h.1, h.2.1, h.2.2⟩, fun h ↦ ⟨h.1, h.2, h.3⟩⟩

/-- Parts that are read back make a composed uri. -/
theorem isComposed_ofParts {p : UriParts} (h : p.IsSound) (hf : p.scheme = "file" →
    ∀ ss, p.path = .rooted ss → ss.head? = some "" → ss.length = 1) : (ofParts p).IsComposed := by
  have hp : (ofParts p).parts = p := h.ofText_text
  refine ⟨by rw [hp]; exact h.place, by rw [hp]; exact h.unmarked, ?_⟩
  rw [segments?, hp]
  intro hs ss hm
  split at hm
  · cases hm
  · rename_i hr
    exact Option.some.inj hm ▸ hf hs _ hr

/-- The directory of a uri's file: the scheme, the authority and all segments but the last. -/
def folder (u : Uri) : String × Option Authority × List String :=
  (u.parts.scheme, u.parts.authority, (u.segments?.getD []).dropLast)

/-- The uri of a file in the directory of another, by the last segment of its path. -/
def beside (u : Uri) (last : String) : Uri :=
  ofParts
    { scheme := u.folder.1
      authority := u.folder.2.1
      path := .rooted (u.folder.2.2 ++ [last]) }

/-- The uri of a file at the place of another, by the segments of its directory and the last one of
its path. -/
def within (u : Uri) (dirs : List String) (last : String) : Uri :=
  ofParts { scheme := u.parts.scheme, authority := u.parts.authority, path := .rooted (dirs ++ [last]) }

/-- Segments that lead to a directory around a uri, or to the uri itself unless they end with a
slash. -/
def Leads (u : Uri) (dirs : List String) : Prop :=
  ∃ r, u.segments? = some (dirs ++ r) ∧ (r = [] → dirs.getLast? ≠ some "")

variable {u : Uri} {front dirs : List String} {last new : String}

theorem path_eq {ss : List String} (hs : u.segments? = some ss) : u.parts.path = .rooted ss := by
  unfold segments? at hs
  split at hs
  · cases hs
  · rename_i segments hp
    rw [hp, Option.some.inj hs]

theorem leads_front (hs : u.segments? = some (front ++ [last])) : u.Leads front :=
  ⟨[last], hs, fun h ↦ by cases h⟩

theorem beside_eq (hs : u.segments? = some (front ++ [last])) (new : String) :
    u.beside new = u.within front new := by
  rw [beside, folder, hs, Option.getD_some, dropLast_concat, within]

/-- The parts of a place at that of another are read back. -/
theorem isSound_within (h : u.IsComposed) (hl : u.Leads dirs)
    (hn : ∀ c ∈ new.toList, c ≠ '/' ∧ endsPath c = false) :
    UriParts.IsSound
      { u.parts with path := .rooted (dirs ++ [new]), query := none, fragment := none } := by
  obtain ⟨r, hs, hr⟩ := hl
  have hp := (UriParts.placeOf_iff (path_eq hs)).mp h.place
  obtain ⟨ha, hu⟩ := (UriParts.unmarked_iff (path_eq hs)).mp h.unmarked
  refine ⟨fun hm ↦ ?_, (UriParts.placeOf_iff rfl).mpr (hp.concat hr fun hm ↦ (hn _ hm).1 rfl),
    (UriParts.unmarked_iff rfl).mpr ⟨ha, ?_⟩, nofun⟩
  · rw [parts, UriParts.ofText, String.toList_ofList, span_eq_takeWhile_dropWhile] at hm
    simpa using mem_takeWhile_imp hm
  · exact forall_mem_append.mpr ⟨fun s hm ↦ hu s (mem_append_left _ hm),
      forall_mem_singleton.mpr fun c hc ↦ (hn c hc).2⟩

theorem parts_within (h : u.IsComposed) (hl : u.Leads dirs)
    (hn : ∀ c ∈ new.toList, c ≠ '/' ∧ endsPath c = false) : (u.within dirs new).parts =
      { u.parts with path := .rooted (dirs ++ [new]), query := none, fragment := none } :=
  (isSound_within h hl hn).ofText_text

theorem Leads.head?_ne (h : u.IsComposed) (hl : u.Leads dirs) (hf : u.parts.scheme = "file") :
    dirs.head? ≠ some "" := by
  obtain ⟨r, hs, hr⟩ := hl
  rcases dirs with _ | ⟨x, dirs⟩
  · simp
  · rintro ⟨⟩
    have hl := h.front hf _ hs rfl
    rw [cons_append, length_cons, Nat.add_eq_right, length_eq_zero_iff, append_eq_nil_iff] at hl
    obtain ⟨rfl, rfl⟩ := hl
    exact hr rfl rfl

theorem isComposed_within (h : u.IsComposed) (hl : u.Leads dirs)
    (hn : ∀ c ∈ new.toList, c ≠ '/' ∧ endsPath c = false) : (u.within dirs new).IsComposed := by
  refine isComposed_ofParts (isSound_within h hl hn) fun hf ss hss hh ↦ ?_
  obtain rfl := rooted.inj hss
  cases dirs with
  | nil => rfl
  | cons x dirs => exact (hl.head?_ne h hf hh).elim

theorem parts_beside (hs : u.segments? = some (front ++ [last])) (h : u.IsComposed)
    (hn : ∀ c ∈ new.toList, c ≠ '/' ∧ endsPath c = false) : (u.beside new).parts =
      { u.parts with path := .rooted (front ++ [new]), query := none, fragment := none } := by
  rw [beside_eq hs, parts_within h (leads_front hs) hn]

/-- Characters that neither separate nor encode anything. -/
def IsPlain (c : Char) : Prop :=
  0x20 < c.toNat ∧ c ∉ [':', '/', '\\', '?', '#', '%']

instance (c : Char) : Decidable (IsPlain c) :=
  inferInstanceAs (Decidable (_ ∧ _))

theorem isPlain_of_isAlphanum {c : Char} (h : c.isAlphanum = true) :
    (IsPlain c ∧ c ≠ '.') ∧ inPath c = false := by
  have ha : ∀ n < 0x80, (Char.ofNat n).isAlphanum = true →
      (IsPlain (Char.ofNat n) ∧ Char.ofNat n ≠ '.') ∧ inPath (Char.ofNat n) = false := by
    decide +kernel
  have hc := Script.isAlphanum_iff.mp h
  simpa using ha c.toNat (by omega) (by simpa using h)

theorem dropEmptyFront_concat (h : dirs.head? ≠ some "") (new : String) :
    dropEmptyFront (dirs ++ [new]) = dirs ++ [new] := by
  cases dirs with
  | nil => simp [dropEmptyFront]
  | cons x r =>
    have hx : x ≠ "" := fun hx ↦ h (hx ▸ rfl)
    simp [dropEmptyFront, hx]

section

variable {s : String} {b e : List Char}
  (h : s.toList = b ++ '.' :: e) (hb : b ≠ []) (he : e ≠ [])
include h hb he

theorem isDrive_of_inner_dot : isDrive s = false := by
  have hl : 2 < s.toList.length := by
    have hf := length_pos_of_ne_nil hb
    have hla := length_pos_of_ne_nil he
    simp only [h, length_append, length_cons]
    omega
  unfold isDrive
  split
  · rename_i heq
    rw [heq] at hl
    cases hl.ne rfl
  · rfl

/-- A dot between other characters makes no dot segment. -/
theorem isDot_of_inner_dot : isDot s = false ∧ isDoubleDot s = false := by
  have hi : '.' ∈ (lower s).toList.tail.dropLast := by
    obtain ⟨c, r, rfl⟩ := exists_cons_of_ne_nil hb
    simp [lower, h, dropLast_append_of_ne_nil, dropLast_cons_of_ne_nil, he]
  have hn : ∀ dots ∈ [".", "%2e"] ++ ["..", ".%2e", "%2e.", "%2e%2e"],
      '.' ∉ dots.toList.tail.dropLast := by decide
  exact ⟨decide_eq_false fun hm ↦ hn _ (mem_append_left _ hm) hi,
    decide_eq_false fun hm ↦ hn _ (mem_append_right _ hm) hi⟩

end

/-- A name that is a segment of a path: without separators, marks and percent signs, without blanks at
its ends, and neither a dot segment nor a drive. -/
structure IsName (name : List Char) : Prop where
  ne_nil : name ≠ []
  clean : clean name = name
  plain : ∀ c ∈ name, c ∉ ['\t', ':', '/', '\\', '?', '#', '%']
  isDot : isDot (encode inPath name) = false
  isDoubleDot : isDoubleDot (encode inPath name) = false
  isDrive : isDrive (encode inPath name) = false

instance (name : List Char) : Decidable (IsName name) :=
  decidable_of_iff (_ ∧ _ ∧ _ ∧ _ ∧ _ ∧ _)
    ⟨fun h ↦ ⟨h.1, h.2.1, h.2.2.1, h.2.2.2.1, h.2.2.2.2.1, h.2.2.2.2.2⟩,
      fun h ↦ ⟨h.1, h.2, h.3, h.4, h.5, h.6⟩⟩

namespace IsName

variable {name : List Char} (h : IsName name)
include h

theorem not_mem {c : Char} (hc : c ∈ ['\t', ':', '/', '\\', '?', '#', '%']) : c ∉ name :=
  fun hm ↦ h.plain c hm hc

theorem splitScheme?_eq : splitScheme? name = none := by
  unfold splitScheme?
  dsimp only
  split
  · rename_i heq
    exact absurd (mem_of_mem_drop (heq ▸ mem_cons_self)) (h.not_mem (by decide))
  · rfl

theorem plain_eq : Uri.plain name = name := by
  refine filter_eq_self.mpr fun c hc ↦ decide_eq_true ?_
  rintro rfl
  exact h.not_mem (by decide) hc

/-- Nothing in the name is a slash or ends a path. -/
theorem isSlash_eq {c : Char} (hc : c ∈ name) (k : SchemeKind) :
    k.isSlash c = false ∧ endsPath c = false := by
  have hn := h.plain c hc
  simp only [mem_cons, not_or] at hn
  simp [SchemeKind.isSlash, endsPath, hn]

theorem unseparated_encode : ∀ c ∈ (encode inPath name).toList, c ≠ '/' ∧ endsPath c = false :=
  forall_mem_encode (fun _ hm _ ↦ ⟨ne_of_mem_of_not_mem hm (h.not_mem (by decide)),
    (h.isSlash_eq hm .other).2⟩) (by decide) (by decide)

theorem startsWithDrive_eq : startsWithDrive .file name = false := by
  have hp : name.takeWhile (fun c ↦ !(SchemeKind.file.isSlash c || endsPath c)) = name :=
    takeWhile_eq_self_iff.mpr fun c hc ↦ by simp [h.isSlash_eq hc .file]
  rw [startsWithDrive, hp, h.plain_eq, Bool.eq_false_iff]
  intro hd
  -- A drive stays as it is.
  have hs : ∀ c ∈ name, inPath c = false := by
    unfold Uri.isDrive at hd
    split at hd
    · rename_i letter mark heq
      rw [String.toList_ofList] at heq
      simp only [Bool.and_eq_true, Bool.or_eq_true, beq_iff_eq] at hd
      rw [heq]
      simp only [forall_mem_cons]
      refine ⟨(isPlain_of_isAlphanum (by simp [Char.isAlphanum, hd.1])).2, ?_, by simp⟩
      rcases hd.2 with rfl | rfl <;> decide
    · cases hd
  exact absurd hd (by simpa [encode_eq_self hs] using h.isDrive)

theorem follow_eq (k : SchemeKind) (path : OpenPath) (ht : path.tail = "") :
    (path.follow k name).segments = path.done ++ [encode inPath name] := by
  have hsp : name.splitOnP k.isSlash = [name] :=
    splitOnP_eq_singleton fun c hc ↦ by simp [h.isSlash_eq hc k]
  have ha : path.append k name = { path with tail := encode inPath name } := by
    unfold OpenPath.append
    rw [h.plain_eq, ht]
    split_ifs
    · split
      · exact absurd (mem_cons_of_mem _ mem_cons_self) (h.not_mem (c := ':') (by decide))
      · simp [h.isDrive]
      · exact absurd rfl h.ne_nil
    · simp
  rw [OpenPath.follow, hsp, OpenPath.descend, OpenPath.addSegment, h.plain_eq, ht]
  simp [isNormalDrive, h.isDot, h.isDoubleDot, ha, OpenPath.segments]

end IsName

/-- A name of plain characters with an extension of letters and digits. -/
structure IsFileName (name b e : List Char) : Prop where
  eq : name = b ++ '.' :: e
  base_ne : b ≠ []
  extension_ne : e ≠ []
  plain : ∀ c ∈ name, IsPlain c
  isAlphanum : ∀ c ∈ e, c.isAlphanum = true

namespace IsFileName

variable {name b e : List Char} (h : IsFileName name b e)
include h

theorem not_mem {c : Char} (hc : c ∈ [':', '/', '\\', '?', '#', '%']) : c ∉ name :=
  fun hm ↦ (h.plain c hm).2 hc

theorem clean_eq : clean name = name := by
  have hed : ∀ t : List Char, (∀ c ∈ t, c ∈ name) →
      t.dropWhile (fun c ↦ decide (c.toNat ≤ 0x20)) = t := by
    intro t ht
    refine dropWhile_eq_self_iff.mpr fun hle ↦ ?_
    simpa using (h.plain _ (ht _ (getElem_mem hle))).1
  have hk : ∀ t : List Char, (∀ c ∈ t, c ∈ name) → dropIgnored t = t := by
    intro t ht
    induction t with
    | nil => rfl
    | cons c r ih =>
      obtain ⟨hc, hr⟩ := forall_mem_cons.mp ht
      have hl := (h.plain c hc).1
      have hco : c ≠ ':' := ne_of_mem_of_not_mem hc (h.not_mem (by decide))
      have hi : isIgnored c = false := by
        unfold isIgnored
        rw [Bool.eq_false_iff]
        intro ho
        simp only [Bool.or_eq_true, beq_iff_eq] at ho
        rcases ho with (rfl | rfl) | rfl <;> exact absurd hl (by decide)
      simp [dropIgnored, hi, hco, ih hr]
  rw [clean, Text.trimEndWhile, hed name fun _ ↦ id, hed _ fun _ ↦ mem_reverse.mp,
    reverse_reverse, hk name fun _ ↦ id]

theorem encode_eq : (encode inPath name).toList = (encode inPath b).toList ++ '.' :: e := by
  have hse : ∀ c ∈ '.' :: e, inPath c = false :=
    forall_mem_cons.mpr ⟨by decide, fun c hc ↦ (isPlain_of_isAlphanum (h.isAlphanum c hc)).2⟩
  rw [h.eq, encode_append, encode_eq_self hse, String.toList_append, String.toList_ofList]

theorem isName : IsName name := by
  have hb : (encode inPath b).toList ≠ [] := encode_ne_nil
    (fun hm ↦ h.not_mem (c := '%') (by decide) (h.eq ▸ mem_append_left _ hm)) h.base_ne
  obtain ⟨hd, hdo⟩ := isDot_of_inner_dot h.encode_eq hb h.extension_ne
  refine ⟨by simp [h.eq], h.clean_eq, fun c hc ↦ ?_, hd, hdo,
    isDrive_of_inner_dot h.encode_eq hb h.extension_ne⟩
  rw [mem_cons, not_or]
  refine ⟨?_, (h.plain c hc).2⟩
  rintro rfl
  exact absurd (h.plain _ hc).1 (by decide)

end IsFileName

/-! ### Joining -/

variable {ss : List String} {t : List Char}

/-- A relative path leads on from the directory of a uri. -/
theorem sibling_eq (h : u.IsComposed) (hs : u.segments? = some ss)
    (ht : ∀ c ∈ t, endsPath c = false) (hl : u.Leads dirs)
    (hf : ((directory (.of u.parts.scheme) ss).follow (.of u.parts.scheme) t).segments =
      dirs ++ [new]) : u.sibling t = u.within dirs new := by
  have hp : t.takeWhile (!endsPath ·) = t :=
    takeWhile_eq_self_iff.mpr fun c hc ↦ by simp [ht c hc]
  have hk : (if SchemeKind.of u.parts.scheme = .file then dropEmptyFront (dirs ++ [new])
      else dirs ++ [new]) = dirs ++ [new] := by
    split_ifs with hfi
    · refine dropEmptyFront_concat (hl.head?_ne h ?_) _
      unfold SchemeKind.of at hfi
      split_ifs at hfi with hsc
      exact hsc
    · rfl
  rw [sibling, withPathFrom, hp, drop_length, hs, Option.getD_some, OpenPath.toPath, hf, hk]
  rfl

/-- What starts with neither a scheme, a slash, a mark nor a drive is a relative path. -/
theorem join?_eq_sibling (hs : u.segments? = some ss) (hc : clean t = t)
    (hsc : splitScheme? t = none) (hd : startsWithDrive .file t = false)
    (hf : ∃ c ∈ t.head?, c ∉ ['/', '\\', '?', '#']) :
    u.join? (String.ofList t) = some (u.sibling t) := by
  obtain ⟨c, hh, hne⟩ := hf
  obtain ⟨r, rfl⟩ : ∃ r, t = c :: r := by
    cases t with
    | nil => cases hh
    | cons d r => exact ⟨r, by simpa using hh⟩
  simp only [mem_cons, not_or] at hne
  have hr : u.relative (c :: r) = .ok (u.sibling (c :: r)) := by
    have hdr : (c :: r).dropWhile (fun c ↦ c == '/' || c == '\\') = c :: r := by simp [hne]
    rw [relative]
    · split_ifs
      · simp [relativeFile, SchemeKind.isSlash, hne, hd]
      · simp only [relativePlace, hdr, Nat.sub_self]
    · rintro ⟨⟩
    · rintro _ ⟨⟩
      exact hne.2.2.2.1 rfl
    · rintro _ ⟨⟩
      exact hne.2.2.1 rfl
  rw [join?, join, String.toList_ofList, hc, hsc, hs]
  dsimp only
  rw [hr]
  rfl

theorem join?_name (h : u.IsComposed) (hs : u.segments? = some (front ++ [last]))
    (hdr : isNormalDrive last = false) {name : List Char} (hn : IsName name) :
    u.join? (String.ofList name) = some (u.within front (encode inPath name)) := by
  rw [join?_eq_sibling hs hn.clean hn.splitScheme?_eq hn.startsWithDrive_eq]
  · rw [sibling_eq h hs (fun c hc ↦ (hn.isSlash_eq hc .other).2) (leads_front hs)]
    rw [hn.follow_eq _ _ (by simp [directory, hdr])]
    simp [directory]
  · obtain ⟨c, r, rfl⟩ := exists_cons_of_ne_nil hn.ne_nil
    have hsub : ['/', '\\', '?', '#'] ⊆ ['\t', ':', '/', '\\', '?', '#', '%'] := by decide
    exact ⟨c, rfl, fun hm ↦ hn.plain c mem_cons_self (hsub hm)⟩

/-- What a name leads to from a composed uri is composed. -/
theorem isComposed_join? (h : u.IsComposed) (hs : u.segments? = some (front ++ [last]))
    (hdr : isNormalDrive last = false) {name : List Char} (hn : IsName name) :
    ∀ joined ∈ u.join? (String.ofList name), joined.IsComposed := by
  rw [join?_name h hs hdr hn]
  rintro _ ⟨⟩
  exact isComposed_within h (leads_front hs) hn.unseparated_encode

end Uri
end StoryScript
