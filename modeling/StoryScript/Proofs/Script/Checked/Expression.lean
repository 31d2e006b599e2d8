import StoryScript.Proofs.Script.Checked.Cursor
import StoryScript.Proofs.Script.RespellScan

/-!
Expressions read by index read what the glyphs at their cursor do.
-/

namespace StoryScript.Script

open Checked Cursor List Option

/-- Induction on the pieces of a line, from the last one on. -/
@[elab_as_elim]
theorem pieces_induction {α : Type} (p : α → Bool) {motive : List α → Prop}
    (last : ∀ run, (∀ item ∈ run, p item = false) → motive run)
    (step : ∀ run separator r, (∀ item ∈ run, p item = false) → p separator = true →
      motive r → motive (run ++ separator :: r)) (ln : List α) : motive ln := by
  suffices h : ∀ run, (∀ item ∈ run, p item = false) → motive (run ++ ln) from h [] nofun
  induction ln with
  | nil =>
    intro run hr
    rw [append_nil]
    exact last run hr
  | cons item r ih =>
    intro run hr
    cases hi : p item
    · rw [← singleton_append, ← append_assoc]
      exact ih _ (forall_mem_append.mpr ⟨hr, forall_mem_singleton.mpr hi⟩)
    · exact step run item r hr hi (ih [] nofun)

theorem takeName_of_startsName {g : Glyph} (h : startsName g.char = true)
    (r : List Glyph) : takeName (g :: r) = g :: takeNameRest r := by
  rw [takeName, head?_cons, any_some, if_pos h, takeNameRest,
    if_pos (continuesName_of_startsName h)]

theorem spell_append (run r : List Glyph) : spell (run ++ r) = spell run ++ spell r := by
  rw [spell, map_append, String.ofList_append]
  rfl

theorem spell_concat_dot {dot : Glyph} (hd : dot.char = '.') (run : List Glyph) :
    spell (run ++ [dot]) = spell run ++ "." := by
  rw [spell_append, show spell [dot] = "." by rw [spell, map_singleton, hd]]

namespace Checked

variable {b : Nat} {cd : List Char} {bs : List UInt8} {i : Nat} {ln : List Glyph}
  {tail run : List Glyph} {stop : Nat}

/-! ### Segments -/

section

variable {visit : Nat → Nat → String → Option (List (Annotated Reference))}

/-- What visiting the first segment of a name finds. The run before it belongs to the name. -/
theorem Cursor.segments?_cons {r : List Glyph} {ss : List String}
    {f l : List (Annotated Reference)} (h : Cursor b cd bs i (run ++ r))
    (hs : Cursor b cd bs stop r) (hr : ∀ g ∈ run, g.char ≠ ' ')
    (hv : visit i stop (spell run) = some f)
    (hl : segments? visit (stop + 1) ss = some l) :
    segments? visit i (spell run :: ss) = some (f ++ l) := by
  rw [segments?, toList_spell, ← (h.word hs hr).2.1, hv, bind_eq_bind, bind_some, hl]
  rfl

/-- What visiting the segments of a name finds, if each is visited with the index where it starts and
the path up to it. The run before the segments belongs to the name. -/
theorem Cursor.segments? {rs : List Glyph × String → List (Annotated Reference)}
    {start : Nat} {l : List Glyph}
    (hst : Cursor b cd bs start (l ++ (run ++ tail)))
    (hbl : ∀ g ∈ l ++ run, g.char ≠ ' ')
    (hv : ∀ o s x last, l <+: o → s ∈ run.splitOnP isDot →
      Covers b cd start x o → Covers b cd x last s →
      Covers b cd start last (o ++ s) →
      visit x last (spell s) = some (rs (s, spell (o ++ s))))
    (h : Cursor b cd bs i (run ++ tail)) :
    segments? visit i ((run.splitOnP isDot).map spell) =
      some ((trail (spell l) (run.splitOnP isDot)).flatMap rs) := by
  obtain ⟨hb, hr⟩ := forall_mem_append.mp hbl
  induction run using pieces_induction isDot generalizing l i with
  | last run hl =>
    obtain ⟨stop, -, hs⟩ := h.append
    have hp := (append_assoc l run tail ▸ hst).covers hs hbl
    rw [splitOnP_eq_singleton hl, map_singleton, trail, ← spell_append]
    rw [splitOnP_eq_singleton hl] at hv
    exact h.segments?_cons hs hr (hv l run i stop prefix_rfl mem_cons_self
      (hst.covers h hb) (h.covers hs hr) hp) rfl
  | step run dot r hl hd ih =>
    have hc : dot.char = '.' := beq_iff_eq.mp hd
    obtain ⟨hse, hre⟩ := forall_mem_append.mp hr
    have ho := forall_mem_append.mpr ⟨hb, hse⟩
    have hf := hst.covers h hb
    rw [append_assoc] at h hst
    obtain ⟨stop, -, hs⟩ := h.append
    rw [← append_assoc l] at hst
    have hn : Cursor b cd bs (stop + 1) (r ++ tail) :=
      hs.next (hc ▸ by decide) (hc ▸ by decide)
    rw [splitOnP_append_cons_of_forall_mem hl dot hd] at hv ⊢
    rw [map_cons, trail, ← spell_append, ← spell_concat_dot hc, flatMap_cons]
    refine h.segments?_cons hs hse (hv l run i stop prefix_rfl
      mem_cons_self hf (h.covers hs hse) (hst.covers hs ho))
      (ih ?_ ?_ ?_ hn ?_ ?_)
    · rwa [← append_cons]
    · rwa [← append_cons, append_assoc]
    · exact fun o s x last hmo hm ↦ hv o s x last
        ((append_assoc l run [dot] ▸ prefix_append l _).trans hmo)
        (mem_cons_of_mem _ hm)
    · exact forall_mem_append.mpr ⟨ho, forall_mem_singleton.mpr (forall_mem_cons.mp hre).1⟩
    · exact (forall_mem_cons.mp hre).2

end

section Dotted

variable {start x last : Nat}

/-- The first segment of a name is read as a name of its own. -/
theorem Covers.segmentRead?_first (h : Covers b cd start last run) (hr : run ≠ []) :
    segmentRead? cd b start start last (spell run) =
      some [mark run (Reference.ofUse .read (".." ++ spell run))] := by
  rw [segmentRead?, if_neg (mt spell_eq_empty.mp hr), if_pos rfl, h.marked hr]

/-- A later segment is read as the member that the path up to it names. -/
theorem Covers.segmentRead? {o : List Glyph} (ho : o ≠ []) (hr : run ≠ [])
    (hs : Covers b cd start x o) (h : Covers b cd x last run)
    (hp : Covers b cd start last (o ++ run)) :
    segmentRead? cd b start x last (spell run) =
      some [mark run (Reference.ofUse .read (spell (o ++ run)))] := by
  have hn : x ≠ start := fun heq ↦ ho (hs.eq_iff.mp heq.symm)
  rw [Checked.segmentRead?, if_neg (mt spell_eq_empty.mp hr), if_neg hn, hp.word, map_some,
    h.marked hr]

theorem Cursor.dottedRead? {name : List Glyph} (h : Cursor b cd bs i (name ++ tail))
    (hna : IsName name) {j : Nat} (hco : Covers b cd i j name) :
    dottedRead? cd b i j = some (dottedReads name) := by
  have hsp : Text.split '.' (spell name) = (name.splitOnP isDot).map spell := segments_spell name
  have hb : ∀ g ∈ name, g.char ≠ ' ' :=
    fun g hg ↦ (ne_of_isWordChar (hna.words g hg)).1
  have hn := hna.segments
  rw [Checked.dottedRead?, hco.word, bind_eq_bind, bind_some, hsp, dottedReads, dottedTrail]
  induction name using pieces_induction isDot with
  | last run hl =>
    rw [splitOnP_eq_singleton hl] at hn ⊢
    have hr : run ≠ [] := fun he ↦ hn (he ▸ mem_cons_self)
    obtain ⟨stop, -, hs⟩ := h.append
    exact h.segments?_cons hs hb ((h.covers hs hb).segmentRead?_first hr) rfl
  | step run dot r hl hd _ =>
    rw [splitOnP_append_cons_of_forall_mem hl dot hd] at hn ⊢
    have hr : run ≠ [] := fun he ↦ hn (he ▸ mem_cons_self)
    obtain ⟨hf, hla⟩ := forall_mem_append.mp hb
    rw [append_assoc] at h
    obtain ⟨stop, -, hs⟩ := h.append
    have hc : dot.char = '.' := beq_iff_eq.mp hd
    have hne := hs.next (hc ▸ by decide) (hc ▸ by decide)
    refine h.segments?_cons hs hf ((h.covers hs hf).segmentRead?_first hr) ?_
    rw [append_cons] at hb
    rw [cons_append, append_cons] at h
    have hop : "" ++ spell run ++ "." = spell (run ++ [dot]) := by
      rw [spell_concat_dot hc, String.empty_append]
    refine Eq.trans ?_ (congrArg some map_eq_flatMap.symm)
    rw [hop]
    refine h.segments? hb (fun o s x last ho hse hst hf hp ↦ ?_) hne
    have hso : s ≠ [] := fun he ↦ hn (mem_cons_of_mem _ (he ▸ hse))
    exact hst.segmentRead? (ne_nil_of_mem (ho.mem mem_concat_self)) hso hf hp

end Dotted

/-! ### Expressions -/

theorem uniform_isDigit : Uniform Char.isDigit :=
  uniform_of_isAscii fun c h ↦ isAscii_of_isAlphanum (by rw [Char.isAlphanum, h, Bool.or_true])

theorem uniform_continuesNumber : Uniform fun c ↦ continuesNumber ⟨0, c⟩ :=
  uniform_isAlphanum.or (uniform_beq (by decide))

/-- What stands behind an expression does not continue its last word. -/
def Parts (tail : List Glyph) : Prop :=
  ∀ g ∈ tail.head?, partsWords g.char = true

theorem parts_nil : Parts [] :=
  nofun

theorem Parts.takeNameRest_append (h : Parts tail) (run : List Glyph) :
    takeNameRest (run ++ tail) = takeNameRest run := by
  cases tail with
  | nil => rw [append_nil]
  | cons g r => exact takeNameRest_append_cons (h g rfl) run r

theorem Cursor.expression? {inner : List Glyph} (h : Cursor b cd bs i (inner ++ tail))
    (hs : Cursor b cd bs stop tail) (ht : Parts tail) {fuel : Nat}
    (hf : stop - i < fuel) : expression? cd b bs stop fuel i = some (reads inner) := by
  fun_induction reads inner generalizing i fuel with
  | case1 =>
    obtain ⟨fuel, rfl⟩ := exists_succ_of_lt hf
    rw [expression?, if_neg (Nat.lt_irrefl _ <| h.unique hs ▸ ·)]
    rfl
  | case2 g r hd ih =>
    obtain ⟨fuel, rfl⟩ := exists_succ_of_lt hf
    have hl : i < stop := lt_of_cons h hs
    obtain ⟨byte, hb, ho⟩ := byte h
    obtain ⟨j, hj, hc⟩ := h.skipWhile? uniform_continuesNumber hs
    have hnu : continuesNumber ⟨0, g.char⟩ = true := by
      rw [continuesNumber, Char.isAlphanum, hd, Bool.or_true, Bool.true_or]
    rw [dropWhile_cons, if_pos hnu] at hc
    have hle := lt_of_isSuffix h hc (suffix_append_self_iff.mpr (dropWhile_suffix _))
    rw [expression?, if_pos hl, hb]
    simp only [bind_eq_bind, bind_some, uniform_isDigit.apply ho, hd, if_true, hj]
    refine ih ?_ (by omega)
    rwa [drop_length_takeWhile]
  | case3 g r hd hn name =>
    rename_i ih
    obtain ⟨fuel, rfl⟩ := exists_succ_of_lt hf
    have hl : i < stop := lt_of_cons h hs
    obtain ⟨byte, hb, ho⟩ := byte h
    obtain ⟨j, hj, hc, hco⟩ := h.name
    have hr : takeNameRest (r ++ tail) = takeNameRest r := ht.takeNameRest_append r
    rw [cons_append, takeName_of_startsName hn, hr, length_cons, drop_succ_cons,
      drop_append_of_le_length (takeNameRest_isPrefix r).length_le] at hc
    rw [cons_append, takeName_of_startsName hn, hr] at hco
    have hle := lt_of_isSuffix h hc (suffix_append_self_iff.mpr (drop_suffix _ _))
    have hm : min j stop = j := Nat.min_eq_left (hc.le hs)
    have hw : name ++ (r.drop (takeNameRest r).length ++ tail) = g :: r ++ tail := by
      rw [← append_assoc]
      exact congrArg (g :: · ++ tail) (prefix_iff_eq_append.mp (takeNameRest_isPrefix r))
    have hre := (hw ▸ h).dottedRead? (isName_takeNameRest hn) hco
    rw [expression?, if_pos hl, hb]
    simp only [bind_eq_bind, bind_some, uniform_isDigit.apply ho, hd,
      uniform_startsName.apply ho, hn, Bool.false_eq_true, if_false, if_true, hj, hm, hco.word, hre,
      ih hc (show stop - j < fuel by omega)]
    by_cases hke : spell name ∈ keywords
    · rw [if_pos hke, if_pos hke]
      rfl
    · rw [if_neg hke, if_neg hke]
      rfl
  | case4 g r hd hn ih =>
    obtain ⟨size, hsi, hne, -⟩ := cons h
    have hle := hne.le hs
    rw [loop (expression? cd b bs stop) h hne ?_ (by omega), ih hne (by omega)]
    intro fuel k byte _ _ hk hb ho
    rw [expression?, if_pos (by omega), hb]
    simp only [bind_eq_bind, bind_some, uniform_isDigit.apply ho, hd,
      uniform_startsName.apply ho, hn, Bool.false_eq_true, if_false]

theorem Cursor.reads? (h : Cursor b cd bs i ln) : reads? cd b bs i = some (reads ln) :=
  ((append_nil ln).symm ▸ h).expression? h.stop parts_nil (by omega)

/-! ### Assigned values -/

theorem Cursor.isDotless? (h : Cursor b cd bs i (run ++ ln)) {j : Nat} (hj : Cursor b cd bs j ln) :
    isDotless? bs i j = some (run.all fun g ↦ g.char ≠ '.') := by
  obtain ⟨cs, hc, ha⟩ := h.range? hj
  rw [Checked.isDotless?, hc, map_some, all_eq_not_any_not, all_eq_not_any_not,
    ha _ (uniform_ne (by decide)).not]

/-- A name does not start with a digit. -/
theorem Cursor.first_of_name (h : Cursor b cd bs i ln) (hn : takeName ln ≠ []) :
    ∃ byte, bs[i]? = some byte ∧ (asChar byte).isDigit = false := by
  cases ln with
  | nil => exact absurd rfl hn
  | cons g r =>
    obtain ⟨byte, hb, ho⟩ := h.byte
    refine ⟨byte, hb, ?_⟩
    rw [uniform_isDigit.apply ho]
    refine isDigit_of_startsName (by_contra fun hs ↦ hn ?_)
    rw [takeName, head?_cons, any_some, if_neg hs]

theorem Cursor.assignedReads? (a : String) (h : Cursor b cd bs i ln) :
    assignedReads? cd b a bs i = some (assignedReads a ln) := by
  obtain ⟨start, hst, hb⟩ := h.skipBlanks?
  obtain ⟨stop, hsto, hr, hn⟩ := hb.name
  obtain ⟨bh, hbe, hm⟩ := hr.skipBlanks?
  have hw := prefix_iff_eq_append.mp (takeName_isPrefix (skipBlanks ln))
  have hdo := (hw.symm ▸ hb).isDotless? hr
  rw [Checked.assignedReads?, hst]
  simp only [bind_eq_bind, bind_some, hsto, hn.lt_iff, hdo, hbe, hn.word,
    hm.length_le_iff, h.reads?]
  unfold assignedReads
  dsimp only
  by_cases he : takeName (skipBlanks ln) = []
  · rw [if_neg (absurd he), if_neg fun hs ↦ hs.1 he]
  · obtain ⟨byte, hby, hd⟩ := hb.first_of_name he
    rw [if_pos he, hby, bind_some]
    split_ifs with hc hs hs
    · rw [hn.marked he]
      rfl
    · exact absurd ⟨he, hc.1, hc.2.1, hc.2.2.1⟩ hs
    · exact absurd ⟨hs.2.1, hs.2.2.1, hs.2.2.2, hd⟩ hc
    · rfl

/-! ### Braces -/

theorem length_takeWhile_lt_iff (p : Glyph → Bool) (ln : List Glyph) :
    (ln.takeWhile p).length < ln.length ↔ ln.dropWhile p ≠ [] := by
  have hl := congrArg List.length (takeWhile_append_dropWhile (p := p) (l := ln))
  rw [length_append] at hl
  rw [← length_pos_iff]
  omega

theorem char_of_dropWhile_ne {c : Char} {x : Glyph} {r : List Glyph}
    (h : ln.dropWhile (fun g ↦ g.char ≠ c) = x :: r) : x.char = c := by
  have hf := head?_dropWhile_not (fun g : Glyph ↦ decide (g.char ≠ c)) ln
  rw [h] at hf
  simpa using hf

theorem parts_dropWhile {c : Char} (hc : partsWords c = true) (inner : List Glyph)
    (ht : Parts tail) : Parts (inner.dropWhile (fun g ↦ g.char ≠ c) ++ tail) := by
  intro g hg
  cases hr : inner.dropWhile (fun g ↦ g.char ≠ c) with
  | nil =>
    rw [hr] at hg
    exact ht g hg
  | cons x r =>
    rw [hr] at hg
    obtain rfl : x = g := Option.some.inj hg
    rw [char_of_dropWhile_ne hr, hc]

theorem Cursor.braceReads? {inner : List Glyph} (h : Cursor b cd bs i (inner ++ tail))
    (hs : Cursor b cd bs stop tail) (ht : Parts tail) :
    braceReads? cd b bs i stop = some (braceReads inner) := by
  have hsi : Uniform fun c ↦ c == '~' || c == '&' || c == '!' :=
    ((uniform_beq (by decide)).or (uniform_beq (by decide))).or (uniform_beq (by decide))
  obtain ⟨start, hst, hb⟩ := h.skipWhile? hsi hs
  obtain ⟨colon, hco, hbe⟩ := hb.skipWhile? (uniform_ne (d := ':') (by decide)) hs
  obtain ⟨cs, hc, ha⟩ := hb.range? hs
  rw [Checked.braceReads?, hst]
  simp only [bind_eq_bind, bind_some, hco, hc, hbe.lt_iff hs,
    ha _ (uniform_beq (d := '|') (by decide))]
  unfold braceReads
  dsimp only
  simp only [length_takeWhile_lt_iff]
  split_ifs with hcon hch
  · rw [← takeWhile_append_dropWhile (p := fun g ↦ decide (g.char ≠ ':'))
      (l := inner.dropWhile _), append_assoc] at hb
    have hl := hbe.le_length
    exact hb.expression? hbe (parts_dropWhile (by decide) _ ht) (by omega)
  · rw [Checked.expression?, if_neg (Nat.lt_irrefl _)]
    rfl
  · have hl := hs.le_length
    exact hb.expression? hs ht (by omega)

/-- Where an opening brace is matched. -/
theorem Cursor.inlineReads?_brace {g : Glyph} (h : Cursor b cd bs i (g :: ln))
    (hb : g.char = '\x7b') (fuel : Nat) :
    ∃ close, Cursor b cd bs close (ln.dropWhile fun g ↦ g.char ≠ '\x7d') ∧ i + 1 ≤ close ∧
      inlineReads? cd b bs (fuel + 1) i =
        if ln.dropWhile (fun g ↦ g.char ≠ '\x7d') = [] then some []
        else (inlineReads? cd b bs fuel (close + 1)).map
          (braceReads (ln.takeWhile fun g ↦ g.char ≠ '\x7d') ++ ·) := by
  obtain ⟨byte, hby, ho⟩ := h.byte
  have hn := h.next (hb ▸ by decide) (hb ▸ by decide)
  obtain ⟨cs, hce, -⟩ := ((append_nil ln).symm ▸ hn).range? h.stop
  obtain ⟨close, hcl, hc⟩ := hn.skipWhile?_length (uniform_ne (d := '\x7d') (by decide))
  refine ⟨close, hc, hn.le_of_isSuffix hc (dropWhile_suffix _), ?_⟩
  rw [inlineReads?, if_pos h.lt_length, hby, bind_eq_bind, bind_some,
    if_pos ((asChar_eq_iff (by decide) ho).mpr hb)]
  simp only [hce, hcl, bind_eq_bind, bind_some]
  split_ifs with hl hni hni
  · exact absurd hl (Nat.not_lt.mpr (hc.length_le_iff.mpr hni))
  · have hp := parts_dropWhile (c := '\x7d') (by decide) ln parts_nil
    rw [append_nil] at hp
    rw [← takeWhile_append_dropWhile (p := fun g ↦ decide (g.char ≠ '\x7d')) (l := ln)]
      at hn
    rw [hn.braceReads? hc hp, bind_some, map_eq_bind]
    rfl
  · rfl
  · exact absurd (hc.length_le_iff.mp (Nat.not_lt.mp hl)) hni

theorem Cursor.inlineReads? (h : Cursor b cd bs i ln) {fuel : Nat} (hf : bs.length - i < fuel) :
    inlineReads? cd b bs fuel i = some (inlineReads ln) := by
  fun_induction inlineReads ln generalizing i fuel with
  | case1 =>
    obtain ⟨fuel, rfl⟩ := exists_succ_of_lt hf
    rw [inlineReads?, if_neg (Nat.not_lt.mpr (h.length_le_iff.mpr rfl))]
    rfl
  | case2 g r hb inner hcl =>
    rename_i ih
    obtain ⟨fuel, rfl⟩ := exists_succ_of_lt hf
    obtain ⟨close, hc, hle, heq⟩ := h.inlineReads?_brace hb fuel
    have hr := (length_takeWhile_lt_iff _ r).mp hcl
    have hn : Cursor b cd bs (close + 1) (r.drop (inner.length + 1)) := by
      obtain ⟨closing, l, hl⟩ := exists_cons_of_ne_nil hr
      rw [hl] at hc
      have hch := char_of_dropWhile_ne hl
      rw [← drop_drop, drop_length_takeWhile, hl]
      exact hc.next (hch ▸ by decide) (hch ▸ by decide)
    have hlt := h.lt_length
    rw [heq, if_neg hr, ih hn (by omega), map_some]
  | case3 g r hb inner =>
    rename_i hop
    obtain ⟨fuel, rfl⟩ := exists_succ_of_lt hf
    obtain ⟨close, hc, hle, heq⟩ := h.inlineReads?_brace hb fuel
    rw [heq, if_pos (by_contra fun hr ↦ hop ((length_takeWhile_lt_iff _ r).mpr hr))]
  | case4 g r hb ih =>
    obtain ⟨size, hs, hn, -⟩ := h.cons
    have hle := hn.le_length
    rw [h.loop (inlineReads? cd b bs) hn ?_ (by omega), ih hn (by omega)]
    intro fuel k byte _ _ hk hby ho
    rw [inlineReads?, if_pos (by omega), hby, bind_eq_bind, bind_some,
      if_neg (mt (asChar_eq_iff (by decide) ho).mp hb)]

end Checked

end StoryScript.Script
