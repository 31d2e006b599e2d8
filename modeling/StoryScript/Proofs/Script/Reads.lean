import StoryScript.Proofs.Resolution
import StoryScript.Proofs.Script.Glyph
import StoryScript.Script.Expression

/-!
The names that expressions read. Each annotation of a line marks a run of its glyphs and names the
word that the run spells (`Marks`). What braces enclose is read behind an opening brace.
-/

namespace StoryScript.Script

open List StoryScript.Path

variable {name : List Glyph}

/-- An annotation that marks a word of a line and names it. -/
inductive Marks (l : List Glyph) : Annotated Reference → Prop
  | intro (run : List Glyph) (value : Reference) (hrun : run <:+: l) (hne : run ≠ [])
      (hwords : ∀ glyph ∈ run, isWordChar glyph.char = true) (hnames : value.Names (spell run))
      (hends : ∀ id ∈ value.symbolIds, Path.EndsWith id (spell run)) : Marks l (mark run value)

namespace Marks

variable {l : List Glyph} {x : Annotated Reference}

theorem mono (h : Marks l x) {outer : List Glyph} (ho : l <:+: outer) : Marks outer x := by
  cases h with
  | intro run v hr hne hw hn he =>
    exact .intro run v (hr.trans ho) hne hw hn he

/-- A word that shows in a blanked line stands in the line itself. -/
theorem unmask {m : List Glyph} (h : Marks m x) (hm : Masks m l) : Marks l x := by
  cases h with
  | intro run v hr hne hw hn he =>
    have hb : ∀ g ∈ run, g.char ≠ ' ' :=
      fun g hg ↦ (ne_of_isWordChar (hw g hg)).1
    exact .intro run v (hm.isInfix_of_isInfix hr hb) hne hw hn he

theorem exists_start (h : Marks l x) :
    ∃ g ∈ l, g.offset = x.span.start ∧ isWordChar g.char = true := by
  cases h with
  | intro run v hr hn hw hna he =>
    obtain ⟨a, r, rfl⟩ := exists_cons_of_ne_nil hn
    exact ⟨a, hr.mem mem_cons_self, (start_spanOf_cons a r).symm, hw a mem_cons_self⟩

end Marks

/-- Annotations that are neither declarations nor diverts. -/
def Quiet (xs : List (Annotated Reference)) : Prop :=
  ∀ x ∈ xs, x.value.isDeclaration = false ∧ x.value.isDivert = false

/-- Annotations of a line that declare nothing, all of them diverts or none. -/
def Uses (diverts : Bool) (l : List Glyph) (xs : List (Annotated Reference)) : Prop :=
  ∀ x ∈ xs, Marks l x ∧ x.value.isDeclaration = false ∧ x.value.isDivert = diverts

namespace Uses

variable {diverts : Bool} {l : List Glyph} {xs : List (Annotated Reference)}

theorem nil (l : List Glyph) : Uses diverts l [] :=
  nofun

theorem append {lt : List (Annotated Reference)} (h : Uses diverts l xs) (h' : Uses diverts l lt) :
    Uses diverts l (xs ++ lt) :=
  forall_mem_append.mpr ⟨h, h'⟩

theorem mono (h : Uses diverts l xs) {outer : List Glyph} (ho : l <:+: outer) :
    Uses diverts outer xs :=
  fun x hi ↦ ⟨(h x hi).1.mono ho, (h x hi).2⟩

theorem quiet (h : Uses false l xs) : Quiet xs :=
  fun x hi ↦ (h x hi).2

end Uses

/-- A use of the word that a run spells. -/
theorem Marks.ofUse {l run : List Glyph} {id : String} (usage : Usage) (hr : run <:+: l)
    (hn : run ≠ []) (hw : ∀ g ∈ run, isWordChar g.char = true)
    (hp : spell run ≠ parent) (hl : last id = spell run) :
    Marks l (mark run (Reference.ofUse usage id)) := by
  have hi : ∀ o ∈ [id], last o = spell run := forall_mem_singleton.mpr hl
  exact .intro run _ hr hn hw (.uses _ rfl (cons_ne_nil _ _) hi nofun
    ⟨fun he ↦ hn (spell_eq_empty.mp he), hp⟩)
    fun o ho ↦ hi o ho ▸ endsWith_last o

/-- The segments of a dotted name are words. -/
theorem IsName.segment {s : List Glyph} (h : IsName name) (hs : s ∈ name.splitOnP isDot) :
    s ≠ [] ∧ (∀ g ∈ s, isWordChar g.char = true) ∧ spell s ≠ parent := by
  have hp := Text.isInfix_of_mem_splitOnP hs
  refine ⟨fun he ↦ h.segments (he ▸ hs), fun g hg ↦ h.words g (hp.mem hg), fun hpa ↦ ?_⟩
  have hm : '^' ∈ s.map Glyph.char := by
    rw [← toList_spell, hpa]
    decide
  obtain ⟨g, hg, heq⟩ := mem_map.mp hm
  rcases h.chars g (hp.mem hg) with hn | hd
  · rw [heq] at hn
    exact absurd hn (by decide)
  · rw [heq] at hd
    exact absurd hd (by decide)

theorem last_searched (name : String) : last (".." ++ name) = last name :=
  last_append "." name

theorem last_inferred (name : String) : last ("?." ++ name) = last name :=
  last_append "?" name

theorem uses_dottedReads (h : IsName name) : Uses false name (dottedReads name) := by
  have hm : ∀ s path id, (s, path) ∈ dottedTrail name →
      last id = last path → Marks name (mark s (Reference.ofUse .read id)) := by
    intro s path id he hi
    obtain ⟨hs, hl⟩ := last_of_mem_dottedTrail he
    obtain ⟨hn, hw, hp⟩ := h.segment hs
    exact .ofUse .read (Text.isInfix_of_mem_splitOnP hs) hn hw hp (hi.trans hl)
  unfold dottedReads
  cases ht : dottedTrail name with
  | nil => exact Uses.nil name
  | cons e lt =>
    obtain ⟨a, head⟩ := e
    rw [ht] at hm
    refine forall_mem_cons.mpr ⟨⟨?_, rfl, rfl⟩, fun x hit ↦ ?_⟩
    · exact hm a head _ mem_cons_self (last_searched head)
    · obtain ⟨⟨s, path⟩, he, rfl⟩ := mem_map.mp hit
      exact ⟨hm s path path (mem_cons_of_mem _ he) rfl, rfl, rfl⟩

theorem uses_reads (l : List Glyph) : Uses false l (reads l) := by
  fun_induction reads l with
  | case1 => exact Uses.nil []
  | case2 g r _ ih =>
    exact ih.mono ((drop_suffix _ _).isInfix.trans (suffix_cons _ _).isInfix)
  | case3 g r _ hs name ih =>
    have ho : name <+: g :: r := cons_prefix_cons.mpr ⟨rfl, takeNameRest_isPrefix r⟩
    refine Uses.append ?_ (ih.mono ((drop_suffix _ _).isInfix.trans (suffix_cons _ _).isInfix))
    split_ifs
    · exact Uses.nil _
    · exact (uses_dottedReads (isName_takeNameRest hs)).mono ho.isInfix
  | case4 g r _ _ ih => exact ih.mono (suffix_cons _ _).isInfix

/-- A name without dots is its own only segment. -/
theorem splitOnP_of_dotless (h : ∀ g ∈ name, g.char ≠ '.') : name.splitOnP isDot = [name] :=
  splitOnP_eq_singleton fun g hg ↦ beq_eq_false_iff_ne.mpr (h g hg)

/-- A name without dots that is assigned to a symbol. -/
theorem marks_assigned (h : IsName name) (hn : name ≠ [])
    (hd : ∀ g ∈ name, g.char ≠ '.') (a : String) :
    Marks name (mark name
      { symbolIds := [".." ++ spell name, "?." ++ spell name]
        usage := some .read
        selectors := [Selector.any (spell name)]
        assigned := some a }) := by
  have hs : name ∈ name.splitOnP isDot := by
    rw [splitOnP_of_dotless hd]
    exact mem_singleton.mpr rfl
  have hl := last_of_dotless (dotless_of_mem_splitOnP hs)
  obtain ⟨-, hw, hp⟩ := h.segment hs
  have hid : ∀ id ∈ [".." ++ spell name, "?." ++ spell name], last id = spell name := by
    intro id hi
    rcases mem_pair.mp hi with rfl | rfl
    · rw [last_searched, hl]
    · rw [last_inferred, hl]
  exact .intro _ _ infix_rfl hn hw (.uses _ rfl (cons_ne_nil _ _) hid (forall_mem_singleton.mpr hl)
    ⟨fun he ↦ hn (spell_eq_empty.mp he), hp⟩)
    fun id hi ↦ hid id hi ▸ endsWith_last id

theorem uses_assignedReads (a : String) (l : List Glyph) : Uses false l (assignedReads a l) := by
  unfold assignedReads
  dsimp only
  split_ifs with hs
  · obtain ⟨hn, hd, -, -⟩ := hs
    intro x hi
    obtain rfl := mem_singleton.mp hi
    exact ⟨(marks_assigned (isName_takeName hn) hn (by simpa using hd)
      a).mono ((takeName_isPrefix _).isInfix.trans (skipBlanks_suffix l).isInfix), rfl, rfl⟩
  · exact uses_reads l

end StoryScript.Script
