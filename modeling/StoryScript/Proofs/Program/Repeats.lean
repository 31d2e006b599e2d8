import Mathlib.Algebra.BigOperators.Group.List.Basic
import Mathlib.Data.List.Count
import Mathlib.Data.Prod.Basic
import StoryScript.Proofs.Program.Closed
import StoryScript.Proofs.Script.Sections

/-!
How often a use is recorded. A place stands among the uses of an id as often as it is annotated in
its script: scripts are loaded once, a reference has each of its ids once, and annotations that start
together are the same, in the same scope. So it stands there once, but for names between the braces
of a statement, which both read (`Program.count_usesOf_of_build?`).
-/

namespace StoryScript

open List Scope Script

namespace Program

variable {id : String}

section Counting

variable (c : Context) (builtins : Keys String)

/-- Whether an annotation uses an id, in the scope that it stands in. -/
def usesId (id : String) (e : Scope × Annotated Reference) : Bool :=
  !e.2.value.isDeclaration && id ∈ c.resolveReference builtins e.2.value false e.1.path

theorem count_map_pair {ids : List String} (h : ids.Nodup) (id : String) (site place : Site) :
    (ids.map fun id ↦ (id, place)).count (id, site) = if id ∈ ids ∧ place = site then 1 else 0 := by
  by_cases hp : place = site
  · subst hp
    rw [count_map_of_injective ids _ (Prod.mk_left_injective place), h.count]
    simp
  · rw [if_neg fun hb ↦ hp hb.2, count_eq_zero, mem_map]
    rintro ⟨_, -, heq⟩
    exact hp (Prod.mk.inj heq).2

/-- A place is recorded for a declared id as often as annotations there use it. -/
theorem count_usedSites (s : Script) (hd : c.declares id = true) (site : Site) :
    (usedSites c builtins s).count (id, site) =
      (walk s.text.toList top s.annotations.references.items).countP
        fun e ↦ usesId c builtins id e && s.site e.2.span = site := by
  have hk : c.knows builtins id = true := by rw [Context.knows, hd, Bool.true_or]
  rw [usedSites, uses, usesFrom_eq_map, flatMap_map]
  generalize walk _ _ _ = es
  induction es with
  | nil => rfl
  | cons e r ih =>
    rw [countP_cons, ← ih]
    cases hu : e.2.value.isDeclaration with
    | true => simp [usesId, hu]
    | false =>
      have hn : (((c.resolveReference builtins e.2.value false e.1.path).filter
          (c.knows builtins)).filter c.declares).Nodup :=
        (Nodup.filter _ (Context.nodup_distinct _)).filter _
      rw [filter_cons_of_pos (by simp [hu]), flatMap_cons, count_append,
        count_map_pair hn, Nat.add_comm]
      simp [usesId, hu, hk, hd, Context.resolveReference]

end Counting

theorem count_map_snd_filter (sites : List (String × Site)) (id : String) (site : Site) :
    ((sites.filter fun pair ↦ pair.1 = id).map Prod.snd).count site = sites.count (id, site) := by
  rw [count_eq_countP, countP_map, countP_filter, count_eq_countP]
  refine countP_congr fun pair _ ↦ ?_
  simp [Prod.ext_iff, and_comm]

/-- Scripts that are loaded once record their uses apart from each other. -/
theorem count_sitesIn (builtins : Keys String) {ss : List Script}
    (hn : (ss.map Script.uri).Nodup) {s : Script} (hs : s ∈ ss)
    (id : String) (span : Span) :
    (sitesIn builtins ss).count (id, s.site span) =
      (usedSites (symbolsOf ss) builtins s).count (id, s.site span) := by
  rw [sitesIn, count_flatMap, sum_map_eq_nsmul_single s,
    count_eq_one_of_mem hn.of_map hs, one_nsmul]
  · rfl
  · intro o hne ho
    refine count_eq_zero.mpr fun hi ↦ hne ?_
    obtain ⟨use, -, hi⟩ := mem_flatMap.mp hi
    obtain ⟨_, -, heq⟩ := mem_map.mp hi
    have hu : o.uri.text = s.uri.text := congrArg Site.uri (Prod.mk.inj heq).2
    exact inj_on_of_nodup_map hn ho hs (Uri.ext hu)

/-- A place is recorded as often as it is annotated. -/
theorem count_usedSites_of_mem (c : Context) (builtins : Keys String) {s : Script}
    (ha : s.annotations = annotate s.text)
    (hd : c.declares id = true) {e : Scope × Annotated Reference}
    (he : e ∈ walk s.text.toList top s.annotations.references.items)
    (hu : usesId c builtins id e = true) :
    (usedSites c builtins s).count (id, s.site e.2.span) =
      s.annotations.references.items.count e.2 := by
  have hs : ∀ o ∈ walk s.text.toList top s.annotations.references.items,
      (usesId c builtins id o && s.site o.2.span = s.site e.2.span) =
        true ↔ (o.2 == e.2) = true := by
    rw [ha] at he ⊢
    intro o ho
    simp only [Bool.and_eq_true, decide_eq_true_eq, beq_iff_eq]
    constructor
    · rintro ⟨-, hsi⟩
      have hsp : o.2.span = e.2.span := congrArg Site.span hsi
      exact Script.eq_of_start_eq_annotate (mem_of_mem_walk he)
        (mem_of_mem_walk ho) (congrArg Span.start hsp)
    · intro heq
      have hsc : o.1 = e.1 := by
        rw [eq_atOffset_of_mem_walk (Script.faithful_annotate s.text) ho, heq,
          eq_atOffset_of_mem_walk (Script.faithful_annotate s.text) he]
      rw [show o = e from Prod.ext hsc heq]
      exact ⟨hu, rfl⟩
  calc (usedSites c builtins s).count (id, s.site e.2.span)
      = (walk s.text.toList top s.annotations.references.items).countP fun o ↦ o.2 == e.2 :=
        (count_usedSites c builtins s hd _).trans (countP_congr hs)
    _ = ((walk s.text.toList top s.annotations.references.items).map Prod.snd).count e.2 := by
        rw [count_eq_countP, countP_map]
        rfl
    _ = s.annotations.references.items.count e.2 := by rw [map_snd_walk]

section Building

variable {builtins : Keys String} {load : Loader} {root : Uri} {collected : Collected}
  (hcollected : collectFrom? load annotate root = some collected)

include hcollected

theorem exists_item_of_mem_usesOf {site : Site}
    (hsi : site ∈ (ofScripts builtins root collected).context.usesOf id) :
    ∃ u src, load u = some src ∧
      ∃ x ∈ (annotate src.text).references.items, site = ⟨u.text, x.span⟩ ∧
        ((ofScripts builtins root collected).context.usesOf id).count site =
          (annotate src.text).references.items.count x := by
  have hi := (mem_usesOf_ofScripts_iff builtins root collected id site).mp hsi
  obtain ⟨hd, -⟩ := exists_of_mem_sitesIn hi
  obtain ⟨s, hs, hi⟩ := mem_flatMap.mp hi
  obtain ⟨e, he, hu, hid, rfl⟩ := (mem_usedSites_iff _ _ s hd site).mp hi
  obtain ⟨src, hsr, hl⟩ := Option.map_eq_some_iff.mp (load?_of_mem_collectFrom? hcollected hs)
  have ha : s.annotations = annotate s.text := by
    rw [← hl]
  have hus : usesId (symbolsOf collected.scripts) builtins id e = true := by
    simp [usesId, hu, hid]
  have hc : ((ofScripts builtins root collected).context.usesOf id).count
      (s.site e.2.span) = s.annotations.references.items.count e.2 := by
    rw [usesOf_ofScripts, count_map_snd_filter,
      count_sitesIn builtins (nodup_collectFrom? hcollected) hs,
      count_usedSites_of_mem _ builtins ha hd he hus]
  have ht : src.text = s.text := by rw [← hl]
  refine ⟨s.uri, src, hsr, e.2, ?_, rfl, ?_⟩
  · rw [ht, ← ha]
    exact mem_of_mem_walk he
  · rw [hc, ht, ← ha]

end Building

/-- Whether a place is a name between braces that the statement around them reads as well. -/
def IsRepeat (load : Loader) (site : Site) : Prop :=
  ∃ u s, load u = some s ∧ ∃ x ∈ repeats s.text, site = ⟨u.text, x.span⟩

theorem isRepeat_iff {load : Loader} {u : Uri} {s : Source} (hs : load u = some s)
    {x : Annotated Reference}
    (hi : x ∈ (annotate s.text).references.items) :
    IsRepeat load ⟨u.text, x.span⟩ ↔ x ∈ repeats s.text := by
  constructor
  · rintro ⟨o, s', hs', read, hr, hsi⟩
    obtain ⟨hu, hsp⟩ := Site.mk.inj hsi
    obtain rfl : u = o := Uri.ext hu
    obtain rfl : s = s' := Option.some.inj (hs.symm.trans hs')
    have hm := (read_annotate s.text).mem_of_mem_repeated hr
    rwa [eq_of_start_eq_annotate hm hi (congrArg Span.start hsp)]
  · exact fun hi ↦ ⟨u, s, hs, x, hi, rfl⟩

/-- In built programs a use is recorded once, and twice if it is a name between braces that the
statement around them reads as well. So uses are recorded once where there are none such. -/
theorem count_usesOf_of_build? {builtins : Keys String} {load : Loader} {root : Uri}
    {program : Program}
    (h : build? annotate builtins load root = some program) (id : String) :
    (∀ site ∈ program.context.usesOf id,
      (¬ IsRepeat load site → (program.context.usesOf id).count site = 1) ∧
      (IsRepeat load site → (program.context.usesOf id).count site = 2)) ∧
    ((program.context.usesOf id).Nodup ↔
      ∀ site ∈ program.context.usesOf id, ¬ IsRepeat load site) := by
  obtain ⟨collected, hcollected, rfl⟩ := Option.map_eq_some_iff.mp h
  have hcounts : ∀ site ∈ (ofScripts builtins root collected).context.usesOf id,
      (¬ IsRepeat load site →
        ((ofScripts builtins root collected).context.usesOf id).count site = 1) ∧
      (IsRepeat load site →
        ((ofScripts builtins root collected).context.usesOf id).count site = 2) := by
    intro site hsite
    obtain ⟨uri, source, hsource, item, hitem, rfl, hcount⟩ :=
      exists_item_of_mem_usesOf hcollected hsite
    rw [hcount, (read_annotate source.text).count (rising_glyphs 0 _) hitem]
    have hrepeat : IsRepeat load ⟨uri.text, item.span⟩ ↔ item ∈ repeats source.text :=
      isRepeat_iff hsource hitem
    exact ⟨fun honce ↦ if_neg (mt hrepeat.mpr honce), fun htwice ↦ if_pos (hrepeat.mp htwice)⟩
  refine ⟨hcounts, nodup_iff_count_eq_one.trans ⟨fun honce site hsite hrepeat ↦ ?_, ?_⟩⟩
  · have htwice := (hcounts site hsite).2 hrepeat
    rw [honce site hsite] at htwice
    exact absurd htwice (by decide)
  · exact fun honce site hsite ↦ (hcounts site hsite).1 (honce site hsite)

/-- A story that reads a variable between braces, once within a line of logic and once within text. -/
def goldLoader : Loader := fun u ↦
  if u = innUri then some ⟨1, "VAR gold = 1\n~ pay(\x7bgold\x7d)\n\x7bgold\x7d coins\n"⟩ else none

def goldRead (start : Nat) : Annotated Reference :=
  ⟨⟨start, start + 4⟩, Reference.ofUse .read "..gold"⟩

theorem usesOf_gold :
    (build? annotate Table.empty goldLoader innUri).map
      (fun p ↦ p.context.usesOf "gold") =
    some [⟨innUri.text, ⟨20, 24⟩⟩, ⟨innUri.text, ⟨20, 24⟩⟩, ⟨innUri.text, ⟨28, 32⟩⟩] := by
  rw [annotate_eq_annotateInOrder]
  decide +kernel

theorem count_usesOf_of_build?_gold :
    ∃ program, build? annotate Table.empty goldLoader innUri = some program ∧
      IsRepeat goldLoader ⟨innUri.text, ⟨20, 24⟩⟩ ∧
      ¬ IsRepeat goldLoader ⟨innUri.text, ⟨28, 32⟩⟩ ∧
      (program.context.usesOf "gold").count ⟨innUri.text, ⟨20, 24⟩⟩ = 2 ∧
      (program.context.usesOf "gold").count ⟨innUri.text, ⟨28, 32⟩⟩ = 1 := by
  obtain ⟨program, hprogram⟩ := Option.isSome_iff_exists.mp
    (@isSome_build? annotate Table.empty goldLoader innUri (by decide))
  have huses := usesOf_gold
  rw [hprogram, Option.map_some, Option.some.injEq] at huses
  obtain ⟨source, hsource, hlogic, htext⟩ : ∃ source, goldLoader innUri = some source ∧
      goldRead 20 ∈ repeats source.text ∧
      goldRead 28 ∈ (annotate source.text).references.items ∧
      goldRead 28 ∉ repeats source.text := by
    rw [annotate_eq_annotateInOrder]
    exact ⟨_, if_pos rfl, by decide +kernel⟩
  have htwice : IsRepeat goldLoader ⟨innUri.text, ⟨20, 24⟩⟩ :=
    ⟨innUri, source, hsource, goldRead 20, hlogic, rfl⟩
  have honce : ¬ IsRepeat goldLoader ⟨innUri.text, ⟨28, 32⟩⟩ :=
    mt (isRepeat_iff hsource htext.1).mp htext.2
  obtain ⟨hcounts, -⟩ := count_usesOf_of_build? hprogram "gold"
  exact ⟨program, hprogram, htwice, honce, (hcounts _ (by rw [huses]; decide)).2 htwice,
    (hcounts _ (by rw [huses]; decide)).1 honce⟩

/-- Not every use is recorded once. -/
theorem not_nodup_usesOf_gold :
    ∃ program, build? annotate Table.empty goldLoader innUri = some program ∧
      ¬ (program.context.usesOf "gold").Nodup := by
  obtain ⟨program, hprogram, huses⟩ := Option.map_eq_some_iff.mp usesOf_gold
  exact ⟨program, hprogram, by rw [huses]; decide⟩

end Program

end StoryScript
