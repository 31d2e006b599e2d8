import Mathlib.Data.List.Nodup
import Mathlib.Data.List.Perm.Subperm
import StoryScript.Program.Source

/-!
The scripts that a root leads to through includes, and their order. `Program.breadthFirst` lists them
in rounds: each round has the root, and behind it what the scripts of the round before include, each
one where it is first named. After `n` rounds these are the scripts that at most `n` includes lead
to (`mem_breadthFirst_iff`), and one that fewer includes lead to stands before one that more are
needed for (`pairwise_breadthFirst`). A list of scripts that a root leads to and that is its own next
round is what all rounds come to (`eq_breadthFirst`).
-/

namespace StoryScript.Program

open List

variable {uri : Uri} {n : Nat}

/-- The script that an include of a script leads to. -/
def Script.target? (s : Script) (x : Annotated Include) : Option Uri :=
  s.uri.resolve? x.value.path

def Script.targets (s : Script) : List Uri :=
  s.annotations.includes.items.filterMap s.target?

/-- The scripts that a root leads to, whether or not they can be loaded. -/
inductive Reachable (load : Loader) (annotate : Annotator) (root : Uri) : Uri → Prop
  | root : Reachable load annotate root root
  | included {uri target : Uri} {script : Script} (huri : Reachable load annotate root uri)
      (hload : load? load annotate uri = some script) (htarget : target ∈ script.targets) :
    Reachable load annotate root target

/-- The scripts that a root leads to by a number of includes. -/
inductive ReachableIn (load : Loader) (annotate : Annotator) (root : Uri) : Nat → Uri → Prop
  | root : ReachableIn load annotate root 0 root
  | included {steps : Nat} {uri target : Uri} {script : Script}
      (huri : ReachableIn load annotate root steps uri)
      (hload : load? load annotate uri = some script) (htarget : target ∈ script.targets) :
    ReachableIn load annotate root (steps + 1) target

/-! ### Names -/

/-- The names of a list that are not among others, each one where it first stands. -/
def firstNames (sn : List Uri) : List Uri → List Uri
  | [] => []
  | name :: r =>
    if name ∈ sn then firstNames sn r else name :: firstNames (name :: sn) r

section Names

variable {sn ns : List Uri}

theorem mem_firstNames_iff : uri ∈ firstNames sn ns ↔ uri ∈ ns ∧ uri ∉ sn := by
  fun_induction firstNames sn ns with
  | case1 => simp
  | case2 sn name r hs ih =>
    rw [ih, mem_cons]
    refine ⟨fun h ↦ ⟨.inr h.1, h.2⟩, fun ⟨hm, hn⟩ ↦ ⟨hm.resolve_left ?_, hn⟩⟩
    rintro rfl
    exact hn hs
  | case3 sn name r hs ih =>
    rw [mem_cons, ih, mem_cons, mem_cons, not_or]
    constructor
    · rintro (rfl | ⟨hm, -, hn⟩)
      · exact ⟨.inl rfl, hs⟩
      · exact ⟨.inr hm, hn⟩
    · rintro ⟨hm, hn⟩
      by_cases heq : uri = name
      · exact .inl heq
      · exact .inr ⟨hm.resolve_left heq, heq, hn⟩

theorem nodup_firstNames : (firstNames sn ns).Nodup := by
  fun_induction firstNames sn ns with
  | case1 => exact nodup_nil
  | case2 _ _ _ _ ih => exact ih
  | case3 sn name r _ ih =>
    refine nodup_cons.mpr ⟨fun hm ↦ ?_, ih⟩
    exact (mem_firstNames_iff.mp hm).2 mem_cons_self

theorem firstNames_eq_nil (h : ∀ name ∈ ns, name ∈ sn) : firstNames sn ns = [] := by
  refine eq_nil_iff_forall_not_mem.mpr fun name hn ↦ ?_
  obtain ⟨hm, hne⟩ := mem_firstNames_iff.mp hn
  exact hne (h name hm)

theorem firstNames_congr {o : List Uri} (h : ∀ uri, uri ∈ sn ↔ uri ∈ o) :
    firstNames sn ns = firstNames o ns := by
  induction ns generalizing sn o with
  | nil => rfl
  | cons name r ih =>
    have hm : ∀ uri, uri ∈ name :: sn ↔ uri ∈ name :: o := fun uri ↦ by
      rw [mem_cons, mem_cons, h uri]
    simp only [firstNames, h name, ih h, ih hm]

/-- Names that come later are new if they are not among those before. -/
theorem firstNames_append (l : List Uri) :
    firstNames sn (ns ++ l) = firstNames sn ns ++ firstNames (firstNames sn ns ++ sn) l := by
  fun_induction firstNames sn ns with
  | case1 => rfl
  | case2 sn name r hs ih => rw [cons_append, firstNames, if_pos hs, ih]
  | case3 sn name r hs ih =>
    rw [cons_append, firstNames, if_neg hs, ih, cons_append]
    congr 2
    refine firstNames_congr fun uri ↦ ?_
    simp only [mem_append, mem_cons]
    tauto

end Names

/-! ### Rounds -/

section Rounds

variable (load : Loader) (annotate : Annotator) (root : Uri)

/-- The scripts that the one at a uri includes; none if it cannot be loaded. -/
def targetsOf (uri : Uri) : List Uri :=
  ((load? load annotate uri).map Script.targets).getD []

/-- The scripts that a root leads to by some number of includes, breadth first. -/
def breadthFirst : Nat → List Uri
  | 0 => [root]
  | n + 1 => root :: firstNames [root] ((breadthFirst n).flatMap (targetsOf load annotate))

variable {load annotate root}

theorem targetsOf_of_load? {s : Script} (h : load? load annotate uri = some s) :
    targetsOf load annotate uri = s.targets := by
  rw [targetsOf, h]
  rfl

theorem mem_targetsOf_iff {t : Uri} : t ∈ targetsOf load annotate uri ↔
    ∃ s, load? load annotate uri = some s ∧ t ∈ s.targets := by
  unfold targetsOf
  cases load? load annotate uri <;> simp

theorem reachable_iff_exists : Reachable load annotate root uri ↔
    ∃ steps, ReachableIn load annotate root steps uri := by
  constructor
  · intro h
    induction h with
    | root => exact ⟨0, .root⟩
    | included _ hl ht ih =>
      obtain ⟨steps, hs⟩ := ih
      exact ⟨steps + 1, .included hs hl ht⟩
  · rintro ⟨steps, h⟩
    induction h with
    | root => exact .root
    | included _ hl ht ih => exact .included ih hl ht

theorem root_mem_breadthFirst (n : Nat) : root ∈ breadthFirst load annotate root n := by
  cases n <;> exact mem_cons_self

/-- What a script of one round includes is in the next. -/
theorem mem_breadthFirst_succ_iff :
    uri ∈ breadthFirst load annotate root (n + 1) ↔ uri = root ∨
      ∃ o ∈ breadthFirst load annotate root n, uri ∈ targetsOf load annotate o := by
  rw [breadthFirst, mem_cons, mem_firstNames_iff, mem_flatMap, mem_singleton]
  tauto

theorem mem_breadthFirst_iff :
    uri ∈ breadthFirst load annotate root n ↔
      ∃ steps ≤ n, ReachableIn load annotate root steps uri := by
  induction n generalizing uri with
  | zero =>
    rw [breadthFirst, mem_singleton]
    constructor
    · rintro rfl
      exact ⟨0, Nat.le_refl 0, .root⟩
    · rintro ⟨steps, hs, h⟩
      cases h with
      | root => rfl
      | included => exact absurd hs (Nat.not_succ_le_zero _)
  | succ n ih =>
    rw [mem_breadthFirst_succ_iff]
    constructor
    · rintro (rfl | ⟨o, ho, ht⟩)
      · exact ⟨0, Nat.zero_le _, .root⟩
      · obtain ⟨steps, hs, hr⟩ := ih.mp ho
        obtain ⟨script, hl, ht⟩ := mem_targetsOf_iff.mp ht
        exact ⟨steps + 1, Nat.succ_le_succ hs, .included hr hl ht⟩
    · rintro ⟨steps, hs, h⟩
      cases h with
      | root => exact .inl rfl
      | included hr hl ht =>
        exact .inr ⟨_, ih.mpr ⟨_, Nat.le_of_succ_le_succ hs, hr⟩, mem_targetsOf_iff.mpr ⟨_, hl, ht⟩⟩

theorem nodup_round (ns : List Uri) : (root :: firstNames [root] ns).Nodup := by
  refine nodup_cons.mpr ⟨fun hm ↦ ?_, nodup_firstNames⟩
  exact (mem_firstNames_iff.mp hm).2 (mem_singleton.mpr rfl)

theorem nodup_breadthFirst (n : Nat) : (breadthFirst load annotate root n).Nodup := by
  cases n with
  | zero => exact nodup_singleton root
  | succ n => exact nodup_round _

/-- A round starts as it did when less was known. -/
theorem isPrefix_round {ns l : List Uri} (h : ns <+: l) :
    root :: firstNames [root] (ns.flatMap (targetsOf load annotate)) <+:
      root :: firstNames [root] (l.flatMap (targetsOf load annotate)) := by
  obtain ⟨r, rfl⟩ := h
  rw [flatMap_append, firstNames_append, ← cons_append]
  exact prefix_append _ _

theorem isPrefix_breadthFirst {n l : Nat} (h : n ≤ l) :
    breadthFirst load annotate root n <+: breadthFirst load annotate root l := by
  induction n generalizing l with
  | zero =>
    cases l with
    | zero => exact prefix_rfl
    | succ l => exact (prefix_cons_inj root).mpr (List.nil_prefix)
  | succ n ih =>
    cases l with
    | zero => exact absurd h (Nat.not_succ_le_zero _)
    | succ l => exact isPrefix_round (ih (Nat.le_of_succ_le_succ h))

/-- Whether some number of includes at most leads from a root to a script. -/
def ReachableWithin (load : Loader) (annotate : Annotator) (root : Uri) (b : Nat) (uri : Uri) :
    Prop :=
  ∃ ss ≤ b, ReachableIn load annotate root ss uri

/-- Scripts that are nearer to the root come first. -/
theorem pairwise_breadthFirst (n : Nat) :
    (breadthFirst load annotate root n).Pairwise fun x y ↦
      ∀ b, ReachableWithin load annotate root b y → ReachableWithin load annotate root b x := by
  refine pairwise_iff_getElem.mpr fun i j hi hj hlt b hse ↦ ?_
  rcases Nat.le_total n b with hl | hl
  · obtain ⟨ss, hst, hf⟩ := mem_breadthFirst_iff.mp (getElem_mem hi)
    exact ⟨ss, Nat.le_trans hst hl, hf⟩
  · have hs : breadthFirst load annotate root b <+: breadthFirst load annotate root n :=
      isPrefix_breadthFirst hl
    -- The second one is among the first rounds already, and the first one stands before it.
    obtain ⟨k, hk, hkj⟩ := getElem_of_mem (mem_breadthFirst_iff.mpr hse)
    rw [hs.getElem hk, (nodup_breadthFirst n).getElem_inj_iff] at hkj
    have hi' : i < (breadthFirst load annotate root b).length := by omega
    have hf := getElem_mem hi'
    rw [hs.getElem hi'] at hf
    exact mem_breadthFirst_iff.mp hf

/-- Once a round adds nothing, it has all that the root leads to. -/
theorem mem_breadthFirst_of_stable
    (h : breadthFirst load annotate root (n + 1) = breadthFirst load annotate root n)
    (hu : Reachable load annotate root uri) : uri ∈ breadthFirst load annotate root n := by
  induction hu with
  | root => exact root_mem_breadthFirst n
  | included _ hl ht ih =>
    rw [← h]
    exact mem_breadthFirst_succ_iff.mpr (.inr ⟨_, ih, mem_targetsOf_iff.mpr ⟨_, hl, ht⟩⟩)

/-- A list of what the root leads to that is its own next round is what the rounds come to. -/
theorem eq_breadthFirst {order : List Uri}
    (ho : order = root :: firstNames [root] (order.flatMap (targetsOf load annotate)))
    (hr : ∀ uri ∈ order, Reachable load annotate root uri)
    (hro : order.length ≤ n) : order = breadthFirst load annotate root n := by
  have hst : ∀ n, breadthFirst load annotate root n <+: order := by
    intro n
    induction n with
    | zero =>
      rw [ho]
      exact (prefix_cons_inj root).mpr List.nil_prefix
    | succ n ih =>
      rw [ho]
      exact isPrefix_round ih
  have hg : ∀ n, breadthFirst load annotate root n = order ∨
      n < (breadthFirst load annotate root n).length := by
    intro n
    induction n with
    | zero => exact .inr Nat.one_pos
    | succ n ih =>
      rcases ih with heq | hl
      · refine .inl ?_
        rw [breadthFirst, heq, ← ho]
      · have hn := @isPrefix_breadthFirst load annotate root _ (n + 1) (Nat.le_succ n)
        rcases Nat.lt_or_ge (n + 1) (breadthFirst load annotate root (n + 1)).length with
          hm | hles
        · exact .inr hm
        · -- The round added nothing, so that nothing is left.
          have hs := (hn.eq_of_length_le (by omega)).symm
          rw [hs]
          refine .inl ((hst n).eq_of_length_le ?_)
          have hno : order.Nodup := ho ▸ nodup_round _
          exact (Nodup.subperm hno fun uri hu ↦ mem_breadthFirst_of_stable hs (hr uri hu)).length_le
  rcases hg n with heq | hl
  · exact heq.symm
  · have hle := (hst n).length_le
    omega

end Rounds

end StoryScript.Program
