import Mathlib.Data.Set.Card
import StoryScript.Proofs.Program.Closed
import StoryScript.Proofs.Program.Reach
import StoryScript.Proofs.Script.Sections

/-!
The walk over included scripts, seen from outside: what its loader is asked for and what its listener
is told. A loader may have a memory, so that an answer may depend on what was asked before
(`Program.buildWith`); it makes no difference, as no script is asked for twice. Whatever the includes
are, at most `maxScripts` scripts are asked for, and if no more can be reached, the program has
exactly the scripts that can be reached and loaded, in breadth-first order
(`Program.closure_of_buildWith`).
-/

namespace StoryScript.Program

open Frontier List Program.Script

variable {uri : Uri} {ask : Loader}

/-- A loader with a memory: its answer, and what it remembers then. -/
abbrev StatefulLoader (σ : Type) := Uri → σ → Option Source × σ

/-- What a walk found, what its loader was asked for with its answers, and what its listener was
told: each script that was loaded, with how many had been by then. -/
structure Walked (σ : Type) where
  collected : Collected
  calls : List (Uri × Option Source)
  told : List (Uri × Nat)
  state : σ

/-- The script that a source makes. -/
def Script.ofSource (annotate : Annotator) (uri : Uri) (s : Source) : Script :=
  ⟨uri, s.version, s.text, annotate s.text⟩

section Walk

variable {σ : Type} (load : StatefulLoader σ) (annotate : Annotator)

/-- `collect` with a loader that has a memory, and behind a number of scripts that have been loaded. -/
def collectWith (n : Nat) (q : List Pending) (sn : List Uri) (state : σ) : Walked σ :=
  match q with
  | [] => ⟨⟨[], []⟩, [], [], state⟩
  | p :: q =>
    match load p.uri state with
    | (none, state) =>
      let r := collectWith n q sn state
      { r with
        collected := { r.collected with missing := p.inclusion :: r.collected.missing }
        calls := (p.uri, none) :: r.calls }
    | (some s, state) =>
      let sc := Script.ofSource annotate p.uri s
      let f := extend sc ⟨q, sn⟩ sc.annotations.includes.items
      let r := collectWith (n + 1) f.queue f.seen state
      { r with
        collected := { r.collected with scripts := sc :: r.collected.scripts }
        calls := (p.uri, some s) :: r.calls
        told := (p.uri, n + 1) :: r.told }
termination_by q.length + (maxScripts - sn.length)
decreasing_by
  · simp only [length_cons]; omega
  · have h := bound_extend (Script.ofSource annotate p.uri s) ⟨q, sn⟩
      (Script.ofSource annotate p.uri s).annotations.includes.items
    simp only [bound] at h
    simp only [length_cons]
    omega

/-- What a build does: the program, if the root can be loaded, and all that its loader was asked for
and its listener was told. -/
structure Built where
  program : Option Program
  calls : List (Uri × Option Source)
  told : List (Uri × Nat)

/-- `build?` with a loader that has a memory. -/
def buildWith (builtins : Keys String) (root : Uri) (state : σ) : Built :=
  match load root state with
  | (none, _) => ⟨none, [(root, none)], []⟩
  | (some src, state) =>
    let s := Script.ofSource annotate root src
    let f := extend s ⟨[], [root]⟩ s.annotations.includes.items
    let r := collectWith load annotate 1 f.queue f.seen state
    { program := some (ofScripts builtins root
        { r.collected with scripts := s :: r.collected.scripts })
      calls := (root, some src) :: r.calls
      told := (root, 1) :: r.told }

end Walk

/-- Whether a loader gives the answers that were given. -/
def Agrees (ask : Loader) (calls : List (Uri × Option Source)) : Prop :=
  ∀ call ∈ calls, ask call.1 = call.2

theorem agrees_cons {call : Uri × Option Source} {calls : List (Uri × Option Source)} :
    Agrees ask (call :: calls) ↔ ask call.1 = call.2 ∧ Agrees ask calls :=
  forall_mem_cons

theorem load?_of_source {annotate : Annotator} {s : Source} (h : ask uri = some s) :
    load? ask annotate uri = some (Script.ofSource annotate uri s) := by
  rw [load?, h]
  rfl

theorem load?_of_none {annotate : Annotator} (h : ask uri = none) :
    load? ask annotate uri = none := by
  rw [load?, h]
  rfl

section Asking

variable {σ : Type} {load : StatefulLoader σ} {annotate : Annotator} {n : Nat}
  {q : List Pending} {sn : List Uri} {state : σ}

/-- A loader's memory makes no difference to what is found, and the scripts that are found are those
asked for that can be loaded. -/
theorem collected_of_agrees (h : Agrees ask (collectWith load annotate n q sn state).calls) :
    (collectWith load annotate n q sn state).collected = collect ask annotate q sn ∧
      (collectWith load annotate n q sn state).collected.scripts =
        ((collectWith load annotate n q sn state).calls.map Prod.fst).filterMap
          (load? ask annotate) := by
  fun_induction collectWith load annotate n q sn state with
  | case1 => exact ⟨by rw [collect], rfl⟩
  | case2 n sn state p q state' hl r ih =>
    obtain ⟨hf, hr⟩ := agrees_cons.mp h
    rw [collect, map_cons, load?_of_none hf, filterMap_cons_none (load?_of_none hf)]
    dsimp only
    rw [← (ih hr).1]
    exact ⟨rfl, (ih hr).2⟩
  | case3 n sn state p q s state' hl sc f r ih =>
    obtain ⟨hf, hr⟩ := agrees_cons.mp h
    rw [collect, map_cons, load?_of_source hf, filterMap_cons_some (load?_of_source hf), ← (ih hr).2]
    dsimp only
    rw [← (ih hr).1]
    exact ⟨rfl, rfl⟩

/-- The listener is told of every script that is loaded, as many as there are by then. -/
theorem told_collectWith :
    (collectWith load annotate n q sn state).told =
      ((collectWith load annotate n q sn state).collected.scripts.zipIdx n).map
        fun e ↦ (e.1.uri, e.2 + 1) := by
  fun_induction collectWith load annotate n q sn state with
  | case1 => rfl
  | case2 n sn state p q state' hl r ih => exact ih
  | case3 n sn state p q s state' hl sc f r ih =>
    rw [zipIdx_cons, map_cons, ← ih]
    rfl

/-- No script is asked for twice, only what waits or has not been named is asked for, and no more
than the limit allows. -/
theorem calls_collectWith (h : Frontier.Distinct ⟨q, sn⟩) :
    ((collectWith load annotate n q sn state).calls.map Prod.fst).Nodup ∧
      (∀ uri ∈ (collectWith load annotate n q sn state).calls.map Prod.fst,
        Frontier.Awaits ⟨q, sn⟩ uri) ∧
      (collectWith load annotate n q sn state).calls.length ≤ bound ⟨q, sn⟩ := by
  fun_induction collectWith load annotate n q sn state with
  | case1 => exact ⟨nodup_nil, forall_mem_nil _, Nat.zero_le _⟩
  | case2 n sn state p q state' hlo r ih =>
    obtain ⟨hn, ha, hl⟩ := ih h.tail
    obtain ⟨hn, ha⟩ := h.next hn ha
    replace hl : r.calls.length ≤ q.length + (maxScripts - sn.length) := hl
    refine ⟨hn, ha, ?_⟩
    simp only [bound, length_cons]
    omega
  | case3 n sn state p q src state' hlo s f r ih =>
    obtain ⟨hd, hb⟩ := h.tail.extend s s.annotations.includes.items
    obtain ⟨hn, ha, hl⟩ := ih hd
    obtain ⟨hn, ha⟩ := h.next hn fun uri hu ↦ hb uri (ha uri hu)
    have hbo : r.calls.length ≤ q.length + (maxScripts - sn.length) :=
      Nat.le_trans hl (bound_extend s ⟨q, sn⟩ _)
    refine ⟨hn, ha, ?_⟩
    simp only [bound, length_cons]
    omega

end Asking

/-! ### The order of the walk -/

/-- A frontier within a set of names. -/
structure Frontier.Within (named : Finset Uri) (frontier : Frontier) : Prop where
  nodup : frontier.seen.Nodup
  subset : ∀ uri ∈ frontier.seen, uri ∈ named

section Order

variable {named : Finset Uri}

/-- When the limit is reached, all has been named. -/
theorem Frontier.Within.mem_seen {f : Frontier} (h : f.Within named)
    (hn : named.card ≤ maxScripts) (hl : maxScripts ≤ f.seen.length)
    (hu : uri ∈ named) : uri ∈ f.seen := by
  have hs : f.seen.toFinset ⊆ named :=
    fun uri hu ↦ h.subset uri (mem_toFinset.mp hu)
  have hc : named.card ≤ f.seen.toFinset.card := by
    rw [toFinset_card_of_nodup h.nodup]
    exact Nat.le_trans hn hl
  rw [← Finset.eq_of_subset_of_card_le hs hc, mem_toFinset] at hu
  exact hu

/-- The includes of a script put the new ones among their scripts in the queue, in order. If no more
than the limit can be named, none is left out: once the limit is reached, none is new. -/
theorem Frontier.Within.extend {f : Frontier} (h : f.Within named)
    (hnam : named.card ≤ maxScripts) (s : Script) (xs : List (Annotated Include))
    (hi : ∀ t ∈ xs.filterMap s.target?, t ∈ named) :
    (f.extend s xs).Within named ∧
      (f.extend s xs).queue.map Pending.uri = f.queue.map Pending.uri ++
        firstNames f.seen (xs.filterMap s.target?) ∧
      (f.extend s xs).seen = (firstNames f.seen (xs.filterMap s.target?)).reverse ++ f.seen := by
  fun_induction Frontier.extend s f xs with
  | case1 => exact ⟨h, (append_nil _).symm, rfl⟩
  | case2 f x r hno ih =>
    rw [filterMap_cons_none (show s.target? x = none from hno)] at hi ⊢
    exact ih h hi
  | case3 f x r t _ hli =>
    rw [firstNames_eq_nil fun name hna ↦ h.mem_seen hnam hli (hi name hna)]
    exact ⟨h, (append_nil _).symm, rfl⟩
  | case4 f x r t ht _ hs ih =>
    rw [filterMap_cons_some (show s.target? x = some t from ht)] at hi ⊢
    rw [firstNames, if_pos hs]
    exact ih h (forall_mem_cons.mp hi).2
  | case5 f x r t ht _ hn ih =>
    rw [filterMap_cons_some (show s.target? x = some t from ht)] at hi ⊢
    obtain ⟨hf, hl⟩ := forall_mem_cons.mp hi
    obtain ⟨hw, hq, hs⟩ := ih ⟨nodup_cons.mpr ⟨hn, h.nodup⟩, forall_mem_cons.mpr ⟨hf, h.subset⟩⟩ hl
    rw [firstNames, if_neg hn]
    refine ⟨hw, ?_, ?_⟩
    · rw [hq, map_append, append_assoc]
      rfl
    · rw [hs, reverse_cons, append_assoc]
      rfl

variable {σ : Type} {load : StatefulLoader σ} {annotate : Annotator} {n : Nat}
  {q : List Pending} {sn : List Uri} {state : σ}

/-- Scripts are asked for in the order in which they are named: first those that wait, and then what
the scripts that are asked for include, each one where it is first named. -/
theorem order_of_agrees (h : Agrees ask (collectWith load annotate n q sn state).calls)
    (hna : named.card ≤ maxScripts)
    (hc : ∀ uri ∈ named, ∀ t ∈ targetsOf ask annotate uri, t ∈ named)
    (hw : Frontier.Within named ⟨q, sn⟩)
    (hq : ∀ uri ∈ q.map Pending.uri, uri ∈ named) :
    (collectWith load annotate n q sn state).calls.map Prod.fst = q.map Pending.uri ++ firstNames sn
        (((collectWith load annotate n q sn state).calls.map Prod.fst).flatMap
          (targetsOf ask annotate)) := by
  fun_induction collectWith load annotate n q sn state with
  | case1 => rfl
  | case2 n sn state p q state' hlo r ih =>
    obtain ⟨hf, hr⟩ := agrees_cons.mp h
    have ht : targetsOf ask annotate p.uri = [] := by
      rw [targetsOf, load?_of_none hf]
      rfl
    rw [map_cons, map_cons, flatMap_cons, ht, nil_append,
      cons_append, ← ih hr ⟨hw.nodup, hw.subset⟩ (forall_mem_cons.mp hq).2]
  | case3 n sn state p q src state' hlo s f r ih =>
    obtain ⟨hf, hr⟩ := agrees_cons.mp h
    obtain ⟨hp, hwa⟩ := forall_mem_cons.mp hq
    have ht : targetsOf ask annotate p.uri = s.targets :=
      targetsOf_of_load? (load?_of_source hf)
    have hn : ∀ t ∈ s.targets, t ∈ named := ht ▸ hc _ hp
    have hb : Frontier.Within named ⟨q, sn⟩ := ⟨hw.nodup, hw.subset⟩
    obtain ⟨he, hne, hnam⟩ := hb.extend hna s s.annotations.includes.items hn
    have hl : ∀ uri ∈ f.queue.map Pending.uri, uri ∈ named := by
      rw [hne]
      refine forall_mem_append.mpr ⟨hwa, fun uri hu ↦ ?_⟩
      exact hn uri (mem_firstNames_iff.mp hu).1
    have ho := ih hr he hl
    have hs : firstNames f.seen = firstNames (firstNames sn s.targets ++ sn) := by
      funext ns
      refine firstNames_congr fun uri ↦ ?_
      rw [hnam, mem_append, mem_append, mem_reverse]
      rfl
    rw [map_cons, map_cons, flatMap_cons, ht, cons_append, firstNames_append, ← hs, ← append_assoc]
    refine congrArg (p.uri :: ·) (ho.trans ?_)
    rw [hne]
    rfl

theorem Frontier.uri_of_mem_extend (s : Script) (f : Frontier) (xs : List (Annotated Include)) :
    ∀ p ∈ (f.extend s xs).queue, p ∈ f.queue ∨ p.uri ∈ xs.filterMap s.target? := by
  fun_induction extend s f xs with
  | case1 | case3 => exact fun _ ↦ Or.inl
  | case2 f x r hno ih =>
    rwa [filterMap_cons_none (show s.target? x = none from hno)]
  | case4 f x r t ht _ _ ih =>
    rw [filterMap_cons_some (show s.target? x = some t from ht)]
    exact fun p hp ↦ (ih p hp).imp_right (mem_cons_of_mem _)
  | case5 f x r t ht _ _ ih =>
    rw [filterMap_cons_some (show s.target? x = some t from ht)]
    intro p hp
    rcases ih p hp with hq | hl
    · rcases mem_append.mp hq with hq | hn
      · exact .inl hq
      · rw [mem_singleton.mp hn]
        exact .inr mem_cons_self
    · exact .inr (mem_cons_of_mem _ hl)

/-- Only what the root leads to is asked for. -/
theorem reachable_of_agrees {root : Uri} (hq : ∀ p ∈ q, Reachable ask annotate root p.uri)
    (h : Agrees ask (collectWith load annotate n q sn state).calls) :
    ∀ uri ∈ (collectWith load annotate n q sn state).calls.map Prod.fst,
      Reachable ask annotate root uri := by
  fun_induction collectWith load annotate n q sn state with
  | case1 => exact forall_mem_nil _
  | case2 n sn state p q state' hlo r ih =>
    obtain ⟨hf, hl⟩ := forall_mem_cons.mp hq
    exact forall_mem_cons.mpr ⟨hf, ih hl (agrees_cons.mp h).2⟩
  | case3 n sn state p q src state' hlo s f r ih =>
    obtain ⟨hf, hl⟩ := forall_mem_cons.mp hq
    obtain ⟨ha, hr⟩ := agrees_cons.mp h
    refine forall_mem_cons.mpr ⟨hf, ih (fun waiting hw ↦ ?_) hr⟩
    rcases uri_of_mem_extend s _ _ waiting hw with hw | ht
    · exact hl waiting hw
    · exact .included hf (load?_of_source ha) ht

end Order

/-! ### The walk from a root -/

/-- The walk from a root, which waits alone. -/
def walkFrom {σ : Type} (load : StatefulLoader σ) (annotate : Annotator) (root : Uri) (state : σ) :
    Walked σ :=
  collectWith load annotate 0 [⟨root, default⟩] [root] state

section Root

variable {σ : Type} (load : StatefulLoader σ) (annotate : Annotator) (root : Uri) (state : σ)

theorem buildWith_eq (builtins : Keys String) :
    buildWith load annotate builtins root state =
      { program := (load root state).1.map fun _ ↦
          ofScripts builtins root (walkFrom load annotate root state).collected
        calls := (walkFrom load annotate root state).calls
        told := (walkFrom load annotate root state).told } := by
  rw [buildWith, walkFrom, collectWith]
  rcases load root state with ⟨_ | s, nx⟩
  · dsimp only
    rw [collectWith]
    rfl
  · rfl

theorem collectFrom?_eq_collect (ask : Loader) :
    collectFrom? ask annotate root = (load? ask annotate root).map fun _ ↦
      collect ask annotate [⟨root, default⟩] [root] := by
  rw [collectFrom?, collect]
  cases load? ask annotate root <;> rfl

theorem distinct_root : Frontier.Distinct ⟨[⟨root, default⟩], [root]⟩ :=
  ⟨nodup_singleton root, fun _ ↦ id⟩

theorem nodup_calls_walkFrom : ((walkFrom load annotate root state).calls.map Prod.fst).Nodup :=
  (calls_collectWith (distinct_root root)).1

theorem length_calls_walkFrom : (walkFrom load annotate root state).calls.length ≤ maxScripts :=
  (calls_collectWith (distinct_root root)).2.2

/-- The first call is for the root. -/
theorem head?_calls_walkFrom :
    (walkFrom load annotate root state).calls.head? = some (root, (load root state).1) := by
  rw [walkFrom, collectWith]
  rcases load root state with ⟨_ | s, nx⟩ <;> rfl

variable {load annotate root state}

section

variable (hfew : Set.encard {uri | Reachable ask annotate root uri} ≤ maxScripts)
  (h : Agrees ask (walkFrom load annotate root state).calls)

include hfew h

/-- While no more scripts can be reached than may be named, what is asked for is what the rounds come
to. -/
theorem order_walkFrom {rs : Nat} (hro : maxScripts ≤ rs) :
    (walkFrom load annotate root state).calls.map Prod.fst = breadthFirst ask annotate root rs := by
  have hf : {uri | Reachable ask annotate root uri}.Finite := Set.finite_of_encard_le_coe hfew
  have hn : hf.toFinset.card ≤ maxScripts := by
    rw [hf.encard_eq_coe_toFinset_card] at hfew
    exact_mod_cast hfew
  have hm : ∀ {uri}, uri ∈ hf.toFinset ↔ Reachable ask annotate root uri := hf.mem_toFinset
  have hr : ∀ uri ∈ [root], uri ∈ hf.toFinset := forall_mem_singleton.mpr (hm.mpr .root)
  have hc : ∀ uri ∈ hf.toFinset, ∀ t ∈ targetsOf ask annotate uri, t ∈ hf.toFinset := by
    intro uri hu t ht
    obtain ⟨s, hl, ht⟩ := mem_targetsOf_iff.mp ht
    exact hm.mpr (.included (hm.mp hu) hl ht)
  have ho := order_of_agrees h hn hc ⟨nodup_singleton root, hr⟩ hr
  refine eq_breadthFirst ho (reachable_of_agrees (forall_mem_singleton.mpr .root) h) ?_
  rw [length_map]
  exact Nat.le_trans (length_calls_walkFrom load annotate root state) hro

/-- Then all that can be reached is asked for, and nothing else. -/
theorem mem_calls_walkFrom_iff :
    uri ∈ (walkFrom load annotate root state).calls.map Prod.fst ↔
      Reachable ask annotate root uri := by
  refine ⟨reachable_of_agrees (forall_mem_singleton.mpr .root) h uri, fun hu ↦ ?_⟩
  obtain ⟨ss, hs⟩ := reachable_iff_exists.mp hu
  rw [order_walkFrom hfew h (Nat.le_max_left maxScripts ss)]
  exact mem_breadthFirst_iff.mpr ⟨ss, Nat.le_max_right _ _, hs⟩

end

/-- The scripts of the walk are those that can be loaded, in its order. -/
theorem map_uri_scripts_walkFrom (h : Agrees ask (walkFrom load annotate root state).calls) :
    (walkFrom load annotate root state).collected.scripts.map Script.uri =
      ((walkFrom load annotate root state).calls.map Prod.fst).filter
        fun uri ↦ (ask uri).isSome := by
  have hs : (walkFrom load annotate root state).collected.scripts = _ := (collected_of_agrees h).2
  rw [hs, map_filterMap, ← filterMap_eq_filter]
  refine congrArg (List.filterMap · _) (funext fun uri ↦ ?_)
  rw [load?, Option.map_map]
  cases ha : ask uri <;> simp [Option.guard, ha]

end Root

/-! ### What a build does -/

section Built

variable {σ : Type} {load : StatefulLoader σ} {annotate : Annotator} {builtins : Keys String}
  {root : Uri} {state : σ}

/-- A loader that answers as was answered. -/
theorem exists_agrees {calls : List (Uri × Option Source)} (h : (calls.map Prod.fst).Nodup) :
    ∃ ask, Agrees ask calls := by
  refine ⟨fun uri ↦ (calls.find? fun call ↦ call.1 = uri).bind Prod.snd, fun call hc ↦ ?_⟩
  dsimp only
  cases hf : calls.find? fun o ↦ o.1 = call.1 with
  | none => simpa using find?_eq_none.mp hf call hc
  | some o =>
    have heq : o.1 = call.1 := by simpa using find?_some hf
    rw [inj_on_of_nodup_map h (mem_of_find?_eq_some hf) hc heq]
    rfl

variable (h : Agrees ask (walkFrom load annotate root state).calls)

include h

/-- The answer for the root is that to the first call. -/
theorem ask_root : ask root = (load root state).1 :=
  h _ (mem_of_mem_head? (head?_calls_walkFrom load annotate root state))

/-- What is found from a root, if the root can be loaded. -/
theorem collectFrom?_of_agrees :
    collectFrom? ask annotate root =
      (ask root).map fun _ ↦ (walkFrom load annotate root state).collected := by
  rw [collectFrom?_eq_collect, load?, Option.map_map, walkFrom, (collected_of_agrees h).1]
  rfl

theorem scripts_eq_nil (hr : ask root = none) :
    (walkFrom load annotate root state).collected.scripts = [] := by
  rw [walkFrom, (collected_of_agrees h).1, collect, load?_of_none hr]
  dsimp only
  rw [collect]

theorem program_buildWith :
    (buildWith load annotate builtins root state).program = build? annotate builtins ask root := by
  rw [buildWith_eq, build?, collectFrom?_of_agrees h, Option.map_map, ask_root h]
  rfl

theorem told_buildWith :
    (buildWith load annotate builtins root state).told = progress annotate ask root := by
  rw [buildWith_eq, progress, collectFrom?_of_agrees h]
  dsimp only
  rw [walkFrom, told_collectWith]
  cases hr : ask root with
  | none =>
    rw [show (collectWith load annotate 0 [⟨root, default⟩] [root] state).collected.scripts = [] from
      scripts_eq_nil h hr]
    rfl
  | some s => rfl

end Built

/-! ### Loaders without a memory -/

section Stateless

variable {annotate : Annotator} {builtins : Keys String} {root : Uri}

/-- A loader that has nothing to remember. -/
def stateless (ask : Loader) : StatefulLoader Unit :=
  fun uri state ↦ (ask uri, state)

theorem agrees_stateless {n : Nat} {q : List Pending} {sn : List Uri} {state : Unit} :
    Agrees ask (collectWith (stateless ask) annotate n q sn state).calls := by
  fun_induction collectWith (stateless ask) annotate n q sn state with
  | case1 => exact forall_mem_nil _
  | case2 n sn state p q state' hl r ih =>
    exact agrees_cons.mpr ⟨congrArg Prod.fst hl, ih⟩
  | case3 n sn state p q s state' hl sc f r ih =>
    exact agrees_cons.mpr ⟨congrArg Prod.fst hl, ih⟩

variable {collected : Collected} (h : collectFrom? ask annotate root = some collected)

include h

theorem collected_walkFrom_stateless :
    (walkFrom (stateless ask) annotate root ()).collected = collected := by
  rw [collectFrom?_of_agrees agrees_stateless] at h
  exact (Option.map_eq_some_iff.mp h).choose_spec.2

/-- What is found was reached and loaded. -/
theorem reachable_of_mem_collectFrom? :
    ∀ s ∈ collected.scripts, Reachable ask annotate root s.uri := by
  intro s hs
  have hu : s.uri ∈ collected.scripts.map Script.uri := mem_map_of_mem hs
  rw [← collected_walkFrom_stateless h, map_uri_scripts_walkFrom agrees_stateless] at hu
  exact reachable_of_agrees (forall_mem_singleton.mpr .root) agrees_stateless _
    (mem_of_mem_filter hu)

variable (hfew : Set.encard {uri | Reachable ask annotate root uri} ≤ maxScripts)

include hfew

/-- While no more can be reached than may be named, all that can be reached and loaded is found. -/
theorem mem_collectFrom?_of_reachable (hu : Reachable ask annotate root uri) {s : Script}
    (hl : load? ask annotate uri = some s) : s ∈ collected.scripts := by
  rw [← collected_walkFrom_stateless h, walkFrom, (collected_of_agrees agrees_stateless).2]
  exact mem_filterMap.mpr ⟨uri, (mem_calls_walkFrom_iff hfew agrees_stateless).mpr hu, hl⟩

theorem map_uri_scripts_collectFrom? :
    collected.scripts.map Script.uri =
      (breadthFirst ask annotate root maxScripts).filter fun uri ↦ (ask uri).isSome := by
  rw [← collected_walkFrom_stateless h, map_uri_scripts_walkFrom agrees_stateless,
    order_walkFrom hfew agrees_stateless (Nat.le_refl _)]

theorem exists_mem_collectFrom?_iff (uri : Uri) :
    (∃ s ∈ collected.scripts, s.uri = uri) ↔
      Reachable ask annotate root uri ∧ (ask uri).isSome = true := by
  constructor
  · rintro ⟨s, hs, rfl⟩
    refine ⟨reachable_of_mem_collectFrom? h s hs, ?_⟩
    rw [← Option.isSome_map, ← load?, load?_of_mem_collectFrom? h hs]
    rfl
  · rintro ⟨hu, hso⟩
    obtain ⟨src, hsr⟩ := Option.isSome_iff_exists.mp hso
    exact ⟨_, mem_collectFrom?_of_reachable h hfew hu (load?_of_source hsr), rfl⟩

end Stateless

/-! ### Closure -/

/-- A program with all scripts that its root leads to and that can be loaded, of which a listener was
told breadth first, one after the other. -/
structure Closes (ask : Loader) (annotate : Annotator) (root : Uri) (program : Program)
    (told : List (Uri × Nat)) : Prop where
  versions : ∀ uri version, program.versionOf? uri = some version ↔
    Reachable ask annotate root uri ∧ ∃ source, ask uri = some source ∧ source.version = version
  heard : ∀ uri, uri ∈ told.map Prod.fst ↔ Reachable ask annotate root uri ∧ (ask uri).isSome = true
  once : (told.map Prod.fst).Nodup
  counts : told.map Prod.snd = List.range' 1 told.length
  order : told.map Prod.fst =
    (breadthFirst ask annotate root maxScripts).filter fun uri ↦ (ask uri).isSome
  nearer : (told.map Prod.fst).Pairwise fun first second ↦
    ∀ bound, ReachableWithin ask annotate root bound second →
      ReachableWithin ask annotate root bound first

section Closure

variable {annotate : Annotator} {builtins : Keys String} {root : Uri} {program : Program}

/-- No more scripts can be reached than are in a list that includes do not lead out of. -/
theorem encard_reachable_le (us : List Uri) (hro : root ∈ us)
    (hc : ∀ uri ∈ us, ∀ s ∈ load? ask annotate uri, ∀ t ∈ s.targets, t ∈ us) :
    Set.encard {uri | Reachable ask annotate root uri} ≤ us.length := by
  have hr : ∀ uri, Reachable ask annotate root uri → uri ∈ us := by
    intro uri hu
    induction hu with
    | root => exact hro
    | included _ hl ht ih => exact hc _ ih _ hl _ ht
  have hs : {uri | Reachable ask annotate root uri} ⊆ (us.toFinset : Set Uri) :=
    fun uri hu ↦ mem_toFinset.mpr (hr uri hu)
  refine le_trans (Set.encard_le_encard hs) ?_
  rw [Set.encard_coe_eq_coe_finsetCard]
  exact_mod_cast toFinset_card_le us

theorem map_snd_progress :
    (progress annotate ask root).map Prod.snd =
      List.range' 1 (progress annotate ask root).length := by
  unfold progress
  cases collectFrom? ask annotate root with
  | none => rfl
  | some collected =>
    have hc : (Prod.snd ∘ fun e : Script × Nat ↦ (e.1.uri, e.2 + 1)) =
        (1 + ·) ∘ Prod.snd := funext fun e ↦ Nat.add_comm e.2 1
    dsimp only
    rw [map_map, hc, ← map_map, zipIdx_map_snd, map_add_range', length_map, length_zipIdx]

theorem closes_of_build? (hfew : Set.encard {uri | Reachable ask annotate root uri} ≤ maxScripts)
    (h : build? annotate builtins ask root = some program) :
    Closes ask annotate root program (progress annotate ask root) := by
  obtain ⟨collected, hc, hp⟩ := Option.map_eq_some_iff.mp h
  have hcov : ∀ uri, program.covers uri = true ↔
      Reachable ask annotate root uri ∧ (ask uri).isSome = true := by
    intro uri
    rw [← hp, covers_ofScripts_iff, exists_mem_collectFrom?_iff hc hfew]
  have ho : (progress annotate ask root).map Prod.fst =
      (breadthFirst ask annotate root maxScripts).filter fun uri ↦ (ask uri).isSome := by
    rw [map_fst_progress hc, map_uri_scripts_collectFrom? hc hfew]
  refine ⟨fun uri v ↦ ⟨fun hv ↦ ?_, ?_⟩, fun uri ↦ ?_, ?_, map_snd_progress, ho, ?_⟩
  · have hco : program.covers uri = true := (Table.contains_iff _ _).mpr ⟨v, hv⟩
    obtain ⟨hu, hso⟩ := (hcov uri).mp hco
    obtain ⟨s, hs⟩ := Option.isSome_iff_exists.mp hso
    rw [versionOf?_of_build? h hs hco, Option.some.injEq] at hv
    exact ⟨hu, s, hs, hv⟩
  · rintro ⟨hu, s, hs, rfl⟩
    exact versionOf?_of_build? h hs ((hcov uri).mpr ⟨hu, Option.isSome_of_eq_some hs⟩)
  · rw [map_fst_progress hc, mem_map]
    exact exists_mem_collectFrom?_iff hc hfew uri
  · rw [ho]
    exact (nodup_breadthFirst _).filter _
  · rw [ho]
    exact (pairwise_breadthFirst _).filter _

/-- However the includes lead, a build asks for no script twice and for no more than a limit, so that
some loader without a memory would have answered the same. With such a loader, the build gives the
same program and tells the same; it gives none only if the root cannot be loaded. If no more scripts
can be reached than the limit, the program has just those that can be loaded. -/
theorem closure_of_buildWith {σ : Type} (load : StatefulLoader σ) (annotate : Annotator)
    (builtins : Keys String) (root : Uri) (state : σ) :
    let built := buildWith load annotate builtins root state
    (built.calls.map Prod.fst).Nodup ∧ built.calls.length ≤ maxScripts ∧
      (built.program = none ↔ (load root state).1 = none) ∧
      (∃ ask, Agrees ask built.calls) ∧
      ∀ ask, Agrees ask built.calls → built.program = build? annotate builtins ask root ∧
        built.told = progress annotate ask root ∧
        (Set.encard {uri | Reachable ask annotate root uri} ≤ maxScripts →
          ∀ program, built.program = some program →
            Closes ask annotate root program built.told) := by
  dsimp only
  have hcalls : (buildWith load annotate builtins root state).calls =
      (walkFrom load annotate root state).calls := by rw [buildWith_eq]
  have hnodup := nodup_calls_walkFrom load annotate root state
  rw [hcalls]
  refine ⟨hnodup, length_calls_walkFrom load annotate root state, ?_, exists_agrees hnodup, ?_⟩
  · rw [buildWith_eq, Option.map_eq_none_iff]
  · intro ask h
    rw [program_buildWith h, told_buildWith h]
    exact ⟨rfl, rfl, fun hfew program hprogram ↦ closes_of_build? hfew hprogram⟩

end Closure

def cellarUri : Uri := ⟨"file:///cellar.ink"⟩

/-- A story that goes round: its second script includes the first one, a third one, and one that
there is not. -/
def ringText (uri : Uri) : Option String :=
  if uri = innUri then some "INCLUDE room.ink\nINCLUDE attic.ink\n"
  else if uri = roomUri then some "INCLUDE inn.ink\nINCLUDE cellar.ink\nINCLUDE attic.ink\n"
  else if uri = atticUri then some "INCLUDE attic.ink\n"
  else none

/-- A loader that counts what it is asked for, and gives each script the number of its call. -/
def countingRing : StatefulLoader Version := fun uri asked ↦
  ((ringText uri).map (⟨asked + 1, ·⟩), asked + 1)

def ringLoader : Loader := fun uri ↦
  (ringText uri).map (⟨if uri = innUri then 1 else if uri = roomUri then 2 else 3, ·⟩)

theorem closure_of_buildWith_ring :
    ∃ program, (buildWith countingRing StoryScript.Script.annotate Table.empty innUri 0).program =
        some program ∧
      (buildWith countingRing StoryScript.Script.annotate Table.empty innUri 0).calls.map Prod.fst =
        [innUri, roomUri, atticUri, cellarUri] ∧
      (buildWith countingRing StoryScript.Script.annotate Table.empty innUri 0).told =
        [(innUri, 1), (roomUri, 2), (atticUri, 3)] ∧
      Closes ringLoader StoryScript.Script.annotate innUri program
        [(innUri, 1), (roomUri, 2), (atticUri, 3)] := by
  have hcalls : (buildWith countingRing StoryScript.Script.annotate Table.empty innUri 0).calls =
      [innUri, roomUri, atticUri, cellarUri].map fun uri ↦ (uri, ringLoader uri) := by
    rw [StoryScript.Script.annotate_eq_annotateInOrder]
    decide +kernel
  have htold : (buildWith countingRing StoryScript.Script.annotate Table.empty innUri 0).told =
      [(innUri, 1), (roomUri, 2), (atticUri, 3)] := by
    rw [StoryScript.Script.annotate_eq_annotateInOrder]
    decide +kernel
  obtain ⟨-, -, hnone, -, hagrees⟩ :=
    closure_of_buildWith countingRing StoryScript.Script.annotate Table.empty innUri 0
  have hfew : Set.encard {uri | Reachable ringLoader StoryScript.Script.annotate innUri uri} ≤
      maxScripts := by
    refine le_trans (encard_reachable_le [innUri, roomUri, atticUri, cellarUri] (by decide) ?_)
      (by exact_mod_cast (by decide : 4 ≤ maxScripts))
    rw [StoryScript.Script.annotate_eq_annotateInOrder]
    decide +kernel
  cases hprogram : (buildWith countingRing StoryScript.Script.annotate Table.empty innUri 0).program with
  | none => cases hnone.mp hprogram
  | some program =>
    obtain ⟨-, -, hcloses⟩ := hagrees ringLoader
      (by rw [hcalls]; exact forall_mem_map.mpr fun _ _ ↦ rfl)
    refine ⟨program, rfl, by rw [hcalls]; rfl, htold, ?_⟩
    rw [← htold]
    exact hcloses hfew program hprogram

end StoryScript.Program
