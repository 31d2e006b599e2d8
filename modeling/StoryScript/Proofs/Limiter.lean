import Mathlib.Algebra.BigOperators.Group.List.Basic
import Mathlib.Algebra.Ring.Nat
import Mathlib.Data.List.Nodup
import StoryScript.Limiter

/-!
What a task does at some time is said once (`LimiterTask.Goes`).

A limiter comes to rest. Its tasks are told apart by their numbers (`Limiter.Numbered`), so what a
task does changes the limiter's weight by as much as its own: moving on makes it less, and an action
takes off three (`LimiterTask.Goes.lightens`), of which the end of the action gives back at most one.
-/

namespace StoryScript

open LimiterTask List

/-- A list whose items have different keys is one of them and those with other keys. -/
theorem perm_cons_filter_of_nodup {α : Type} [DecidableEq α] {key : α → Nat} {xs : List α}
    (h : (xs.map key).Nodup) {x : α} (hi : x ∈ xs) :
    xs.Perm (x :: xs.filter fun o ↦ key o ≠ key x) := by
  have hk : (xs.filter fun o ↦ key o ≠ key x) = xs.erase x := by
    rw [(Nodup.of_map key h).erase_eq_filter]
    refine filter_congr fun o ho ↦ ?_
    rw [Bool.eq_iff_iff]
    simp only [ne_eq, decide_eq_true_eq, bne_iff_ne]
    exact not_congr (inj_on_of_nodup_map h ho hi |> fun hin ↦ ⟨hin, congrArg key⟩)
  rw [hk]
  exact perm_cons_erase hi

namespace LimiterTask

theorem weight_pos (task : LimiterTask) : 0 < task.weight := by
  unfold weight
  cases task.phase <;> simp

section

variable (mode : LimiterMode) (interval now : Nat) (task : LimiterTask)

/-- What a task can do at some time, each with what makes it do so. -/
inductive Goes : TaskStep → Prop
  | act (h : task.phase = .acting) : Goes .wait
  | listen (h : task.phase = .idle) (hsignals : task.signals = 0) (hopen : task.isClosed = false) :
      Goes .wait
  | sleep {time : Nat} (h : task.phase.deadline? = some time) (htime : now < time)
      (hsettling : task.phase = .settling time → task.signals = 0 ∧ task.isClosed = false) :
      Goes .wait
  | leave (h : task.phase ≠ .acting) (hrested : ∀ time, task.phase ≠ .resting time)
      (hsignals : task.signals = 0) (hclosed : task.isClosed = true) : Goes .stop
  | lead (h : task.phase = .idle) (hsignals : 0 < task.signals) (hmode : mode = .throttle) :
      Goes (.act { task with phase := .acting, signals := task.signals - 1 })
  | trail {time : Nat} (h : task.phase = .resting time) (htime : time ≤ now)
      (hsignals : 0 < task.signals) : Goes (.act { task with phase := .acting, signals := 0 })
  | rest {time : Nat} (h : task.phase = .resting time) (htime : time ≤ now)
      (hsignals : task.signals = 0) : Goes (.move { task with phase := .idle })
  | gather (h : task.phase = .idle) (hsignals : 0 < task.signals) (hmode : mode = .debounce) :
      Goes (.move { task with phase := .settling (now + interval), signals := task.signals - 1 })
  | regather {time : Nat} (h : task.phase = .settling time) (hsignals : 0 < task.signals) :
      Goes (.move { task with phase := .settling (now + interval), signals := task.signals - 1 })
  | settle {time : Nat} (h : task.phase = .settling time) (htime : time ≤ now) :
      Goes (.act { task with phase := .acting })

end

variable {mode : LimiterMode} {interval now : Nat} {task next : LimiterTask} {step : TaskStep}

theorem goes_next (task : LimiterTask) (mode : LimiterMode) (interval now : Nat) (timerFirst : Bool) :
    task.Goes mode interval now (task.next mode interval now timerFirst) := by
  unfold next
  cases hp : task.phase with
  | acting => exact .act hp
  | idle =>
    dsimp only
    split_ifs with hs hc
    · cases mode with
      | throttle => exact .lead hp hs rfl
      | debounce => exact .gather hp hs rfl
    · exact .leave (by simp [hp]) (by simp [hp]) (by omega) hc
    · exact .listen hp (by omega) (by simpa using hc)
  | resting time =>
    dsimp only
    split_ifs with he hs
    · exact .sleep (by rw [hp]; rfl) he (by rw [hp]; rintro ⟨⟩)
    · exact .trail hp (by omega) hs
    · exact .rest hp (by omega) (by omega)
  | settling time =>
    dsimp only
    split_ifs with he hs hc
    · exact .settle hp he.1
    · exact .regather hp hs
    · exact .leave (by simp [hp]) (by simp [hp]) (by omega) hc
    · have hidle : task.signals = 0 ∧ task.isClosed = false := ⟨by omega, by simpa using hc⟩
      refine .sleep (by rw [hp]; rfl) (Nat.lt_of_not_le fun ht ↦ he ⟨ht, .inr ?_⟩) fun _ ↦ hidle
      simp [hidle]

/-- A task can do what it does if it looks at its timer first, and what it does if not. -/
theorem goes_iff : task.Goes mode interval now step ↔
    ∃ timerFirst, task.next mode interval now timerFirst = step := by
  refine ⟨fun h ↦ ?_, fun ⟨timerFirst, h⟩ ↦ h ▸ goes_next _ _ _ _ _⟩
  cases h with
  | settle hp ht => exact ⟨true, by simp [next, hp, ht]⟩
  | sleep hd ht hs =>
    refine ⟨false, ?_⟩
    cases hp : task.phase <;> simp_all [next, TaskPhase.deadline?]
  | leave =>
    refine ⟨false, ?_⟩
    cases hp : task.phase <;> simp_all [next]
  | regather hp hs => exact ⟨false, by simp [next, hp, hs, hs.ne']⟩
  | rest hp ht hs | trail hp ht hs =>
    exact ⟨false, by simp [next, hp, ht.not_gt, hs]⟩
  | _ => exact ⟨false, by simp [next, *]⟩

/-- A task that is the same but for its phase and its signals. -/
def Continues (next task : LimiterTask) : Prop :=
  next.number = task.number ∧ next.uri = task.uri ∧ next.isClosed = task.isClosed

/-- What a step has to take off a task. -/
def Lightens (task : LimiterTask) : TaskStep → Prop
  | .move next => next.Continues task ∧ next.weight < task.weight
  | .act next => next.Continues task ∧ next.weight + 3 ≤ task.weight
  | .wait | .stop => True

theorem Goes.lightens (h : task.Goes mode interval now step) : task.Lightens step := by
  cases h
  case act | listen | sleep | leave => trivial
  all_goals
    refine ⟨⟨rfl, rfl, rfl⟩, ?_⟩
    simp only [weight, *]
    omega

/-- Only a task that does not act does something. -/
theorem Goes.phase_ne_acting (h : task.Goes mode interval now step) (hs : step ≠ .wait) :
    task.phase ≠ .acting := by
  cases h
  case act | listen | sleep => exact absurd rfl hs
  all_goals simp_all

theorem Goes.phase_eq_acting (h : task.Goes mode interval now (.act next)) :
    next.phase = .acting := by
  cases h <;> rfl

theorem continues_ended (task : LimiterTask) (mode : LimiterMode) (interval now : Nat) :
    (task.ended mode interval now).Continues task := by
  cases mode <;> exact ⟨rfl, rfl, rfl⟩

theorem weight_ended_le (task : LimiterTask) (mode : LimiterMode) (interval now : Nat) :
    (task.ended mode interval now).weight ≤ task.weight + 1 := by
  unfold weight
  cases mode <;> cases task.phase <;> simp [ended]

end LimiterTask

namespace Limiter

/-- The tasks of a limiter have different numbers, which were given to them in turn, and those that
take signals have different documents. -/
structure Numbered (limiter : Limiter) : Prop where
  distinct : (limiter.tasks.map number).Nodup
  below : ∀ task ∈ limiter.tasks, task.number < limiter.started
  single : limiter.active.Nodup

variable {limiter : Limiter}

theorem weight_eq_sum (limiter : Limiter) :
    limiter.weight = (limiter.tasks.map LimiterTask.weight).sum := by
  rw [weight, List.sum, foldr_map]

namespace Numbered

variable {task : LimiterTask} {change : LimiterTask → LimiterTask} (h : limiter.Numbered)

include h

/-- Tasks may change otherwise, and may be closed. -/
theorem map (hn : ∀ task ∈ limiter.tasks, (change task).number = task.number)
    (hu : ∀ task ∈ limiter.tasks, (change task).uri = task.uri)
    (hc : ∀ task ∈ limiter.tasks, task.isClosed = true → (change task).isClosed = true) :
    { limiter with tasks := limiter.tasks.map change }.Numbered := by
  constructor
  · have hnu : (limiter.tasks.map change).map number = limiter.tasks.map number := by
      rw [map_map]
      exact map_congr_left hn
    rw [hnu]
    exact h.distinct
  · intro task ht
    obtain ⟨former, hf, rfl⟩ := mem_map.mp ht
    rw [hn former hf]
    exact h.below former hf
  · have ha : ({ limiter with tasks := limiter.tasks.map change } : Limiter).active =
        (limiter.tasks.filter fun task ↦ !(change task).isClosed).map uri := by
      rw [active, filter_map, map_map]
      exact map_congr_left fun task ht ↦ hu task (mem_of_mem_filter ht)
    have hfe : (limiter.tasks.filter fun task ↦ !(change task).isClosed) =
        (limiter.tasks.filter fun task ↦ !task.isClosed).filter
          fun task ↦ !(change task).isClosed := by
      rw [filter_filter]
      refine filter_congr fun task ht ↦ ?_
      cases hta : task.isClosed with
      | true => rw [hc task ht hta]; rfl
      | false => rw [Bool.not_false, Bool.and_true]
    rw [ha, hfe]
    exact h.single.sublist (filter_sublist.map _)

theorem signal (u : Uri) : (limiter.signal u).Numbered := by
  unfold Limiter.signal
  split_ifs with ha
  · refine h.map ?_ ?_ ?_
    · intro task _
      split_ifs <;> rfl
    · intro task _
      split_ifs <;> rfl
    · intro task _ hc
      split_ifs <;> exact hc
  · constructor
    · rw [map_append, nodup_append]
      refine ⟨h.distinct, nodup_singleton _, fun nb hn last hl heq ↦ ?_⟩
      obtain ⟨task, ht, rfl⟩ := mem_map.mp hn
      obtain rfl := mem_singleton.mp hl
      exact Nat.ne_of_lt (h.below task ht) heq
    · refine forall_mem_append.mpr ⟨fun task ht ↦ ?_, fun task ht ↦ ?_⟩
      · exact Nat.lt_succ_of_lt (h.below task ht)
      · rw [mem_singleton.mp ht]
        exact Nat.lt_succ_self _
    · rw [active, filter_append, map_append]
      refine nodup_append.mpr ⟨h.single, nodup_singleton u, ?_⟩
      rintro o ho last hl rfl
      obtain rfl := mem_singleton.mp hl
      exact ha ho

theorem cancel (u : Uri) : (limiter.cancel u).Numbered := by
  refine h.map ?_ ?_ ?_
  · intro task _
    split_ifs <;> rfl
  · intro task _
    split_ifs <;> rfl
  · intro task _ hc
    split_ifs
    · rfl
    · exact hc

theorem cancelAll : limiter.cancelAll.Numbered :=
  h.map (fun _ _ ↦ rfl) (fun _ _ ↦ rfl) fun _ _ _ ↦ rfl

/-- A task that goes on may take its place. -/
theorem replace (hc : ∀ task ∈ limiter.tasks, (change task).Continues task) :
    { limiter with tasks := limiter.tasks.map change }.Numbered :=
  h.map (fun task ht ↦ (hc task ht).1) (fun task ht ↦ (hc task ht).2.1)
    fun task ht hcl ↦ (hc task ht).2.2.trans hcl

theorem ended (nb now : Nat) : (limiter.ended nb now).Numbered := by
  refine h.replace fun task _ ↦ ?_
  split_ifs
  · exact task.continues_ended _ _ _
  · exact ⟨rfl, rfl, rfl⟩

theorem put {n : LimiterTask} (ht : task ∈ limiter.tasks) (hn : n.Continues task) :
    (limiter.put n).Numbered := by
  refine h.replace fun o ho ↦ ?_
  split_ifs with hnu
  · have hs : o = task :=
      inj_on_of_nodup_map h.distinct ho ht (hnu.trans hn.1)
    rw [hs]
    exact hn
  · exact ⟨rfl, rfl, rfl⟩

theorem remove (nb : Nat) : (limiter.remove nb).Numbered := by
  refine ⟨h.distinct.sublist (filter_sublist.map _),
    fun task ht ↦ h.below task (mem_of_mem_filter ht), ?_⟩
  exact h.single.sublist ((filter_sublist.filter _).map _)

/-- What becomes of one task changes the weight by as much as the task's own. -/
theorem weight_map (ht : task ∈ limiter.tasks)
    (hot : ∀ o ∈ limiter.tasks, o.number ≠ task.number → change o = o) :
    { limiter with tasks := limiter.tasks.map change }.weight + task.weight =
      limiter.weight + (change task).weight := by
  have hp := perm_cons_filter_of_nodup h.distinct ht
  have hk : (limiter.tasks.filter fun o ↦ o.number ≠ task.number).map change =
      limiter.tasks.filter fun o ↦ o.number ≠ task.number :=
    (map_congr_left fun o ho ↦ hot o (mem_of_mem_filter ho)
      (by simpa using (mem_filter.mp ho).2)).trans (map_id _)
  have hc := ((hp.map change).map LimiterTask.weight).sum_eq
  rw [map_cons, hk, map_cons, sum_cons] at hc
  have hs := (hp.map LimiterTask.weight).sum_eq
  rw [map_cons, sum_cons] at hs
  simp only [weight_eq_sum]
  omega

theorem weight_put {n : LimiterTask} (ht : task ∈ limiter.tasks) (hn : n.number = task.number) :
    (limiter.put n).weight + task.weight = limiter.weight + n.weight := by
  have hp : (limiter.put n).weight + task.weight = limiter.weight +
      (if task.number = n.number then n else task).weight :=
    h.weight_map ht fun o _ hne ↦ if_neg (hn ▸ hne)
  rwa [if_pos hn.symm] at hp

theorem weight_remove (ht : task ∈ limiter.tasks) :
    (limiter.remove task.number).weight + task.weight = limiter.weight := by
  have hs := ((perm_cons_filter_of_nodup h.distinct ht).map LimiterTask.weight).sum_eq
  rw [map_cons, sum_cons] at hs
  simp only [weight_eq_sum, Limiter.remove]
  omega

theorem weight_ended_le (nb now : Nat) : (limiter.ended nb now).weight ≤ limiter.weight + 1 := by
  by_cases hm : ∃ task ∈ limiter.tasks, task.number = nb
  · obtain ⟨task, ht, rfl⟩ := hm
    have he : (limiter.ended task.number now).weight + task.weight = limiter.weight +
        (if task.number = task.number then task.ended limiter.mode limiter.interval now
          else task).weight := h.weight_map ht fun o _ hn ↦ if_neg hn
    rw [if_pos rfl] at he
    have hl := task.weight_ended_le limiter.mode limiter.interval now
    omega
  · have hs : (limiter.ended nb now).tasks = limiter.tasks :=
      (map_congr_left fun task ht ↦ if_neg fun hnu ↦ hm ⟨task, ht, hnu⟩).trans (map_id _)
    rw [weight, hs]
    exact Nat.le_succ _

/-- A signal weighs no more than a task that has just been started for it. -/
theorem weight_signal_le (uri : Uri) : (limiter.signal uri).weight ≤ limiter.weight + 7 := by
  unfold Limiter.signal
  split_ifs with ha
  · obtain ⟨task, ht, rfl⟩ := mem_map.mp ha
    have hm := mem_of_mem_filter ht
    have ho : task.isClosed = false := by simpa using (mem_filter.mp ht).2
    let bumped : LimiterTask → LimiterTask := fun other ↦
      if other.uri = task.uri ∧ !other.isClosed then { other with signals := other.signals + 1 }
      else other
    have hb : (bumped task).weight = task.weight + 6 := by
      dsimp only [bumped]
      rw [if_pos ⟨rfl, by rw [ho]; rfl⟩]
      simp only [LimiterTask.weight]
      omega
    -- No other task takes signals for the document.
    have hoth : ∀ other ∈ limiter.tasks, other.number ≠ task.number → bumped other = other := by
      intro other hot hn
      refine if_neg fun hs ↦ hn (congrArg LimiterTask.number ?_)
      have hk : other ∈ limiter.tasks.filter fun task ↦ !task.isClosed := mem_filter.mpr ⟨hot, hs.2⟩
      exact inj_on_of_nodup_map h.single hk ht hs.1
    have hw : ({ limiter with tasks := limiter.tasks.map bumped } : Limiter).weight +
        task.weight = limiter.weight + (bumped task).weight := h.weight_map hm hoth
    change ({ limiter with tasks := limiter.tasks.map bumped } : Limiter).weight ≤ _
    omega
  · simp [weight_eq_sum, LimiterTask.weight]

end Numbered

theorem weight_map_of_eq (limiter : Limiter) {change : LimiterTask → LimiterTask}
    (hc : ∀ task, (change task).weight = task.weight) :
    { limiter with tasks := limiter.tasks.map change }.weight = limiter.weight := by
  rw [weight_eq_sum, weight_eq_sum, map_map,
    show LimiterTask.weight ∘ change = LimiterTask.weight from funext hc]

theorem weight_cancel (limiter : Limiter) (u : Uri) :
    (limiter.cancel u).weight = limiter.weight := by
  refine limiter.weight_map_of_eq fun task ↦ ?_
  split_ifs <;> rfl

theorem weight_cancelAll (limiter : Limiter) : limiter.cancelAll.weight = limiter.weight :=
  limiter.weight_map_of_eq fun _ ↦ rfl

section

variable {task : LimiterTask} (ht : limiter.tasks = [task])

include ht

theorem tasks_put_of_singleton {next : LimiterTask} (hn : next.Continues task) :
    (limiter.put next).tasks = [next] := by
  rw [put, ht, map_singleton, if_pos hn.1.symm]

theorem ended_of_singleton {number : Nat} (hn : number = task.number) (now : Nat) :
    limiter.ended number now = limiter.put (task.ended limiter.mode limiter.interval now) := by
  simp [ended, put, ht, hn, (task.continues_ended _ _ _).1]

end

variable {now : Nat} {timerFirst : Bool}

/-- What can be done is done by one of the tasks. -/
theorem mem_of_next? {task : LimiterTask} {step : TaskStep}
    (h : limiter.next? now timerFirst = some (task, step)) : task ∈ limiter.tasks ∧
      task.next limiter.mode limiter.interval now timerFirst = step ∧ step ≠ .wait := by
  obtain ⟨found, hfound, hs⟩ := exists_of_findSome?_eq_some h
  split at hs
  · cases hs
  · cases hs
    exact ⟨hfound, rfl, ‹_›⟩

theorem next?_eq_none_iff : limiter.next? now timerFirst = none ↔ ∀ task ∈ limiter.tasks,
    task.next limiter.mode limiter.interval now timerFirst = .wait := by
  rw [next?, findSome?_eq_none_iff]
  refine forall₂_congr fun task _ ↦ ?_
  split <;> simp_all

end Limiter

end StoryScript
