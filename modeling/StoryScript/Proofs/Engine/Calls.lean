import StoryScript.Proofs.Engine.Steps
import StoryScript.Proofs.Scheduler

/-!
The calls of the compiler that an engine makes. Each is for a script that is open or was found
(`Engine.callsKnown_step`).
-/

namespace StoryScript

open List SchedulerEvent

variable (e : Engine)

/-- The call that is made, and the root it is for. -/
def EngineEvent.called? : EngineEvent → Option (Nat × Uri)
  | .called call r => some (call, r)
  | _ => none

namespace Scheduler

variable {s : Scheduler} {p : Project} {en : Nat × Uri}

theorem knows_of_mem_start {u : Uri} {f : Bool} (h : en ∈ (s.start p u f).2.filterMap called?) :
    p.Knows en.2 := by
  obtain hn | ⟨_, he⟩ | ⟨r, hk, hc⟩ := s.events_start p u f
  · rw [hn] at h
    cases h
  · rw [he] at h
    cases h
  · rw [hc] at h
    rw [mem_singleton.mp h]
    exact hk

/-- An answer is followed by calls for documents that are open. -/
theorem knows_of_mem_answer {call : Nat} {r : Except Failure Program}
    (h : en ∈ (s.answer p call r).2.filterMap called?) :
    p.Knows en.2 := by
  obtain hs | ⟨job, -, hn⟩ := s.answer_cases p call r
  · rw [hs] at h
    cases h
  · cases hn with
    | failed _ _ _ hc =>
      rw [hc] at h
      cases h
    | ended _ _ _ _ _ _ hc =>
      rw [hc] at h
      cases h
    | wentOn _ _ ho _ _ _ _ hc =>
      rw [hc] at h
      rw [mem_singleton.mp h]
      exact .inl ho

end Scheduler

namespace Engine

theorem called?_absorb (es : List SchedulerEvent) :
    (e.absorb es).2.filterMap EngineEvent.called? = es.filterMap called? := by
  refine filterMap_absorb ?_ ?_ ?_ ?_ e es
  · exact fun _ _ ↦ rfl
  · exact fun _ _ _ ↦ rfl
  · exact fun _ _ ↦ rfl
  · exact fun _ _ ↦ rfl

/-- Every script that the compiler is called for is known. -/
def CallsKnown (n : Engined) : Prop :=
  ∀ en ∈ n.2.filterMap EngineEvent.called?, n.1.project.Knows en.2

theorem callsKnown_startJob (pu : JobPurpose) (u : Uri) (f : Bool) :
    CallsKnown (e.startJob pu u f) := by
  intro en he
  rw [startJob, called?_absorb] at he
  rw [project_startJob]
  exact Scheduler.knows_of_mem_start he

theorem Takes.callsKnown {e next : Engine} {i : EngineInput} {front : List EngineEvent}
    {es : List SchedulerEvent} (h : e.Takes i front next es) :
    front.filterMap EngineEvent.called? = [] ∧
      ∀ en ∈ es.filterMap called?, next.project.Knows en.2 := by
  have hd : ∀ (s : Scheduler) (settled : List Settlement),
      ∀ en ∈ (s.deliver settled).2.filterMap called?, next.project.Knows en.2 := by
    intro s settled en he
    rw [Scheduler.called?_deliver] at he
    cases he
  cases h with
  | opened t u v tx _ => exact ⟨rfl, fun _ ↦ Scheduler.knows_of_mem_start⟩
  | started t r u force => exact ⟨rfl, fun _ ↦ Scheduler.knows_of_mem_start⟩
  | answered call res => exact ⟨rfl, fun _ ↦ Scheduler.knows_of_mem_answer⟩
  | closed t u => exact ⟨rfl, hd _ _⟩
  | deleted u _ => exact ⟨rfl, hd _ _⟩
  | disposed => exact ⟨rfl, hd _ _⟩
  | changed _ _ _ _ _ => exact ⟨rfl, nofun⟩
  | refused _ _ _ _ _ => exact ⟨rfl, nofun⟩
  | found _ => exact ⟨rfl, nofun⟩
  | unlisted _ => exact ⟨rfl, nofun⟩
  | elapsed _ => exact ⟨rfl, nofun⟩

theorem callsKnown_handle (i : EngineInput) : CallsKnown (e.handle i) := by
  obtain ⟨l, n, es, ht, heq⟩ := e.takes_handle i
  obtain ⟨hf, hev⟩ := ht.callsKnown
  intro en he
  rw [heq, filterMap_append, hf, nil_append, called?_absorb] at he
  rw [heq, project_absorb]
  exact hev en he

theorem callsKnown_step (i : EngineInput) : CallsKnown (e.step i) := by
  refine settle_invariant (P := fun n es ↦ CallsKnown (n, es)) ?_ ?_ _ _ (e.callsKnown_handle i)
  · intro n es l m h en he
    rw [project_withLimiter]
    exact h en he
  · intro n es pu u h en he
    rw [filterMap_append, mem_append] at he
    obtain hea | hl := he
    · rw [project_startJob]
      exact h en hea
    · exact callsKnown_startJob _ _ _ _ en hl

end Engine

end StoryScript
