import StoryScript.Proofs.Store
import StoryScript.Proofs.Story

/-!
A store after any number of operations. The open documents are what their last accepted openings and
the edits accepted since have made of them (`replay`), and an operation that is refused leaves every
document as it is (`StoreHistory.documents_of_history`).
-/

namespace StoryScript

open List

/-- What is done to a store. -/
inductive StoreOperation where
  | opened (uri : Uri) (v : Version) (text : String)
  | changed (uri : Uri) (v : Version) (changes : List Change)
  | closed (uri : Uri)
  | limited (maxSize : Nat)

namespace Store

/-- Carries out an operation. Tells whether it was accepted. -/
def perform (store : Store) : StoreOperation → Bool × Store
  | .opened uri v t => store.open? uri v t
  | .changed uri v cs => store.change? uri v cs
  | .closed uri => store.close? uri
  | .limited maxSize => (true, { store with maxSize })

theorem annotate_perform (store : Store) (operation : StoreOperation) :
    (store.perform operation).2.annotate = store.annotate := by
  cases operation with
  | limited => rfl
  | opened uri v t =>
    rw [perform, open?]
    split_ifs <;> rfl
  | changed uri v cs =>
    rw [perform, change?]
    split
    · rfl
    · dsimp only
      split_ifs <;> rfl
  | closed uri =>
    rw [perform, close?]
    split_ifs <;> rfl

end Store

namespace StoreOperation

variable {uri : Uri} {store : Store} {operation : StoreOperation}

/-- The characters that an operation puts in place of a document. -/
def rope? (store : Store) : StoreOperation → Option (List Char)
  | opened _ _ t => some t.toList
  | changed uri _ cs =>
    (store.get? uri).map fun d ↦ Change.applyAll d.rope cs
  | closed _ | limited _ => none

/-- The operation makes a document too large. -/
def Oversized (store : Store) (operation : StoreOperation) : Prop :=
  ∃ rope ∈ operation.rope? store, store.maxSize < Text.byteLength rope

/-- The operation is about a document that is not open, and does not open it. -/
def Unknown (store : Store) : StoreOperation → Prop
  | changed uri .. | closed uri => store.get? uri = none
  | opened .. | limited _ => False

/-- What an accepted operation makes of the version and the characters of a document. -/
def remake (uri : Uri) (made : Option (Version × List Char)) :
    StoreOperation → Option (Version × List Char)
  | opened other v t => if other = uri then some (v, t.toList) else made
  | changed other v cs =>
    if other = uri then made.map fun (_, rope) ↦ (v, cs.foldl Change.apply rope) else made
  | closed other => if other = uri then none else made
  | limited _ => made

theorem perform_of_refused (store : Store) (operation : StoreOperation) :
    ((store.perform operation).1 = false ↔ operation.Oversized store ∨ operation.Unknown store) ∧
      (operation.Oversized store → (store.perform operation).2 = { store with
        counts := { store.counts with rejected := store.counts.rejected + 1 } }) ∧
      (operation.Unknown store → (store.perform operation).2 = store) := by
  cases operation with
  | limited maxSize => simp [Store.perform, Oversized, Unknown, rope?]
  | closed uri =>
    have ho := Option.isSome_eq_false_iff (a := store.get? uri)
    rw [← store.contains_eq_isSome] at ho
    simp only [Store.perform, Store.close?, Oversized, Unknown, rope?]
    cases hc : store.contains uri <;> simp_all
  | opened uri v t =>
    simp only [Store.perform, Store.open?, Store.refuses, Oversized, Unknown, rope?]
    by_cases hs : store.maxSize < Text.byteLength t.toList <;> simp [hs, Store.reject]
  | changed uri v cs =>
    simp only [Store.perform, Store.change?, Store.refuses, Oversized, Unknown, rope?]
    cases store.get? uri with
    | none => simp
    | some d =>
      by_cases hs : store.maxSize < Text.byteLength (Change.applyAll d.rope cs) <;>
        simp [hs, Store.reject]

/-- What accepted operations make of a document: the version and the characters of its last opening,
with the edits since applied in turn, or nothing if it has been closed since. -/
def replay (uri : Uri) (accepted : List StoreOperation) : Option (Version × List Char) :=
  accepted.foldl (remake uri) none

end StoreOperation

open StoreOperation

/-- A store, and the operations that it has accepted. -/
structure StoreHistory where
  store : Store
  accepted : List StoreOperation := []

namespace StoreHistory

def perform (history : StoreHistory) (operation : StoreOperation) : StoreHistory where
  store := (history.store.perform operation).2
  accepted := if (history.store.perform operation).1 = true then history.accepted ++ [operation]
    else history.accepted

def performAll (annotate : Annotator) (maxSize : Nat) (operations : List StoreOperation) :
    StoreHistory :=
  operations.foldl perform { store := { annotate, maxSize } }

/-- The documents are annotated, and are what the accepted operations have made. -/
structure Faithful (annotate : Annotator) (history : StoreHistory) : Prop where
  annotate_eq : history.store.annotate = annotate
  annotated : ∀ uri document, history.store.get? uri = some document →
    document.annotations = annotate document.text
  replayed : ∀ uri, ((history.store.get? uri).map fun document ↦
    (document.version, document.rope)) = replay uri history.accepted

theorem annotated_perform {store : Store} (h : ∀ uri document, store.get? uri = some document →
      document.annotations = store.annotate document.text) (operation : StoreOperation)
    {uri : Uri} {document : Document} (hget : (store.perform operation).2.get? uri = some document) :
    document.annotations = store.annotate document.text := by
  cases operation with
  | limited => exact h uri document hget
  | closed other =>
    rw [Store.perform, Store.get?_close?] at hget
    split_ifs at hget
    exact h uri document hget
  | opened other v t =>
    rw [Store.perform, Store.get?_open?] at hget
    split_ifs at hget
    · obtain rfl := Option.some.inj hget
      rfl
    · exact h uri document hget
  | changed other v cs =>
    rw [Store.perform, Store.get?_change?] at hget
    split_ifs at hget
    · obtain ⟨old, -, rfl⟩ := Option.map_eq_some_iff.mp hget
      rfl
    · exact h uri document hget

theorem replayed_perform {store : Store} {operation : StoreOperation}
    (ha : (store.perform operation).1 = true) (uri : Uri) :
    (((store.perform operation).2.get? uri).map fun document ↦ (document.version, document.rope)) =
      remake uri ((store.get? uri).map fun document ↦ (document.version, document.rope))
        operation := by
  cases operation with
  | limited => rfl
  | closed other =>
    rw [Store.perform, Store.get?_close?, remake]
    split_ifs <;> rfl
  | opened other v t =>
    rw [Store.perform] at ha ⊢
    rw [Store.get?_open?, remake]
    by_cases ho : other = uri
    · rw [if_pos ⟨ha, ho⟩, if_pos ho]
      rfl
    · rw [if_neg fun hand ↦ ho hand.2, if_neg ho]
  | changed other v cs =>
    rw [Store.perform] at ha ⊢
    rw [Store.get?_change?, remake]
    by_cases ho : other = uri
    · subst ho
      rw [if_pos ⟨ha, rfl⟩, if_pos rfl, Option.map_map, Option.map_map]
      simp [Function.comp_def, Change.applyAll]
    · rw [if_neg fun hand ↦ ho hand.2, if_neg ho]

theorem Faithful.perform {annotate : Annotator} {history : StoreHistory}
    (h : history.Faithful annotate) (operation : StoreOperation) :
    (history.perform operation).Faithful annotate := by
  obtain ⟨rfl, hannotated, hreplayed⟩ := h
  have hsame := history.store.annotate_perform operation
  refine ⟨hsame, fun uri document ↦ annotated_perform hannotated operation, fun uri ↦ ?_⟩
  unfold StoreHistory.perform
  cases ha : (history.store.perform operation).1 with
  | true =>
    rw [if_pos rfl, replayed_perform ha, hreplayed, replay, replay, foldl_append]
    rfl
  | false =>
    obtain ⟨hrefused, hoversized, hunknown⟩ := perform_of_refused history.store operation
    rw [if_neg Bool.false_ne_true, ← hreplayed uri]
    obtain hc | hc := hrefused.mp ha
    · rw [hoversized hc]
      rfl
    · rw [hunknown hc]

theorem faithful_performAll (annotate : Annotator) (maxSize : Nat)
    (operations : List StoreOperation) : (performAll annotate maxSize operations).Faithful annotate :=
  foldlRecOn operations perform ⟨rfl, fun _ _ hget ↦ (by cases hget), fun _ ↦ rfl⟩
    fun _ h operation _ ↦ h.perform operation

/-- The open documents are what the operations accepted so far have made, with their annotations. The
next operation is refused exactly if it would make a document too large or is about one that is not
open; then all documents stay as they are, and at most the refusals are counted. -/
theorem documents_of_history (annotate : Annotator) (maxSize : Nat)
    (operations : List StoreOperation) :
    let history := performAll annotate maxSize operations
    (∀ uri document, history.store.get? uri = some document →
      document.rope = document.text.toList ∧ document.annotations = annotate document.text) ∧
    (∀ uri, ((history.store.get? uri).map fun document ↦ (document.version, document.rope)) =
      replay uri history.accepted) ∧
    ∀ operation, ((history.store.perform operation).1 = false ↔
        operation.Oversized history.store ∨ operation.Unknown history.store) ∧
      (operation.Oversized history.store → (history.store.perform operation).2 =
        { history.store with
          counts := { history.store.counts with rejected := history.store.counts.rejected + 1 } }) ∧
      (operation.Unknown history.store → (history.store.perform operation).2 = history.store) := by
  have hfaithful := faithful_performAll annotate maxSize operations
  refine ⟨fun uri document hget ↦ ⟨document.rope_eq, ?_⟩, hfaithful.replayed, perform_of_refused _⟩
  exact hfaithful.annotated uri document hget

/-- A script is opened and changed. A second edit would make it too large, so the script stays what the
first has made of it. -/
theorem documents_of_history_oversized :
    let history := performAll (fun _ ↦ default) 10
      [.opened mainUri 1 "day", .changed mainUri 2 [⟨some ⟨⟨0, 0⟩, ⟨0, 1⟩⟩, none, "b"⟩], .limited 3,
        .changed mainUri 3 [⟨some ⟨⟨0, 0⟩, ⟨0, 0⟩⟩, none, "a "⟩]]
    history.accepted.length = 3 ∧
      ((history.store.get? mainUri).map fun document ↦ (document.version, document.rope)) =
        some (2, "bay".toList) := by
  intro history
  have hreplay : replay mainUri history.accepted = some (2, "bay".toList) := by decide +kernel
  exact ⟨by decide +kernel, ((documents_of_history _ 10 _).2.1 mainUri).trans hreplay⟩

end StoreHistory
end StoryScript
