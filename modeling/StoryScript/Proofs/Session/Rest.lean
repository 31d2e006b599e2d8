import StoryScript.Proofs.Session.Linked

/-!
A session over the built-in compiler comes to rest after each thing that happens to it: every call
has been answered, the limiters wait for time to pass or for signals, and the compiler has the open
documents as the engine has them (`Session.AtRest`). So the session is as at its start but for what
its engine remembers, and one forced compile can be followed through (`Session.step_current`).
-/

namespace StoryScript

open Engine EngineInput List Worker

/-- The documents of a store have some most size. -/
structure Store.Within (st : Store) (size : Nat) : Prop where
  maxSize : st.maxSize = size
  sized : ∀ uri document, st.get? uri = some document → Text.byteLength document.text.toList ≤ size

namespace Store.Within

variable {st : Store} {size : Nat}

theorem put (h : st.Within size) {uri : Uri} {version : Version} {text : String}
    (hs : st.refuses text.toList = false) (counts : StoreCounts) :
    { st with documents := st.put uri version text, counts }.Within size := by
  refine ⟨h.maxSize, fun other document hg ↦ ?_⟩
  replace hg : (st.documents.insert uri { version, text, annotations := st.annotate text }).get? other =
    some document := hg
  rw [Table.get?_insert] at hg
  split_ifs at hg
  · obtain rfl := Option.some.inj hg
    rw [refuses, decide_eq_false_iff_not, Nat.not_lt, h.maxSize] at hs
    exact hs
  · exact h.sized other document hg

theorem open? (h : st.Within size) (u : Uri) (v : Version) (t : String) :
    (st.open? u v t).2.Within size := by
  unfold Store.open?
  split_ifs with hs
  · exact ⟨h.maxSize, h.sized⟩
  · exact h.put (eq_false_of_ne_true hs) _

theorem change? (h : st.Within size) (u : Uri) (v : Version) (cs : List Change) :
    (st.change? u v cs).2.Within size := by
  unfold Store.change?
  cases st.get? u with
  | none => exact h
  | some d =>
    simp only [Store.put_rope]
    split_ifs with hs
    · exact ⟨h.maxSize, h.sized⟩
    · refine h.put ?_ _
      rw [String.toList_ofList]
      exact eq_false_of_ne_true hs

theorem close? (h : st.Within size) (u : Uri) : (st.close? u).2.Within size := by
  unfold Store.close?
  split_ifs
  · refine ⟨h.maxSize, fun o d hg ↦ ?_⟩
    replace hg : (st.documents.erase u).get? o = some d := hg
    rw [Table.get?_erase] at hg
    split_ifs at hg
    exact h.sized o d hg
  · exact h

theorem moves {bench n : Bench} (h : bench.store.Within size) (hmo : Bench.Moves bench n) :
    n.store.Within size := by
  induction hmo with
  | refl => exact h
  | tail _ hm ih =>
    cases hm with
    | opened u v t => exact ih.open? u v t
    | changed u v cs => exact ih.change? u v cs
    | closed u => exact ih.close? u
    | indexed w => exact ih
    | deleted u hc => exact ih
    | cleared => exact ih
    | started u f => exact ih
    | answered call r => exact ih

end Store.Within

/-- An engine that waits for nobody but the editor and the clock. -/
structure Engine.AtRest (c : Config) (b : Nat) (engine : Engine) : Prop where
  owes : engine.Owes []
  numbered : engine.Numbered
  quiet : engine.Quiet
  normal : engine.Normal
  within : engine.project.store.Within c.maxDocumentSize
  unrest : engine.unrest ≤ b

namespace Engine

theorem project_answer (engine : Engine) (call : Nat) (r : Except Failure Program) :
    (engine.step (.answer call r)).1.project = engine.project := by
  have hh : (engine.handle (.answer call r)).1.project = engine.project := project_absorb _ _
  exact (project_settle _).trans hh

theorem fits_answer (call : Nat) (r : Except Failure Program) : (answer call r).Fits :=
  ⟨nofun, nofun⟩

theorem atRest_start (c : Config) (ann : Annotator) : (start c ann).AtRest c 0 where
  owes := ⟨sound_start c ann, .refl []⟩
  numbered := ⟨⟨nodup_nil, nofun, nodup_nil⟩, ⟨nodup_nil, nofun, nodup_nil⟩⟩
  quiet := fun m ↦ by cases m <;> rfl
  normal := normal_start c ann
  within := ⟨rfl, nofun⟩
  unrest := Nat.le_refl 0

variable {c : Config} {b : Nat} {engine : Engine} {i : EngineInput}

/-- After an input the engine waits for the answers to the calls that it has just made. -/
theorem AtRest.step (h : engine.AtRest c b) (hi : ∀ call r, i ≠ .answer call r) :
    (engine.step i).1.Owes (callNumbers (engine.step i).2) ∧
      (engine.step i).1.unrest ≤ b + inputUnrest i := by
  have ha := adds_step h.owes.sound hi
  rw [perm_nil.mp h.owes.outstanding] at ha
  have hs := unrest_step_le h.numbered h.owes.sound hi
  exact ⟨⟨ha.sound, ha.outstanding⟩, Nat.le_trans hs (Nat.add_le_add_right h.unrest _)⟩

theorem project_converse (as : Uri → Except Failure Program) (rs : Nat) (engine : Engine)
    (es : List EngineEvent) :
    (converse as rs engine es).1.project = engine.project :=
  converse_induction (P := fun n ↦ n.project = engine.project)
    (fun n call r heq ↦ (project_answer n call r).trans heq) as _ _ rfl

/-- Once all calls that follow from an input are answered, the engine is at rest again. -/
theorem AtRest.converse (h : engine.AtRest c b) (hf : i.Fits) (hi : ∀ call r, i ≠ .answer call r)
    (as : Uri → Except Failure Program) :
    (converse as (engine.step i).1.rounds (engine.step i).1
      (engine.step i).2).1.AtRest c (b + inputUnrest i) := by
  obtain ⟨how, hs⟩ := h.step hi
  have hn := h.numbered.step i
  obtain ⟨hr, hu⟩ := how.converse hn as (engine.step i).1.unrest_lt_rounds
  have hl := converse_induction (P := fun engine ↦ engine.Numbered ∧ engine.Quiet)
    (fun _ _ _ h ↦ ⟨h.1.step _, quiet_step h.1 _⟩) as (engine.step i).1.rounds
    (engine.step i).2 ⟨hn, quiet_step h.numbered i⟩
  have hno := converse_induction (fun _ _ _ h ↦ h.step (fits_answer _ _)) as
    (engine.step i).1.rounds (engine.step i).2 (h.normal.step hf)
  have ho : engine.bench.store.Within c.maxDocumentSize := h.within
  have hw : (engine.step i).1.project.store.Within c.maxDocumentSize :=
    ho.moves (engine.moves_step i)
  rw [← project_converse as (engine.step i).1.rounds _ (engine.step i).2] at hw
  exact ⟨hr, hl.1, hl.2, hno, hw, Nat.le_trans hu hs⟩

end Engine

namespace Session

section AtRest

variable (c : Config) (ann : Annotator)

/-- The built-in compiler with the documents that an engine has open. -/
def compilerOf (engine : Engine) : Worker :=
  ⟨ann, c.builtins, engine.project.store.sources⟩

/-- A session over the built-in compiler with nothing under way, whose compiler has the documents
that its engine has open. -/
def current (engine : Engine) (id : UInt64) : Session Worker :=
  linked engine (compilerOf c ann engine) id

/-- A session at rest. -/
structure AtRest (b : Nat) (s : Session Worker) : Prop where
  current : ∃ nextId, s = Session.current c ann s.engine nextId
  engine : s.engine.AtRest c b

theorem AtRest.mono {c : Config} {ann : Annotator} {b larger : Nat}
    {s : Session Worker} (h : s.AtRest c ann b) (hl : b ≤ larger) :
    s.AtRest c ann larger :=
  ⟨h.current, { h.engine with unrest := Nat.le_trans h.engine.unrest hl }⟩

variable {c} in
theorem atRest_session (ht : c.requestTimeoutMs = none) : (session c ann).AtRest c ann 0 := by
  refine ⟨⟨1, ?_⟩, atRest_start c ann⟩
  rw [session, start, ht]
  rfl

variable {c ann} {b : Nat} {engine : Engine} {i : EngineInput}

/-- An input leads a session from rest to rest, by way of the answers to all calls that follow from
it. -/
theorem step_current (ann : Annotator) (h : engine.AtRest c b) (hf : i.Fits)
    (hi : ∀ call r, i ≠ .answer call r)
    (hb : b + Engine.inputUnrest i ≤ 2 ^ 64) (rf : Uri → Option String)
    (id : UInt64) :
    let nx := engine.step i
    let last := Engine.converse ((compilerOf c ann nx.1).result rf) nx.1.rounds
      nx.1 nx.2
    ∃ lastId, (current c ann engine id).step (Worker.peer rf) i =
      (current c ann last.1 lastId, last.2.filter isVisible) := by
  intro nx last
  let w := compilerOf c ann engine
  obtain ⟨ho, hu⟩ := h.step hi
  have hn : nx.1.Numbered := h.numbered.step i
  have hla : compilerOf c ann last.1 = compilerOf c ann nx.1 := by
    rw [compilerOf, Engine.project_converse]
    rfl
  have hst : (current c ann engine id).step (Worker.peer rf) i =
      (linked nx.1 w id).settleWithin (Worker.peer rf) nx.1.rounds nx.2 := rfl
  have hc : ∀ lastId, current c ann last.1 lastId =
      linked last.1 (compilerOf c ann nx.1) lastId := by
    intro lastId
    rw [current, hla]
  simp only [hst, hc]
  cases engine.notifies_step i with
  | nothing hnot hs =>
    have hw : compilerOf c ann nx.1 = w :=
      congrArg (Worker.mk ann c.builtins) hs
    dsimp only [last]
    rw [hw]
    exact settleWithin_linked nx.1 w id rf hnot ho hn (Nat.le_trans hu hb)
  | first n l hno he hl hs =>
    have hw : compilerOf c ann nx.1 = { w with documents := Worker.noted w.documents n } :=
      congrArg (Worker.mk ann c.builtins) hs
    replace he : nx.2 = .noticed n :: l := he
    rw [he] at ho
    replace ho : nx.1.Owes (callNumbers l) := ho
    have hv : ∀ es : List EngineEvent,
        (.noticed n :: es).filter isVisible = es.filter isVisible := fun _ ↦ rfl
    have hr : nx.1.rounds = nx.1.rounds - 1 + 1 := rfl
    dsimp only [last]
    rw [he, Engine.converse_cons rfl, hv, hw, hr,
      settleWithin_noticed _ _ _ rf _ (hf.notice n hno) hl
        (Nat.le_trans ho.length_le (Nat.le_trans hu hb))]
    exact settleWithin_linked nx.1 _ id rf hl ho hn (Nat.le_trans hu hb)

/-- An input leads from rest to rest. -/
theorem AtRest.step {s : Session Worker} (h : s.AtRest c ann b) (hf : i.Fits)
    (hi : ∀ call r, i ≠ .answer call r)
    (hb : b + inputUnrest i ≤ 2 ^ 64) (rf : Uri → Option String) :
    (s.step (peer rf) i).1.AtRest c ann (b + inputUnrest i) := by
  obtain ⟨id, hs⟩ := h.current
  obtain ⟨lastId, hst⟩ := step_current ann h.engine hf hi hb rf id
  rw [hs, hst]
  exact ⟨⟨lastId, rfl⟩, h.engine.converse hf hi _⟩

/-- With nothing under way, nothing is overdue. -/
theorem tick_current (engine : Engine) (id : UInt64) (peer : Peer Worker) (time : Nat)
    {n : Engine} {lastId : UInt64} {es : List EngineEvent}
    (hs : (current c ann engine id).step peer (.elapse time) = (current c ann n lastId, es)) :
    (current c ann engine id).tick peer time = (current c ann n lastId, es) := by
  have he : (current c ann n lastId).channel.expire time = ((current c ann n lastId).channel, []) :=
    Channel.expire_of_no_deadline nofun
  have hf : (current c ann n lastId).follow peer [] = (current c ann n lastId, []) := rfl
  rw [tick, hs]
  dsimp only
  rw [he]
  dsimp only
  rw [hf, append_nil]

variable {s : Session Worker} (h : s.AtRest c ann b) (hb : b ≤ 2 ^ 64) (rf : Uri → Option String)

include h hb

theorem AtRest.tick (time : Nat) : (s.tick (peer rf) time).1.AtRest c ann b := by
  have hf : (elapse time).Fits := ⟨nofun, nofun⟩
  obtain ⟨id, hs⟩ := h.current
  obtain ⟨lastId, hst⟩ := step_current ann h.engine hf nofun hb rf id
  have hr := h.step hf nofun hb rf
  rw [hs, hst] at hr
  rw [hs, tick_current s.engine id _ time hst]
  exact hr

theorem AtRest.advance (time : Nat) : (s.advance (peer rf) time).1.AtRest c ann b := by
  have hti : ∀ (ticks : Nat) {s : Session Worker}, s.AtRest c ann b →
      (s.advanceWithin (peer rf) time ticks).1.AtRest c ann b := by
    intro ticks
    induction ticks with
    | zero => exact fun h ↦ h.tick hb rf time
    | succ ticks ih =>
      intro s h
      unfold advanceWithin
      cases s.deadline? with
      | none => exact h.tick hb rf time
      | some n =>
        dsimp only
        split_ifs
        · exact ih (h.tick hb rf n)
        · exact h.tick hb rf time
  exact hti _ h

theorem AtRest.awaitWithin (t ticks : Nat) (es : List EngineEvent) :
    (s.awaitWithin (peer rf) t ticks es).1.AtRest c ann
      b := by
  induction ticks generalizing s es with
  | zero => exact h
  | succ ticks ih =>
    unfold Session.awaitWithin
    split_ifs
    · exact h
    · cases s.deadline? with
      | none => exact h
      | some n =>
        dsimp only
        exact ih (h.tick hb rf n) _

end AtRest

/-- What can happen to a session, each seen through to its end. -/
inductive Operation where
  /-- A request comes and is answered. -/
  | request (ticket : Nat) (request : EngineRequest)
  | filesFound (uris : List Uri)
  | fileDeleted (uri : Uri)
  /-- The clock moves on. -/
  | advance (time : Nat)

/-- Sees an operation through to its end. -/
def perform {σ : Type} (s : Session σ) (peer : Peer σ) : Operation → Sessioned σ
  | .request t r => s.request peer t r
  | .filesFound us => s.step peer (.filesFound us)
  | .fileDeleted u => s.step peer (.fileDeleted u)
  | .advance time => s.advance peer time

/-- A session over the built-in compiler after operations, each with the files as they were then. -/
def after (s : Session Worker) (history : List (Operation × (Uri → Option String))) :
    Session Worker :=
  history.foldl (fun s e ↦ (s.perform (peer e.2) e.1).1) s

/-- An operation whose uris and positions reach the compiler as they are. -/
def Operation.Fits : Operation → Prop
  | .request t asked => (EngineInput.request t asked).Fits
  | .filesFound us => ∀ u ∈ us, u.IsNormal
  | .fileDeleted _ | .advance _ => True

section History

variable {c : Config} {ann : Annotator} {b : Nat} {s : Session Worker}
  (h : s.AtRest c ann b)

include h

/-- An operation leads from rest to rest. -/
theorem AtRest.perform {op : Operation} (hf : op.Fits)
    (hb : b + 14 ≤ 2 ^ 64) (rf : Uri → Option String) :
    (s.perform (Worker.peer rf) op).1.AtRest c ann (b + 14) := by
  cases op with
  | request t request =>
    have hs := h.step (show (EngineInput.request t request).Fits from hf) nofun hb rf
    unfold Session.perform Session.request
    dsimp only
    exact hs.awaitWithin hb rf t _ _
  | filesFound uris =>
    have hi : (EngineInput.filesFound uris).Fits := by
      refine ⟨nofun, fun found hfo ↦ ?_⟩
      obtain rfl := EngineInput.filesFound.inj hfo
      exact hf
    have hs := h.step hi nofun (Nat.le_trans (Nat.le_add_right _ _) hb) rf
    exact hs.mono (Nat.le_add_right _ _)
  | fileDeleted uri =>
    have hi : (EngineInput.fileDeleted uri).Fits := ⟨nofun, nofun⟩
    have hs := h.step hi nofun (Nat.le_trans (Nat.le_add_right _ _) hb) rf
    exact hs.mono (Nat.le_add_right _ _)
  | advance time =>
    have hm := h.advance (Nat.le_trans (Nat.le_add_right _ _) hb) rf time
    exact hm.mono (Nat.le_add_right _ _)

/-- Operations lead from rest to rest. -/
theorem AtRest.after {history : List (Operation × (Uri → Option String))}
    (hf : ∀ e ∈ history, e.1.Fits) (hb : b + 14 * history.length ≤ 2 ^ 64) :
    (s.after history).AtRest c ann (b + 14 * history.length) := by
  induction history generalizing s b with
  | nil => exact h
  | cons e r ih =>
    rw [length_cons] at hb ⊢
    have hfi := h.perform (hf e mem_cons_self) (by omega) e.2
    have hr := ih hfi (fun l hl ↦ hf l (mem_cons_of_mem _ hl)) (by omega)
    exact hr.mono (by omega)

end History

end Session

end StoryScript
