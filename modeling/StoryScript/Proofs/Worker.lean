import Mathlib.Data.List.Forall2
import StoryScript.Proofs.Program.Closed
import StoryScript.Worker

/-!
What the built-in compiler says. It says that it is there and then, whatever it is told, answers each
request in turn and says nothing else (`Worker.output_eq_answers`). An answer is one failure, or one
message for each script of the program that was asked for and then the program (`Worker.Answer`). A
notice that cannot be read, or that is about a document that is not open, changes nothing
(`Worker.PassedOver`).
-/

namespace StoryScript

open List Message Notice

variable (worker : Worker)

namespace Program

variable {ann : Annotator} {bs : Keys String} {ld : Loader} {r : Uri}
  {p : Program}

/-- A program is built from its root if and only if the root can be loaded. -/
theorem build?_eq_none_iff : build? ann bs ld r = none ↔ ld r = none := by
  rw [build?, Option.map_eq_none_iff, collectFrom?, Option.map_eq_none_iff, load?,
    Option.map_eq_none_iff]

/-- The scripts of a program are counted from one as they are loaded, each once. -/
theorem exists_progress_of_build? (h : build? ann bs ld r = some p) :
    ∃ us : List Uri, progress ann ld r = us.zipIdx.map (fun (u, index) ↦ (u, index + 1)) ∧
      us.Perm p.scripts.keys ∧ p.scripts.entries.length = us.length := by
  obtain ⟨c, hc, rfl⟩ := Option.map_eq_some_iff.mp h
  have hk : ((c.scripts.map fun s ↦ (s.uri, s.version)).map
      Prod.fst) = c.scripts.map Script.uri := by
    rw [map_map]
    rfl
  have hp := Table.perm_entries_ofList (hk ▸ nodup_collectFrom? hc)
  refine ⟨c.scripts.map Script.uri, ?_, ?_, ?_⟩
  · rw [progress, hc, zipIdx_map, map_map]
    rfl
  · rw [← hk]
    exact (hp.map Prod.fst).symm
  · exact hp.length_eq.trans (by rw [length_map, length_map])

end Program

namespace Worker

variable {method : String}

/-! ### Answers -/

/-- The answer to a request: one failure if the request is for something else, cannot be read or
names a root that cannot be loaded; otherwise the scripts of the program in the order in which they
were loaded, each with how many have been, and then the program. -/
inductive Answer (worker : Worker) (readFile : Uri → Option String) (id : UInt64) (method : String)
    (params : Json) : List Message → Prop
  | unsupported (hmethod : method ≠ compileMethod) :
    Answer worker readFile id method params
      [.failure id methodNotFound ("unsupported method: " ++ method)]
  | undecodable (hmethod : method = compileMethod) (fault : Json.Fault)
      (hparams : compileParamsOf params = .error fault) :
    Answer worker readFile id method params [.failure id invalidParams fault.message]
  | unknown (hmethod : method = compileMethod) (r : Uri)
      (hparams : compileParamsOf params = .ok r) (hload : worker.load readFile r = none) :
    Answer worker readFile id method params
      [.failure id invalidParams ("unknown document: " ++ r.text)]
  | compiled (hmethod : method = compileMethod) (r : Uri)
      (hparams : compileParamsOf params = .ok r)
      (hload : (worker.load readFile r).isSome = true) (p : Program)
      (hbuild : Program.build? worker.annotate worker.builtins (worker.load readFile) r = some p)
      (uris : List Uri) (huris : uris.Perm p.scripts.keys)
      (hlen : p.scripts.entries.length = uris.length) :
    Answer worker readFile id method params (uris.zipIdx.map (fun (uri, index) ↦
        .progress id (progressMethod compileMethod) (CompileProgress.toJson ⟨uri, index + 1⟩)) ++
        [.success id p.toJson])

theorem answer_respond (rf : Uri → Option String) (id : UInt64) (method : String) (ps : Json) :
    Answer worker rf id method ps (worker.respond rf id method ps) := by
  unfold respond
  by_cases hm : method = compileMethod
  · rw [if_pos hm]
    cases hp : compileParamsOf ps with
    | error f => exact .undecodable hm f hp
    | ok r =>
      cases hb : Program.build? worker.annotate worker.builtins (worker.load rf) r with
      | none =>
        simp only [compile, hb]
        exact .unknown hm r hp (Program.build?_eq_none_iff.mp hb)
      | some p =>
        obtain ⟨us, hpr, hu, hl⟩ := Program.exists_progress_of_build? hb
        simp only [compile, hb, hpr, map_map]
        exact .compiled hm r hp (Program.isSome_load_of_build? hb) p hb us hu hl
  · rw [if_neg hm]
    exact .unsupported hm

/-! ### Notices -/

/-- The documents that a compiler has after a message. -/
def documentsAfter (ds : Table Uri Source) : Message → Table Uri Source
  | .notification method ps =>
    match ofNotification? method ps with
    | some n => noted ds n
    | none => ds
  | _ => ds

theorem documents_handle (rf : Uri → Option String) (m : Message) :
    (worker.handle rf m).1 = { worker with documents := documentsAfter worker.documents m } := by
  cases m with
  | notification method ps =>
    unfold handle documentsAfter
    dsimp only
    cases ofNotification? method ps <;> rfl
  | request id method ps => rfl
  | progress id method v => rfl
  | response id res e => rfl

theorem documents_handleAll (rf : Uri → Option String) (ms : List Message) :
    (worker.handleAll rf ms).1 =
      { worker with documents := ms.foldl documentsAfter worker.documents } := by
  induction ms generalizing worker with
  | nil => rfl
  | cons m tl ih =>
    have hf : (worker.handleAll rf (m :: tl)).1 = ((worker.handle rf m).1.handleAll rf tl).1 := rfl
    rw [hf, ih, documents_handle]
    rfl

/-- How the notices of each method are read. -/
def noticeDecoders : List (String × Json.Decoder Notice) :=
  [(openMethod, openedOf), (changeMethod, changedOf), (closeMethod, closedOf)]

/-- Notifications that a compiler passes over: of another method, with contents that cannot be read,
or about a change or the end of a document that is not open. -/
inductive PassedOver (documents : Table Uri Source) (method : String) (params : Json) : Prop
  | unknown (hmethod : method ∉ noticeDecoders.map Prod.fst)
  | malformed (decode : Json.Decoder Notice) (hdecode : (method, decode) ∈ noticeDecoders)
      (fault : Json.Fault) (hparams : decode params = .error fault)
  | unopened (notice : Notice) (hnotice : ofNotification? method params = some notice)
      (hopened : ∀ uri version text, notice ≠ .opened uri version text)
      (huri : documents.contains notice.uri = false)

theorem ofNotification?_of_unknown (h : method ∉ noticeDecoders.map Prod.fst) (ps : Json) :
    ofNotification? method ps = none := by
  simp only [noticeDecoders, map_cons, map_nil, mem_cons, not_mem_nil, or_false, not_or] at h
  rw [ofNotification?, if_neg h.1, if_neg h.2.1, if_neg h.2.2]

theorem ofNotification?_of_mem {decode : Json.Decoder Notice}
    (h : (method, decode) ∈ noticeDecoders) (ps : Json) :
    ofNotification? method ps = (decode ps).toOption := by
  simp only [noticeDecoders, mem_cons, not_mem_nil, or_false, Prod.mk.injEq] at h
  rcases h with ⟨rfl, rfl⟩ | ⟨rfl, rfl⟩ | ⟨rfl, rfl⟩ <;> rfl

theorem PassedOver.documentsAfter_eq {ds : Table Uri Source} {ps : Json}
    (h : PassedOver ds method ps) :
    documentsAfter ds (.notification method ps) = ds := by
  unfold documentsAfter
  dsimp only
  cases h with
  | unknown hm => rw [ofNotification?_of_unknown hm]
  | malformed decode hd f hp =>
    rw [ofNotification?_of_mem hd, hp]
    rfl
  | unopened n hno ho hu =>
    rw [hno]
    cases n with
    | opened u v t => exact absurd rfl (ho u v t)
    | changed u v cs =>
      have hn : ds.get? u = none := by
        rw [Table.contains_eq_isSome] at hu
        exact Option.isNone_iff_eq_none.mp (Option.isSome_eq_false_iff.mp hu)
      simp only [noted, hn]
    | closed u => exact Table.erase_of_not_contains hu

/-! ### Runs -/

end Worker

/-- A message that reaches a compiler, and the files as they are then. -/
structure Delivery where
  message : Message
  readFile : Uri → Option String

namespace Worker

/-- A compiler's messages, each with the compiler as it is when it takes the message. -/
def trace (worker : Worker) : List Delivery → List (Worker × Delivery)
  | [] => []
  | delivery :: l =>
    (worker, delivery) :: trace (worker.handle delivery.readFile delivery.message).1 l

/-- Whether a message is a request. -/
def asks (e : Worker × Delivery) : Bool :=
  match e.2.message with
  | .request _ _ _ => true
  | _ => false

/-- What a compiler says on a message. -/
def said (e : Worker × Delivery) : List Message :=
  (e.1.handle e.2.readFile e.2.message).2

/-- All that a compiler says, from the time when it is there. -/
def output (worker : Worker) (deliveries : List Delivery) : List Message :=
  greeting ++ (worker.trace deliveries).flatMap said

/-- An answer to the request that a compiler takes. -/
def Answered (e : Worker × Delivery) (a : List Message) : Prop :=
  ∃ id method ps, e.2.message = .request id method ps ∧ Answer e.1 e.2.readFile id method ps a

theorem answered_said {e : Worker × Delivery} (h : asks e = true) : Answered e (said e) := by
  cases hm : e.2.message with
  | request id method ps =>
    refine ⟨id, method, ps, hm, ?_⟩
    rw [said, hm]
    exact answer_respond e.1 e.2.readFile id method ps
  | _ => simp [asks, hm] at h

theorem said_of_not_asks {e : Worker × Delivery} (h : asks e = false) : said e = [] := by
  cases hm : e.2.message with
  | request id method ps => simp [asks, hm] at h
  | notification method ps =>
    rw [said, hm, handle]
    split <;> rfl
  | _ => simp [said, hm, handle]

theorem flatMap_said_filter (es : List (Worker × Delivery)) :
    (es.filter asks).flatMap said = es.flatMap said := by
  induction es with
  | nil => rfl
  | cons e tl ih =>
    cases hr : asks e with
    | true => rw [filter_cons_of_pos hr, flatMap_cons, flatMap_cons, ih]
    | false =>
      rw [filter_cons_of_neg (ne_true_of_eq_false hr), flatMap_cons,
        said_of_not_asks hr, ih, nil_append]

/-- A compiler says that it is there and then, in the order in which the requests reach it, an answer
to each, and nothing else. A notification that is passed over leaves its documents as they are. -/
theorem output_eq_answers (worker : Worker) (deliveries : List Delivery) :
    (∃ answers, worker.output deliveries = greeting ++ answers.flatten ∧
      List.Forall₂ Answered ((worker.trace deliveries).filter asks) answers) ∧
    ∀ current delivery method params, (current, delivery) ∈ worker.trace deliveries →
      delivery.message = .notification method params →
      PassedOver current.documents method params →
        (current.handle delivery.readFile delivery.message).1.documents = current.documents := by
  constructor
  · refine ⟨((worker.trace deliveries).filter asks).map said, ?_, ?_⟩
    · rw [← flatMap_def, flatMap_said_filter]
      rfl
    · rw [List.forall₂_map_right_iff, List.forall₂_same]
      exact fun entry hentry ↦ answered_said (of_mem_filter hentry)
  · intro current delivery method params _ hmessage hpassed
    rw [documents_handle, hmessage]
    exact hpassed.documentsAfter_eq

def quayUri : Uri := ⟨"file:///quay.ink"⟩

def quayWorker : Worker := { annotate := fun _ ↦ default, builtins := Table.empty }

/-- A script is opened, a change of it is garbled, and then something else and a program are asked
for. -/
def quayDeliveries : List Delivery :=
  [.notification openMethod (opened quayUri 3 "").params,
    .notification changeMethod .null, .request 5 "compiler/format" .null,
    .response 5 none none, .request 6 compileMethod (compileParams quayUri)].map
      fun m ↦ ⟨m, fun _ ↦ none⟩

/-- The garbled change leaves the script as it was opened, and both requests are answered. -/
theorem output_eq_answers_quay :
    ((quayWorker.output quayDeliveries).map fun message ↦ (message.kind, message.id?)) =
      [("notification", none), ("response", some 5), ("progress", some 6), ("response", some 6)] ∧
    (∃ answers, quayWorker.output quayDeliveries = greeting ++ answers.flatten ∧
      List.Forall₂ Answered ((quayWorker.trace quayDeliveries).filter asks) answers) ∧
    ∃ current : Worker, current.documents.entries = [(quayUri, ⟨3, ""⟩)] ∧
      (current.handle (fun _ ↦ none) (.notification changeMethod .null)).1.documents =
        current.documents := by
  obtain ⟨hanswers, hpassed⟩ := output_eq_answers quayWorker quayDeliveries
  refine ⟨by decide +kernel, hanswers, (quayWorker.handle (fun _ ↦ none)
    (.notification openMethod (opened quayUri 3 "").params)).1, by decide +kernel,
    hpassed _ _ _ _ (mem_cons_of_mem _ mem_cons_self) rfl
      (.malformed changedOf (by simp [noticeDecoders]) _ rfl)⟩

end Worker

end StoryScript
