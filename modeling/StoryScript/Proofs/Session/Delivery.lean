import StoryScript.Proofs.Script.Sections
import StoryScript.Proofs.Session.CatchUp
import StoryScript.Proofs.Wire.Message

/-!
Programs arrive as they were built. The messages between an engine and its compiler are handed over
as they are or as their JSON (`Message.Carried`). Either way a request for a program gets to the
built-in compiler, and its answer is news of the scripts and then a value that stands for the program
(`Program.Fits.exists_of_carried`). So the engine's call is answered with that program
(`Program.arrives_of_fits`).
-/

namespace StoryScript

open List Message

/-- How messages get to the other side: as they are, or as their JSON. -/
inductive Message.Carried (messages : List Message) : List Message → Prop
  | handed : Carried messages messages
  | written : Carried messages (messages.filterMap fun message ↦ ofJson? message.toJson)

namespace Message

/-- Messages are read back from their JSON with the fields of their values in order. -/
theorem filterMap_ofJson? {ms : List Message}
    (h : ∀ m ∈ ms, ∀ id e, m ≠ response id (some .null) e) :
    (ms.filterMap fun m ↦ ofJson? m.toJson) = ms.map normal := by
  rw [← filterMap_eq_map]
  exact filterMap_congr fun m hm ↦ ofJson?_toJson (h m hm)

/-- A request for a program gets to the other side. -/
theorem Carried.eq_request {id : UInt64} {root : Uri} {asked : List Message}
    (h : Carried [request id compileMethod (compileParams root)] asked) :
    asked = [request id compileMethod (compileParams root)] := by
  cases h with
  | handed => rfl
  | written => exact filterMap_ofJson? (forall_mem_singleton.mpr fun _ _ ↦ nofun)

end Message

namespace Worker

variable {worker : Worker} {readFile : Uri → Option String} {root : Uri} {program : Program}

/-- What a compiler tells of a compile: each script, with how many have been loaded by then. -/
def news (worker : Worker) (readFile : Uri → Option String) (root : Uri) : List Json :=
  (Program.progress worker.annotate (worker.load readFile) root).map fun e ↦
    CompileProgress.toJson ⟨e.1, e.2⟩

/-- A request for a program is answered with news, and then with the program. -/
theorem handleAll_of_build? (hro : root.IsNormal)
    (h : Program.build? worker.annotate worker.builtins (worker.load readFile) root = some program)
    (id : UInt64) :
    (worker.handleAll readFile [.request id compileMethod (compileParams root)]).2.flatten =
      (worker.news readFile root).map (.progress id (progressMethod compileMethod)) ++
        [.success id program.toJson] := by
  have hr : worker.respond readFile id compileMethod (compileParams root) =
      worker.compile readFile id root := by
    rw [respond, if_pos rfl, compileParamsOf_compileParams hro]
  change (worker.respond readFile id compileMethod (compileParams root) ++ [] : List Message) = _
  rw [append_nil, hr, compile, h, news, map_map]
  rfl

end Worker

/-- An answer gets to the other side as news, and then a value that stands for the program. -/
theorem Program.Fits.exists_of_carried {program : Program} (h : program.Fits) {id : UInt64}
    {m : String} {news : List Json} {as : List Message}
    (hc : Message.Carried (news.map (.progress id m) ++ [.success id program.toJson]) as) :
    ∃ (l : List Json) (r : Json), as = l.map (.progress id m) ++ [.success id r] ∧
      Program.ofJson r = .ok program := by
  cases hc with
  | handed => exact ⟨news, program.toJson, rfl, h.reads .plain⟩
  | written =>
    have hr : ∀ msg ∈ news.map (Message.progress id m) ++
        [.success id program.toJson], ∀ id e, msg ≠ .response id (some .null) e :=
      forall_mem_append.mpr ⟨forall_mem_map.mpr fun _ _ _ _ ↦ nofun,
        forall_mem_singleton.mpr fun _ _ ↦ nofun⟩
    refine ⟨news.map Json.normal, program.toJson.normal, ?_, h.reads .sorted⟩
    rw [Message.filterMap_ofJson? hr, map_append, map_map, map_map]
    rfl

/-- A response with a value that stands for a program answers the engine's call with the program. -/
theorem Session.receive_success {σ : Type} {s : Session σ} {id : UInt64} {call : Nat}
    (hp : s.channel.isPending id = true) (hc : s.requests.lookup id = some call)
    {r : Json} {program : Program} (hr : Program.ofJson r = .ok program) :
    s.receive [.success id r] =
      ({ s with
          channel := s.channel.withdraw id
          engine := (s.engine.step (.answer call (.ok program))).1
          requests := s.requests.filter fun e ↦ e.1 ≠ id },
        (s.engine.step (.answer call (.ok program))).2) := by
  have hpr : Session.programOf (Channel.resultOf (some r) none) = .ok program := by
    simp only [Channel.resultOf, Option.getD_some, Session.programOf, hr]
  rw [receive, success, Channel.receive, Channel.settle, if_pos hp]
  simp only [absorb, receive, hc, hpr, append_nil]

/-- A program whose uris, positions and offsets are read back, and whose diagnostics have nothing
but a range, a message, a severity and a source, is read back from its JSON, whatever the order of
the fields. If a compiler builds it, then it is what the engine's call is answered with, whether
messages are handed over as they are or as JSON. -/
theorem Program.arrives_of_fits {program : Program} (h : program.Fits) :
    Program.ofJson program.toJson = .ok program ∧
      (∀ layout : Json.Layout, Program.ofJson (layout.view program.toJson) = .ok program) ∧
      ∀ (worker : Worker) (readFile : Uri → Option String) (root : Uri),
        build? worker.annotate worker.builtins (worker.load readFile) root = some program →
        ∀ {σ : Type} (session : Session σ) (id : UInt64) (call : Nat),
          session.channel.isPending id = true → session.requests.lookup id = some call →
          ∀ asked answers, Message.Carried [.request id compileMethod (compileParams root)] asked →
            Message.Carried (worker.handleAll readFile asked).2.flatten answers →
            session.receive answers =
              ({ session with
                  channel := session.channel.withdraw id
                  engine := (session.engine.step (.answer call (.ok program))).1
                  requests := session.requests.filter fun entry ↦ entry.1 ≠ id },
                (session.engine.step (.answer call (.ok program))).2) := by
  refine ⟨h.reads .plain, h.reads, ?_⟩
  intro worker readFile root hbuild σ session id call hpending hcall asked answers hasked hanswers
  have hroot : root.IsNormal := by
    obtain ⟨collected, -, rfl⟩ := Option.map_eq_some_iff.mp hbuild
    exact h.root root rfl
  obtain rfl := hasked.eq_request
  rw [Worker.handleAll_of_build? hroot hbuild] at hanswers
  obtain ⟨later, result, rfl, hresult⟩ := h.exists_of_carried hanswers
  rw [Session.receive_news, Session.receive_success hpending hcall hresult]

open Session (sceneUri storyFiles)

/-- A compiler to which a scene is open that declares a list, a variable of it and a section, and
diverts to a section that there is not. -/
def sceneWorker : Worker where
  annotate := Script.annotate
  builtins := Table.empty
  documents := Table.empty.insert sceneUri
    ⟨5, "LIST moods = glad, sad\nVAR mood = glad\n== scene\n-> nowhere\n"⟩

/-- A session that waits for the answer to its seventh request, for its third call. -/
def waitingSession : Session Worker :=
  { Worker.session {} Script.annotate with
    channel := { pending := [⟨7, compileMethod, true, none⟩] }
    requests := [(7, 3)] }

theorem Program.arrives_of_fits_scene :
    ∃ program, build? sceneWorker.annotate sceneWorker.builtins (sceneWorker.load storyFiles)
        mainUri = some program ∧
      program.context.symbols.keys = ["mood", "moods", "moods.glad", "moods.sad", "scene"] ∧
      (program.context.symbols.get? "mood").bind Symbol.typeName = some "moods" ∧
      (program.diagnosticsFor sceneUri).map Diagnostic.message =
        ["Divert target 'nowhere' not found"] ∧
      let asked := [request 7 compileMethod (compileParams mainUri)]
      let answers := (sceneWorker.handleAll storyFiles asked).2.flatten.filterMap fun message ↦
        ofJson? message.toJson
      let step := waitingSession.engine.step (.answer 3 (.ok program))
      (waitingSession.receive answers).1.engine = step.1 ∧
        (waitingSession.receive answers).2 = step.2 := by
  have hload : ∀ uri source, sceneWorker.load storyFiles uri = some source →
      uri.IsNormal ∧ Text.byteLength source.text.toList < 2 ^ 64 := by
    intro uri source hsource
    by_cases hscene : uri = sceneUri
    · subst hscene
      cases hsource
      exact ⟨rfl, by decide⟩
    · have hclosed : sceneWorker.documents.get? uri = none :=
        Table.get?_insert_of_ne _ _ (Ne.symm hscene)
      rw [Worker.load, hclosed] at hsource
      obtain ⟨text, htext, rfl⟩ := Option.map_eq_some_iff.mp hsource
      obtain ⟨rfl, rfl⟩ : uri = mainUri ∧ "INCLUDE scene.ink\n" = text := by
        simpa [storyFiles] using htext
      exact ⟨rfl, by decide⟩
  obtain ⟨program, hbuild⟩ := Option.isSome_iff_exists.mp
    (@isSome_build? sceneWorker.annotate sceneWorker.builtins (sceneWorker.load storyFiles) mainUri
      (by decide +kernel))
  have hseen : (build? sceneWorker.annotate sceneWorker.builtins (sceneWorker.load storyFiles)
      mainUri).map (fun program ↦ (program.context.symbols.keys,
        (program.context.symbols.get? "mood").bind Symbol.typeName,
        (program.diagnosticsFor sceneUri).map Diagnostic.message)) =
      some (["mood", "moods", "moods.glad", "moods.sad", "scene"], some "moods",
        ["Divert target 'nowhere' not found"]) := by
    rw [show sceneWorker.annotate = _ from StoryScript.Script.annotate_eq_annotateInOrder]
    decide +kernel
  rw [hbuild, Option.map_some, Option.some.injEq, Prod.mk.injEq, Prod.mk.injEq] at hseen
  obtain ⟨hsymbols, htype, hdiagnostics⟩ := hseen
  have hfits : program.Fits := Worker.fits_of_build? rfl hload hbuild
  obtain ⟨-, -, harrives⟩ := arrives_of_fits hfits
  have hreceived := harrives sceneWorker storyFiles mainUri hbuild waitingSession 7 3 (by decide)
    rfl _ _ .handed .written
  exact ⟨program, hbuild, hsymbols, htype, hdiagnostics, by rw [hreceived], by rw [hreceived]⟩

end StoryScript
