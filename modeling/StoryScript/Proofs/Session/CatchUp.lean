import StoryScript.Proofs.Engine.Forced
import StoryScript.Proofs.Host
import StoryScript.Proofs.Session.Rest
import StoryScript.Proofs.Script.Scan
import StoryScript.Proofs.Wire.Program

/-!
A forced compile catches up with the editor. Whatever has happened to a session over the built-in
compiler, a forced compile of an open document is answered with a program that has the document at
its live version, and the cache knows the live version of every open document that one of the
compile's programs covers (`Session.forced_compile_catches_up`).

The compiler's answers are read back from what they are written as. So uris have to be read back
from their texts: one that is not, such as `file://[::1]//C:`, does not even get its notices to the
compiler, and its compile fails. A compiler that is given no time at all has no answer in time.
-/

namespace StoryScript

open List Program Script Worker

namespace Worker

variable {w : Worker} {readFile : Uri → Option String}

/-- The text of a script is that of the open document if there is one. -/
theorem load_of_get? {uri : Uri} {source : Source} (h : w.documents.get? uri = some source) :
    w.load readFile uri = some source := by
  rw [load, h]

theorem isSome_load (uri : Uri) : (w.load readFile uri).isSome =
    ((w.documents.get? uri).isSome || (readFile uri).isSome) := by
  unfold load
  cases w.documents.get? uri with
  | none => simp
  | some source => rfl

section Building

variable (ha : w.annotate = Script.annotate)
  (hl : ∀ uri source, w.load readFile uri = some source →
    uri.IsNormal ∧ Text.byteLength source.text.toList < 2 ^ 64)
  {root : Uri} {program : Program}
  (h : Program.build? w.annotate w.builtins (w.load readFile) root = some program)

include ha hl h

/-- Scripts that the built-in annotator finds words in, and whose uris and lengths fit, make programs
that fit. -/
theorem fits_of_build? : program.Fits := by
  refine Program.fits_of_build? h fun uri s hs ↦ ?_
  obtain ⟨source, hsr, rfl⟩ := Option.map_eq_some_iff.mp hs
  obtain ⟨hn, hsi⟩ := hl uri source hsr
  refine ⟨hn, fun x hi ↦ ?_⟩
  rw [ha] at hi
  obtain ⟨hst, hsto⟩ := Script.stop_le_of_mem_annotate hi
  have hla := Nat.lt_of_le_of_lt hsto hsi
  exact ⟨Nat.lt_of_le_of_lt hst hla, hla⟩

/-- So they are read back. -/
theorem result_of_build? : w.result readFile root = .ok program := by
  have hro : root.IsNormal := by
    obtain ⟨source, hs⟩ := Option.isSome_iff_exists.mp (isSome_load_of_build? h)
    exact (hl root source hs).1
  have hr : ofJson program.toJson = .ok program := (fits_of_build? ha hl h).reads .plain
  rw [result, reply, compileParamsOf_compileParams hro]
  dsimp only
  rw [h]
  dsimp only [Session.programOf]
  rw [hr]

end Building

end Worker

namespace Engine

variable {e : Engine}

/-- An engine that waits for no answer has no compile under way. -/
theorem Owes.compiles_eq_nil (h : e.Owes []) : e.scheduler.compiles = [] := by
  have hc : e.scheduler.compiles.filterMap Job.call? = [] := perm_nil.mp h.outstanding
  refine eq_nil_iff_forall_not_mem.mpr fun job hj ↦ ?_
  have hn := filterMap_eq_nil_iff.mp hc job hj
  have hs := (mem_filter.mp hj).2
  rw [hn] at hs
  cases hs

/-- Nobody waits for a compile that is not under way. -/
theorem Owes.tickets_eq_nil (h : e.Owes []) (uri : Uri) : e.scheduler.cache.tickets uri = [] := by
  by_contra hw
  obtain ⟨job, hj, -⟩ := h.sound.running uri not_mem_nil (h.sound.waiting uri hw)
  replace hj : job ∈ e.scheduler.compiles := hj
  rw [h.compiles_eq_nil] at hj
  cases hj

theorem project_compile (e : Engine) (t : Nat) (uri : Uri) (f : Bool) :
    (e.step (.request t (.compile uri f))).1.project = e.project := by
  have hh : (e.handle (.request t (.compile uri f))).1.project =
      e.project := project_startJob _ _ _ _
  exact (project_settle _).trans hh

end Engine

namespace Session

/-- What the built-in compiler builds from a script while an engine has its documents open. -/
def built (config : Config) (readFile : Uri → Option String) (e : Engine) : Uri → Option Program :=
  build? annotate config.builtins ((compilerOf config annotate e).load readFile)

section Built

variable {config : Config} {b : Nat} {e : Engine} {readFile : Uri → Option String}
  {root uri : Uri} {version : Version} {program : Program}

theorem load_of_version? (h : e.project.store.version? uri = some version) :
    ∃ text, (compilerOf config annotate e).load readFile uri = some ⟨version, text⟩ := by
  obtain ⟨d, hd, rfl⟩ := Option.map_eq_some_iff.mp h
  refine ⟨d.text, load_of_get? ?_⟩
  rw [compilerOf, Store.get?_sources, hd]
  rfl

theorem agreesWith_of_built (h : built config readFile e root = some program) :
    program.AgreesWith e.project.store.version? := by
  intro uri version hv hc
  obtain ⟨text, hl⟩ := load_of_version? hv
  exact versionOf?_of_build? h hl hc

/-- While all that can be loaded fits, the compiler's programs reach the engine. -/
theorem result_of_built (h : e.AtRest config b) (hsi : config.maxDocumentSize < 2 ^ 64)
    (hf : ∀ uri text, readFile uri = some text →
      uri.IsNormal ∧ Text.byteLength text.toList < 2 ^ 64)
    (hb : built config readFile e root = some program) :
    (compilerOf config annotate e).result readFile root = .ok program := by
  refine result_of_build? rfl (fun uri source hs ↦ ?_) hb
  unfold load at hs
  rw [compilerOf, Store.get?_sources] at hs
  cases hd : e.project.store.get? uri with
  | some d =>
    rw [hd] at hs
    obtain rfl := Option.some.inj hs
    have ho : e.project.store.contains uri = true := by
      rw [Store.contains_eq_isSome, hd]
      rfl
    exact ⟨h.normal.opened uri ho, Nat.lt_of_le_of_lt (h.within.sized uri d hd) hsi⟩
  | none =>
    rw [hd] at hs
    obtain ⟨text, ht, rfl⟩ := Option.map_eq_some_iff.mp hs
    exact hf uri text ht

end Built

theorem filter_isAnswerTo_isVisible (t : Nat) (es : List EngineEvent) :
    (es.filter isVisible).filter (isAnswerTo t) = es.filter (isAnswerTo t) := by
  rw [filter_filter]
  refine filter_congr fun ev _ ↦ ?_
  cases ev <;> simp [isAnswerTo, isVisible]

/-- A request that is answered while the calls that follow from it are has its answer at once. -/
theorem request_eq_step {session n : Session Worker} {peer : Peer Worker} {t : Nat}
    {r : EngineRequest} {es : List EngineEvent}
    (hs : session.step peer (.request t r) = (n, es))
    (han : es.filter (isAnswerTo t) ≠ []) :
    session.request peer t r = (n, es) := by
  have hany : es.any (isAnswerTo t) = true := by
    obtain ⟨ev, he⟩ := exists_mem_of_ne_nil _ han
    exact any_eq_true.mpr ⟨ev, mem_filter.mp he⟩
  rw [Session.request, hs]
  dsimp only
  rw [show n.tickBound = n.tickBound - 1 + 1 from rfl, awaitWithin, if_pos hany]

section Forced

variable {config : Config} {b : Nat} {session : Session Worker}
  {readFile : Uri → Option String} {uri : Uri} {version : Version}

theorem isSome_built (hm : ∀ m, session.engine.project.mainScript? uri = some m →
      session.engine.project.store.contains m = true ∨ (readFile m).isSome = true)
    (m : Uri) (hf : session.engine.project.mainScript? uri = some m) :
    (built config readFile session.engine m).isSome = true := by
  refine isSome_build? ?_
  rw [isSome_load, Bool.or_eq_true]
  refine (hm m hf).imp_left fun ho ↦ ?_
  rwa [Engine.contains_sources] at ho

theorem exists_built (ho : session.engine.project.store.version? uri = some version) :
    ∃ alone, built config readFile session.engine uri = some alone ∧ alone.covers uri = true := by
  have hl : ((compilerOf config annotate session.engine).load readFile uri).isSome =
      true := by
    obtain ⟨text, hl⟩ := load_of_version? ho
    rw [hl]
    rfl
  obtain ⟨alone, hal⟩ := Option.isSome_iff_exists.mp (isSome_build? hl)
  exact ⟨alone, hal, covers_root_of_build? hal⟩

/-- A forced compile in a session at rest: what it is answered with, and what it leaves behind. -/
theorem AtRest.request_compile (h : session.AtRest config annotate b)
    (hsi : config.maxDocumentSize < 2 ^ 64) (hb : b + 14 ≤ 2 ^ 64)
    (hf : ∀ uri text, readFile uri = some text →
      uri.IsNormal ∧ Text.byteLength text.toList < 2 ^ 64)
    (ho : session.engine.project.store.version? uri = some version)
    (hm : ∀ m, session.engine.project.mainScript? uri = some m →
      session.engine.project.store.contains m = true ∨ (readFile m).isSome = true)
    (t : Nat) :
    let n := session.request (peer readFile) t (.compile uri true)
    let ps := session.engine.project.programsFor (built config readFile session.engine) uri
    let planned := (session.engine.scheduler.cache.plan uri version true
      (session.engine.scheduler.cache.anyChanged session.engine.project.store.versions)).2
    ∃ program, ps.getLast? = some program ∧
      n.2.filter (isAnswerTo t) = [.answered t (.compiled (.ok (some program)))] ∧
      n.1.engine.project = session.engine.project ∧
      n.1.engine.scheduler.cache =
        planned.completeAll uri session.engine.project.store.contains ps := by
  intro n ps planned
  obtain ⟨alone, hal, -⟩ := exists_built ho
  have hre : ∀ root program, built config readFile session.engine root = some program →
      (compilerOf config annotate session.engine).result readFile root = .ok program :=
    fun root program hbu ↦ result_of_built h.engine hsi hf hbu
  obtain ⟨program, hla, hans⟩ := Engine.answers_forced h.engine.quiet
    h.engine.owes.compiles_eq_nil h.engine.owes.tickets_eq_nil ho t hre
    (isSome_built hm) hal
  have hi : (EngineInput.request t (.compile uri true)).Fits := ⟨nofun, nofun⟩
  obtain ⟨id, hse⟩ := h.current
  obtain ⟨lastId, hs⟩ := step_current annotate h.engine hi nofun hb readFile id
  have hc : compilerOf config annotate (session.engine.step (.request t (.compile uri true))).1 =
      compilerOf config annotate session.engine := by
    rw [compilerOf, Engine.project_compile]
    rfl
  rw [hc, ← hse] at hs
  have han := hans.answered
  rw [← filter_isAnswerTo_isVisible] at han
  have hr := request_eq_step hs (by rw [han]; exact cons_ne_nil _ _)
  refine ⟨program, hla, ?_, ?_, ?_⟩
  · dsimp only [n]
    rw [hr]
    exact han
  · dsimp only [n]
    rw [hr]
    exact (Engine.project_converse _ _ _ _).trans (Engine.project_compile _ _ _ _)
  · dsimp only [n]
    rw [hr]
    exact hans.cache

end Forced

/-- Let a session over the built-in compiler give it all the time it takes to answer, and let all that
has happened, and the files as they are now, have uris that are read back from their texts. Then a
forced compile of an open document, whose main script can be loaded if it has one, is answered with
a program that has the document at its live version. After it the cache knows the document at this
version, and no compile of it is under way; and of all programs that were compiled on the way, the
cache knows the open documents that they cover at their own live versions. -/
theorem forced_compile_catches_up (config : Config)
    (history : List (Operation × (Uri → Option String))) (session : Session Worker)
    (hsession : session = (Worker.session config Script.annotate).after history)
    (htimeout : config.requestTimeoutMs = none) (hsize : config.maxDocumentSize < 2 ^ 64)
    (hlength : history.length < 2 ^ 60) (hfits : ∀ entry ∈ history, entry.1.Fits)
    (readFile : Uri → Option String)
    (hfiles : ∀ uri text, readFile uri = some text →
      uri.IsNormal ∧ Text.byteLength text.toList < 2 ^ 64)
    (ticket : Nat) (uri : Uri) (version : Version)
    (hopen : session.engine.project.store.version? uri = some version)
    (hmain : ∀ main, session.engine.project.mainScript? uri = some main →
      session.engine.project.store.contains main = true ∨ (readFile main).isSome = true) :
    let next := session.request (Worker.peer readFile) ticket (.compile uri true)
    let cache := next.1.engine.scheduler.cache
    let programs := session.engine.project.programsFor (built config readFile session.engine) uri
    ∃ program, programs.getLast? = some program ∧
      next.2.filter (isAnswerTo ticket) = [.answered ticket (.compiled (.ok (some program)))] ∧
      program.versionOf? uri = some version ∧
      next.1.engine.project = session.engine.project ∧
      cache.compiled? uri = some version ∧ cache.compiling? uri = none ∧
      cache.completed = session.engine.scheduler.cache.completed + programs.length ∧
      ∀ source ∈ programs, ∀ other live, next.1.engine.project.store.version? other = some live →
        source.covers other = true → cache.compiled? other = some live := by
  intro next cache programs
  have hrest : session.AtRest config Script.annotate (0 + 14 * history.length) :=
    hsession ▸ (atRest_session Script.annotate htimeout).after hfits (by omega)
  obtain ⟨program, hlast, hanswered, hproject, hcache⟩ :=
    hrest.request_compile hsize (by omega) hfiles hopen hmain ticket
  obtain ⟨alone, halone, hroot⟩ := exists_built hopen
  have hcovers : ∀ program, programs.getLast? = some program → program.covers uri = true :=
    fun program ↦ Project.covers_of_getLast?_programsFor (isSome_built hmain) halone hroot
  have hagrees : ∀ source ∈ programs, source.AgreesWith session.engine.project.store.version? := by
    intro source hsource
    obtain ⟨root, hbuilt⟩ :=
      Project.exists_build_of_mem_programsFor (isSome_built hmain) halone hsource
    exact agreesWith_of_built hbuilt
  have hmem : program ∈ programs := mem_of_getLast? hlast
  have hcompiled : ∀ source ∈ programs, ∀ other live,
      session.engine.project.store.version? other = some live → source.covers other = true →
        cache.compiled? other = some live := by
    intro source hsource other live hlive hother
    dsimp only [cache, next]
    rw [hcache]
    exact Cache.compiled?_completeAll hlive hagrees hcovers
      (Or.inr ⟨source, hsource, hother, Store.contains_of_version? hlive⟩)
  refine ⟨program, hlast, hanswered, hagrees program hmem uri version hopen (hcovers program hlast),
    hproject, hcompiled program hmem uri version hopen (hcovers program hlast), ?_, ?_, ?_⟩
  · dsimp only [cache, next]
    rw [hcache]
    exact Cache.compiling?_completeAll _ _ _ (ne_nil_of_mem hmem)
  · dsimp only [cache, next]
    rw [hcache, Cache.completed_completeAll, Cache.completed_plan]
  · rw [hproject]
    exact hcompiled

open Host (driveUri)

/-- A script that the main script includes. -/
def sceneUri : Uri := ⟨"file:///story/scene.ink"⟩

/-- The main script is a file. -/
def storyFiles (uri : Uri) : Option String :=
  if uri = mainUri then some "INCLUDE scene.ink\n" else none

/-- Two scripts are opened, the main script is found, and one of the scripts is changed. -/
def noteChanged : List (Operation × (Uri → Option String)) :=
  [(.request 0 (.openDocument sceneUri 5 "== scene\n"), storyFiles),
    (.request 1 (.openDocument noteUri 1 "== note\n"), storyFiles),
    (.filesFound [mainUri], storyFiles),
    (.request 2 (.changeDocument noteUri 2 [⟨none, none, "-> scene\n"⟩]), storyFiles)]

theorem fits_noteChanged : ∀ en ∈ noteChanged, en.1.Fits := by
  have hst : mainUri.IsNormal := by rfl
  have hn : noteUri.IsNormal := by rfl
  have hs : sceneUri.IsNormal := by rfl
  simp only [noteChanged, forall_mem_cons, Operation.Fits, not_mem_nil, false_imp_iff,
    implies_true, and_true]
  refine ⟨⟨?_, nofun⟩, ⟨?_, nofun⟩, hst, ?_, nofun⟩
  · rintro n ⟨⟩
    exact ⟨hs, nofun⟩
  · rintro n ⟨⟩
    exact ⟨hn, nofun⟩
  · rintro n ⟨⟩
    refine ⟨hn, ?_⟩
    rintro uri version cs ⟨⟩ c hc
    rw [mem_singleton.mp hc]
    exact ⟨nofun, nofun⟩

/-- Both scripts are open then, and only one of them is covered by the main script. -/
theorem project_noteChanged :
    let session := (session {} annotate).after noteChanged
    session.engine.project.store.version? noteUri = some 2 ∧
      session.engine.project.store.version? sceneUri = some 5 ∧
      session.engine.project.mainScript? noteUri = some mainUri ∧
      session.engine.project.store.contains mainUri = false ∧
      (session.engine.project.programsFor (built {} storyFiles session.engine) noteUri).map
        (fun program ↦ program.covers sceneUri) = [true, false] := by
  decide +kernel

/-- The compile of the note is that of the main script, which is not open, and then that of the note
alone. So it catches up with two open documents, of different versions. -/
theorem forced_compile_catches_up_noteChanged :
    let session := (Worker.session {} Script.annotate).after noteChanged
    let next := session.request (Worker.peer storyFiles) 3 (.compile noteUri true)
    session.engine.project.mainScript? noteUri = some mainUri ∧
      session.engine.project.store.contains mainUri = false ∧
      (∃ program, next.2.filter (isAnswerTo 3) = [.answered 3 (.compiled (.ok (some program)))] ∧
          program.versionOf? noteUri = some 2) ∧
      next.1.engine.scheduler.cache.compiled? noteUri = some 2 ∧
      next.1.engine.scheduler.cache.compiling? noteUri = none ∧
      next.1.engine.scheduler.cache.compiled? sceneUri = some 5 := by
  have hproject := project_noteChanged
  -- From here on the session is not computed any more.
  generalize hsession : (Worker.session {} Script.annotate).after noteChanged = session at hproject ⊢
  obtain ⟨hopen, hscene, hmain, hclosed, hcovers⟩ := hproject
  dsimp only
  have hfiles : ∀ uri text, storyFiles uri = some text →
      uri.IsNormal ∧ Text.byteLength text.toList < 2 ^ 64 := by
    intro uri text htext
    obtain ⟨rfl, rfl⟩ : uri = mainUri ∧ "INCLUDE scene.ink\n" = text := by
      simpa [storyFiles] using htext
    exact ⟨rfl, by decide⟩
  have hloads : ∀ main, session.engine.project.mainScript? noteUri = some main →
      session.engine.project.store.contains main = true ∨ (storyFiles main).isSome = true := by
    intro main hfound
    obtain rfl := Option.some.inj (hmain.symm.trans hfound)
    exact Or.inr (by simp [storyFiles])
  obtain ⟨program, -, hanswered, hversion, hkept, hcompiled, hcompiling, -, hall⟩ :=
    forced_compile_catches_up {} noteChanged session hsession.symm rfl (by decide) (by decide)
      fits_noteChanged storyFiles hfiles 3 noteUri 2 hopen hloads
  obtain ⟨source, hsource, hother⟩ := mem_map.mp (hcovers.symm ▸ mem_cons_self)
  rw [← hkept] at hscene
  exact ⟨hmain, hclosed, ⟨program, hanswered, hversion⟩, hcompiled, hcompiling,
    hall source hsource sceneUri 5 hscene hother⟩

/-- A session in which a document without a main script is open. -/
def withOpen (config : Config) (uri : Uri) : Session Worker :=
  (session config annotate).after
    [(.request 0 (.openDocument uri 1 "== knot\n"), fun _ ↦ none)]

/-- A forced compile does not catch up if the compiler is given no time, or if the document's uri is
not read back from its text. -/
theorem forced_compile_falls_behind :
    let late := withOpen { requestTimeoutMs := some 0 } noteUri
    let astray := withOpen {} driveUri
    (late.engine.project.store.version? noteUri = some 1 ∧
      late.engine.project.mainScript? noteUri = none ∧
      (late.request (peer fun _ ↦ none) 1
        (.compile noteUri true)).1.engine.scheduler.cache.compiled? noteUri = none) ∧
    (Uri.parse "file://[::1]//C:").toOption = some driveUri ∧
    astray.engine.project.store.version? driveUri = some 1 ∧
    astray.engine.project.mainScript? driveUri = none ∧
    (astray.request (peer fun _ ↦ none) 1
      (.compile driveUri true)).1.engine.scheduler.cache.compiled? driveUri = none := by
  decide +kernel

end Session

end StoryScript
