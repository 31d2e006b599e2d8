import StoryScript.Notice
import StoryScript.Proofs.Json.Decode

/-!
What a compiler is told arrives as it was said. A uri survives being written and read if it is the
uri of its own text (`Uri.IsNormal`); versions always do, and positions do if their coordinates are
words of 32 bits. So a notice of such values is read back (`Notice.ofNotification?_params`), and so
is the root of a compile (`compileParamsOf_compileParams`).
-/

namespace StoryScript

open Json.Decoder

open Json (Decoder Draft Layout Record)

/-- A uri that is read back from its text. Nearly all are: an exception is a file with a host whose
path has lost empty segments before a drive. -/
def Uri.IsNormal (u : Uri) : Prop :=
  Uri.parse u.text = .ok u

theorem Uri.IsNormal.reads {u : Uri} (h : u.IsNormal) : Decoder.Reads Uri.ofJson Uri.toJson u := by
  have hp : Uri.parse u.text = .ok u := h
  intro ly
  simp only [Uri.toJson, ly.string, Uri.ofJson, hp]

theorem Json.Decoder.reads_word32 (e : String) (v : Int32) :
    (word32 e).Reads (fun v ↦ .ofInt v.toInt) v := by
  intro ly
  rw [word32, reads_integer e v.minValue_le_toInt v.toInt_le ly]
  exact congrArg Except.ok (Int32.ofInt_toInt v)

theorem Json.Decoder.reads_version (v : Version) : version.Reads Json.ofVersion v :=
  reads_word32 "i32" v

theorem Json.Decoder.reads_coordinate {v : Nat} (h : v < 2 ^ 32) : coordinate.Reads .ofNat v :=
  reads_natural "u32" h

/-- A position whose coordinates are words of 32 bits. -/
structure Position.Fits (position : Position) : Prop where
  line : position.line < 2 ^ 32
  character : position.character < 2 ^ 32

theorem Position.Fits.reads {p : Position} (h : p.Fits) :
    Decoder.Reads Position.ofJson Position.toJson p := by
  intro ly
  let d : Draft := ⟨[("line", some (.ofNat p.line)),
    ("character", some (.ofNat p.character))], by simp⟩
  change Position.ofJson (ly.view d.toJson) = _
  simp only [Position.ofJson, d.ofJson_view, bind, Except.bind,
    d.field? ly 0 rfl (reads_coordinate h.line ly),
    d.field? ly 1 rfl (reads_coordinate h.character ly)]
  rfl

structure Range.Fits (range : Range) : Prop where
  start : range.start.Fits
  stop : range.stop.Fits

theorem Range.Fits.reads {range : Range} (h : range.Fits) :
    Decoder.Reads Range.ofJson Range.toJson range := by
  intro ly
  let d : Draft :=
    ⟨[("start", some range.start.toJson), ("end", some range.stop.toJson)], by simp⟩
  change Range.ofJson (ly.view d.toJson) = _
  simp only [Range.ofJson, d.ofJson_view, bind, Except.bind,
    d.field? ly 0 rfl (h.start.reads ly), d.field? ly 1 rfl (h.stop.reads ly)]
  rfl

structure Change.Fits (change : Change) : Prop where
  range : ∀ range, change.range = some range → range.Fits
  rangeLength : ∀ length, change.rangeLength = some length → length < 2 ^ 32

theorem Change.Fits.reads {change : Change} (h : change.Fits) :
    Decoder.Reads Change.ofJson Change.toJson change := by
  intro layout
  let draft : Draft := ⟨[("range", change.range.map Range.toJson),
    ("rangeLength", change.rangeLength.map .ofNat), ("text", some (.string change.text))], by simp⟩
  change Change.ofJson (layout.view draft.toJson) = _
  simp only [Change.ofJson, draft.ofJson_view, bind, Except.bind,
    draft.nullable layout 0 rfl fun range hr ↦ ⟨nofun, (h.range range hr).reads⟩,
    draft.nullable layout 1 rfl fun length hl ↦ ⟨nofun, reads_coordinate (h.rangeLength length hl)⟩,
    draft.required layout 2 rfl (reads_text change.text layout)]
  rfl

namespace Notice

/-- A notice that arrives as it was said. -/
structure Fits (notice : Notice) : Prop where
  uri : notice.uri.IsNormal
  changes : ∀ uri version changes, notice = .changed uri version changes →
    ∀ change ∈ changes, change.Fits

/-- A notice is what its notification stands for. -/
theorem ofNotification?_params {n : Notice} (h : n.Fits) :
    ofNotification? n.method n.params = some n := by
  cases n with
  | opened u v t =>
    let d : Draft := ⟨[("uri", some u.toJson), ("version", some (Json.ofVersion v)),
      ("text", some (.string t))], by simp⟩
    have hr : openedOf (Layout.plain.view d.toJson) = .ok (.opened u v t) := by
      simp only [openedOf, d.ofJson_view, bind, Except.bind,
        d.required .plain 0 rfl (h.uri.reads .plain),
        d.required .plain 1 rfl (reads_version v .plain),
        d.required .plain 2 rfl (reads_text t .plain)]
      rfl
    rw [method, ofNotification?, if_pos rfl]
    exact congrArg Except.toOption hr
  | changed u v cs =>
    let d : Draft := ⟨[("uri", some u.toJson), ("version", some (Json.ofVersion v)),
      ("contentChanges", some (Json.ofList Change.toJson cs))], by simp⟩
    have hch : (list Change.ofJson).Reads (Json.ofList Change.toJson) cs :=
      reads_list fun c hc ↦ (h.changes _ _ _ rfl c hc).reads
    have hr : changedOf (Layout.plain.view d.toJson) = .ok (.changed u v cs) := by
      simp only [changedOf, d.ofJson_view, bind, Except.bind,
        d.required .plain 0 rfl (h.uri.reads .plain),
        d.required .plain 1 rfl (reads_version v .plain),
        d.required .plain 2 rfl (hch .plain)]
      rfl
    rw [method, ofNotification?, if_neg (by decide), if_pos rfl]
    exact congrArg Except.toOption hr
  | closed u =>
    let d : Draft := ⟨[("uri", some u.toJson)], by simp⟩
    have hr : closedOf (Layout.plain.view d.toJson) = .ok (.closed u) := by
      simp only [closedOf, d.ofJson_view, bind, Except.bind,
        d.required .plain 0 rfl (h.uri.reads .plain)]
      rfl
    rw [method, ofNotification?, if_neg (by decide), if_neg (by decide), if_pos rfl]
    exact congrArg Except.toOption hr

end Notice

/-- The root of a compile is what its parameters stand for. -/
theorem compileParamsOf_compileParams {u : Uri} (h : u.IsNormal) :
    compileParamsOf (compileParams u) = .ok u := by
  have hr : Uri.ofJson u.toJson = .ok u := h.reads .plain
  let d : Draft := ⟨[("uri", some u.toJson)], by simp⟩
  have ho : Record.ofJson "a compile" ["uri"] (compileParams u) =
      .ok (d.record .plain) := d.ofJson_view .plain _ _
  have hc : (Shape.record "CompileParams" [.need "uri" .uri]).check (compileParams u) =
      .ok () := by
    simp [Shape.check, compileParams, Shape.checkFrom, Shape.checkField, Field.need, hr,
      Shape.requireAll, Field.presence, Field.name, discard, Functor.discard, Functor.mapConst]
    rfl
  simp only [compileParamsOf, Shape.reading, hc, ho, bind, Except.bind,
    d.required .plain 0 rfl (h.reads .plain)]

end StoryScript
