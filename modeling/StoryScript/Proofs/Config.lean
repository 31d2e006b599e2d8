import StoryScript.Config
import StoryScript.Proofs.Json.Decode

/-!
Configurations that a client changes. A merge replaces the fields that an object has, each by what
its value decodes to, and keeps the others; one that fails changes nothing. Merges one after another
are one merge of the objects laid over each other, and a merge is a reading of the configuration's
own encoding with the object laid over it (`Config.merge?_overlays`).
-/

namespace StoryScript

open Json Json.Decoder List Record

/-- The fields of an object with those of another laid over them. -/
def Json.overlay (lower upper : List (String × Json)) : List (String × Json) :=
  lower.filter (fun field ↦ field.1 ∉ upper.map Prod.fst) ++ upper

theorem Json.valuesOf_eq_nil_iff {fields : List (String × Json)} {name : String} :
    valuesOf fields name = [] ↔ name ∉ fields.map Prod.fst := by
  simp only [valuesOf, map_eq_nil_iff, filter_eq_nil_iff, mem_map, decide_eq_true_eq]
  grind

theorem Json.valuesOf_filter (keep : String → Bool) {name : String} (h : keep name = true)
    (fields : List (String × Json)) :
    valuesOf (fields.filter fun x ↦ keep x.1) name = valuesOf fields name := by
  rw [valuesOf, valuesOf, filter_filter]
  congr 2
  funext x
  grind

theorem Json.valuesOf_overlay (lower upper : List (String × Json)) (name : String) :
    valuesOf (overlay lower upper) name =
      if valuesOf upper name = [] then valuesOf lower name else valuesOf upper name := by
  have ha (x : List (String × Json)) :
      valuesOf (x ++ upper) name = valuesOf x name ++ valuesOf upper name := by
    simp [valuesOf]
  rw [overlay, ha]
  split_ifs with ho
  · rw [ho, append_nil, valuesOf_filter (· ∉ upper.map Prod.fst)]
    exact decide_eq_true (valuesOf_eq_nil_iff.mp ho)
  · have hu : valuesOf (lower.filter fun x ↦ x.1 ∉ upper.map Prod.fst) name = [] := by
      refine valuesOf_eq_nil_iff.mpr fun hm ↦ ?_
      obtain ⟨x, hx, rfl⟩ := mem_map.mp hm
      exact ho (valuesOf_eq_nil_iff.mpr (of_decide_eq_true (mem_filter.mp hx).2))
    rw [hu, nil_append]

theorem Json.field?_overlay (lower upper : List (String × Json)) (name : String) :
    field? (overlay lower upper) name = (field? upper name).or (field? lower name) := by
  simp only [field?_eq_getLast?, valuesOf_overlay]
  split_ifs with ho
  · simp [ho]
  · simp [getLast?_eq_some_getLast ho]

theorem Json.Record.repeated?_overlay {ns : List String} {lower upper : List (String × Json)}
    (hu : repeated? ns lower = none) :
    repeated? ns (overlay lower upper) = none ↔ repeated? ns upper = none := by
  rw [repeated?_eq_none_iff] at *
  rw [repeated?_eq_none_iff]
  refine forall₂_congr fun name hn ↦ ?_
  rw [valuesOf_overlay]
  split_ifs with ho
  · exact iff_of_true (hu name hn) (by simp [ho])
  · rfl

namespace Config

/-- The fields of a configuration. -/
inductive Field where
  | mainScriptNames | scriptExtensions | throttleMs | debounceMs | requestTimeoutMs
  | compilerCommand | compilerArgs | autoRenameAssets | maxDocumentSize | builtinIds

namespace Field

def name : Field → String
  | mainScriptNames => "mainScriptNames"
  | scriptExtensions => "scriptExtensions"
  | throttleMs => "throttleMs"
  | debounceMs => "debounceMs"
  | requestTimeoutMs => "requestTimeoutMs"
  | compilerCommand => "compilerCommand"
  | compilerArgs => "compilerArgs"
  | autoRenameAssets => "autoRenameAssets"
  | maxDocumentSize => "maxDocumentSize"
  | builtinIds => "builtinIds"

theorem name_mem (f : Field) : f.name ∈ fieldNames := by
  cases f <;> decide

/-- The type of a field. -/
def Value : Field → Type
  | throttleMs | debounceMs | maxDocumentSize => Nat
  | requestTimeoutMs => Option Nat
  | compilerCommand => Option String
  | autoRenameAssets => Bool
  | mainScriptNames | scriptExtensions | compilerArgs | builtinIds => List String

/-- The value of a field in a configuration. -/
def get (c : Config) : (field : Field) → field.Value
  | mainScriptNames => c.mainScriptNames
  | scriptExtensions => c.scriptExtensions
  | throttleMs => c.throttleMs
  | debounceMs => c.debounceMs
  | requestTimeoutMs => c.requestTimeoutMs
  | compilerCommand => c.compilerCommand
  | compilerArgs => c.compilerArgs
  | autoRenameAssets => c.autoRenameAssets
  | maxDocumentSize => c.maxDocumentSize
  | builtinIds => c.builtinIds

def decode : (field : Field) → Decoder field.Value
  | throttleMs | debounceMs => natural 64 "u64"
  | maxDocumentSize => count
  | requestTimeoutMs => nullable (natural 64 "u64")
  | compilerCommand => nullable text
  | autoRenameAssets => flag
  | mainScriptNames | scriptExtensions | compilerArgs | builtinIds => list text

/-- The value of a field after a merge of an object: what the object gives it, else the old one. -/
def merged (f : Field) (fields : List (String × Json)) (c : Config) : Except Fault f.Value :=
  match field? fields f.name with
  | some json => f.decode json
  | none => .ok (f.get c)

theorem defaulted_eq (f : Field) (fields : List (String × Json)) (c : Config) :
    (⟨fields, none⟩ : Record).defaulted f.name (f.get c) f.decode = f.merged fields c := by
  unfold Record.defaulted Record.field? merged
  cases field? fields f.name with
  | none => rfl
  | some json => cases h : f.decode json <;> simp [h] <;> rfl

end Field

/-- The numbers of a configuration are within the bounds of their types. -/
def Bounded (c : Config) : Prop :=
  c.throttleMs < 2 ^ 64 ∧ c.debounceMs < 2 ^ 64 ∧ (∀ ms ∈ c.requestTimeoutMs, ms < 2 ^ 64) ∧
    c.maxDocumentSize < 2 ^ 64

variable {c next : Config} {fields own : List (String × Json)}

theorem merge?_eq_some_iff :
    c.merge? (.object fields) = some next ↔ Record.repeated? fieldNames fields = none ∧
      ∀ f : Field, f.merged fields c = .ok (f.get next) := by
  have hb {α β : Type} (x : Except Fault α) (g : α → Except Fault β) (b : β) :
      (x >>= g).toOption = some b ↔ ∃ a, x = .ok a ∧ (g a).toOption = some b := by
    cases x <;> simp [bind, Except.bind, Except.toOption]
  simp only [merge?, ofJsonOver, hb, Record.ofJson]
  cases Record.repeated? fieldNames fields with
  | some name => simp
  | none =>
    constructor
    · rintro ⟨_, ⟨⟩, a, ha, b, hb, d, hd, e, he, i, hi, j, hj, k, hk, l, hl, m, hm, n, hn, ⟨⟩⟩
      refine ⟨rfl, fun f ↦ ?_⟩
      rw [← f.defaulted_eq]
      cases f <;> assumption
    · rintro ⟨-, h⟩
      have hf (f : Field) := (f.defaulted_eq fields c).trans (h f)
      exact ⟨_, rfl, _, hf .mainScriptNames, _, hf .scriptExtensions, _, hf .throttleMs,
        _, hf .debounceMs, _, hf .requestTimeoutMs, _, hf .compilerCommand, _, hf .compilerArgs,
        _, hf .autoRenameAssets, _, hf .maxDocumentSize, _, hf .builtinIds, rfl⟩

theorem merge?_eq_none_iff :
    c.merge? (.object fields) = none ↔ repeated? fieldNames fields ≠ none ∨
      ∃ (f : Field) (fault : Fault), f.merged fields c = .error fault := by
  rw [← not_iff_not, ← ne_eq, Option.ne_none_iff_exists', not_or, not_not]
  constructor
  · rintro ⟨next, h⟩
    obtain ⟨hr, hf⟩ := merge?_eq_some_iff.mp h
    refine ⟨hr, ?_⟩
    rintro ⟨f, fault, he⟩
    cases he.symm.trans (hf f)
  · rintro ⟨hr, hn⟩
    have hv (f : Field) : ∃ value, f.merged fields c = .ok value := by
      cases h : f.merged fields c with
      | error fault => exact absurd ⟨f, fault, h⟩ hn
      | ok value => exact ⟨value, rfl⟩
    choose v hv using hv
    refine ⟨⟨v .mainScriptNames, v .scriptExtensions, v .throttleMs, v .debounceMs,
      v .requestTimeoutMs, v .compilerCommand, v .compilerArgs, v .autoRenameAssets,
      v .maxDocumentSize, v .builtinIds⟩, merge?_eq_some_iff.mpr ⟨hr, fun f ↦ ?_⟩⟩
    rw [hv]
    cases f <;> rfl

theorem nullable_ofOption {α : Type} {decode : Decoder α} {encode : α → Json} {value : Option α}
    (h : ∀ v ∈ value, encode v ≠ .null ∧ decode (encode v) = .ok v) :
    nullable decode (ofOption encode value) = .ok value := by
  cases value with
  | none => rfl
  | some v =>
    rw [ofOption, Draft.nullable_of_ne_null (h v rfl).1, (h v rfl).2]
    rfl

/-- Each field is read back from the configuration's own encoding. -/
theorem Field.decode_toJson (hc : c.Bounded) (h : c.toJson = .object own) (f : Field) :
    ∃ json, field? own f.name = some json ∧ f.decode json = .ok (f.get c) := by
  obtain rfl := Json.object.inj h
  have ht (values : List String) : (list text).Reads ofStrings values :=
    reads_list fun value _ ↦ reads_text value
  cases f with
  | throttleMs => exact ⟨_, rfl, reads_natural _ hc.1 .plain⟩
  | debounceMs => exact ⟨_, rfl, reads_natural _ hc.2.1 .plain⟩
  | maxDocumentSize => exact ⟨_, rfl, reads_natural _ hc.2.2.2 .plain⟩
  | requestTimeoutMs =>
    refine ⟨_, rfl, nullable_ofOption fun ms hm ↦ ⟨by rintro ⟨⟩, ?_⟩⟩
    exact reads_natural _ (hc.2.2.1 ms hm) .plain
  | compilerCommand => exact ⟨_, rfl, nullable_ofOption fun _ _ ↦ ⟨by rintro ⟨⟩, rfl⟩⟩
  | autoRenameAssets => exact ⟨_, rfl, rfl⟩
  | _ => exact ⟨_, rfl, ht _ .plain⟩

/-- A merge reads the configuration's own encoding with the known fields of the object laid over
it. -/
theorem merge?_eq_ofJson (hc : c.Bounded) (h : c.toJson = .object own) :
    c.merge? (.object fields) = (ofJson (.object
      (overlay own (fields.filter fun x ↦ x.1 ∈ own.map Prod.fst)))).toOption := by
  have hk : own.map Prod.fst = fieldNames := by
    obtain rfl := Json.object.inj h
    rfl
  have hr : repeated? fieldNames own = none :=
    repeated?_eq_none _ (hk ▸ by decide)
  refine Option.ext fun next ↦ ?_
  change _ ↔ merge? {} (.object _) = some next
  have hv {name : String} (hn : name ∈ fieldNames) :=
    valuesOf_filter (· ∈ fieldNames) (decide_eq_true hn) fields
  rw [merge?_eq_some_iff, merge?_eq_some_iff, repeated?_overlay hr, hk,
    repeated?_eq_none_iff, repeated?_eq_none_iff]
  refine and_congr (forall₂_congr fun name hn ↦ by rw [hv hn]) (forall_congr' fun f ↦ ?_)
  obtain ⟨json, ho, hd⟩ := Field.decode_toJson hc h f
  rw [Field.merged, Field.merged, field?_overlay, ho, field?_eq_getLast?, field?_eq_getLast?,
    hv f.name_mem, ← field?_eq_getLast?]
  cases field? fields f.name with
  | some json => rfl
  | none => rw [← hd]; rfl

/-- Merging. What is not an object changes nothing. An object is refused if it has a known field
twice or one that does not decode; else exactly the known fields that it has are replaced, each by
what it decodes to. Two merges are one of the second object laid over the first, and a merge is a
reading of the configuration's own encoding with the object laid over it. -/
theorem merge?_overlays (c : Config) :
    (∀ json : Json, (∀ fields, json ≠ .object fields) → c.merge? json = some c) ∧
    (∀ fields, c.merge? (.object fields) = none ↔ repeated? fieldNames fields ≠ none ∨
      ∃ (f : Field) (fault : Fault), f.merged fields c = .error fault) ∧
    (∀ fields next, c.merge? (.object fields) = some next ↔ repeated? fieldNames fields = none ∧
        ∀ f : Field, f.merged fields c = .ok (f.get next)) ∧
    (∀ fields, (∀ x ∈ fields, x.1 ∉ fieldNames) → c.merge? (.object fields) = some c) ∧
    (∀ first second next last, c.merge? (.object first) = some next →
      next.merge? (.object second) = some last →
        c.merge? (.object (overlay first second)) = some last) ∧
    (∀ own fields, c.Bounded → c.toJson = .object own → c.merge? (.object fields) = (ofJson (.object
        (overlay own (fields.filter fun x ↦ x.1 ∈ own.map Prod.fst)))).toOption) := by
  refine ⟨fun json h ↦ ?_, fun _ ↦ merge?_eq_none_iff, fun _ _ ↦ merge?_eq_some_iff,
    fun fields h ↦ ?_, fun first second next last h h' ↦ ?_, fun own fields ↦ merge?_eq_ofJson⟩
  · cases json with
    | object fields => exact absurd rfl (h fields)
    | _ => rfl
  · have hv : ∀ name ∈ fieldNames, valuesOf fields name = [] := by
      refine fun name hn ↦ valuesOf_eq_nil_iff.mpr fun hm ↦ ?_
      obtain ⟨x, hx, rfl⟩ := mem_map.mp hm
      exact h x hx hn
    refine merge?_eq_some_iff.mpr ⟨(repeated?_eq_none_iff _ _).mpr fun name hn ↦ ?_, fun f ↦ ?_⟩
    · simp [hv name hn]
    · simp [Field.merged, field?_eq_getLast?, hv _ f.name_mem]
  · obtain ⟨hr, hf⟩ := merge?_eq_some_iff.mp h
    obtain ⟨hs, hg⟩ := merge?_eq_some_iff.mp h'
    refine merge?_eq_some_iff.mpr ⟨(repeated?_overlay hr).mpr hs, fun f ↦ ?_⟩
    rw [← hg f]
    unfold Field.merged at *
    rw [field?_overlay]
    cases field? second f.name with
    | some json => rfl
    | none => exact hf f

end Config

end StoryScript
