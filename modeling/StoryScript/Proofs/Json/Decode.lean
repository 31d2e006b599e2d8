import Mathlib.Algebra.Ring.Nat
import Mathlib.Data.List.Nodup
import Mathlib.Data.List.Perm.Basic
import StoryScript.Proofs.Table
import StoryScript.Wire.Context

/-!
Reading back what was written. On its way a value may have its fields put in another order
(`Json.Layout`), as they are where all objects are sorted (`Json.Layout.sorted`). An encoding and a
decoder fit a value if the decoder gives the value back in every layout (`Json.Decoder.Reads`). A
structure written as an object with each field once is read field by field, also where fields without
a value are left out (`Json.Draft`); lists, tables and sets are read back if their
items are.
-/

namespace StoryScript

open List

namespace Json

variable {name : String}

/-- The value of a field that stands among fields with different names. -/
theorem field?_of_mem {fields : List (String × Json)} (hna : (fields.map Prod.fst).Nodup)
    {value : Json} (h : (name, value) ∈ fields) : field? fields name = some value := by
  cases hf : fields.reverse.find? fun f ↦ f.1 = name with
  | none =>
    have ha := find?_eq_none.mp hf (name, value) (mem_reverse.mpr h)
    simp at ha
  | some f =>
    have hm := mem_reverse.mp (mem_of_find?_eq_some hf)
    have hn : f.1 = name := by simpa using find?_some hf
    obtain rfl := inj_on_of_nodup_map hna hm h hn
    rw [field?, hf]
    rfl

theorem field?_eq_none {fields : List (String × Json)} (h : ∀ f ∈ fields, f.1 ≠ name) :
    field? fields name = none := by
  have hfi : (fields.reverse.find? fun f ↦ f.1 = name) = none :=
    find?_eq_none.mpr fun f hf ↦ by simpa using h f (mem_reverse.mp hf)
  rw [field?, hfi]
  rfl

/-- The values that stand under a name. -/
def valuesOf (fields : List (String × Json)) (name : String) : List Json :=
  (fields.filter fun f ↦ f.1 = name).map Prod.snd

theorem valuesOf_cons_self (name : String) (v : Json) (r : List (String × Json)) :
    valuesOf ((name, v) :: r) name = v :: valuesOf r name := by
  simp [valuesOf]

theorem valuesOf_cons_of_ne {f : String × Json} (h : f.1 ≠ name)
    (r : List (String × Json)) : valuesOf (f :: r) name = valuesOf r name := by
  simp [valuesOf, h]

/-- What is read of a name is its last value. -/
theorem field?_eq_getLast? (fields : List (String × Json)) (name : String) :
    field? fields name = (valuesOf fields name).getLast? := by
  rw [field?, valuesOf, getLast?_map, ← head?_reverse, ← filter_reverse, head?_filter]

theorem any_eq_false_iff (fields : List (String × Json)) (name : String) :
    (fields.any fun f ↦ f.1 = name) = false ↔ valuesOf fields name = [] := by
  simp [valuesOf, filter_eq_nil_iff]

/-- No name of a list is repeated if each has one value at most. -/
theorem Record.repeated?_eq_none_iff (ns : List String) (fields : List (String × Json)) :
    repeated? ns fields = none ↔ ∀ name ∈ ns, (valuesOf fields name).length ≤ 1 := by
  induction fields with
  | nil => simp [repeated?, valuesOf]
  | cons f r ih =>
    obtain ⟨key, v⟩ := f
    have ho : ∀ {name}, name ≠ key → valuesOf ((key, v) :: r) name = valuesOf r name :=
      fun h ↦ valuesOf_cons_of_ne (Ne.symm h) r
    rw [repeated?]
    split_ifs with hr
    · obtain ⟨hk, ha⟩ := hr
      refine ⟨(by cases ·), fun hal ↦ ?_⟩
      have hl := hal key hk
      rw [valuesOf_cons_self, length_cons, Nat.succ_le_succ_iff, Nat.le_zero,
        length_eq_zero_iff, ← any_eq_false_iff, ha] at hl
      cases hl
    · rw [ih]
      refine forall₂_congr fun name hn ↦ ?_
      by_cases heq : name = key
      · subst heq
        have hno : valuesOf r name = [] :=
          (any_eq_false_iff r name).mp (Bool.eq_false_iff.mpr fun ha ↦ hr ⟨hn, ha⟩)
        rw [valuesOf_cons_self, hno]
        simp
      · rw [ho heq]

/-- A value that is read of a name without repetitions is the only one. -/
theorem valuesOf_eq_singleton_iff {fields : List (String × Json)} {v : Json}
    (h : (valuesOf fields name).length ≤ 1) :
    valuesOf fields name = [v] ↔ field? fields name = some v := by
  rw [field?_eq_getLast?]
  match hv : valuesOf fields name with
  | [] => simp
  | [only] => simp
  | _ :: _ :: _ =>
    rw [hv] at h
    simp at h

/-- The fields that are written of a structure some of whose fields may have no value. -/
def present (options : List (String × Option Json)) : List (String × Json) :=
  options.filterMap fun option ↦ option.2.map (option.1, ·)

theorem names_present_sublist (options : List (String × Option Json)) :
    ((present options).map Prod.fst).Sublist (options.map Prod.fst) := by
  induction options with
  | nil => exact .slnil
  | cons option r ih =>
    obtain ⟨name, value⟩ := option
    cases value with
    | none => exact ih.cons name
    | some value => exact ih.cons_cons name

theorem field?_present {options : List (String × Option Json)}
    (hn : (options.map Prod.fst).Nodup) {value : Option Json} (h : (name, value) ∈ options) :
    field? (present options) name = value := by
  cases value with
  | some value =>
    exact field?_of_mem (hn.sublist (names_present_sublist options)) (mem_filterMap.mpr ⟨_, h, rfl⟩)
  | none =>
    refine field?_eq_none fun f hf hna ↦ ?_
    obtain ⟨option, ho, hv⟩ := mem_filterMap.mp hf
    obtain ⟨value, hs, rfl⟩ := Option.map_eq_some_iff.mp hv
    have heq := inj_on_of_nodup_map hn ho h hna
    rw [heq] at hs
    cases hs

/-! ### Layouts -/

/-- A way to write values anew that does no more than move the fields of objects. -/
structure Layout where
  view : Json → Json
  null_iff : ∀ json, view json = .null ↔ json = .null
  number : ∀ value, view (.number value) = .number value
  string : ∀ value, view (.string value) = .string value
  array : ∀ items, view (.array items) = .array (items.map view)
  object : ∀ fields, (fields.map Prod.fst).Nodup → ∃ later, view (.object fields) = .object later ∧
    later.Perm (fields.map fun field ↦ (field.1, view field.2))

theorem normalItems_eq_map (xs : List Json) : normalItems xs = xs.map normal := by
  induction xs with
  | nil => rfl
  | cons x r ih => rw [normalItems, ih, map_cons]

theorem normalFields_eq_map (fields : List (String × Json)) :
    normalFields fields = fields.map fun f ↦ (f.1, f.2.normal) := by
  induction fields with
  | nil => rfl
  | cons f r ih => rw [normalFields, ih, map_cons]

theorem normal_eq_null {json : Json} (h : json.normal = .null) : json = .null := by
  cases json with
  | array xs => cases (normal.eq_1 xs).symm.trans h
  | object fields => cases (normal.eq_2 fields).symm.trans h
  | _ => exact h

namespace Layout

/-- Values as they are. -/
def plain : Layout where
  view := id
  null_iff _ := .rfl
  number _ := rfl
  string _ := rfl
  array items := congrArg Json.array (map_id items).symm
  object fields _ := ⟨fields, rfl, by rw [show (fun f : String × Json ↦ (f.1, id f.2)) =
    id from rfl, map_id]⟩

/-- Values with the fields of every object sorted. -/
def sorted : Layout where
  view := normal
  null_iff _ := ⟨normal_eq_null, by rintro rfl; rfl⟩
  number _ := rfl
  string _ := rfl
  array items := by rw [normal, normalItems_eq_map]
  object fields h := by
    rw [normal, normalFields_eq_map]
    refine ⟨_, rfl, Table.perm_entries_ofList ?_⟩
    rwa [map_map]

/-- The fields of an object in a layout. -/
def fields (layout : Layout) (fields : List (String × Json)) : List (String × Json) :=
  match layout.view (.object fields) with
  | .object l => l
  | _ => []

variable (layout : Layout) {fields : List (String × Json)} (h : (fields.map Prod.fst).Nodup)

include h

theorem view_object : layout.view (.object fields) = .object (layout.fields fields) := by
  obtain ⟨later, hv, -⟩ := layout.object fields h
  rw [Layout.fields, hv]

theorem perm_fields : (layout.fields fields).Perm (fields.map fun f ↦ (f.1, layout.view f.2)) := by
  obtain ⟨later, hv, hp⟩ := layout.object fields h
  rwa [Layout.fields, hv]

theorem nodup_fields : ((layout.fields fields).map Prod.fst).Nodup := by
  refine ((layout.perm_fields h).map Prod.fst).nodup_iff.mpr ?_
  rwa [map_map]

theorem field?_fields (name : String) :
    field? (layout.fields fields) name = (field? fields name).map layout.view := by
  have hp := layout.perm_fields h
  by_cases hn : ∃ json, (name, json) ∈ fields
  · obtain ⟨json, hj⟩ := hn
    rw [field?_of_mem h hj]
    refine field?_of_mem (layout.nodup_fields h) (hp.mem_iff.mpr ?_)
    exact mem_map_of_mem hj
  · have hno : ∀ f ∈ fields, f.1 ≠ name := by
      rintro f hf rfl
      exact hn ⟨f.2, hf⟩
    rw [field?_eq_none hno]
    refine field?_eq_none fun f hf ↦ ?_
    obtain ⟨other, ho, rfl⟩ := mem_map.mp (hp.mem_iff.mp hf)
    exact hno other ho

end Layout

namespace Decoder

/-- A decoder gives back a value that was written, in whatever layout. -/
def Reads {α : Type} (decode : Decoder α) (encode : α → Json) (value : α) : Prop :=
  ∀ layout : Layout, decode (layout.view (encode value)) = .ok value

variable {α : Type} {decode : Decoder α} {encode : α → Json}

theorem reads_text (value : String) : text.Reads .string value := by
  intro layout
  rw [layout.string]
  rfl

theorem reads_integer {low high value : Int} (e : String) (hl : low ≤ value)
    (hh : value ≤ high) : (integer low high e).Reads .ofInt value := by
  intro layout
  rw [ofInt, layout.number]
  exact if_pos ⟨hl, hh⟩

theorem reads_natural {bits value : Nat} (e : String) (h : value < 2 ^ bits) :
    (natural bits e).Reads .ofNat value := by
  have hh : (value : Int) ≤ Nat.pow 2 bits - 1 := by
    have hc : (value : Int) < Nat.pow 2 bits := Int.ofNat_lt.mpr h
    omega
  intro layout
  have hr : integer 0 (Nat.pow 2 bits - 1) e (layout.view (.ofInt value)) =
      .ok (value : Int) := reads_integer e (Int.natCast_nonneg value) hh layout
  exact congrArg (Except.map Int.toNat) hr

theorem mapM_of_forall₂ {β : Type} {fields : List β} {values : List α} {read : β → Except Fault α}
    (h : Forall₂ (fun f value ↦ read f = .ok value) fields values) :
    fields.mapM read = .ok values := by
  induction h with
  | nil => rfl
  | cons hf _ ih =>
    rw [mapM_cons, hf, ih]
    rfl

theorem reads_list {values : List α} (h : ∀ value ∈ values, decode.Reads encode value) :
    (list decode).Reads (ofList encode) values := by
  intro layout
  rw [ofList, layout.array, list, map_map]
  refine mapM_of_forall₂ (forall₂_map_left_iff.mpr (forall₂_same.mpr fun value hv ↦ ?_))
  exact h value hv layout

section Table

variable {κ β : Type} [Named κ] [DecidableEq κ] {key : Decoder κ} {value : Decoder β}
  {content : β → Json}

theorem reads_table {es : Table κ β}
    (hk : ∀ e ∈ es.entries, key.Reads (fun name ↦ .string (Named.name name)) e.1)
    (hv : ∀ e ∈ es.entries, value.Reads content e.2) :
    (table key value).Reads (Table.toJson content) es := by
  intro layout
  have hn : ∀ e ∈ es.entries, key (.string (Named.name e.1)) = .ok e.1 :=
    fun e he ↦ hk e he .plain
  have hi : ∀ x ∈ es.entries, ∀ second ∈ es.entries,
      Named.name x.1 = Named.name second.1 → x.1 = second.1 := by
    intro x hf second hs heq
    have hr := hn x hf
    rw [heq, hn second hs] at hr
    exact (Except.ok.inj hr).symm
  have hno : ((es.entries.map fun e ↦ (Named.name e.1, content e.2)).map Prod.fst).Nodup := by
    rw [map_map]
    refine Nodup.map_on (fun x hf second hs heq ↦ ?_) (Nodup.of_map Prod.fst (Table.nodup_keys es))
    exact inj_on_of_nodup_map (Table.nodup_keys es) hf hs (hi x hf second hs heq)
  let read : String × Json → Except Fault (κ × β) := fun f ↦ do
    let name ← key (.string f.1)
    let found ← value f.2
    pure (name, found)
  have hr : Forall₂ (fun f e ↦ read f = .ok e)
      ((es.entries.map fun e ↦ (Named.name e.1, content e.2)).map
        fun f ↦ (f.1, layout.view f.2)) es.entries := by
    rw [map_map, forall₂_map_left_iff]
    refine forall₂_same.mpr fun e he ↦ ?_
    simp only [read, Function.comp_apply, hn e he, hv e he layout]
    rfl
  obtain ⟨found, hfo, hp⟩ := perm_comp_forall₂ (layout.perm_fields hno) hr
  have hen : (layout.fields _).mapM read = .ok found := mapM_of_forall₂ hfo
  rw [Table.toJson, layout.view_object hno, table]
  change (do
    let es ← (layout.fields _).mapM read
    pure (Table.ofList es)) = _
  rw [hen]
  exact congrArg Except.ok (Table.ofList_of_perm hp hi)

theorem reads_keys {set : Keys κ}
    (h : ∀ name ∈ Table.keys set, key.Reads (fun name ↦ .string (Named.name name)) name) :
    (keys key).Reads Keys.toJson set := by
  intro layout
  have hl : list key (layout.view (Keys.toJson set)) = .ok (Table.keys set) := reads_list h layout
  have hs : Keys.ofList (Table.keys set) = set := by
    rw [Keys.ofList, Table.keys, foldl_map]
    exact Table.ofList_entries set
  rw [keys, hl]
  exact congrArg Except.ok hs

end Table

end Decoder

theorem Record.repeated?_eq_none (ns : List String) {fields : List (String × Json)}
    (h : (fields.map Prod.fst).Nodup) : repeated? ns fields = none := by
  refine (repeated?_eq_none_iff ns fields).mpr fun name _ ↦ ?_
  have hc := nodup_iff_count_le_one.mp h name
  rw [count, countP_map, countP_eq_length_filter] at hc
  rw [valuesOf, length_map]
  exact hc

/-- What is written of a structure: fields with different names, some of which may have no value. -/
structure Draft where
  options : List (String × Option Json)
  nodup : (options.map Prod.fst).Nodup

namespace Draft

variable {α : Type} (draft : Draft) (layout : Layout) (index : Nat) {decode : Decoder α}
  {encode : α → Json}

def toJson : Json :=
  Json.ofOptions draft.options

/-- The record that it is read from. -/
def record : Record :=
  ⟨layout.fields (present draft.options), none⟩

/-- A structure that was written is opened as it was written. -/
theorem ofJson_view (expected : String) (ns : List String) :
    Record.ofJson expected ns (layout.view draft.toJson) = .ok (draft.record layout) := by
  have hp := draft.nodup.sublist (names_present_sublist draft.options)
  have hre := Record.repeated?_eq_none ns (layout.nodup_fields hp)
  change Record.ofJson expected ns (layout.view (.object (present draft.options))) = _
  rw [layout.view_object hp, Record.ofJson, hre]
  rfl

theorem field?_fields {option : Option Json} (h : draft.options[index]? = some (name, option)) :
    Json.field? (draft.record layout).fields name = option.map layout.view := by
  rw [← field?_present draft.nodup (mem_of_getElem? h)]
  exact layout.field?_fields (draft.nodup.sublist (names_present_sublist draft.options)) name

section Value

variable {json : Json} {value : α} (h : draft.options[index]? = some (name, some json))
  (hr : decode (layout.view json) = .ok value)

include h hr

theorem field? : (draft.record layout).field? name decode = .ok (some value) := by
  rw [Record.field?, draft.field?_fields layout index h]
  exact congrArg (Except.map some) hr

theorem required : (draft.record layout).required name decode = .ok value := by
  rw [Record.required, draft.field? layout index h hr]
  rfl

theorem defaulted (default : α) :
    (draft.record layout).defaulted name default decode = .ok value := by
  rw [Record.defaulted, draft.field? layout index h hr]
  rfl

end Value

theorem nullable_of_ne_null {json : Json} (h : json ≠ .null) :
    Decoder.nullable decode json = (decode json).map some := by
  cases json with
  | null => exact absurd rfl h
  | _ => rfl

theorem nullable_view {json : Json} (hn : json ≠ .null) {value : α}
    (hr : decode (layout.view json) = .ok value) :
    Decoder.nullable decode (layout.view json) = .ok (some value) := by
  rw [nullable_of_ne_null (mt (layout.null_iff _).mp hn), hr]
  rfl

section Optional

variable {value : Option α} (h : draft.options[index]? = some (name, value.map encode))
  (hr : ∀ found, value = some found → encode found ≠ .null ∧ decode.Reads encode found)

include h hr

/-- A field that may have no value, as it was written. -/
theorem field?_nullable :
    (draft.record layout).field? name (Decoder.nullable decode) = .ok (value.map some) := by
  rw [Record.field?, draft.field?_fields layout index h]
  cases value with
  | none => rfl
  | some found =>
    obtain ⟨hn, hd⟩ := hr found rfl
    exact congrArg (Except.map some) (nullable_view layout hn (hd layout))

theorem nullable : (draft.record layout).nullable name decode = .ok value := by
  rw [Record.nullable, draft.field?_nullable layout index h hr]
  cases value <;> rfl

theorem optional : (draft.record layout).optional name decode = .ok value := by
  rw [Record.optional, Record.defaulted, draft.field?_nullable layout index h hr]
  cases value <;> rfl

end Optional

end Draft

end Json

end StoryScript
