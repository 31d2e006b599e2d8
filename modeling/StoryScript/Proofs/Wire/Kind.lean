import StoryScript.Proofs.Wire.Message

/-!
Which kind of message an object is taken for. The format says that a response has no method and that
a notification has no id. An object that has both an id and a method is to be a request or progress;
`Message.asDescribed_iff` says when it is one. Where it is not, it does not have to be refused: the
readings pass over fields that they do not know, so that it may be taken for a response in spite of
its method, or for a notification in spite of its id.
-/

namespace StoryScript

open List Option
open Json (Decoder Record)

variable {name : String}

namespace Message

variable {message : Message}

theorem idOfJson_eq_ok_iff {json : Json} {id : UInt64} :
    (idOfJson json).toOption = some id ↔ json = .ofNat id.toNat := by
  constructor
  · intro h
    unfold idOfJson Decoder.natural at h
    cases json with
    | number v =>
      cases v with
      | int v =>
        rw [Decoder.integer] at h
        split_ifs at h with hr
        · obtain ⟨hl, hh⟩ := hr
          obtain ⟨n, rfl⟩ := Int.eq_ofNat_of_zero_le hl
          have hn : n < 2 ^ 64 := by
            have hp : (Nat.pow 2 64 : Nat) = 2 ^ 64 := rfl
            rw [hp] at hh
            omega
          obtain rfl : UInt64.ofNat n = id := Option.some.inj h
          rw [UInt64.toNat_ofNat_of_lt' hn]
          rfl
        · cases h
      | float _ => cases h
    | _ => cases h
  · rintro rfl
    exact congrArg Except.toOption (reads_id id .plain)

theorem text_eq_ok_iff {json : Json} {t : String} :
    (Decoder.text json).toOption = some t ↔ json = .string t := by
  cases json with
  | string v =>
    simp [Decoder.text, Except.toOption]
  | _ => simp [Decoder.text, Except.toOption]

/-! ### Calls -/

section Calls

variable {fields : List (String × Json)}

/-- The fields of a call: an id, a method and a value under a further name, each of them once. -/
structure CallFields (fields : List (String × Json)) (name : String) (id : UInt64)
    (method : String) (value : Json) : Prop where
  id : Json.valuesOf fields "id" = [.ofNat id.toNat]
  method : Json.valuesOf fields "method" = [.string method]
  value : Json.valuesOf fields name = [value]

theorem toOption_calledOf_eq_some_iff {e : String} {make : UInt64 → String → Json → Message} :
    (calledOf e name make (.object fields)).toOption = some message ↔
      ∃ id m v, CallFields fields name id m v ∧ message = make id m v.normal := by
  rw [calledOf, Except.toOption_bind, Record.toOption_ofJson]
  split_ifs with hr
  · rw [Record.repeated?_eq_none_iff] at hr
    have hi := hr "id" (by simp)
    have hm := hr "method" (by simp)
    have hv := hr name (by simp)
    simp only [bind_some, Except.toOption_bind, Record.toOption_required,
      bind_eq_some_iff, idOfJson_eq_ok_iff, text_eq_ok_iff]
    constructor
    · rintro ⟨id, ⟨_, hf, rfl⟩, m, ⟨_, hs, rfl⟩, _, ⟨v, ht, ha⟩, heq⟩
      cases ha
      exact ⟨id, m, v, ⟨(Json.valuesOf_eq_singleton_iff hi).mpr hf,
        (Json.valuesOf_eq_singleton_iff hm).mpr hs,
        (Json.valuesOf_eq_singleton_iff hv).mpr ht⟩, (Option.some.inj heq).symm⟩
    · rintro ⟨id, m, v, ⟨hf, hs, ht⟩, rfl⟩
      exact ⟨id, ⟨_, (Json.valuesOf_eq_singleton_iff hi).mp hf, rfl⟩, m,
        ⟨_, (Json.valuesOf_eq_singleton_iff hm).mp hs, rfl⟩, v.normal,
        ⟨v, (Json.valuesOf_eq_singleton_iff hv).mp ht, rfl⟩, rfl⟩
  · refine ⟨(by cases ·), ?_⟩
    rintro ⟨id, m, v, hc, -⟩
    refine (hr ?_).elim
    rw [Record.repeated?_eq_none_iff]
    intro o ho
    simp only [mem_cons, not_mem_nil, or_false] at ho
    rcases ho with rfl | rfl | rfl
    · rw [hc.id, length_singleton]
    · rw [hc.method, length_singleton]
    · rw [hc.value, length_singleton]

/-- Whether an object is a call: a request, which has parameters, or progress, which has a value. -/
def IsCall (fields : List (String × Json)) : Prop :=
  ∃ name ∈ ["params", "value"], ∃ id m v, CallFields fields name id m v

/-- Whether an object has a field. -/
def HasField (fields : List (String × Json)) (name : String) : Prop :=
  name ∈ fields.map Prod.fst

theorem field?_eq_none_of_not_hasField (h : ¬ HasField fields name) :
    Json.field? fields name = none :=
  Json.field?_eq_none fun _ hf hn ↦ h (mem_map.mpr ⟨_, hf, hn⟩)

/-- What a message of each kind is to be read from: a response has no method, and a notification has
no id. -/
def AsDescribed (fields : List (String × Json)) : Message → Prop
  | request _ _ _ | progress _ _ _ => True
  | response _ _ _ => ¬ HasField fields "method"
  | notification _ _ => ¬ HasField fields "id"

theorem kind_of_responseOf (h : responseOf (.object fields) = .ok message) :
    message.kind = "response" ∧ HasField fields "id" := by
  constructor
  · obtain ⟨id, r, e, rfl, -⟩ := exists_of_responseOf h
    rfl
  · by_contra hi
    have hn := toOption_responseOf_of_missing (field?_eq_none_of_not_hasField hi)
    rw [h] at hn
    cases hn

theorem toOption_notificationOf_of_missing (h : Json.field? fields "method" = none) :
    (notificationOf (.object fields)).toOption = none :=
  Record.toOption_open_eq_none (by simp [Except.toOption_bind, Record.toOption_required, h])

theorem kind_of_notificationOf (h : notificationOf (.object fields) = .ok message) :
    message.kind = "notification" ∧ HasField fields "method" := by
  constructor
  · obtain ⟨m, ps, rfl, -⟩ := exists_of_notificationOf h
    rfl
  · by_contra hm
    have hn := toOption_notificationOf_of_missing (field?_eq_none_of_not_hasField hm)
    rw [h] at hn
    cases hn

/-- Objects that are calls are read as such, and no other ones. -/
theorem kind_of_ofJson? (h : ofJson? (.object fields) = some message) :
    IsCall fields ∧ message.kind ∈ ["request", "progress"] ∨
      ¬ IsCall fields ∧ (message.kind = "response" ∧ HasField fields "id" ∨
        message.kind = "notification" ∧ HasField fields "method") := by
  rw [ofJson?_object, requestOf_eq_calledOf, progressOf_eq_calledOf] at h
  rcases or_eq_some_iff.mp h with hr | ⟨hr, h⟩
  · obtain ⟨id, m, v, hc, rfl⟩ := toOption_calledOf_eq_some_iff.mp hr
    exact .inl ⟨⟨"params", by simp, id, m, v, hc⟩, by simp [kind]⟩
  rcases or_eq_some_iff.mp h with hp | ⟨hp, h⟩
  · obtain ⟨id, m, v, hc, rfl⟩ := toOption_calledOf_eq_some_iff.mp hp
    exact .inl ⟨⟨"value", by simp, id, m, v, hc⟩, by simp [kind]⟩
  refine .inr ⟨?_, ?_⟩
  · rintro ⟨name, hn, id, m, v, hc⟩
    -- A call would have been read by one of the first two readings.
    simp only [mem_cons, not_mem_nil, or_false] at hn
    rcases hn with rfl | rfl
    · exact eq_none_iff_forall_ne_some.mp hr _
        (toOption_calledOf_eq_some_iff.mpr ⟨id, m, v, hc, rfl⟩)
    · exact eq_none_iff_forall_ne_some.mp hp _
        (toOption_calledOf_eq_some_iff.mpr ⟨id, m, v, hc, rfl⟩)
  · rcases or_eq_some_iff.mp h with hre | ⟨-, hno⟩
    · exact .inl (kind_of_responseOf (Except.eq_ok_of_toOption hre))
    · exact .inr (kind_of_notificationOf (Except.eq_ok_of_toOption hno))

end Calls

/-- A message is of the kind that its object has the fields of, as the format describes them, exactly
if the object is a call or does not have both an id and a method. -/
theorem asDescribed_iff {fields : List (String × Json)} {message : Message}
    (h : ofJson? (.object fields) = some message) :
    message.AsDescribed fields ↔
      (HasField fields "id" → HasField fields "method" → IsCall fields) := by
  rcases kind_of_ofJson? h with ⟨hcall, hkind⟩ | ⟨hcall, ⟨hkind, hid⟩ | ⟨hkind, hmethod⟩⟩
  · refine iff_of_true ?_ fun _ _ ↦ hcall
    cases message with
    | request | progress => trivial
    | response | notification => simp [kind] at hkind
  · obtain ⟨id, result, error, rfl⟩ : ∃ id result error, message = response id result error := by
      cases message with
      | response id result error => exact ⟨id, result, error, rfl⟩
      | _ => simp [kind] at hkind
    exact ⟨fun hnone _ hmethod ↦ absurd hmethod hnone, fun himp hmethod ↦ hcall (himp hid hmethod)⟩
  · obtain ⟨method, params, rfl⟩ : ∃ method params, message = notification method params := by
      cases message with
      | notification method params => exact ⟨method, params, rfl⟩
      | _ => simp [kind] at hkind
    exact ⟨fun hnone hid ↦ absurd hid hnone, fun himp hid ↦ hcall (himp hid hmethod)⟩

/-- Progress that has a result besides. -/
def lateNews : List (String × Json) :=
  [("result", .array []), ("value", .null), ("method", .string "compiler/compile/progress"),
    ("id", .ofNat 18446744073709551615)]

theorem asDescribed_lateNews :
    ofJson? (.object lateNews) =
        some (progress 18446744073709551615 "compiler/compile/progress" .null) ∧
      (progress 18446744073709551615 "compiler/compile/progress" .null).AsDescribed lateNews := by
  have hread : ofJson? (.object lateNews) =
      some (progress 18446744073709551615 "compiler/compile/progress" .null) := by decide +kernel
  have hcall : CallFields lateNews "value" 18446744073709551615 "compiler/compile/progress" .null :=
    ⟨by decide +kernel, by decide +kernel, by decide +kernel⟩
  exact ⟨hread, (asDescribed_iff hread).mpr fun _ _ ↦ ⟨"value", by decide, _, _, _, hcall⟩⟩

/-- A greeting with an id is taken for a response, which settles the request with that id; if the id
is a text, it is taken for a greeting. -/
theorem not_asDescribed_greeting :
    (ofJson? (.object [("id", .ofNat 1), ("method", .string readyMethod)]) =
        some (response 1 none none) ∧
      ¬ (response 1 none none).AsDescribed [("id", .ofNat 1), ("method", .string readyMethod)]) ∧
    (ofJson? (.object [("id", .string "1"), ("method", .string readyMethod)]) =
        some (notification readyMethod .null) ∧
      ¬ (notification readyMethod .null).AsDescribed
        [("id", .string "1"), ("method", .string readyMethod)]) := by
  refine ⟨⟨by decide +kernel, fun h ↦ h ?_⟩, by decide +kernel, fun h ↦ h ?_⟩
  · exact mem_cons_of_mem _ mem_cons_self
  · exact mem_cons_self

end Message

end StoryScript
