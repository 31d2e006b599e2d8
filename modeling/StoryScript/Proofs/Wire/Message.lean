import StoryScript.Message
import StoryScript.Proofs.Json.Decode

/-!
Messages and their JSON form. A message is told by its fields alone, so each form must be refused by
the readings that come before its own. `Message.ofJson?_object` says which message an object stands
for in terms of its fields; `Message.ofJson?_roundTrip` says that a message that is written is read
back, and that reading and writing what was read changes nothing.
-/

namespace StoryScript

open Json.Decoder List RemoteError
open Json (Decoder Draft Layout Record)

/-! ### Values with their fields in order -/

namespace Json

theorem normalFields_of_forall {fields : List (String × Json)}
    (h : ∀ f ∈ fields, f.2.normal = f.2) : normalFields fields = fields := by
  induction fields with
  | nil => rfl
  | cons f r ih =>
    obtain ⟨hf, hr⟩ := forall_mem_cons.mp h
    rw [normalFields, hf, ih hr]

mutual

theorem normal_normal : (json : Json) → json.normal.normal = json.normal
  | .null | .bool _ | .number _ | .string _ => rfl
  | .array xs => by
    rw [normal, normal, normalItems_normalItems xs]
  | .object fields => by
    have he : normalFields (Table.ofList (normalFields fields)).entries =
        (Table.ofList (normalFields fields)).entries :=
      normalFields_of_forall fun f hf ↦
        normal_of_mem_normalFields fields f (Table.mem_of_mem_ofList hf)
    rw [normal, normal, he, Table.ofList_entries]

theorem normalItems_normalItems : (xs : List Json) → normalItems (normalItems xs) = normalItems xs
  | [] => rfl
  | x :: r => by
    rw [normalItems, normalItems, normal_normal x, normalItems_normalItems r]

theorem normal_of_mem_normalFields : (fields : List (String × Json)) →
    ∀ f ∈ normalFields fields, f.2.normal = f.2
  | [] => nofun
  | (key, v) :: r => by
    intro f hf
    rcases mem_cons.mp hf with rfl | hf
    · exact normal_normal v
    · exact normal_of_mem_normalFields r f hf

end

end Json

/-! ### The fields of an object -/

theorem Except.toOption_bind {ε α β : Type} (x : Except ε α) (n : α → Except ε β) :
    (x >>= n).toOption = x.toOption.bind fun v ↦ (n v).toOption := by
  cases x <;> rfl

theorem Except.bind_eq_ok {ε α β : Type} {x : Except ε α} {n : α → Except ε β} {r : β} :
    (x >>= n) = .ok r ↔ ∃ v, x = .ok v ∧ n v = .ok r := by
  cases x with
  | error f => exact ⟨nofun, nofun⟩
  | ok v => simp [bind, Except.bind]

theorem Except.eq_ok_of_toOption {ε α : Type} {r : Except ε α} {v : α}
    (h : r.toOption = some v) : r = .ok v := by
  cases r with
  | error f => cases h
  | ok fd => exact congrArg Except.ok (Option.some.inj h)

namespace Json.Record

variable {α : Type} (fields : List (String × Json)) (name : String) (decode : Decoder α)
  {record : Record}

/-- An object is opened if none of its names stands twice. -/
theorem toOption_ofJson (expected : String) (ns : List String) :
    (ofJson expected ns (.object fields)).toOption =
      if repeated? ns fields = none then some ⟨fields, none⟩ else none := by
  rw [ofJson]
  cases repeated? ns fields <;> rfl

theorem toOption_required :
    ((⟨fields, none⟩ : Record).required name decode).toOption =
      (Json.field? fields name).bind fun json ↦ (decode json).toOption := by
  rw [required, Record.field?]
  cases Json.field? fields name with
  | none => rfl
  | some json => cases hj : decode json <;> simp [hj, Except.map, need] <;> rfl

variable {fields name decode}

theorem exists_of_field? {f : Option α} (h : record.field? name decode = .ok f) :
    f = none ∨ ∃ json v, decode json = .ok v ∧ f = some v := by
  rw [Record.field?] at h
  cases hj : Json.field? record.fields name with
  | none =>
    rw [hj] at h
    exact .inl (Except.ok.inj h).symm
  | some json =>
    rw [hj] at h
    cases hd : decode json with
    | error fault => simp [hd, Except.map] at h
    | ok v =>
      simp only [hd, Except.map, Except.ok.injEq] at h
      exact .inr ⟨json, v, hd, h.symm⟩

/-- A field that was read stands for some value. -/
theorem exists_of_required {v : α} (h : record.required name decode = .ok v) :
    ∃ json, decode json = .ok v := by
  obtain ⟨f, hf, hn⟩ := Except.bind_eq_ok.mp h
  obtain rfl | ⟨json, read, hd, rfl⟩ := exists_of_field? hf
  · rw [need] at hn
    split at hn <;> cases hn
  · cases hn
    exact ⟨json, hd⟩

theorem exists_of_defaulted {v default : α} (h : record.defaulted name default decode = .ok v) :
    v = default ∨ ∃ json, decode json = .ok v := by
  obtain ⟨f, hf, hv⟩ := Except.bind_eq_ok.mp h
  cases hv
  obtain rfl | ⟨json, read, hd, rfl⟩ := exists_of_field? hf
  · exact .inl rfl
  · exact .inr ⟨json, hd⟩

/-- An optional field that was read has no value, or stands for one that is not null. -/
theorem exists_of_optional {v : Option α} (h : record.optional name decode = .ok v) :
    v = none ∨ ∃ json f, json ≠ .null ∧ decode json = .ok f ∧ v = some f := by
  obtain rfl | ⟨json, hj⟩ := exists_of_defaulted h
  · exact .inl rfl
  · by_cases hn : json = .null
    · rw [hn] at hj
      cases hj
      exact .inl rfl
    · rw [Draft.nullable_of_ne_null hn] at hj
      cases hd : decode json with
      | error fault => simp [hd, Except.map] at hj
      | ok f =>
        simp only [hd, Except.map, Except.ok.injEq] at hj
        exact .inr ⟨json, f, hn, hd, hj.symm⟩

/-- The reading of an object fails if it does where none of its names stands twice. -/
theorem toOption_open_eq_none {expected : String} {ns : List String}
    {n : Record → Except Fault α} (h : (n ⟨fields, none⟩).toOption = none) :
    (ofJson expected ns (.object fields) >>= n).toOption = none := by
  rw [Except.toOption_bind, toOption_ofJson]
  split_ifs
  · exact h
  · rfl

end Json.Record

theorem RemoteError.reads (e : RemoteError) : Decoder.Reads ofJson toJson e := by
  intro ly
  let d : Draft := ⟨[("code", some (.ofInt e.code.toInt)),
    ("message", some (.string e.message))], by simp⟩
  change ofJson (ly.view d.toJson) = _
  simp only [ofJson, d.ofJson_view, bind, Except.bind, d.required ly 0 rfl
      (reads_integer "i64" e.code.minValue_le_toInt e.code.toInt_le ly),
    d.required ly 1 rfl (reads_text e.message ly)]
  rw [Int64.ofInt_toInt]
  rfl

namespace Message

variable {message : Message} {json : Json} {expected name : String}
  {make : UInt64 → String → Json → Message}

theorem reads_id (id : UInt64) : idOfJson.Reads (fun id ↦ .ofNat id.toNat) id := by
  intro ly
  rw [idOfJson, reads_natural "u64" id.toNat_lt ly]
  exact congrArg Except.ok UInt64.ofNat_toNat

/-- The message with the fields of its values in order, as a reader leaves them. -/
def normal : Message → Message
  | request id m ps => request id m ps.normal
  | progress id m v => progress id m v.normal
  | response id r e => response id (r.map Json.normal) e
  | notification m ps => notification m ps.normal

/-- What the readings of a request and of progress share: an id, a method and one value. -/
def calledOf (expected name : String) (make : UInt64 → String → Json → Message) (json : Json) :
    Except Json.Fault Message := do
  let record ← Record.ofJson expected ["id", "method", name] json
  pure (make (← record.required "id" idOfJson) (← record.required "method" text)
    (← record.required name any))

theorem requestOf_eq_calledOf : requestOf = calledOf "a request" "params" request := rfl

theorem progressOf_eq_calledOf : progressOf = calledOf "a progress message" "value" progress := rfl

/-! ### The readings of an object -/

section Readings

variable {fields : List (String × Json)}

/-- Only an object with all its fields is read as a message with an id and a method. -/
theorem toOption_calledOf_of_missing {f : String} (hf : f ∈ ["id", "method", name])
    (h : Json.field? fields f = none) :
    (calledOf expected name make (.object fields)).toOption = none := by
  refine Record.toOption_open_eq_none ?_
  simp only [Except.toOption_bind, Record.toOption_required]
  simp only [mem_cons, not_mem_nil, or_false] at hf
  rcases hf with rfl | rfl | rfl <;> simp [h]

theorem toOption_responseOf_of_missing (h : Json.field? fields "id" = none) :
    (responseOf (.object fields)).toOption = none :=
  Record.toOption_open_eq_none (by simp [Except.toOption_bind, Record.toOption_required, h])

end Readings

/-! ### Writing and reading -/

theorem calledOf_object (hn : name ∉ ["id", "method"]) (id : UInt64) (m : String)
    (v : Json) :
    calledOf expected name make
        (.object [("id", .ofNat id.toNat), ("method", .string m), (name, v)]) =
      .ok (make id m v.normal) := by
  let d : Draft := ⟨[("id", some (.ofNat id.toNat)), ("method", some (.string m)),
    (name, some v)], by
      simp only [mem_cons, not_mem_nil, or_false, not_or] at hn
      simp [Ne.symm hn.1, Ne.symm hn.2]⟩
  change calledOf expected name make (Layout.plain.view d.toJson) = _
  simp only [calledOf, d.ofJson_view, bind, Except.bind,
    d.required .plain 0 rfl (reads_id id .plain),
    d.required .plain 1 rfl (reads_text m .plain),
    d.required .plain 2 rfl (show any v = .ok v.normal from rfl)]
  rfl

theorem responseOf_toJson (id : UInt64) {r : Option Json} (hre : r ≠ some .null)
    (e : Option RemoteError) :
    responseOf (response id r e).toJson = .ok (response id (r.map Json.normal) e) := by
  let d : Draft := ⟨[("id", some (.ofNat id.toNat)), ("result", r),
    ("error", e.map RemoteError.toJson)], by simp⟩
  have hr : (d.record .plain).optional "result" any =
      .ok (r.map Json.normal) := by
    rw [Record.optional, Record.defaulted, Record.field?, d.field?_fields .plain 1 rfl]
    cases r with
    | none => rfl
    | some json =>
      have hn : nullable any (Layout.plain.view json) = .ok (some json.normal) :=
        Draft.nullable_view .plain (fun heq ↦ hre (congrArg some heq)) rfl
      rw [Option.map_some]
      dsimp only
      rw [hn]
      rfl
  change responseOf (Layout.plain.view d.toJson) = _
  simp only [responseOf, d.ofJson_view, bind, Except.bind, hr,
    d.required .plain 0 rfl (reads_id id .plain),
    d.optional .plain 2 rfl fun f _ ↦ ⟨(by cases ·), f.reads⟩]
  rfl

theorem notificationOf_toJson (m : String) (ps : Json) :
    notificationOf (notification m ps).toJson = .ok (notification m ps.normal) := by
  let d : Draft := ⟨[("method", some (.string m)), ("params", some ps)], by simp⟩
  change notificationOf (Layout.plain.view d.toJson) = _
  simp only [notificationOf, d.ofJson_view, bind, Except.bind,
    d.required .plain 0 rfl (reads_text m .plain),
    d.defaulted .plain 1 rfl (show any ps = .ok ps.normal from rfl)]
  rfl

/-- The readings of an object, in their order. -/
theorem ofJson?_object (fields : List (String × Json)) :
    ofJson? (.object fields) = ((requestOf (.object fields)).toOption.or
        ((progressOf (.object fields)).toOption.or ((responseOf (.object fields)).toOption.or
            (notificationOf (.object fields)).toOption))) := by
  rw [ofJson?]
  simp only [List.findSome?]
  cases (requestOf (.object fields)).toOption <;> cases (progressOf (.object fields)).toOption <;>
    cases (responseOf (.object fields)).toOption <;>
      cases (notificationOf (.object fields)).toOption <;> rfl

theorem ofJson?_toJson (h : ∀ id e, message ≠ response id (some .null) e) :
    ofJson? message.toJson = some message.normal := by
  cases message with
  | request id m ps =>
    rw [toJson, ofJson?_object, requestOf_eq_calledOf, calledOf_object (by simp)]
    rfl
  | progress id m v =>
    rw [toJson, ofJson?_object, requestOf_eq_calledOf,
      toOption_calledOf_of_missing (show "params" ∈ _ by simp) (by simp [Json.field?]),
      progressOf_eq_calledOf, calledOf_object (by simp)]
    rfl
  | response id r e =>
    have hre : r ≠ some .null := fun heq ↦ h id e (by rw [heq])
    have hr := congrArg Except.toOption (responseOf_toJson id hre e)
    have hm : Json.field? (Json.present [("id", some (.ofNat id.toNat)), ("result", r),
        ("error", e.map RemoteError.toJson)]) "method" = none := by
      refine Json.field?_eq_none fun f hf hna ↦ ?_
      have hn := (Json.names_present_sublist _).mem (mem_map_of_mem hf)
      rw [hna] at hn
      simp at hn
    change ofJson? (.object (Json.present _)) = _
    change (responseOf (.object (Json.present _))).toOption = _ at hr
    rw [ofJson?_object, hr, requestOf_eq_calledOf, progressOf_eq_calledOf,
      toOption_calledOf_of_missing (by simp) hm, toOption_calledOf_of_missing (by simp) hm]
    rfl
  | notification m ps =>
    have hno := congrArg Except.toOption (notificationOf_toJson m ps)
    have hi : Json.field? [("method", .string m), ("params", ps)] "id" = none := by
      simp [Json.field?]
    rw [toJson] at hno ⊢
    rw [ofJson?_object, hno, requestOf_eq_calledOf, progressOf_eq_calledOf,
      toOption_calledOf_of_missing (by simp) hi, toOption_calledOf_of_missing (by simp) hi,
      toOption_responseOf_of_missing hi]
    rfl

/-! ### Reading and writing -/

theorem normal_eq_of_any {v : Json} (h : ∃ json, Decoder.any json = .ok v) : v.normal = v := by
  obtain ⟨json, hj⟩ := h
  cases hj
  exact json.normal_normal

/-- A message that was read has the fields of its values in order, and no result that is null. -/
def IsRead (message : Message) : Prop :=
  message.normal = message ∧ ∀ id e, message ≠ response id (some .null) e

theorem isRead_of_calledOf (hm : ∀ id m v, v.normal = v → (make id m v).IsRead)
    (h : calledOf expected name make json = .ok message) : message.IsRead := by
  obtain ⟨record, -, h⟩ := Except.bind_eq_ok.mp h
  obtain ⟨id, -, h⟩ := Except.bind_eq_ok.mp h
  obtain ⟨m, -, h⟩ := Except.bind_eq_ok.mp h
  obtain ⟨v, hv, h⟩ := Except.bind_eq_ok.mp h
  cases h
  exact hm id m v (normal_eq_of_any (Record.exists_of_required hv))

theorem exists_of_responseOf (h : responseOf json = .ok message) :
    ∃ id r e, message = response id r e ∧ message.IsRead := by
  obtain ⟨record, -, h⟩ := Except.bind_eq_ok.mp h
  obtain ⟨id, -, h⟩ := Except.bind_eq_ok.mp h
  obtain ⟨r, hr, h⟩ := Except.bind_eq_ok.mp h
  obtain ⟨e, -, h⟩ := Except.bind_eq_ok.mp h
  cases h
  refine ⟨id, r, e, rfl, ?_⟩
  obtain rfl | ⟨f, value, hf, hv, rfl⟩ := Record.exists_of_optional hr
  · exact ⟨rfl, nofun⟩
  · cases hv
    refine ⟨congrArg (fun json ↦ response id (some json) e) f.normal_normal, ?_⟩
    intro id' e' heq
    injection heq with _ hn
    exact hf (Json.normal_eq_null (Option.some.inj hn))

theorem exists_of_notificationOf (h : notificationOf json = .ok message) :
    ∃ m params, message = notification m params ∧ message.IsRead := by
  obtain ⟨record, -, h⟩ := Except.bind_eq_ok.mp h
  obtain ⟨m, -, h⟩ := Except.bind_eq_ok.mp h
  obtain ⟨params, hp, h⟩ := Except.bind_eq_ok.mp h
  cases h
  refine ⟨m, params, rfl, congrArg (notification m) ?_, nofun⟩
  obtain rfl | hj := Record.exists_of_defaulted hp
  · rfl
  · exact normal_eq_of_any hj

theorem isRead_of_ofJson? (h : ofJson? json = some message) : message.IsRead := by
  cases json with
  | object fields =>
    rw [ofJson?_object, Option.or_eq_some_iff, Option.or_eq_some_iff, Option.or_eq_some_iff] at h
    rcases h with h | ⟨-, h | ⟨-, h | ⟨-, h⟩⟩⟩
    · refine isRead_of_calledOf (fun id m value hv ↦ ?_)
        (requestOf_eq_calledOf ▸ Except.eq_ok_of_toOption h)
      exact ⟨congrArg (request id m) hv, nofun⟩
    · refine isRead_of_calledOf (fun id m value hv ↦ ?_)
        (progressOf_eq_calledOf ▸ Except.eq_ok_of_toOption h)
      exact ⟨congrArg (progress id m) hv, nofun⟩
    · obtain ⟨-, -, -, -, hr⟩ := exists_of_responseOf (Except.eq_ok_of_toOption h)
      exact hr
    · obtain ⟨-, -, -, hr⟩ := exists_of_notificationOf (Except.eq_ok_of_toOption h)
      exact hr
  | _ => cases h

/-- A message that is written is read back, up to the order of the fields in its values, unless its
result is null; and a message that was read is the same when it is written and read again. -/
theorem ofJson?_roundTrip :
    (∀ message : Message, (∀ id error, message ≠ response id (some .null) error) →
      ofJson? message.toJson = some message.normal ∧
        (message.normal = message → ofJson? message.toJson = some message)) ∧
    ∀ json message, ofJson? json = some message → ofJson? message.toJson = some message := by
  refine ⟨fun message hnull ↦ ?_, fun json message hread ↦ ?_⟩
  · refine ⟨ofJson?_toJson hnull, fun hnormal ↦ ?_⟩
    rw [ofJson?_toJson hnull, hnormal]
  · obtain ⟨hnormal, hnull⟩ := isRead_of_ofJson? hread
    rw [ofJson?_toJson hnull, hnormal]

/-- A failure with the last id, the least code and a result besides. -/
def lastFailure : Message :=
  response 18446744073709551615 (some (.object [("b", .null), ("c", .array [])]))
    (some ⟨-9223372036854775808, "out of range"⟩)

/-- An object with a null result and a field of another name is a response without a result. -/
theorem ofJson?_roundTrip_lastFailure :
    ofJson? lastFailure.toJson = some lastFailure ∧
      ofJson? (.object [("result", .null), ("note", .null), ("id", .ofNat 3)]) =
        some (response 3 none none) ∧
      ofJson? (response 3 none none).toJson = some (response 3 none none) := by
  have hread : ofJson? (.object [("result", .null), ("note", .null), ("id", .ofNat 3)]) =
      some (response 3 none none) := by decide +kernel
  exact ⟨(ofJson?_roundTrip.1 lastFailure nofun).2 (by decide +kernel), hread,
    ofJson?_roundTrip.2 _ _ hread⟩

end Message

end StoryScript
