import StoryScript.Proofs.Script.Checked.Cursor
import StoryScript.Uri.Percent

/-!
Percent-encoding loses nothing: a text without percent signs is read back from its encoding, and a
dot is never part of an encoded byte.
-/

namespace StoryScript.Percent

open List

/-- The bytes of a text. -/
def bytes (t : List Char) : List UInt8 := t.flatMap String.utf8EncodeChar

variable {set : Char → Bool} {c : Char} {t : List Char}

open Script.Checked in
theorem mem_bytes_iff (hc : IsAscii c) : UInt8.ofNat c.toNat ∈ bytes t ↔ c ∈ t := by
  constructor
  · intro h
    obtain ⟨d, hd, hb⟩ := mem_flatMap.mp h
    rwa [← eq_of_isOf hc (isOf_of_mem_utf8EncodeChar hb)]
  · exact fun h ↦ mem_flatMap.mpr ⟨c, h, by simp [utf8EncodeChar_of_isAscii hc]⟩

theorem hexValue?_hexDigit : ∀ n < 16, Text.hexValue? (hexDigit n) = some n := by decide

theorem decode_encodeByte (b : UInt8) (r : List Char) :
    decode (encodeByte b ++ r) = b :: decode r := by
  have hb := b.toNat_lt
  have hh : b.toNat / 16 < 16 := by omega
  have hl : b.toNat % 16 < 16 := Nat.mod_lt _ (by decide)
  simp only [encodeByte, cons_append, nil_append, decode, hexValue?_hexDigit _ hh,
    hexValue?_hexDigit _ hl]
  rw [Nat.mul_comm, Nat.div_add_mod, UInt8.ofNat_toNat]

theorem decode_cons (h : c ≠ '%') (r : List Char) :
    decode (c :: r) = String.utf8EncodeChar c ++ decode r := by
  rw [decode.eq_def]
  split <;> simp_all

theorem decode_encode_append (set : Char → Bool) (h : '%' ∉ t) (r : List Char) :
    decode ((encode set t).toList ++ r) = bytes t ++ decode r := by
  have hb : ∀ (all : List UInt8) (r : List Char),
      decode (all.flatMap encodeByte ++ r) = all ++ decode r := by
    intro all
    induction all with
    | nil => exact fun _ ↦ rfl
    | cons byte all ih =>
      intro r
      rw [flatMap_cons, append_assoc, decode_encodeByte, ih, cons_append]
  simp only [encode, String.toList_ofList, bytes]
  induction t with
  | nil => rfl
  | cons c t ih =>
    obtain ⟨hc, ht⟩ := not_or.mp (mt mem_cons.mpr h)
    simp only [flatMap_cons, append_assoc]
    split_ifs
    · rw [hb, ih ht]
    · rw [singleton_append, decode_cons (Ne.symm hc), ih ht]

theorem decode_encode (set : Char → Bool) (h : '%' ∉ t) :
    decode (encode set t).toList = bytes t := by
  simpa [decode] using decode_encode_append set h []

/-- A percent sign without two digits behind it stands for itself. -/
theorem decode_percent (h : ∀ high low r, t = high :: low :: r →
      (Text.hexValue? high).isSome = true → Text.hexValue? low = none) :
    decode ('%' :: t) = '%'.toUInt8 :: decode t := by
  rw [decode.eq_def]
  split
  · contradiction
  · rename_i high low r heq
    obtain ⟨-, rfl⟩ := cons.inj heq
    cases hh : Text.hexValue? high <;> simp_all
  · rename_i heq
    obtain ⟨rfl, rfl⟩ := cons.inj heq
    rfl

theorem decode_append_dot (t r : List Char) :
    decode (t ++ '.' :: r) = decode t ++ decode ('.' :: r) := by
  fun_induction decode t with
  | case1 => rfl
  | case2 high low t h l hh hl ih => simp [decode, hh, hl, ih]
  | case3 high low t hn ih =>
    rw [cons_append, decode_percent, ih, cons_append]
    rintro _ _ _ ⟨⟩ hh
    obtain ⟨h, hh⟩ := Option.isSome_iff_exists.mp hh
    exact Option.eq_none_iff_forall_ne_some.mpr fun l hl ↦ hn h l hh hl
  | case4 c t hn ih =>
    by_cases hc : c = '%'
    · subst hc
      rw [cons_append, decode_percent, ih]
      · rfl
      -- Fewer than two characters are left, so a dot is one of the next two.
      · intro high low post heq hh
        match t, hn with
        | [], _ =>
          obtain ⟨rfl, -⟩ := cons.inj heq
          exact absurd hh (by decide)
        | [_], _ =>
          obtain ⟨-, ht⟩ := cons.inj heq
          obtain ⟨rfl, -⟩ := cons.inj ht
          rfl
        | high :: low :: t, hn => exact absurd rfl (hn high low t rfl)
    · rw [cons_append, decode_cons hc, ih, append_assoc]

theorem decode_eq_bytes (h : '%' ∉ t) : decode t = bytes t := by
  have hs : encode (fun _ ↦ false) t = String.ofList t := by simp [encode]
  rw [← decode_encode (fun _ ↦ false) h, hs, String.toList_ofList]

theorem utf8?_bytes (t : List Char) : utf8? (bytes t) = some (String.ofList t) := by
  have hb : ByteArray.mk (bytes t).toArray = t.utf8Encode :=
    ByteArray.ext List.data_toByteArray.symm
  rw [utf8?, hb, String.fromUTF8?, dif_pos ⟨t, rfl⟩]
  exact congrArg some (String.toByteArray_inj.mp String.toByteArray_ofList.symm)

theorem bytes_of_utf8? {all : List UInt8} {t : String} (h : utf8? all = some t) :
    all = bytes t.toList := by
  unfold utf8? String.fromUTF8? at h
  split_ifs at h with hv
  have ha : ByteArray.mk all.toArray = t.toList.utf8Encode := by
    rw [← String.toByteArray_ofList, String.ofList_toList, ← Option.some.inj h]
    rfl
  have hd := congrArg ByteArray.data ha
  rw [List.utf8Encode, List.data_toByteArray] at hd
  exact congrArg Array.toList hd

theorem encode_append (set : Char → Bool) (x y : List Char) :
    encode set (x ++ y) = encode set x ++ encode set y := by
  rw [← String.toList_inj]
  simp [encode]

theorem encode_eq_self (h : ∀ c ∈ t, set c = false) : encode set t = String.ofList t := by
  rw [encode]
  congr 1
  induction t with
  | nil => rfl
  | cons c r ih =>
    obtain ⟨hc, hr⟩ := forall_mem_cons.mp h
    simp [hc, ih hr]

/-- The encoding of a text has the characters of the text that are not in the set, percent signs and
digits. -/
theorem forall_mem_encode {P : Char → Prop} (ht : ∀ c ∈ t, set c = false → P c) (hp : P '%')
    (hd : ∀ n < 16, P (hexDigit n)) : ∀ c ∈ (encode set t).toList, P c := by
  intro c hc
  rw [encode, String.toList_ofList, mem_flatMap] at hc
  obtain ⟨d, hm, hc⟩ := hc
  split_ifs at hc with hs
  · obtain ⟨b, -, hc⟩ := mem_flatMap.mp hc
    have hb := b.toNat_lt
    simp only [encodeByte, mem_cons, not_mem_nil, or_false] at hc
    obtain rfl | rfl | rfl := hc
    · exact hp
    · exact hd _ (by omega)
    · exact hd _ (Nat.mod_lt _ (by decide))
  · exact mem_singleton.mp hc ▸ ht d hm (Bool.eq_false_iff.mpr hs)

theorem bytes_injective : Function.Injective bytes := fun x y h ↦ by
  have hs := congrArg utf8? h
  rw [utf8?_bytes, utf8?_bytes] at hs
  exact String.ofList_injective (Option.some.inj hs)

theorem encode_ne_nil (h : '%' ∉ t) (hn : t ≠ []) : (encode set t).toList ≠ [] :=
  fun hni ↦ hn (bytes_injective ((decode_encode set h).symm.trans (congrArg decode hni)))

end StoryScript.Percent
