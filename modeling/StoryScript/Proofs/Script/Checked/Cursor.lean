import StoryScript.Proofs.Script.Glyph
import StoryScript.Proofs.Script.Checked

/-!
Where an index of a line's bytes stands among its glyphs (`Cursor`).
-/

namespace StoryScript.Script.Checked

open List Text

variable {c d : Char} {p : Char → Bool} {t : List Char} {off : Nat} {ln : List Glyph}
  {bs : List UInt8} {g : Glyph} {r : List Glyph}

/-! ### Bytes of characters -/

/-- Characters that are one byte. -/
def IsAscii (c : Char) : Prop :=
  c.toNat < 128

instance (c : Char) : Decidable (IsAscii c) :=
  inferInstanceAs (Decidable (c.toNat < 128))

/-- A byte is of a character if it is that character, or both are beyond ASCII. -/
def IsOf (byte : UInt8) (c : Char) : Prop :=
  asChar byte = c ∨ 128 ≤ byte.toNat ∧ ¬ IsAscii c

/-- Classes of characters that do not tell those beyond ASCII apart. -/
def Uniform (p : Char → Bool) : Prop :=
  ∀ c d : Char, ¬ IsAscii c → ¬ IsAscii d → p c = p d

theorem utf8EncodeChar_of_isAscii (h : IsAscii c) :
    String.utf8EncodeChar c = [UInt8.ofNat c.toNat] :=
  if_pos (Nat.le_of_lt_succ h)

theorem utf8Size_of_isAscii (h : IsAscii c) : c.utf8Size = 1 := by
  rw [← String.length_utf8EncodeChar, utf8EncodeChar_of_isAscii h, length_singleton]

theorem asChar_ofNat (h : IsAscii c) : asChar (UInt8.ofNat c.toNat) = c := by
  have hs : c.toNat < 2 ^ 8 := Nat.lt_trans h (by decide)
  rw [asChar, UInt8.toNat_ofNat', Nat.mod_eq_of_lt hs, Char.ofNat_toNat]

theorem toNat_asChar (byte : UInt8) : (asChar byte).toNat = byte.toNat := by
  have hv : byte.toNat.isValidChar := Or.inl (Nat.lt_trans byte.toNat_lt (by decide))
  rw [asChar, Char.ofNat, dif_pos hv]
  rfl

theorem le_of_mem_utf8EncodeChar (h : ¬ IsAscii c) {byte : UInt8}
    (hb : byte ∈ String.utf8EncodeChar c) : 128 ≤ byte.toNat := by
  have hl : ¬ c.val.toNat ≤ 127 := fun hle ↦ h (Nat.lt_succ_of_le hle)
  unfold String.utf8EncodeChar at hb
  dsimp only at hb
  rw [if_neg hl] at hb
  split_ifs at hb
  all_goals
    simp only [mem_cons, not_mem_nil, or_false] at hb
    rcases hb with rfl | rfl | rfl | rfl
    all_goals
      rw [UInt8.toNat_ofNat']
      omega

theorem isOf_of_mem_utf8EncodeChar {byte : UInt8} (hb : byte ∈ String.utf8EncodeChar c) :
    IsOf byte c := by
  by_cases h : IsAscii c
  · rw [utf8EncodeChar_of_isAscii h, mem_singleton] at hb
    exact .inl (hb ▸ asChar_ofNat h)
  · exact .inr ⟨le_of_mem_utf8EncodeChar h hb, h⟩

/-- An ASCII character has one byte, and is the only character that this is of. -/
theorem isOf_iff (hc : IsAscii c) {byte : UInt8} : IsOf byte c ↔ byte = UInt8.ofNat c.toNat := by
  constructor
  · rintro (rfl | ⟨-, hn⟩)
    · rw [toNat_asChar, UInt8.ofNat_toNat]
    · exact absurd hc hn
  · rintro rfl
    exact .inl (asChar_ofNat hc)

theorem eq_of_isOf (hc : IsAscii c) (h : IsOf (UInt8.ofNat c.toNat) d) : d = c := by
  rcases h with rfl | ⟨hb, -⟩
  · exact asChar_ofNat hc
  · rw [← toNat_asChar, asChar_ofNat hc] at hb
    exact absurd hc (Nat.not_lt.mpr hb)

theorem Uniform.apply (hp : Uniform p) {byte : UInt8} (h : IsOf byte c) :
    p (asChar byte) = p c := by
  rcases h with rfl | ⟨hb, hc⟩
  · rfl
  · refine hp _ _ (fun ha ↦ ?_) hc
    rw [IsAscii, toNat_asChar] at ha
    omega

theorem asChar_eq_iff (hc : IsAscii c) {byte : UInt8} (h : IsOf byte d) :
    asChar byte = c ↔ d = c := by
  constructor
  · rintro rfl
    rw [IsAscii, toNat_asChar] at hc
    rcases h with h | ⟨hb, -⟩
    · exact h.symm
    · omega
  · rintro rfl
    rw [(isOf_iff hc).mp h, asChar_ofNat hc]

theorem range?_append (pa cs r : List UInt8) :
    range? (pa ++ (cs ++ r)) pa.length (pa.length + cs.length) = some cs := by
  rw [range?, if_pos (by simp), drop_left, Nat.add_sub_cancel_left, take_left]

theorem blank?_append (pa cs r : List UInt8) :
    blank? (pa ++ (cs ++ r)) pa.length (pa.length + cs.length) =
      some (pa ++ (List.replicate cs.length 32 ++ r)) := by
  rw [blank?, if_pos (by simp), take_left, Nat.add_sub_cancel_left, ← append_assoc pa,
    ← length_append, drop_left, append_assoc]

/-- Classes of ASCII characters. -/
theorem uniform_of_isAscii (h : ∀ c, p c = true → IsAscii c) : Uniform p := by
  have hf : ∀ c, ¬ IsAscii c → p c = false := fun c hc ↦ Bool.eq_false_iff.mpr (mt (h c) hc)
  intro c d hc hd
  rw [hf c hc, hf d hd]

theorem Uniform.not (hp : Uniform p) : Uniform fun c ↦ !p c :=
  fun c d hc hd ↦ congrArg _ (hp c d hc hd)

theorem Uniform.or {q : Char → Bool} (hp : Uniform p) (hq : Uniform q) :
    Uniform fun c ↦ p c || q c :=
  fun c d hc hd ↦ congrArg₂ _ (hp c d hc hd) (hq c d hc hd)

theorem Uniform.and {q : Char → Bool} (hp : Uniform p) (hq : Uniform q) :
    Uniform fun c ↦ p c && q c :=
  fun c d hc hd ↦ congrArg₂ _ (hp c d hc hd) (hq c d hc hd)

theorem uniform_beq (hd : IsAscii d) : Uniform (· == d) :=
  uniform_of_isAscii fun _ hc ↦ (eq_of_beq hc) ▸ hd

theorem uniform_bne (hd : IsAscii d) : Uniform (· != d) :=
  (uniform_beq hd).not

theorem uniform_ne (hd : IsAscii d) : Uniform fun c ↦ c ≠ d := by
  intro c c' hc hc'
  have hn : ∀ {e : Char}, ¬ IsAscii e → e ≠ d := fun he heq ↦ he (heq ▸ hd)
  exact (decide_eq_true (hn hc)).trans (decide_eq_true (hn hc')).symm

theorem isAscii_of_isAlphanum (h : c.isAlphanum = true) : IsAscii c := by
  have hb : c.toNat < 128 := by
    have ha := isAlphanum_iff.mp h
    omega
  exact hb

theorem uniform_isAlphanum : Uniform Char.isAlphanum :=
  uniform_of_isAscii fun _ ↦ isAscii_of_isAlphanum

theorem isAscii_of_continuesName (h : continuesName c = true) : IsAscii c := by
  rcases Bool.or_eq_true_iff.mp h with h | h
  · exact isAscii_of_isAlphanum h
  · rw [eq_of_beq h]
    decide

theorem uniform_continuesName : Uniform continuesName :=
  uniform_of_isAscii fun _ ↦ isAscii_of_continuesName

theorem uniform_startsName : Uniform startsName :=
  uniform_of_isAscii fun _ h ↦ isAscii_of_continuesName (continuesName_of_startsName h)

theorem uniform_isBlankChar : Uniform isBlankChar :=
  (uniform_beq (by decide)).or (uniform_beq (by decide))

/-! ### Lines with blanked characters -/

/-- A text, its glyphs from an offset on and its bytes. In place of some characters, the glyphs have a
space, and the bytes as many spaces as the character has bytes. -/
inductive Coded : Nat → List Char → List Glyph → List UInt8 → Prop
  | nil (off : Nat) : Coded off [] [] []
  | keep {off : Nat} (c : Char) {t : List Char} {ln : List Glyph} {bs : List UInt8}
      (h : Coded (off + c.utf8Size) t ln bs) :
      Coded off (c :: t) (⟨off, c⟩ :: ln) (String.utf8EncodeChar c ++ bs)
  | blank {off : Nat} (c : Char) {t : List Char} {ln : List Glyph} {bs : List UInt8}
      (h : Coded (off + c.utf8Size) t ln bs) :
      Coded off (c :: t) (⟨off, ' '⟩ :: ln) (List.replicate c.utf8Size 32 ++ bs)

theorem coded_glyphs (off : Nat) (t : List Char) : Coded off t (glyphs off t) (encode t) := by
  induction t generalizing off with
  | nil => exact .nil off
  | cons c r ih => exact .keep c (ih _)

theorem Coded.length_eq (h : Coded off t ln bs) : bs.length = byteLength t := by
  induction h with
  | nil => rfl
  | keep c _ ih => rw [length_append, String.length_utf8EncodeChar, ih, byteLength]
  | blank c _ ih => rw [length_append, length_replicate, ih, byteLength]

theorem Coded.length_text (h : Coded off t ln bs) : t.length = ln.length := by
  induction h with
  | nil => rfl
  | keep c _ ih => exact congrArg (· + 1) ih
  | blank c _ ih => exact congrArg (· + 1) ih

/-- The bytes of the first glyph. -/
theorem Coded.exists_cell (h : Coded off t (g :: ln) bs) :
    ∃ c lt cell r, t = c :: lt ∧ bs = cell ++ r ∧ g.offset = off ∧
      cell.length = c.utf8Size ∧ (∀ byte ∈ cell, IsOf byte g.char) ∧
      (g.char ≠ ' ' → g.char = c) ∧ Coded (off + c.utf8Size) lt ln r := by
  cases h with
  | keep c hr =>
    exact ⟨c, _, _, _, rfl, rfl, rfl, String.length_utf8EncodeChar c,
      fun _ ↦ isOf_of_mem_utf8EncodeChar, fun _ ↦ rfl, hr⟩
  | blank c hr =>
    refine ⟨c, _, _, _, rfl, rfl, rfl, length_replicate, fun byte hb ↦ ?_,
      fun hn ↦ absurd rfl hn, hr⟩
    rw [eq_of_mem_replicate hb]
    exact .inl rfl

namespace Coded

variable {lt : List Char} {run : List Glyph} {cs : List UInt8}

theorem append (hr : Coded off t run cs) (h : Coded (off + byteLength t) lt ln bs) :
    Coded off (t ++ lt) (run ++ ln) (cs ++ bs) := by
  induction hr with
  | nil => exact h
  | keep c _ ih =>
    rw [byteLength, ← Nat.add_assoc] at h
    rw [append_assoc]
    exact .keep c (ih h)
  | blank c _ ih =>
    rw [byteLength, ← Nat.add_assoc] at h
    rw [append_assoc]
    exact .blank c (ih h)

theorem exists_append (h : Coded off t (run ++ ln) bs) :
    ∃ x y cs r, t = x ++ y ∧ bs = cs ++ r ∧
      Coded off x run cs ∧ Coded (off + byteLength x) y ln r := by
  induction run generalizing off t bs with
  | nil => exact ⟨[], t, [], bs, rfl, rfl, .nil off, h⟩
  | cons g run ih =>
    cases h with
    | keep c hr =>
      obtain ⟨x, y, cs, r, rfl, rfl, hf, hs⟩ := ih hr
      rw [Nat.add_assoc, ← byteLength] at hs
      exact ⟨c :: x, y, _, r, rfl, (append_assoc _ _ _).symm, .keep c hf, hs⟩
    | blank c hr =>
      obtain ⟨x, y, cs, r, rfl, rfl, hf, hs⟩ := ih hr
      rw [Nat.add_assoc, ← byteLength] at hs
      exact ⟨c :: x, y, _, r, rfl, (append_assoc _ _ _).symm, .blank c hf, hs⟩

/-- All characters blanked. -/
theorem map_blank (h : Coded off t ln bs) :
    Coded off t (ln.map Glyph.blank) (List.replicate bs.length 32) := by
  induction h with
  | nil off => exact .nil off
  | keep c _ ih =>
    rw [length_append, String.length_utf8EncodeChar, replicate_add]
    exact .blank c ih
  | blank c _ ih =>
    rw [length_append, length_replicate, replicate_add]
    exact .blank c ih

/-- Where nothing is blanked, the glyphs are those of the text. -/
theorem eq_glyphs (h : Coded off t ln bs) (hl : ∀ g ∈ ln, g.char ≠ ' ') : ln = glyphs off t := by
  induction h with
  | nil => rfl
  | keep c _ ih => exact congrArg _ (ih (forall_mem_cons.mp hl).2)
  | blank c _ ih => exact absurd rfl (forall_mem_cons.mp hl).1

/-- The bytes show which classes the glyphs have characters of. -/
theorem any_eq {p : Char → Bool} (hp : Uniform p) (h : Coded off t ln bs) :
    (bs.any fun byte ↦ p (asChar byte)) = ln.any fun g ↦ p g.char := by
  induction ln generalizing off t bs with
  | nil =>
    cases h
    rfl
  | cons g ln ih =>
    obtain ⟨c, lt, cell, r, -, rfl, -, hle, hce, -, hl⟩ := h.exists_cell
    have hf : (cell.any fun byte ↦ p (asChar byte)) = p g.char := by
      obtain ⟨byte, hb⟩ := exists_mem_of_length_pos (hle ▸ Char.utf8Size_pos c)
      rw [Bool.eq_iff_iff, any_eq_true]
      exact ⟨fun ⟨o, ho, hm⟩ ↦ hp.apply (hce o ho) ▸ hm,
        fun hm ↦ ⟨byte, hb, hp.apply (hce byte hb) ▸ hm⟩⟩
    rw [any_append, hf, ih hl, any_cons]

end Coded

/-- An index of the bytes of a line, at a character that starts the rest of its glyphs. -/
def Cursor (b : Nat) (cd : List Char) (bs : List UInt8) (i : Nat) (ln : List Glyph) : Prop :=
  ∃ l t pa r, cd = l ++ t ∧ bs = pa ++ r ∧ byteLength l = i ∧ pa.length = i ∧ Coded (b + i) t ln r

section Cursor

variable {b : Nat} {cd : List Char} {i : Nat}

theorem cursor_start (h : Coded b cd ln bs) : Cursor b cd bs 0 ln :=
  ⟨[], cd, [], bs, rfl, rfl, rfl, rfl, h⟩

namespace Cursor

variable {j : Nat} {run : List Glyph} {g : Glyph}

theorem length_eq (h : Cursor b cd bs i ln) : bs.length = byteLength cd := by
  obtain ⟨l, t, pa, r, rfl, rfl, hb, hp, hco⟩ := h
  rw [length_append, byteLength_append, hb, hp, hco.length_eq]

theorem eq_length (h : Cursor b cd bs i []) : i = bs.length := by
  obtain ⟨l, t, pa, r, rfl, rfl, hb, hp, hco⟩ := h
  cases hco
  rw [append_nil, hp]

/-- The bytes of the glyph at a cursor. -/
theorem cons (h : Cursor b cd bs i (g :: ln)) :
    ∃ size, 0 < size ∧ Cursor b cd bs (i + size) ln ∧ g.offset = b + i ∧
      (∀ k < size, ∃ byte, bs[i + k]? = some byte ∧ IsOf byte g.char) ∧
      (IsAscii g.char → g.char ≠ ' ' → size = 1) := by
  obtain ⟨l, t, pa, r, rfl, rfl, hb, hp, hco⟩ := h
  obtain ⟨c, lt, cell, r, rfl, rfl, ho, hl, hce, hs, hla⟩ := hco.exists_cell
  refine ⟨c.utf8Size, Char.utf8Size_pos c, ?_, ho, fun k hk ↦ ?_, fun ha hn ↦ ?_⟩
  · refine ⟨l ++ [c], lt, pa ++ cell, r, by simp, by simp, ?_, ?_, ?_⟩
    · rw [byteLength_append, hb]
      rfl
    · rw [length_append, hp, hl]
    · rwa [← Nat.add_assoc]
  · rw [← hl] at hk
    refine ⟨cell.get ⟨k, hk⟩, ?_, hce _ (cell.get_mem ⟨k, hk⟩)⟩
    rw [← hp, getElem?_append_right (Nat.le_add_right _ _), Nat.add_sub_cancel_left,
      getElem?_append_left hk, getElem?_eq_getElem hk]
    rfl
  · rw [← hs hn]
    exact utf8Size_of_isAscii ha

theorem lt_length (h : Cursor b cd bs i (g :: ln)) : i < bs.length := by
  obtain ⟨size, hs, -, -, hby, -⟩ := h.cons
  obtain ⟨byte, hb, -⟩ := hby 0 hs
  exact (List.getElem?_eq_some_iff.mp hb).1

theorem le_length (h : Cursor b cd bs i ln) : i ≤ bs.length := by
  obtain ⟨l, t, pa, r, -, rfl, -, hp, -⟩ := h
  rw [length_append, hp]
  exact Nat.le_add_right _ _

theorem byte (h : Cursor b cd bs i (g :: ln)) : ∃ byte, bs[i]? = some byte ∧ IsOf byte g.char := by
  obtain ⟨size, hs, -, -, hb, -⟩ := h.cons
  exact hb 0 hs

theorem length_le_iff (h : Cursor b cd bs i ln) : bs.length ≤ i ↔ ln = [] := by
  cases ln with
  | nil => exact iff_of_true (Nat.le_of_eq h.eq_length.symm) rfl
  | cons g ln => exact iff_of_false (Nat.not_le.mpr h.lt_length) nofun

/-- The glyphs tell the index. -/
theorem unique (h : Cursor b cd bs i ln) (h' : Cursor b cd bs j ln) : i = j := by
  cases ln with
  | nil => rw [h.eq_length, h'.eq_length]
  | cons g ln =>
    obtain ⟨_, -, -, ho, -⟩ := h.cons
    obtain ⟨_, -, -, ho', -⟩ := h'.cons
    omega

section

variable (h : Cursor b cd bs i (run ++ ln))

include h

/-- The characters and the bytes of a run. -/
theorem split (hj : Cursor b cd bs j ln) :
    ∃ l x y pa cs r, cd = l ++ (x ++ y) ∧ bs = pa ++ (cs ++ r) ∧ byteLength l = i ∧ pa.length = i ∧
      i + cs.length = j ∧ Coded (b + i) x run cs ∧ Coded (b + j) y ln r := by
  obtain ⟨l, t, pa, r, rfl, rfl, hb, hp, hco⟩ := h
  obtain ⟨x, y, cs, r, rfl, rfl, hf, hs⟩ := hco.exists_append
  rw [← hf.length_eq, Nat.add_assoc] at hs
  have hl : i + cs.length = j := by
    refine Cursor.unique ⟨l ++ x, y, pa ++ cs, r, by simp, by simp, ?_, ?_, hs⟩ hj
    · rw [byteLength_append, hb, hf.length_eq]
    · rw [length_append, hp]
  rw [hl] at hs
  exact ⟨l, x, y, pa, cs, r, rfl, rfl, hb, hp, hl, hf, hs⟩

/-- The cursor behind a run. -/
theorem append : ∃ j, i ≤ j ∧ Cursor b cd bs j ln := by
  obtain ⟨l, t, pa, r, rfl, rfl, hb, hp, hco⟩ := h
  obtain ⟨x, y, cs, r, rfl, rfl, hf, hs⟩ := hco.exists_append
  refine ⟨i + byteLength x, Nat.le_add_right _ _, l ++ x, y, pa ++ cs,
    r, by simp, by simp, ?_, ?_, ?_⟩
  · rw [byteLength_append, hb]
  · rw [length_append, hp, hf.length_eq]
  · rwa [← Nat.add_assoc]

/-- A run in which nothing is blanked is a word of the line. -/
theorem word (hj : Cursor b cd bs j ln) (hr : ∀ g ∈ run, g.char ≠ ' ') :
    word? cd i j = some (spell run) ∧ j = i + byteLength (run.map Glyph.char) ∧
      (run ≠ [] → spanOf run = ⟨b + i, b + j⟩) := by
  obtain ⟨l, x, y, pa, cs, r, rfl, -, hb, -, hl, hf, -⟩ := h.split hj
  have hg := hf.eq_glyphs hr
  have hch : run.map Glyph.char = x := by rw [hg, map_char_glyphs]
  rw [hch, ← hl, hf.length_eq]
  refine ⟨?_, rfl, fun hn ↦ ?_⟩
  · rw [word?, ← hb, slice?_append, Option.map_some, spell, hch]
  · rw [hg, spanOf_glyphs, Nat.add_assoc]
    rintro rfl
    exact hn hg

theorem le (h' : Cursor b cd bs j ln) : i ≤ j := by
  obtain ⟨bh, hl, hb⟩ := h.append
  rwa [← hb.unique h']

end

theorem lt_of_cons (h : Cursor b cd bs i (g :: (run ++ ln)))
    (h' : Cursor b cd bs j ln) : i < j := by
  obtain ⟨size, hs, hn, -⟩ := h.cons
  exact Nat.lt_of_lt_of_le (Nat.lt_add_of_pos_right hs) (hn.le h')

theorem le_of_isSuffix (h : Cursor b cd bs i ln) (h' : Cursor b cd bs j r)
    (hr : r <:+ ln) : i ≤ j := by
  obtain ⟨run, rfl⟩ := hr
  exact h.le h'

theorem lt_of_isSuffix (h : Cursor b cd bs i (g :: ln))
    (h' : Cursor b cd bs j r) (hr : r <:+ ln) : i < j := by
  obtain ⟨run, rfl⟩ := hr
  exact h.lt_of_cons h'

theorem eq_iff (h : Cursor b cd bs i (run ++ ln)) (h' : Cursor b cd bs j ln) :
    i = j ↔ run = [] := by
  constructor
  · intro heq
    cases run with
    | nil => rfl
    | cons g run => exact absurd heq (Nat.ne_of_lt (h.lt_of_cons h'))
  · rintro rfl
    exact h.unique h'

theorem lt_iff (h : Cursor b cd bs i (run ++ ln)) (h' : Cursor b cd bs j ln) :
    i < j ↔ run ≠ [] := by
  rw [Ne, ← h.eq_iff h']
  exact ⟨Nat.ne_of_lt, Nat.lt_of_le_of_ne (h.le h')⟩

/-- The end of the line. -/
theorem stop (h : Cursor b cd bs i ln) : Cursor b cd bs bs.length [] := by
  rw [← append_nil ln] at h
  obtain ⟨j, -, hj⟩ := h.append
  rwa [← hj.eq_length]

/-- One character of ASCII that is not blanked is one byte. -/
theorem next (h : Cursor b cd bs i (g :: ln)) (ha : IsAscii g.char)
    (hn : g.char ≠ ' ') : Cursor b cd bs (i + 1) ln := by
  obtain ⟨size, -, hne, -, -, hs⟩ := h.cons
  rwa [hs ha hn] at hne

end Cursor

/-- What the byte at a cursor tells of the glyph there. -/
theorem Cursor.any_head (hp : Uniform p) (h : Cursor b cd bs i ln) :
    (bs[i]?.any fun byte ↦ p (asChar byte)) = ln.head?.any fun g ↦ p g.char := by
  cases ln with
  | nil => rw [getElem?_eq_none (Nat.le_of_eq h.eq_length.symm)]; rfl
  | cons g ln =>
    obtain ⟨byte, hb, ho⟩ := h.byte
    rw [hb]
    exact hp.apply ho

/-! ### Stepping over characters -/

/-- A loop that may make some steps may make a first one. -/
theorem exists_succ_of_lt {n fuel : Nat} (h : n < fuel) : ∃ r, fuel = r + 1 :=
  Nat.exists_eq_add_one_of_ne_zero (Nat.ne_zero_of_lt h)

theorem skipWhile?_eq {stop : Nat} (hi : i < stop) {byte : UInt8} (hb : bs[i]? = some byte) :
    skipWhile? p bs stop i = if p (asChar byte) then skipWhile? p bs stop (i + 1) else some i := by
  rw [skipWhile?, if_pos hi, hb]
  rfl

theorem skipWhile?_add {stop size : Nat} (hs : i + size ≤ stop)
    (h : ∀ k < size, ∃ byte, bs[i + k]? = some byte ∧ p (asChar byte) = true) :
    skipWhile? p bs stop i = skipWhile? p bs stop (i + size) := by
  induction size with
  | zero => rfl
  | succ size ih =>
    obtain ⟨byte, hb, hp⟩ := h size (Nat.lt_succ_self size)
    rw [ih (by omega) fun k hk ↦ h k (Nat.lt_succ_of_lt hk), skipWhile?_eq (by omega) hb,
      if_pos hp, Nat.add_assoc]

/-- A loop with a limited number of steps that makes one step for each byte of a glyph. -/
theorem Cursor.loop {α : Type} (f : Nat → Nat → α) (h : Cursor b cd bs i (g :: ln))
    {j : Nat} (hj : Cursor b cd bs j ln)
    (hs : ∀ fuel k byte, 0 < fuel → i ≤ k → k < j → bs[k]? = some byte →
      IsOf byte g.char → f (fuel + 1) k = f fuel (k + 1)) {fuel : Nat} (hf : j - i < fuel) :
    f fuel i = f (fuel - (j - i)) j := by
  obtain ⟨size, hsi, hn, -, hby, -⟩ := h.cons
  obtain rfl := hn.unique hj
  have hst : ∀ n ≤ size, f fuel i = f (fuel - n) (i + n) := by
    intro n hco
    induction n with
    | zero => rfl
    | succ n ih =>
      obtain ⟨byte, hb, hof⟩ := hby n hco
      have ho := hs (fuel - (n + 1)) (i + n) byte (by omega) (by omega) (by omega) hb hof
      rw [show fuel - (n + 1) + 1 = fuel - n by omega] at ho
      rw [ih (Nat.le_of_succ_le hco), ho, Nat.add_assoc]
  rw [Nat.add_sub_cancel_left]
  exact hst size (Nat.le_refl size)

/-- Steps over the characters of a class, among the glyphs up to a stop. -/
theorem Cursor.skipWhile? (hp : Uniform p) {inner tail : List Glyph}
    (h : Cursor b cd bs i (inner ++ tail)) {stop : Nat}
    (hs : Cursor b cd bs stop tail) :
    ∃ j, skipWhile? p bs stop i = some j ∧
      Cursor b cd bs j (inner.dropWhile (fun g ↦ p g.char) ++ tail) := by
  induction inner generalizing i with
  | nil =>
    refine ⟨i, ?_, h⟩
    rw [skipWhile?, if_neg (Nat.lt_irrefl _ <| h.unique hs ▸ ·)]
  | cons g inner ih =>
    have hl : i < stop := Cursor.lt_of_cons h hs
    obtain ⟨size, hsi, hn, -, hby, -⟩ := h.cons
    rw [dropWhile_cons]
    split_ifs with hg
    · obtain ⟨j, hj, hcu⟩ := ih hn
      refine ⟨j, ?_, hcu⟩
      rw [skipWhile?_add (hn.le hs) fun k hk ↦ ?_, hj]
      obtain ⟨byte, hb, ho⟩ := hby k hk
      exact ⟨byte, hb, (hp.apply ho).trans hg⟩
    · obtain ⟨byte, hb, ho⟩ := h.byte
      refine ⟨i, ?_, h⟩
      rw [skipWhile?_eq hl hb, hp.apply ho, if_neg hg]

/-- Steps over the characters of a class, up to the end of the line. -/
theorem Cursor.skipWhile?_length (hp : Uniform p) (h : Cursor b cd bs i ln) :
    ∃ j, Checked.skipWhile? p bs bs.length i = some j ∧
      Cursor b cd bs j (ln.dropWhile fun g ↦ p g.char) := by
  have hl := (append_nil ln).symm ▸ h
  obtain ⟨j, hj, hcu⟩ := hl.skipWhile? hp h.stop
  rw [append_nil] at hcu
  exact ⟨j, hj, hcu⟩

theorem Cursor.skipBlanks? (h : Cursor b cd bs i ln) :
    ∃ j, skipBlanks? bs i = some j ∧ Cursor b cd bs j (skipBlanks ln) :=
  h.skipWhile?_length uniform_isBlankChar

/-! ### Names and words -/

theorem Cursor.nameRestEnd? (h : Cursor b cd bs i ln) :
    ∃ j, nameRestEnd? bs i = some j ∧ Cursor b cd bs j (ln.drop (takeNameRest ln).length) := by
  induction ln generalizing i with
  | nil =>
    refine ⟨i, ?_, h⟩
    rw [nameRestEnd?, if_neg (Nat.lt_irrefl _ <| h.eq_length ▸ ·)]
  | cons g r ih =>
    obtain ⟨byte, hb, ho⟩ := h.byte
    have hco := uniform_continuesName.apply ho
    have hd := (uniform_beq (show IsAscii '.' by decide)).apply ho
    rw [nameRestEnd?, if_pos h.lt_length, hb]
    simp only [Option.bind_eq_bind, Option.bind_some, hco, hd, takeNameRest]
    by_cases hn : continuesName g.char = true
    · rw [if_pos hn, if_pos hn]
      exact ih (h.next (isAscii_of_continuesName hn)
        (ne_of_isWordChar (isWordChar_of_continuesName hn)).1)
    rw [if_neg hn, if_neg hn]
    by_cases hch : g.char = '.'
    · have hne := h.next (hch ▸ by decide) (hch ▸ by decide)
      rw [hne.any_head uniform_startsName]
      split_ifs
      · exact ih hne
      · exact ⟨i, rfl, h⟩
    · rw [beq_false_of_ne hch, Bool.false_and, Bool.false_and, if_neg Bool.false_ne_true,
        if_neg Bool.false_ne_true]
      exact ⟨i, rfl, h⟩

/-- The end of the name at a cursor. -/
theorem Cursor.nameEnd? (h : Cursor b cd bs i ln) :
    ∃ j, nameEnd? bs i = some j ∧ Cursor b cd bs j (ln.drop (takeName ln).length) := by
  cases ln with
  | nil =>
    refine ⟨i, ?_, h⟩
    rw [nameEnd?, if_neg (Nat.lt_irrefl _ <| h.eq_length ▸ ·)]
  | cons g r =>
    obtain ⟨byte, hb, ho⟩ := h.byte
    have hta : takeName (g :: r) = if startsName g.char then takeNameRest (g :: r) else [] := rfl
    rw [nameEnd?, if_pos h.lt_length, hb, hta]
    simp only [Option.bind_eq_bind, Option.bind_some, uniform_startsName.apply ho]
    by_cases hs : startsName g.char = true
    · rw [if_pos hs, if_pos hs]
      exact h.nameRestEnd?
    · rw [if_neg hs, if_neg hs]
      exact ⟨i, rfl, h⟩

/-- Characters that are one byte, and not what stands for blanked ones. -/
def IsSign (c : Char) : Prop :=
  IsAscii c ∧ c ≠ ' '

instance (c : Char) : Decidable (IsSign c) :=
  inferInstanceAs (Decidable (_ ∧ _))

theorem encode_cons_of_isAscii (hc : IsAscii c) (t : List Char) :
    encode (c :: t) = UInt8.ofNat c.toNat :: encode t := by
  rw [encode, flatMap_cons, utf8EncodeChar_of_isAscii hc]
  rfl

/-- A text stands in the bytes where it stands in the glyphs. -/
theorem Coded.encode_isPrefix_iff {whole : List Char} {r : List UInt8}
    (ht : ∀ c ∈ t, IsSign c) (h : Coded off whole ln r) :
    encode t <+: r ↔ (dropText? t ln).isSome = true := by
  induction t generalizing off whole ln r with
  | nil => simp [encode, dropText?]
  | cons c t ih =>
    obtain ⟨⟨ha, hsp⟩, ht⟩ := forall_mem_cons.mp ht
    rw [encode_cons_of_isAscii ha]
    cases ln with
    | nil =>
      cases h
      simp [dropText?]
    | cons g ln =>
      obtain ⟨d, lt, cell, bh, -, rfl, -, hl, hce, hs, hla⟩ := h.exists_cell
      rw [dropText?]
      by_cases hch : g.char = c
      · rw [hch] at hce hs
        rw [← hs hsp, utf8Size_of_isAscii ha, length_eq_one_iff] at hl
        obtain ⟨byte, rfl⟩ := hl
        rw [if_pos hch, ← ih ht hla, singleton_append, cons_prefix_cons,
          ← (isOf_iff ha).mp (hce byte mem_cons_self)]
        exact and_iff_right rfl
      · obtain ⟨byte, more, rfl⟩ := exists_cons_of_length_pos (hl ▸ Char.utf8Size_pos d)
        rw [if_neg hch, cons_append, cons_prefix_cons]
        refine iff_of_false (fun hp ↦ hch (eq_of_isOf ha ?_)) (by simp)
        rw [hp.1]
        exact hce byte mem_cons_self

theorem length_encode (ht : ∀ c ∈ t, IsSign c) : (encode t).length = t.length := by
  induction t with
  | nil => rfl
  | cons c t ih =>
    obtain ⟨hc, ht⟩ := forall_mem_cons.mp ht
    rw [encode_cons_of_isAscii hc.1, length_cons, length_cons, ih ht]

theorem byteLength_of_isSign (ht : ∀ c ∈ t, IsSign c) : byteLength t = t.length := by
  induction t with
  | nil => rfl
  | cons c t ih =>
    obtain ⟨hc, ht⟩ := forall_mem_cons.mp ht
    rw [byteLength, utf8Size_of_isAscii hc.1, ih ht, length_cons, Nat.add_comm]

theorem range?_eq_some_iff (hi : i ≤ bs.length) (cs : List UInt8) :
    range? bs i (i + cs.length) = some cs ↔ cs <+: bs.drop i := by
  rw [range?, Nat.add_sub_cancel_left, prefix_iff_eq_take]
  split_ifs with hb
  · rw [Option.some.injEq, eq_comm]
  · refine iff_of_false nofun fun heq ↦ hb ⟨Nat.le_add_right _ _, ?_⟩
    have hl := congrArg List.length heq
    rw [length_take, length_drop] at hl
    omega

namespace Cursor

theorem coded_drop (h : Cursor b cd bs i ln) : ∃ whole, Coded (b + i) whole ln (bs.drop i) := by
  obtain ⟨l, t, pa, r, -, rfl, -, hp, hco⟩ := h
  refine ⟨t, ?_⟩
  rwa [← hp, drop_left, hp]

variable (ht : ∀ c ∈ t, IsSign c)

include ht

theorem range?_iff (h : Cursor b cd bs i ln) :
    range? bs i (i + t.length) = some (encode t) ↔ (dropText? t ln).isSome = true := by
  obtain ⟨whole, hco⟩ := h.coded_drop
  rw [← length_encode ht, range?_eq_some_iff h.le_length, hco.encode_isPrefix_iff ht]

theorem startsAt? (h : Cursor b cd bs i ln) : startsAt? t bs i = some (dropText? t ln).isSome := by
  obtain ⟨whole, hco⟩ := h.coded_drop
  have hr : range? bs i bs.length = some (bs.drop i) := by
    rw [range?, if_pos ⟨h.le_length, Nat.le_refl _⟩, ← length_drop, take_length]
  rw [Checked.startsAt?, hr, Option.map_some, Option.some.injEq, Bool.eq_iff_iff,
    isPrefixOf_iff_prefix, hco.encode_isPrefix_iff ht]

/-- The cursor behind a text. -/
theorem dropText? (h : Cursor b cd bs i ln) (hr : dropText? t ln = some r) :
    Cursor b cd bs (i + t.length) r := by
  obtain ⟨o, rfl, rfl⟩ := eq_of_dropText? hr
  obtain ⟨j, -, hj⟩ := h.append
  have ho : ∀ g ∈ o, g.char ≠ ' ' :=
    fun g hg ↦ (ht _ (mem_map_of_mem hg)).2
  rwa [(h.word hj ho).2.1, byteLength_of_isSign ht] at hj

end Cursor

section

variable (hc : IsSign c) (h : Cursor b cd bs i ln)

include hc h

theorem Cursor.isAt : isAt c bs i = (Script.dropText? [c] ln).isSome := by
  rw [Checked.isAt, h.any_head (uniform_beq hc.1)]
  cases ln with
  | nil => rfl
  | cons g ln =>
    rw [Script.dropText?, head?_cons, Option.any_some]
    split_ifs with hch
    · rw [hch, beq_self_eq_true]
      rfl
    · rw [beq_false_of_ne hch]
      rfl

/-- The cursor behind a sign. -/
theorem Cursor.isAt_of_some (hr : Script.dropText? [c] ln = some r) :
    Checked.isAt c bs i = true ∧ Cursor b cd bs (i + 1) r := by
  refine ⟨?_, h.dropText? (forall_mem_singleton.mpr hc) hr⟩
  rw [h.isAt hc, hr, Option.isSome_some]

theorem Cursor.isAt_of_none (hr : Script.dropText? [c] ln = none) :
    Checked.isAt c bs i = false := by
  rw [h.isAt hc, hr, Option.isSome_none]

end

section Word

variable {word : String} (hw : ∀ c ∈ word.toList, IsSign c) (h : Cursor b cd bs i ln)

include hw h

theorem Cursor.wordEnd_eq : wordEnd word bs i =
    (dropWord? word ln).map fun _ ↦ i + word.toList.length := by
  simp only [wordEnd, length_encode hw, h.range?_iff hw, dropWord?]
  cases hr : Script.dropText? word.toList ln with
  | none => rfl
  | some r =>
    have hn := (h.dropText? hw hr).any_head uniform_continuesName
    rw [hn, Option.filter_some]
    cases hna : r.head?.any fun n ↦ continuesName n.char
    · rfl
    · rfl

/-- The cursor behind a word. -/
theorem Cursor.wordEnd_of_some (hr : dropWord? word ln = some r) :
    ∃ j, wordEnd word bs i = some j ∧ Cursor b cd bs j r := by
  refine ⟨i + word.toList.length, ?_, h.dropText? hw (Option.filter_eq_some_iff.mp hr).1⟩
  rw [h.wordEnd_eq hw, hr, Option.map_some]

theorem Cursor.wordEnd_of_none (hr : dropWord? word ln = none) : wordEnd word bs i = none := by
  rw [h.wordEnd_eq hw, hr, Option.map_none]

end Word

/-! ### Runs of glyphs -/

/-- The indices where a run of the line starts and stops. -/
structure Covers (b : Nat) (cd : List Char) (i j : Nat) (run : List Glyph) : Prop where
  word : word? cd i j = some (spell run)
  le : i ≤ j
  eq_iff : i = j ↔ run = []
  span : run ≠ [] → spanOf run = ⟨b + i, b + j⟩

namespace Covers

variable {j : Nat} {run : List Glyph} (h : Covers b cd i j run)

include h

theorem lt_iff : i < j ↔ run ≠ [] := by
  rw [Ne, ← h.eq_iff]
  exact ⟨Nat.ne_of_lt, Nat.lt_of_le_of_ne h.le⟩

theorem marked {α : Type} (hr : run ≠ []) (v : α) : marked b i j v = mark run v := by
  rw [Checked.marked, mark, h.span hr]

end Covers

namespace Cursor

variable {j : Nat} {run : List Glyph}

theorem covers (h : Cursor b cd bs i (run ++ ln)) (h' : Cursor b cd bs j ln)
    (hr : ∀ g ∈ run, g.char ≠ ' ') : Covers b cd i j run := by
  obtain ⟨hw, -, hs⟩ := h.word h' hr
  exact ⟨hw, h.le h', h.eq_iff h', hs⟩

/-- The bytes of a run show which classes it has characters of. -/
theorem range? (h : Cursor b cd bs i (run ++ ln)) (hj : Cursor b cd bs j ln) :
    ∃ cs, range? bs i j = some cs ∧ ∀ p, Uniform p →
      (cs.any fun byte ↦ p (asChar byte)) = run.any fun g ↦ p g.char := by
  obtain ⟨_, _, _, pa, cs, r, -, rfl, -, hpa, hl, hf, -⟩ := h.split hj
  exact ⟨cs, by rw [← hl, ← hpa, range?_append], fun p hp ↦ hf.any_eq hp⟩

/-- The name at a cursor. -/
theorem name (h : Cursor b cd bs i ln) :
    ∃ j, Checked.nameEnd? bs i = some j ∧ Cursor b cd bs j (ln.drop (takeName ln).length) ∧
      Covers b cd i j (takeName ln) := by
  obtain ⟨j, hj, hcu⟩ := h.nameEnd?
  refine ⟨j, hj, hcu, ?_⟩
  rw [← prefix_iff_eq_append.mp (takeName_isPrefix ln)] at h
  exact h.covers hcu fun g hg ↦
    (ne_of_isWordChar ((isName_takeName (ne_nil_of_mem hg)).words g hg)).1

/-- The run of a class at a cursor. -/
theorem takeWhile {p : Char → Bool} (hp : Uniform p) (hb : p ' ' = false)
    (h : Cursor b cd bs i ln) :
    ∃ j, Checked.skipWhile? p bs bs.length i = some j ∧
      Cursor b cd bs j (ln.dropWhile fun g ↦ p g.char) ∧
      Covers b cd i j (ln.takeWhile fun g ↦ p g.char) := by
  obtain ⟨j, hj, hcu⟩ := h.skipWhile?_length hp
  refine ⟨j, hj, hcu, ?_⟩
  rw [← takeWhile_append_dropWhile (p := fun g ↦ p g.char) (l := ln)] at h
  refine h.covers hcu fun g hg hs ↦ ?_
  have hm := all_eq_true.mp all_takeWhile g hg
  rw [hs, hb] at hm
  exact Bool.false_ne_true hm

end Cursor

end Cursor

end StoryScript.Script.Checked
