import StoryScript.Proofs.Uri
import StoryScript.Uri.File

/-!
The names of files: which stem and which extension is read off a path that ends with a base, a dot
and an extension.
-/

namespace StoryScript.Uri

open List Percent

theorem dropExtension_append {stem e : List UInt8} (h : '.'.toUInt8 ∉ e) :
    dropExtension (stem ++ '.'.toUInt8 :: e) = if stem = [] then '.'.toUInt8 :: e else stem := by
  have hd : ((stem ++ '.'.toUInt8 :: e).reverse.dropWhile (· ≠ '.'.toUInt8)).drop 1 =
      stem.reverse := by
    rw [reverse_append, reverse_cons, append_assoc, singleton_append, dropWhile_append_of_pos]
    · simp
    · exact fun byte hb ↦ decide_eq_true (ne_of_mem_of_not_mem (mem_reverse.mp hb) h)
  rw [dropExtension, hd]
  by_cases hs : stem = []
  · simp [hs]
  · rw [if_neg hs]
    split
    · simp_all
    · rw [reverse_reverse]

/-- The path of a file on this machine ends with a base, a dot and an extension of letters and
digits. -/
structure IsNamed (u : Uri) (fr : List String) (b e : List Char) : Prop where
  segments?_eq : u.segments? = some (fr ++ [String.ofList (b ++ '.' :: e)])
  slashless : '/' ∉ b
  isLocal : u.parts.authority.all Authority.isLocal = true
  extension_ne : e ≠ []
  isAlphanum : ∀ c ∈ e, c.isAlphanum = true

/-- What the last segment says of the extension of its uri. -/
theorem extension?_of_segments? {u : Uri} {fr : List String} {last : String}
    (h : u.segments? = some (fr ++ [last])) (hs : '/' ∉ last.toList) :
    u.extension? = match last.toList.reverse.span (· ≠ '.') with
      | (e, _ :: _) => some (String.ofList e.reverse)
      | (_, []) => none := by
  have hl : (u.parts.path.text.toList.splitOn '/').getLast? = some last.toList := by
    have ht : (u.parts.path).text.toList = (UriPath.rooted fr).text.toList ++ '/' :: last.toList := by
      simp [path_eq h, UriPath.text, String.toList_join]
    rw [ht, splitOn_append_cons_self, splitOn_eq_singleton hs, getLast?_concat]
  unfold extension?
  rw [hl]
  rfl

namespace IsNamed

variable {u : Uri} {fr : List String} {b e : List Char}
  (h : u.IsNamed fr b e)
include h

theorem not_mem {c : Char} (hc : c.isAlphanum = false) : c ∉ e := fun hm ↦ by
  rw [h.isAlphanum c hm] at hc
  cases hc

theorem span_eq : (b ++ '.' :: e).reverse.span (· ≠ '.') = (e.reverse, '.' :: b.reverse) := by
  rw [reverse_append, reverse_cons, append_assoc, singleton_append,
    Text.span_ne_append (mt mem_reverse.mp (h.not_mem rfl))]

omit h in
theorem isNormalDrive_eq (b e : List Char) :
    isNormalDrive (String.ofList (b ++ '.' :: e)) = false := by
  unfold isNormalDrive
  split
  · rename_i c heq
    have hd : '.' ∈ [c, ':'] := by
      rw [← heq, String.toList_ofList]
      exact mem_append_right _ mem_cons_self
    obtain rfl : '.' = c := by simpa using hd
    rfl
  · rfl

theorem extension?_eq : u.extension? = some (String.ofList e) := by
  rw [extension?_of_segments? h.segments?_eq]
  · rw [String.toList_ofList, h.span_eq]
    simp
  · simp [h.slashless, h.not_mem (c := '/') rfl]

theorem decode_last : decode (b ++ '.' :: e) = decode b ++ '.'.toUInt8 :: bytes e := by
  rw [decode_append_dot, decode_cons (by decide), decode_eq_bytes (h.not_mem rfl)]
  rfl

theorem not_mem_bytes {c : Char} (ha : c.toNat < 128) (hc : c.isAlphanum = false) :
    c.toUInt8 ∉ bytes e :=
  fun hm ↦ h.not_mem hc ((mem_bytes_iff ha).mp hm)

theorem bytes_extension_ne : bytes e ≠ [] := fun hn ↦
  h.extension_ne (bytes_injective (hn.trans rfl))

theorem mem_of_getLast?_append (path : List UInt8) {byte : UInt8}
    (hl : (path ++ bytes e).getLast? = some byte) : byte ∈ bytes e := by
  rw [getLast?_append_of_ne_nil _ h.bytes_extension_ne] at hl
  exact mem_of_getLast? hl

theorem endsWithDrive_append (path : List UInt8) : endsWithDrive (path ++ bytes e) = false := by
  unfold endsWithDrive
  split
  · rename_i mark letter other others heq
    have hm := h.mem_of_getLast?_append path (head?_reverse.symm.trans (congrArg head? heq))
    have hc := ne_of_mem_of_not_mem hm (h.not_mem_bytes (c := ':') (by decide) rfl)
    have hb := ne_of_mem_of_not_mem hm (h.not_mem_bytes (c := '|') (by decide) rfl)
    simp [hc, hb]
  · rfl

theorem filePath?_eq : u.filePath? = some (fr.flatMap (fun s ↦ '/'.toUInt8 :: decode s.toList) ++
      '/'.toUInt8 :: (decode b ++ '.'.toUInt8 :: bytes e)) := by
  have hd := h.endsWithDrive_append (fr.flatMap (fun s ↦
    '/'.toUInt8 :: decode s.toList) ++ '/'.toUInt8 :: (decode b ++ ['.'.toUInt8]))
  obtain ⟨x, r, hs⟩ := exists_cons_of_ne_nil (concat_ne_nil (String.ofList (b ++ '.' :: e)) fr)
  rw [filePath?, h.segments?_eq, hs]
  dsimp only
  rw [if_pos h.isLocal, ← hs, flatMap_append, flatMap_singleton,
    String.toList_ofList, h.decode_last, if_neg]
  rw [append_assoc, cons_append, append_assoc, singleton_append] at hd
  simp [hd]

theorem fileStem?_eq (hs : '/'.toUInt8 ∉ decode b) : u.fileStem? =
    utf8? (if decode b = [] then '.'.toUInt8 :: bytes e else decode b) := by
  have hn : '/'.toUInt8 ∉ decode b ++ '.'.toUInt8 :: bytes e := by
    simp [hs, h.not_mem_bytes (c := '/') (by decide) rfl, show '/'.toUInt8 ≠ '.'.toUInt8 by decide]
  have hd : decode b ++ '.'.toUInt8 :: bytes e ≠ ['.'.toUInt8, '.'.toUInt8] := by
    intro heq
    refine h.not_mem_bytes (c := '.') (by decide) rfl
      (h.mem_of_getLast?_append (decode b ++ ['.'.toUInt8]) ?_)
    rw [append_assoc, singleton_append, heq]
    rfl
  have hl : (pathNames (fr.flatMap (fun s ↦ '/'.toUInt8 :: decode s.toList) ++
      '/'.toUInt8 :: (decode b ++ '.'.toUInt8 :: bytes e))).getLast? =
        some (decode b ++ '.'.toUInt8 :: bytes e) := by
    rw [pathNames, splitOn_append_cons_self, splitOn_eq_singleton hn, filter_append]
    simp [append_eq_singleton_iff, h.bytes_extension_ne]
  rw [fileStem?, h.filePath?_eq, Option.bind_some, hl]
  dsimp only
  rw [if_neg hd, dropExtension_append (h.not_mem_bytes (by decide) rfl)]

end IsNamed

theorem exists_isNamed {u : Uri} {e : String} (he : u.extension? = some e)
    (hn : e ≠ "") (ha : ∀ c ∈ e.toList, c.isAlphanum = true)
    (hp : u.filePath?.isSome = true) (h : u.IsComposed) :
    ∃ fr b, u.IsNamed fr b e.toList := by
  obtain ⟨ss, hs, hf, hl⟩ : ∃ ss, u.segments? = some ss ∧
      ss ≠ [] ∧ u.parts.authority.all Authority.isLocal = true := by
    unfold filePath? at hp
    split at hp
    · rename_i first rest heq
      split_ifs at hp with hl
      · exact ⟨_, heq, cons_ne_nil _ _, hl⟩
      · cases hp
    · cases hp
  obtain ⟨fr, last, rfl⟩ : ∃ fr last, ss = fr ++ [last] :=
    ⟨_, _, (dropLast_append_getLast hf).symm⟩
  have hsl : '/' ∉ last.toList := UriParts.slashless_of_placeOf
    ((congrArg Prod.snd h.place).trans (path_eq hs)) last (by simp)
  rw [extension?_of_segments? hs hsl, span_eq_takeWhile_dropWhile] at he
  split at he
  · rename_i reversed dot rest heq
    obtain rfl := Option.some.inj he
    obtain ⟨rfl, hd⟩ := Prod.mk.inj heq
    obtain rfl : dot = '.' := by
      have hh := head?_dropWhile_not (p := (· ≠ '.')) (l := last.toList.reverse)
      rw [hd] at hh
      simpa using hh
    have hw := congrArg reverse (takeWhile_append_dropWhile (p := (· ≠ '.'))
      (l := last.toList.reverse))
    rw [hd, reverse_append, reverse_reverse, reverse_cons, append_assoc, singleton_append] at hw
    refine ⟨fr, rest.reverse, ?_, fun hm ↦ hsl (hw ▸ mem_append_left _ hm), hl,
      mt String.toList_eq_nil_iff.mp hn, ha⟩
    rwa [String.toList_ofList, hw, String.ofList_toList]
  · cases he

end StoryScript.Uri
