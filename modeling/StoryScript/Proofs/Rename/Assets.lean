import StoryScript.Proofs.Table
import StoryScript.Proofs.Uri.Named
import StoryScript.Rename

/-!
The files of an asset follow it to its new name: each one stays in its directory and keeps its
extension and style, and is found by the new name (`Rename.assets_follow`).
-/

namespace StoryScript

open AssetKind List Percent Uri Workspace

/-- The endings by which the files of an asset differ. -/
def AssetKind.styles : AssetKind → List String
  | .font => "" :: fontStyles
  | _ => [""]

variable {kind : AssetKind} {name : String}

theorem AssetKind.mem_stems_iff {stem : String} :
    stem ∈ kind.stems name ↔ ∃ style ∈ kind.styles, stem = name ++ style := by
  cases kind <;> simp [stems, styles, eq_comm]

theorem AssetKind.dotless_of_ofId? {id : String} (h : ofId? id = some (kind, name)) :
    '.' ∉ name.toList := by
  unfold ofId? at h
  split at h
  · rename_i first second hse
    split_ifs at h
    obtain ⟨_, -, hp⟩ := Option.map_eq_some_iff.mp h
    obtain ⟨-, rfl⟩ := Prod.mk.inj hp
    exact Path.dotless_of_mem_segments (hse ▸ mem_cons_of_mem _ mem_cons_self)
  · cases h

theorem AssetKind.ofId?_append (kind : AssetKind) (hn : name ≠ "") (hd : '.' ∉ name.toList) :
    ofId? (kind.name ++ "." ++ name) = some (kind, name) := by
  have hk : '.' ∉ kind.name.toList ∧ ofName? kind.name = some kind := by cases kind <;> decide
  rw [ofId?, Path.segments_append, Path.segments_of_dotless hk.1, Path.segments_of_dotless hd]
  simp [hn, hk.2]

theorem AssetKind.isAlphanum_of_ofExtension? {e : String} (h : ofExtension? e = some kind) :
    e ≠ "" ∧ ∀ c ∈ e.toList, c.isAlphanum = true := by
  unfold ofExtension? at h
  have hl := find?_some h
  have ha : ∀ kind ∈ all, ∀ lower ∈ kind.extensions,
      lower ≠ "" ∧ ∀ c ∈ lower.toList, c.isAlphanum = true := by decide
  obtain ⟨hn, hch⟩ := ha kind (mem_of_find?_eq_some h) _ (of_decide_eq_true hl)
  refine ⟨?_, fun c hc ↦ ?_⟩
  · rintro rfl
    exact hn rfl
  · have hl := hch c.toLower (by simpa using mem_map_of_mem hc)
    unfold Char.toLower at hl
    split_ifs at hl with hu
    · exact Script.isAlphanum_iff.mpr (.inl (.inl hu))
    · exact hl

namespace Text

theorem dropStart?_append (o t : List Char) : dropStart? o (o ++ t) = some t := by
  induction o with
  | nil => rfl
  | cons c o ih => simpa [dropStart?] using ih

theorem le_of_mem_rangesAfter {last : Nat} {numbers : List Nat} {range : Nat × Nat}
    (h : range ∈ rangesAfter last numbers) : last ≤ range.1 := by
  fun_induction rangesAfter last numbers with
  | case1 last distance extent r x ih =>
    rcases mem_cons.mp h with rfl | hr
    · exact Nat.le_add_right _ _
    · exact Nat.le_trans (by omega) (ih hr)
  | case2 => cases h

theorem isPlain_of_isAlphanumeric {c : Char} (h : isAlphanumeric c = true) :
    IsPlain c ∧ c ≠ '.' := by
  have hr : ∀ t, (rangesFrom 0x80 t).any
      (fun range ↦ decide (range.1 ≤ c.toNat) && decide (c.toNat ≤ range.2)) = true →
        0x80 ≤ c.toNat := by
    intro t ha
    obtain ⟨range, hra, hc⟩ := any_eq_true.mp ha
    rw [Bool.and_eq_true, decide_eq_true_eq] at hc
    exact (le_of_mem_rangesAfter hra).trans hc.1
  -- The texts of the tables stay closed.
  obtain ⟨letters, hl⟩ : ∃ t, alphabeticRanges =
    (0x41, 0x5a) :: (0x61, 0x7a) :: rangesFrom 0x80 t := ⟨_, rfl⟩
  obtain ⟨digits, hdi⟩ : ∃ t, numericRanges = (0x30, 0x39) :: rangesFrom 0x80 t := ⟨_, rfl⟩
  simp only [isAlphanumeric, isAlphabetic, inRanges, hl, hdi, any_cons,
    Bool.or_eq_true, Bool.and_eq_true, decide_eq_true_eq] at h
  by_cases hco : 0x80 ≤ c.toNat
  · have has : ∀ d ∈ [':', '/', '\\', '?', '#', '%', '.'], d.toNat < 0x80 := by decide
    refine ⟨⟨by omega, fun hme ↦ ?_⟩, ?_⟩
    · exact Nat.not_lt.mpr hco (has c (mem_append_left ['.'] hme))
    · rintro rfl
      exact absurd hco (by decide)
  · refine (isPlain_of_isAlphanum (Script.isAlphanum_iff.mpr ?_)).1
    obtain (hu | hlo | hm) | hd | hm := h
    · exact .inl (.inl hu)
    · exact .inl (.inr hlo)
    · exact absurd (hr _ hm) hco
    · exact .inr hd
    · exact absurd (hr _ hm) hco

end Text

theorem Rename.isPlain_of_isValidName (h : isValidName name = true) :
    name.toList ≠ [] ∧ ∀ c ∈ name.toList, IsPlain c ∧ c ≠ '.' := by
  unfold isValidName at h
  cases hn : name.toList with
  | nil => simp [hn] at h
  | cons x r =>
    rw [hn] at h
    simp only [Bool.and_eq_true, Bool.or_eq_true, beq_iff_eq, all_eq_true] at h
    have hch : ∀ c, Text.isAlphanumeric c = true ∨ c = '_' → IsPlain c ∧ c ≠ '.' := by
      rintro c (ha | rfl)
      · exact Text.isPlain_of_isAlphanumeric ha
      · decide
    refine ⟨cons_ne_nil _ _, forall_mem_cons.mpr ⟨hch x (h.1.imp_left fun hf ↦ ?_),
      fun c hc ↦ hch c (h.2 c hc)⟩⟩
    rw [Text.isAlphanumeric, hf, Bool.true_or]

namespace Workspace

/-- Workspaces that files in the form of read uris have been added to and removed from. -/
inductive Built : Workspace → Prop
  | empty (extensions : List String) : Built { extensions }
  | add {workspace : Workspace} (h : Built workspace) {uri : Uri} (hcomposed : uri.IsComposed) :
    Built (workspace.add uri)
  | remove {workspace : Workspace} (h : Built workspace) (uri : Uri) : Built (workspace.remove uri)

variable {workspace : Workspace}

theorem Built.addAll (h : workspace.Built) {us : List Uri} (hcomposed : ∀ uri ∈ us, uri.IsComposed) :
    (workspace.addAll us).Built :=
  foldlRecOn us Workspace.add h fun _ ho uri hu ↦ .add ho (hcomposed uri hu)

theorem extensions_add (workspace : Workspace) (uri : Uri) :
    (workspace.add uri).extensions = workspace.extensions := by
  unfold add
  split
  · rfl
  · split_ifs
    · rfl
    · split <;> rfl

/-- What an added file may become. -/
theorem get?_assets_add (workspace : Workspace) (added uri : Uri) :
    (workspace.add added).assets.get? uri = workspace.assets.get? uri ∨
      added = uri ∧ ∃ e, uri.extension? = some e ∧ e ∉ workspace.extensions ∧
        (workspace.add added).assets.get? uri = ofExtension? e := by
  unfold add
  split
  · exact .inl rfl
  · rename_i e he
    split_ifs with hsc
    · exact .inl rfl
    · split
      · rename_i kind hk
        by_cases heq : added = uri
        · subst heq
          exact .inr ⟨rfl, e, he, hsc, by simp [hk]⟩
        · exact .inl (Table.get?_insert_of_ne _ _ heq)
      · exact .inl rfl

theorem Built.asset (h : workspace.Built) {uri : Uri} {kind : AssetKind}
    (ha : workspace.assets.get? uri = some kind) : uri.IsComposed ∧ ∃ e,
      uri.extension? = some e ∧ e ∉ workspace.extensions ∧
        AssetKind.ofExtension? e = some kind := by
  induction h with
  | empty => cases ha
  | @add workspace _ added hcomposed ih =>
    rw [extensions_add]
    rcases workspace.get?_assets_add added uri with hsa | ⟨rfl, e, he, hn, hnew⟩
    · exact ih (hsa ▸ ha)
    · exact ⟨hcomposed, e, he, hn, hnew ▸ ha⟩
  | @remove workspace _ removed ih =>
    refine ih ?_
    rw [Workspace.remove, Table.get?_erase] at ha
    split_ifs at ha
    exact ha

theorem mem_findAssets_iff {id name : String} {kind : AssetKind}
    (hid : ofId? id = some (kind, name)) {file : Uri} :
    file ∈ workspace.findAssets id ↔ workspace.assets.get? file = some kind ∧
      ∃ style ∈ kind.styles, file.fileStem? = some (name ++ style) := by
  simp only [findAssets, hid, mem_map, mem_filter, Bool.and_eq_true, decide_eq_true_eq,
    Option.any_eq_true, mem_stems_iff]
  constructor
  · rintro ⟨⟨_, _⟩, ⟨hen, rfl, _, hst, style, hs, rfl⟩, rfl⟩
    exact ⟨(Table.mem_entries_iff _ _ _).mp hen, style, hs, hst⟩
  · rintro ⟨ha, style, hs, hst⟩
    exact ⟨(file, kind), ⟨(Table.mem_entries_iff _ _ _).mpr ha, rfl, _, hst, style, hs, rfl⟩, rfl⟩

section

variable {uri : Uri} {e : String} {kind : AssetKind}
  (he : uri.extension? = some e)
  (hk : ofExtension? e = some kind)
include he hk

theorem get?_assets_add_of_get? (ha : workspace.assets.get? uri = some kind) (added : Uri) :
    (workspace.add added).assets.get? uri = some kind := by
  rcases workspace.get?_assets_add added uri with hsa | ⟨-, o, ho, -, hnew⟩
  · exact hsa.trans ha
  · obtain rfl := Option.some.inj (ho.symm.trans he)
    exact hnew.trans hk

theorem get?_assets_add_self (hn : e ∉ workspace.extensions) :
    (workspace.add uri).assets.get? uri = some kind := by
  have ha : workspace.add uri = { workspace with assets := workspace.assets.insert uri kind } := by
    unfold add
    simp only [he, if_neg hn, hk]
  rw [ha]
  exact Table.get?_insert_self _ _ _

/-- A file of some kind that is added is in the workspace, and stays when others are added. -/
theorem get?_assets_addAll {us : List Uri} (hu : uri ∈ us) (hn : e ∉ workspace.extensions) :
    (workspace.addAll us).assets.get? uri = some kind := by
  obtain ⟨pre, lt, rfl⟩ := append_of_mem hu
  have hex : (workspace.addAll pre).extensions = workspace.extensions :=
    foldlRecOn pre add (motive := fun added ↦ added.extensions = workspace.extensions) rfl
      fun added hsa o _ ↦ (added.extensions_add o).trans hsa
  rw [addAll, foldl_append, foldl_cons]
  exact foldlRecOn lt add (motive := fun added ↦ added.assets.get? uri = some kind)
    (get?_assets_add_self he hk (hex ▸ hn))
    fun added ha o _ ↦ get?_assets_add_of_get? he hk ha o

end

end Workspace

namespace Rename

variable {workspace : Workspace} {id old new : String} {kind : AssetKind} {file : Uri}

section

variable {l : List String} {b e : List Char} {style : String}
  (h : file.IsNamed l b e) (hcomposed : file.IsComposed)
  (hst : file.fileStem? = some (old ++ style)) (hs : style ∈ kind.styles)
  (hnew : isValidName new = true)

include hs in
theorem isPlain_of_mem_styles : ∀ c ∈ style.toList, IsPlain c ∧ c ≠ '.' := by
  have ha : ∀ kind : AssetKind, ∀ style ∈ kind.styles, ∀ c ∈ style.toList, IsPlain c ∧ c ≠ '.' := by
    intro kind
    cases kind <;> decide
  exact ha kind style hs

include h hs hnew

theorem isFileName_moved : IsFileName ((new ++ style).toList ++ '.' :: e)
    (new ++ style).toList e := by
  obtain ⟨hn, hp⟩ := isPlain_of_isValidName hnew
  refine ⟨rfl, by simp [hn], h.extension_ne, ?_, h.isAlphanum⟩
  rw [String.toList_append]
  simp only [forall_mem_append, forall_mem_cons]
  exact ⟨⟨fun c hc ↦ (hp c hc).1, fun c hc ↦ (isPlain_of_mem_styles hs c hc).1⟩, by decide,
    fun c hc ↦ (isPlain_of_isAlphanum (h.isAlphanum c hc)).1.1⟩

include hcomposed

include hst in
theorem movedAsset?_eq : movedAsset? file old new =
    some (file.beside (encode inPath ((new ++ style).toList ++ '.' :: e))) := by
  rw [beside_eq h.segments?_eq, ← join?_name hcomposed h.segments?_eq (IsNamed.isNormalDrive_eq _ _)
    (isFileName_moved h hs hnew).isName]
  simp only [movedAsset?, hst, h.segments?_eq, getLast?_concat, String.toList_append,
    String.toList_ofList, Text.dropStart?_append, h.span_eq, Option.bind_eq_bind, Option.bind_some]
  congr 1
  rw [← String.toList_inj]
  simp

/-- What is read off the new uri. -/
theorem isNamed_moved : ∃ t, file.beside (encode inPath ((new ++ style).toList ++ '.' :: e)) = t ∧
      t.IsNamed l (encode inPath (new ++ style).toList).toList e ∧
      t.fileStem? = some (new ++ style) ∧ t.folder = file.folder := by
  have hn := isFileName_moved h hs hnew
  have hp := parts_beside h.segments?_eq hcomposed hn.isName.unseparated_encode
  have hen := String.toList_inj.mp (hn.encode_eq.trans String.toList_ofList.symm)
  have hna : (file.beside (encode inPath ((new ++ style).toList ++ '.' :: e))).IsNamed
      l (encode inPath (new ++ style).toList).toList e := by
    refine ⟨?_, fun hsl ↦ ?_, by rw [hp]; exact h.isLocal, h.extension_ne, h.isAlphanum⟩
    · rw [segments?, hp, hen]
    · refine (hn.isName.unseparated_encode '/' ?_).1 rfl
      rw [hn.encode_eq]
      exact mem_append_left _ hsl
  have hd := decode_encode inPath (fun hm ↦ hn.not_mem (c := '%') (by decide)
    (mem_append_left _ hm))
  refine ⟨_, rfl, hna, ?_, ?_⟩
  · have hsl : '/'.toUInt8 ∉ bytes (new ++ style).toList := fun hm ↦
      hn.not_mem (c := '/') (by decide) (mem_append_left _ ((mem_bytes_iff (by decide)).mp hm))
    have hne : bytes (new ++ style).toList ≠ [] := fun hni ↦
      hn.base_ne (bytes_injective (hni.trans rfl))
    rw [← hd] at hsl hne
    rw [hna.fileStem?_eq hsl, if_neg hne, hd, utf8?_bytes, String.ofList_toList]
  · rw [folder, folder, hna.segments?_eq, h.segments?_eq, hp]
    simp

end

theorem exists_isNamed_of_mem (hbuilt : workspace.Built)
    (hid : ofId? id = some (kind, old)) (hf : file ∈ workspace.findAssets id) :
    ∃ l b e style, file.IsNamed l b e ∧ file.IsComposed ∧
      style ∈ kind.styles ∧ file.fileStem? = some (old ++ style) ∧
      String.ofList e ∉ workspace.extensions ∧
      ofExtension? (String.ofList e) = some kind := by
  obtain ⟨has, style, hs, hst⟩ := (mem_findAssets_iff hid).mp hf
  obtain ⟨hcomposed, e, he, hno, hk⟩ := hbuilt.asset has
  obtain ⟨hne, ha⟩ := isAlphanum_of_ofExtension? hk
  obtain ⟨path, hp, -⟩ := Option.bind_eq_some_iff.mp hst
  obtain ⟨l, b, hn⟩ := Uri.exists_isNamed he hne ha (Option.isSome_of_eq_some hp) hcomposed
  exact ⟨l, b, e.toList, style, hn, hcomposed, hs, hst,
    by rwa [String.ofList_toList], by rwa [String.ofList_toList]⟩

/-- No slash is encoded in the last segment of the path. -/
def HasSlashlessName (file : Uri) : Prop :=
  ∀ ss ∈ file.segments?, ∀ last ∈ ss.getLast?, '/'.toUInt8 ∉ decode last.toList

theorem filePath?_of_isNamed {l : List String} {b e : List Char} {style : String}
    (h : file.IsNamed l b e) (hst : file.fileStem? = some (old ++ style))
    (hd : '.' ∉ (old ++ style).toList) (hsl : HasSlashlessName file) :
    file.filePath? = some (l.flatMap (fun s ↦ '/'.toUInt8 :: decode s.toList) ++
      '/'.toUInt8 :: (bytes (old ++ style).toList ++ '.'.toUInt8 :: bytes e)) := by
  have hba : '/'.toUInt8 ∉ decode b := fun hm ↦ by
    refine hsl _ h.segments?_eq _ getLast?_concat ?_
    rw [String.toList_ofList, h.decode_last]
    exact mem_append_left _ hm
  rw [h.fileStem?_eq hba] at hst
  have hb := bytes_of_utf8? hst
  split_ifs at hb with hem
  · exact absurd ((mem_bytes_iff (by decide)).mp (hb ▸ mem_cons_self)) hd
  · rw [h.filePath?_eq, hb]

section

variable (hbuilt : workspace.Built) (hid : ofId? id = some (kind, old))
  (hnew : isValidName new = true) {x y : Uri}

include hbuilt hid hnew

theorem movedAsset?_of_mem (hf : file ∈ workspace.findAssets id) :
    ∃ t, movedAsset? file old new = some t ∧ t.folder = file.folder ∧
      t.extension? = file.extension? := by
  obtain ⟨l, b, e, style, hn, hcomposed, hs, hst, -⟩ := exists_isNamed_of_mem hbuilt hid hf
  obtain ⟨_, rfl, hm, -, hfo⟩ := isNamed_moved hn hcomposed hs hnew
  refine ⟨_, movedAsset?_eq hn hcomposed hst hs hnew, hfo, ?_⟩
  rw [hm.extension?_eq, hn.extension?_eq]

theorem movedAsset?_eq_iff (hfi : x ∈ workspace.findAssets id) (hse : y ∈ workspace.findAssets id) :
    movedAsset? x old new = movedAsset? y old new ↔ x.folder = y.folder ∧
      x.fileStem? = y.fileStem? ∧ x.extension? = y.extension? := by
  obtain ⟨l, b, e, style, hn, hcomposed, hs, hst, -⟩ := exists_isNamed_of_mem hbuilt hid hfi
  obtain ⟨front', base', e', style', hn', hc', hst', hs', -⟩ :=
    exists_isNamed_of_mem hbuilt hid hse
  obtain ⟨t, ht, hm, hmo, hf⟩ := isNamed_moved hn hcomposed hs hnew
  obtain ⟨t', ht', hm', hmo', hf'⟩ := isNamed_moved hn' hc' hst' hnew
  rw [movedAsset?_eq hn hcomposed hst hs hnew,
    movedAsset?_eq hn' hc' hs' hst' hnew, hst, hs', hn.extension?_eq, hn'.extension?_eq, ht, ht']
  simp only [Option.some.injEq, String.append_right_inj]
  constructor
  · rintro rfl
    refine ⟨hf.symm.trans hf', ?_, ?_⟩
    · simpa [hmo] using hmo'
    · simpa [hm.extension?_eq] using hm'.extension?_eq
  · rintro ⟨hsa, rfl, he⟩
    rw [← ht, ← ht', String.ofList_injective he, beside, hsa, ← beside]

theorem movedAsset?_ne (hf : x ∈ workspace.findAssets id) (hse : y ∈ workspace.findAssets id)
    (hsl : HasSlashlessName x) (hsl' : HasSlashlessName y) (hne : x.filePath? ≠ y.filePath?) :
    movedAsset? x old new ≠ movedAsset? y old new := by
  intro heq
  obtain ⟨hfo, hste, hex⟩ := (movedAsset?_eq_iff hbuilt hid hnew hf hse).mp heq
  obtain ⟨l, b, e, style, hn, -, hs, hst, -⟩ := exists_isNamed_of_mem hbuilt hid hf
  obtain ⟨front', base', e', style', hn', -, hst', hs', -⟩ :=
    exists_isNamed_of_mem hbuilt hid hse
  rw [hst, hs', Option.some.injEq, String.append_right_inj] at hste
  rw [hn.extension?_eq, hn'.extension?_eq, Option.some.injEq] at hex
  obtain rfl := String.ofList_injective hex
  subst hste
  have hd : '.' ∉ (old ++ style).toList := by
    rw [String.toList_append, mem_append, not_or]
    exact ⟨AssetKind.dotless_of_ofId? hid, fun hm ↦ (isPlain_of_mem_styles hs _ hm).2 rfl⟩
  obtain rfl : l = front' := by
    simpa [folder, hn.segments?_eq, hn'.segments?_eq] using congrArg (fun folder ↦ folder.2.2) hfo
  refine hne ?_
  rw [filePath?_of_isNamed hn hst hd hsl, filePath?_of_isNamed hn' hs' hd hsl']

theorem mem_findAssets_moved (hf : file ∈ workspace.findAssets id) {t : Uri}
    (ht : movedAsset? file old new = some t) :
    t ∈ (((workspace.findAssets id).foldl remove workspace).addAll
      ((workspace.findAssets id).filterMap (movedAsset? · old new))).findAssets
        (kind.name ++ "." ++ new) := by
  obtain ⟨l, b, e, style, hn, hcomposed, hs, hst, hno, hk⟩ :=
    exists_isNamed_of_mem hbuilt hid hf
  obtain ⟨hne, hp⟩ := isPlain_of_isValidName hnew
  obtain ⟨_, rfl, hm, hmo, -⟩ := isNamed_moved hn hcomposed hs hnew
  obtain rfl := Option.some.inj (ht.symm.trans (movedAsset?_eq hn hcomposed hst hs hnew))
  have hnewI := kind.ofId?_append (mt String.toList_eq_nil_iff.mpr hne) fun hd ↦ (hp _ hd).2 rfl
  refine (mem_findAssets_iff hnewI).mpr ⟨?_, style, hs, hmo⟩
  refine get?_assets_addAll hm.extension?_eq hk (mem_filterMap.mpr ⟨file, hf, ht⟩) ?_
  have hex : ((workspace.findAssets id).foldl remove workspace).extensions =
      workspace.extensions := foldlRecOn (workspace.findAssets id) remove
    (motive := fun removed ↦ removed.extensions = workspace.extensions) rfl
    fun removed (hsa : removed.extensions = _) _ _ ↦ hsa
  exact hex ▸ hno

theorem assetMoves_eq : (assetMoves workspace new id).map FileMove.source = workspace.findAssets id ∧
    ∀ move ∈ assetMoves workspace new id, movedAsset? move.source old new = some move.target := by
  unfold assetMoves
  rw [hid]
  dsimp only
  constructor
  · rw [map_filterMap]
    refine (filterMap_congr fun file hf ↦ ?_).trans filterMap_some
    obtain ⟨t, ht, -⟩ := movedAsset?_of_mem hbuilt hid hnew hf
    rw [ht]
    rfl
  · intro move hm
    obtain ⟨file, -, hf⟩ := mem_filterMap.mp hm
    obtain ⟨t, ht, rfl⟩ := Option.map_eq_some_iff.mp hf
    exact ht

end

theorem flatMap_assetMoves {ids : List String} (hno : ids.Nodup) (hid : id ∈ ids)
    (hon : ∀ o ∈ ids, ofId? o ≠ none → o = id) :
    ids.flatMap (assetMoves workspace new) = assetMoves workspace new id := by
  obtain ⟨pre, lt, rfl⟩ := append_of_mem hid
  have hn : ∀ o ∈ pre ++ lt, assetMoves workspace new o = [] := by
    intro o ho
    have hne : o ≠ id := by
      rintro rfl
      exact (nodup_middle.mp hno).notMem ho
    have ho : ofId? o = none := by_contra fun hso ↦
      hne (hon o (by simp only [mem_append, mem_cons] at ho ⊢; tauto) hso)
    rw [assetMoves, ho]
  rw [flatMap_append, flatMap_cons, flatMap_eq_nil_iff.mpr fun o ho ↦
    hn o (mem_append_left _ ho), flatMap_eq_nil_iff.mpr fun o ho ↦
    hn o (mem_append_right _ ho), nil_append, append_nil]

/-- The files of an asset that gets another name. Each one is given a uri in its own directory, with
its extension; two of them are given the same exactly if they have directory, stem and extension in
common, which no two files have whose last segments hide no slash. A workspace with the new files in
place of the old ones finds all of them, and a rename of this asset alone moves each file once. -/
theorem assets_follow (hbuilt : workspace.Built) (hid : ofId? id = some (kind, old))
    (hnew : isValidName new = true) :
    let files := workspace.findAssets id
    (∀ file ∈ files, ∃ target, movedAsset? file old new = some target ∧
      target.folder = file.folder ∧ target.extension? = file.extension?) ∧
    (∀ first ∈ files, ∀ second ∈ files, movedAsset? first old new = movedAsset? second old new ↔
        first.folder = second.folder ∧ first.fileStem? = second.fileStem? ∧
          first.extension? = second.extension?) ∧
    (∀ first ∈ files, ∀ second ∈ files, HasSlashlessName first → HasSlashlessName second →
      first.filePath? ≠ second.filePath? → movedAsset? first old new ≠ movedAsset? second old new) ∧
    (∀ file ∈ files, ∀ target ∈ movedAsset? file old new,
      target ∈ ((files.foldl remove workspace).addAll
        (files.filterMap (movedAsset? · old new))).findAssets (kind.name ++ "." ++ new)) ∧
    ∀ store program builtins uri position rename,
      let search := Search.find store workspace program builtins SearchFilter.rename uri position
      id ∈ search.ids.keys →
      (∀ other ∈ search.ids.keys, ofId? other ≠ none → other = id) →
      at? store workspace program builtins true uri position new = some rename →
      rename.moves.map FileMove.source = files ∧
        ∀ move ∈ rename.moves, movedAsset? move.source old new = some move.target := by
  refine ⟨fun file ↦ movedAsset?_of_mem hbuilt hid hnew,
    fun first hfirst second ↦ movedAsset?_eq_iff hbuilt hid hnew hfirst,
    fun first hfirst second ↦ movedAsset?_ne hbuilt hid hnew hfirst,
    fun file hfile target ↦ mem_findAssets_moved hbuilt hid hnew hfile, ?_⟩
  intro store program builtins uri position rename search hmem honly hrename
  have hmoves : rename.moves = search.ids.keys.flatMap (assetMoves workspace new) := by
    rw [at?, if_pos hnew] at hrename
    dsimp only at hrename
    split_ifs at hrename with hempty hmove
    · obtain rfl := Option.some.inj hrename
      rfl
    · exact absurd rfl hmove
  rw [hmoves, flatMap_assetMoves (Table.nodup_keys _) hmem honly]
  exact assetMoves_eq hbuilt hid hnew

/-- A font in two styles. -/
def robotoFiles : List Uri := [⟨"file:///fonts/Roboto.ttf"⟩, ⟨"file:///fonts/Roboto__bold.otf"⟩]

theorem assets_follow_roboto :
    let workspace : Workspace := addAll { extensions := ["ink"] } robotoFiles
    workspace.Built ∧ ofId? "font.Roboto" = some (.font, "Roboto") ∧
      isValidName "Lobster" = true ∧ workspace.findAssets "font.Roboto" = robotoFiles ∧
      ∀ file ∈ robotoFiles, ∃ target, movedAsset? file "Roboto" "Lobster" = some target ∧
        target.folder = file.folder ∧ target.extension? = file.extension? := by
  intro workspace
  have hbuilt : workspace.Built := (Workspace.Built.empty ["ink"]).addAll (by decide +kernel)
  have hid : ofId? "font.Roboto" = some (.font, "Roboto") := by decide +kernel
  have hnew : isValidName "Lobster" = true := by decide +kernel
  have hfiles : workspace.findAssets "font.Roboto" = robotoFiles := by decide +kernel
  exact ⟨hbuilt, hid, hnew, hfiles, hfiles ▸ (assets_follow hbuilt hid hnew).1⟩

/-- Two files with a slash in the last segment. -/
def slashFiles : List Uri := [⟨"file:///a/x%2Flogo.png"⟩, ⟨"file:///a/y%2Flogo.png"⟩]

/-- Files in different directories are given the same uri. -/
theorem movedAsset?_slashFiles :
    let workspace : Workspace := addAll { extensions := ["ink"] } slashFiles
    workspace.Built ∧ workspace.findAssets "image.logo" = slashFiles ∧
      (slashFiles.map Uri.filePath?).Nodup ∧
      ∀ file ∈ slashFiles, movedAsset? file "logo" "new" = some ⟨"file:///a/new.png"⟩ := by
  refine ⟨(Workspace.Built.empty ["ink"]).addAll (by decide +kernel), ?_⟩
  decide +kernel

end Rename
end StoryScript
