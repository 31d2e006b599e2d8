import Mathlib.Data.List.Range
import StoryScript.Proofs.Uri
import StoryScript.Scheduler

/-!
The main script of a project. A search starts in the directory of a script (`Uri.home`) and goes
outwards (`Uri.outer`); it ends with the nearest main script, which is its own main script
(`Project.mainScript?_nearest`).
-/

namespace StoryScript

open List Percent Uri

namespace Uri

/-! ### Directories -/

variable {u : Uri} {front dirs ss : List String} {last new : String}

section Within

variable (h : u.IsComposed) (hl : u.Leads dirs)
  (hn : ∀ c ∈ new.toList, c ≠ '/' ∧ endsPath c = false)

include h hl hn

theorem segments?_within : (u.within dirs new).segments? = some (dirs ++ [new]) := by
  rw [segments?, parts_within h hl hn]

theorem within_within (others : List String) (other : String) :
    (u.within dirs new).within others other = u.within others other := by
  have hsc : (u.within dirs new).parts.scheme = u.parts.scheme := by rw [parts_within h hl hn]
  have ha : (u.within dirs new).parts.authority = u.parts.authority := by rw [parts_within h hl hn]
  exact congrArg₂ (fun scheme authority ↦
    ofParts { scheme, authority, path := .rooted (others ++ [other]) }) hsc ha

end Within

/-- The segments of the directory that a uri stands in. A drive is its own directory. -/
def home (u : Uri) : List String :=
  let path := directory (.of u.parts.scheme) (u.segments?.getD [])
  if path.tail = "" then path.done else path.done ++ [path.tail]

theorem home_eq (hs : u.segments? = some (front ++ [last])) (hdr : isNormalDrive last = false) :
    u.home = front := by
  simp [home, hs, directory, hdr]

theorem leads_home (hs : u.segments? = some ss) : u.Leads u.home := by
  rcases eq_nil_or_concat' ss with rfl | ⟨front, last, rfl⟩
  · exact ⟨[], by simp [home, hs, directory], by simp [home, hs, directory]⟩
  · by_cases hd : SchemeKind.of u.parts.scheme = .file ∧ isNormalDrive last = true
    · have hl : last ≠ "" := by
        rintro rfl
        cases hd.2
      have hh : u.home = front ++ [last] := by simp [home, hs, directory, hd, hl]
      exact ⟨[], by simp [hs, hh], by simp [hh, hl]⟩
    · have hh : u.home = front := by simp [home, hs, directory, hd]
      exact hh ▸ leads_front hs

/-- The directory around a directory. There is none around the root or a drive. -/
def outer (dirs : List String) : List String :=
  if dirs.getLast?.any opensWithDrive then dirs else dirs.dropLast

theorem Leads.outer (hl : u.Leads dirs) : u.Leads (outer dirs) := by
  unfold Uri.outer
  split_ifs
  · exact hl
  · rcases eq_nil_or_concat' dirs with rfl | ⟨front, last, rfl⟩
    · exact hl
    · obtain ⟨rest, hs, -⟩ := hl
      exact ⟨last :: rest, by simpa using hs, fun h ↦ by cases h⟩

namespace OpenPath

variable (kind : SchemeKind) {path : OpenPath}

theorem addSegment_nil (h : path.tail = "") : path.addSegment kind false [] = path := by
  obtain ⟨done, tail, hasDrive⟩ := path
  obtain rfl : tail = "" := h
  cases kind <;> simp [addSegment, append, plain, encode, isNormalDrive, isDot, isDoubleDot, lower]

theorem follow_dot (path : OpenPath) :
    path.follow kind ['.', '/'] = if path.tail = "" then path else path.close := by
  have hsp : ['.', '/'].splitOnP kind.isSlash = [['.'], []] := by cases kind <;> rfl
  have hd : path.addSegment kind true ['.'] = if path.tail = "" then path else path.close := by
    have he : encode inPath (plain ['.']) = "." := by decide
    simp only [addSegment, he]
    split_ifs <;> simp_all [isDoubleDot, isDot, lower, close, isNormalDrive]
  rw [follow, hsp, descend, descend, hd, addSegment_nil]
  split_ifs with h
  · exact h
  · rfl

theorem follow_up (h : path.tail = "") :
    path.follow kind ['.', '.', '/'] = { path with done := outer path.done } := by
  obtain ⟨done, tail, hasDrive⟩ := path
  obtain rfl : tail = "" := h
  have hsp : ['.', '.', '/'].splitOnP kind.isSlash = [['.', '.'], []] := by cases kind <;> rfl
  have hd : addSegment kind { done, hasDrive } true ['.', '.'] = { done := outer done, hasDrive } := by
    have he : encode inPath (plain ['.', '.']) = ".." := by decide
    simp only [addSegment, he, outer, up]
    split_ifs <;> simp_all [isDoubleDot, lower, isNormalDrive]
  rw [follow, hsp, descend, descend, hd, addSegment_nil kind rfl]

end OpenPath

theorem join?_dot (h : u.IsComposed) (hs : u.segments? = some ss) :
    u.join? "./" = some (u.within u.home "") := by
  refine (join?_eq_sibling hs (by decide) (by decide) (by decide) ⟨'.', rfl, by decide⟩).trans ?_
  rw [sibling_eq h hs (by decide) (leads_home hs)]
  rw [OpenPath.follow_dot, home, hs]
  simp only [Option.getD_some]
  split_ifs with ht
  · simp [OpenPath.segments, ht]
  · simp [OpenPath.segments, OpenPath.close]

theorem join?_up (h : u.IsComposed) (hs : u.segments? = some (dirs ++ [""])) :
    u.join? "../" = some (u.within (outer dirs) "") := by
  refine (join?_eq_sibling hs (by decide) (by decide) (by decide) ⟨'.', rfl, by decide⟩).trans ?_
  rw [sibling_eq h hs (by decide) (leads_front hs).outer]
  rw [OpenPath.follow_up _ (by simp [directory, isNormalDrive])]
  simp [OpenPath.segments, directory, isNormalDrive]

/-- The file of a name in a directory at the place of a uri. -/
def file (u : Uri) (dirs : List String) (name : String) : Uri :=
  u.within dirs (encode inPath name.toList)

/-- The file of a name in the directory of a uri, or in one as many steps outwards as a depth
says. -/
def fileAbove (u : Uri) (depth : Nat) (name : String) : Uri :=
  u.file (outer^[depth] u.home) name

theorem Leads.iterate (hl : u.Leads dirs) (n : Nat) : u.Leads (Uri.outer^[n] dirs) := by
  induction n with
  | zero => exact hl
  | succ n ih =>
    rw [Function.iterate_succ_apply']
    exact ih.outer

end Uri

/-! ### The search -/

section Search

variable {u : Uri} {dirs : List String} {names : List String} {known : Uri → Bool}
  (h : u.IsComposed) (hn : ∀ name ∈ names, Uri.IsName name.toList)

include h hn

theorem mainScriptIn?_within (hl : u.Leads dirs) :
    mainScriptIn? names known (u.within dirs "") = (names.map (u.file dirs)).find? known := by
  have hd : ∀ c ∈ "".toList, c ≠ '/' ∧ endsPath c = false := by simp
  have hj : ∀ name ∈ names, (u.within dirs "").join? name = some (u.file dirs name) := by
    intro name hm
    have := join?_name (isComposed_within h hl hd) (segments?_within h hl hd) (by decide)
      (hn name hm)
    rwa [String.ofList_toList, within_within h hl hd] at this
  rw [mainScriptIn?, filterMap_congr hj, filterMap_eq_map']

/-- A search outwards: the first directory that holds a main script decides. -/
theorem mainScriptAbove?_within (hl : u.Leads dirs) (n : Nat) :
    mainScriptAbove? names known n (u.within dirs "") = (range n).findSome? fun depth ↦
      (names.map (u.file (outer^[depth] dirs))).find? known := by
  have hd : ∀ c ∈ "".toList, c ≠ '/' ∧ endsPath c = false := by simp
  induction n generalizing dirs with
  | zero => rfl
  | succ n ih =>
    rw [mainScriptAbove?, mainScriptIn?_within h hn hl, range_succ_eq_map, findSome?_cons,
      Function.iterate_zero, id_eq, findSome?_map]
    cases hf : (names.map (u.file dirs)).find? known with
    | some main => rfl
    | none =>
      have hs := segments?_within h hl hd
      simp only [join?_up (isComposed_within h hl hd) hs, within_within h hl hd]
      split_ifs with ho
      · -- At the root all further steps stay there.
        have ho : outer dirs = dirs := by
          have he := congrArg segments? ho
          rw [hs, segments?_within h hl.outer hd] at he
          simpa using he
        refine (findSome?_eq_none_iff.mpr fun depth _ ↦ ?_).symm
        rw [Function.comp_apply, Function.iterate_fixed ho, hf]
      · exact ih hl.outer

/-- A script in a directory is its own main script if it is the first one known there. -/
theorem mainScript?_file (hl : u.Leads dirs) {name : String} (hm : name ∈ names)
    (hf : (names.map (u.file dirs)).find? known = some (u.file dirs name)) :
    mainScript? names known (u.file dirs name) = some (u.file dirs name) := by
  have he := (hn name hm).unseparated_encode
  have hc := isComposed_within h hl he
  have hs := segments?_within h hl he
  have hdr : isNormalDrive (encode inPath name.toList) = false := by
    have hd := (hn name hm).isDrive
    unfold isDrive at hd
    unfold isNormalDrive
    split <;> simp_all
  rw [mainScript?, file, join?_dot hc hs, home_eq hs hdr, within_within h hl he,
    Option.bind_some, mainScriptAbove?_within h hn hl, maxMainScriptDepth, range_succ_eq_map,
    findSome?_cons, Function.iterate_zero, id_eq, hf]
  rfl

end Search

theorem exists_of_findSome?_range {α : Type} {f : Nat → Option α} {n : Nat} {found : α}
    (h : (range n).findSome? f = some found) :
    ∃ k < n, f k = some found ∧ ∀ inner < k, f inner = none := by
  obtain ⟨before, k, after, hr, hf, hb⟩ := findSome?_eq_some_iff.mp h
  rw [range_eq_range', range'_eq_append_iff] at hr
  obtain ⟨m, -, rfl, hc⟩ := hr
  obtain ⟨rfl, hm, -⟩ := range'_eq_cons_iff.mp hc.symm
  exact ⟨_, by omega, hf, fun inner hi ↦ hb inner (by simpa using hi)⟩

namespace Project

/-- Whether a script is open or known as a file. -/
def holds (project : Project) (u : Uri) : Bool :=
  project.store.contains u || project.workspace.containsScript u

theorem mainScript?_eq (project : Project) {u : Uri} {ss : List String} (h : u.IsComposed)
    (hs : u.segments? = some ss) (hn : ∀ name ∈ project.mainScriptNames, Uri.IsName name.toList) :
    project.mainScript? u = (range maxMainScriptDepth).findSome? fun depth ↦
      (project.mainScriptNames.map (u.fileAbove depth)).find? project.holds := by
  rw [mainScript?, StoryScript.mainScript?, join?_dot h hs, Option.bind_some,
    mainScriptAbove?_within h hn (leads_home hs)]
  rfl

/-- The main script of a document is the nearest one: open or known as a file, in the directory of the
document or around it, the first of the names there, with none in a directory nearer by. It is its
own main script, and all documents of a directory have the same one. A document has none only if no
directory of the search holds one. -/
theorem mainScript?_nearest (project : Project) (u : Uri) (h : u.IsComposed)
    (hs : u.segments?.isSome = true)
    (hn : ∀ name ∈ project.mainScriptNames, Uri.IsName name.toList) :
    (∀ main, project.mainScript? u = some main →
      (project.store.contains main = true ∨ project.workspace.containsScript main = true) ∧
      (∃ depth < maxMainScriptDepth, ∃ before name after,
        project.mainScriptNames = before ++ name :: after ∧ main = u.fileAbove depth name ∧
        (∀ other ∈ before, project.holds (u.fileAbove depth other) = false) ∧
        ∀ inner < depth, ∀ other ∈ project.mainScriptNames,
          project.holds (u.fileAbove inner other) = false) ∧
      project.mainScript? main = some main) ∧
    (project.mainScript? u = none ↔ ∀ depth < maxMainScriptDepth,
      ∀ name ∈ project.mainScriptNames, project.holds (u.fileAbove depth name) = false) ∧
    ∀ v : Uri, v.IsComposed → v.segments?.isSome = true → v.parts.scheme = u.parts.scheme →
      v.parts.authority = u.parts.authority → v.home = u.home →
        project.mainScript? v = project.mainScript? u := by
  obtain ⟨ss, hs⟩ := Option.isSome_iff_exists.mp hs
  have hnone (depth : Nat) : (project.mainScriptNames.map (u.fileAbove depth)).find? project.holds =
      none ↔ ∀ name ∈ project.mainScriptNames, project.holds (u.fileAbove depth name) = false := by
    simp
  refine ⟨fun main hm ↦ ?_, ?_, fun v hv hvs hsc ha hh ↦ ?_⟩
  · rw [project.mainScript?_eq h hs hn] at hm
    obtain ⟨depth, hd, hf, hi⟩ := exists_of_findSome?_range hm
    obtain ⟨hk, front, back, hma, hb⟩ := find?_eq_some_iff_append.mp hf
    obtain ⟨before, _, hna, rfl, hba⟩ := map_eq_append_iff.mp hma
    obtain ⟨name, after, rfl, rfl, -⟩ := map_eq_cons_iff.mp hba
    refine ⟨(Bool.or_eq_true _ _).mp hk, ⟨depth, hd, before, name, after, hna, rfl, fun other ho ↦ ?_,
      fun inner hin ↦ (hnone inner).mp (hi inner hin)⟩, ?_⟩
    · simpa using hb _ (mem_map_of_mem ho)
    · exact mainScript?_file h hn ((Uri.leads_home hs).iterate depth) (hna ▸ by simp) hf
  · rw [project.mainScript?_eq h hs hn, findSome?_eq_none_iff]
    simp only [mem_range, hnone]
  · obtain ⟨vs, hvs⟩ := Option.isSome_iff_exists.mp hvs
    have hfi : v.fileAbove = u.fileAbove := by
      funext depth name
      rw [Uri.fileAbove, Uri.fileAbove, Uri.file, Uri.file, Uri.within, Uri.within, hsc, ha, hh]
    rw [project.mainScript?_eq h hs hn, project.mainScript?_eq hv hvs hn, hfi]

/-- A script two directories below the main script, whose name comes second. -/
theorem mainScript?_nearest_below :
    let uri : Uri := ⟨"file:///C:/tale/parts/one.ink"⟩
    let main : Uri := ⟨"file:///C:/tale/start.ink"⟩
    let project : Project :=
      { store := ⟨fun _ ↦ default, 0, Table.empty, {}⟩
        workspace := ({ extensions := ["ink"] } : Workspace).addAll [uri, main]
        mainScriptNames := ["main.ink", "start.ink"] }
    uri.IsComposed ∧ uri.segments?.isSome = true ∧
      (∀ name ∈ project.mainScriptNames, Uri.IsName name.toList) ∧
      project.mainScript? uri = some main ∧ project.mainScript? main = some main := by
  intro uri main project
  have hc : uri.IsComposed := by decide +kernel
  have hs : uri.segments?.isSome = true := by decide +kernel
  have hn : ∀ name ∈ project.mainScriptNames, Uri.IsName name.toList := by decide +kernel
  have h : project.mainScript? uri = some main := by decide +kernel
  exact ⟨hc, hs, hn, h, ((mainScript?_nearest project uri hc hs hn).1 main h).2.2⟩

end Project

end StoryScript
