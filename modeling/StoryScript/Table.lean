/-!
Tables sorted by key. Keys are ordered by the text that names them, and each key has one entry.
-/

namespace StoryScript

/-- Keys that are ordered by a text. -/
class Named (κ : Type) where
  name : κ → String

instance : Named String := ⟨id⟩

/-- The order of two entries: by the names of their keys, which differ. -/
def Table.Precedes {κ β : Type} [Named κ] (first second : κ × β) : Prop :=
  Named.name first.1 ≤ Named.name second.1 ∧ first.1 ≠ second.1

/-- A finite map whose entries stand in the order of their keys' names. -/
structure Table (κ β : Type) [Named κ] where
  entries : List (κ × β)
  sorted : entries.Pairwise Table.Precedes

namespace Table

variable {κ β : Type} [Named κ]

instance [DecidableEq κ] [DecidableEq β] : DecidableEq (Table κ β) := fun first second =>
  if h : first.entries = second.entries then
    isTrue (by cases first; cases second; simp_all)
  else isFalse fun heq => h (by rw [heq])

def empty : Table κ β := ⟨[], List.Pairwise.nil⟩

instance : Inhabited (Table κ β) := ⟨empty⟩

/-- The keys, in order. -/
def keys (table : Table κ β) : List κ :=
  table.entries.map Prod.fst

def size (table : Table κ β) : Nat :=
  table.entries.length

def isEmpty (table : Table κ β) : Bool :=
  table.entries.isEmpty

variable [DecidableEq κ]

def get? (table : Table κ β) (key : κ) : Option β :=
  (table.entries.find? fun entry => entry.1 = key).map Prod.snd

def contains (table : Table κ β) (key : κ) : Bool :=
  table.entries.any fun entry => entry.1 = key

/-- A sorted list of entries with one entry added, or replaced. -/
def insertEntry (key : κ) (value : β) : List (κ × β) → List (κ × β)
  | [] => [(key, value)]
  | entry :: rest =>
    if key = entry.1 then (key, value) :: rest
    else if Named.name key < Named.name entry.1 then (key, value) :: entry :: rest
    else entry :: insertEntry key value rest

theorem mem_insertEntry {key : κ} {value : β} {entries : List (κ × β)} {entry : κ × β}
    (h : entry ∈ insertEntry key value entries) : entry = (key, value) ∨ entry ∈ entries := by
  induction entries with
  | nil => simpa [insertEntry] using h
  | cons first rest ih =>
    unfold insertEntry at h
    split at h
    · rcases List.mem_cons.1 h with h | h
      · exact Or.inl h
      · exact Or.inr (List.mem_cons_of_mem _ h)
    · split at h
      · exact List.mem_cons.1 h
      · rcases List.mem_cons.1 h with h | h
        · exact Or.inr (h ▸ List.mem_cons_self)
        · exact (ih h).imp_right (List.mem_cons_of_mem _)

theorem pairwise_insertEntry (key : κ) (value : β) {entries : List (κ × β)}
    (h : entries.Pairwise Precedes) : (insertEntry key value entries).Pairwise Precedes := by
  induction entries with
  | nil => simp [insertEntry]
  | cons first rest ih =>
    obtain ⟨hfirst, hrest⟩ := List.pairwise_cons.1 h
    unfold insertEntry
    split
    next heq =>
      refine List.pairwise_cons.2 ⟨fun entry hentry => ?_, hrest⟩
      have hbefore := hfirst entry hentry
      exact ⟨by rw [heq]; exact hbefore.1, by rw [heq]; exact hbefore.2⟩
    next hne =>
      split
      next hlt =>
        refine List.pairwise_cons.2 ⟨fun entry hentry => ?_, h⟩
        have hle : Named.name first.1 ≤ Named.name entry.1 := by
          rcases List.mem_cons.1 hentry with rfl | hentry
          · exact String.le_refl _
          · exact (hfirst entry hentry).1
        refine ⟨String.not_lt.1 fun hgt => ?_, fun heq => ?_⟩
        · exact String.not_le.2 hlt (String.le_trans hle (String.not_lt.1 fun hcontra =>
            String.lt_irrefl _ (String.lt_trans hgt hcontra)))
        · exact String.not_le.2 hlt (by rw [show key = entry.1 from heq]; exact hle)
      next hge =>
        refine List.pairwise_cons.2 ⟨fun entry hentry => ?_, ih hrest⟩
        rcases mem_insertEntry hentry with rfl | hentry
        · exact ⟨String.not_lt.1 hge, fun heq => hne heq.symm⟩
        · exact hfirst entry hentry

/-- The table with an entry added, or replaced. -/
def insert (table : Table κ β) (key : κ) (value : β) : Table κ β :=
  ⟨insertEntry key value table.entries, pairwise_insertEntry key value table.sorted⟩

/-- The table without a key. -/
def erase (table : Table κ β) (key : κ) : Table κ β :=
  ⟨table.entries.filter fun entry => entry.1 ≠ key, table.sorted.filter _⟩

/-- The table with the value of a key replaced by a function of what it was. -/
def alter (table : Table κ β) (key : κ) (update : Option β → β) : Table κ β :=
  table.insert key (update (table.get? key))

/-- The table of a list of entries, the last one for each key. -/
def ofList (entries : List (κ × β)) : Table κ β :=
  entries.foldl (fun table entry => table.insert entry.1 entry.2) empty

/-- The table with each value replaced by a function of the entry. -/
def map {γ : Type} (table : Table κ β) (f : κ → β → γ) : Table κ γ :=
  ⟨table.entries.map fun entry => (entry.1, f entry.1 entry.2),
    List.pairwise_map.2 (table.sorted.imp fun {_ _} h => ⟨h.1, h.2⟩)⟩

end Table

/-- A sorted set of keys. -/
abbrev Keys (κ : Type) [Named κ] := Table κ Unit

namespace Keys

variable {κ : Type} [Named κ] [DecidableEq κ]

def add (set : Keys κ) (key : κ) : Keys κ :=
  Table.insert set key ()

def ofList (keys : List κ) : Keys κ :=
  keys.foldl add Table.empty

end Keys

end StoryScript
