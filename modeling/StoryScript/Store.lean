import StoryScript.Program.Source

/-!
The documents that are open in the editor, each with its annotations. A document may not exceed a
number of bytes.
-/

namespace StoryScript

/-- An open document: its text, and the characters that edits are applied to. -/
structure Document where
  version : Version
  text : String
  annotations : Annotations
  rope : List Char := text.toList
  rope_eq : rope = text.toList := by rfl
deriving DecidableEq

instance : Inhabited Document := ⟨{ version := 0, text := "", annotations := default }⟩

/-- How often documents have been opened, changed, closed and refused. -/
structure StoreCounts where
  opens : Nat := 0
  changes : Nat := 0
  closes : Nat := 0
  rejected : Nat := 0
deriving DecidableEq, Inhabited

structure Store where
  /-- Finds the annotations of a document. -/
  annotate : Annotator
  /-- The most bytes that a document may have. -/
  maxSize : Nat
  documents : Table Uri Document := Table.empty
  counts : StoreCounts := {}

namespace Store

def get? (store : Store) (uri : Uri) : Option Document :=
  store.documents.get? uri

def contains (store : Store) (uri : Uri) : Bool :=
  store.documents.contains uri

def version? (store : Store) (uri : Uri) : Option Version :=
  (store.get? uri).map Document.version

/-- The versions of all open documents. -/
def versions (store : Store) : List (Uri × Version) :=
  store.documents.entries.map fun (uri, document) => (uri, document.version)

def uris (store : Store) : List Uri :=
  store.documents.keys

/-- Puts a text in place of a document. -/
def put (store : Store) (uri : Uri) (version : Version) (text : String)
    (rope : List Char := text.toList) (rope_eq : rope = text.toList := by rfl) :
    Table Uri Document :=
  store.documents.insert uri { version, text, annotations := store.annotate text, rope, rope_eq }

/-- Whether a text is too large to be kept. -/
def refuses (store : Store) (text : List Char) : Bool :=
  store.maxSize < Text.byteLength text

/-- The store after a text was refused. -/
def reject (store : Store) : Store :=
  { store with counts := { store.counts with rejected := store.counts.rejected + 1 } }

/-- Opens a document, or opens it afresh. Tells whether it was accepted. -/
def open? (store : Store) (uri : Uri) (version : Version) (text : String) : Bool × Store :=
  if store.refuses text.toList then (false, store.reject)
  else
    (true, { store with
      documents := store.put uri version text
      counts := { store.counts with opens := store.counts.opens + 1 } })

/-- Applies edits to a document. Tells whether they were accepted: the document has to be open,
and the result may not be too large. -/
def change? (store : Store) (uri : Uri) (version : Version) (changes : List Change) :
    Bool × Store :=
  match store.get? uri with
  | none => (false, store)
  | some document =>
    let rope := Change.applyAll document.rope changes
    if store.refuses rope then (false, store.reject)
    else
      (true, { store with
        documents := store.put uri version (String.ofList rope) rope String.toList_ofList.symm
        counts := { store.counts with changes := store.counts.changes + 1 } })

/-- Closes a document. Tells whether it was open. -/
def close? (store : Store) (uri : Uri) : Bool × Store :=
  if store.contains uri then
    (true, { store with
      documents := store.documents.erase uri
      counts := { store.counts with closes := store.counts.closes + 1 } })
  else (false, store)

end Store

end StoryScript
