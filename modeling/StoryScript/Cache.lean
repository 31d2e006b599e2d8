import StoryScript.Failure
import StoryScript.Program.Basic

/-!
What is known of each document's compiles: the last program that covered it, the version that is
being compiled, and the version that the program reflects. Callers that ask for a version that is
being compiled already wait for it; each of them holds a ticket.
-/

namespace StoryScript

/-- A completed program, and how many were completed before it. -/
structure Snapshot where
  number : Nat
  program : Program
deriving DecidableEq, Inhabited

/-- The compiles of one document. -/
structure ProgramState where
  /-- The last program that covered the document. -/
  snapshot : Option Snapshot := none
  /-- The version that is being compiled. -/
  compiling : Option Version := none
  /-- The document's version in the last program. -/
  compiled : Option Version := none
deriving DecidableEq, Inhabited

/-- How a compile proceeds. -/
inductive Plan where
  /-- Nothing has changed since this program. -/
  | cached (snapshot : Snapshot)
  /-- A compile of the version is under way, and a ticket waits for it. -/
  | join (ticket : Nat)
  /-- The caller has to compile. -/
  | compile
deriving DecidableEq, Inhabited

/-- What a ticket waited for. -/
structure Settlement where
  ticket : Nat
  result : Except Failure Snapshot

/-- How often plans were answered in each way, and how many compiles failed. -/
structure CacheCounts where
  hits : Nat := 0
  compiles : Nat := 0
  joins : Nat := 0
  failures : Nat := 0
deriving DecidableEq, Inhabited

def CacheCounts.toList (counts : CacheCounts) : List Nat :=
  [counts.hits, counts.compiles, counts.joins, counts.failures]

structure Cache where
  states : Table Uri ProgramState := Table.empty
  /-- The tickets that wait for a document, first come first. -/
  waiting : Table Uri (List Nat) := Table.empty
  counts : CacheCounts := {}
  /-- How many programs have been completed. -/
  completed : Nat := 0
deriving DecidableEq, Inhabited

namespace Cache

def empty : Cache := {}

def state? (cache : Cache) (uri : Uri) : Option ProgramState :=
  cache.states.get? uri

def snapshot? (cache : Cache) (uri : Uri) : Option Snapshot :=
  (cache.state? uri).bind ProgramState.snapshot

def compiled? (cache : Cache) (uri : Uri) : Option Version :=
  (cache.state? uri).bind ProgramState.compiled

def compiling? (cache : Cache) (uri : Uri) : Option Version :=
  (cache.state? uri).bind ProgramState.compiling

/-- The tickets that wait for a document. -/
def tickets (cache : Cache) (uri : Uri) : List Nat :=
  (cache.waiting.get? uri).getD []

/-- Whether one of some documents has another version than its last program reflects. One that was
never compiled has. -/
def anyChanged (cache : Cache) (live : List (Uri × Version)) : Bool :=
  live.any fun (uri, version) => cache.compiled? uri ≠ some version

/-- Decides how a compile of a document's version proceeds. A caller that has to compile must
`complete` or `abandon` the compile. -/
def plan (cache : Cache) (uri : Uri) (version : Version) (force changed : Bool) : Plan × Cache :=
  let state := (cache.state? uri).getD {}
  let counts := cache.counts
  let known := { cache with states := cache.states.insert uri state }
  match if force || changed then none else state.snapshot with
  | some snapshot =>
    (.cached snapshot, { known with counts := { counts with hits := counts.hits + 1 } })
  | none =>
    if !force && state.compiling.any fun running => version ≤ running then
      (.join counts.joins,
        { known with
          waiting := cache.waiting.insert uri (cache.tickets uri ++ [counts.joins])
          counts := { counts with joins := counts.joins + 1 } })
    else
      (.compile,
        { known with
          states := cache.states.insert uri { state with compiling := some version }
          counts := { counts with compiles := counts.compiles + 1 } })

/-- Gives a document its program. Who waits for the document gets the program too. -/
def settle (cache : Cache) (snapshot : Snapshot) (uri : Uri) : List Settlement × Cache :=
  ((cache.tickets uri).map fun ticket => ⟨ticket, .ok snapshot⟩,
    { cache with
      states := cache.states.insert uri
        { snapshot := some snapshot
          compiling := none
          compiled := snapshot.program.versionOf? uri }
      waiting := cache.waiting.erase uri })

/-- Gives several documents their program. -/
def settleAll (cache : Cache) (snapshot : Snapshot) : List Uri → List Settlement × Cache
  | [] => ([], cache)
  | uri :: rest =>
    let (first, cache) := cache.settle snapshot uri
    let (later, cache) := cache.settleAll snapshot rest
    (first ++ later, cache)

/-- The documents that a completed program settles: its scripts that are tracked, and the one that
was asked for. -/
def settledBy (program : Program) (requested : Option Uri) (tracked : Uri → Bool) : List Uri :=
  let scripts := program.scripts.keys.filter fun uri => requested = some uri || tracked uri
  scripts ++ requested.toList.filter fun uri => uri ∉ scripts

/-- Records a completed program. -/
def complete (cache : Cache) (program : Program) (requested : Option Uri) (tracked : Uri → Bool) :
    List Settlement × Cache :=
  let snapshot : Snapshot := ⟨cache.completed, program⟩
  { cache with completed := cache.completed + 1 }.settleAll snapshot
    (settledBy program requested tracked)

/-- What the tickets get that wait for a document whose compile came to nothing. -/
def rejections (cache : Cache) (uri : Uri) : List Settlement :=
  (cache.tickets uri).map fun ticket => ⟨ticket, .error (.abandoned uri.text)⟩

/-- Gives up a document's compile. -/
def abandon (cache : Cache) (uri : Uri) : List Settlement × Cache :=
  let states := match cache.state? uri with
    | some state => cache.states.insert uri { state with compiling := none }
    | none => cache.states
  (cache.rejections uri,
    { cache with
      states
      waiting := cache.waiting.erase uri
      counts := { cache.counts with failures := cache.counts.failures + 1 } })

/-- Forgets a document. -/
def remove (cache : Cache) (uri : Uri) : List Settlement × Cache :=
  (cache.rejections uri,
    { cache with states := cache.states.erase uri, waiting := cache.waiting.erase uri })

/-- Forgets all documents. -/
def clear (cache : Cache) : List Settlement × Cache :=
  (cache.waiting.keys.flatMap cache.rejections,
    { cache with states := Table.empty, waiting := Table.empty })

end Cache

end StoryScript
