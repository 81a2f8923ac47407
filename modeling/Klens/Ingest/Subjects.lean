import Klens.Ingest.Runner
import Klens.Schemas.Client
import Klens.Store.Bus

/-! The lanes that follow a registry: its subjects, and the ids behind their
versions. -/
namespace Klens.Ingest
open Klens.Schemas Klens.Store Std

/-- `SubjectLane::fetch`: the previous table is what the sweep knows. -/
def fetchSubjects (sweep : SubjectSweep) (previous : Option SubjectTable) :
    Except String SubjectTable :=
  (sweep.subjects (knownLatest (previous.getD .empty))).map SubjectTable.assemble

/-- The lane after some sweeps, the latest first. -/
def subjectPolls : List SubjectSweep → Lane SubjectTable
  | [] => .new
  | sweep :: earlier =>
    (poll SubjectsDelta.between (subjectPolls earlier)
      (.untimed (fetchSubjects sweep (subjectPolls earlier).load))).1

def subjectDelta (sweep : SubjectSweep) (earlier : List SubjectSweep) : Option SubjectsDelta :=
  (poll SubjectsDelta.between (subjectPolls earlier)
    (.untimed (fetchSubjects sweep (subjectPolls earlier).load))).2

/-- The entry of a subject in the table after some sweeps. -/
def subjectEntry (sweeps : List SubjectSweep) (name : String) : Option SubjectInfo :=
  ((subjectPolls sweeps).load.getD .empty).subjects[name]?

/-- What a poll of the schema ids runs into: the subjects it was called with,
the registry, the reads that find no answer and the requests that fail. -/
structure SchemaIdPoll where
  subjects : SubjectTable
  registry : Registry
  unread : String → Int → Bool
  checking : Except String Unit
  reading : Except String Unit

/-- The ids of each subject, and the versions still to be read. -/
structure Collected where
  subjects : ExtTreeMap String (ExtTreeMap Int Int)
  wanted : List (String × Int)

namespace SchemaIdPoll

abbrev Held := ExtTreeMap Int Int

def heldFor (previous : Option SchemaIdTable) (subject : String) : Option Held :=
  previous.bind (·.subjects[subject]?)

/-- The version of each subject that stands in for one not held: the newest
held, when the latest is not. -/
def checks (subjects : SubjectTable) (previous : Option SchemaIdTable) : List (String × Int) :=
  subjects.subjects.toList.filterMap fun (subject, info) => do
    let held ← heldFor previous subject
    if held.contains info.latestVersion then none
    else (held.maxKey?).map fun version => (subject, version)

def confirmed (previous : Option SchemaIdTable) (found : List (String × RegisteredVersion)) :
    List String :=
  (found.filter fun (subject, found) =>
    decide ((heldFor previous subject).bind (·[found.version]?) = some found.id)).map Prod.fst

/-- The held ids of a subject, when they may be kept. -/
def keptFor (previous : Option SchemaIdTable) (confirmed : List String) (subject : String)
    (info : SubjectInfo) : Option Held :=
  (heldFor previous subject).filter fun held =>
    match held[info.latestVersion]? with
    | some id => id = info.id
    | none => confirmed.contains subject

def knownId (kept : Option Held) (info : SubjectInfo) (version : Int) : Option Int :=
  if version = info.latestVersion then some info.id else kept.bind (·[version]?)

def collectVersion (kept : Option Held) (subject : String) (info : SubjectInfo)
    (state : Held × List (String × Int)) (version : Int) : Held × List (String × Int) :=
  match knownId kept info version with
  | some id => (state.1.insert version id, state.2)
  | none => (state.1, state.2 ++ [(subject, version)])

def collect (previous : Option SchemaIdTable) (confirmed : List String) (state : Collected)
    (entry : String × SubjectInfo) : Collected :=
  let kept := keptFor previous confirmed entry.1 entry.2
  let ids := state.subjects[entry.1]?.getD ∅
  let (ids, wanted) :=
    entry.2.versions.foldl (collectVersion kept entry.1 entry.2) (ids, state.wanted)
  { subjects := state.subjects.insert entry.1 ids, wanted }

def insertFound (subjects : ExtTreeMap String Held) (found : String × RegisteredVersion) :
    ExtTreeMap String Held :=
  subjects.insert found.1 ((subjects[found.1]?.getD ∅).insert found.2.version found.2.id)

def readChecks (poll : SchemaIdPoll) (previous : Option SchemaIdTable) :
    Except String (List String) :=
  let checks := checks poll.subjects previous
  if checks.isEmpty then .ok []
  else do
    poll.checking
    .ok (confirmed previous (versionIds poll.registry poll.unread checks))

def readWanted (poll : SchemaIdPoll) (collected : Collected) : Except String SchemaIdTable :=
  if collected.wanted.isEmpty then .ok { subjects := collected.subjects }
  else do
    poll.reading
    let found := versionIds poll.registry poll.unread collected.wanted
    .ok { subjects := found.foldl insertFound collected.subjects }

/-- `SchemaIdLane::fetch`. -/
def fetch (poll : SchemaIdPoll) (previous : Option SchemaIdTable) :
    Except String SchemaIdTable := do
  let confirmed ← poll.readChecks previous
  poll.readWanted (poll.subjects.subjects.toList.foldl (collect previous confirmed)
    { subjects := ∅, wanted := [] })

end SchemaIdPoll

/-- The lane after some polls, the latest first. -/
def schemaIdPolls : List SchemaIdPoll → Lane SchemaIdTable
  | [] => .new
  | next :: earlier =>
    (poll SubjectsDelta.ofIds (schemaIdPolls earlier)
      (.untimed (next.fetch (schemaIdPolls earlier).load))).1

end Klens.Ingest
