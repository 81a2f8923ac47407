import Klens.Scan.Read

/-! The export: page after page of one query, over watermarks read once when it
opens. -/
namespace Klens.Scan

structure Export where
  session : ClusterSession
  request : PageRequest
  span : LogSpan
  done : Bool

namespace Export

def «open» (session : ClusterSession) (broker : Broker) (query : RecordQuery)
    (limits : RecordLimits) : Except KafkaError Export := do
  let request ← openRequest query limits
  let span ← resolveSpan broker request.query
  .ok { session, request, span, done := false }

/-- The cursor of the page, read back from its text. -/
def nextCursor (page : RecordPage) : Except KafkaError (Option RecordCursor) :=
  match page.nextCursor with
  | none => .ok none
  | some text => ((RecordCursor.parse text).mapError KafkaError.query).map some

variable [Crates]

/-- The records of the next page, none once the export is done. -/
def next (source : Export) (schedule : Schedule) :
    Except KafkaError (Option (List Record) × Export) :=
  if source.done then .ok (none, source)
  else do
    let page ← source.request.fetch source.session source.span schedule
    let next ← nextCursor page
    if next.isSome && next == source.request.query.cursor then .error .timeout
    else
      .ok (some page.records,
        { source with request := source.request.setCursor next, done := next.isNone })

/-- The batches of successive calls, up to the first that returns no records. -/
def batches (source : Export) : List Schedule → List (List Record)
  | [] => []
  | schedule :: rest => match source.next schedule with
    | .ok (some records, source) => records :: source.batches rest
    | _ => []

end Export
end Klens.Scan
