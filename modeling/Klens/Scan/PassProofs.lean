import Klens.Scan.Log
import Klens.Scan.PipelineProofs
import Klens.Scan.PlanProofs

/-! One pass over a set of windows. `Reads` relates what the scan accepted to
what the consumer delivered; it holds after every record and every idle turn,
so it holds when the pass is over, cut or not. -/
namespace Klens.Scan
open Klens.Lib

/-- What was accepted from one partition. -/
def taken (ranked : List (Ranked RawRecord)) (partition : Int) : List RawRecord :=
  ofPartition partition (ranked.map Prod.snd)

theorem ofPartition_append (partition : Int) (a b : List RawRecord) :
    ofPartition partition (a ++ b) =
      ofPartition partition a ++ ofPartition partition b :=
  List.filter_append ..

/-- What is polled in the log's order is in its order up to any point. -/
theorem ofPartition_front {partition : Int} {front rest rows : List RawRecord}
    (whole : ofPartition partition (front ++ rest) <+: rows) : ofPartition partition front <+: rows := by
  rw [ofPartition_append] at whole
  exact (List.prefix_append ..).trans whole

theorem ofPartition_singleton (raw : RawRecord) : ofPartition raw.partition [raw] = [raw] := by
  simp [ofPartition]

theorem ofPartition_singleton_ne {raw : RawRecord} {partition : Int}
    (other : raw.partition ≠ partition) : ofPartition partition [raw] = [] := by
  simp [ofPartition, other]

theorem mem_ofPartition {partition : Int} {records : List RawRecord} {raw : RawRecord} :
    raw ∈ ofPartition partition records ↔ raw ∈ records ∧ raw.partition = partition := by
  simp [ofPartition]

theorem taken_snoc (ranked : List (Ranked RawRecord)) (key : SortKey) (raw : RawRecord)
    (partition : Int) : taken (ranked ++ [(key, raw)]) partition =
      taken ranked partition ++ ofPartition partition [raw] := by
  simp only [taken, List.map_append, ofPartition_append, List.map_cons, List.map_nil]

namespace Log
variable {log : Log} {window : PartitionWindow}

theorem mem_startingFrom {raw : RawRecord} : raw ∈ log.startingFrom window ↔
    raw ∈ log.records window.partition ∧ window.start ≤ raw.offset := by
  simp [startingFrom]

theorem mem_inWindow {raw : RawRecord} : raw ∈ log.inWindow window ↔
    raw ∈ log.records window.partition ∧ window.start ≤ raw.offset ∧ raw.offset < window.stop := by
  simp [inWindow, mem_startingFrom, and_assoc]

theorem rising_startingFrom (log : Log) (window : PartitionWindow) :
    (log.startingFrom window).Pairwise (·.offset < ·.offset) :=
  (log.rising window.partition).filter _

/-- The records delivered first are those inside the window, once every record
inside it has been delivered and none beyond it. -/
theorem inWindow_of_delivered {first : List RawRecord} (delivered : first <+: log.startingFrom window)
    (below : ∀ raw ∈ first, raw.offset < window.stop)
    (all : ∀ raw ∈ log.startingFrom window, raw.offset < window.stop → raw ∈ first) :
    log.inWindow window = first := by
  obtain ⟨rest, split⟩ := delivered
  have rising := rising_startingFrom log window
  rw [← split] at rising
  obtain ⟨_, _, after⟩ := List.pairwise_append.mp rising
  have beyond : rest.filter (fun raw => raw.offset < window.stop) = [] := by
    rw [List.filter_eq_nil_iff]
    intro raw member inside
    have found : raw ∈ first := all raw (by rw [← split]; simp [member]) (by simpa using inside)
    exact lt_irrefl _ (after raw found raw member)
  unfold inWindow
  rw [← split, List.filter_append, beyond, List.append_nil]
  exact List.filter_eq_self.mpr fun raw member => by simpa using below raw member

end Log

/-- How the keys of accepted records relate to the records. -/
structure Keyed (newest : Offsets) (ranked : List (Ranked RawRecord)) : Prop where
  placed : ∀ entry ∈ ranked, entry.1.partition = entry.2.partition ∧ entry.1.offset = entry.2.offset
  rising : ranked.Pairwise fun first second => first.2.partition = second.2.partition →
    first.2.offset < second.2.offset ∧ first.1.timestamp ≤ second.1.timestamp
  /-- A key carries the timestamp of its record or of one before it. -/
  source : ∀ entry ∈ ranked, entry.2.timestamp ≤ entry.1.timestamp ∧
    ∃ other ∈ ranked, other.2.partition = entry.2.partition ∧ other.2.offset ≤ entry.2.offset ∧
      other.2.timestamp = entry.1.timestamp
  newest_covers : ∀ entry ∈ ranked, ∃ latest, newest[entry.2.partition]? = some latest ∧
    entry.1.timestamp ≤ latest
  newest_source : ∀ partition latest, newest[partition]? = some latest →
    ∃ entry ∈ ranked, entry.2.partition = partition ∧ entry.2.timestamp = latest

/-- What holds between the polls of a pass: `seen` is what was delivered so far. -/
structure Reads (log : Log) (windows : List PartitionWindow) (seen : List RawRecord)
    (scan : WindowScan) (ranked : List (Ranked RawRecord)) : Prop where
  delivered : ∀ window ∈ windows,
    ofPartition window.partition seen <+: log.startingFrom window
  underway : ∀ partition range, scan.remaining[partition]? = some range →
    (⟨partition, range.1, range.2⟩ : PartitionWindow) ∈ windows ∧
      taken ranked partition = ofPartition partition seen ∧
      ∀ raw ∈ ofPartition partition seen, raw.offset < range.2
  settled : ∀ window ∈ windows, window.partition ∈ scan.completed →
    taken ranked window.partition = log.inWindow window
  split : ∀ window ∈ windows,
    scan.remaining[window.partition]? = some (window.start, window.stop) ∨
      window.partition ∈ scan.completed
  apart : ∀ partition ∈ scan.completed, partition ∉ scan.remaining
  counted : scan.completed.size + scan.remaining.size = scan.planned
  inside : ∀ entry ∈ ranked, ∃ window ∈ windows, window.partition = entry.2.partition
  known : ∀ partition ∈ scan.completed, ∃ window ∈ windows, window.partition = partition
  keyed : Keyed scan.newest ranked

namespace WindowScan
variable {scan : WindowScan} {partition : Int}

theorem finish_of_mem (member : partition ∈ scan.remaining) : scan.finish partition =
    { scan with
      remaining := scan.remaining.erase partition
      completed := scan.completed.insert partition } := by
  simp [finish, member]

theorem finish_of_not_mem (gone : partition ∉ scan.remaining) : scan.finish partition = scan := by
  simp [finish, gone]

/-- A partition that is finished moves from what remains to what is completed. -/
theorem size_finish (apart : ∀ partition ∈ scan.completed, partition ∉ scan.remaining)
    (partition : Int) : (scan.finish partition).completed.size + (scan.finish partition).remaining.size =
      scan.completed.size + scan.remaining.size := by
  by_cases member : partition ∈ scan.remaining
  · have fresh : partition ∉ scan.completed := fun done => apart partition done member
    have positive : scan.remaining.size ≠ 0 := by
      intro zero
      have empty : scan.remaining = ∅ := Std.ExtTreeMap.eq_empty_iff_size_eq_zero.mpr zero
      simp [empty] at member
    have grown : (scan.completed.insert partition).size = scan.completed.size + 1 := by
      simp [Std.ExtTreeSet.size_insert, fresh]
    have shrunk : (scan.remaining.erase partition).size = scan.remaining.size - 1 := by
      simp [Std.ExtTreeMap.size_erase, member]
    rw [finish_of_mem member]
    dsimp only
    omega
  · rw [finish_of_not_mem member]

/-- Finishing a partition and ranking a record concern different parts of the scan. -/
theorem rank_finish (raw : RawRecord) : (scan.finish partition).rank raw =
    ((scan.rank raw).1, (scan.rank raw).2.finish partition) := by
  by_cases member : partition ∈ scan.remaining
  · simp [finish, rank, member]
  · simp [finish, rank, member]

end WindowScan

/-- A record of a partition that is still being read. -/
theorem ingestStep_open {scan : WindowScan} {ranked : List (Ranked RawRecord)} {raw : RawRecord}
    {start stop : Int} (found : scan.remaining[raw.partition]? = some (start, stop)) :
    ingestStep (scan, ranked) raw =
      let next := if raw.offset ≥ stop - 1 then scan.finish raw.partition else scan
      if start ≤ raw.offset ∧ raw.offset < stop then
        ((next.rank raw).2, ranked ++ [((next.rank raw).1, raw)])
      else (next, ranked) := by
  have member : raw.partition ∈ scan.remaining := Maps.mem_of_getElem? found
  unfold ingestStep WindowScan.accept
  dsimp only
  rw [if_neg (not_not.mpr member), found]
  by_cases inside : start ≤ raw.offset ∧ raw.offset < stop
  · simp [inside]
  · have refused : (decide (start ≤ raw.offset) && decide (raw.offset < stop)) = false := by
      simpa using inside
    simp only [refused, inside, ↓reduceIte]

namespace Keyed
variable {newest : Offsets} {ranked : List (Ranked RawRecord)} {raw : RawRecord}

theorem empty : Keyed ∅ [] where
  placed := by simp
  rising := .nil
  source := by simp
  newest_covers := by simp
  newest_source := by simp

/-- The timestamp that a record of a partition is ranked under. -/
def latest (newest : Offsets) (raw : RawRecord) : Int :=
  max ((newest[raw.partition]?).getD raw.timestamp) raw.timestamp

theorem covers_latest (keyed : Keyed newest ranked) {entry : Ranked RawRecord}
    (member : entry ∈ ranked) (same : entry.2.partition = raw.partition) :
    entry.1.timestamp ≤ latest newest raw := by
  obtain ⟨before, found, le⟩ := keyed.newest_covers entry member
  rw [same] at found
  rw [latest, found]
  exact le.trans (le_max_left _ _)

theorem latest_source (keyed : Keyed newest ranked) (raw : RawRecord) :
    latest newest raw = raw.timestamp ∨ ∃ entry ∈ ranked, entry.2.partition = raw.partition ∧
      entry.2.timestamp = latest newest raw := by
  cases found : newest[raw.partition]? with
  | none => left; rw [latest, found]; simp
  | some before =>
    rw [latest, found, Option.getD_some]
    rcases le_total raw.timestamp before with older | newer
    · obtain ⟨entry, member, same, stamp⟩ := keyed.newest_source _ _ found
      exact .inr ⟨entry, member, same, by omega⟩
    · exact .inl (by omega)

/-- Ranking one more record, further along its partition than those before. -/
theorem rank {scan : WindowScan} (keyed : Keyed scan.newest ranked)
    (further : ∀ entry ∈ ranked, entry.2.partition = raw.partition → entry.2.offset < raw.offset) :
    Keyed (scan.rank raw).2.newest (ranked ++ [((scan.rank raw).1, raw)]) := by
  have key : (scan.rank raw).1 = ⟨latest scan.newest raw, raw.partition, raw.offset⟩ := rfl
  have newest : (scan.rank raw).2.newest =
      scan.newest.insert raw.partition (latest scan.newest raw) := rfl
  have least : raw.timestamp ≤ latest scan.newest raw := le_max_right _ _
  have origin := keyed.latest_source raw
  rw [key, newest]
  constructor
  · intro entry member
    rcases List.mem_append.mp member with member | member
    · exact keyed.placed entry member
    · obtain rfl := List.mem_singleton.mp member
      exact ⟨rfl, rfl⟩
  · refine List.pairwise_append.mpr ⟨keyed.rising, by simp, ?_⟩
    intro entry member last final same
    obtain rfl := List.mem_singleton.mp final
    exact ⟨further entry member same, keyed.covers_latest member same⟩
  · intro entry member
    rcases List.mem_append.mp member with member | member
    · obtain ⟨le, other, held, facts⟩ := keyed.source entry member
      exact ⟨le, other, List.mem_append_left _ held, facts⟩
    · obtain rfl := List.mem_singleton.mp member
      refine ⟨least, ?_⟩
      rcases origin with own | ⟨entry, held, same, stamp⟩
      · exact ⟨_, List.mem_append_right _ (List.mem_singleton_self _), rfl, le_refl _, own.symm⟩
      · exact ⟨entry, List.mem_append_left _ held, same, (further entry held same).le, stamp⟩
  · intro entry member
    rw [Std.ExtTreeMap.getElem?_insert]
    rcases List.mem_append.mp member with member | member
    · split
      · rename_i same
        have same : entry.2.partition = raw.partition := (compare_eq_iff_eq.mp same).symm
        exact ⟨_, rfl, keyed.covers_latest member same⟩
      · exact keyed.newest_covers entry member
    · obtain rfl := List.mem_singleton.mp member
      simp
  · intro partition found lookup
    rw [Std.ExtTreeMap.getElem?_insert] at lookup
    split at lookup
    · rename_i same
      obtain rfl := compare_eq_iff_eq.mp same
      obtain rfl := Option.some.inj lookup
      rcases origin with own | ⟨entry, held, facts⟩
      · exact ⟨_, List.mem_append_right _ (List.mem_singleton_self _), rfl, own.symm⟩
      · exact ⟨entry, List.mem_append_left _ held, facts⟩
    · obtain ⟨entry, held, facts⟩ := keyed.newest_source partition found lookup
      exact ⟨entry, List.mem_append_left _ held, facts⟩

end Keyed

namespace Reads
variable {log : Log} {windows : List PartitionWindow} {seen : List RawRecord} {scan : WindowScan}
  {ranked : List (Ranked RawRecord)}

/-- A record of a partition that is not being read changes nothing. -/
theorem ignore (reads : Reads log windows seen scan ranked) {raw : RawRecord}
    (gone : raw.partition ∉ scan.remaining)
    (delivered : ∀ window ∈ windows,
      ofPartition window.partition (seen ++ [raw]) <+: log.startingFrom window) :
    Reads log windows (seen ++ [raw]) scan ranked := by
  refine { reads with delivered, underway := ?_ }
  intro partition range found
  have other : raw.partition ≠ partition := by
    rintro rfl
    exact gone (Maps.mem_of_getElem? found)
  rw [ofPartition_append, ofPartition_singleton_ne other, List.append_nil]
  exact reads.underway partition range found

/-- A partition can be finished once its window has been delivered. -/
theorem finish (reads : Reads log windows seen scan ranked) (partition : Int)
    (all : ∀ range, scan.remaining[partition]? = some range →
      ∀ raw ∈ log.startingFrom ⟨partition, range.1, range.2⟩, raw.offset < range.2 → raw ∈ seen) :
    Reads log windows seen (scan.finish partition) ranked := by
  by_cases member : partition ∈ scan.remaining
  swap
  · rwa [WindowScan.finish_of_not_mem member]
  obtain ⟨range, found⟩ := Maps.mem_iff_exists.mp member
  obtain ⟨planned, same, below⟩ := reads.underway partition range found
  have filled : taken ranked partition = log.inWindow ⟨partition, range.1, range.2⟩ := by
    rw [same, Log.inWindow_of_delivered (reads.delivered _ planned) below]
    intro raw started inside
    refine mem_ofPartition.mpr ⟨all range found raw started inside, ?_⟩
    exact log.placed _ raw (Log.mem_startingFrom.mp started).1
  rw [WindowScan.finish_of_mem member]
  constructor
  · exact reads.delivered
  · intro other otherRange lookup
    rw [Std.ExtTreeMap.getElem?_erase] at lookup
    split at lookup
    · contradiction
    · exact reads.underway other otherRange lookup
  · intro window listed done
    rcases Std.ExtTreeSet.mem_insert.mp done with equal | done
    · have equal : partition = window.partition := compare_eq_iff_eq.mp equal
      rcases reads.split window listed with lookup | done
      · rw [← equal, found] at lookup
        obtain rfl := Option.some.inj lookup
        obtain ⟨_, start, stop⟩ := window
        obtain rfl := equal
        exact filled
      · exact absurd (equal ▸ member) (reads.apart _ done)
    · exact reads.settled window listed done
  · intro window listed
    rw [Std.ExtTreeMap.getElem?_erase]
    split
    · rename_i equal
      exact .inr (Std.ExtTreeSet.mem_insert.mpr (.inl equal))
    · refine (reads.split window listed).imp id fun done => ?_
      exact Std.ExtTreeSet.mem_insert.mpr (.inr done)
  · intro other done lookup
    obtain ⟨different, lookup⟩ := Std.ExtTreeMap.mem_erase.mp lookup
    rcases Std.ExtTreeSet.mem_insert.mp done with equal | done
    · exact different equal
    · exact reads.apart other done lookup
  · have moved := WindowScan.size_finish reads.apart partition
    rw [WindowScan.finish_of_mem member] at moved
    exact moved.trans reads.counted
  · exact reads.inside
  · intro other done
    rcases Std.ExtTreeSet.mem_insert.mp done with equal | done
    · exact ⟨_, planned, compare_eq_iff_eq.mp equal⟩
    · exact reads.known other done
  · exact reads.keyed

/-- A record inside the window of its partition is taken. -/
theorem take (reads : Reads log windows seen scan ranked) {raw : RawRecord} {range : Int × Int}
    (found : scan.remaining[raw.partition]? = some range) (inside : raw.offset < range.2)
    (delivered : ∀ window ∈ windows,
      ofPartition window.partition (seen ++ [raw]) <+: log.startingFrom window) :
    Reads log windows (seen ++ [raw]) (scan.rank raw).2
      (ranked ++ [((scan.rank raw).1, raw)]) := by
  obtain ⟨planned, same, below⟩ := reads.underway raw.partition range found
  have further : ∀ entry ∈ ranked, entry.2.partition = raw.partition →
      entry.2.offset < raw.offset := by
    intro entry member equal
    have earlier : entry.2 ∈ ofPartition raw.partition seen := by
      rw [← same]
      exact mem_ofPartition.mpr ⟨List.mem_map_of_mem member, equal⟩
    have rising := (log.rising_startingFrom _).sublist (delivered _ planned).sublist
    rw [ofPartition_append, ofPartition_singleton] at rising
    exact (List.pairwise_append.mp rising).2.2 _ earlier raw (List.mem_singleton_self raw)
  constructor
  · exact delivered
  · intro partition other lookup
    obtain ⟨listed, equal, limit⟩ := reads.underway partition other lookup
    refine ⟨listed, ?_, ?_⟩
    · rw [taken_snoc, equal, ofPartition_append]
    · intro record member
      rw [ofPartition_append] at member
      rcases List.mem_append.mp member with member | member
      · exact limit record member
      · obtain ⟨last, owned⟩ := mem_ofPartition.mp member
        obtain rfl := List.mem_singleton.mp last
        obtain rfl := owned
        obtain rfl : range = other := Option.some.inj (found.symm.trans lookup)
        exact inside
  · intro window listed done
    have other : raw.partition ≠ window.partition := by
      intro equal
      exact reads.apart _ done (Std.ExtTreeMap.mem_iff_isSome_getElem?.mpr (by simp [← equal, found]))
    rw [taken_snoc, ofPartition_singleton_ne other, List.append_nil]
    exact reads.settled window listed done
  · exact reads.split
  · exact reads.apart
  · exact reads.counted
  · intro entry member
    rcases List.mem_append.mp member with member | member
    · exact reads.inside entry member
    · obtain rfl := List.mem_singleton.mp member
      exact ⟨_, planned, rfl⟩
  · exact reads.known
  · exact reads.keyed.rank further

/-- One polled record. -/
theorem ingestStep (reads : Reads log windows seen scan ranked) (raw : RawRecord)
    (delivered : ∀ window ∈ windows,
      ofPartition window.partition (seen ++ [raw]) <+: log.startingFrom window) :
    Reads log windows (seen ++ [raw]) (Scan.ingestStep (scan, ranked) raw).1
      (Scan.ingestStep (scan, ranked) raw).2 := by
  by_cases member : raw.partition ∈ scan.remaining
  swap
  · simpa [Scan.ingestStep, member] using reads.ignore member delivered
  obtain ⟨range, found⟩ := Maps.mem_iff_exists.mp member
  obtain ⟨start, stop⟩ := range
  obtain ⟨planned, same, below⟩ := reads.underway raw.partition _ found
  have prefixed := delivered _ planned
  rw [ofPartition_append, ofPartition_singleton] at prefixed
  obtain ⟨rest, whole⟩ := prefixed
  have rising := log.rising_startingFrom ⟨raw.partition, start, stop⟩
  rw [← whole] at rising
  have later : ∀ record ∈ rest, raw.offset < record.offset := fun record listed =>
    (List.pairwise_append.mp rising).2.2 raw (by simp) record listed
  have started : start ≤ raw.offset := by
    have member : raw ∈ log.startingFrom ⟨raw.partition, start, stop⟩ := by
      rw [← whole]
      simp
    exact (Log.mem_startingFrom.mp member).2
  by_cases inside : raw.offset < stop
  · have taken := reads.take found inside delivered
    by_cases last : stop - 1 ≤ raw.offset
    · have step : Scan.ingestStep (scan, ranked) raw =
          (((scan.rank raw).2).finish raw.partition, ranked ++ [((scan.rank raw).1, raw)]) := by
        simp only [ingestStep_open found, last, started, inside, and_self, ↓reduceIte,
          WindowScan.rank_finish]
      rw [step]
      refine taken.finish raw.partition ?_
      intro range lookup record listed short
      obtain rfl : (start, stop) = range := Option.some.inj (found.symm.trans lookup)
      rw [← whole] at listed
      rcases List.mem_append.mp listed with early | late
      · rcases List.mem_append.mp early with early | early
        · exact List.mem_append_left _ (mem_ofPartition.mp early).1
        · exact List.mem_append_right _ early
      · have after := later record late
        omega
    · have step : Scan.ingestStep (scan, ranked) raw =
          ((scan.rank raw).2, ranked ++ [((scan.rank raw).1, raw)]) := by
        simp only [ingestStep_open found, last, started, inside, and_self, ↓reduceIte]
      rw [step]
      exact taken
  · have step : Scan.ingestStep (scan, ranked) raw = (scan.finish raw.partition, ranked) := by
      have last : stop - 1 ≤ raw.offset := by omega
      simp only [ingestStep_open found, last, inside, and_false, ↓reduceIte]
    rw [step]
    have finished : Reads log windows seen (scan.finish raw.partition) ranked := by
      refine reads.finish raw.partition ?_
      intro range lookup record listed short
      obtain rfl : (start, stop) = range := Option.some.inj (found.symm.trans lookup)
      rw [← whole] at listed
      rcases List.mem_append.mp listed with early | late
      · rcases List.mem_append.mp early with early | early
        · exact (mem_ofPartition.mp early).1
        · obtain rfl := List.mem_singleton.mp early
          exact absurd short inside
      · have after := later record late
        omega
    refine finished.ignore ?_ delivered
    rw [WindowScan.finish_of_mem member]
    simp

/-- One poll. -/
theorem ingest (reads : Reads log windows seen scan ranked) (polled : List RawRecord)
    (delivered : ∀ window ∈ windows,
      ofPartition window.partition (seen ++ polled) <+: log.startingFrom window) :
    Reads log windows (seen ++ polled) (polled.foldl Scan.ingestStep (scan, ranked)).1
      (polled.foldl Scan.ingestStep (scan, ranked)).2 := by
  induction polled generalizing seen scan ranked with
  | nil => simpa using reads
  | cons raw polled ih =>
    have first : ∀ window ∈ windows,
        ofPartition window.partition (seen ++ [raw]) <+: log.startingFrom window := by
      intro window listed
      have whole := delivered window listed
      rw [List.append_cons] at whole
      exact ofPartition_front whole
    rw [List.foldl_cons, List.append_cons]
    refine ih (reads.ingestStep raw first) ?_
    simpa only [List.append_assoc, List.singleton_append] using delivered

/-- One empty poll. -/
theorem settleIdle (reads : Reads log windows seen scan ranked) {turn : Turn}
    (truthful : ∀ window ∈ windows, turn.Truthful log window seen) :
    Reads log windows seen (Scan.settleIdle scan turn) ranked := by
  unfold Scan.settleIdle
  generalize doneEq : scan.remaining.toList.filterMap _ = done
  have ready : ∀ partition ∈ done, ∀ range, scan.remaining[partition]? = some range →
      ∀ raw ∈ log.startingFrom ⟨partition, range.1, range.2⟩, raw.offset < range.2 → raw ∈ seen := by
    intro partition listed range found raw started inside
    rw [← doneEq] at listed
    obtain ⟨⟨name, other⟩, entry, chosen⟩ := List.mem_filterMap.mp listed
    have lookup := Std.ExtTreeMap.mem_toList_iff_getElem?_eq_some.mp entry
    simp only [Option.ite_none_right_eq_some, Option.some.injEq] at chosen
    obtain ⟨settled, rfl⟩ := chosen
    obtain rfl : range = other := Option.some.inj (found.symm.trans lookup)
    obtain ⟨atPosition, atEnd⟩ := truthful _ (reads.underway _ _ found).1
    unfold Scan.settled at settled
    split at settled
    · contradiction
    · rename_i position known
      split at settled
      · rename_i reached
        exact atPosition position known raw started (by omega)
      · exact atEnd (by simpa using settled) raw started
  clear doneEq
  induction done generalizing scan with
  | nil => exact reads
  | cons partition done ih =>
    rw [List.foldl_cons]
    refine ih (reads.finish partition (ready partition (by simp))) ?_
    intro other listed range found
    refine ready other (by simp [listed]) range ?_
    by_cases member : partition ∈ scan.remaining
    · rw [WindowScan.finish_of_mem member, Std.ExtTreeMap.getElem?_erase] at found
      split at found
      · contradiction
      · exact found
    · rwa [WindowScan.finish_of_not_mem member] at found

/-- Whatever the turns deliver and wherever they stop. -/
theorem accepting (reads : Reads log windows seen scan ranked) (turns : List Turn)
    (delivered : ∀ window ∈ windows,
      ofPartition window.partition (seen ++ Scan.delivered turns) <+: log.startingFrom window)
    (idle : IdleTruthful log windows seen turns) :
    ∃ seen, Reads log windows seen (Scan.accepting turns (scan, ranked)).1
      (Scan.accepting turns (scan, ranked)).2 := by
  induction turns generalizing seen scan ranked with
  | nil =>
    refine ⟨seen, ?_⟩
    unfold Scan.accepting
    split <;> exact reads
  | cons turn turns ih =>
    have rest : ∀ window ∈ windows, ofPartition window.partition
        ((seen ++ turn.records) ++ Scan.delivered turns) <+: log.startingFrom window := by
      simpa only [Scan.delivered, List.flatMap_cons, List.append_assoc] using delivered
    unfold Scan.accepting
    split
    · exact ⟨seen, reads⟩
    · dsimp only
      cases answer : turn.polled with
      | error error => exact ⟨seen, reads⟩
      | ok records =>
        have same : turn.records = records := by simp [Turn.records, answer]
        rw [same] at rest
        cases records with
        | nil =>
          rw [List.append_nil] at rest
          have later : IdleTruthful log windows seen turns := by
            simpa only [same, List.append_nil] using idle.2
          exact ih (reads.settleIdle (idle.1 same)) rest later
        | cons raw polled =>
          have now : ∀ window ∈ windows, ofPartition window.partition
              (seen ++ (raw :: polled)) <+: log.startingFrom window := fun window listed =>
            ofPartition_front (rest window listed)
          exact ih (reads.ingest (raw :: polled) now) rest (same ▸ idle.2)

end Reads

/-- A new scan is open where a window is planned that is not empty. -/
theorem remaining_new_iff {windows : List PartitionWindow}
    (single : ∀ first ∈ windows, ∀ second ∈ windows, first.partition = second.partition →
      first = second) (partition : Int) (range : Int × Int) :
    (WindowScan.new windows).remaining[partition]? = some range ↔
      (⟨partition, range.1, range.2⟩ : PartitionWindow) ∈ windows ∧ range.1 < range.2 := by
  unfold WindowScan.new
  dsimp only
  rw [Maps.getElem?_ofList]
  · simp only [List.mem_map, List.mem_filter, Prod.mk.injEq]
    constructor
    · rintro ⟨window, ⟨listed, open_⟩, rfl, rfl⟩
      exact ⟨listed, by simpa [PartitionWindow.isEmpty] using open_⟩
    · rintro ⟨listed, nonempty⟩
      exact ⟨_, ⟨listed, by simpa [PartitionWindow.isEmpty] using nonempty⟩, rfl, rfl⟩
  · refine Maps.functional_map fun left leftListed right rightListed same => ?_
    rw [single left (List.mem_of_mem_filter leftListed) right (List.mem_of_mem_filter rightListed) same]

theorem remaining_new {windows : List PartitionWindow} (planned : Planned windows) (partition : Int)
    (range : Int × Int) : (WindowScan.new windows).remaining[partition]? = some range ↔
      (⟨partition, range.1, range.2⟩ : PartitionWindow) ∈ windows := by
  rw [remaining_new_iff planned.single]
  exact and_iff_left_of_imp (planned.nonempty _)

theorem Reads.start (log : Log) {windows : List PartitionWindow} (planned : Planned windows) :
    Reads log windows [] (WindowScan.new windows) [] where
  delivered _ _ := by simp [ofPartition]
  underway partition range found :=
    ⟨(remaining_new planned partition range).mp found, rfl, by simp [ofPartition]⟩
  settled _ _ done := by simp [WindowScan.new] at done
  split window listed := .inl ((remaining_new planned _ _).mpr listed)
  apart _ done := by simp [WindowScan.new] at done
  counted := by simp [WindowScan.new]
  inside := by simp
  known _ done := by simp [WindowScan.new] at done
  keyed := .empty

theorem Keyed.distinct {newest : Offsets} {ranked : List (Ranked RawRecord)}
    (keyed : Keyed newest ranked) : (places ranked).Nodup := by
  refine List.pairwise_map.mpr (keyed.rising.imp_of_mem ?_)
  intro first second one two rises same
  obtain ⟨partition, offset⟩ := Prod.mk.inj same
  obtain ⟨onePartition, oneOffset⟩ := keyed.placed first one
  obtain ⟨twoPartition, twoOffset⟩ := keyed.placed second two
  have further := (rises (by omega)).1
  omega

theorem foldl_ingestStep (polled : List RawRecord) (scan : WindowScan)
    (ranked : List (Ranked RawRecord)) : polled.foldl ingestStep (scan, ranked) =
      ((ingestRanked scan polled).1, ranked ++ (ingestRanked scan polled).2) := by
  unfold ingestRanked
  induction polled generalizing scan ranked with
  | nil => simp
  | cons raw polled ih =>
    have step : ingestStep (scan, ranked) raw =
        ((ingestStep (scan, []) raw).1, ranked ++ (ingestStep (scan, []) raw).2) := by
      unfold ingestStep
      dsimp only
      split
      · simp
      · split <;> simp
    rw [List.foldl_cons, step, ih, List.foldl_cons,
      ih (ingestStep (scan, []) raw).1 (ingestStep (scan, []) raw).2]
    simp only [List.append_assoc]

section Run
variable [Crates] (pipeline : RecordPipeline)

/-- The batch a run leaves collects what the accepted records offer. -/
theorem runTurns_spec {log : Log} {windows : List PartitionWindow} {turns : List Turn}
    {seen : List RawRecord} {scan last : WindowScan} {batch found : RecordBatch Kept} {cut : Bool}
    {ranked : List (Ranked RawRecord)} (reads : Reads log windows seen scan ranked)
    (collects : batch.Collects (ranked.filterMap pipeline.offers))
    (delivered : ∀ window ∈ windows,
      ofPartition window.partition (seen ++ delivered turns) <+: log.startingFrom window)
    (idle : IdleTruthful log windows seen turns)
    (run : runTurns pipeline turns scan batch = .ok (last, found, cut)) :
    last = (accepting turns (scan, ranked)).1 ∧
      found.Collects ((accepting turns (scan, ranked)).2.filterMap pipeline.offers) ∧
      found.shape = batch.shape ∧ (cut = false ↔ last.remaining.isEmpty) := by
  induction turns generalizing seen scan batch ranked with
  | nil =>
    unfold runTurns at run
    unfold accepting
    split at run
    · rename_i done
      cases run
      simp [done, collects]
    · rename_i more
      cases run
      simp [more, collects]
  | cons turn turns ih =>
    have rest : ∀ window ∈ windows, ofPartition window.partition
        ((seen ++ turn.records) ++ Scan.delivered turns) <+: log.startingFrom window := by
      simpa only [Scan.delivered, List.flatMap_cons, List.append_assoc] using delivered
    unfold runTurns at run
    unfold accepting
    split at run
    · rename_i done
      cases run
      simp [done, collects]
    · rename_i more
      dsimp only at run ⊢
      rw [if_neg more]
      cases answer : turn.polled with
      | error error => rw [answer] at run; contradiction
      | ok records =>
        have same : turn.records = records := by simp [Turn.records, answer]
        rw [answer] at run
        rw [same] at rest
        cases records with
        | nil =>
          rw [List.append_nil] at rest
          have later : IdleTruthful log windows seen turns := by
            simpa only [same, List.append_nil] using idle.2
          exact ih (reads.settleIdle (idle.1 same)) collects rest later run
        | cons raw polled =>
          have now : ∀ window ∈ windows, ofPartition window.partition
              (seen ++ (raw :: polled)) <+: log.startingFrom window := fun window listed =>
            ofPartition_front (rest window listed)
          have after := reads.ingest (raw :: polled) now
          rw [foldl_ingestStep] at after
          have distinct := after.keyed.distinct
          rw [places, List.map_append] at distinct
          have fewer := (RecordPipeline.places_offers pipeline ranked).append_left
            (places (ingestRanked scan (raw :: polled)).2)
          have admitted := pipeline.admitRecords_collects (ingestRanked scan (raw :: polled)).2 collects
            ((List.perm_append_comm.nodup_iff.mp distinct).sublist fewer)
          have collected := admitted.perm (List.perm_append_comm.trans
            (.of_eq (List.filterMap_append ..).symm))
          obtain ⟨scanEq, collects, shape, cutIff⟩ := ih after collected rest (same ▸ idle.2) run
          dsimp only
          rw [foldl_ingestStep]
          exact ⟨scanEq, collects, shape.trans (pipeline.shape_admitRecords ..), cutIff⟩

end Run
end Klens.Scan
