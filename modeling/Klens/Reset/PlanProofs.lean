import Klens.Lib.Except
import Klens.Reset.Plan

/-! A plan that comes through moves each wanted partition once, to the target
brought inside its log, and a partition that cannot be answered for stops it. -/
namespace Klens.Reset
open Klens.Lib Klens.Store Klens.Client

/-- Every offset of the lookup fits in 64 bits. -/
def Bounded (lookup : OffsetLookup) : Prop :=
  ∀ (topic : String) (partition offset : Int), (lookup.offsets topic)[partition]? = some offset →
    Scan.i64Min ≤ offset ∧ offset ≤ Scan.i64Max

namespace Session
variable {session : Session} {wanted : Wanted} {spec : OffsetSpec}

theorem bounded_listOffsets {lookup : OffsetLookup}
    (found : listOffsets session.listed wanted spec = .ok lookup) : Bounded lookup := by
  intro topic partition offset held
  unfold listOffsets at found
  dsimp only at found
  split at found
  · obtain rfl := Except.ok.inj found
    simp [OffsetLookup.offsets, OffsetLookup.default] at held
  · cases answered : session.listed (offsetSpecs wanted) spec with
    | error error => rw [answered] at found; contradiction
    | ok listed =>
      rw [answered] at found
      obtain rfl := Except.ok.inj found
      obtain ⟨value, rfl, -⟩ := mem_of_logOffsets held
      exact value.2

/-- A lookup whose partitions were all answered for. -/
def Answers (session : Session) (wanted : Wanted) (spec : OffsetSpec)
    (lookup : OffsetLookup) : Prop :=
  listOffsets session.listed wanted spec = .ok lookup ∧ lookup.failure = none

theorem Answers.all {lookup : OffsetLookup} (answers : session.Answers wanted spec lookup)
    (asked : offsetSpecs wanted ≠ []) :
    ∃ listed, session.listed (offsetSpecs wanted) spec = .ok listed ∧
      ∀ entry ∈ listed, entry.failed = false := by
  obtain ⟨found, complete⟩ := answers
  rw [listOffsets, if_neg (by simpa using asked)] at found
  cases answered : session.listed (offsetSpecs wanted) spec with
  | error error => rw [answered] at found; contradiction
  | ok listed =>
    rw [answered] at found
    obtain rfl := Except.ok.inj found
    exact ⟨listed, rfl, (logOffsets_failure listed).mp complete⟩

theorem complete_ok {lookup found : OffsetLookup} (complete : lookup.complete = .ok found) :
    lookup.failure = none ∧ found = lookup := by
  unfold OffsetLookup.complete at complete
  cases failure : lookup.failure with
  | some error => rw [failure] at complete; contradiction
  | none =>
    rw [failure] at complete
    exact ⟨rfl, (Except.ok.inj complete).symm⟩

theorem completeWatermarks_ok {marks : String → Int → Option Scan.Watermarks}
    (found : session.completeWatermarks wanted = .ok marks) :
    ∃ lows highs, session.Answers wanted .earliest lows ∧ session.Answers wanted .latest highs ∧
      marks = Scan.mergeWatermarks lows.offsets highs.offsets := by
  obtain ⟨lows, low, rest⟩ := Except.bind_ok found
  obtain ⟨highs, high, rest⟩ := Except.bind_ok rest
  obtain ⟨lowOffsets, lowComplete, rest⟩ := Except.bind_ok rest
  obtain ⟨highOffsets, highComplete, merged⟩ := Except.bind_ok rest
  obtain ⟨lowFailure, rfl⟩ := complete_ok (Except.mapError_ok lowComplete)
  obtain ⟨highFailure, rfl⟩ := complete_ok (Except.mapError_ok highComplete)
  exact ⟨_, _, ⟨low, lowFailure⟩, ⟨high, highFailure⟩, (Except.ok.inj merged).symm⟩

end Session

theorem mergeWatermarks_eq_some {lows highs : String → Scan.Offsets} {topic : String}
    {partition : Int} {marks : Scan.Watermarks} :
    Scan.mergeWatermarks lows highs topic partition = some marks ↔
      (highs topic)[partition]? = some marks.high ∧
        marks.low = ((lows topic)[partition]?).getD marks.high ∧ marks.low ≤ marks.high := by
  obtain ⟨low, high⟩ := marks
  rw [Scan.mergeWatermarks, Option.bind_eq_some_iff]
  constructor
  · rintro ⟨found, held, merged⟩
    dsimp only at merged
    split at merged
    · obtain ⟨rfl, rfl⟩ := Scan.Watermarks.mk.inj (Option.some.inj merged)
      exact ⟨held, rfl, by assumption⟩
    · contradiction
  · rintro ⟨held, fallen, ordered⟩
    refine ⟨high, held, ?_⟩
    dsimp only at fallen ordered ⊢
    rw [← fallen]
    exact if_pos ordered

theorem marks_bounded {lows highs : OffsetLookup} (low : Bounded lows) (high : Bounded highs)
    {topic : String} {partition : Int} {marks : Scan.Watermarks}
    (merged : Scan.mergeWatermarks lows.offsets highs.offsets topic partition = some marks) :
    Scan.i64Min ≤ marks.low ∧ marks.high ≤ Scan.i64Max := by
  obtain ⟨held, fallen, -⟩ := mergeWatermarks_eq_some.mp merged
  have top := high topic partition marks.high held
  refine ⟨?_, top.2⟩
  rw [fallen]
  cases found : (lows.offsets topic)[partition]? with
  | none => exact top.1
  | some offset => exact (low topic partition offset found).1

/-- Where a target points, over the integers. -/
def ResetTarget.aim (target : ResetTarget) (source : Option Int) (marks : Scan.Watermarks)
    (atTime : Option Int) : Option Int :=
  match target with
  | .earliest => some marks.low
  | .latest => some marks.high
  | .offset wanted => some wanted
  | .shift delta => source.map (· + delta)
  | .timestamp _ => some (atTime.getD marks.high)

theorem clamp_ok {low high : Int} (ordered : low ≤ high) (offset : Int) :
    clamp offset low high = .ok (max low (min offset high)) := by
  rw [clamp, if_pos ordered]
  split
  · congr 1; omega
  · split
    · congr 1; omega
    · congr 1; omega

/-- Saturation is not seen through the clamp: the marks are machine integers. -/
theorem clamp_saturatingAdd {low high : Int} (ordered : low ≤ high) (bottom : Scan.i64Min ≤ low)
    (top : high ≤ Scan.i64Max) (source delta : Int) :
    clamp (Scan.saturatingAdd source delta) low high =
      .ok (max low (min (source + delta) high)) := by
  rw [clamp_ok ordered, Scan.saturatingAdd]
  congr 1
  omega

theorem place_eq {marks : Scan.Watermarks} (ordered : marks.low ≤ marks.high)
    (bottom : Scan.i64Min ≤ marks.low) (top : marks.high ≤ Scan.i64Max) (target : ResetTarget)
    (source atTime : Option Int) :
    target.place source marks atTime =
      .ok ((target.aim source marks atTime).map fun aim => max marks.low (min aim marks.high)) := by
  cases target with
  | earliest => simp only [ResetTarget.place, ResetTarget.aim, clamp_ok ordered]; rfl
  | latest => simp only [ResetTarget.place, ResetTarget.aim, clamp_ok ordered]; rfl
  | offset wanted => simp only [ResetTarget.place, ResetTarget.aim, clamp_ok ordered]; rfl
  | timestamp time => simp only [ResetTarget.place, ResetTarget.aim, clamp_ok ordered]; rfl
  | shift delta =>
    cases source with
    | none => rfl
    | some source =>
      simp only [ResetTarget.place, ResetTarget.aim, Option.map_some,
        clamp_saturatingAdd ordered bottom top]
      rfl

theorem Commits.current_eq_some {commits : Commits} {wanted : TopicPartition} {offset : Int} :
    commits.current wanted = some offset ↔ ⟨wanted.1, wanted.2, offset⟩ ∈ commits.offsets := by
  rw [Commits.current, Option.map_eq_some_iff]
  constructor
  · rintro ⟨⟨topic, partition, found⟩, first, rfl⟩
    have holds := List.find?_some first
    have same : (topic, partition) = wanted := of_decide_eq_true holds
    rw [← same]
    exact List.mem_of_find?_eq_some first
  · intro listed
    cases first : commits.offsets.find? fun committed => key committed = wanted with
    | none =>
      have other := List.find?_eq_none.mp first _ listed
      exact absurd (decide_eq_true rfl) other
    | some found =>
      have holds := List.find?_some first
      have same : key found = wanted := of_decide_eq_true holds
      have held := List.mem_of_find?_eq_some first
      have equal := List.inj_on_of_nodup_map commits.distinct held listed same
      exact ⟨found, rfl, congrArg CommittedOffset.offset equal⟩

@[simp] theorem Wanted.partitions_cons (entry : String × List Int) (wanted : Wanted) :
    Wanted.partitions (entry :: wanted) =
      entry.2.map (fun partition => (entry.1, partition)) ++ wanted.partitions :=
  List.flatMap_cons

theorem Wanted.mem_partitions {wanted : Wanted} {pair : TopicPartition} :
    pair ∈ wanted.partitions ↔ ∃ entry ∈ wanted, entry.1 = pair.1 ∧ pair.2 ∈ entry.2 := by
  obtain ⟨topic, partition⟩ := pair
  simp only [Wanted.partitions, List.mem_flatMap, List.mem_map, Prod.mk.injEq]
  constructor
  · rintro ⟨entry, listed, held, within, same, rfl⟩
    exact ⟨entry, listed, same, within⟩
  · rintro ⟨entry, listed, same, within⟩
    exact ⟨entry, listed, partition, within, same, rfl⟩

theorem Wanted.push_partitions (topic : String) (partition : Int) (wanted : Wanted) :
    (Wanted.push topic partition wanted).partitions.Perm (wanted.partitions ++ [(topic, partition)]) := by
  induction wanted with
  | nil => exact .refl _
  | cons entry wanted ih =>
    obtain ⟨other, partitions⟩ := entry
    rw [Wanted.push]
    split
    · rename_i same
      subst same
      simp only [Wanted.partitions_cons, List.map_append, List.map_singleton, List.append_assoc]
      exact List.perm_append_comm.append_left _
    · simp only [Wanted.partitions_cons, List.append_assoc]
      exact ih.append_left _

theorem Wanted.push_topics (topic : String) (partition : Int) (wanted : Wanted) :
    ∀ other ∈ (Wanted.push topic partition wanted).map Prod.fst,
      other = topic ∨ other ∈ wanted.map Prod.fst := by
  induction wanted with
  | nil => simp [Wanted.push]
  | cons entry wanted ih =>
    rw [Wanted.push]
    split
    · exact fun other listed => .inr listed
    · rw [List.map_cons, List.forall_mem_cons]
      refine ⟨.inr List.mem_cons_self, fun other listed => ?_⟩
      exact (ih other listed).imp_right (List.mem_cons_of_mem _)

theorem Wanted.push_distinct (topic : String) (partition : Int) {wanted : Wanted}
    (distinct : (wanted.map Prod.fst).Nodup) :
    ((Wanted.push topic partition wanted).map Prod.fst).Nodup := by
  induction wanted with
  | nil => simp [Wanted.push]
  | cons entry wanted ih =>
    obtain ⟨fresh, others⟩ := List.nodup_cons.mp distinct
    rw [Wanted.push]
    split
    · exact distinct
    · rename_i different
      refine List.nodup_cons.mpr ⟨fun listed => ?_, ih others⟩
      rcases Wanted.push_topics topic partition wanted _ listed with same | before
      · exact different same
      · exact fresh before

/-- The partitions a reset is wanted for. -/
def wantedKeys (partitions : Option (String × List Int)) (commits : Commits) :
    List TopicPartition :=
  match partitions with
  | some (topic, partitions) => partitions.map fun partition => (topic, partition)
  | none => commits.offsets.map key

variable {partitions : Option (String × List Int)} {commits : Commits}

theorem wantedPartitions_perm :
    (wantedPartitions partitions commits).partitions.Perm (wantedKeys partitions commits) := by
  cases partitions with
  | some named => exact List.Perm.of_eq (List.append_nil _)
  | none =>
    have run (wanted : Wanted) : (commits.offsets.foldl (fun wanted committed =>
        Wanted.push committed.topic committed.partition wanted) wanted).partitions.Perm
          (wanted.partitions ++ commits.offsets.map key) := by
      induction commits.offsets generalizing wanted with
      | nil => simp
      | cons committed offsets ih =>
        refine (ih _).trans ?_
        rw [List.map_cons, List.append_cons]
        exact (Wanted.push_partitions _ _ wanted).append_right _
    exact run []

theorem wantedPartitions_distinct :
    ((wantedPartitions partitions commits).map Prod.fst).Nodup := by
  cases partitions with
  | some named => exact List.nodup_singleton _
  | none =>
    refine List.foldlRecOn commits.offsets _
      (motive := fun wanted : Wanted => (wanted.map Prod.fst).Nodup) List.nodup_nil ?_
    intro wanted distinct committed _
    exact Wanted.push_distinct _ _ distinct

section Move
variable {session : Session} {group : String} {target : ResetTarget}
  {lows highs : OffsetLookup} {atTimes : List (String × TimeOffsets)}
  {wanted : TopicPartition}

/-- What a time lookup found on a partition, nothing where no time was asked for. -/
def atTimeOf (atTimes : List (String × TimeOffsets)) (wanted : TopicPartition) : Option Int :=
  ((atTimes.lookup wanted.1).bind fun offsets => offsets[wanted.2]?).join

/-- The move of one partition, by its marks. -/
def moveTo (target : ResetTarget) (commits : Commits) (atTimes : List (String × TimeOffsets))
    (wanted : TopicPartition) (marks : Scan.Watermarks) : Option OffsetMove :=
  (target.aim (commits.current wanted) marks (atTimeOf atTimes wanted)).map fun aim =>
    { topic := wanted.1
      partition := wanted.2
      source := commits.current wanted
      target := max marks.low (min aim marks.high)
      stop := marks.high }

theorem moveOf_eq (low : Bounded lows) (high : Bounded highs) {marks : Scan.Watermarks}
    (merged : Scan.mergeWatermarks lows.offsets highs.offsets wanted.1 wanted.2 = some marks) :
    moveOf session group target commits (Scan.mergeWatermarks lows.offsets highs.offsets) atTimes
        wanted =
      match moveTo target commits atTimes wanted marks with
      | some move => .ok move
      | none => .error (.failed (.noCommittedOffset group wanted.1 wanted.2)) := by
  obtain ⟨-, -, ordered⟩ := mergeWatermarks_eq_some.mp merged
  obtain ⟨bottom, top⟩ := marks_bounded low high merged
  simp only [moveOf, merged, place_eq ordered bottom top, moveTo, atTimeOf]
  cases target.aim (commits.current wanted) marks
    ((atTimes.lookup wanted.1).bind fun offsets => offsets[wanted.2]?).join <;> rfl

theorem moveOf_ok (low : Bounded lows) (high : Bounded highs) {move : OffsetMove}
    (moved : moveOf session group target commits
      (Scan.mergeWatermarks lows.offsets highs.offsets) atTimes wanted = .ok move) :
    ∃ marks, Scan.mergeWatermarks lows.offsets highs.offsets wanted.1 wanted.2 = some marks ∧
      moveTo target commits atTimes wanted marks = some move := by
  cases merged : Scan.mergeWatermarks lows.offsets highs.offsets wanted.1 wanted.2 with
  | none =>
    rw [moveOf, merged] at moved
    contradiction
  | some marks =>
    rw [moveOf_eq low high merged] at moved
    refine ⟨marks, rfl, ?_⟩
    cases placed : moveTo target commits atTimes wanted marks with
    | none => rw [placed] at moved; contradiction
    | some found => rw [placed] at moved; exact congrArg some (Except.ok.inj moved)

theorem moveOf_error (low : Bounded lows) (high : Bounded highs) {stop : Stop}
    (stopped : moveOf session group target commits
      (Scan.mergeWatermarks lows.offsets highs.offsets) atTimes wanted = .error stop) :
    ∃ error, stop = .failed error := by
  cases merged : Scan.mergeWatermarks lows.offsets highs.offsets wanted.1 wanted.2 with
  | none =>
    rw [moveOf, merged] at stopped
    exact ⟨_, (Except.error.inj stopped).symm⟩
  | some marks =>
    rw [moveOf_eq low high merged] at stopped
    cases placed : moveTo target commits atTimes wanted marks with
    | none => rw [placed] at stopped; exact ⟨_, (Except.error.inj stopped).symm⟩
    | some found => rw [placed] at stopped; contradiction

theorem lookup_offsetsAt {topics : Wanted} {timestamp : Int}
    (found : session.offsetsAt topics timestamp = .ok atTimes)
    (distinct : (topics.map Prod.fst).Nodup) {entry : String × List Int} (listed : entry ∈ topics) :
    ∃ offsets, session.offsetsForTimes entry.1 entry.2 timestamp = .ok offsets ∧
      atTimes.lookup entry.1 = some offsets := by
  replace found := Except.mapM_ok found
  induction found with
  | nil => contradiction
  | @cons first answer rest answers here _ ih =>
    obtain ⟨offsets, answered, same⟩ := Except.bind_ok here
    obtain rfl := Except.ok.inj same
    obtain ⟨fresh, others⟩ := List.nodup_cons.mp distinct
    rcases List.mem_cons.mp listed with rfl | later
    · exact ⟨offsets, answered, by rw [List.lookup_cons_self]⟩
    · obtain ⟨found, answered, held⟩ := ih others later
      have different : entry.1 ≠ first.1 := fun equal =>
        fresh (equal ▸ List.mem_map_of_mem later)
      exact ⟨found, answered, by rw [List.lookup_cons, beq_false_of_ne different]; exact held⟩

end Move

theorem OffsetMove.sorted (moves : List OffsetMove) :
    (moves.insertionSort OffsetMove.NotAfter).Pairwise OffsetMove.NotAfter := by
  have total : Std.Total OffsetMove.NotAfter := ⟨fun left right => by
    unfold OffsetMove.NotAfter
    rw [@Std.OrientedCmp.eq_swap _ tupleOrder _ right.key left.key]
    cases tupleOrder left.key right.key <;> simp⟩
  have trans : IsTrans OffsetMove OffsetMove.NotAfter :=
    ⟨fun _ _ _ first second => Std.TransCmp.isLE_trans first second⟩
  exact List.pairwise_insertionSort OffsetMove.NotAfter moves

section Plan
variable {session : Session} {order : MapOrder} {group : String} {target : ResetTarget}
  {lows highs : OffsetLookup} {atTimes : List (String × TimeOffsets)}
  {moves : List OffsetMove}

/-- What Kafka answered while a plan was made. -/
structure Answered (session : Session) (order : MapOrder) (group : String)
    (partitions : Option (String × List Int)) (target : ResetTarget) (commits : Commits)
    (lows highs : OffsetLookup) (atTimes : List (String × TimeOffsets)) : Prop where
  committed : session.committedOffsets group = .ok commits
  lows : session.Answers (order.walk (wantedPartitions partitions commits)) .earliest lows
  highs : session.Answers (order.walk (wantedPartitions partitions commits)) .latest highs
  times : session.atTimes (order.walk (wantedPartitions partitions commits)) target = .ok atTimes

theorem planReset_ok (planned : planReset session order group partitions target = .ok moves) :
    ∃ commits lows highs atTimes unsorted,
      Answered session order group partitions target commits lows highs atTimes ∧
      (order.walk (wantedPartitions partitions commits)).partitions.mapM (moveOf session group target
        commits (Scan.mergeWatermarks lows.offsets highs.offsets) atTimes) = .ok unsorted ∧
      moves = unsorted.insertionSort OffsetMove.NotAfter := by
  obtain ⟨commits, committed, rest⟩ := Except.bind_ok planned
  obtain ⟨marks, marked, rest⟩ := Except.bind_ok rest
  obtain ⟨lows, highs, low, high, rfl⟩ := Session.completeWatermarks_ok (Except.mapError_ok marked)
  obtain ⟨atTimes, timed, rest⟩ := Except.bind_ok rest
  obtain ⟨unsorted, moved, rest⟩ := Except.bind_ok rest
  exact ⟨commits, lows, highs, atTimes, unsorted,
    ⟨Except.mapError_ok committed, low, high, Except.mapError_ok timed⟩, moved,
    (Except.ok.inj rest).symm⟩

/-- A plan that does not come through reports an error: the clamp never panics. -/
theorem planReset_error {stop : Stop}
    (stopped : planReset session order group partitions target = .error stop) :
    ∃ error, stop = .failed error := by
  rcases Except.bind_error stopped with denied | ⟨commits, -, rest⟩
  · exact Except.mapError_error denied
  · rcases Except.bind_error rest with denied | ⟨marks, marked, rest⟩
    · exact Except.mapError_error denied
    · obtain ⟨lows, highs, low, high, rfl⟩ :=
        Session.completeWatermarks_ok (Except.mapError_ok marked)
      have bottom := Session.bounded_listOffsets low.1
      have top := Session.bounded_listOffsets high.1
      rcases Except.bind_error rest with denied | ⟨atTimes, -, rest⟩
      · exact Except.mapError_error denied
      · rcases Except.bind_error rest with unmoved | ⟨unsorted, -, rest⟩
        · obtain ⟨wanted, -, stops⟩ := Except.mapM_error unmoved
          exact moveOf_error bottom top stops
        · contradiction

/-- What the time lookup found on a partition, for a target that is a time. -/
def TimeOf (session : Session) (partitions : Option (String × List Int)) (commits : Commits)
    (target : ResetTarget) (wanted : TopicPartition) (atTime : Option Int) : Prop :=
  ∀ timestamp, target = .timestamp timestamp →
    ∃ entry ∈ wantedPartitions partitions commits, entry.1 = wanted.1 ∧ wanted.2 ∈ entry.2 ∧
      ∃ offsets, session.offsetsForTimes entry.1 entry.2 timestamp = .ok offsets ∧
        atTime = (offsets[wanted.2]?).join

theorem Answered.timeOf
    (answered : Answered session order group partitions target commits lows highs atTimes)
    {wanted : TopicPartition} (listed : wanted ∈ (wantedPartitions partitions commits).partitions) :
    TimeOf session partitions commits target wanted (atTimeOf atTimes wanted) := by
  rintro timestamp rfl
  obtain ⟨entry, held, same, within⟩ := Wanted.mem_partitions.mp listed
  have walked := order.perm (wantedPartitions partitions commits)
  have distinct := (walked.map Prod.fst).nodup_iff.mpr wantedPartitions_distinct
  obtain ⟨offsets, found, looked⟩ :=
    lookup_offsetsAt answered.times distinct (walked.mem_iff.mpr held)
  refine ⟨entry, held, same, within, offsets, found, ?_⟩
  rw [atTimeOf, ← same, looked, Option.bind_some]

/-- A move from what is committed to the target, brought between the marks. -/
structure Placed (session : Session) (partitions : Option (String × List Int))
    (commits : Commits) (lows highs : OffsetLookup) (target : ResetTarget) (move : OffsetMove)
    (marks : Scan.Watermarks) (aim : Int) : Prop where
  marked : Scan.mergeWatermarks lows.offsets highs.offsets move.topic move.partition = some marks
  ordered : marks.low ≤ marks.high
  source : ∀ offset, move.source = some offset ↔
    ⟨move.topic, move.partition, offset⟩ ∈ commits.offsets
  stop : move.stop = marks.high
  aimed : ∃ atTime, TimeOf session partitions commits target move.key atTime ∧
    target.aim move.source marks atTime = some aim
  target : move.target = max marks.low (min aim marks.high)

/-- One move for each wanted partition, in order, and each where it belongs. -/
structure Exact (session : Session) (partitions : Option (String × List Int))
    (commits : Commits) (lows highs : OffsetLookup) (target : ResetTarget)
    (moves : List OffsetMove) : Prop where
  once : (moves.map OffsetMove.key).Perm (wantedKeys partitions commits)
  sorted : moves.Pairwise OffsetMove.NotAfter
  placed : ∀ move ∈ moves, ∃ marks aim,
    Placed session partitions commits lows highs target move marks aim

theorem partitions_walk (order : MapOrder) (wanted : Wanted) :
    (order.walk wanted).partitions.Perm wanted.partitions :=
  (order.perm wanted).flatMap_right _

theorem key_of_moveTo {wanted : TopicPartition} {marks : Scan.Watermarks} {move : OffsetMove}
    (moved : moveTo target commits atTimes wanted marks = some move) : move.key = wanted := by
  obtain ⟨aim, -, rfl⟩ := Option.map_eq_some_iff.mp moved
  rfl

theorem Answered.exact
    (answered : Answered session order group partitions target commits lows highs atTimes)
    {unsorted : List OffsetMove}
    (moved : (order.walk (wantedPartitions partitions commits)).partitions.mapM (moveOf session
      group target commits (Scan.mergeWatermarks lows.offsets highs.offsets) atTimes) =
        .ok unsorted) :
    Exact session partitions commits lows highs target
      (unsorted.insertionSort OffsetMove.NotAfter) := by
  have bottom := Session.bounded_listOffsets answered.lows.1
  have top := Session.bounded_listOffsets answered.highs.1
  have walked := partitions_walk order (wantedPartitions partitions commits)
  have sorting := List.perm_insertionSort OffsetMove.NotAfter unsorted
  have keys : unsorted.map OffsetMove.key =
      (order.walk (wantedPartitions partitions commits)).partitions := by
    refine Except.map_mapM_ok moved fun wanted move found => ?_
    obtain ⟨marks, -, moved⟩ := moveOf_ok bottom top found
    exact key_of_moveTo moved
  refine ⟨?_, OffsetMove.sorted unsorted, ?_⟩
  · exact (sorting.map _).trans (keys ▸ walked.trans wantedPartitions_perm)
  · intro move listed
    obtain ⟨wanted, within, found⟩ := Except.mem_mapM_ok moved (sorting.mem_iff.mp listed)
    obtain ⟨marks, merged, moved⟩ := moveOf_ok bottom top found
    obtain ⟨aim, aimed, rfl⟩ := Option.map_eq_some_iff.mp moved
    exact ⟨marks, aim, merged, (mergeWatermarks_eq_some.mp merged).2.2,
      fun offset => Commits.current_eq_some, rfl,
      ⟨_, answered.timeOf (walked.mem_iff.mp within), aimed⟩, rfl⟩

/-- What keeps a plan from being made: a lookup that failed, or a wanted partition
that has no marks or, for a shift, no commit. -/
inductive Unanswered (session : Session) (order : MapOrder)
    (partitions : Option (String × List Int)) (target : ResetTarget) (commits : Commits) : Prop where
  | request {spec : OffsetSpec} {error : KafkaError} (ends : spec = .earliest ∨ spec = .latest)
      (asked : offsetSpecs (order.walk (wantedPartitions partitions commits)) ≠ [])
      (denied : session.listed (offsetSpecs (order.walk (wantedPartitions partitions commits))) spec =
        .error error)
  | lookup {spec : OffsetSpec} {listed : List Listed} {entry : Listed}
      (ends : spec = .earliest ∨ spec = .latest)
      (answered : session.listed (offsetSpecs (order.walk (wantedPartitions partitions commits))) spec =
        .ok listed)
      (asked : entry.1 ∈ offsetSpecs (order.walk (wantedPartitions partitions commits)))
      (held : entry ∈ listed) (failed : entry.failed = true)
  | time {error : KafkaError}
      (denied : session.atTimes (order.walk (wantedPartitions partitions commits)) target =
        .error error)
  | marks {lows highs : OffsetLookup} {wanted : TopicPartition}
      (listed : wanted ∈ wantedKeys partitions commits)
      (low : session.lowWatermarks (order.walk (wantedPartitions partitions commits)) = .ok lows)
      (high : session.highWatermarks (order.walk (wantedPartitions partitions commits)) = .ok highs)
      (unmarked : Scan.mergeWatermarks lows.offsets highs.offsets wanted.1 wanted.2 = none)
  | commit {delta : Int} {wanted : TopicPartition} (shifts : target = .shift delta)
      (listed : wanted ∈ wantedKeys partitions commits)
      (uncommitted : ∀ offset, ⟨wanted.1, wanted.2, offset⟩ ∉ commits.offsets)

theorem Answered.answers
    (answered : Answered session order group partitions target commits lows highs atTimes)
    {spec : OffsetSpec} (ends : spec = .earliest ∨ spec = .latest) : ∃ lookup,
      session.Answers (order.walk (wantedPartitions partitions commits)) spec lookup := by
  rcases ends with rfl | rfl
  · exact ⟨lows, answered.lows⟩
  · exact ⟨highs, answered.highs⟩

theorem Answered.not_unanswered
    (answered : Answered session order group partitions target commits lows highs atTimes)
    {unsorted : List OffsetMove}
    (moved : (order.walk (wantedPartitions partitions commits)).partitions.mapM (moveOf session
      group target commits (Scan.mergeWatermarks lows.offsets highs.offsets) atTimes) =
        .ok unsorted) :
    ¬ Unanswered session order partitions target commits := by
  have moves : ∀ wanted ∈ wantedKeys partitions commits, ∃ marks move,
      Scan.mergeWatermarks lows.offsets highs.offsets wanted.1 wanted.2 = some marks ∧
        moveTo target commits atTimes wanted marks = some move := by
    intro wanted listed
    have walked := (partitions_walk order (wantedPartitions partitions commits)).trans
      wantedPartitions_perm
    obtain ⟨move, found⟩ := Except.forall_mapM_ok moved (walked.mem_iff.mpr listed)
    obtain ⟨marks, merged, placed⟩ := moveOf_ok (Session.bounded_listOffsets answered.lows.1)
      (Session.bounded_listOffsets answered.highs.1) found
    exact ⟨marks, move, merged, placed⟩
  intro unanswered
  cases unanswered with
  | request ends asked denied =>
    obtain ⟨lookup, answers⟩ := answered.answers ends
    obtain ⟨listed, found, -⟩ := answers.all asked
    exact absurd (found.symm.trans denied) (by simp)
  | lookup ends listed asked held failed =>
    obtain ⟨lookup, answers⟩ := answered.answers ends
    obtain ⟨others, found, complete⟩ := answers.all (List.ne_nil_of_mem asked)
    obtain rfl := Except.ok.inj (listed.symm.trans found)
    exact absurd (complete _ held) (by simp [failed])
  | time denied => exact absurd (answered.times.symm.trans denied) (by simp)
  | marks listed low high unmarked =>
    obtain rfl := Except.ok.inj (low.symm.trans answered.lows.1)
    obtain rfl := Except.ok.inj (high.symm.trans answered.highs.1)
    obtain ⟨marks, move, merged, -⟩ := moves _ listed
    exact absurd (merged.symm.trans unmarked) (by simp)
  | commit shifts listed uncommitted =>
    subst shifts
    obtain ⟨marks, move, -, placed⟩ := moves _ listed
    obtain ⟨aim, aimed, -⟩ := Option.map_eq_some_iff.mp placed
    obtain ⟨source, current, -⟩ := Option.map_eq_some_iff.mp aimed
    exact uncommitted source (Commits.current_eq_some.mp current)

/-- A plan that comes through is exact, and nothing was left unanswered. -/
theorem planReset_exact (planned : planReset session order group partitions target = .ok moves) :
    ∃ commits lows highs, session.committedOffsets group = .ok commits ∧
      session.Answers (order.walk (wantedPartitions partitions commits)) .earliest lows ∧
      session.Answers (order.walk (wantedPartitions partitions commits)) .latest highs ∧
      Exact session partitions commits lows highs target moves ∧
      ¬ Unanswered session order partitions target commits := by
  obtain ⟨commits, lows, highs, atTimes, unsorted, answered, moved, rfl⟩ := planReset_ok planned
  exact ⟨commits, lows, highs, answered.committed, answered.lows, answered.highs,
    answered.exact moved, answered.not_unanswered moved⟩

theorem planReset_unanswered (committed : session.committedOffsets group = .ok commits)
    (unanswered : Unanswered session order partitions target commits) :
    ∃ error, planReset session order group partitions target = .error (.failed error) := by
  cases planned : planReset session order group partitions target with
  | ok moves =>
    obtain ⟨found, lows, highs, same, -, -, -, answered⟩ := planReset_exact planned
    obtain rfl := Except.ok.inj (committed.symm.trans same)
    exact absurd unanswered answered
  | error stop =>
    obtain ⟨error, rfl⟩ := planReset_error planned
    exact ⟨error, rfl⟩

end Plan

end Klens.Reset
