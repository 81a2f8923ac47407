import Klens.Scan.PassProofs

/-! What a pass does to the boundaries of a page. A record is on the page, or
still ahead, or behind the boundary: `Unread` says which, and each lemma moves
one boundary of one partition. -/
namespace Klens.Scan
open Klens.Lib

/-- The record lies ahead of the boundary its partition is read from. -/
def Unread (walk : RecordOrder) (boundaries : Offsets) (raw : RawRecord) : Prop :=
  ∃ boundary, boundaries[raw.partition]? = some boundary ∧ Ahead walk boundary raw.offset

def RawRecord.place (raw : RawRecord) : Int × Int := (raw.partition, raw.offset)

section Keys
variable {newest : Offsets} {ranked : List (Ranked RawRecord)} {first second : Ranked RawRecord}

/-- Two accepted records are the same one, or the earlier one of a partition
also has the smaller key. -/
theorem Keyed.compared (keyed : Keyed newest ranked) (one : first ∈ ranked) (two : second ∈ ranked)
    (same : first.2.partition = second.2.partition) : first = second ∨
      (first.2.offset < second.2.offset ∧ first.1.timestamp ≤ second.1.timestamp) ∨
      (second.2.offset < first.2.offset ∧ second.1.timestamp ≤ first.1.timestamp) := by
  revert same
  refine List.Pairwise.forall_of_forall_of_flip
    (R := fun a b : Ranked RawRecord => a.2.partition = b.2.partition → a = b ∨
      (a.2.offset < b.2.offset ∧ a.1.timestamp ≤ b.1.timestamp) ∨
      (b.2.offset < a.2.offset ∧ b.1.timestamp ≤ a.1.timestamp))
    (fun _ _ _ => .inl rfl) ?_ ?_ one two
  · exact keyed.rising.imp fun rises same => .inr (.inl (rises same))
  · exact keyed.rising.imp fun rises same => .inr (.inr (rises same.symm))

theorem Keyed.rises (keyed : Keyed newest ranked) (one : first ∈ ranked) (two : second ∈ ranked)
    (same : first.2.partition = second.2.partition) (before : first.2.offset < second.2.offset) :
    first.1.timestamp ≤ second.1.timestamp := by
  rcases keyed.compared one two same with rfl | rises | falls
  · exact le_refl _
  · exact rises.2
  · omega

theorem Keyed.eq_of_place (keyed : Keyed newest ranked) (one : first ∈ ranked)
    (two : second ∈ ranked) (same : first.2.place = second.2.place) : first = second := by
  obtain ⟨partition, offset⟩ := Prod.mk.inj same
  rcases keyed.compared one two partition with equal | rises | falls
  · exact equal
  · omega
  · omega

end Keys

section Collected
variable [Crates] {pipeline : RecordPipeline} {newest : Offsets} {ranked : List (Ranked RawRecord)}
  {batch : RecordBatch Kept}

theorem RecordPipeline.place_of_keeps {raw : RawRecord} {kept : Kept}
    (keeps : pipeline.keeps raw = some kept) : kept.raw.place = raw.place := by
  rw [pipeline.keeps_raw keeps]
  unfold RecordPipeline.hidden
  split <;> rfl

/-- A batch that collected what a pass accepted holds the places of records
that pass the filter, all of them while there is room, and inside a partition
those the walk meets first. -/
structure Holding (pipeline : RecordPipeline) (walk : RecordOrder)
    (ranked : List (Ranked RawRecord)) (limit : Nat) (kept : List (Int × Int)) : Prop where
  distinct : kept.Nodup
  bound : kept.length ≤ limit
  subset : ∀ place ∈ kept, ∃ entry ∈ ranked, pipeline.passes entry.2 ∧ entry.2.place = place
  all : kept.length < limit → ∀ entry ∈ ranked, pipeline.passes entry.2 → entry.2.place ∈ kept
  closed : ∀ entry ∈ ranked, pipeline.passes entry.2 → ∀ last, (entry.2.partition, last) ∈ kept →
    ¬ Ahead walk (past walk last) entry.2.offset → entry.2.place ∈ kept

theorem RecordBatch.Collects.holding (collects : batch.Collects (ranked.filterMap pipeline.offers))
    (keyed : Keyed newest ranked) :
    Holding pipeline (SortKey.walkOf batch.order batch.direction) ranked batch.limit
      (places batch.ranked) := by
  have offered : ∀ entry ∈ ranked, pipeline.passes entry.2 →
      ∃ kept, (entry.1, kept) ∈ ranked.filterMap pipeline.offers := by
    intro entry member passes
    obtain ⟨kept, keeps⟩ := Option.isSome_iff_exists.mp passes
    exact ⟨kept, List.mem_filterMap.mpr ⟨entry, member, by simp [RecordPipeline.offers, keeps]⟩⟩
  have accepted : ∀ held ∈ batch.ranked, ∃ entry ∈ ranked, pipeline.passes entry.2 ∧
      held.1 = entry.1 := by
    intro held member
    obtain ⟨entry, listed, offer⟩ := List.mem_filterMap.mp (collects.best.subset member)
    obtain ⟨kept, keeps, rfl⟩ := Option.map_eq_some_iff.mp offer
    exact ⟨entry, listed, by simp [RecordPipeline.passes, keeps], rfl⟩
  have placed : ∀ entry ∈ ranked, (entry.1.partition, entry.1.offset) = entry.2.place :=
    fun entry member => Prod.ext (keyed.placed entry member).1 (keyed.placed entry member).2
  have sameLength : (places batch.ranked).length = batch.ranked.length := List.length_map ..
  have distinct : (places batch.ranked).Nodup := by
    have ordered := collects.best.sorted
    refine List.pairwise_map.mpr (ordered.imp_of_mem ?_)
    intro first second one two before same
    obtain ⟨left, leftListed, _, leftKey⟩ := accepted first one
    obtain ⟨right, rightListed, _, rightKey⟩ := accepted second two
    rw [leftKey, rightKey, placed left leftListed, placed right rightListed] at same
    have equal := keyed.eq_of_place leftListed rightListed same
    have self : first.1.Precedes batch.order batch.direction second.1 := before
    rw [leftKey, rightKey, equal] at self
    exact Std.Irrefl.irrefl (r := SortKey.Precedes batch.order batch.direction) _ self
  refine ⟨distinct, sameLength ▸ collects.best.length_le, ?_, ?_, ?_⟩
  · intro place member
    obtain ⟨held, listed, rfl⟩ := List.mem_map.mp member
    obtain ⟨entry, entryListed, passes, key⟩ := accepted held listed
    exact ⟨entry, entryListed, passes, by rw [key, placed entry entryListed]⟩
  · intro room entry member passes
    obtain ⟨kept, offer⟩ := offered entry member passes
    rw [← placed entry member]
    exact List.mem_map.mpr ⟨_, collects.best.mem_of_room (sameLength ▸ room) offer, rfl⟩
  · intro entry member passes last lastHeld behind
    obtain ⟨held, heldListed, heldPlace⟩ := List.mem_map.mp lastHeld
    obtain ⟨other, otherListed, otherPasses, otherKey⟩ := accepted held heldListed
    obtain ⟨kept, offer⟩ := offered entry member passes
    rw [otherKey, placed other otherListed] at heldPlace
    obtain ⟨samePartition, sameOffset⟩ := Prod.mk.inj heldPlace
    by_cases equal : entry.2.offset = last
    · have samePlace : entry.2.place = other.2.place := Prod.ext samePartition.symm
        (equal.trans sameOffset.symm)
      rw [samePlace, ← placed other otherListed, ← otherKey]
      exact List.mem_map_of_mem heldListed
    · have keyPartition : entry.1.partition = other.1.partition := by
        rw [(keyed.placed entry member).1, (keyed.placed other otherListed).1, samePartition]
      have before : entry.1.Precedes batch.order batch.direction other.1 := by
        rw [SortKey.precedes_same_partition keyPartition]
        · rw [(keyed.placed entry member).2, (keyed.placed other otherListed).2]
          generalize SortKey.walkOf batch.order batch.direction = walk at behind
          cases walk <;> simp only [Ahead, past] at behind ⊢ <;> omega
        · rw [(keyed.placed entry member).2, (keyed.placed other otherListed).2]
          exact keyed.rises member otherListed samePartition.symm
        · rw [(keyed.placed entry member).2, (keyed.placed other otherListed).2]
          exact keyed.rises otherListed member samePartition
      have inBatch := collects.best.closed heldListed offer (by
        change SortKey.Precedes _ _ _ _
        rw [otherKey]
        exact before)
      rw [← placed entry member]
      exact List.mem_map_of_mem inBatch

end Collected

namespace Reads
variable {log : Log} {windows : List PartitionWindow} {seen : List RawRecord} {scan : WindowScan}
  {ranked : List (Ranked RawRecord)}

/-- What was accepted from a window, in the log's order. -/
theorem taken_prefix (reads : Reads log windows seen scan ranked) {window : PartitionWindow}
    (listed : window ∈ windows) : taken ranked window.partition <+: log.inWindow window := by
  rcases reads.split window listed with found | done
  · obtain ⟨_, same, below⟩ := reads.underway _ _ found
    obtain ⟨rest, whole⟩ := reads.delivered window listed
    rw [same]
    unfold Log.inWindow
    rw [← whole, List.filter_append, List.filter_eq_self.mpr fun raw member => by
      simpa using below raw member]
    exact List.prefix_append ..
  · rw [reads.settled window listed done]

theorem mem_taken {entry : Ranked RawRecord} (member : entry ∈ ranked) :
    entry.2 ∈ taken ranked entry.2.partition :=
  mem_ofPartition.mpr ⟨List.mem_map_of_mem member, rfl⟩

theorem of_mem_taken {raw : RawRecord} {partition : Int} (member : raw ∈ taken ranked partition) :
    ∃ entry ∈ ranked, entry.2 = raw :=
  List.mem_map.mp (mem_ofPartition.mp member).1

theorem accepted_inWindow (reads : Reads log windows seen scan ranked) {entry : Ranked RawRecord}
    (member : entry ∈ ranked) :
    ∃ window ∈ windows, window.partition = entry.2.partition ∧ entry.2 ∈ log.inWindow window := by
  obtain ⟨window, listed, same⟩ := reads.inside entry member
  refine ⟨window, listed, same, (reads.taken_prefix listed).subset ?_⟩
  rw [same]
  exact mem_taken member

theorem accepted_of_completed (reads : Reads log windows seen scan ranked)
    {window : PartitionWindow} (listed : window ∈ windows) (done : window.partition ∈ scan.completed)
    {raw : RawRecord} (inside : raw ∈ log.inWindow window) : ∃ entry ∈ ranked, entry.2 = raw := by
  rw [← reads.settled window listed done] at inside
  exact of_mem_taken inside

theorem accepted_of_le (reads : Reads log windows seen scan ranked) {window : PartitionWindow}
    (listed : window ∈ windows) {entry : Ranked RawRecord} (member : entry ∈ ranked)
    (same : entry.2.partition = window.partition) {raw : RawRecord}
    (inside : raw ∈ log.inWindow window) (before : raw.offset ≤ entry.2.offset) :
    ∃ entry ∈ ranked, entry.2 = raw := by
  obtain ⟨rest, whole⟩ := reads.taken_prefix listed
  rw [← whole] at inside
  rcases List.mem_append.mp inside with early | late
  · exact of_mem_taken early
  · have rising : (log.inWindow window).Pairwise (·.offset < ·.offset) :=
      (log.rising_startingFrom window).filter _
    rw [← whole] at rising
    have after := (List.pairwise_append.mp rising).2.2 entry.2 (same ▸ mem_taken member) raw late
    omega

theorem isEmpty_iff (reads : Reads log windows seen scan ranked) :
    scan.remaining.isEmpty ↔ ∀ window ∈ windows, window.partition ∈ scan.completed := by
  rw [Std.ExtTreeMap.isEmpty_iff]
  constructor
  · intro empty window listed
    rcases reads.split window listed with found | done
    · simp [empty] at found
    · exact done
  · intro all
    refine Std.ExtTreeMap.ext_getElem? fun partition => ?_
    cases found : scan.remaining[partition]? with
    | none => simp
    | some range =>
      have member : partition ∈ scan.remaining := Maps.mem_of_getElem? found
      exact absurd member (reads.apart partition (all _ (reads.underway partition range found).1))

end Reads

section Boundaries
variable {log : Log} {span : LogSpan} {walk : RecordOrder} {take : Int} {origin : RecordCursor}
  {scan : WindowScan} {limit : Nat} {kept : List (Int × Int)}

/-- The boundaries a pass leaves. -/
def movedTo (span : LogSpan) (walk : RecordOrder) (take : Int) (origin : RecordCursor)
    (scan : WindowScan) (limit : Nat) (kept : List (Int × Int)) : Offsets :=
  LogSpan.advanced origin (scan.outcome (span.windows walk take (some origin)) walk).covered kept
    limit

theorem near_abandoned (window : PartitionWindow) (walk : RecordOrder) :
    (abandoned window walk).near walk = window.near walk := by
  cases walk <;> rfl

theorem far_abandoned (window : PartitionWindow) (walk : RecordOrder) :
    (abandoned window walk).far walk = window.near walk := by
  cases walk <;> rfl

/-- Where a pass leaves the boundary of a partition it had a window in. -/
theorem movedTo_window (scan : WindowScan) (limit : Nat) (kept : List (Int × Int))
    (walks : origin.walk = walk) {window : PartitionWindow}
    (listed : window ∈ span.windows walk take (some origin)) :
    (movedTo span walk take origin scan limit kept)[window.partition]? = some
      (if limit ≤ kept.length then
        ((pastFurthest walk kept)[window.partition]?).getD (window.near walk)
      else if window.partition ∈ scan.completed then window.far walk else window.near walk) := by
  have planned := span.planned_windows take walks
  let cover := fun window : PartitionWindow =>
    if window.partition ∈ scan.completed then window else abandoned window walk
  have samePartition : ∀ window, (cover window).partition = window.partition := by
    intro window
    simp only [cover]
    split <;> rfl
  have single : ∀ first ∈ (span.windows walk take (some origin)).map cover,
      ∀ second ∈ (span.windows walk take (some origin)).map cover,
        first.partition = second.partition → first = second := by
    intro first one second two same
    obtain ⟨left, leftListed, rfl⟩ := List.mem_map.mp one
    obtain ⟨right, rightListed, rfl⟩ := List.mem_map.mp two
    rw [samePartition, samePartition] at same
    rw [planned.single left leftListed right rightListed same]
  have moved := LogSpan.advanced_of_covered origin kept limit single
    (List.mem_map_of_mem (f := cover) listed)
  rw [samePartition, walks] at moved
  refine Eq.trans moved ?_
  simp only [cover]
  split <;> split <;> simp only [near_abandoned, far_abandoned]

theorem movedTo_of_no_window {partition : Int}
    (absent : ∀ window ∈ span.windows walk take (some origin), window.partition ≠ partition) :
    (movedTo span walk take origin scan limit kept)[partition]? =
      origin.remaining.offsets[partition]? := by
  refine LogSpan.advanced_of_not_covered fun window listed => ?_
  obtain ⟨planned, member, rfl⟩ := List.mem_map.mp listed
  split
  · exact absent planned member
  · exact absent planned member

/-- The window a record of the span is in, and its edges. -/
theorem window_facts (walks : origin.walk = walk) {window : PartitionWindow}
    (listed : window ∈ span.windows walk take (some origin)) :
    window.partition ∈ span.partitions ∧ ∃ marks boundary,
      span.watermarks window.partition = some marks ∧
      origin.remaining.offsets[window.partition]? = some boundary ∧
      marks.low ≤ window.start ∧ window.start < window.stop ∧ window.stop ≤ marks.high ∧
      window.near walk = clamped walk marks boundary := by
  obtain ⟨partition, member, planned⟩ := LogSpan.mem_windows.mp listed
  obtain ⟨marks, boundary, known, found, rfl, near, far, nonempty⟩ :=
    (LogSpan.window_eq_some_iff walks).mp planned
  refine ⟨member, marks, boundary, known, found, ?_, nonempty, ?_, near⟩
  · cases walk <;> simp only [PartitionWindow.near, PartitionWindow.far, clamped, LogSpan.reach]
      at near far <;> omega
  · cases walk <;> simp only [PartitionWindow.near, PartitionWindow.far, clamped, LogSpan.reach]
      at near far <;> omega

theorem unread_iff_near (walks : origin.walk = walk) {window : PartitionWindow}
    (listed : window ∈ span.windows walk take (some origin)) {raw : RawRecord}
    (holds : log.Holds span raw) (same : window.partition = raw.partition) :
    Unread walk origin.remaining.offsets raw ↔ Ahead walk (window.near walk) raw.offset := by
  obtain ⟨_, marks, boundary, known, found, _, _, _, near⟩ := window_facts walks listed
  obtain ⟨_, _, others, otherKnown, low, high⟩ := holds
  rw [same] at known found
  obtain rfl := Option.some.inj (known.symm.trans otherKnown)
  rw [near, ahead_clamped walk low high]
  constructor
  · rintro ⟨other, otherFound, ahead⟩
    rwa [Option.some.inj (found.symm.trans otherFound)]
  · intro ahead
    exact ⟨boundary, found, ahead⟩

/-- What is ahead of a window's near edge was ahead of the boundary it was cut at. -/
theorem unread_of_near (walks : origin.walk = walk) {window : PartitionWindow}
    (listed : window ∈ span.windows walk take (some origin)) {raw : RawRecord}
    (same : window.partition = raw.partition) (ahead : Ahead walk (window.near walk) raw.offset) :
    Unread walk origin.remaining.offsets raw := by
  obtain ⟨_, marks, boundary, _, found, low, nonempty, high, near⟩ := window_facts walks listed
  rw [same] at found
  refine ⟨boundary, found, ?_⟩
  cases walk <;> simp only [Ahead, PartitionWindow.near, clamped] at ahead near ⊢ <;> omega

theorem of_inWindow (walks : origin.walk = walk) {window : PartitionWindow}
    (listed : window ∈ span.windows walk take (some origin)) {raw : RawRecord}
    (same : window.partition = raw.partition) (inside : raw ∈ log.inWindow window) :
    log.Holds span raw ∧ Unread walk origin.remaining.offsets raw := by
  obtain ⟨inSpan, marks, _, known, _, low, _, high, _⟩ := window_facts walks listed
  obtain ⟨inLog, start, stop⟩ := Log.mem_inWindow.mp inside
  rw [same] at inLog inSpan known
  refine ⟨⟨inLog, inSpan, marks, known, by omega, by omega⟩, ?_⟩
  exact unread_of_near walks listed same ((window.mem_iff_ahead walk _).mp ⟨start, stop⟩).1

/-- What is ahead of a pass is in or beyond a window of it. -/
theorem window_of_unread (walks : origin.walk = walk) (positive : 1 ≤ take) {raw : RawRecord}
    (holds : log.Holds span raw) (unread : Unread walk origin.remaining.offsets raw) :
    ∃ window ∈ span.windows walk take (some origin), window.partition = raw.partition := by
  obtain ⟨_, member, marks, known, low, high⟩ := holds
  obtain ⟨boundary, found, ahead⟩ := unread
  cases planned : span.window walk take (some origin) raw.partition with
  | none =>
    exact absurd ahead
      (LogSpan.not_ahead_of_window_none walks positive planned known found low high)
  | some window =>
    obtain ⟨_, _, _, _, same, _⟩ := (LogSpan.window_eq_some_iff walks).mp planned
    exact ⟨window, LogSpan.mem_windows.mpr ⟨_, member, planned⟩, same⟩

end Boundaries

/-- One pass of a page: its windows were cut at the boundaries of `origin`, the
scan accepted `ranked`, and the places `kept` went into the page. -/
structure PassMade [Crates] (pipeline : RecordPipeline) (log : Log) (span : LogSpan)
    (walk : RecordOrder) (take : Int) (origin : RecordCursor) (scan : WindowScan)
    (ranked : List (Ranked RawRecord)) (limit : Nat) (kept : List (Int × Int)) : Prop where
  walks : origin.walk = walk
  positive : 1 ≤ take
  reads : ∃ seen, Reads log (span.windows walk take (some origin)) seen scan ranked
  holding : Holding pipeline walk ranked limit kept

namespace PassMade
variable [Crates] {pipeline : RecordPipeline} {log : Log} {span : LogSpan} {walk : RecordOrder}
  {take : Int} {origin : RecordCursor} {scan : WindowScan} {ranked : List (Ranked RawRecord)}
  {limit : Nat} {kept : List (Int × Int)}

theorem kept_inside (pass : PassMade pipeline log span walk take origin scan ranked limit kept)
    {window : PartitionWindow} (listed : window ∈ span.windows walk take (some origin)) {offset : Int}
    (member : (window.partition, offset) ∈ kept) : window.start ≤ offset ∧ offset < window.stop := by
  obtain ⟨seen, reads⟩ := pass.reads
  obtain ⟨entry, accepted, _, placed⟩ := pass.holding.subset _ member
  obtain ⟨samePartition, rfl⟩ := Prod.mk.inj placed
  obtain ⟨other, otherListed, same, inside⟩ := reads.accepted_inWindow accepted
  obtain rfl := (span.planned_windows take pass.walks).single _ listed _ otherListed
    (samePartition.symm.trans same.symm)
  exact (Log.mem_inWindow.mp inside).2

theorem kept_unread (pass : PassMade pipeline log span walk take origin scan ranked limit kept)
    {place : Int × Int} (member : place ∈ kept) :
    ∃ raw, raw.place = place ∧ log.Holds span raw ∧ pipeline.passes raw ∧
      Unread walk origin.remaining.offsets raw ∧ ∃ entry ∈ ranked, entry.2 = raw := by
  obtain ⟨seen, reads⟩ := pass.reads
  obtain ⟨entry, listed, passes, placed⟩ := pass.holding.subset place member
  obtain ⟨window, planned, same, inside⟩ := reads.accepted_inWindow listed
  obtain ⟨holds, unread⟩ := of_inWindow pass.walks planned same inside
  exact ⟨entry.2, placed, holds, passes, unread, entry, listed, rfl⟩

theorem origin_of_moved (pass : PassMade pipeline log span walk take origin scan ranked limit kept)
    {partition : Int}
    (moved : (movedTo span walk take origin scan limit kept)[partition]?.isSome) :
    origin.remaining.offsets[partition]?.isSome := by
  by_cases planned : ∃ window ∈ span.windows walk take (some origin), window.partition = partition
  · obtain ⟨window, listed, rfl⟩ := planned
    obtain ⟨_, _, boundary, _, found, _⟩ := window_facts pass.walks listed
    simp [found]
  · rwa [movedTo_of_no_window fun window listed same => planned ⟨window, listed, same⟩] at moved

theorem unread_of_moved (pass : PassMade pipeline log span walk take origin scan ranked limit kept)
    {raw : RawRecord} (unread : Unread walk (movedTo span walk take origin scan limit kept) raw) :
    Unread walk origin.remaining.offsets raw := by
  obtain ⟨boundary, found, ahead⟩ := unread
  by_cases planned : ∃ window ∈ span.windows walk take (some origin),
      window.partition = raw.partition
  swap
  · rw [movedTo_of_no_window fun window listed same => planned ⟨window, listed, same⟩] at found
    exact ⟨boundary, found, ahead⟩
  obtain ⟨window, listed, same⟩ := planned
  refine unread_of_near pass.walks listed same ?_
  rw [← same, movedTo_window _ _ _ pass.walks listed] at found
  obtain rfl := Option.some.inj found
  obtain ⟨_, _, _, _, _, _, nonempty, _, _⟩ := window_facts pass.walks listed
  split at ahead
  · have furthest := pastFurthest_spec walk kept window.partition
    generalize (pastFurthest walk kept)[window.partition]? = edge at furthest ahead
    cases furthest with
    | nowhere => exact ahead
    | «at» last member behind =>
      have inside := pass.kept_inside listed member
      rw [window.mem_iff_ahead walk] at inside
      generalize window.near walk = near at inside ⊢
      rw [Option.getD_some] at ahead
      cases walk <;> simp only [Ahead, past] at ahead inside ⊢ <;> omega
  · split at ahead
    · cases walk <;> simp only [Ahead, PartitionWindow.near, PartitionWindow.far] at ahead ⊢ <;> omega
    · exact ahead

theorem moved_of_beyond (pass : PassMade pipeline log span walk take origin scan ranked limit kept)
    {raw : RawRecord} {marks : Watermarks} (known : span.watermarks raw.partition = some marks)
    (beyond : Beyond walk marks raw.offset) (unread : Unread walk origin.remaining.offsets raw) :
    Unread walk (movedTo span walk take origin scan limit kept) raw := by
  by_cases planned : ∃ window ∈ span.windows walk take (some origin),
      window.partition = raw.partition
  swap
  · unfold Unread
    rw [movedTo_of_no_window fun window listed same => planned ⟨window, listed, same⟩]
    exact unread
  obtain ⟨window, listed, same⟩ := planned
  obtain ⟨_, others, _, otherKnown, _, low, nonempty, high, _⟩ := window_facts pass.walks listed
  rw [same] at otherKnown
  obtain rfl := Option.some.inj (known.symm.trans otherKnown)
  have moved := movedTo_window scan limit kept pass.walks listed
  rw [same] at moved
  refine ⟨_, moved, ?_⟩
  split
  · have furthest := pastFurthest_spec walk kept raw.partition
    generalize (pastFurthest walk kept)[raw.partition]? = edge at furthest ⊢
    cases furthest with
    | nowhere =>
      cases walk <;> simp only [Ahead, Beyond, PartitionWindow.near, Option.getD_none] at beyond ⊢ <;>
        omega
    | «at» last member behind =>
      have inside := pass.kept_inside listed (same ▸ member)
      cases walk <;> simp only [Ahead, Beyond, past, Option.getD_some] at beyond ⊢ <;> omega
  · split <;> cases walk <;>
      simp only [Ahead, Beyond, PartitionWindow.near, PartitionWindow.far] at beyond ⊢ <;> omega

/-- What a pass keeps is behind it, unless the page stays short and the
partition's window was not finished. -/
theorem kept_behind (pass : PassMade pipeline log span walk take origin scan ranked limit kept)
    {raw : RawRecord} (member : raw.place ∈ kept)
    (settled : limit ≤ kept.length ∨ raw.partition ∈ scan.completed) :
    ¬ Unread walk (movedTo span walk take origin scan limit kept) raw := by
  rintro ⟨boundary, found, ahead⟩
  obtain ⟨seen, reads⟩ := pass.reads
  obtain ⟨entry, accepted, _, placed⟩ := pass.holding.subset _ member
  obtain ⟨window, listed, same, inside⟩ := reads.accepted_inWindow accepted
  obtain ⟨samePartition, sameOffset⟩ := Prod.mk.inj placed
  rw [← samePartition, ← same, movedTo_window _ _ _ pass.walks listed] at found
  obtain rfl := Option.some.inj found
  have place : (window.partition, raw.offset) ∈ kept := by
    rw [same, samePartition]
    exact member
  split at ahead
  · have furthest := pastFurthest_spec walk kept window.partition
    generalize (pastFurthest walk kept)[window.partition]? = edge at furthest ahead
    cases furthest with
    | nowhere absent => exact absent _ place
    | «at» last lastMember behind => exact behind _ place ahead
  · rename_i short
    have done : window.partition ∈ scan.completed := by
      rw [same, samePartition]
      exact settled.resolve_left short
    rw [if_pos done, ← sameOffset] at ahead
    exact ((window.mem_iff_ahead walk _).mp (Log.mem_inWindow.mp inside).2).2 ahead

/-- A short pass leaves what it read of a finished window behind. -/
theorem accepted_behind (pass : PassMade pipeline log span walk take origin scan ranked limit kept)
    (short : kept.length < limit) {entry : Ranked RawRecord} (accepted : entry ∈ ranked)
    (done : entry.2.partition ∈ scan.completed) :
    ¬ Unread walk (movedTo span walk take origin scan limit kept) entry.2 := by
  rintro ⟨boundary, found, ahead⟩
  obtain ⟨seen, reads⟩ := pass.reads
  obtain ⟨window, listed, same, inside⟩ := reads.accepted_inWindow accepted
  rw [← same, movedTo_window _ _ _ pass.walks listed, if_neg (by omega), if_pos (same ▸ done)] at found
  obtain rfl := Option.some.inj found
  exact ((window.mem_iff_ahead walk _).mp (Log.mem_inWindow.mp inside).2).2 ahead

/-- A record the pass read and passed over is kept when it passes the filter. -/
theorem kept_of_passed_over
    (pass : PassMade pipeline log span walk take origin scan ranked limit kept) {raw : RawRecord}
    (holds : log.Holds span raw) (unread : Unread walk origin.remaining.offsets raw)
    (behind : ¬ Unread walk (movedTo span walk take origin scan limit kept) raw)
    (accepted : ∃ entry ∈ ranked, entry.2 = raw) (passes : pipeline.passes raw) :
    raw.place ∈ kept := by
  obtain ⟨entry, member, rfl⟩ := accepted
  by_cases full : limit ≤ kept.length
  swap
  · exact pass.holding.all (by omega) entry member passes
  obtain ⟨window, listed, same⟩ := window_of_unread pass.walks pass.positive holds unread
  have moved := movedTo_window scan limit kept pass.walks listed
  rw [if_pos full, same] at moved
  have notAhead : ¬ Ahead walk _ entry.2.offset := fun ahead => behind ⟨_, moved, ahead⟩
  have furthest := pastFurthest_spec walk kept entry.2.partition
  generalize (pastFurthest walk kept)[entry.2.partition]? = edge at furthest notAhead
  cases furthest with
  | nowhere =>
    exact absurd ((unread_iff_near pass.walks listed holds same).mp unread) notAhead
  | «at» last lastMember _ => exact pass.holding.closed entry member passes last lastMember notAhead

/-- What a pass passed over it had read, except on a full page whose walk goes
against the order the consumer reads in. -/
theorem accepted_of_passed_over
    (pass : PassMade pipeline log span walk take origin scan ranked limit kept) {raw : RawRecord}
    (holds : log.Holds span raw) (unread : Unread walk origin.remaining.offsets raw)
    (behind : ¬ Unread walk (movedTo span walk take origin scan limit kept) raw)
    (fair : walk = .oldest ∨ raw.partition ∈ scan.completed ∨ kept.length < limit) :
    ∃ entry ∈ ranked, entry.2 = raw := by
  obtain ⟨seen, reads⟩ := pass.reads
  obtain ⟨window, listed, same⟩ := window_of_unread pass.walks pass.positive holds unread
  have ahead := (unread_iff_near pass.walks listed holds same).mp unread
  have moved := movedTo_window scan limit kept pass.walks listed
  rw [same] at moved
  have notAhead : ¬ Ahead walk _ raw.offset := fun ahead => behind ⟨_, moved, ahead⟩
  have inLog : raw ∈ log.records window.partition := by
    rw [same]
    exact holds.1
  split at notAhead
  · rename_i full
    have furthest := pastFurthest_spec walk kept raw.partition
    generalize (pastFurthest walk kept)[raw.partition]? = edge at furthest notAhead
    cases furthest with
    | nowhere => exact absurd ahead notAhead
    | «at» last lastMember _ =>
      obtain ⟨entry, member, _, placed⟩ := pass.holding.subset _ lastMember
      obtain ⟨samePartition, sameOffset⟩ := Prod.mk.inj placed
      obtain ⟨other, otherListed, otherSame, otherInside⟩ := reads.accepted_inWindow member
      obtain rfl := (span.planned_windows take pass.walks).single _ listed _ otherListed
        (by rw [same, otherSame, samePartition])
      have edges := (Log.mem_inWindow.mp otherInside).2
      have inside : raw ∈ log.inWindow window := by
        refine Log.mem_inWindow.mpr ⟨inLog, ?_⟩
        rw [Option.getD_some] at notAhead
        cases walk <;> simp only [Ahead, past, PartitionWindow.near] at ahead notAhead <;> omega
      rcases fair with rfl | done | short
      · refine reads.accepted_of_le listed member otherSame.symm inside ?_
        simp only [Ahead, past, Option.getD_some] at notAhead
        omega
      · exact reads.accepted_of_completed listed (same ▸ done) inside
      · omega
  · split at notAhead
    · rename_i done
      have inside : raw ∈ log.inWindow window := Log.mem_inWindow.mpr
        ⟨inLog, (window.mem_iff_ahead walk _).mpr ⟨ahead, notAhead⟩⟩
      exact reads.accepted_of_completed listed (same ▸ done) inside
    · exact absurd ahead notAhead

end PassMade
end Klens.Scan
