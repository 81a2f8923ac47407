import Klens.Store.LagProofs

/-! The lag of a group in each of its views, and of each of its members. -/
namespace Klens.App
open Klens.Lib Klens.Store

/-- `lag.zip(more)`, summed: unknown when either is. -/
def addLag (lag more : Option Int) : Option Int := do
  let sum ← lag
  let more ← more
  some (sum + more)

def holdLag (held : Std.ExtTreeMap String (Option Int)) (offset : GroupOffset) :
    Std.ExtTreeMap String (Option Int) :=
  match offset.memberId with
  | some member => held.insert member (addLag (held[member]?.getD (some 0)) offset.lag)
  | none => held

def memberLags (group : GroupDetail) : List (Option Int) :=
  let held := group.offsets.foldl holdLag ∅
  group.members.map fun member =>
    group.totalLag.bind fun _ => held[member.id]?.getD (some 0)

/-- A sum that is known when all its parts are. -/
def sumAll (lags : List (Option Int)) : Option Int := (lags.mapM id).map List.sum

theorem sumAll_some (lags : List Int) : sumAll (lags.map some) = some lags.sum := by
  have all : lags.mapM (fun lag => some lag) = some lags := by
    simpa using List.mapM_pure (m := Option) (l := lags) (f := id)
  rw [sumAll, List.mapM_map]
  exact congrArg (Option.map List.sum) all

/-- Lags that are all known are summed as they are. -/
theorem sumAll_known {rows : List GroupOffset} (known : ∀ row ∈ rows, row.lag.isSome) :
    sumAll (rows.map GroupOffset.lag) = some (knownLag rows) := by
  have read : rows.map GroupOffset.lag = (rows.map fun row => row.lag.getD 0).map some := by
    rw [List.map_map]
    refine List.map_congr_left fun row listed => ?_
    obtain ⟨lag, here⟩ := Option.isSome_iff_exists.mp (known row listed)
    simp [here]
  rw [read, sumAll_some, knownLag]

private theorem holdLag_touches : ByKey.Touches GroupOffset.memberId
    (fun offset held => some (addLag (held.getD (some 0)) offset.lag)) holdLag := by
  intro held offset name
  cases owner : offset.memberId with
  | none => simp [holdLag, owner]
  | some member =>
    simp only [holdLag, owner, Option.some.injEq, Std.ExtTreeMap.getElem?_insert]
    by_cases same : member = name
    · subst same
      simp
    · have apart : compare member name ≠ .eq := mt Std.LawfulEqCmp.eq_of_compare same
      simp [same, apart]

private theorem foldl_addLag {rows : List GroupOffset} (known : ∀ row ∈ rows, row.lag.isSome)
    {held : Option (Option Int)} {start : Int} (here : held.getD (some 0) = some start) :
    (rows.foldl (fun held row => some (addLag (held.getD (some 0)) row.lag)) held).getD (some 0) =
      some (start + knownLag rows) := by
  induction rows generalizing held start with
  | nil => simpa [knownLag] using here
  | cons row rows ih =>
    obtain ⟨lag, read⟩ := Option.isSome_iff_exists.mp (known row (by simp))
    have next : (some (addLag (held.getD (some 0)) row.lag)).getD (some 0) = some (start + lag) := by
      rw [here, read]
      rfl
    rw [List.foldl_cons, ih (fun other member => known other (.tail _ member)) next]
    simp [knownLag, read, add_assoc]

/-- Where every lag is known, a member's is that of the rows it holds. -/
theorem memberLags_known {group : GroupDetail} {total : Int} (read : group.totalLag = some total)
    (known : ∀ row ∈ group.offsets, row.lag.isSome) :
    memberLags group = (group.members.map fun member =>
      knownLag (group.offsets.filter fun row => decide (row.memberId = some member.id))).map some := by
  rw [memberLags, List.map_map]
  refine List.map_congr_left fun member _ => ?_
  have mine : ∀ row ∈ group.offsets.filter fun row => decide (row.memberId = some member.id),
      row.lag.isSome := fun row held => known row (List.mem_of_mem_filter held)
  have fresh : (∅ : Std.ExtTreeMap String (Option Int))[member.id]?.getD (some (0 : Int)) =
      some 0 := by
    simp
  rw [read, Option.bind_some, holdLag_touches.getElem?_foldl, foldl_addLag mine fresh, zero_add]
  rfl

/-- Before offsets are read, no lag is known. -/
theorem memberLags_unread {group : GroupDetail} (unread : group.totalLag = none) :
    ∀ lag ∈ memberLags group, lag = none := by
  intro lag listed
  obtain ⟨member, _, rfl⟩ := List.mem_map.mp listed
  rw [unread, Option.bind_none]

/-- A group's lag is one number in every view: its row, its detail, its topics,
its partitions and its members all add up to it. -/
theorem lag_adds_up (id : String) (group : GroupInfo) (offsets : Option GroupOffsets)
    (watermarks : Option WatermarkTable) :
    let row := GroupRow.project id group offsets watermarks
    let detail := GroupDetail.project id group offsets watermarks
    (row.totalLag = detail.totalLag ∧ row.lagComplete = detail.lagComplete) ∧
    (row.topicNames.Nodup ∧
      (detail.offsets.map fun offset => (offset.topic, offset.partition)).Nodup) ∧
    (offsets.isSome →
      row.totalLag = sumAll (row.topicNames.map fun topic =>
        (TopicGroupRow.project id topic group offsets watermarks).lagOnTopic) ∧
      row.totalLag = some (detail.offsets.filterMap GroupOffset.lag).sum) ∧
    (offsets.isSome → detail.lagComplete → (detail.members.map GroupMember.id).Nodup →
      row.totalLag = addLag (sumAll (memberLags detail))
        (sumAll ((detail.offsets.filter fun offset => offset.memberId.isNone).map
          GroupOffset.lag))) ∧
    (offsets.isNone → row.totalLag = none ∧ ∀ lag ∈ memberLags detail, lag = none) := by
  intro row detail
  have total : row.totalLag = detail.totalLag := (GroupLag.project_total _ _ _).symm
  have complete : row.lagComplete = detail.lagComplete := (GroupLag.project_complete _ _ _).symm
  have counted : detail.totalLag =
      if offsets.isSome then some (knownLag detail.offsets) else none := GroupLag.total_eq _ _ _
  refine ⟨⟨total, complete⟩, ⟨sortDedup_nodup _, GroupLag.offsets_nodup _ _ _⟩, fun read => ?_,
    fun read whole distinct => ?_, fun unread => ?_⟩
  · rw [if_pos read] at counted
    have topics : (row.topicNames.map fun topic =>
        (TopicGroupRow.project id topic group offsets watermarks).lagOnTopic) =
        (row.topicNames.map fun topic => knownLag (detail.offsets.filter
          fun offset => decide (offset.topic = topic))).map some := by
      rw [List.map_map]
      exact List.map_congr_left fun topic _ => by rw [lagOnTopic_eq, if_pos read]; rfl
    rw [topics, sumAll_some, total, counted, sum_filterMap_lag]
    exact ⟨congrArg some (sum_topics group offsets watermarks id).symm, rfl⟩
  · rw [if_pos read] at counted
    have known := (GroupLag.complete_iff group offsets watermarks).mp whole
    have free : ∀ offset ∈ detail.offsets.filter fun offset => offset.memberId.isNone,
        offset.lag.isSome := fun offset held => known offset (List.mem_of_mem_filter held)
    rw [memberLags_known counted known, sumAll_some, sumAll_known free, total, counted]
    exact congrArg some (sum_members group offsets watermarks distinct).symm
  · have none : detail.totalLag = none := by
      rw [counted, if_neg (by simpa using unread)]
    exact ⟨total.trans none, memberLags_unread none⟩

private def billingGroup : GroupInfo :=
  { state := .stable
    protocol := "range"
    members := [⟨"a", "billing-a", "host", [⟨"orders", [0, 1]⟩, ⟨"payments", [0]⟩]⟩,
      ⟨"b", "billing-b", "host", [⟨"orders", [1]⟩]⟩] }

private def billingOffsets : GroupOffsets :=
  { committed := [⟨"orders", 0, 7⟩, ⟨"payments", 0, 2⟩, ⟨"payments", 1, 1⟩] }

private def marksAt (highs : List (Int × Int)) : Std.ExtTreeMap Int Watermarks :=
  .ofList (highs.map fun high => (high.1, Scan.Watermarks.mk 0 high.2))

private def billingMarks : WatermarkTable :=
  { marks := .ofList [("orders", marksAt [(0, 10), (1, 4)]), ("payments", marksAt [(0, 6), (1, 6)])] }

/-- Two members hold one partition, and one partition nobody holds. -/
theorem lag_adds_up_billing :
    let detail := GroupDetail.project "billing" billingGroup (some billingOffsets) (some billingMarks)
    (memberLags detail = [some 11, some 0] ∧ detail.totalLag = some 16) ∧
    (GroupRow.project "billing" billingGroup (some billingOffsets) (some billingMarks)).totalLag =
      addLag (sumAll (memberLags detail))
        (sumAll ((detail.offsets.filter fun offset => offset.memberId.isNone).map
          GroupOffset.lag)) :=
  ⟨by decide,
    (lag_adds_up "billing" billingGroup (some billingOffsets) (some billingMarks)).2.2.2.1 rfl
      (by decide) (by decide)⟩

end Klens.App
