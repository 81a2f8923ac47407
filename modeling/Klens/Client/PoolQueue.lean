import Klens.Client.Pool
import Mathlib.Data.List.InsertIdx
import Mathlib.Data.List.Sort

/-! The queue of parked consumers: its order, its bounds, and where the
consumers go that an operation takes out of it. -/
namespace Klens.Client

namespace ScanPoolInner
variable {inner : ScanPoolInner} {topic : String} {now : Nat}

/-- The consumers that are parked, oldest first. -/
def consumers (inner : ScanPoolInner) : List Consumer := inner.parked.map Parked.consumer

def ofTopic (inner : ScanPoolInner) (topic : String) : List Parked :=
  inner.parked.filter fun parked => parked.topic = topic

/-- The queue is ordered by the time its entries were parked, none of them in
the future, and within its bounds. -/
structure Bounded (tuning : ScanTuning) (clock : Nat) (inner : ScanPoolInner) : Prop where
  maxPerTopic : inner.maxPerTopic = tuning.poolPerTopic
  maxTotal : inner.maxTotal = tuning.poolTotal
  ttl : inner.ttl = tuning.poolIdleTtl
  ordered : inner.parked.Pairwise fun older newer => older.since ≤ newer.since
  past : ∀ parked ∈ inner.parked, parked.since ≤ clock
  total : inner.parked.length ≤ tuning.poolTotal
  perTopic : ∀ topic, (inner.ofTopic topic).length ≤ tuning.poolPerTopic

theorem Bounded.later {tuning : ScanTuning} {clock : Nat} (bounded : inner.Bounded tuning clock)
    (passed : clock ≤ now) : inner.Bounded tuning now :=
  { bounded with past := fun parked held => (bounded.past parked held).trans passed }

/-- What is left of a queue keeps its order and its bounds. -/
theorem Bounded.sublist {tuning : ScanTuning} {clock : Nat} {parked : List Parked}
    (bounded : inner.Bounded tuning clock) (left : parked.Sublist inner.parked) :
    ({ inner with parked } : ScanPoolInner).Bounded tuning clock where
  maxPerTopic := bounded.maxPerTopic
  maxTotal := bounded.maxTotal
  ttl := bounded.ttl
  ordered := bounded.ordered.sublist left
  past entry held := bounded.past entry (left.subset held)
  total := left.length_le.trans bounded.total
  perTopic topic := ((left.filter _).length_le).trans (bounded.perTopic topic)

section Expire

theorem expireFront_append (ttl : Nat) (queue : List Parked) (evicted : List Consumer) :
    (expireFront ttl now queue evicted).2 ++
      (expireFront ttl now queue evicted).1.map Parked.consumer =
        evicted ++ queue.map Parked.consumer := by
  induction queue generalizing evicted with
  | nil => simp [expireFront]
  | cons parked rest ih =>
    unfold expireFront
    split
    · simp [ih]
    · rfl

theorem expireFront_suffix (ttl : Nat) (queue : List Parked) (evicted : List Consumer) :
    (expireFront ttl now queue evicted).1 <:+ queue := by
  induction queue generalizing evicted with
  | nil => exact List.suffix_refl _
  | cons parked rest ih =>
    unfold expireFront
    split
    · exact (ih _).trans (List.suffix_cons parked rest)
    · exact List.suffix_refl _

/-- Stopping at the first young entry misses no old one in a queue ordered by time. -/
theorem expireFront_eq {ttl : Nat} {queue : List Parked} (evicted : List Consumer)
    (ordered : queue.Pairwise fun older newer => older.since ≤ newer.since) :
    expireFront ttl now queue evicted =
      (queue.filter fun parked => now - parked.since ≤ ttl,
        evicted ++ (queue.filter fun parked => ttl < now - parked.since).map Parked.consumer) := by
  induction queue generalizing evicted with
  | nil => simp [expireFront]
  | cons parked rest ih =>
    obtain ⟨oldest, rest_ordered⟩ := List.pairwise_cons.mp ordered
    unfold expireFront
    split
    · rename_i old
      rw [ih _ rest_ordered, List.filter_cons_of_neg (by simpa using not_le.mpr old),
        List.filter_cons_of_pos (by simpa using old), List.map_cons, List.append_assoc]
      rfl
    · rename_i young
      have kept : ∀ entry ∈ parked :: rest, now - entry.since ≤ ttl := by
        intro entry held
        rcases List.mem_cons.mp held with rfl | later
        · exact not_lt.mp young
        · exact (Nat.sub_le_sub_left (oldest entry later) now).trans (not_lt.mp young)
      rw [List.filter_eq_self.mpr (by simpa using kept),
        List.filter_eq_nil_iff.mpr (by simpa using kept), List.map_nil, List.append_nil]

theorem expire_eq (ordered : inner.parked.Pairwise fun older newer => older.since ≤ newer.since)
    (evicted : List Consumer) : inner.expire now evicted =
      ({ inner with parked := inner.parked.filter fun parked => now - parked.since ≤ inner.ttl },
        evicted ++
          (inner.parked.filter fun parked => inner.ttl < now - parked.since).map Parked.consumer) := by
  unfold expire
  rw [expireFront_eq evicted ordered]

theorem expire_append (inner : ScanPoolInner) (now : Nat) (evicted : List Consumer) :
    (inner.expire now evicted).2 ++ (inner.expire now evicted).1.consumers =
      evicted ++ inner.consumers :=
  expireFront_append inner.ttl inner.parked evicted

theorem Bounded.expire {tuning : ScanTuning} {clock : Nat} (bounded : inner.Bounded tuning clock)
    (now : Nat) (evicted : List Consumer) : (inner.expire now evicted).1.Bounded tuning clock :=
  bounded.sublist (expireFront_suffix inner.ttl inner.parked evicted).sublist

end Expire

section Take

theorem newestIndex_eq_some {queue : List Parked} {index : Nat}
    (found : newestIndex topic queue = some index) :
    ∃ parked, queue[index]? = some parked ∧ parked.topic = topic := by
  induction queue generalizing index with
  | nil => contradiction
  | cons parked rest ih =>
    unfold newestIndex at found
    split at found
    · obtain rfl := Option.some.inj found
      simpa using ih ‹_›
    · obtain ⟨same, first⟩ := Option.ite_none_right_eq_some.mp found
      obtain rfl := Option.some.inj first
      exact ⟨parked, rfl, same⟩

theorem newestIndex_eq_none {queue : List Parked} (absent : newestIndex topic queue = none) :
    ∀ parked ∈ queue, parked.topic ≠ topic := by
  induction queue with
  | nil => simp
  | cons parked rest ih =>
    unfold newestIndex at absent
    split at absent
    · contradiction
    · rename_i later
      have other : parked.topic ≠ topic := fun same => by simp [same] at absent
      exact List.forall_mem_cons.mpr ⟨other, ih later⟩

theorem removeNewest_eq_none (absent : inner.removeNewest topic = none) :
    ∀ parked ∈ inner.parked, parked.topic ≠ topic := by
  refine newestIndex_eq_none ?_
  cases found : newestIndex topic inner.parked with
  | none => rfl
  | some index =>
    obtain ⟨parked, held, _⟩ := newestIndex_eq_some found
    simp [removeNewest, found, held] at absent

/-- What `removeNewest` takes out of the queue. -/
theorem removeNewest_eq_some {candidate : Parked} {rest : ScanPoolInner}
    (removed : inner.removeNewest topic = some (candidate, rest)) :
    rest.parked.Sublist inner.parked ∧ inner.parked.Perm (candidate :: rest.parked) ∧
      rest = { inner with parked := rest.parked } ∧ candidate.topic = topic := by
  obtain ⟨index, found, removed⟩ := Option.bind_eq_some_iff.mp removed
  obtain ⟨parked, held, same⟩ := Option.bind_eq_some_iff.mp removed
  cases same
  obtain ⟨bound, rfl⟩ := List.getElem?_eq_some_iff.mp held
  obtain ⟨_, there, ofTopic⟩ := newestIndex_eq_some found
  obtain rfl := Option.some.inj (held.symm.trans there)
  refine ⟨List.eraseIdx_sublist .., ?_, rfl, ofTopic⟩
  conv_lhs => rw [← List.insertIdx_eraseIdx_getElem bound]
  refine List.perm_insertIdx _ _ ?_
  rw [List.length_eraseIdx_of_lt bound]
  omega

/-- The consumers a `take` was given are handed out, evicted, or still parked. -/
theorem takeNewest_spec {tuning : ScanTuning} {clock : Nat} (closed : Consumer → Bool)
    (turns : Nat) (evicted : List Consumer) (bounded : inner.Bounded tuning clock) :
    let taken := takeNewest closed topic turns inner evicted
    (taken.1.toList ++ taken.2.2 ++ taken.2.1.consumers).Perm (evicted ++ inner.consumers) ∧
      taken.2.1.Bounded tuning clock := by
  induction turns generalizing inner evicted with
  | zero => exact ⟨.refl _, bounded⟩
  | succ turns ih =>
    unfold takeNewest
    cases removed : inner.removeNewest topic with
    | none => exact ⟨.refl _, bounded⟩
    | some found =>
      obtain ⟨candidate, rest⟩ := found
      obtain ⟨left, split_, same, _⟩ := removeNewest_eq_some removed
      have kept : rest.Bounded tuning clock := by
        rw [same]
        exact bounded.sublist left
      have moved : (candidate.consumer :: rest.consumers).Perm inner.consumers :=
        (split_.map Parked.consumer).symm
      dsimp only
      split
      · obtain ⟨custody, bounded⟩ := ih (evicted ++ [candidate.consumer]) kept
        refine ⟨custody.trans ?_, bounded⟩
        rw [List.append_assoc]
        exact moved.append_left evicted
      · refine ⟨?_, kept⟩
        exact List.perm_middle.symm.trans (moved.append_left evicted)

theorem takeNewest_some (closed : Consumer → Bool) {turns : Nat} {evicted : List Consumer}
    {consumer : Consumer} (taken : (takeNewest closed topic turns inner evicted).1 = some consumer) :
    closed consumer = false ∧
      ∃ parked ∈ inner.parked, parked.consumer = consumer ∧ parked.topic = topic := by
  induction turns generalizing inner evicted with
  | zero => contradiction
  | succ turns ih =>
    unfold takeNewest at taken
    cases removed : inner.removeNewest topic with
    | none => simp [removed] at taken
    | some found =>
      obtain ⟨candidate, rest⟩ := found
      obtain ⟨left, split_, _, ofTopic⟩ := removeNewest_eq_some removed
      simp only [removed] at taken
      split at taken
      · obtain ⟨open_, parked, held, same⟩ := ih taken
        exact ⟨open_, parked, left.subset held, same⟩
      · rename_i open_
        obtain rfl := Option.some.inj taken
        exact ⟨by simpa using open_, candidate, split_.mem_iff.mpr List.mem_cons_self, rfl, ofTopic⟩

/-- With a turn for every entry, the loop ends only at a consumer it can hand
out or where there is none of the topic left. -/
theorem takeNewest_none (closed : Consumer → Bool) {turns : Nat} {evicted : List Consumer}
    (enough : inner.parked.length ≤ turns)
    (none_ : (takeNewest closed topic turns inner evicted).1 = none) :
    (takeNewest closed topic turns inner evicted).2.1.removeNewest topic = none := by
  induction turns generalizing inner evicted with
  | zero =>
    have empty : inner.parked = [] := List.eq_nil_of_length_eq_zero (by omega)
    simp [takeNewest, removeNewest, empty, newestIndex]
  | succ turns ih =>
    unfold takeNewest at none_ ⊢
    cases removed : inner.removeNewest topic with
    | none => simp [removed]
    | some found =>
      obtain ⟨candidate, rest⟩ := found
      have shorter := (removeNewest_eq_some removed).2.1.length_eq
      rw [List.length_cons] at shorter
      simp only [removed] at none_ ⊢
      split at none_
      · rename_i shut
        rw [if_pos shut]
        exact ih (by omega) none_
      · contradiction

end Take

theorem consumers_append (inner : ScanPoolInner) (entry : Parked) :
    ({ inner with parked := inner.parked ++ [entry] } : ScanPoolInner).consumers =
      inner.consumers ++ [entry.consumer] := List.map_append

theorem Bounded.push {tuning : ScanTuning} {clock : Nat} {entry : Parked}
    (bounded : inner.Bounded tuning clock) (now : entry.since = clock)
    (total : inner.parked.length < inner.maxTotal)
    (perTopic : (inner.ofTopic entry.topic).length < inner.maxPerTopic) :
    ({ inner with parked := inner.parked ++ [entry] } : ScanPoolInner).Bounded tuning clock where
  maxPerTopic := bounded.maxPerTopic
  maxTotal := bounded.maxTotal
  ttl := bounded.ttl
  ordered := by
    refine List.pairwise_append.mpr ⟨bounded.ordered, List.pairwise_singleton .., ?_⟩
    intro older held newer last
    rw [List.mem_singleton.mp last, now]
    exact bounded.past older held
  past parked held := by
    rcases List.mem_append.mp held with before | last
    · exact bounded.past parked before
    · exact (congrArg Parked.since (List.mem_singleton.mp last)).trans now |>.le
  total := by
    rw [bounded.maxTotal] at total
    rw [List.length_append, List.length_singleton]
    omega
  perTopic topic := by
    have room := bounded.perTopic topic
    rw [bounded.maxPerTopic] at perTopic
    unfold ofTopic at perTopic room ⊢
    rw [List.filter_append, List.length_append]
    by_cases same : entry.topic = topic
    · subst same
      rw [List.filter_singleton, decide_eq_true rfl]
      exact perTopic
    · simpa [same] using room

theorem Bounded.take {tuning : ScanTuning} {clock : Nat} (bounded : inner.Bounded tuning clock)
    (topic : String) (closed : Consumer → Bool) (now : Nat) :
    let taken := inner.take topic closed now []
    (taken.1.toList ++ taken.2.2 ++ taken.2.1.consumers).Perm inner.consumers ∧
      taken.2.1.Bounded tuning clock := by
  have expired := expire_append inner now []
  obtain ⟨custody, kept⟩ := @takeNewest_spec _ topic _ _ closed
    (inner.expire now []).1.parked.length (inner.expire now []).2 (bounded.expire now [])
  exact ⟨custody.trans (.of_eq expired), kept⟩

/-- A `take` hands out a consumer parked for the topic that is open and not too old. -/
theorem Bounded.take_some {tuning : ScanTuning} {clock : Nat} (bounded : inner.Bounded tuning clock)
    {closed : Consumer → Bool} {evicted : List Consumer} {consumer : Consumer}
    (taken : (inner.take topic closed now evicted).1 = some consumer) :
    closed consumer = false ∧ ∃ parked ∈ inner.parked, parked.consumer = consumer ∧
      parked.topic = topic ∧ now - parked.since ≤ tuning.poolIdleTtl := by
  unfold ScanPoolInner.take at taken
  rw [expire_eq bounded.ordered] at taken
  obtain ⟨open_, parked, held, same, ofTopic⟩ := takeNewest_some closed taken
  obtain ⟨held, young⟩ := List.mem_filter.mp held
  exact ⟨open_, parked, held, same, ofTopic, bounded.ttl ▸ of_decide_eq_true young⟩

/-- A `take` that hands nothing out leaves no consumer of the topic parked. -/
theorem take_none {closed : Consumer → Bool} {evicted : List Consumer}
    (absent : (inner.take topic closed now evicted).1 = none) :
    ∀ parked ∈ (inner.take topic closed now evicted).2.1.parked, parked.topic ≠ topic :=
  removeNewest_eq_none (takeNewest_none closed le_rfl absent)

/-- A consumer that comes back is parked last, or evicted when there is no room. -/
theorem Bounded.park {tuning : ScanTuning} {clock since : Nat} (bounded : inner.Bounded tuning clock)
    (topic : String) (consumer : Consumer) (passed : clock ≤ now) (later : now ≤ since) :
    let parked := inner.park topic consumer now since []
    (parked.2 ++ parked.1.consumers).Perm (consumer :: inner.consumers) ∧
      parked.1.Bounded tuning since := by
  have expired := expire_append inner now []
  have kept := (bounded.expire now []).later (passed.trans later)
  unfold ScanPoolInner.park
  generalize inner.expire now [] = left at expired kept
  obtain ⟨left, evicted⟩ := left
  dsimp only at expired kept ⊢
  rw [List.nil_append] at expired
  split
  · refine ⟨?_, kept⟩
    rw [← expired, List.append_assoc]
    exact List.perm_middle
  · rename_i room
    obtain ⟨total, perTopic⟩ := not_or.mp room
    refine ⟨?_, @Bounded.push _ _ _ { topic, consumer, since } kept rfl (not_le.mp total)
      (not_le.mp perTopic)⟩
    rw [consumers_append, ← expired, ← List.append_assoc]
    exact List.perm_append_singleton ..

end ScanPoolInner
end Klens.Client
