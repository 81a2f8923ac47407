import Mathlib.Data.List.Sort
import Mathlib.Data.List.Perm.Subperm

/-! The best few of what was offered, kept ascending. `offer` is one step of a
bounded priority queue; `Best` says what such a queue holds without saying in
which order anything was offered. -/
namespace Klens.Lib

section Operations
variable {α : Type*} (lt : α → α → Prop) [DecidableRel lt]

/-- Insertion into an ascending list, after everything `x` does not precede. -/
def insertAfter (x : α) : List α → List α
  | [] => [x]
  | y :: ys => if lt x y then x :: y :: ys else y :: insertAfter x ys

/-- Take `x` in, and let the last one go once `limit` are held. -/
def offer (limit : Nat) (x : α) (kept : List α) : List α :=
  if kept.length < limit then insertAfter lt x kept
  else match kept.getLast? with
    | some worst => if lt x worst then insertAfter lt x kept.dropLast else kept
    | none => kept

theorem insertAfter_perm (x : α) (kept : List α) : (insertAfter lt x kept).Perm (x :: kept) := by
  induction kept with
  | nil => exact .refl _
  | cons y ys ih =>
    unfold insertAfter
    split
    · exact .refl _
    · exact (ih.cons y).trans (.swap x y ys)

variable {lt} in
theorem mem_offer {limit : Nat} {x y : α} {kept : List α} (held : y ∈ offer lt limit x kept) :
    y = x ∨ y ∈ kept := by
  have inserted : ∀ {items : List α}, y ∈ insertAfter lt x items → y = x ∨ y ∈ items :=
    fun member => List.mem_cons.mp ((insertAfter_perm lt x _).mem_iff.mp member)
  unfold offer at held
  split at held
  · exact inserted held
  · split at held
    · split at held
      · exact (inserted held).imp_right fun member => List.dropLast_subset _ member
      · exact .inr held
    · exact .inr held

theorem offer_length_le_succ {limit : Nat} {x : α} (kept : List α) :
    (offer lt limit x kept).length ≤ kept.length + 1 := by
  unfold offer
  split
  · rw [(insertAfter_perm lt x kept).length_eq, List.length_cons]
  · split
    · split
      · rw [(insertAfter_perm lt x _).length_eq, List.length_cons, List.length_dropLast]
        omega
      · omega
    · omega

theorem insertAfter_map {β : Type*} {lt' : β → β → Prop} [DecidableRel lt'] (f : α → β) (x : α)
    (kept : List α) (same : ∀ y ∈ kept, lt x y ↔ lt' (f x) (f y)) :
    (insertAfter lt x kept).map f = insertAfter lt' (f x) (kept.map f) := by
  induction kept with
  | nil => rfl
  | cons y ys ih =>
    have head := same y (by simp)
    by_cases before : lt x y
    · simp [insertAfter, before, head.mp before]
    · have after : ¬ lt' (f x) (f y) := fun h => before (head.mpr h)
      simp [insertAfter, before, after, ih fun z member => same z (by simp [member])]

/-- A bounded queue sees its elements only through the comparisons it makes. -/
theorem offer_map {β : Type*} {lt' : β → β → Prop} [DecidableRel lt'] (f : α → β) (limit : Nat)
    (x : α) (kept : List α) (same : ∀ y ∈ kept, lt x y ↔ lt' (f x) (f y)) :
    (offer lt limit x kept).map f = offer lt' limit (f x) (kept.map f) := by
  unfold offer
  simp only [List.length_map, List.getLast?_map]
  split
  · exact insertAfter_map lt f x kept same
  · cases last : kept.getLast? with
    | none => rfl
    | some worst =>
      have head := same worst (List.mem_of_getLast? last)
      simp only [Option.map_some]
      by_cases before : lt x worst
      · rw [if_pos before, if_pos (head.mp before), ← List.map_dropLast]
        exact insertAfter_map lt f x _ fun y member => same y (List.dropLast_subset _ member)
      · rw [if_neg before, if_neg fun h => before (head.mpr h)]

end Operations

/-- In an ascending list, what precedes an element stands before it. -/
theorem mem_take_of_before {α : Type*} {lt : α → α → Prop} [IsTrans α lt] [Std.Irrefl lt]
    {ordered : List α} (ascending : ordered.Pairwise lt) {index : Nat} {x y : α}
    (placed : ordered[index]? = some x) (listed : y ∈ ordered) (before : lt y x) :
    y ∈ ordered.take index := by
  obtain ⟨bound, rfl⟩ := List.getElem?_eq_some_iff.mp placed
  have whole := List.take_append_drop index ordered
  rw [← whole] at listed
  refine (List.mem_append.mp listed).resolve_right fun late => ?_
  have rest := (List.pairwise_append.mp (whole.symm ▸ ascending)).2.1
  rw [List.drop_eq_getElem_cons bound] at late rest
  rcases List.mem_cons.mp late with rfl | late
  · exact Std.Irrefl.irrefl (r := lt) _ before
  · have after := (List.pairwise_cons.mp rest).1 y late
    exact Std.Irrefl.irrefl (r := lt) _ (trans_of lt before after)

/-- `kept` holds the first `limit` of `offered`, ascending. -/
def Best {α : Type*} (lt : α → α → Prop) (limit : Nat) (offered kept : List α) : Prop :=
  ∃ rest, offered.Perm (kept ++ rest) ∧ kept.Pairwise lt ∧ (∀ e ∈ kept, ∀ x ∈ rest, lt e x) ∧
    kept.length ≤ limit ∧ (rest ≠ [] → kept.length = limit)

namespace Best
variable {α : Type*} {lt : α → α → Prop} {limit : Nat} {offered kept : List α}

theorem nil : Best lt limit [] [] :=
  ⟨[], .nil, .nil, by simp, by simp, by simp⟩

theorem perm {others : List α} (best : Best lt limit offered kept) (same : offered.Perm others) :
    Best lt limit others kept := by
  obtain ⟨rest, parts, facts⟩ := best
  exact ⟨rest, same.symm.trans parts, facts⟩

theorem sorted (best : Best lt limit offered kept) : kept.Pairwise lt := by
  obtain ⟨_, _, ascending, _⟩ := best
  exact ascending

theorem subset (best : Best lt limit offered kept) {x : α} (member : x ∈ kept) : x ∈ offered := by
  obtain ⟨rest, parts, _⟩ := best
  exact parts.mem_iff.mpr (List.mem_append_left _ member)

theorem length_le (best : Best lt limit offered kept) : kept.length ≤ limit := by
  obtain ⟨_, _, _, _, bound, _⟩ := best
  exact bound

theorem length_eq (best : Best lt limit offered kept) : kept.length = min limit offered.length := by
  obtain ⟨rest, parts, _, _, bound, full⟩ := best
  have total := parts.length_eq
  rw [List.length_append] at total
  cases rest with
  | nil => simp only [List.length_nil] at total; omega
  | cons x rest =>
    have filled := full (by simp)
    omega

/-- Nothing was let go while there was room. -/
theorem mem_of_room (best : Best lt limit offered kept) (room : kept.length < limit) {x : α}
    (member : x ∈ offered) : x ∈ kept := by
  obtain ⟨rest, parts, _, _, _, full⟩ := best
  cases rest with
  | nil => simpa using parts.mem_iff.mp member
  | cons y rest =>
    have filled := full (by simp)
    omega

/-- What was let go comes after everything that was kept. -/
theorem let_go (best : Best lt limit offered kept) {x : α} (member : x ∈ offered)
    (gone : x ∉ kept) : kept.length = limit ∧ ∀ e ∈ kept, lt e x := by
  obtain ⟨rest, parts, _, after, _, full⟩ := best
  have split := List.mem_append.mp (parts.mem_iff.mp member)
  have inRest : x ∈ rest := split.resolve_left gone
  exact ⟨full (List.ne_nil_of_mem inRest), fun e held => after e held x inRest⟩

theorem map {β : Type*} {lt' : β → β → Prop} (best : Best lt limit offered kept) (f : α → β)
    (mono : ∀ {a b}, lt a b → lt' (f a) (f b)) : Best lt' limit (offered.map f) (kept.map f) := by
  obtain ⟨rest, parts, ascending, beyond, bound, full⟩ := best
  refine ⟨rest.map f, ?_, List.pairwise_map.mpr (ascending.imp mono), ?_, ?_, ?_⟩
  · rw [← List.map_append]
    exact parts.map f
  · intro _ held _ late
    obtain ⟨e, here, rfl⟩ := List.mem_map.mp held
    obtain ⟨x, there, rfl⟩ := List.mem_map.mp late
    exact mono (beyond e here x there)
  · simpa using bound
  · intro more
    rw [List.length_map]
    exact full (mt (congrArg (List.map f)) more)

theorem skip (best : Best lt limit offered kept) (filled : kept.length = limit) {x : α}
    (after : ∀ e ∈ kept, lt e x) : Best lt limit (x :: offered) kept := by
  obtain ⟨rest, parts, ascending, beyond, bound, _⟩ := best
  refine ⟨x :: rest, (parts.cons x).trans List.perm_middle.symm, ascending, ?_, bound,
    fun _ => filled⟩
  intro e member y later
  rcases List.mem_cons.mp later with rfl | later
  · exact after e member
  · exact beyond e member y later

section Strict
variable [IsTrans α lt] [Std.Irrefl lt]

/-- What precedes a kept element was kept. -/
theorem closed (best : Best lt limit offered kept) {x e : α} (held : e ∈ kept)
    (member : x ∈ offered) (before : lt x e) : x ∈ kept := by
  by_contra gone
  exact Std.Irrefl.irrefl (r := lt) e
    (trans_of lt ((best.let_go member gone).2 e held) before)

/-- An offer is kept when fewer than `limit` offers precede it. -/
theorem mem_iff [DecidableRel lt] (best : Best lt limit offered kept) {x : α}
    (member : x ∈ offered) :
    x ∈ kept ↔ (offered.filter fun y => decide (lt y x)).length < limit := by
  obtain ⟨rest, parts, _, beyond, _⟩ := id best
  have split := ((parts.filter fun y => decide (lt y x)).length_eq)
  rw [List.filter_append, List.length_append] at split
  constructor
  · intro held
    have none : rest.filter (fun y => decide (lt y x)) = [] := by
      refine List.filter_eq_nil_iff.mpr fun y late before => ?_
      exact Std.Irrefl.irrefl (r := lt) x
        (trans_of lt (beyond x held y late) (of_decide_eq_true before))
    have fewer : (kept.filter fun y => decide (lt y x)).length < kept.length := by
      refine List.length_filter_lt_length_iff_exists.mpr ⟨x, held, ?_⟩
      simpa using Std.Irrefl.irrefl (r := lt) x
    have bound := best.length_le
    rw [split, none]
    simp only [List.length_nil]
    omega
  · intro fewer
    by_contra gone
    obtain ⟨filled, after⟩ := best.let_go member gone
    have all : kept.filter (fun y => decide (lt y x)) = kept :=
      List.filter_eq_self.mpr fun y held => decide_eq_true (after y held)
    rw [split, all] at fewer
    omega

omit [IsTrans α lt] in
theorem nodup (best : Best lt limit offered kept) : kept.Nodup := best.sorted.nodup

private theorem mem_of_best {others : List α} (first : Best lt limit offered kept)
    (second : Best lt limit offered others) {x : α} (member : x ∈ kept) : x ∈ others := by
  by_contra gone
  obtain ⟨filled, after⟩ := second.let_go (first.subset member) gone
  have contained : (x :: others).Subperm kept := by
    refine List.subperm_of_subset (List.nodup_cons.mpr ⟨gone, second.nodup⟩) ?_
    intro y held
    rcases List.mem_cons.mp held with rfl | held
    · exact member
    · exact first.closed member (second.subset held) (after y held)
  have longer := contained.length_le
  have bound := first.length_le
  rw [List.length_cons] at longer
  omega

/-- What was offered determines what is kept. -/
theorem unique {others : List α} (first : Best lt limit offered kept)
    (second : Best lt limit offered others) : kept = others := by
  have same : kept.Perm others := (List.perm_ext_iff_of_nodup first.nodup second.nodup).mpr
    fun _ => ⟨mem_of_best first second, mem_of_best second first⟩
  refine List.Perm.eq_of_pairwise ?_ first.sorted second.sorted same
  intro a b _ _ before after
  exact absurd (trans_of lt before after) (Std.Irrefl.irrefl (r := lt) a)

omit [IsTrans α lt] [Std.Irrefl lt] in
theorem of_sorted {ordered : List α} (same : ordered.Perm offered) (ascending : ordered.Pairwise lt) :
    Best lt limit offered (ordered.take limit) := by
  have halves := List.pairwise_append.mp (by rwa [List.take_append_drop limit ordered] :
    (ordered.take limit ++ ordered.drop limit).Pairwise lt)
  refine ⟨ordered.drop limit, by rw [List.take_append_drop]; exact same.symm, halves.1, halves.2.2,
    List.length_take_le _ _, ?_⟩
  intro more
  have longer : limit < ordered.length := by
    by_contra short
    exact more (List.drop_eq_nil_of_le (by omega))
  rw [List.length_take]
  omega

omit [IsTrans α lt] in
/-- Of what is sorted already, the first `limit` are the best of any offers that
have them. -/
theorem of_first [DecidableEq α] {ordered : List α} (ascending : ordered.Pairwise lt)
    (distinct : offered.Nodup) (within : ∀ x ∈ offered, x ∈ ordered)
    (first : ∀ x ∈ ordered.take limit, x ∈ offered) :
    Best lt limit offered (ordered.take limit) := by
  have whole := List.take_append_drop limit ordered
  have halves := List.pairwise_append.mp (whole.symm ▸ ascending)
  have parts := List.nodup_append.mp (whole.symm ▸ ascending.nodup)
  refine ⟨(ordered.drop limit).filter (· ∈ offered), ?_, halves.1, ?_, List.length_take_le _ _, ?_⟩
  · refine (List.perm_ext_iff_of_nodup distinct (List.nodup_append.mpr
      ⟨parts.1, parts.2.1.filter _, fun a early b late => ?_⟩)).mpr fun x => ?_
    · exact parts.2.2 a early b (List.mem_filter.mp late).1
    · rw [List.mem_append, List.mem_filter]
      constructor
      · intro member
        have listed := within x member
        rw [← whole] at listed
        exact (List.mem_append.mp listed).imp id fun late => ⟨late, by simpa using member⟩
      · rintro (early | ⟨_, member⟩)
        · exact first x early
        · simpa using member
  · intro e early x late
    exact halves.2.2 e early x (List.mem_filter.mp late).1
  · intro more
    obtain ⟨x, late⟩ := List.exists_mem_of_ne_nil _ more
    have beyond := List.ne_nil_of_mem (List.mem_filter.mp late).1
    rw [List.length_take, min_eq_left]
    by_contra short
    exact beyond (List.drop_eq_nil_of_le (by omega))

end Strict

section Offer
variable [DecidableRel lt] [IsTrans α lt]

private theorem insertAfter_sorted {x : α} (ascending : kept.Pairwise lt)
    (apart : ∀ y ∈ kept, lt x y ∨ lt y x) : (insertAfter lt x kept).Pairwise lt := by
  induction kept with
  | nil => simp [insertAfter]
  | cons y ys ih =>
    obtain ⟨head, tail⟩ := List.pairwise_cons.mp ascending
    unfold insertAfter
    split
    · rename_i before
      refine List.pairwise_cons.mpr ⟨?_, ascending⟩
      intro z member
      rcases List.mem_cons.mp member with rfl | member
      · exact before
      · exact trans_of lt before (head z member)
    · rename_i notBefore
      refine List.pairwise_cons.mpr ⟨?_, ih tail fun z member => apart z (by simp [member])⟩
      intro z member
      rcases List.mem_cons.mp ((insertAfter_perm lt x ys).mem_iff.mp member) with rfl | member
      · exact (apart y (by simp)).resolve_left notBefore
      · exact head z member

/-- The queue step keeps the best, whatever came before. -/
theorem offer {x : α} (best : Best lt limit offered kept)
    (apart : ∀ y ∈ offered, lt x y ∨ lt y x) :
    Best lt limit (x :: offered) (offer lt limit x kept) := by
  have apartKept : ∀ y ∈ kept, lt x y ∨ lt y x := fun y held => apart y (best.subset held)
  obtain ⟨rest, parts, ascending, beyond, bound, full⟩ := best
  unfold Lib.offer
  split
  · rename_i room
    cases rest with
    | cons y rest =>
      have filled := full (by simp)
      omega
    | nil =>
      rw [List.append_nil] at parts
      refine ⟨[], ?_, insertAfter_sorted ascending apartKept, by simp, ?_, by simp⟩
      · rw [List.append_nil]
        exact (parts.cons x).trans (insertAfter_perm lt x kept).symm
      · rw [(insertAfter_perm lt x kept).length_eq, List.length_cons]
        omega
  · rename_i filled
    have filled : kept.length = limit := by omega
    have best : Best lt limit offered kept := ⟨rest, parts, ascending, beyond, bound, full⟩
    cases last : kept.getLast? with
    | none =>
      obtain rfl := List.getLast?_eq_none_iff.mp last
      exact best.skip filled (by simp)
    | some worst =>
      obtain ⟨init, rfl⟩ := List.getLast?_eq_some_iff.mp last
      obtain ⟨initial, _, beforeWorst⟩ := List.pairwise_append.mp ascending
      simp only [List.dropLast_concat]
      split
      · rename_i before
        refine ⟨worst :: rest, ?_, insertAfter_sorted initial
          fun y held => apartKept y (by simp [held]), ?_, ?_, ?_⟩
        · have moved : (x :: offered).Perm (x :: init ++ worst :: rest) := by
            simpa using parts.cons x
          exact moved.trans ((insertAfter_perm lt x init).symm.append_right _)
        · intro e member y later
          have headed : lt e worst := by
            rcases List.mem_cons.mp ((insertAfter_perm lt x init).mem_iff.mp member) with rfl | held
            · exact before
            · exact beforeWorst e held worst (by simp)
          rcases List.mem_cons.mp later with rfl | later
          · exact headed
          · exact trans_of lt headed (beyond worst (by simp) y later)
        · rw [(insertAfter_perm lt x init).length_eq]
          simpa using bound
        · intro _
          rw [(insertAfter_perm lt x init).length_eq]
          simpa using filled
      · rename_i notBefore
        have after : lt worst x := (apartKept worst (by simp)).resolve_left notBefore
        refine best.skip filled ?_
        intro e member
        rcases List.mem_append.mp member with held | held
        · exact trans_of lt (beforeWorst e held worst (by simp)) after
        · obtain rfl := List.mem_singleton.mp held
          exact after

end Offer
end Best
end Klens.Lib
