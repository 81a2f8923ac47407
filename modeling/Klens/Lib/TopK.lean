import Klens.Lib.Best

/-! A bounded queue over elements that may tie: it holds the first ones of the
stable sort of what was offered, and an element it has no room for never gets
any. -/
namespace Klens.Lib

variable {α : Type*} (lt : α → α → Prop) [DecidableRel lt]

/-- `lt` orders ties: what does not precede one of them precedes none. -/
class NegTrans : Prop where
  neg_trans : ∀ a b c, ¬ lt a b → ¬ lt b c → ¬ lt a c

/-- Weakly ascending. -/
def Ascends (items : List α) : Prop := items.Pairwise fun a b => ¬ lt b a

/-- All of the offers, each after everything it does not precede. -/
def insertAll (offers : List α) (items : List α) : List α :=
  offers.foldl (fun items offered => insertAfter lt offered items) items

def offerAll (limit : Nat) (offers : List α) (kept : List α) : List α :=
  offers.foldl (fun kept offered => offer lt limit offered kept) kept

/-- The comparison that a stable sort is given. -/
def notAfter (a b : α) : Bool := !decide (lt b a)

/-- Inserted before the first it does not come after. -/
def insertBefore (a : α) : List α → List α
  | [] => [a]
  | y :: ys => if lt y a then y :: insertBefore a ys else a :: y :: ys

/-- So many of the items come before `x`, or tie with it. -/
def ahead (x : α) (items : List α) : Nat := items.countP fun y => !decide (lt x y)

section Insert
variable {lt} [NegTrans lt] [Std.Irrefl lt] [IsTrans α lt]

omit [DecidableRel lt] [NegTrans lt] in
theorem not_lt_of_lt {a b : α} (before : lt a b) : ¬ lt b a :=
  fun after => Std.Irrefl.irrefl (r := lt) a (trans_of lt before after)

omit [DecidableRel lt] [Std.Irrefl lt] [IsTrans α lt] in
/-- What precedes one of two ties, or of two that ascend, precedes the later. -/
theorem lt_of_lt_of_not_lt {a b c : α} (before : lt a b) (ascends : ¬ lt c b) : lt a c := by
  by_contra after
  exact NegTrans.neg_trans a c b after ascends before

omit [Std.Irrefl lt] [IsTrans α lt] in
theorem take_insertAfter {items : List α} (ascends : Ascends lt items) (x : α) (n : Nat) {last : α}
    (found : items[n]? = some last) :
    (insertAfter lt x items).take (n + 1) =
      if lt x last then insertAfter lt x (items.take n) else items.take (n + 1) := by
  induction items generalizing n with
  | nil => simp at found
  | cons y ys ih =>
    obtain ⟨least, rest⟩ := List.pairwise_cons.mp ascends
    by_cases before : lt x y
    · have first : lt x last := by
        cases n with
        | zero =>
          obtain rfl : y = last := by simpa using found
          exact before
        | succ n =>
          rw [List.getElem?_cons_succ] at found
          exact lt_of_lt_of_not_lt before (least last (List.mem_of_getElem? found))
      rw [if_pos first]
      cases n <;> simp [insertAfter, before]
    · cases n with
      | zero =>
        obtain rfl : y = last := by simpa using found
        simp [insertAfter, before]
      | succ n =>
        rw [List.getElem?_cons_succ] at found
        simp only [insertAfter, before, if_false, List.take_succ_cons, ih rest n found]
        split <;> rfl

omit [Std.Irrefl lt] [IsTrans α lt] in
/-- A queue that holds the first of some items goes on to hold the first. -/
theorem offer_take {items : List α} (ascends : Ascends lt items) (limit : Nat) (x : α) :
    offer lt limit x (items.take limit) = (insertAfter lt x items).take limit := by
  have longer : (insertAfter lt x items).length = items.length + 1 :=
    (insertAfter_perm lt x items).length_eq
  rcases lt_or_ge items.length limit with room | full
  · rw [List.take_of_length_le room.le, List.take_of_length_le (by omega), offer, if_pos room]
  · rw [offer, if_neg (by rw [List.length_take]; omega)]
    cases limit with
    | zero => simp
    | succ n =>
      have found : items[n]? = some items[n] := List.getElem?_eq_getElem (by omega)
      have last : (items.take (n + 1)).getLast? = some items[n] := by
        rw [List.getLast?_take]
        simp [found]
      have front : (items.take (n + 1)).dropLast = items.take n := by
        rw [List.dropLast_eq_take, List.take_take, List.length_take]
        congr 1
        omega
      rw [take_insertAfter ascends x n found, last, front]

theorem insertAfter_ascends {items : List α} (ascends : Ascends lt items) (x : α) :
    Ascends lt (insertAfter lt x items) := by
  induction items with
  | nil => exact List.pairwise_singleton _ _
  | cons y ys ih =>
    obtain ⟨least, rest⟩ := List.pairwise_cons.mp ascends
    by_cases before : lt x y
    · rw [insertAfter, if_pos before]
      refine List.pairwise_cons.mpr ⟨fun z held => ?_, ascends⟩
      rcases List.mem_cons.mp held with rfl | later
      · exact not_lt_of_lt before
      · exact not_lt_of_lt (lt_of_lt_of_not_lt before (least z later))
    · rw [insertAfter, if_neg before]
      refine List.pairwise_cons.mpr ⟨fun z held => ?_, ih rest⟩
      rcases List.mem_cons.mp ((insertAfter_perm lt x ys).mem_iff.mp held) with rfl | later
      · exact before
      · exact least z later

theorem offerAll_take (limit : Nat) (offers : List α) {items : List α} (ascends : Ascends lt items) :
    offerAll lt limit offers (items.take limit) = (insertAll lt offers items).take limit := by
  induction offers generalizing items with
  | nil => rfl
  | cons x offers ih =>
    rw [offerAll, List.foldl_cons, offer_take ascends]
    exact ih (insertAfter_ascends ascends x)

theorem insertAll_ascends (offers : List α) {items : List α} (ascends : Ascends lt items) :
    Ascends lt (insertAll lt offers items) := by
  induction offers generalizing items with
  | nil => exact ascends
  | cons x offers ih => exact ih (insertAfter_ascends ascends x)

end Insert

section Stable
variable {lt} [NegTrans lt] [Std.Irrefl lt] [IsTrans α lt]

omit [NegTrans lt] [Std.Irrefl lt] [IsTrans α lt] in
@[simp] theorem notAfter_iff {a b : α} : notAfter lt a b = true ↔ ¬ lt b a := by
  simp [notAfter]

omit [Std.Irrefl lt] in
/-- An earlier and a later element go in independently: the earlier one comes
first if they tie. -/
theorem insertAfter_insertBefore (a x : α) (items : List α) :
    insertAfter lt x (insertBefore lt a items) =
      insertBefore lt a (insertAfter lt x items) := by
  induction items with
  | nil => by_cases before : lt x a <;> simp [insertAfter, insertBefore, before]
  | cons y ys ih =>
    by_cases early : lt y a
    · by_cases before : lt x y
      · have first : lt x a := trans_of lt before early
        simp [insertAfter, insertBefore, early, before, first]
      · simp [insertAfter, insertBefore, early, before, ih]
    · by_cases first : lt x a
      · have before : lt x y := lt_of_lt_of_not_lt first early
        simp [insertAfter, insertBefore, early, before, first]
      · by_cases before : lt x y
        · simp [insertAfter, insertBefore, early, before, first]
        · simp [insertAfter, insertBefore, early, before, first]

omit [Std.Irrefl lt] in
theorem insertAll_insertBefore (a : α) (offers items : List α) :
    insertAll lt offers (insertBefore lt a items) =
      insertBefore lt a (insertAll lt offers items) := by
  induction offers generalizing items with
  | nil => rfl
  | cons x offers ih =>
    rw [insertAll, List.foldl_cons, insertAfter_insertBefore]
    exact ih _

omit [NegTrans lt] [Std.Irrefl lt] [IsTrans α lt] in
theorem insertBefore_append {a : α} {front back : List α} (early : ∀ b ∈ front, lt b a)
    (late : ∀ b ∈ back, ¬ lt b a) :
    insertBefore lt a (front ++ back) = front ++ a :: back := by
  induction front with
  | nil =>
    cases back with
    | nil => rfl
    | cons b back =>
      rw [List.nil_append, insertBefore, if_neg (late b List.mem_cons_self)]
      rfl
  | cons b front ih =>
    rw [List.cons_append, insertBefore, if_pos (early b List.mem_cons_self),
      ih fun c held => early c (.tail _ held)]
    rfl

/-- Inserting all in order sorts stably. -/
theorem insertAll_eq_mergeSort (offers : List α) :
    insertAll lt offers [] = offers.mergeSort (notAfter lt) := by
  have trans : ∀ a b c : α, notAfter lt a b = true → notAfter lt b c = true →
      notAfter lt a c = true := by
    simp only [notAfter_iff]
    exact fun a b c first second => NegTrans.neg_trans c b a second first
  have total : ∀ a b : α, (notAfter lt a b || notAfter lt b a) = true := by
    intro a b
    rw [Bool.or_eq_true, notAfter_iff, notAfter_iff]
    by_cases before : lt b a
    · exact .inr (not_lt_of_lt before)
    · exact .inl before
  induction offers with
  | nil => exact List.mergeSort_nil.symm
  | cons a offers ih =>
    obtain ⟨front, back, whole, parts, early⟩ := List.mergeSort_cons trans total a offers
    have sorted := List.pairwise_mergeSort trans total (a :: offers)
    rw [whole] at sorted
    have late := (List.pairwise_cons.mp (List.pairwise_append.mp sorted).2.1).1
    have step : insertAll lt (a :: offers) [] = insertBefore lt a (insertAll lt offers []) :=
      insertAll_insertBefore a offers []
    rw [step, ih, parts, whole]
    apply insertBefore_append
    · intro b held
      simpa [notAfter] using early b held
    · intro b held
      exact notAfter_iff.mp (late b held)

end Stable

section Refused
variable {lt} [NegTrans lt]

/-- Among ascending items, those ahead of an element are the first ones. -/
theorem lt_iff_ahead_le {items : List α} (ascends : Ascends lt items) (x : α) {n : Nat} {last : α}
    (found : items[n]? = some last) : lt x last ↔ ahead lt x items ≤ n := by
  induction items generalizing n with
  | nil => simp at found
  | cons y ys ih =>
    obtain ⟨least, rest⟩ := List.pairwise_cons.mp ascends
    by_cases before : lt x y
    · have none_ahead : ahead lt x (y :: ys) = 0 := by
        refine List.countP_eq_zero.mpr fun z held => ?_
        rcases List.mem_cons.mp held with rfl | later
        · simpa using before
        · simpa using lt_of_lt_of_not_lt before (least z later)
      rw [none_ahead]
      refine iff_of_true ?_ (Nat.zero_le n)
      cases n with
      | zero =>
        obtain rfl : y = last := by simpa using found
        exact before
      | succ n =>
        rw [List.getElem?_cons_succ] at found
        exact lt_of_lt_of_not_lt before (least last (List.mem_of_getElem? found))
    · have one_more : ahead lt x (y :: ys) = ahead lt x ys + 1 := by
        rw [ahead, List.countP_cons_of_pos (by simpa using before)]
        rfl
      rw [one_more]
      cases n with
      | zero =>
        obtain rfl : y = last := by simpa using found
        exact iff_of_false before (by omega)
      | succ n =>
        rw [List.getElem?_cons_succ] at found
        rw [ih rest found]
        omega

omit [NegTrans lt] in
theorem ahead_perm {items others : List α} (same : items.Perm others) (x : α) :
    ahead lt x items = ahead lt x others := same.countP_eq _

end Refused
end Klens.Lib
