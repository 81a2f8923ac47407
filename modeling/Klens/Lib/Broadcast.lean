import Mathlib.Data.List.Basic

/-! A broadcast channel and a receiver on it. The channel keeps its last
`capacity` values; a receiver that falls further behind is told how many it
missed and goes on at the oldest value still kept. -/
namespace Klens.Lib

structure Broadcast (V : Type) where
  capacity : Nat
  sent : List V
  closed : Bool

/-- What a receiver is answered. -/
inductive Received (V : Type) where
  | value (value : V)
  | lagged (missed : Nat)
  | closed
  | empty
  deriving DecidableEq, Repr

/-- What a receiver makes of a stretch of the channel. -/
inductive Heard (V : Type) where
  | value (value : V)
  | missed (values : List V)
  deriving DecidableEq, Repr

def Heard.values {V : Type} : Heard V → List V
  | .value heard => [heard]
  | .missed skipped => skipped

namespace Broadcast
variable {V : Type}

def new (capacity : Nat) : Broadcast V := { capacity, sent := [], closed := false }

def send (channel : Broadcast V) (value : V) : Broadcast V :=
  { channel with sent := channel.sent ++ [value] }

def close (channel : Broadcast V) : Broadcast V := { channel with closed := true }

/-- Where the oldest value stands that the channel still keeps. -/
def oldest (channel : Broadcast V) : Nat := channel.sent.length - channel.capacity

/-- The answer to a receiver at `next`, and where it stands afterwards. -/
def recv (channel : Broadcast V) (next : Nat) : Received V × Nat :=
  if next < channel.oldest then (.lagged (channel.oldest - next), channel.oldest)
  else match channel.sent[next]? with
    | some value => (.value value, next + 1)
    | none => (if channel.closed then .closed else .empty, next)

/-- How many values a receiver at `next` has not been answered yet. -/
def behind (channel : Broadcast V) (next : Nat) : Nat := channel.sent.length - next

/-- `account` is all that was sent from `start` up to `next`, nothing left out
and nothing twice, and no stretch of it is empty. -/
structure Accounts (channel : Broadcast V) (start next : Nat) (account : List (Heard V)) :
    Prop where
  started : start ≤ next
  within : next ≤ channel.sent.length
  all : account.flatMap Heard.values = (channel.sent.take next).drop start
  nonempty : ∀ heard ∈ account, heard.values ≠ []

variable {channel : Broadcast V} {start next : Nat} {account : List (Heard V)}

theorem Accounts.send (accounts : channel.Accounts start next account) (value : V) :
    (channel.send value).Accounts start next account := by
  obtain ⟨started, within, all, nonempty⟩ := accounts
  refine ⟨started, ?_, ?_, nonempty⟩
  · simp only [Broadcast.send, List.length_append]
    omega
  · rw [all, Broadcast.send, List.take_append_of_le_length within]

theorem Accounts.close (accounts : channel.Accounts start next account) :
    channel.close.Accounts start next account :=
  ⟨accounts.started, accounts.within, accounts.all, accounts.nonempty⟩

/-- A receiver that moves on to `later` accounts for what lies between. -/
theorem Accounts.extend (accounts : channel.Accounts start next account) {later : Nat}
    {heard : Heard V} (forward : next ≤ later) (within : later ≤ channel.sent.length)
    (between : heard.values = (channel.sent.take later).drop next) (nonempty : heard.values ≠ []) :
    channel.Accounts start later (account ++ [heard]) := by
  refine ⟨Nat.le_trans accounts.started forward, within, ?_,
    List.forall_mem_append.mpr ⟨accounts.nonempty, by simpa using nonempty⟩⟩
  rw [List.flatMap_append, List.flatMap_singleton, accounts.all, between]
  have front : channel.sent.take next = (channel.sent.take later).take next := by
    rw [List.take_take, Nat.min_eq_left forward]
  have bounded : start ≤ (channel.sent.take next).length := by
    rw [List.length_take]
    exact Nat.le_min.mpr ⟨accounts.started, Nat.le_trans accounts.started accounts.within⟩
  rw [← List.drop_append_of_le_length bounded, front, List.take_append_drop]

/-- What a receiver can be answered: the next value, a stretch it missed while it
was more than the capacity behind, or that there is nothing yet. -/
theorem recv_cases (channel : Broadcast V) (next : Nat) :
    (∃ value, channel.sent[next]? = some value ∧ channel.recv next = (.value value, next + 1)) ∨
    (∃ missed, 0 < missed ∧ channel.capacity < channel.behind next ∧
      channel.recv next = (.lagged missed, next + missed) ∧ next + missed ≤ channel.sent.length) ∨
    (channel.sent.length ≤ next ∧
      channel.recv next = (if channel.closed then .closed else .empty, next)) := by
  unfold recv
  by_cases lagging : next < channel.oldest
  · right; left
    rw [if_pos lagging]
    unfold oldest at lagging ⊢
    refine ⟨channel.sent.length - channel.capacity - next, by omega, ?_, ?_, by omega⟩
    · unfold behind
      omega
    · rw [Nat.add_sub_cancel' (Nat.le_of_lt lagging)]
  · rw [if_neg lagging]
    cases found : channel.sent[next]? with
    | some value => exact .inl ⟨value, rfl, rfl⟩
    | none => exact .inr (.inr ⟨List.getElem?_eq_none_iff.mp found, rfl⟩)

theorem Accounts.value (accounts : channel.Accounts start next account) {value : V}
    (found : channel.sent[next]? = some value) :
    channel.Accounts start (next + 1) (account ++ [.value value]) := by
  obtain ⟨inside, _⟩ := List.getElem?_eq_some_iff.mp found
  refine accounts.extend (Nat.le_succ _) inside ?_ (List.cons_ne_nil _ _)
  rw [List.take_add_one, found, Option.toList_some,
    List.drop_append_of_le_length (by rw [List.length_take]; omega), List.drop_take]
  simp [Heard.values]

theorem Accounts.missed (accounts : channel.Accounts start next account) {missed : Nat}
    (positive : 0 < missed) (within : next + missed ≤ channel.sent.length) :
    channel.Accounts start (next + missed)
      (account ++ [.missed ((channel.sent.drop next).take missed)]) := by
  refine accounts.extend (Nat.le_add_right _ _) within ?_ ?_
  · rw [Heard.values, List.drop_take, Nat.add_sub_cancel_left]
  · apply List.ne_nil_of_length_pos
    rw [Heard.values, List.length_take, List.length_drop]
    omega

end Broadcast
end Klens.Lib
