import Mathlib.Data.List.Infix
import Mathlib.Tactic.Common
import Mathlib.Tactic.TypeStar

/-! Replacing a pattern in a text, from the left and without overlaps. A symbol
that the pattern does not have separates what can be replaced on its sides. -/
namespace Klens.Lib

section
variable {α : Type*} [DecidableEq α] (pattern replacement : List α)

/-- The replacement with some symbols still to be skipped. -/
def replaceFrom : Nat → List α → List α
  | _, [] => []
  | skip + 1, _ :: text => replaceFrom skip text
  | 0, x :: text =>
    if pattern <+: x :: text then replacement ++ replaceFrom (pattern.length - 1) text
    else x :: replaceFrom 0 text

/-- Every occurrence of a pattern that is not empty. -/
def replaceAll (text : List α) : List α := replaceFrom pattern replacement 0 text

variable {pattern replacement}

@[simp] theorem replaceAll_nil : replaceAll pattern replacement [] = [] := rfl

theorem replaceFrom_eq (skip : Nat) (text : List α) :
    replaceFrom pattern replacement skip text = replaceAll pattern replacement (text.drop skip) := by
  induction text generalizing skip with
  | nil => simp [replaceFrom, replaceAll]
  | cons x text ih =>
    cases skip with
    | zero => rfl
    | succ skip => exact ih skip

theorem replaceAll_append {first : α} {rest : List α} (text : List α) :
    replaceAll (first :: rest) replacement (first :: rest ++ text) =
      replacement ++ replaceAll (first :: rest) replacement text := by
  have here : first :: rest <+: first :: (rest ++ text) := List.prefix_append (first :: rest) text
  rw [replaceAll, List.cons_append, replaceFrom, if_pos here, replaceFrom_eq]
  simp

theorem replaceAll_cons {x : α} {text : List α} (unmatched : ¬ pattern <+: x :: text) :
    replaceAll pattern replacement (x :: text) = x :: replaceAll pattern replacement text := by
  rw [replaceAll, replaceFrom, if_neg unmatched]
  rfl

/-- A text is empty, or starts with the pattern, or with a symbol that is kept. -/
theorem replaceAll_induction (first : α) (rest : List α) {motive : List α → Prop} (nil : motive [])
    (matched : ∀ text, motive text → motive (first :: rest ++ text))
    (kept : ∀ x text, ¬ first :: rest <+: x :: text → motive text → motive (x :: text))
    (text : List α) : motive text := by
  induction length : text.length using Nat.strong_induction_on generalizing text with
  | _ n ih =>
    cases text with
    | nil => exact nil
    | cons x text =>
      by_cases here : first :: rest <+: x :: text
      · obtain ⟨later, whole⟩ := here
        have shorter : later.length < n := by
          rw [← length, ← whole, List.length_append, List.length_cons]
          omega
        rw [← whole]
        exact matched later (ih _ shorter later rfl)
      · have shorter : text.length < n := by
          rw [← length]
          simp
        exact kept x text here (ih _ shorter text rfl)

omit [DecidableEq α] in
theorem prefix_of_split {x : α} (foreign : x ∉ pattern) {before after : List α}
    (here : pattern <+: before ++ x :: after) : pattern <+: before := by
  obtain ⟨later, whole⟩ := here
  rcases List.append_eq_append_iff.mp whole with ⟨middle, rfl, _⟩ | ⟨middle, rfl, same⟩
  · exact List.prefix_append ..
  · cases middle with
    | nil => simp
    | cons y middle =>
      obtain ⟨rfl, _⟩ := List.cons.inj same
      simp at foreign

/-- A symbol that is not in the pattern is kept, and what stands before it and
after it is replaced apart. -/
theorem replaceAll_split {first : α} {rest : List α} {x : α} (foreign : x ∉ first :: rest)
    (before after : List α) :
    replaceAll (first :: rest) replacement (before ++ x :: after) =
      replaceAll (first :: rest) replacement before ++
        x :: replaceAll (first :: rest) replacement after := by
  induction before using replaceAll_induction first rest with
  | nil =>
    refine replaceAll_cons fun here => foreign ?_
    rw [List.cons_prefix_cons] at here
    exact here.1 ▸ List.mem_cons_self
  | matched text ih => rw [List.append_assoc, replaceAll_append, ih, replaceAll_append, List.append_assoc]
  | kept y text unmatched ih =>
    have still : ¬ first :: rest <+: y :: (text ++ x :: after) := fun here =>
      unmatched (prefix_of_split foreign here)
    rw [List.cons_append, replaceAll_cons still, ih, replaceAll_cons unmatched, List.cons_append]

theorem replaceAll_of_absent {first : α} {rest : List α} {text : List α}
    (absent : ¬ first :: rest <:+: text) : replaceAll (first :: rest) replacement text = text := by
  induction text with
  | nil => rfl
  | cons x text ih =>
    rw [List.infix_cons_iff, not_or] at absent
    rw [replaceAll_cons absent.1, ih absent.2]

/-- Symbols that are not the pattern's first are kept. -/
theorem replaceAll_clear {first : α} {rest : List α} {front : List α} (clear : first ∉ front)
    (text : List α) : replaceAll (first :: rest) replacement (front ++ text) =
      front ++ replaceAll (first :: rest) replacement text := by
  induction front with
  | nil => rfl
  | cons x front ih =>
    rw [List.mem_cons, not_or] at clear
    have unmatched : ¬ first :: rest <+: x :: (front ++ text) := fun here =>
      clear.1 (List.cons_prefix_cons.mp here).1
    rw [List.cons_append, replaceAll_cons unmatched, ih clear.2, List.cons_append]

theorem mem_replaceAll {first : α} {rest : List α} {text : List α} {x : α}
    (member : x ∈ replaceAll (first :: rest) replacement text) : x ∈ replacement ∨ x ∈ text := by
  induction text using replaceAll_induction first rest with
  | nil => exact .inr member
  | matched text ih =>
    rw [replaceAll_append] at member
    rcases List.mem_append.mp member with new | later
    · exact .inl new
    · exact (ih later).imp_right fun old => List.mem_append_right _ old
  | kept y text unmatched ih =>
    rw [replaceAll_cons unmatched] at member
    rcases List.mem_cons.mp member with rfl | later
    · exact .inr List.mem_cons_self
    · exact (ih later).imp_right fun old => List.mem_cons_of_mem _ old

omit [DecidableEq α] in
/-- A pattern does not start among symbols that are not its first. -/
theorem infix_append {first : α} {rest : List α} {front : List α} (clear : first ∉ front)
    {text : List α} (found : first :: rest <:+: front ++ text) : first :: rest <:+: text := by
  induction front with
  | nil => exact found
  | cons y front ih =>
    rw [List.mem_cons, not_or] at clear
    rcases List.infix_cons_iff.mp found with here | later
    · exact absurd (List.cons_prefix_cons.mp here).1 clear.1
    · exact ih clear.2 later

omit [DecidableEq α] in
/-- An occurrence is on one side of a symbol that the pattern does not have. -/
theorem infix_of_split {x : α} (foreign : x ∉ pattern) {before after : List α}
    (found : pattern <:+: before ++ x :: after) : pattern <:+: before ∨ pattern <:+: after := by
  induction before with
  | nil =>
    rcases List.infix_cons_iff.mp found with here | later
    · have none_ : pattern <+: [] := prefix_of_split foreign here
      exact .inl none_.isInfix
    · exact .inr later
  | cons y before ih =>
    rcases List.infix_cons_iff.mp found with here | later
    · have first : pattern <+: y :: before := prefix_of_split foreign here
      exact .inl first.isInfix
    · exact (ih later).imp_left fun inside => List.infix_cons_iff.mpr (.inr inside)

omit [DecidableEq α] in
/-- A pattern at the end, after a symbol that it does not have, occurs nowhere
else if not before that symbol. -/
theorem only_at_end {x : α} (foreign : x ∉ pattern) {body before after : List α}
    (absent : ¬ pattern <:+: body) (whole : before ++ pattern ++ after = body ++ x :: pattern) :
    after = [] := by
  rcases List.append_eq_append_iff.mp whole with ⟨middle, same, _⟩ | ⟨middle, same, tail⟩
  · exact absurd ⟨before, middle, same.symm⟩ absent
  · cases middle with
    | nil => exact absurd ⟨before, [], by rw [List.append_nil] at same ⊢; exact same⟩ absent
    | cons y middle =>
      obtain ⟨rfl, split⟩ := List.cons.inj tail
      rcases List.append_eq_append_iff.mp same with ⟨rest, _, inside⟩ | ⟨rest, _, inside⟩
      · exact absurd (inside ▸ by simp) foreign
      · cases rest with
        | nil => exact absurd (by rw [← List.nil_append pattern, ← inside]; simp) foreign
        | cons z rest =>
          have longer : middle.length = (rest ++ pattern).length :=
            congrArg List.length (List.cons.inj inside).2
          have total : pattern.length = (middle ++ after).length := congrArg List.length split
          rw [List.length_append] at longer total
          exact List.length_eq_zero_iff.mp (by omega)

/-- Up to where a pattern could start, the replaced text is the text. -/
theorem prefix_of_replaceAll {first : α} {rest tail text : List α} {found : List α}
    (clear : first ∉ found) (here : found <+: replaceAll (first :: rest) (first :: tail) text) :
    found <+: text := by
  induction text using replaceAll_induction first rest generalizing found with
  | nil => exact here
  | matched text ih =>
    rw [replaceAll_append] at here
    cases found with
    | nil => exact List.nil_prefix
    | cons y found =>
      obtain ⟨rfl, _⟩ := List.cons_prefix_cons.mp here
      simp at clear
  | kept x text unmatched ih =>
    rw [replaceAll_cons unmatched] at here
    cases found with
    | nil => exact List.nil_prefix
    | cons y found =>
      rw [List.mem_cons, not_or] at clear
      obtain ⟨rfl, later⟩ := List.cons_prefix_cons.mp here
      exact List.cons_prefix_cons.mpr ⟨rfl, ih clear.2 later⟩

/-- A pattern whose first symbol does not come again leaves no occurrence, if
the replacement starts like it and goes on without that symbol. -/
theorem not_infix_replaceAll {first : α} {rest tail : List α} (once : first ∉ rest)
    (clear : first ∉ tail) (broken : ∀ text, ¬ first :: rest <+: first :: tail ++ text)
    (text : List α) : ¬ first :: rest <:+: replaceAll (first :: rest) (first :: tail) text := by
  induction text using replaceAll_induction first rest with
  | nil => simp
  | matched text ih =>
    rw [replaceAll_append, List.cons_append, List.infix_cons_iff]
    rintro (here | later)
    · exact broken _ here
    · exact ih (infix_append clear later)
  | kept x text unmatched ih =>
    rw [replaceAll_cons unmatched, List.infix_cons_iff]
    rintro (here | later)
    · obtain ⟨rfl, further⟩ := List.cons_prefix_cons.mp here
      exact unmatched (List.cons_prefix_cons.mpr ⟨rfl, prefix_of_replaceAll once further⟩)
    · exact ih later

end

section Each
variable {α : Type*} [DecidableEq α] (raw : α) (escaped : List α)

/-- Every occurrence of one symbol replaced. -/
def replaceEach (text : List α) : List α := text.flatMap fun x => if x = raw then escaped else [x]

variable {raw escaped}

theorem replaceEach_split {x : α} (foreign : x ≠ raw) (before after : List α) :
    replaceEach raw escaped (before ++ x :: after) =
      replaceEach raw escaped before ++ x :: replaceEach raw escaped after := by
  simp [replaceEach, foreign]

theorem replaceEach_append (before after : List α) :
    replaceEach raw escaped (before ++ after) =
      replaceEach raw escaped before ++ replaceEach raw escaped after := List.flatMap_append

theorem replaceEach_of_not_mem {text : List α} (absent : raw ∉ text) :
    replaceEach raw escaped text = text := by
  induction text with
  | nil => rfl
  | cons x text ih =>
    rw [List.mem_cons, not_or] at absent
    have rest := ih absent.2
    rw [replaceEach] at rest ⊢
    rw [List.flatMap_cons, if_neg (Ne.symm absent.1), rest]
    rfl

theorem mem_replaceEach {text : List α} {x : α} (member : x ∈ replaceEach raw escaped text) :
    x ∈ escaped ∨ x ≠ raw ∧ x ∈ text := by
  obtain ⟨y, old, within⟩ := List.mem_flatMap.mp member
  split at within
  · exact .inl within
  · rename_i different
    obtain rfl := List.mem_singleton.mp within
    exact .inr ⟨different, old⟩

theorem prefix_of_replaceEach {mark : α} {tail text found : List α} (foreign : mark ∉ found)
    (here : found <+: replaceEach raw (mark :: tail) text) : found <+: text := by
  induction text generalizing found with
  | nil => exact here
  | cons x text ih =>
    cases found with
    | nil => exact List.nil_prefix
    | cons y found =>
      rw [List.mem_cons, not_or] at foreign
      rw [replaceEach, List.flatMap_cons] at here
      split at here
      · exact absurd (List.cons_prefix_cons.mp here).1.symm foreign.1
      · obtain ⟨rfl, later⟩ := List.cons_prefix_cons.mp here
        exact List.cons_prefix_cons.mpr ⟨rfl, ih foreign.2 later⟩

/-- An escape whose first symbol is not in a pattern makes no occurrence of it. -/
theorem infix_of_replaceEach {first mark : α} {rest tail text : List α}
    (foreign : mark ∉ first :: rest) (clear : first ∉ tail)
    (found : first :: rest <:+: replaceEach raw (mark :: tail) text) : first :: rest <:+: text := by
  induction text with
  | nil => exact found
  | cons x text ih =>
    by_cases same : x = raw
    · have step : replaceEach raw (mark :: tail) (x :: text) =
          (mark :: tail) ++ replaceEach raw (mark :: tail) text := by simp [replaceEach, same]
      have apart : first ∉ mark :: tail := by
        rw [List.mem_cons, not_or] at foreign ⊢
        exact ⟨Ne.symm foreign.1, clear⟩
      rw [step] at found
      exact List.infix_cons_iff.mpr (.inr (ih (infix_append apart found)))
    · have step : replaceEach raw (mark :: tail) (x :: text) =
          x :: replaceEach raw (mark :: tail) text := by simp [replaceEach, same]
      rw [step] at found
      rcases List.infix_cons_iff.mp found with here | later
      · obtain ⟨rfl, further⟩ := List.cons_prefix_cons.mp here
        rw [List.mem_cons, not_or] at foreign
        exact (List.cons_prefix_cons.mpr ⟨rfl, prefix_of_replaceEach foreign.2 further⟩).isInfix
      · exact List.infix_cons_iff.mpr (.inr (ih later))

end Each

section Table
variable {α : Type*} [DecidableEq α]

/-- The symbols of a table replaced, one pair after the other. -/
def replaceTable (table : List (α × List α)) (text : List α) : List α :=
  table.foldl (fun text pair => replaceEach pair.1 pair.2 text) text

/-- What every pair keeps, the table keeps. -/
theorem replaceTable_induction {motive : List α → Prop} {table : List (α × List α)}
    (kept : ∀ pair ∈ table, ∀ text, motive text → motive (replaceEach pair.1 pair.2 text))
    {text : List α} (start : motive text) : motive (replaceTable table text) := by
  induction table generalizing text with
  | nil => exact start
  | cons pair table ih =>
    apply ih
    · intro other member
      exact kept other (List.mem_cons_of_mem _ member)
    · exact kept pair List.mem_cons_self text start

/-- A symbol of the result was written by a pair, or is one that no pair replaces. -/
theorem mem_replaceTable {table : List (α × List α)} {text : List α} {x : α}
    (member : x ∈ replaceTable table text) :
    (∃ pair ∈ table, x ∈ pair.2) ∨ x ∈ text ∧ ∀ pair ∈ table, x ≠ pair.1 := by
  induction table generalizing text with
  | nil => exact .inr ⟨member, by simp⟩
  | cons pair table ih =>
    rcases ih member with ⟨other, later, written⟩ | ⟨held, apart⟩
    · exact .inl ⟨other, List.mem_cons_of_mem _ later, written⟩
    · rcases mem_replaceEach held with written | ⟨different, old⟩
      · exact .inl ⟨pair, List.mem_cons_self, written⟩
      · exact .inr ⟨old, List.forall_mem_cons.mpr ⟨different, apart⟩⟩

end Table
end Klens.Lib
