import Klens.Config.Obfuscation
import Mathlib.Data.List.Forall2
import Mathlib.Data.List.Pairwise

/-! An accepted config gives a topic one rule at most, wherever the rule stands. -/
namespace Klens.Config
open Klens.Scan

namespace TopicPattern
variable {first second : TopicPattern}

theorem overlaps_iff : first.overlaps second = true ↔
    ∃ topic, first.Matches topic ∧ second.Matches topic := by
  cases first with
  | exact name =>
    cases second with
    | exact other =>
      rw [overlaps, beq_iff_eq]
      constructor
      · rintro rfl
        exact ⟨name, rfl, rfl⟩
      · rintro ⟨topic, here, there⟩
        exact here.trans there.symm
    | prefixed start => simp [overlaps, Matches, startsWith]
  | prefixed start =>
    cases second with
    | exact name => simp [overlaps, Matches, startsWith]
    | prefixed other =>
      simp only [overlaps, Matches, startsWith, Bool.or_eq_true, List.isPrefixOf_iff_prefix]
      constructor
      · rintro (longer | longer)
        · exact ⟨start, List.prefix_rfl, longer⟩
        · exact ⟨other, longer, List.prefix_rfl⟩
      · rintro ⟨topic, starts, others⟩
        exact (List.prefix_or_prefix_of_prefix starts others).symm

/-- No topic is covered by both. -/
def Apart (first second : TopicPattern) : Prop :=
  ∀ topic, ¬ (first.Matches topic ∧ second.Matches topic)

theorem apart_iff : first.Apart second ↔ first.overlaps second = false := by
  rw [← Bool.not_eq_true, overlaps_iff, not_exists]
  rfl

theorem Apart.symm (apart : first.Apart second) : second.Apart first :=
  fun topic both => apart topic both.symm

/-- What is read from text is shown as that text. -/
theorem display_tryFrom {text : String} {pattern : TopicPattern}
    (read : tryFrom text = .ok pattern) : pattern.display = text := by
  unfold tryFrom at read
  split at read
  · rename_i last
    dsimp only at read
    split at read
    · contradiction
    · obtain rfl := Except.ok.inj read
      have whole := List.dropLast_append_getLast? '*' last
      apply String.toList_injective
      rw [display, String.toList_append, String.toList_ofList]
      exact whole
  · split at read
    · contradiction
    · exact (Except.ok.inj read) ▸ rfl

end TopicPattern

theorem overlapAmong_eq_none {covered topics : List TopicPattern} :
    overlapAmong covered topics = none ↔
      (∀ other ∈ covered, ∀ topic ∈ topics, other.Apart topic) ∧
        topics.Pairwise TopicPattern.Apart := by
  induction topics generalizing covered with
  | nil => simp [overlapAmong]
  | cons topic topics ih =>
    rw [overlapAmong]
    cases found : covered.find? fun other => other.overlaps topic with
    | some other =>
      have overlap := List.find?_some found
      have listed := List.mem_of_find?_eq_some found
      simp only [reduceCtorEq, false_iff, not_and]
      intro apart
      have := TopicPattern.apart_iff.mp (apart other listed topic List.mem_cons_self)
      simp_all
    | none =>
      have here : ∀ other ∈ covered, other.Apart topic := fun other listed =>
        TopicPattern.apart_iff.mpr (by simpa using List.find?_eq_none.mp found other listed)
      simp only [ih, List.forall_mem_append, List.forall_mem_singleton, List.forall_mem_cons,
        List.pairwise_cons]
      grind

/-- The message names a pattern of the list and one before it that cover a topic both. -/
theorem overlapAmong_eq_some {covered topics : List TopicPattern}
    {other topic : TopicPattern} (overlap : overlapAmong covered topics = some (other, topic)) :
    ∃ before after, topics = before ++ topic :: after ∧ other ∈ covered ++ before ∧
      other.overlaps topic = true := by
  induction topics generalizing covered with
  | nil => contradiction
  | cons next topics ih =>
    rw [overlapAmong] at overlap
    cases found : covered.find? fun other => other.overlaps next with
    | some held =>
      rw [found] at overlap
      obtain ⟨rfl, rfl⟩ := Prod.mk.inj (Option.some.inj overlap)
      have overlaps := List.find?_some found
      exact ⟨[], topics, rfl, by simpa using List.mem_of_find?_eq_some found, overlaps⟩
    | none =>
      rw [found] at overlap
      obtain ⟨before, after, rfl, listed, overlaps⟩ := ih overlap
      exact ⟨next :: before, after, rfl, by simpa using listed, overlaps⟩

def Rule.Covers (rule : Rule) (topic : String) : Prop :=
  ∃ pattern ∈ rule.topics, pattern.Matches topic

theorem disjoint_eq_ok {rules : List Rule} :
    disjoint rules = .ok rules ↔ (rules.flatMap Rule.topics).Pairwise TopicPattern.Apart := by
  unfold disjoint
  cases overlap : overlapAmong [] (rules.flatMap Rule.topics) with
  | none => simpa using (overlapAmong_eq_none.mp overlap).2
  | some pair =>
    simp only [reduceCtorEq, false_iff]
    intro apart
    have none : overlapAmong [] (rules.flatMap Rule.topics) = none :=
      overlapAmong_eq_none.mpr ⟨by simp, apart⟩
    simp_all

/-- The text of a rejection shows the first pattern that overlaps one before it. -/
theorem disjoint_eq_error {rules : List Rule} {message : String}
    (rejected : disjoint rules = .error message) :
    ∃ before after other topic, rules.flatMap Rule.topics = before ++ topic :: after ∧
      other ∈ before ∧ other.overlaps topic = true ∧
      message = "topics '" ++ other.display ++ "' and '" ++ topic.display ++ "' overlap" := by
  unfold disjoint at rejected
  cases overlap : overlapAmong [] (rules.flatMap Rule.topics) with
  | none => rw [overlap] at rejected; contradiction
  | some pair =>
    obtain ⟨other, topic⟩ := pair
    rw [overlap] at rejected
    obtain ⟨before, after, split, listed, overlaps⟩ := overlapAmong_eq_some overlap
    exact ⟨before, after, other, topic, split, listed, overlaps, (Except.error.inj rejected).symm⟩

section Compile
variable {hmac : Bytes → Bytes → Bytes} {config : Obfuscation}

/-- Each pattern of the config with the obfuscator of its rule, in the order in
which the loops of `compile` reach them. -/
def Obfuscation.entries (hmac : Bytes → Bytes → Bytes) (config : Obfuscation) :
    List (TopicPattern × TopicObfuscator) :=
  config.rules.flatMap fun rule => rule.topics.map fun topic => (topic, config.obfuscator hmac rule)

theorem mem_entries {entry : TopicPattern × TopicObfuscator} :
    entry ∈ config.entries hmac ↔ ∃ rule ∈ config.rules, entry.1 ∈ rule.topics ∧
      entry.2 = config.obfuscator hmac rule := by
  obtain ⟨pattern, obfuscator⟩ := entry
  simp only [Obfuscation.entries, List.mem_flatMap, List.mem_map, Prod.mk.injEq]
  constructor
  · rintro ⟨rule, listed, topic, within, rfl, rfl⟩
    exact ⟨rule, listed, within, rfl⟩
  · rintro ⟨rule, listed, within, rfl⟩
    exact ⟨rule, listed, pattern, within, rfl, rfl⟩

def insertEntry (policy : ObfuscationPolicy) (entry : TopicPattern × TopicObfuscator) :
    ObfuscationPolicy :=
  insertTopic entry.2 policy entry.1

theorem compile_eq_foldl : config.compile hmac =
    (config.entries hmac).foldl insertEntry ⟨fun _ => none, []⟩ := by
  simp only [Obfuscation.compile, Obfuscation.entries, List.foldl_flatMap, List.foldl_map]
  rfl

/-- The exact names and the prefixes of a policy, together. -/
def Holds (policy : ObfuscationPolicy) (entry : TopicPattern × TopicObfuscator) : Prop :=
  match entry.1 with
  | .exact name => policy.exact name = some entry.2
  | .prefixed start => (start, entry.2) ∈ policy.prefixes

/-- A topic is looked up among all that the policy holds. -/
theorem forTopic_eq_some {policy : ObfuscationPolicy} {topic : String}
    {obfuscator : TopicObfuscator} (found : policy.forTopic topic = some obfuscator) :
    ∃ pattern, Holds policy (pattern, obfuscator) ∧ pattern.Matches topic := by
  unfold ObfuscationPolicy.forTopic at found
  cases exact : policy.exact topic with
  | some held =>
    rw [exact] at found
    obtain rfl := Option.some.inj found
    exact ⟨.exact topic, exact, rfl⟩
  | none =>
    rw [exact] at found
    obtain ⟨⟨start, held⟩, first, rfl⟩ := Option.map_eq_some_iff.mp found
    have starts := List.find?_some first
    exact ⟨.prefixed start, List.mem_of_find?_eq_some first, List.isPrefixOf_iff_prefix.mp starts⟩

theorem forTopic_eq_none {policy : ObfuscationPolicy} {topic : String}
    (missing : policy.forTopic topic = none) (entry : TopicPattern × TopicObfuscator)
    (holds : Holds policy entry) : ¬ entry.1.Matches topic := by
  unfold ObfuscationPolicy.forTopic at missing
  cases exact : policy.exact topic with
  | some held => rw [exact] at missing; contradiction
  | none =>
    rw [exact] at missing
    obtain ⟨pattern, obfuscator⟩ := entry
    cases pattern with
    | exact name =>
      rintro rfl
      exact absurd (exact.symm.trans holds) (by simp)
    | prefixed start =>
      intro starts
      refine List.find?_eq_none.mp (Option.map_eq_none_iff.mp missing) _ holds ?_
      exact List.isPrefixOf_iff_prefix.mpr starts

theorem holds_insertEntry {policy : ObfuscationPolicy}
    {next entry : TopicPattern × TopicObfuscator} (holds : Holds (insertEntry policy next) entry) :
    entry = next ∨ Holds policy entry := by
  obtain ⟨pattern, obfuscator⟩ := next
  obtain ⟨held, other⟩ := entry
  cases pattern with
  | exact name =>
    cases held with
    | exact here =>
      by_cases same : here = name
      · subst same
        have replaced := holds
        simp only [Holds, insertEntry, insertTopic, Function.update_self] at replaced
        exact .inl (by rw [Option.some.inj replaced])
      · refine .inr ?_
        simpa only [Holds, insertEntry, insertTopic, Function.update_of_ne same] using holds
    | prefixed start => exact .inr holds
  | prefixed start =>
    cases held with
    | exact here => exact .inr holds
    | prefixed other =>
      rcases List.mem_append.mp holds with before | last
      · exact .inr before
      · obtain ⟨rfl, rfl⟩ := Prod.mk.inj (List.mem_singleton.mp last)
        exact .inl rfl

theorem insertEntry_holds (policy : ObfuscationPolicy) (next : TopicPattern × TopicObfuscator) :
    Holds (insertEntry policy next) next := by
  obtain ⟨pattern, obfuscator⟩ := next
  cases pattern with
  | exact name => exact Function.update_self name (some obfuscator) policy.exact
  | prefixed start => exact List.mem_append_right policy.prefixes (List.mem_singleton.mpr rfl)

/-- A later rule can only replace what a pattern stands for. -/
theorem insertEntry_keeps {policy : ObfuscationPolicy} {pattern : TopicPattern}
    (held : ∃ obfuscator, Holds policy (pattern, obfuscator))
    (next : TopicPattern × TopicObfuscator) :
    ∃ obfuscator, Holds (insertEntry policy next) (pattern, obfuscator) := by
  obtain ⟨before, holds⟩ := held
  by_cases same : pattern = next.1
  · subst same
    exact ⟨next.2, insertEntry_holds policy next⟩
  · obtain ⟨topic, obfuscator⟩ := next
    refine ⟨before, ?_⟩
    cases topic with
    | exact name =>
      cases pattern with
      | exact here =>
        have different : here ≠ name := fun equal => same (congrArg _ equal)
        exact (Function.update_of_ne different (some obfuscator) policy.exact).trans holds
      | prefixed start => exact holds
    | prefixed start =>
      cases pattern with
      | exact here => exact holds
      | prefixed other => exact List.mem_append_left _ holds

theorem holds_foldl {entries : List (TopicPattern × TopicObfuscator)} {policy : ObfuscationPolicy}
    {entry : TopicPattern × TopicObfuscator} (holds : Holds (entries.foldl insertEntry policy) entry) :
    entry ∈ entries ∨ Holds policy entry := by
  induction entries generalizing policy with
  | nil => exact .inr holds
  | cons next entries ih =>
    rcases ih holds with later | here
    · exact .inl (List.mem_cons_of_mem next later)
    · rcases holds_insertEntry here with rfl | before
      · exact .inl List.mem_cons_self
      · exact .inr before

theorem foldl_holds {entries : List (TopicPattern × TopicObfuscator)} {policy : ObfuscationPolicy}
    {pattern : TopicPattern} (given : (∃ obfuscator, (pattern, obfuscator) ∈ entries) ∨
      ∃ obfuscator, Holds policy (pattern, obfuscator)) :
    ∃ obfuscator, Holds (entries.foldl insertEntry policy) (pattern, obfuscator) := by
  induction entries generalizing policy with
  | nil =>
    rcases given with ⟨_, listed⟩ | held
    · contradiction
    · exact held
  | cons next entries ih =>
    refine ih ?_
    rcases given with ⟨obfuscator, listed⟩ | held
    · rcases List.mem_cons.mp listed with rfl | later
      · exact .inr ⟨obfuscator, insertEntry_holds policy _⟩
      · exact .inl ⟨obfuscator, later⟩
    · exact .inr (insertEntry_keeps held next)

theorem holds_compile {entry : TopicPattern × TopicObfuscator}
    (holds : Holds (config.compile hmac) entry) : entry ∈ config.entries hmac := by
  rw [compile_eq_foldl] at holds
  rcases holds_foldl holds with listed | before
  · exact listed
  · obtain ⟨pattern, obfuscator⟩ := entry
    cases pattern <;> contradiction

theorem entries_pairwise (apart : (config.rules.flatMap Rule.topics).Pairwise TopicPattern.Apart) :
    (config.entries hmac).Pairwise fun first second => first.1.Apart second.1 := by
  have topics : (config.entries hmac).map Prod.fst = config.rules.flatMap Rule.topics := by
    simp [Obfuscation.entries, List.map_flatMap, Function.comp_def]
  rw [← topics, List.pairwise_map] at apart
  exact apart

/-- Two entries that cover one topic are one entry. -/
theorem entries_unique (apart : (config.rules.flatMap Rule.topics).Pairwise TopicPattern.Apart)
    {first second : TopicPattern × TopicObfuscator} {topic : String}
    (left : first ∈ config.entries hmac) (right : second ∈ config.entries hmac)
    (here : first.1.Matches topic) (there : second.1.Matches topic) : first = second := by
  by_contra different
  have symmetric : Std.Symm fun first second : TopicPattern × TopicObfuscator =>
      first.1.Apart second.1 := ⟨fun _ _ apart => apart.symm⟩
  exact (entries_pairwise apart).forall left right different topic ⟨here, there⟩

theorem forTopic_compile_iff
    (apart : (config.rules.flatMap Rule.topics).Pairwise TopicPattern.Apart) {topic : String}
    {obfuscator : TopicObfuscator} :
    (config.compile hmac).forTopic topic = some obfuscator ↔
      ∃ pattern, (pattern, obfuscator) ∈ config.entries hmac ∧ pattern.Matches topic := by
  constructor
  · intro found
    obtain ⟨pattern, holds, matched⟩ := forTopic_eq_some found
    exact ⟨pattern, holds_compile holds, matched⟩
  · rintro ⟨pattern, listed, covers⟩
    cases found : (config.compile hmac).forTopic topic with
    | none =>
      obtain ⟨held, holds⟩ : ∃ held, Holds (config.compile hmac) (pattern, held) := by
        rw [compile_eq_foldl]
        exact foldl_holds (.inl ⟨obfuscator, listed⟩)
      exact absurd covers (forTopic_eq_none found _ holds)
    | some held =>
      obtain ⟨other, holds, matched⟩ := forTopic_eq_some found
      have same := entries_unique apart (holds_compile holds) listed matched covers
      rw [(Prod.mk.inj same).2]

theorem forTopic_compile_of_uncovered {topic : String}
    (uncovered : ∀ rule ∈ config.rules, ¬ rule.Covers topic) :
    (config.compile hmac).forTopic topic = none := by
  cases found : (config.compile hmac).forTopic topic with
  | none => rfl
  | some obfuscator =>
    obtain ⟨pattern, holds, matched⟩ := forTopic_eq_some found
    obtain ⟨rule, listed, within, -⟩ := mem_entries.mp (holds_compile holds)
    exact absurd ⟨pattern, within, matched⟩ (uncovered rule listed)

end Compile

/-- The same rules in some order, each with its topics in some order. -/
def Reordered (first second : List Rule) : Prop :=
  ∃ between, first.Perm between ∧ List.Forall₂
    (fun left right => ∃ topics, left.topics.Perm topics ∧ right = { left with topics := topics })
    between second

namespace Reordered

theorem flatMap_perm {α : Type} {first second : List Rule} (reordered : Reordered first second)
    (parts : Rule → List α) (same : ∀ (rule : Rule) (topics : List TopicPattern),
      rule.topics.Perm topics → (parts rule).Perm (parts { rule with topics := topics })) :
    (first.flatMap parts).Perm (second.flatMap parts) := by
  obtain ⟨between, moved, turned⟩ := reordered
  refine (moved.flatMap_right parts).trans ?_
  clear moved
  induction turned with
  | nil => exact .nil
  | cons head tail ih =>
    obtain ⟨topics, perm, rfl⟩ := head
    exact (same _ topics perm).append ih

theorem pairwise {first second : List Rule} (reordered : Reordered first second)
    (apart : (first.flatMap Rule.topics).Pairwise TopicPattern.Apart) :
    (second.flatMap Rule.topics).Pairwise TopicPattern.Apart :=
  ((reordered.flatMap_perm Rule.topics fun _ _ perm => perm).pairwise_iff fun apart => apart.symm).mp apart

theorem entries_perm {hmac : Bytes → Bytes → Bytes} {config : Obfuscation} {rules : List Rule}
    (reordered : Reordered config.rules rules) :
    (config.entries hmac).Perm (Obfuscation.entries hmac { config with rules := rules }) :=
  reordered.flatMap_perm
    (fun rule => rule.topics.map fun topic => (topic, config.obfuscator hmac rule))
    fun _ _ perm => perm.map _

end Reordered

/-- Rules are accepted where no topic has two, and then a topic's rule is found
wherever it is listed. -/
theorem accepted_rules_cover_topics_once (hmac : Bytes → Bytes → Bytes) :
    (∀ first second : TopicPattern, first.overlaps second = true ↔
      ∃ topic, first.Matches topic ∧ second.Matches topic) ∧
    (∀ rules : List Rule, disjoint rules = .ok rules ↔
      (rules.flatMap Rule.topics).Pairwise fun first second =>
        ∀ topic, ¬ (first.Matches topic ∧ second.Matches topic)) ∧
    ∀ config : Obfuscation, disjoint config.rules = .ok config.rules → ∀ topic,
      (∀ rule ∈ config.rules, rule.Covers topic →
        (config.compile hmac).forTopic topic = some (config.obfuscator hmac rule)) ∧
      ((∀ rule ∈ config.rules, ¬ rule.Covers topic) →
        (config.compile hmac).forTopic topic = none) ∧
      ∀ rules, Reordered config.rules rules →
        disjoint rules = .ok rules ∧
        (Obfuscation.compile hmac { config with rules := rules }).forTopic topic =
          (config.compile hmac).forTopic topic := by
  refine ⟨fun _ _ => TopicPattern.overlaps_iff, fun _ => disjoint_eq_ok, ?_⟩
  intro config accepted topic
  have apart := disjoint_eq_ok.mp accepted
  refine ⟨?_, forTopic_compile_of_uncovered, ?_⟩
  · rintro rule listed ⟨pattern, within, matched⟩
    exact (forTopic_compile_iff apart).mpr
      ⟨pattern, mem_entries.mpr ⟨rule, listed, within, rfl⟩, matched⟩
  · intro rules reordered
    have still := reordered.pairwise apart
    refine ⟨disjoint_eq_ok.mpr still, Option.ext fun obfuscator => ?_⟩
    rw [forTopic_compile_iff apart, forTopic_compile_iff still]
    simp only [reordered.entries_perm.mem_iff]

/-- A name and a prefix, listed either way round. -/
theorem accepted_rules_cover_payments :
    let orders : Rule := ⟨[.exact "orders"], [], [], none, none, ["x-user-id"], .mask⟩
    let payments : Rule := ⟨[.exact "audit", .prefixed "pay"], [], [], none, some .mask, [], .mask⟩
    let hmac := fun _ message => message
    let config : Obfuscation := ⟨[], [orders, payments]⟩
    (config.compile hmac).forTopic "payments" = some (config.obfuscator hmac payments) ∧
      (config.compile hmac).forTopic "refunds" = none ∧
      (Obfuscation.compile hmac { config with rules := [payments, orders] }).forTopic "payments" =
        (config.compile hmac).forTopic "payments" := by
  intro orders payments hmac config
  have accepted := (accepted_rules_cover_topics_once hmac).2.2 config rfl
  refine ⟨(accepted "payments").1 payments (by simp [config]) ⟨.prefixed "pay", by simp [payments],
    by decide⟩, (accepted "refunds").2.1 ?_, ?_⟩
  · rintro rule listed ⟨pattern, within, matched⟩
    have uncovered : ∀ pattern ∈ config.rules.flatMap Rule.topics, ¬ pattern.Matches "refunds" := by
      decide
    exact uncovered pattern (List.mem_flatMap.mpr ⟨rule, listed, within⟩) matched
  · exact ((accepted "payments").2.2 [payments, orders]
      ⟨[payments, orders], List.Perm.swap _ _ _,
        .cons ⟨_, .refl _, rfl⟩ (.cons ⟨_, .refl _, rfl⟩ .nil)⟩).2

end Klens.Config
