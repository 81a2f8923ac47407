import Klens.App.Requests
import Klens.Lib.Except
import Mathlib.Data.Set.Basic

/-! What the listed ACLs are after any run of requests to create and delete them. -/
namespace Klens.Kafka
open Klens.Lib

theorem code_of_literal {code : Int}
    (read : AclPatternType.fromKrafka (.ofCode code) = .ok .literal) : code = 3 := by
  by_contra other
  have unread : WirePattern.ofCode code ≠ .prefixed := by
    unfold WirePattern.ofCode
    split <;> simp_all
  cases pattern : WirePattern.ofCode code <;> simp_all [AclPatternType.fromKrafka]

namespace Acl

/-- What Kafka stores for a literal ACL. -/
def stored (acl : Acl) : StoredAcl :=
  { resourceType := .known acl.resourceType, resourceName := acl.resourceName, patternType := 3
    principal := acl.principal, host := acl.host, operation := .known acl.operation
    permissionType := .known acl.permission }

theorem toKrafka_literal {acl : Acl} (literal : acl.patternType = .literal) :
    ∃ binding, acl.toKrafka = .ok binding ∧ binding.stored = acl.stored := by
  simp only [toKrafka, literal, AclPatternType.toKrafka]
  exact ⟨_, rfl, rfl⟩

theorem toKrafka_prefixed {acl : Acl} (other : acl.patternType ≠ .literal) :
    acl.toKrafka = .error .prefixedAcl := by
  cases pattern : acl.patternType with
  | literal => exact absurd pattern other
  | prefixed =>
    simp only [toKrafka, pattern, AclPatternType.toKrafka]
    rfl

theorem fromKrafka_stored {acl : Acl} (literal : acl.patternType = .literal) :
    fromKrafka acl.stored.described = .ok acl := by
  obtain ⟨_, _, pattern⟩ := acl
  cases pattern with
  | literal => rfl
  | prefixed => contradiction

/-- A row that is listed as a literal ACL is the one Kafka stores for it. -/
theorem eq_stored {row : StoredAcl} {acl : Acl} (read : fromKrafka row.described = .ok acl)
    (literal : acl.patternType = .literal) : row = acl.stored := by
  obtain ⟨resourceType, same, rest⟩ := Except.bind_ok read
  obtain ⟨patternType, pattern, rest⟩ := Except.bind_ok rest
  obtain ⟨operation, does, rest⟩ := Except.bind_ok rest
  obtain ⟨permission, may, rest⟩ := Except.bind_ok rest
  obtain rfl := Except.ok.inj rest
  obtain rfl : patternType = .literal := literal
  have code : row.patternType = 3 := code_of_literal pattern
  obtain ⟨⟨⟩, _, _, _, _, ⟨⟩, ⟨⟩⟩ := row <;>
    simp_all [StoredAcl.described, Wire.read, Acl.stored]

theorem filters_iff {acl : Acl} (literal : acl.patternType = .literal) {filter : AclBinding}
    (made : acl.toKrafka = .ok filter) (row : StoredAcl) :
    filter.filters row = true ↔ row = acl.stored := by
  simp only [toKrafka, literal, AclPatternType.toKrafka] at made
  obtain rfl := Except.ok.inj made
  obtain ⟨_, _, _, _, _, _, _⟩ := row
  simp [AclBinding.filters, WirePattern.code, Wire.covers, Acl.stored]
  grind

theorem mapM_literal {acls : List Acl} (literal : ∀ acl ∈ acls, acl.patternType = .literal) :
    ∃ bindings, acls.mapM toKrafka = .ok bindings ∧
      bindings.map AclBinding.stored = acls.map Acl.stored := by
  induction acls with
  | nil => exact ⟨[], rfl, rfl⟩
  | cons acl acls ih =>
    obtain ⟨here, later⟩ := List.forall_mem_cons.mp literal
    obtain ⟨binding, made, kept⟩ := toKrafka_literal here
    obtain ⟨bindings, others, rest⟩ := ih later
    refine ⟨binding :: bindings, ?_, by rw [List.map_cons, List.map_cons, kept, rest]⟩
    rw [List.mapM_cons, made, others]
    rfl

theorem mapM_prefixed {acls : List Acl} (other : ¬ ∀ acl ∈ acls, acl.patternType = .literal) :
    acls.mapM toKrafka = .error .prefixedAcl := by
  induction acls with
  | nil => exact absurd (fun _ member => absurd member List.not_mem_nil) other
  | cons acl acls ih =>
    rw [List.mapM_cons]
    by_cases literal : acl.patternType = .literal
    · obtain ⟨binding, made, _⟩ := toKrafka_literal literal
      have later : ¬ ∀ acl ∈ acls, acl.patternType = .literal :=
        fun all => other (List.forall_mem_cons.mpr ⟨literal, all⟩)
      rw [made, ih later]
      rfl
    · rw [toKrafka_prefixed literal]
      rfl

end Acl

/-- The ACLs a store is listed as. -/
def listedAcls (store : List StoredAcl) : Set Acl :=
  {acl | ∃ row ∈ store, Acl.fromKrafka row.described = .ok acl}

theorem mem_listedAcls {store : List StoredAcl} {acl : Acl} (literal : acl.patternType = .literal) :
    acl ∈ listedAcls store ↔ acl.stored ∈ store := by
  constructor
  · rintro ⟨row, member, read⟩
    exact Acl.eq_stored read literal ▸ member
  · exact fun member => ⟨acl.stored, member, Acl.fromKrafka_stored literal⟩

theorem contains_fromDescribe {store : List StoredAcl} {bindings : List AclBinding}
    (described : ∀ binding, binding ∈ bindings ↔ ∃ row ∈ store, row.described = binding)
    (acl : Acl) :
    (AclListing.fromDescribe bindings).contains acl = true ↔ acl ∈ listedAcls store := by
  simp only [AclListing.contains, AclListing.fromDescribe, List.contains_iff_mem,
    List.mem_filterMap, described]
  constructor
  · rintro ⟨_, ⟨row, member, rfl⟩, read⟩
    cases answer : Acl.fromKrafka row.described with
    | error => simp [answer, Except.toOption] at read
    | ok other => exact ⟨row, member, by simpa [answer, Except.toOption] using read⟩
  · rintro ⟨row, member, read⟩
    exact ⟨_, ⟨row, member, rfl⟩, by rw [read]; rfl⟩

theorem mem_foldl_insert {asked store : List StoredAcl} {row : StoredAcl} :
    row ∈ asked.foldl (fun store stored => if stored ∈ store then store else store ++ [stored])
      store ↔ row ∈ store ∨ row ∈ asked := by
  induction asked generalizing store with
  | nil => simp
  | cons stored asked ih =>
    rw [List.foldl_cons, ih]
    split_ifs <;> grind

/-- Kafka answered, if only for each ACL. -/
def AclAnswer.Answered : AclAnswer → Prop
  | .answered _ _ => True
  | _ => False

namespace AclRequest

/-- What a request makes of the listed ACLs: it adds what it names or takes it away,
so far as Kafka takes it, and nothing at all when it names a prefixed one. -/
def wanted (seen : Set Acl) : AclRequest × AclAnswer → Set Acl
  | (.create acls, answer) => seen ∪ {acl | (∀ other ∈ acls, other.patternType = .literal) ∧
      acl ∈ acls ∧ answer.creates acl.stored = true}
  | (.delete acl, answer) => seen \ {other | other = acl ∧ acl.patternType = .literal ∧
      answer.deletes acl.stored = true}

/-- When a request is answered as done. -/
def granted (seen : Set Acl) : AclRequest × AclAnswer → Prop
  | (.create acls, answer) =>
    answer.Answered ∧ ∀ acl ∈ acls, acl.patternType = .literal ∧ answer.creates acl.stored = true
  | (.delete acl, answer) =>
    acl.patternType = .literal ∧ ∃ refuses, answer = .answered none refuses ∧
      (acl ∈ seen → refuses acl.stored = none)

/-- What a request asks for, in full. -/
def Done (seen : Set Acl) : AclRequest → Prop
  | .create acls => ∀ acl ∈ acls, acl ∈ seen
  | .delete acl => acl ∉ seen

theorem done_of_granted {seen : Set Acl} {request : AclRequest} {answer : AclAnswer}
    (grants : granted seen (request, answer)) : request.Done (wanted seen (request, answer)) := by
  cases request with
  | create acls =>
    intro acl named
    exact .inr ⟨fun other member => (grants.2 other member).1, named, (grants.2 acl named).2⟩
  | delete acl =>
    obtain ⟨literal, refuses, rfl, free⟩ := grants
    rintro ⟨listed, kept⟩
    exact kept ⟨rfl, literal, by simp [AclAnswer.deletes, AclAnswer.creates, free listed]⟩

/-- Kafka's answers come to none when it refuses nothing of what it was asked. -/
theorem none_refused_iff {rows : List StoredAcl} {refuses : StoredAcl → Option KafkaError}
    {after : List StoredAcl} :
    (match rows.findSome? refuses with
      | some error => (Except.error error, after)
      | none => (Except.ok (), after)).1 = .ok () ↔ ∀ row ∈ rows, refuses row = none := by
  rw [← List.findSome?_eq_none_iff]
  cases rows.findSome? refuses with
  | none => exact iff_of_true rfl rfl
  | some error => exact iff_of_false nofun nofun

/-- What is stored after a request to create ACLs. -/
theorem create_cases (answer : AclAnswer) (store : List StoredAcl) (acls : List Acl) :
    ((∀ acl ∈ acls, acl.patternType = .literal) ∧
      (∀ row, row ∈ (createAcls answer store acls).2 ↔
        row ∈ store ∨ ∃ acl ∈ acls, answer.creates acl.stored = true ∧ row = acl.stored) ∧
      ((createAcls answer store acls).1 = .ok () ↔
        answer.Answered ∧ ∀ acl ∈ acls, answer.creates acl.stored = true)) ∨
    (¬ ∀ acl ∈ acls, acl.patternType = .literal) ∧
      createAcls answer store acls = (.error .prefixedAcl, store) := by
  by_cases literal : ∀ acl ∈ acls, acl.patternType = .literal
  · obtain ⟨bindings, made, kept⟩ := Acl.mapM_literal literal
    refine .inl ⟨literal, fun row => ?_, ?_⟩
    · have holds : row ∈ ((acls.map Acl.stored).filter answer.creates).foldl
          (fun store stored => if stored ∈ store then store else store ++ [stored]) store ↔
          row ∈ store ∨ ∃ acl ∈ acls, answer.creates acl.stored = true ∧ row = acl.stored := by
        rw [mem_foldl_insert, List.mem_filter, List.mem_map]
        grind
      refine Iff.trans ?_ holds
      simp only [createAcls, made, kept]
      cases answer with
      | unreached => exact .rfl
      | lost => exact .rfl
      | answered => simp only; split <;> exact .rfl
    · simp only [createAcls, made, kept]
      cases answer with
      | unreached => exact iff_of_false nofun And.left
      | lost => exact iff_of_false nofun And.left
      | answered _ refuses =>
        refine none_refused_iff.trans ?_
        simp only [List.forall_mem_map, AclAnswer.Answered, AclAnswer.creates,
          Option.isNone_iff_eq_none, true_and]
  · exact .inr ⟨literal, by simp only [createAcls, Acl.mapM_prefixed literal]⟩

theorem delete_cases (answer : AclAnswer) (store : List StoredAcl) (acl : Acl) :
    (acl.patternType = .literal ∧
      (∀ row, row ∈ (deleteAcl answer store acl).2 ↔
        row ∈ store ∧ ¬ (row = acl.stored ∧ answer.deletes acl.stored = true)) ∧
      ((deleteAcl answer store acl).1 = .ok () ↔ ∃ refuses, answer = .answered none refuses ∧
        (acl.stored ∈ store → refuses acl.stored = none))) ∨
    acl.patternType ≠ .literal ∧ ∃ error, deleteAcl answer store acl = (.error error, store) := by
  by_cases literal : acl.patternType = .literal
  · obtain ⟨filter, made, _⟩ := Acl.toKrafka_literal literal
    have matches_ := Acl.filters_iff literal made
    have gone (row : StoredAcl) : (filter.filters row && answer.deletes row) = true ↔
        row = acl.stored ∧ answer.deletes acl.stored = true := by
      rw [Bool.and_eq_true, matches_]
      exact and_congr_right fun same => by rw [same]
    refine .inl ⟨literal, fun row => ?_, ?_⟩
    · have stays : row ∈ store.filter (fun row => !(filter.filters row && answer.deletes row)) ↔
          row ∈ store ∧ ¬ (row = acl.stored ∧ answer.deletes acl.stored = true) := by
        rw [List.mem_filter, Bool.not_eq_true', Bool.eq_false_iff, ne_eq, gone]
      refine Iff.trans ?_ stays
      simp only [deleteAcl, Acl.toKrafkaFilter, made]
      cases answer with
      | unreached => simp [AclAnswer.deletes, AclAnswer.creates]
      | lost => exact .rfl
      | answered refused =>
        cases refused with
        | some => exact .rfl
        | none => simp only; split <;> exact .rfl
    · simp only [deleteAcl, Acl.toKrafkaFilter, made]
      cases answer with
      | unreached => exact iff_of_false nofun nofun
      | lost => exact iff_of_false nofun nofun
      | answered refused refuses =>
        cases refused with
        | some => exact iff_of_false nofun nofun
        | none =>
          simp only [AclAnswer.answered.injEq, true_and, exists_eq_left']
          refine none_refused_iff.trans ?_
          simp only [List.mem_filter, matches_, and_imp]
          exact ⟨fun free member => free _ member rfl, fun free row member same =>
            same ▸ free (same ▸ member)⟩
  · refine .inr ⟨literal, ?_⟩
    simp only [deleteAcl, Acl.toKrafkaFilter, Acl.toKrafka_prefixed literal]
    cases answer <;> exact ⟨_, rfl⟩

theorem listed_perform (answer : AclAnswer) (store : List StoredAcl) (request : AclRequest) :
    listedAcls (request.perform answer store).2 = wanted (listedAcls store) (request, answer) := by
  ext acl
  cases request with
  | create acls =>
    simp only [perform, wanted, Set.mem_union, Set.mem_ofPred_eq]
    obtain ⟨literal, rows, _⟩ | ⟨other, same⟩ := create_cases answer store acls
    · constructor
      · rintro ⟨row, member, read⟩
        obtain old | ⟨made, named, free, rfl⟩ := (rows row).mp member
        · exact .inl ⟨row, old, read⟩
        · obtain rfl : made = acl :=
            Except.ok.inj ((Acl.fromKrafka_stored (literal made named)).symm.trans read)
          exact .inr ⟨literal, named, free⟩
      · rintro (⟨row, old, read⟩ | ⟨_, named, free⟩)
        · exact ⟨row, (rows row).mpr (.inl old), read⟩
        · exact ⟨acl.stored, (rows _).mpr (.inr ⟨acl, named, free, rfl⟩),
            Acl.fromKrafka_stored (literal acl named)⟩
    · simp [same, other]
  | delete gone =>
    simp only [perform, wanted, Set.mem_sdiff, Set.mem_ofPred_eq]
    obtain ⟨literal, rows, _⟩ | ⟨other, _, same⟩ := delete_cases answer store gone
    · constructor
      · rintro ⟨row, member, read⟩
        obtain ⟨old, kept⟩ := (rows row).mp member
        refine ⟨⟨row, old, read⟩, ?_⟩
        rintro ⟨rfl, _, free⟩
        exact kept ⟨Acl.eq_stored read literal, free⟩
      · rintro ⟨⟨row, old, read⟩, kept⟩
        refine ⟨row, (rows row).mpr ⟨old, ?_⟩, read⟩
        rintro ⟨rfl, free⟩
        obtain rfl : gone = acl := Except.ok.inj ((Acl.fromKrafka_stored literal).symm.trans read)
        exact kept ⟨rfl, literal, free⟩
    · simp [same, other]

/-- A row that is not listed stays as it is. -/
theorem unlisted_perform (answer : AclAnswer) (store : List StoredAcl) (request : AclRequest)
    {row : StoredAcl} (unlisted : ∀ acl, Acl.fromKrafka row.described ≠ .ok acl) :
    row ∈ (request.perform answer store).2 ↔ row ∈ store := by
  have unmade : ∀ acl : Acl, acl.patternType = .literal → row ≠ acl.stored := by
    rintro acl literal rfl
    exact unlisted acl (Acl.fromKrafka_stored literal)
  cases request with
  | create acls =>
    simp only [perform]
    obtain ⟨literal, rows, _⟩ | ⟨_, same⟩ := create_cases answer store acls
    · refine (rows row).trans ⟨?_, .inl⟩
      rintro (old | ⟨acl, named, _, made⟩)
      · exact old
      · exact absurd made (unmade acl (literal acl named))
    · rw [same]
  | delete acl =>
    simp only [perform]
    obtain ⟨literal, rows, _⟩ | ⟨_, _, same⟩ := delete_cases answer store acl
    · exact (rows row).trans ⟨And.left, fun old => ⟨old, fun gone => unmade acl literal gone.1⟩⟩
    · rw [same]

theorem listed_run (store : List StoredAcl) (requests : List (AclRequest × AclAnswer)) :
    listedAcls (run store requests) = requests.foldl wanted (listedAcls store) := by
  induction requests generalizing store with
  | nil => rfl
  | cons request requests ih =>
    rw [List.foldl_cons, ← listed_perform]
    exact ih _

theorem unlisted_run (store : List StoredAcl) (requests : List (AclRequest × AclAnswer))
    {row : StoredAcl} (unlisted : ∀ acl, Acl.fromKrafka row.described ≠ .ok acl) :
    row ∈ run store requests ↔ row ∈ store := by
  induction requests generalizing store with
  | nil => exact .rfl
  | cons request requests ih =>
    exact (ih _).trans (unlisted_perform request.2 store request.1 unlisted)

theorem perform_ok_iff (answer : AclAnswer) (store : List StoredAcl) (request : AclRequest) :
    (request.perform answer store).1 = .ok () ↔ granted (listedAcls store) (request, answer) := by
  cases request with
  | create acls =>
    simp only [perform, granted]
    obtain ⟨literal, _, told⟩ | ⟨other, same⟩ := create_cases answer store acls
    · refine told.trans (and_congr_right fun _ => ?_)
      exact ⟨fun free acl member => ⟨literal acl member, free acl member⟩,
        fun all acl member => (all acl member).2⟩
    · rw [same]
      exact iff_of_false nofun fun all => other fun acl member => (all.2 acl member).1
  | delete acl =>
    simp only [perform, granted]
    obtain ⟨literal, _, told⟩ | ⟨other, _, same⟩ := delete_cases answer store acl
    · rw [told, mem_listedAcls literal]
      exact (and_iff_right literal).symm
    · rw [same]
      exact iff_of_false nofun fun all => other all.1

end AclRequest
end Klens.Kafka

namespace Klens.App
open Klens.Kafka

/-- After any run of requests, whatever becomes of each, Kafka holds as far as it is
listed just what it took of them: each adds or takes away what it names and nothing
else, one that names a prefixed ACL does nothing, no row that cannot be listed is
touched. A request is answered as done when Kafka answered it and refused nothing, and
then it is done. -/
theorem acls_follow_requests (store : List StoredAcl) (requests : List (AclRequest × AclAnswer)) :
    let after := AclRequest.run store requests
    let seen := requests.foldl AclRequest.wanted (listedAcls store)
    (∀ bindings, (∀ binding, binding ∈ bindings ↔ ∃ row ∈ after, row.described = binding) →
      ∀ acl, (AclListing.fromDescribe bindings).contains acl = true ↔ acl ∈ seen) ∧
    (∀ row : StoredAcl, (∀ acl, Acl.fromKrafka row.described ≠ .ok acl) →
      (row ∈ after ↔ row ∈ store)) ∧
    (∀ (request : AclRequest) answer, (request.perform answer after).1 = .ok () ↔
      AclRequest.granted seen (request, answer)) ∧
    ∀ (request : AclRequest) answer, (request.perform answer after).1 = .ok () →
      request.Done (listedAcls (request.perform answer after).2) := by
  intro after seen
  have listed : listedAcls after = seen := AclRequest.listed_run store requests
  refine ⟨fun bindings described acl => ?_, fun row unlisted => ?_, fun request answer => ?_,
    fun request answer done => ?_⟩
  · rw [contains_fromDescribe described, listed]
  · exact AclRequest.unlisted_run store requests unlisted
  · rw [AclRequest.perform_ok_iff, listed]
  · rw [AclRequest.listed_perform]
    exact AclRequest.done_of_granted ((AclRequest.perform_ok_iff answer after request).mp done)

end Klens.App
