import Klens.App.WritesGranted

/-! What a request to change a cluster tells who may not change it. -/
namespace Klens.App
open Klens.Auth Klens.Kafka Klens.Lib
variable {V : Type}

namespace Session
variable {session : Session V} {name : String}

/-- The caller may not make such a change on the cluster, or sees no such cluster. -/
def Refuses (session : Session V) (name : String) (privilege : Privilege) : Prop :=
  ∀ handle, session.cluster name = .ok handle →
    handle.cluster.writable = false ∨ privilege ∉ handle.access.privileges

/-- The caller may do the same in both, and of a cluster that the caller sees both hold
whether there is one and whether it may be changed. -/
structure Alike (one two : Session V) (name : String) : Prop where
  access : one.access = two.access
  writable : (one.access.cluster name).isOk = true →
    (one.clusters name).map LiveCluster.writable = (two.clusters name).map LiveCluster.writable

variable {one two : Session V} {privilege : Privilege}

/-- The error that a caller who is refused is told. -/
def refusal (session : Session V) (name : String) (privilege : Privilege) : Option ApiError :=
  match session.cluster name with
  | .error error => some error
  | .ok handle => match handle.writes privilege with
    | .error error => some error
    | .ok _ => none

theorem refusal_of_refuses (refuses : session.Refuses name privilege) :
    ∃ error, session.refusal name privilege = some error := by
  unfold refusal
  split
  · exact ⟨_, rfl⟩
  · rename_i handle reached
    rw [handle.writes_eq]
    obtain readOnly | denied := refuses handle reached
    · simp [readOnly]
    · by_cases writable : handle.cluster.writable = true <;> simp [writable, denied]

/-- The refusal says nothing of a cluster but whether it may be changed. -/
theorem refusal_eq (alike : Alike one two name) :
    one.refusal name privilege = two.refusal name privilege := by
  obtain ⟨same, writable⟩ := alike
  cases seen : one.access.cluster name with
  | error error => simp only [refusal, cluster, ← same, seen, Except.mapError, bind, Except.bind]
  | ok access =>
    have named := named_of_cluster seen
    have writable := writable (by rw [seen]; rfl)
    simp only [refusal, cluster, ← same, seen, Except.mapError, bind, Except.bind, named]
    cases found : one.clusters name with
    | none =>
      rw [found] at writable
      rw [Option.map_eq_none_iff.mp writable.symm]
    | some first =>
      rw [found] at writable
      obtain ⟨second, found', same⟩ := Option.map_eq_some_iff.mp writable.symm
      rw [found']
      simp only [ClusterHandle.writes_eq, same]
      by_cases writable : first.writable = true <;>
        by_cases privileged : privilege ∈ access.privileges <;> simp [writable, privileged]

theorem granted_of_refusal {error : ApiError}
    (refused : session.refusal name privilege = some error)
    (rest : LiveCluster V → Handling V WriteAnswer) :
    (refusing (session.cluster name) >>= fun handle =>
      refusing (handle.writes privilege) >>= rest) = .lift (.error (.refused error)) := by
  unfold refusal at refused
  split at refused
  · rename_i other unreached
    obtain rfl := Option.some.inj refused
    rw [unreached]
    rfl
  · rename_i handle reached
    split at refused
    · rename_i other denied
      obtain rfl := Option.some.inj refused
      rw [reached]
      have entered : ∀ next : ClusterHandle V → Handling V WriteAnswer,
          refusing (.ok handle) >>= next = next handle := fun _ => rfl
      rw [entered, denied]
      rfl
    · contradiction

theorem write_of_refusal {request : WriteRequest V} {error : ApiError}
    (refused : session.refusal name request.privilege = some error) :
    session.write name request = .lift (.error (.refused error)) := by
  cases request <;> exact granted_of_refusal refused _

/-- Who may not make a change learns nothing of the cluster by asking for it: neither what
it holds, nor what the change would come to. -/
theorem refused_learns_nothing {request : WriteRequest V} (alike : Alike one two name)
    (refuses : one.Refuses name request.privilege) :
    one.write name request = two.write name request ∧
      ∀ asked, (one.write name request asked).2 = asked := by
  obtain ⟨error, refused⟩ := refusal_of_refuses refuses
  rw [write_of_refusal refused, write_of_refusal ((refusal_eq alike).symm.trans refused)]
  exact ⟨rfl, fun asked => rfl⟩

namespace Sample
open Klens.Store

/-- Someone who may read records and change nothing. -/
def viewer (topology : Option Topology) : Session Nat where
  access := .granted [{ roleName := "viewer", privileges := {.records}, scope := .all }]
  clusters := fun _ => some (cluster topology)

theorem viewer_refuses (topology : Option Topology) :
    (viewer topology).Refuses "local" .deleteTopics := by
  intro handle reached
  obtain rfl : ⟨⟨"local", {.records}, _⟩, cluster topology⟩ = handle := Except.ok.inj reached
  exact .inr (show Privilege.deleteTopics ∉ ({.records} : PrivilegeSet) by decide)

end Sample

theorem refused_learns_nothing_viewer :
    (Sample.viewer none).write "local" (.deleteTopic "orders") =
        (Sample.viewer (some .empty)).write "local" (.deleteTopic "orders") ∧
      ∀ asked, ((Sample.viewer none).write "local" (.deleteTopic "orders") asked).2 = asked :=
  refused_learns_nothing ⟨rfl, fun _ => rfl⟩ (Sample.viewer_refuses none)

end Session
end Klens.App
