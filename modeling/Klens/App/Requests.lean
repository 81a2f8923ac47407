import Klens.App.Error
import Klens.Kafka.Acls
import Klens.Kafka.Configs
import Klens.Kafka.Quotas

/-! The bodies of the requests that change a cluster, and what makes one valid. -/
namespace Klens.App
open Klens.Kafka Std

structure EditConfigs where
  set : ExtTreeMap String String
  reset : ExtTreeSet String

def EditConfigs.intoEdit (request : EditConfigs) : Except ApiError ConfigEdit :=
  if request.set.isEmpty && request.reset.isEmpty then
    .error (.unprocessable "name a config to set or reset")
  else match request.reset.toList.find? fun name => request.set.contains name with
    | some name => .error (.unprocessable s!"{name} cannot be both set and reset")
    | none => .ok { set := request.set, reset := request.reset }

structure CreateAcls where
  bindings : List Acl

def CreateAcls.intoAcls (request : CreateAcls) : Except ApiError (List Acl) :=
  if request.bindings.isEmpty then .error (.unprocessable "name at least one binding")
  else .ok request.bindings

/-- The body that sets a quota; a value left out is removed. -/
structure ClientQuota (V : Type) where
  entity : List QuotaEntity
  values : QuotaValues V

/-- `tuple_windows().find`: the first part whose type the next one has too. -/
def repeated : List QuotaEntity → Option QuotaEntity
  | part :: next :: rest =>
    if part.entityType = next.entityType then some part else repeated (next :: rest)
  | _ => none

def ClientQuota.intoQuota {V : Type} (request : ClientQuota V) :
    Except ApiError (Kafka.ClientQuota V) :=
  if request.entity.isEmpty then .error (.unprocessable "name the entity the quota applies to")
  else
    let entity := QuotaEntity.sorted request.entity
    match repeated entity with
    | some part =>
      .error (.unprocessable s!"the entity names {part.entityType.wire} twice")
    | none => .ok { entity, values := request.values }

end Klens.App
