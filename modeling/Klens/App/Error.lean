import Klens.Auth.Access
import Klens.Kafka.Error

/-! What a request is refused with. -/
namespace Klens.App

inductive ApiError where
  | kafka (error : Kafka.KafkaError)
  | access (error : Auth.AccessError)
  | sessionExpired
  | tooManyLiveCalls
  | notReady (cluster lane : String) (lastError : Option String)
  | invalidRequest (status : Nat) (message : String)
  deriving DecidableEq, Repr

def ApiError.unprocessable (message : String) : ApiError := .invalidRequest 422 message

end Klens.App
