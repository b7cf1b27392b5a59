import JitoGame.Auth.Services
import JitoGame.Serializer

namespace JitoGame.Web

open Json (Units Value Step units)
open Centipoints (Finite)

structure FetchCall where
  url : String
  method : String
  headers : List (String × String)
  body : Option (List Char)

structure FetchResponse where
  status : Finite
  statusText : Units
  text : List Char

def FetchResponse.ok (r : FetchResponse) : Bool := 200 ≤ r.status.value ∧ r.status.value ≤ 299

-- `JSON.stringify(options.body)` is inside the `try` of `fetch`
def send (fetch : FetchCall → Option FetchResponse) (body : Unknown) (call : Option (List Char) → FetchCall) :
    Option FetchResponse :=
  match body with
  | .undefined => fetch (call none)
  | body =>
    match stringify body none none with
    | .ok text => fetch (call text)
    | .error _ => none

end JitoGame.Web
