import RecipeGraph.Json.Printer
import RecipeGraph.Service

/-!
Requests and responses as lines of JSON.
-/

namespace RecipeGraph

namespace Request

/-- Method, target, content type and body. -/
def form : Form (String × String × Option String × String) :=
  (Form.required "method" Decoder.text).both
    ((Form.required "target" Decoder.text).both
      ((Form.withDefault "contentType" none (Decoder.optional Decoder.text)).both
        (Form.withDefault "body" "" Decoder.text)))

def decode : Decoder Request := fun reading draft => do
  let (method, target, contentType, body) ← form.read reading draft
  match build? method target contentType body with
  | some request => return request
  | none => .error (.mismatch (.invalidValue .map "a request"))

end Request

def Content.toJson : Content → Json
  | .nothing => .null
  | .json value => value
  | .text value => .str value

def Response.toJson (response : Response) : Json :=
  .obj [("content", response.content.toJson), ("status", Json.size response.status)]

/-- Answers a line that holds a request. -/
def Service.answerLine (service : Service) (line : String) : String × Service :=
  match Request.decode.ofText line with
  | .ok request =>
    let (response, next) := service.answer request
    (response.toJson.print, next)
  | .error fault => ((Json.obj [("error", .str fault.message)]).print, service)

end RecipeGraph
