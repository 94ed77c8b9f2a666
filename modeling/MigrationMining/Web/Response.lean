/-! The web as a value: for each URL the responses still to come, and the requests made so far. -/

namespace MigrationMining

inductive Method where
  | get
  | head
  deriving DecidableEq

def Method.text : Method → String
  | .get => "GET"
  | .head => "HEAD"

/-- A response with its body, which may break off, or a connection closed without an answer. -/
inductive Response where
  | answered (status : Nat) (body : ByteArray) (isWhole : Bool)
  | dropped

structure Request where
  method : Method
  url : String
  deriving DecidableEq

def Request.text (r : Request) : String := r.method.text ++ " " ++ r.url

structure Web where
  /-- The responses of each URL in the order they are given; the last one repeats. -/
  pages : List (String × List Response) := []
  asked : List Request := []

namespace Web

def notFound : Response := .answered 404 .empty true

def next : List Response → Response × List Response
  | [] => (notFound, [])
  | [r] => (r, [r])
  | r :: rs => (r, rs)

def take (url : String) : List (String × List Response) → Response × List (String × List Response)
  | [] => (notFound, [])
  | (u, rs) :: ps =>
    if u = url then ((next rs).1, (u, (next rs).2) :: ps)
    else ((take url ps).1, (u, rs) :: (take url ps).2)

def ask (web : Web) (request : Request) : Response × Web :=
  let (response, pages) := take request.url web.pages
  (response, { pages, asked := web.asked ++ [request] })

end Web

end MigrationMining
