import Endpoints.Parameter

/-!
# HTTP methods

The methods that a route may state, and the place where a request of each method carries
parameters that state none.
-/

namespace Endpoints

inductive HttpMethod where
  | get
  | post
  | put
  | delete
  | options
  | head
  | patch
  deriving DecidableEq, Repr

namespace HttpMethod

def name : HttpMethod → String
  | .get => "get"
  | .post => "post"
  | .put => "put"
  | .delete => "delete"
  | .options => "options"
  | .head => "head"
  | .patch => "patch"

def all : List HttpMethod := [.get, .post, .put, .delete, .options, .head, .patch]

def ofName? (s : String) : Option HttpMethod :=
  all.find? fun m => m.name = s

/-- Where parameters of open location go: into the query for the methods without a body, into
the body for the others. -/
def defaultLocation : HttpMethod → Location
  | .get | .head | .options | .delete => .query
  | .post | .put | .patch => .body

end HttpMethod

end Endpoints
