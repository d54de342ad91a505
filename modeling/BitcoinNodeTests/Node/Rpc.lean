import BitcoinNodeTests.Foundation.Action
import BitcoinNodeTests.Foundation.Octets

/-!
# A node behind its RPC

What a test sees of a node: a call is answered with a JSON value or fails, and may
leave the node in any other state.  Nothing here says that the answers are honest;
a result that needs it says so of the environment it is about.
-/

set_option autoImplicit false

namespace BitcoinNodeTests

open Foundation

/-- `real` keeps what `repr` makes of a number that is no integer. -/
inductive Json where
  | null
  | bool (value : Bool)
  | int (value : Int)
  | real (text : String)
  | str (text : String)
  | array (items : List Json)
  | object (fields : List (String × Json))

/-- `isinstance(answer, int)`, which a `bool` is too. -/
def Json.asInt : Json → Option Int
  | .int value => some value
  | .bool value => some (if value then 1 else 0)
  | _ => none

def Json.asStr : Json → Option String
  | .str text => some text
  | _ => none

def Json.asArray : Json → Option (List Json)
  | .array items => some items
  | _ => none

/-- `answer.get(name)` of a `dict`; the last field of a name is the one kept. -/
def Json.get (name : String) : Json → Option Json
  | .object fields => (fields.findRev? fun field => field.1 = name).map Prod.snd
  | _ => none

inductive RpcFailure where
  | rpcError (code : Int) (message : String)
  | httpError (status : Int)
  | other (text : String)
  deriving DecidableEq, Repr

/-- The node's RPC and the wall clock, in seconds, over the states `ω` of the world. -/
structure Environment (ω : Type) where
  call : String → List Json → ω → Except RpcFailure Json × ω
  clock : ω → Int × ω

end BitcoinNodeTests
