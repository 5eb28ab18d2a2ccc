/-!
# Names of emitted code

Variables of the source are marked by `$` in front, fields of a record in a variable are joined to
it by `'`, and everything emitted for a type is named after it between two `$`. Since identifiers
of the source contain neither character, emitted names stay apart from each other.
-/

namespace CellCompiler

namespace Name

/-! ### Variables -/

/-- The variable of a source identifier. -/
def var (name : String) : String := "$" ++ name

/-- The variable of a field of a record in a variable. -/
def tick (base field : String) : String := base ++ "'" ++ field

/-- The variable of `self`. -/
def self : String := var "self"

/-- The variable of a path, given its segments. -/
def path : List String → String
  | [] => ""
  | root :: fields => fields.foldl tick (var root)

/-! ### Functions of a type -/

/-- A function emitted for a type. -/
def ofType (type suffix : String) : String := "$" ++ type ++ "$_" ++ suffix

/-- Stores a record in a builder. -/
def writer (type : String) : String := ofType type "store"

/-- Stores a record in a cell of its own. -/
def writerCell (type : String) : String := ofType type "store_cell"

/-- Stores a record that may be absent. -/
def writerOpt (type : String) : String := ofType type "store_opt"

/-- Stores a record that may be absent in a cell of its own. -/
def writerCellOpt (type : String) : String := ofType type "store_cell_opt"

/-- Loads a record and leaves the rest of the slice. -/
def reader (type : String) : String := ofType type "load"

/-- Loads a record that fills its slice. -/
def readerNotMut (type : String) : String := ofType type "load_not_mut"

/-- Loads what is left of a message after a bounce. -/
def readerBounced (type : String) : String := ofType type "load_bounced"

/-- Loads a record that may be absent. -/
def readerOpt (type : String) : String := ofType type "load_opt"

/-- Loads a record from a cell that may be absent. -/
def readerCellOpt (type : String) : String := ofType type "load_cell_opt"

/-- Takes a field out of a record. -/
def getter (type field : String) : String := ofType type ("get_" ++ field)

/-- Keeps the shape of a record that is the only argument. -/
def tensorCast (type : String) : String := ofType type "tensor_cast"

/-- Opens an optional record. -/
def notNull (type : String) : String := ofType type "not_null"

/-- Makes a record optional. -/
def asOptional (type : String) : String := ofType type "as_optional"

/-- Turns a record into a tuple. -/
def toTuple (type : String) : String := ofType type "to_tuple"

/-- Turns an optional record into a tuple. -/
def toOptTuple (type : String) : String := ofType type "to_opt_tuple"

/-- Turns a tuple into a record. -/
def fromTuple (type : String) : String := ofType type "from_tuple"

/-- Turns a tuple into an optional record. -/
def fromOptTuple (type : String) : String := ofType type "from_opt_tuple"

/-- Turns a record into what callers from outside receive. -/
def toExternal (type : String) : String := ofType type "to_external"

/-- Turns an optional record into what callers from outside receive. -/
def toOptExternal (type : String) : String := ofType type "to_opt_external"

/-- Turns what callers from outside pass into a record. -/
def fromExternal (type : String) : String := ofType type "from_external"

/-- Turns what callers from outside pass into an optional record. -/
def fromOptExternal (type : String) : String := ofType type "from_opt_external"

/-- A method declared on a type. -/
def method (type name : String) : String := ofType type ("fun_" ++ name)

/-! ### Other functions -/

/-- A function that belongs to no type. -/
def globalFunction (name : String) : String := "$global_" ++ name

/-- Runs a method that changes `self` on a value that is not kept. -/
def notMut (function : String) : String := function ++ "$not_mut"

/-- A method that can be called from outside. -/
def getterMethod (name : String) : String := "%" ++ name

/-! ### Contracts -/

/-- The record of the arguments that a contract is deployed with. -/
def initArgs (contract : String) : String := contract ++ "$init"

/-- Makes the first state of a contract. -/
def contractInit (contract : String) : String := ofType contract "contract_init"

/-- Makes code and data for the deployment of a contract. -/
def initChild (contract : String) : String := ofType contract "init_child"

/-- Loads the state of a contract. -/
def contractLoad (contract : String) : String := ofType contract "contract_load"

/-- Stores the state of a contract. -/
def contractStore (contract : String) : String := ofType contract "contract_store"

/-- Passes internal messages to their handlers. -/
def routerInternal (contract : String) : String := ofType contract "contract_router_internal"

/-- Passes external messages to their handlers. -/
def routerExternal (contract : String) : String := ofType contract "contract_router_external"

/-- A message handler, by its direction and what it selects. -/
def receiver (contract direction selector : String) : String :=
  ofType contract (direction ++ "_" ++ selector)

/-- The entry point for internal messages. -/
def recvInternal : String := "recv_internal"

/-- The entry point for external messages. -/
def recvExternal : String := "recv_external"

end Name

end CellCompiler
