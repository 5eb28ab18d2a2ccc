import CellCompiler.Generate.Function

/-!
# Routers

A router passes a message to the handler that takes it. It tries, in this order, bounced messages,
opcodes, the empty message, text messages and the fallback, and gives back `self` together with
whether the message was handled.

* `bounceStage` is the part for bounced messages, which end there in any case;
* `routerBody` is the part for all others;
* `emitRouter` emits the router of a direction.
-/

namespace CellCompiler

namespace Generate

open Target

/-- Where a message comes from. -/
inductive Direction where
  | internal
  | external
  deriving DecidableEq, Repr

/-- What a handler takes of the messages of a direction. -/
def Handler.message? (h : Handler) : Direction → Option MessageSelector
  | .internal =>
    match h.selector with
    | .internal selector => some selector
    | _ => none
  | .external =>
    match h.selector with
    | .external selector => some selector
    | _ => none

/-- The handler takes external messages. -/
def Handler.isExternal (h : Handler) : Bool := (h.message? .external).isSome

/-- A route: what is taken, and the name of the function that takes it. -/
abbrev Route := MessageSelector × String

/-- The routes of a direction. -/
def routes (handlers : List Handler) (direction : Direction) : List Route :=
  handlers.filterMap fun h => (h.message? direction).map fun message => (message, h.name)

/-! ### Pieces of routers -/

/-- The body of the message. -/
def inMsg : Target.Expr := id "in_msg"

/-- Leave the router. -/
def handled (value : Bool) : Target.Stmt := ret (.tensor [id Name.self, .bool value])

/-- Call a handler. -/
def callHandler (name : String) (args : List Target.Expr) : Target.Stmt :=
  .expr (Target.modify (id Name.self) name args)

/-- Call a handler and leave the router. -/
def dispatch (name : String) (args : List Target.Expr) : List Target.Stmt :=
  [callHandler name args, handled true]

/-- Width of opcodes. -/
def opcodeBits : Gen Target.Expr := do
  return int (← read).config.opcodeBits.toNat

/-- The message has at least an opcode. -/
def hasOpcode (bits : Target.Expr) : Target.Expr :=
  .binary .ge (method inMsg "slice_bits" []) bits

/-- Bind the opcode of the message, which is zero if there is none. -/
def bindOpcode (name : String) (bits : Target.Expr) : List Target.Stmt :=
  [typedVar .int name (int 0),
    ifThen (hasOpcode bits) [assign (id name) (method inMsg "preload_uint" [bits])]]

/-- The opcode of a message type. -/
def opcodeOf (typeName : String) : Gen UInt32 := do
  match (← declOf typeName).header with
  | some opcode => return opcode
  | none => defect (.noOpcode typeName)

/-- If the opcode is that of a type, load the message and pass it to its handler. -/
def typedBranch (opcodeVar typeName reader handler : String) : Gen Target.Stmt := do
  let opcode ← opcodeOf typeName
  let reader ← used reader
  return ifThen (eq (id opcodeVar) (int opcode.toNat))
    (var (id "msg") (Target.modify inMsg reader []) :: dispatch handler [id "msg"])

/-! ### Bounced messages -/

/-- Branches for bounced messages of declared types. -/
def bounceBranches : List Handler → Gen (List Target.Stmt)
  | [] => return []
  | h :: rest => do
    match h.selector with
    | .bounceBinary typeName bounced =>
      let reader := if bounced then Name.readerBounced typeName else Name.reader typeName
      let first ← typedBranch "bounce_op" typeName reader h.name
      return first :: (← bounceBranches rest)
    | _ => bounceBranches rest

/-- The handler takes bounced messages of a declared type. -/
def Handler.isTypedBounce (h : Handler) : Bool :=
  match h.selector with
  | .bounceBinary .. => true
  | _ => false

/-- Handle a bounced message; one that nobody takes is accepted too. -/
def bounceStage (handlers : List Handler) : Gen (List Target.Stmt) := do
  let mark := (← read).config.bounceMarkBits.toNat
  let bits ← opcodeBits
  let opcode := if handlers.any Handler.isTypedBounce then bindOpcode "bounce_op" bits else []
  let branches ← bounceBranches handlers
  let fallbacks := handlers.filter (·.selector == .bounceFallback)
  return [.expr (Target.modify inMsg "skip_bits" [int mark])] ++ opcode ++ branches ++
    fallbacks.map (fun h => callHandler h.name [inMsg]) ++ [handled true]

/-! ### Other messages -/

/-- Branches for messages of declared types. -/
def opcodeBranches : List Route → Gen (List Target.Stmt)
  | [] => return []
  | (.binary typeName, name) :: rest => do
    let first ← typedBranch "op" typeName (Name.reader typeName) name
    return first :: (← opcodeBranches rest)
  | _ :: rest => opcodeBranches rest

/-- Branches for the message without content. -/
def emptyBranches (bits : Target.Expr) (routes : List Route) : List Target.Stmt :=
  routes.filterMap fun (message, name) =>
    match message with
    | .empty =>
      some (ifThen (.binary .and (eq (id "op") (int 0))
        (.binary .le (method inMsg "slice_bits" []) bits)) (dispatch name []))
    | _ => none

/-- Branches for given texts. -/
def commentBranches : List Route → Gen (List Target.Stmt)
  | [] => return []
  | (.comment text, name) :: rest => do
    let opcode ← ofCell (commentOpcode text)
    return ifThen (eq (id "text_op") (int opcode)) (dispatch name []) ::
      (← commentBranches rest)
  | _ :: rest => commentBranches rest

/-- Branches for any other text. -/
def commentFallbackBranches (bits : Target.Expr) (routes : List Route) : List Target.Stmt :=
  routes.filterMap fun (message, name) =>
    match message with
    | .commentFallback =>
      some (ifThen (hasOpcode bits) (dispatch name [method inMsg "skip_bits" [bits]]))
    | _ => none

/-- The part for text messages, if some handler takes any. -/
def textStage (bits : Target.Expr) (routes : List Route) : Gen (List Target.Stmt) := do
  let branches := (← commentBranches routes) ++ commentFallbackBranches bits routes
  if branches.isEmpty then return []
  return [ifThen (eq (id "op") (int 0))
    (var (id "text_op") (call "slice_hash" [inMsg]) :: branches)]

/-- The handlers of last resort. -/
def fallbackStage (routes : List Route) : List Target.Stmt :=
  routes.flatMap fun (message, name) =>
    match message with
    | .fallback => dispatch name [inMsg]
    | _ => []

/-- Handle a message that has not bounced. -/
def routerBody (routes : List Route) : Gen (List Target.Stmt) := do
  let bits ← opcodeBits
  let typed ← opcodeBranches routes
  let text ← textStage bits routes
  return bindOpcode "op" bits ++ typed ++ emptyBranches bits routes ++ text ++
    fallbackStage routes ++ [handled false]

/-! ### The routers -/

/-- The router of a direction. -/
def routerItem (contract : TypeDecl) (handlers : List Handler) (direction : Direction) :
    Gen Item := do
  handlers.forM fun h => do discard (used h.name)
  let bounced ←
    match direction with
    | .internal => do pure [ifThen (id "msg_bounced") (← bounceStage handlers)]
    | .external => pure []
  let body ← routerBody (routes handlers direction)
  let self ← representation (.plain contract.name)
  let signature : Signature :=
    match direction with
    | .internal =>
      (Signature.param { name := Name.routerInternal contract.name } self Name.self).param .int
        "msg_bounced"
    | .external => Signature.param { name := Name.routerExternal contract.name } self Name.self
  return ((signature.param .slice "in_msg").returning (.tensor [self, .int])).impure.inline.define
    (bounced ++ body)

/-- Emit the router of a direction. -/
def emitRouter (contract : TypeDecl) (handlers : List Handler) (direction : Direction) :
    Gen Unit :=
  define (.contract contract.name) (routerItem contract handlers direction)

end Generate

end CellCompiler
