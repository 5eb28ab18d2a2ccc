import CellCompiler.Generate.Router
import CellCompiler.Proofs.Cell
import CellCompiler.Proofs.Machine.Outcomes

/-!
# Who takes a message

A message goes to the first handler that takes it.

* `bounceDelivery?` and `messageDelivery?` decide which handler that is, and with which payload, by
  going through the handlers in the order of their declaration;
* `routed` does what they decide: it reads the payload, calls the handler and says whether the message
  was handled.
-/

namespace CellCompiler

open Machine Generate

namespace Router

/-! ### Which handler takes a message -/

/-- What a handler is called with, apart from the state of the contract. -/
inductive Payload where
  | nothing
  | rest (s : Slice)
  /-- What a reader finds in a slice. -/
  | message (reader : String) (s : Slice)

/-- The name of a handler with its payload. -/
abbrev Delivery := String × Payload

/-- The opcode at the front of a message; zero if the message is too short to have one. -/
def opcodeAt (bits : Nat) (s : Slice) : Nat :=
  if bits ≤ s.bits.length then Bits.toNat (s.bits.take bits) else 0

/-- The opcode of the messages of a declared type. -/
def opcode? (t : TypeTable) (typeName : String) : Option Nat :=
  (t.types.get? typeName).bind fun decl => decl.header.map UInt32.toNat

/-- The reader of bounced messages, as a whole or cut to what survives the bounce. -/
def bouncedReader (typeName : String) (bounced : Bool) : String :=
  if bounced then Name.readerBounced typeName else Name.reader typeName

/-- The first handler that a rule has a payload for. -/
def firstRoute (routes : List Route) (rule : MessageSelector → Option Payload) : Option Delivery :=
  routes.findSome? fun (message, name) => (rule message).map fun payload => (name, payload)

section Decisions

variable (t : TypeTable) (width : Nat)

/-- Bounced messages of a declared type are told by their opcode as well. -/
def bounceRule (msg : Slice) (h : Handler) : Option Delivery :=
  match h.selector with
  | .bounceBinary typeName bounced =>
    if opcode? t typeName = some (opcodeAt width msg) then
      some (h.name, .message (bouncedReader typeName bounced) msg)
    else none
  | _ => none

/-- The handler of a bounced message: the first one of a declared type with the opcode of the message,
or the one of last resort. -/
def bounceDelivery? (handlers : List Handler) (msg : Slice) : Option Delivery :=
  (handlers.findSome? (bounceRule t width msg)).or
    ((handlers.find? (·.selector == .bounceFallback)).map fun h => (h.name, .rest msg))

/-- Messages of a declared type are told by their opcode. -/
def typedRule (msg : Slice) : MessageSelector → Option Payload
  | .binary typeName =>
    if opcode? t typeName = some (opcodeAt width msg) then some (.message (Name.reader typeName) msg)
    else none
  | _ => none

/-- The empty message has an opcode of zero and nothing after it. -/
def emptyRule (msg : Slice) : MessageSelector → Option Payload
  | .empty =>
    if opcodeAt width msg = 0 ∧ msg.bits.length ≤ width then some .nothing else none
  | _ => none

/-- A given text is told by the hash of the message. -/
def commentRule (msg : Slice) : MessageSelector → Option Payload
  | .comment text =>
    if opcodeAt width msg = 0 ∧ commentOpcode text = .ok msg.toCell.hashNumber then
      some .nothing
    else none
  | _ => none

/-- Any other text has an opcode of zero that is really there. -/
def textRule (msg : Slice) : MessageSelector → Option Payload
  | .commentFallback =>
    if opcodeAt width msg = 0 ∧ width ≤ msg.bits.length then some (.rest (msg.dropBits width))
    else none
  | _ => none

/-- The handler of last resort takes everything. -/
def fallbackRule (msg : Slice) : MessageSelector → Option Payload
  | .fallback => some (.rest msg)
  | _ => none

/-- The handler of a message that has not bounced, by one rule after the other. -/
def messageDelivery? (routes : List Route) (msg : Slice) : Option Delivery :=
  (firstRoute routes (typedRule t width msg)).or <|
  (firstRoute routes (emptyRule width msg)).or <|
  (firstRoute routes (commentRule width msg)).or <|
  (firstRoute routes (textRule width msg)).or <|
  firstRoute routes (fallbackRule msg)

end Decisions

/-- The result of a router: the state of the contract, and whether the message was handled. -/
def routerResult (self : Val) (handled : Bool) : Val := .tensor [self, .bool handled]

/-- Call a handler with its payload. -/
def deliver (c : Code) (self : Val) : Delivery → Run Val
  | (handler, .nothing) => do
    let (self, _) ← invoke c handler [self]
    return routerResult self true
  | (handler, .rest s) => do
    let (self, _) ← invoke c handler [self, .slice s]
    return routerResult self true
  | (handler, .message reader s) => do
    let (_, msg) ← invoke c reader [.slice s]
    let (self, _) ← invoke c handler [self, msg]
    return routerResult self true

/-- The dispatcher for internal messages. A bounced message loses the mark in front of it, and it is
handled even if nobody takes it; a bounced message that is shorter than the mark stops with exit code 9
before anybody is asked. -/
def routed (c : Code) (env : Env) (handlers : List Handler) (self : Val) (bounced : Bool)
    (body : Slice) : Run Val :=
  let t := env.program.types
  let width := env.config.opcodeBits.toNat
  if bounced then
    let mark := env.config.bounceMarkBits.toNat
    if mark ≤ body.bits.length then
      (bounceDelivery? t width handlers (body.dropBits mark)).elim (pure (routerResult self true))
        (deliver c self)
    else throw (.exit 9)
  else
    (messageDelivery? t width (routes handlers .internal) body).elim (pure (routerResult self false))
      (deliver c self)

/-! ### Going through the handlers -/

section Lemmas

variable {routes : List Route} {rule : MessageSelector → Option Payload}

theorem firstRoute_cons {message : MessageSelector} {name : String} : firstRoute ((message, name) :: routes) rule =
      ((rule message).map fun payload => (name, payload)).or (firstRoute routes rule) := by
  unfold firstRoute
  rw [List.findSome?_cons]
  cases h : rule message <;> simp [h]

/-- A rule that has no payload for a message passes it by. -/
theorem firstRoute_cons_of_none {r : Route} (h : rule r.1 = none) :
    firstRoute (r :: routes) rule = firstRoute routes rule := by
  obtain ⟨message, name⟩ := r
  rw [firstRoute_cons, h]
  rfl

theorem firstRoute_eq_none (h : ∀ r ∈ routes, rule r.1 = none) : firstRoute routes rule = none :=
  List.findSome?_eq_none_iff.2 fun r hr => by simp [h r hr]

end Lemmas

theorem bounceRule_of_other {t : TypeTable} {width : Nat} {msg : Slice} {h : Handler}
    (hother : ∀ typeName bounced, h.selector = .bounceBinary typeName bounced → False) :
    bounceRule t width msg h = none := by
  unfold bounceRule
  split
  · next typeName bounced hselector => exact (hother typeName bounced hselector).elim
  · rfl

theorem mem_routes_internal {handlers : List Handler} {r : Route}
    (hr : r ∈ routes handlers .internal) :
    ∃ h ∈ handlers, h.selector = .internal r.1 ∧ h.name = r.2 := by
  obtain ⟨h, hh, hmessage⟩ := List.mem_filterMap.1 hr
  obtain ⟨message, hselector, rfl⟩ := Option.map_eq_some_iff.1 hmessage
  refine ⟨h, hh, ?_, rfl⟩
  unfold Handler.message? at hselector
  dsimp only at hselector
  split at hselector
  · next heq => simpa [heq] using hselector
  · simp at hselector

end Router

end CellCompiler
