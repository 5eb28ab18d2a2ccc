import CellCompiler.Proofs.Codec.Handlers
import CellCompiler.Proofs.Codec.Message
import CellCompiler.Proofs.Persistence
import CellCompiler.Proofs.Router.Dispatch

/-!
# Messages arrive

A message that has been stored in a cell and sent to a contract is handed to the handler that it is for.

* `TypeDecl.receiverOf?` is the receiver that messages of a type are for, and `Hands` says that the router
  calls its handler;
* `messageDelivery?_of_receiverOf?` and `bounceDelivery?_of_receiverOf?` find the handler with the opcode
  that the message begins with, and `Compilation.hands` runs it, whatever the handlers of the module are;
* `compileContract_delivers` is the result, for messages that come in and for those that come back.
-/

namespace CellCompiler

open Emission (Output Registry)
open Generate Machine Router Plan
open Target (Item)

variable {c : Code} {env : Env} {d d' : Draft} {decl type : TypeDecl} {registry : Registry} {order : List String}
  {handlers : List Handler} {receiver : Receiver} {handler reader : String} {v w : Val} {x body : Slice}
  {y : Cell} {s s' : State} {flag : Int}

/-! ### Who a message is for -/

/-- The type of the messages that a receiver takes, of those that have bounced or of those that have not. -/
def ReceiverSelector.messageType? (bounced : Bool) : ReceiverSelector → Option String
  | .internal (.binary type) => if bounced then none else some type
  | .bounceBinary type _ => if bounced then some type else none
  | _ => none

/-- The first receiver of messages with the opcode of the type. -/
def TypeDecl.receiverOf? (decl : TypeDecl) (t : TypeTable) (bounced : Bool) (type : String) : Option Receiver :=
  decl.receivers.find? fun receiver =>
    (receiver.selector.messageType? bounced).any fun other => opcode? t other == opcode? t type

/-- The router hands the message over: it calls the handler, once and no other one, with the state of the
contract and a value that holds the same as `v`, and says that the message has been handled. -/
def Hands (c : Code) (contract handler : String) (v : Val) (flag : Int) (body : Slice) : Prop :=
  ∀ self t, ∃ v' : Val, v'.Same v ∧ call c (Name.routerInternal contract) [self, .int flag, .slice body] t =
    (do
      let (self', _) ← invoke c handler [self, v']
      return routerResult self' true) t

/-! ### Finding the handler -/

/-- What is found of the first in a list is found of the first in a list that goes along with it. -/
theorem List.findSome?_of_find? {α β γ : Type} {R : α → β → Prop} {l : List α} {l' : List β}
    (h : List.Forall₂ R l l') {p : α → Bool} {f : β → Option γ} {a : α} {result : γ} (hfind : l.find? p = some a)
    (hmiss : ∀ a b, R a b → p a = false → f b = none) (hhit : ∀ b, R a b → f b = some result) :
    l'.findSome? f = some result := by
  induction h with
  | nil => simp at hfind
  | @cons a' b l l' hab _ ih =>
    rw [List.find?_cons] at hfind
    cases hp : p a' with
    | true =>
      obtain rfl : a' = a := by simpa [hp] using hfind
      rw [List.findSome?_cons, hhit b hab]
    | false =>
      rw [List.findSome?_cons, hmiss a' b hab hp]
      exact ih (by simpa [hp] using hfind)

namespace Router

theorem firstRoute_routes {direction : Direction} {rule : MessageSelector → Option Payload} :
    firstRoute (routes handlers direction) rule = handlers.findSome? fun h =>
      (h.message? direction).bind fun message => (rule message).map fun payload => (h.name, payload) := by
  induction handlers with
  | nil => rfl
  | cons h handlers ih =>
    rw [List.findSome?_cons, ← ih, routes, routes, List.filterMap_cons]
    cases hmessage : h.message? direction with
    | none => simp
    | some message =>
      simp only [Option.map_some, Option.bind_some, firstRoute_cons]
      cases rule message <;> rfl

variable {t : TypeTable} {width : Nat}

/-- A message with the opcode of a type goes to the first handler of messages that have it. -/
theorem messageDelivery?_of_receiverOf? (hnamed : HandlersOf decl handlers)
    (hfirst : decl.receiverOf? t false type.name = some receiver)
    (hselector : receiver.selector = .internal (.binary type.name))
    (hhandler : receiverName decl.name receiver.selector = .ok handler)
    (hopcode : opcode? t type.name = some (opcodeAt width body)) :
    messageDelivery? t width (routes handlers .internal) body =
      some (handler, .message (Name.reader type.name) body) := by
  have hroute : firstRoute (routes handlers .internal) (typedRule t width body) =
      some (handler, .message (Name.reader type.name) body) := by
    rw [firstRoute_routes]
    refine List.findSome?_of_find? hnamed hfirst ?_ ?_
    · rintro other h ⟨hsame, -⟩ hother
      rw [← hsame] at hother
      cases hh : h.selector with
      | internal message =>
        cases message with
        | binary name =>
          have hne : opcode? t name ≠ some (opcodeAt width body) := by
            simpa [hh, ReceiverSelector.messageType?, hopcode] using hother
          simp [Handler.message?, hh, typedRule, hne]
        | _ => simp [Handler.message?, hh, typedRule]
      | _ => simp [Handler.message?, hh]
    · rintro h ⟨hsame, hname⟩
      obtain rfl : handler = h.name := Except.ok.inj (hhandler.symm.trans hname)
      simp [Handler.message?, hsame, hselector, typedRule, hopcode]
  rw [messageDelivery?, hroute]
  rfl

theorem bounceDelivery?_of_receiverOf? (hnamed : HandlersOf decl handlers) {bounced : Bool}
    (hfirst : decl.receiverOf? t true type.name = some receiver)
    (hselector : receiver.selector = .bounceBinary type.name bounced)
    (hhandler : receiverName decl.name receiver.selector = .ok handler)
    (hopcode : opcode? t type.name = some (opcodeAt width body)) :
    bounceDelivery? t width handlers body =
      some (handler, .message (bouncedReader type.name bounced) body) := by
  have hroute : handlers.findSome? (bounceRule t width body) =
      some (handler, .message (bouncedReader type.name bounced) body) := by
    refine List.findSome?_of_find? hnamed hfirst ?_ ?_
    · rintro other h ⟨hsame, -⟩ hother
      rw [← hsame] at hother
      cases hh : h.selector with
      | bounceBinary name flag =>
        have hne : opcode? t name ≠ some (opcodeAt width body) := by
          simpa [hh, ReceiverSelector.messageType?, hopcode] using hother
        simp [bounceRule, hh, hne]
      | _ => simp [bounceRule, hh]
    · rintro h ⟨hsame, hname⟩
      obtain rfl : handler = h.name := Except.ok.inj (hhandler.symm.trans hname)
      simp [bounceRule, hsame, hselector, hopcode]
  rw [bounceDelivery?, hroute]
  rfl

end Router

/-! ### Running the handler -/

/-- A payload that is read is handed over. -/
theorem deliver_message {rest : List Bool} {others : List Cell} (h : ReadsFrom c reader x v rest others)
    (self : Val) (t : State) : ∃ v' : Val, v'.Same v ∧ deliver c self (handler, .message reader x) t =
      (do
        let (self', _) ← invoke c handler [self, v']
        return routerResult self' true) t := by
  obtain ⟨x', v', hread, hsame, -⟩ := h t
  have hinvoke : Yields (invoke c reader [.slice x]) t (.slice x', v') t := by
    rw [Machine.Yields, invoke, hread.bind_eq]
    rfl
  exact ⟨v', hsame, hinvoke.bind_eq⟩

theorem ReadsFrom.contains {rest : List Bool} {others : List Cell} (h : ReadsFrom c reader x v rest others)
    (hreader : Name.isEmitted reader = true) : c.functions.contains reader = true := by
  obtain ⟨x', v', hread, -⟩ := h {}
  obtain ⟨item, hitem⟩ := hread.called (not_mem_primitives_of_isEmitted hreader)
  exact Dict.contains_eq_true_iff.2 ⟨item, hitem⟩

/-- The router calls the readers of all messages that it takes back. -/
theorem bounceBranches_callees {out : List Target.Stmt} (hrun : bounceBranches handlers env d = .ok out d')
    {h : Handler} (hmem : h ∈ handlers) {name : String} {bounced : Bool}
    (hselector : h.selector = .bounceBinary name bounced) :
    bouncedReader name bounced ∈ Target.stmtCallees out := by
  fun_induction bounceBranches handlers generalizing d out with
  | case1 => simp at hmem
  | case2 first rest other flag hother reader =>
    rename_i ih
    simp only [typedBranch, used, run_bind, run_modify, run_pure] at hrun
    obtain ⟨_, _, ⟨_, _, -, _, _, ⟨_, _, rfl, rfl, rfl⟩, rfl, rfl⟩, more, _, hmore, rfl, rfl⟩ := hrun
    rcases List.mem_cons.1 hmem with rfl | hmem
    · obtain ⟨rfl, rfl⟩ := by simpa [hselector] using hother
      simp [Target.ifThen, Target.var, Target.modify, reader, bouncedReader]
    · simp [ih hmore hmem]
  | case3 first rest hother ih =>
    rcases List.mem_cons.1 hmem with rfl | hmem
    · exact absurd hselector (hother name bounced)
    · exact ih hrun hmem

theorem bounceStage_callees {out : List Target.Stmt} (hrun : bounceStage handlers env d = .ok out d')
    {h : Handler} (hmem : h ∈ handlers) {name : String} {bounced : Bool}
    (hselector : h.selector = .bounceBinary name bounced) :
    bouncedReader name bounced ∈ Target.stmtCallees out := by
  simp only [bounceStage, opcodeBits, run_bind, run_read, run_pure] at hrun
  obtain ⟨_, _, ⟨rfl, rfl⟩, _, _, ⟨_, _, ⟨rfl, rfl⟩, rfl, rfl⟩, branches, _, hbranches, rfl, rfl⟩ := hrun
  obtain ⟨branch, hbranch, hcallee⟩ :=
    Target.mem_stmtCallees.1 (bounceBranches_callees hbranches hmem hselector)
  refine Target.mem_stmtCallees.2 ⟨branch, ?_, hcallee⟩
  simp only [List.mem_append]
  exact .inl (.inl (.inr hbranch))

theorem routerItem_calls {item : Item} (hrun : routerItem decl handlers .internal env d = .ok item d') :
    item.name? = some (Name.routerInternal decl.name) ∧ ∀ h ∈ handlers, ∀ name bounced,
      h.selector = .bounceBinary name bounced → bouncedReader name bounced ∈ item.callees := by
  simp only [routerItem, run_bind, run_pure] at hrun
  obtain ⟨_, _, -, stage, _, hstage, _, _, ⟨rfl, rfl⟩, out, _, hout, _, _, -, rfl, -⟩ := hrun
  refine ⟨rfl, fun h hmem name bounced hselector => ?_⟩
  have hcallee := bounceStage_callees hstage hmem hselector
  simp [Target.Signature.define, Target.ifThen, hcallee]

namespace Compilation

section

variable (h : Compilation env decl registry order) (hc : c.WithHandlers decl (registry.output order))
  (hrouting : Routing env decl registry handlers)

include h hc hrouting

/-- In the filled code the router is the dispatcher. -/
theorem router_filled (self : Val) (flag : Int) (body : Slice)
    (hreader : CanRead ((registry.code c.host).filled c) (delivery? env handlers (flag != 0) body)) :
    call ((registry.code c.host).filled c) (Name.routerInternal decl.name) [self, .int flag, .slice body] =
      routed ((registry.code c.host).filled c) env handlers self (flag != 0) body := by
  obtain ⟨d, item, d', hrun, -, -, hget⟩ := hrouting.router
  obtain ⟨entry, hentry, hdef⟩ := hget _ (routerItem_calls hrun).1
  have hrouter : ¬ decl.IsHandler (Name.routerInternal decl.name) := by
    intro hhandler
    obtain ⟨suffix, hsuffix, hname⟩ := hhandler.exists_suffix
    obtain rfl : "contract_router_internal" = suffix := by simpa [Name.routerInternal, Name.ofType] using hname
    exact hsuffix (by decide)
  refine router_eq_routed_of_canRead hrun (fun h hh => ?_) hrouting.distinct (h.filled_proper hc).plain ?_
    (fun h' hh => ?_) self flag body hreader
  · obtain ⟨receiver, -, hsame, hname⟩ := hrouting.exists_receiver _ hh
    rw [hsame, hname]
  · rw [h.get?_filled_other hc hrouter]
    exact Registry.code_backs h.sound _ _ _ hentry hdef
  · obtain ⟨receiver, hmem, -, hname⟩ := hrouting.exists_receiver _ hh
    have hhandler : decl.IsHandler h'.name := ⟨receiver, hmem, hname⟩
    obtain ⟨item, hitem, -⟩ := hc.handlers _ hhandler
    exact Dict.contains_eq_true_iff.2 ⟨item, h.get?_filled_handler hc hrouting hhandler ▸ hitem⟩

/-- The router of the module delivers as the filled code does. -/
theorem call_router (hreader : ((registry.code c.host).filled c).functions.contains reader = true)
    (hdelivery : delivery? env handlers (flag != 0) body = some (handler, .message reader x))
    (hmark : flag ≠ 0 → env.config.bounceMarkBits.toNat ≤ body.bits.length) (self : Val) :
    call c (Name.routerInternal decl.name) [self, .int flag, .slice body] =
      deliver ((registry.code c.host).filled c) self (handler, .message reader x) := by
  have hcanRead : CanRead ((registry.code c.host).filled c) (delivery? env handlers (flag != 0) body) := by
    rintro other name x' hother
    obtain ⟨rfl, rfl, rfl⟩ := by simpa [hdelivery] using hother
    exact hreader
  rw [h.call_filled hc hrouting (h.get?_filled_of_writes hc hrouting (h.writes_router hrouting)),
    h.router_filled hc hrouting self flag body hcanRead, routed]
  by_cases hflag : flag = 0
  · simp only [delivery?, hflag, bne_self_eq_false, Bool.false_eq_true, if_false] at hdelivery ⊢
    rw [hdelivery]
    rfl
  · simp only [delivery?, bne_iff_ne.2 hflag, if_true] at hdelivery ⊢
    rw [if_pos (hmark hflag), hdelivery]
    rfl

/-- **A message that the filled code can read is handed over.** -/
theorem hands (hhandler : decl.IsHandler handler) (hreader : Name.isEmitted reader = true)
    {rest : List Bool} {others : List Cell}
    (hreads : ReadsFrom ((registry.code c.host).filled c) reader x v rest others)
    (hdelivery : delivery? env handlers (flag != 0) body = some (handler, .message reader x))
    (hmark : flag ≠ 0 → env.config.bounceMarkBits.toNat ≤ body.bits.length) :
    Hands c decl.name handler v flag body := by
  intro self t
  obtain ⟨v', hsame, hdeliver⟩ := deliver_message hreads self t
  refine ⟨v', hsame, ?_⟩
  rw [h.call_router hc hrouting (hreads.contains hreader) hdelivery hmark self, hdeliver, invoke, invoke,
    h.call_filled hc hrouting (h.get?_filled_handler hc hrouting hhandler).symm]

/-- The reader of what is left of a message after a bounce is in the module if the contract takes it back. -/
theorem call_readerBounced (hreceiver : receiver ∈ decl.receivers)
    (hselector : receiver.selector = .bounceBinary type.name true) {vs : List Val} :
    call c (Name.readerBounced type.name) vs =
      call ((registry.code c.host).filled c) (Name.readerBounced type.name) vs := by
  obtain ⟨handler, hhandler, hsame, -⟩ := hrouting.exists_handler receiver hreceiver
  refine h.call_filled hc hrouting (h.get?_filled_of_writes hc hrouting ?_)
  refine h.writes_of_entered hrouting.router (h.writes_router hrouting) fun hrun => ?_
  obtain ⟨hname, hcallees⟩ := routerItem_calls hrun
  exact ⟨hname, hcallees handler hhandler type.name true (hsame.trans hselector)⟩

end

end Compilation

/-! ### The result -/

/-- A message that comes in is handed to the first receiver of messages with its opcode, where that receiver is
for its type. -/
def Arrives (c : Code) (env : Env) (decl type : TypeDecl) (v : Val) (y : Cell) : Prop :=
  ∀ receiver handler, decl.receiverOf? env.program.types false type.name = some receiver →
    receiver.selector = .internal (.binary type.name) → receiverName decl.name receiver.selector = .ok handler →
    Hands c decl.name handler v 0 y.parse

/-- A message that comes back after a mark, whole or cut anywhere after its first fields, is handed to the first
receiver of bounced messages with its opcode, where that receiver is for the first fields of its type. -/
def ComesBack (c : Code) (env : Env) (decl type : TypeDecl) (v : Val) (y : Cell) : Prop :=
  ∀ receiver handler, decl.receiverOf? env.program.types true type.name = some receiver →
    receiver.selector = .bounceBinary type.name true → receiverName decl.name receiver.selector = .ok handler →
    ∃ bits refs, HoldsFirst c type v y bits refs ∧
      ∀ (flag : Int) (body : Slice) (mark rest : List Bool) (others : List Cell), flag ≠ 0 →
        mark.length = env.config.bounceMarkBits.toNat →
        body.Holds (mark ++ (y.bits.take bits ++ rest)) (y.refs.take refs ++ others) →
        type.bounceCount < type.fields.length ∨ rest = y.bits.drop bits ∧ others = y.refs.drop refs →
        Hands c decl.name handler (v.leading type.bounceCount) flag body

/-- A cell in which the value can be stored as a message arrives at the contract, and returns to it. -/
def DeliversMessages (c : Code) (env : Env) (decl type : TypeDecl) (v : Val) : Prop :=
  ∀ {s s' : State} {w : Val}, Yields (call c (Name.writerCell type.name) [v]) s w s' →
    ∃ y, w = .cell y ∧ Arrives c env decl type v y ∧ ComesBack c env decl type v y

namespace Compilation

variable (h : Compilation env decl registry order) (hc : c.WithHandlers decl (registry.output order))
  (hrouting : Routing env decl registry handlers)

include h hc hrouting

/-- **A cell that holds a message arrives and returns.** -/
theorem delivers_of_holdsMessage (htype : env.program.types.types.get? type.name = some type)
    (hwidth : env.program.plans.HasOpcodeWidth type.name env.config.opcodeBits.toNat)
    (hholds : HoldsMessage ((registry.code c.host).filled c) env type v y) :
    Arrives c env decl type v y ∧ ComesBack c env decl type v y := by
  obtain ⟨bits, refs, hfirst, hopcode⟩ := hholds.first
  obtain ⟨hle, hopcode⟩ := hopcode _ hwidth
  generalize hw : env.config.opcodeBits.toNat = width at hle hopcode
  -- the message begins with the opcode, wherever it is cut
  have hopcodeAt : ∀ {x : Slice} {rest : List Bool} {others : List Cell}, x.Holds (y.bits.take bits ++ rest) others →
      opcode? env.program.types type.name = some (opcodeAt width x) := by
    intro x rest others hx
    have hlength : bits ≤ y.bits.length := hfirst.bits_le
    rw [opcode?, htype, Option.bind_some, hopcode, opcodeAt, hx.bits_eq, if_pos (by simp; omega),
      List.take_append_of_le_length (by simp; omega), List.take_take, min_eq_left hle]
  constructor
  · intro receiver handler hfound hselector hname
    have hmem : receiver ∈ decl.receivers := List.mem_of_find?_eq_some hfound
    have hemitted : Name.isEmitted (Name.reader type.name) = true := Name.isEmitted_ofType _ _
    have hparse : y.parse.Holds y.bits y.refs := Slice.holds_self _
    refine h.hands hc hrouting ⟨receiver, hmem, hname⟩ hemitted (hholds.whole _ hparse) ?_ (by simp)
    have hx : y.parse.Holds (y.bits.take bits ++ y.bits.drop bits) y.refs := by rwa [List.take_append_drop]
    simpa [delivery?, hw] using messageDelivery?_of_receiverOf? hrouting.named hfound hselector hname (hopcodeAt hx)
  · intro receiver handler hfound hselector hname
    have hmem : receiver ∈ decl.receivers := List.mem_of_find?_eq_some hfound
    refine ⟨bits, refs, ⟨hfirst.bits_le, hfirst.refs_le, fun x rest others hx hrest => ?_⟩, ?_⟩
    · have hreads := hfirst.reads x rest others hx hrest
      rwa [ReadsFrom, ← h.call_readerBounced hc hrouting hmem hselector] at hreads
    · intro flag body mark rest others hflag hmark hbody hrest
      have hemitted : Name.isEmitted (Name.readerBounced type.name) = true := Name.isEmitted_ofType _ _
      have hx := hmark ▸ Slice.dropBits_holds hbody
      refine h.hands hc hrouting ⟨receiver, hmem, hname⟩ hemitted
        (hfirst.reads _ rest others hx hrest) ?_ fun _ => by simp [hbody.bits_eq, ← hmark]
      simpa [delivery?, hw, hflag, bouncedReader] using
        bounceDelivery?_of_receiverOf? hrouting.named hfound hselector hname (hopcodeAt hx)

end Compilation

section

variable {types : TypeTable} {program : Program} {out : Output} (hw : types.WellNamed) (hsep : types.Separate)
  (hplanned : Program.planned types = .ok program) (hvalid : program.plans.validate = .ok ())
  (hprogram : env.program = program) (hdecl : types.types.get? decl.name = some decl)
  (hout : compileContract env decl.name = .ok out) (hc : c.WithHandlers decl out)

include hw hsep hplanned hvalid hprogram hdecl hout hc

/-- What a contract has been compiled from runs the codecs of all records. -/
theorem compileContract_filled : program.types = types ∧ ∃ registry order handlers,
    Compilation env decl registry order ∧ c.WithHandlers decl (registry.output order) ∧
    Routing env decl registry handlers ∧ Library ((registry.code c.host).filled c) env := by
  simp only [Program.planned, Except.bind_eq_ok, Except.pure_eq_ok] at hplanned
  obtain ⟨plans, hplans, rfl⟩ := hplanned
  have htypes : env.program.types = types := by rw [hprogram]
  obtain ⟨decl', registry, order, hdecl', -, hcompilation, rfl⟩ := compileContract_compilation hout
  obtain rfl : decl = decl' := by simpa [htypes, hdecl] using hdecl'
  obtain ⟨handlers, hrouting⟩ := hcompilation.routing (Dict.mem_values_of_get? hdecl')
  rw [← htypes] at hw hsep
  exact ⟨rfl, registry, order, handlers, hcompilation, hc, hrouting, hcompilation.library_filled hc hrouting hw hsep
    (hprogram ▸ Plans.planProgram_planned (htypes ▸ hw) hplans) (hprogram ▸ hvalid)⟩

/-- **Messages arrive.** Take a contract of a program whose names are separate, whose plans the planner makes and the
check accepts, and the module that it compiles to, with any functions in the place of its handlers. Whenever a value of
a type of messages can be stored in a cell, this cell is handed to the handler of the type when it comes in, and what is
left of it to the handler of bounced messages when it comes back. -/
theorem compileContract_delivers (htype : type ∈ types.structs) (hmessage : type.header.isSome = true)
    (hwidth : program.plans.HasOpcodeWidth type.name env.config.opcodeBits.toNat)
    (hv : Represents types (.plain type.name) none v) : DeliversMessages c env decl type v := by
  obtain ⟨rfl, registry, order, handlers, hcompilation, hc, hrouting, hlibrary⟩ :=
    compileContract_filled hw hsep hplanned hvalid hprogram hdecl hout hc
  subst hprogram
  intro s s' w hcall
  obtain ⟨item, hitem⟩ := hcall.called (not_mem_primitives_of_isEmitted (Name.isEmitted_ofType _ _))
  rw [hcompilation.call_filled_of_get? hc hrouting hitem] at hcall
  obtain ⟨-, y, rfl, hholds⟩ := hlibrary.holdsMessage htype hmessage hv hcall
  exact ⟨y, rfl, hcompilation.delivers_of_holdsMessage hc hrouting
    (hw.get?_name (TypeTable.mem_structs.1 htype).1) hwidth hholds⟩

end

/-! ### A module with the handlers that it comes with -/

/-- The handlers of the contract are in the module, and call only what is there. -/
def TypeDecl.handlersIn (decl : TypeDecl) (c : Code) : Bool :=
  decl.receivers.all fun receiver => (receiverName decl.name receiver.selector).toOption.any fun name =>
    (c.functions.get? name).any fun item =>
      item.callees.all fun callee => callee ∈ primitives ∨ c.functions.contains callee = true

theorem withHandlers_of_handlersIn {out : Output} (h : decl.handlersIn (.ofOutput out) = true) :
    (Code.ofOutput out).WithHandlers decl out where
  others := fun _ _ => rfl
  handlers := by
    rintro name ⟨receiver, hreceiver, hname⟩
    have hin := List.all_eq_true.1 h receiver hreceiver
    rw [hname, Except.toOption, Option.any_some, Option.any_eq_true] at hin
    obtain ⟨item, hitem, hcallees⟩ := hin
    exact ⟨item, hitem, fun callee hcallee => of_decide_eq_true (List.all_eq_true.1 hcallees callee hcallee)⟩
  constants := rfl

/-- A message of two numbers, of which only the first one survives a bounce. -/
def pulseDecl : TypeDecl :=
  { TypeDecl.ofFields .struct "Pulse" [⟨"id", 0, .plain "Int", some "uint64", none⟩,
      ⟨"at", 1, .plain "Int", some "uint32", none⟩] with
    header := some 7, bounceFields := 1 }

/-- A contract that takes the message, also when it comes back. -/
def relayDecl : TypeDecl :=
  { TypeDecl.ofFields .contract "Relay" [⟨"seen", 0, .plain "Int", some "uint64", none⟩] with
    receivers := [{ selector := .internal (.binary "Pulse"), param := some "msg" },
      { selector := .bounceBinary "Pulse" true, param := some "msg" }] }

/-- The contract with its plans. -/
def relayEnv : Env where
  program :=
    let types := (TypeTable.primitives.addType pulseDecl).addType relayDecl
    { types, plans := (planProgram types).toOption.getD {} }
  evaluate := noConstants

/-- The numbers of a message have room in its fields. -/
theorem fits_pulse : FitsType relayEnv.program.types (.plain "Pulse") none (.tensor [.int 5, .int 9]) := by
  have hget : relayEnv.program.types.types.get? "Pulse" = some pulseDecl := rfl
  refine .record hget rfl (List.cons_ne_nil _ _) rfl
    (List.forall_mem_cons.2 ⟨?_, List.forall_mem_singleton.2 ?_⟩)
  · refine .scalar rfl rfl ⟨trivial, fun kind hkind => ?_⟩
    obtain rfl : OpKind.uint 64 = kind := Option.some.inj hkind
    exact (by decide +kernel : Bits.fitsUnsigned 5 64 = true)
  · refine .scalar rfl rfl ⟨trivial, fun kind hkind => ?_⟩
    obtain rfl : OpKind.uint 32 = kind := Option.some.inj hkind
    exact (by decide +kernel : Bits.fitsUnsigned 9 32 = true)

theorem relay_delivers : ∃ out y, compileContract relayEnv "Relay" = .ok out ∧
    Yields (call (.ofOutput out) (Name.writerCell "Pulse") [.tensor [.int 5, .int 9]]) {} (.cell y) {} ∧
    Hands (.ofOutput out) "Relay" "$Relay$_internal_binary_Pulse" (.tensor [.int 5, .int 9]) 0 y.parse ∧
    ∃ bits refs, HoldsFirst (.ofOutput out) pulseDecl (.tensor [.int 5, .int 9]) y bits refs ∧
      ∀ (mark rest : List Bool) (others : List Cell), mark.length = 32 →
        Hands (.ofOutput out) "Relay" "$Relay$_bounced_binary_Pulse" (.tensor [.int 5]) (-1)
          (Cell.mk (mark ++ (y.bits.take bits ++ rest)) (y.refs.take refs ++ others)).parse := by
  have hw : relayEnv.program.types.WellNamed := ⟨by decide +kernel, by decide +kernel⟩
  have hsep : relayEnv.program.types.Separate := by
    have hall : ∀ decl ∈ relayEnv.program.types.types.values, (decl.fields.map (·.name)).Nodup ∧
        ∀ f ∈ decl.fields, '\'' ∉ f.name.toList := by decide +kernel
    exact fun decl hdecl => ⟨(hall decl hdecl).1, (hall decl hdecl).2⟩
  have hplanned : Program.planned relayEnv.program.types = .ok relayEnv.program := rfl
  have hvalid : relayEnv.program.plans.validate = .ok () := rfl
  have hget : relayEnv.program.types.types.get? relayDecl.name = some relayDecl := rfl
  have htype : pulseDecl ∈ relayEnv.program.types.structs := List.mem_cons_self
  have hany : (compileContract relayEnv "Relay").toOption.any (fun out =>
      relayDecl.handlersIn (.ofOutput out) &&
        (Code.ofOutput out).functions.contains (Name.writerCell "Pulse")) = true := by decide +kernel
  obtain ⟨out, hout, hchecks⟩ := Except.exists_of_toOption_any hany
  obtain ⟨hhandlers, hwriter⟩ := (Bool.and_eq_true _ _).mp hchecks
  have hc := withHandlers_of_handlersIn hhandlers
  -- the message can be stored, and the module has the function that does so
  obtain ⟨-, registry, order, handlers, hcompilation, hc', hrouting, hlibrary⟩ :=
    compileContract_filled hw hsep hplanned hvalid rfl hget hout hc
  have hrest : relayEnv.program.types.NoRest "Pulse" := by
    have hall : ∀ decl ∈ relayEnv.program.types.types.values, ∀ f ∈ decl.fields,
        Plan.takesRest relayEnv.program.types f.ty f.format = false := by decide +kernel
    exact fun inner decl _ hdecl => hall decl (Dict.mem_values_of_get? hdecl)
  obtain ⟨bits, refs, -, hcell⟩ := hlibrary.exists_cell htype hrest fits_pulse
  obtain ⟨item, hitem⟩ := Dict.contains_eq_true_iff.1 hwriter
  have hcall : Yields (call (.ofOutput out) (Name.writerCell "Pulse") [.tensor [.int 5, .int 9]]) {}
      (.cell (.mk bits refs)) {} := by
    rw [hcompilation.call_filled_of_get? hc' hrouting hitem]
    exact hcell {}
  have hwidth : relayEnv.program.plans.HasOpcodeWidth "Pulse" 32 := ⟨_, _, rfl, rfl, rfl⟩
  obtain ⟨y, heq, harrives, hreturns⟩ := compileContract_delivers hw hsep hplanned hvalid rfl hget hout hc htype rfl
    hwidth fits_pulse.represents hcall
  obtain rfl : Cell.mk bits refs = y := by simpa using heq
  refine ⟨out, _, hout, hcall, harrives _ _ rfl rfl rfl, ?_⟩
  obtain ⟨n, k, hfirst, hback⟩ := hreturns _ _ rfl rfl rfl
  refine ⟨n, k, hfirst, fun mark rest others hmark => ?_⟩
  exact hback (-1) _ mark rest others (by decide) hmark (Slice.holds_parse _ _) (.inl (by decide))

/-! ### Messages that hold the state of a contract -/

/-- A message with the state of a contract in it. -/
def parcelDecl : TypeDecl :=
  { TypeDecl.ofFields .struct "Parcel" [⟨"box", 0, .plain "Locker", none, none⟩] with header := some 7 }

/-- A contract that holds an address and takes the message. -/
def keeperDecl : TypeDecl :=
  { TypeDecl.ofFields .contract "Locker" [⟨"owner", 0, .plain "Address", none, none⟩] with
    receivers := [{ selector := .internal (.binary "Parcel"), param := some "msg" }] }

/-- The table of the contract. The target is to supply the helper that loads addresses, and what would turn states of
the contract into tuples. -/
def parcelTable : TypeTable :=
  [Helper.loadAddressName, "$Locker$_to_tuple", "$Locker$_from_tuple", "$Locker$_to_external",
    "$Locker$_from_external"].foldl
    (fun table name => table.addFunction { name, returns := .void, body := .native name })
    ((TypeTable.primitives.addType parcelDecl).addType keeperDecl)

/-- The contract with its plans. -/
def parcelEnv : Env where
  program := { types := parcelTable, plans := (planProgram parcelTable).toOption.getD {} }
  evaluate := noConstants

namespace Parcel

open Locker (hasBody isModule has_of_hasBody)

/-- The statements that store the message in a builder. -/
def writerBody : List Target.Stmt :=
  let b := Target.id "build_0"
  [Target.var (.tensor [.tensor [Target.id "v'box'owner"]]) (Target.id "v"),
    Target.assign b (Target.method b "store_uint" [Target.int 7, Target.int 32]),
    Target.assign b (Target.call (Name.writer "Locker") [b, .tensor [Target.id "v'box'owner"]]),
    Target.ret b]

/-- The statements that store the message in a cell. -/
def writerCellBody : List Target.Stmt :=
  [Target.ret (Target.endCell (Target.call (Name.writer "Parcel") [Target.beginCell, Target.id "v"]))]

/-- The statements that load the message from a slice. -/
def readerBody : List Target.Stmt :=
  let x := Target.id "sc_0"
  [Target.throwUnless 129 (Target.eq (Target.modify x "load_uint" [Target.int 32]) (Target.int 7)),
    Target.var (.tensor [Target.id "v'box'owner"]) (Target.modify x (Name.reader "Locker") []),
    Target.ret (.tensor [x, .tensor [.tensor [Target.id "v'box'owner"]]])]

/-- The statements that handle the message. -/
def handlerBody : List Target.Stmt :=
  [Target.var (.tensor [Target.id "$self'owner"]) (Target.id "$self"),
    Target.var (.tensor [.tensor [Target.id "$msg'box'owner"]]) (Target.id "$msg"),
    Target.ret (.tensor [.tensor [Target.id "$self'owner"], .tensor []])]

/-- What is used of the module. -/
structure Module (c : Code) : Prop extends Locker.Module c where
  writerParcel : c.Has (Name.writer "Parcel") ["build_0", "v"] writerBody
  writerCell : c.Has (Name.writerCell "Parcel") ["v"] writerCellBody
  readerParcel : c.Has (Name.reader "Parcel") ["sc_0"] readerBody
  handler : c.Has "$Locker$_internal_binary_Parcel" ["$self", "$msg"] handlerBody

theorem exists_module : ∃ out, compileContract parcelEnv "Locker" = .ok out ∧
    (Code.ofOutput out).WithHandlers keeperDecl out ∧ Module (Code.ofOutput out) := by
  have hany : (compileContract parcelEnv "Locker").toOption.any (fun out =>
      let c := Code.ofOutput out
      keeperDecl.handlersIn c && isModule c &&
        hasBody c (Name.writer "Parcel") ["build_0", "v"] writerBody &&
        hasBody c (Name.writerCell "Parcel") ["v"] writerCellBody &&
        hasBody c (Name.reader "Parcel") ["sc_0"] readerBody &&
        hasBody c "$Locker$_internal_binary_Parcel" ["$self", "$msg"] handlerBody) = true := by
    decide +kernel
  obtain ⟨out, hout, hchecks⟩ := Except.exists_of_toOption_any hany
  simp only [Bool.and_eq_true] at hchecks
  obtain ⟨⟨⟨⟨⟨hhandlers, hmodule⟩, hwriter⟩, hwriterCell⟩, hreader⟩, hhandler⟩ := hchecks
  exact ⟨out, hout, withHandlers_of_handlersIn hhandlers, Locker.module_of_isModule hout hmodule,
    has_of_hasBody hwriter, has_of_hasBody hwriterCell, has_of_hasBody hreader, has_of_hasBody hhandler⟩

namespace Module

theorem writer_yields (h : Module c) {b : Builder} (hx : IsStandard x.bits) (hrefs : x.refs = [])
    (hroom : b.Room 299 0) :
    Yields (call c (Name.writer "Parcel") [.builder b, .tensor [.tensor [.slice x]]]) s
      (.builder (b.push (Bits.ofInt 32 7 ++ x.bits) [])) s := by
  have hplain := h.proper.plain
  have hlength := hx.length_eq
  have hopcode : b.Room 32 0 := ⟨by have := hroom.1; omega, hroom.2⟩
  generalize hu : s.enter ["build_0", "v"] [.builder b, .tensor [.tensor [.slice x]]] = u
  have hb : u.get? "build_0" = some (.builder b) := by simp [← hu, State.enter, State.get?, Dict.ofList]
  have hv : u.get? "v" = some (.tensor [.tensor [.slice x]]) := by
    simp [← hu, State.enter, State.get?, Dict.ofList]
  generalize hu₁ : u.set "v'box'owner" (.slice x) = u₁
  have hbind : Yields (bind true (.tensor [.tensor [.slice x]]) (.tensor [.tensor [Target.id "v'box'owner"]])) u ()
      u₁ := by
    simp [Machine.bind, bindAll, bindLeaf, Target.id, State.assign_of_declare, hu₁]
  have hb₁ : u₁.get? "build_0" = some (.builder b) := by simp [← hu₁, hb]
  have hheader : Means c u₁ (Target.method (Target.id "build_0") "store_uint" [Target.int 7, Target.int 32])
      (.builder (b.push (Bits.ofInt 32 7) [])) := by
    refine .primitive hplain (by decide) (.cons (means_id hb₁) (.cons means_int (.cons means_int .nil))) ?_
    exact (call_store_uint (by decide)).2 ⟨by decide, hopcode, rfl⟩
  generalize hu₂ : u₁.set "build_0" (.builder (b.push (Bits.ofInt 32 7) [])) = u₂
  have hb₂ : u₂.get? "build_0" = some (.builder (b.push (Bits.ofInt 32 7) [])) := by simp [← hu₂]
  have howner : u₂.get? "v'box'owner" = some (.slice x) := by simp [← hu₂, ← hu₁]
  have hfields : Means c u₂ (Target.call (Name.writer "Locker") [Target.id "build_0", .tensor [Target.id "v'box'owner"]])
      (.builder (b.push (Bits.ofInt 32 7 ++ x.bits) [])) := by
    refine (yields_call_means (.cons (means_id hb₂) (.cons (.tensor (.cons (means_id howner) .nil)) .nil))).2 ?_
    have hroom' : (b.push (Bits.ofInt 32 7) []).Room x.bits.length x.refs.length := by
      simpa [Builder.Room, Builder.push, hrefs, hlength, Address.bitLength, Bits.length_ofInt, add_assoc] using hroom
    simpa [Builder.push, hrefs] using h.toModule.writer_yields hx hroom'
  have hbody : Yields (block c writerBody) u (some (.builder (b.push (Bits.ofInt 32 7 ++ x.bits) [])))
      (u₂.set "build_0" (.builder (b.push (Bits.ofInt 32 7 ++ x.bits) []))) := by
    refine yields_block_var.2 ⟨_, u, means_id hv, u₁, hbind, (yields_assign_means hb₁ hheader).2 ?_⟩
    rw [hu₂, yields_assign_means hb₂ hfields]
    exact (yields_ret_means (means_id (by simp))).2 ⟨rfl, rfl⟩
  exact h.writerParcel.returns rfl (hu ▸ hbody) (by rw [← hu₂, ← hu₁, ← hu]; rfl) (by rw [← hu₂, ← hu₁, ← hu]; rfl)

/-- The message can be stored. -/
theorem writerCell_yields (h : Module c) (hx : IsStandard x.bits) (hrefs : x.refs = []) :
    Yields (call c (Name.writerCell "Parcel") [.tensor [.tensor [.slice x]]]) s
      (.cell (.mk (Bits.ofInt 32 7 ++ x.bits) [])) s := by
  have hplain := h.proper.plain
  generalize hu : s.enter ["v"] [.tensor [.tensor [.slice x]]] = u
  have hv : u.get? "v" = some (.tensor [.tensor [.slice x]]) := by
    simp [← hu, State.enter, State.get?, Dict.ofList]
  have hstored : Means c u (Target.call (Name.writer "Parcel") [Target.beginCell, Target.id "v"])
      (.builder ⟨Bits.ofInt 32 7 ++ x.bits, []⟩) := by
    refine (yields_call_means (.cons (means_beginCell hplain) (.cons (means_id hv) .nil))).2 ?_
    simpa [Builder.push, Builder.empty] using h.writer_yields hx hrefs (b := .empty) ⟨by decide, by decide⟩
  have hend : Means c u (Target.endCell (Target.call (Name.writer "Parcel") [Target.beginCell, Target.id "v"]))
      (.cell (.mk (Bits.ofInt 32 7 ++ x.bits) [])) := by
    refine .primitive hplain (by decide) (.cons hstored .nil) (call_end_cell.2 ⟨?_, rfl⟩)
    simp [Builder.Room, hx.length_eq, Address.bitLength, Bits.length_ofInt, Cell.maxBits, Cell.maxRefs]
  refine h.writerCell.returns (t := u) rfl ?_ (by rw [← hu]; rfl) (by rw [← hu]; rfl)
  exact hu ▸ (yields_ret_means hend).2 ⟨rfl, rfl⟩

/-- The message cannot be loaded. -/
theorem reader_fails (h : Module c) {vs : List Val} : ¬ Yields (call c (Name.reader "Parcel") vs) s w s' := by
  intro hcall
  obtain ⟨-, q, t, hbody, -⟩ := h.readerParcel.yields.1 hcall
  rw [readerBody, Target.throwUnless, yields_block_expr] at hbody
  obtain ⟨_, _, -, hbody⟩ := hbody
  obtain ⟨v, u, hload, -⟩ := yields_block_var.1 hbody
  obtain ⟨signature, hget, -⟩ := h.reader
  rw [Target.modify, yields_modify_function hget] at hload
  obtain ⟨vs, u', -, result, u₂, hreader, -⟩ := hload
  exact h.toModule.reader_fails hreader

/-- The message can be handled. -/
theorem handler_yields (h : Module c) {x' : Slice} : Yields (call c "$Locker$_internal_binary_Parcel"
    [.tensor [.slice x], .tensor [.tensor [.slice x']]]) s (.tensor [.tensor [.slice x], .tensor []]) s := by
  generalize hu : s.enter ["$self", "$msg"] [.tensor [.slice x], .tensor [.tensor [.slice x']]] = u
  have hself : u.get? "$self" = some (.tensor [.slice x]) := by simp [← hu, State.enter, State.get?, Dict.ofList]
  have hmsg : u.get? "$msg" = some (.tensor [.tensor [.slice x']]) := by
    simp [← hu, State.enter, State.get?, Dict.ofList]
  generalize hu₁ : u.set "$self'owner" (.slice x) = u₁
  have hbind : Yields (bind true (.tensor [.slice x]) (.tensor [Target.id "$self'owner"])) u () u₁ := by
    simp [Machine.bind, bindAll, bindLeaf, Target.id, State.assign_of_declare, hu₁]
  have hmsg₁ : u₁.get? "$msg" = some (.tensor [.tensor [.slice x']]) := by simp [← hu₁, hmsg]
  generalize hu₂ : u₁.set "$msg'box'owner" (.slice x') = u₂
  have hbind₁ : Yields (bind true (.tensor [.tensor [.slice x']]) (.tensor [.tensor [Target.id "$msg'box'owner"]])) u₁
      () u₂ := by
    simp [Machine.bind, bindAll, bindLeaf, Target.id, State.assign_of_declare, hu₂]
  have howner : u₂.get? "$self'owner" = some (.slice x) := by simp [← hu₂, ← hu₁]
  have hbody : Yields (block c handlerBody) u (some (.tensor [.tensor [.slice x], .tensor []])) u₂ := by
    refine yields_block_var.2 ⟨_, u, means_id hself, u₁, hbind, ?_⟩
    refine yields_block_var.2 ⟨_, u₁, means_id hmsg₁, u₂, hbind₁, ?_⟩
    exact (yields_ret_means (.tensor (.cons (.tensor (.cons (means_id howner) .nil))
      (.cons (.tensor .nil) .nil)))).2 ⟨rfl, rfl⟩
  exact h.handler.returns rfl (hu ▸ hbody) (by rw [← hu₂, ← hu₁, ← hu]; rfl) (by rw [← hu₂, ← hu₁, ← hu]; rfl)

end Module

/-- The router stops where it reads the message. -/
theorem router_fails {out : Output} (hw : parcelTable.WellNamed) (hsep : parcelTable.Separate)
    (hout : compileContract parcelEnv "Locker" = .ok out) (hc : (Code.ofOutput out).WithHandlers keeperDecl out)
    (h : Module (.ofOutput out)) {bits : List Bool} {self : Val} :
    ¬ Yields (call (.ofOutput out) (Name.routerInternal keeperDecl.name)
      [self, .int 0, .slice (Cell.mk (Bits.ofInt 32 7 ++ bits) []).parse]) s w s' := by
  intro hcall
  generalize hbody : (Cell.mk (Bits.ofInt 32 7 ++ bits) []).parse = body at hcall
  have hget : parcelTable.types.get? keeperDecl.name = some keeperDecl := rfl
  have hopcode : opcode? parcelTable parcelDecl.name = some (opcodeAt 32 body) := by
    have htake : body.bits.take 32 = Bits.ofInt 32 7 := by
      rw [← hbody]
      exact List.take_left' (Bits.length_ofInt _ _)
    have hlength : 32 ≤ body.bits.length := by
      rw [← hbody]
      simp [Slice.bits, Cell.parse, Bits.length_ofInt]
    rw [opcodeAt, if_pos hlength, htake]
    decide +kernel
  obtain ⟨-, registry, order, handlers, hcompilation, hc, hrouting, -⟩ :=
    compileContract_filled hw hsep rfl rfl rfl hget hout hc
  have hdelivery : delivery? parcelEnv handlers ((0 : Int) != 0) body =
      some ("$Locker$_internal_binary_Parcel", .message (Name.reader parcelDecl.name) body) :=
    messageDelivery?_of_receiverOf? hrouting.named rfl rfl rfl hopcode
  obtain ⟨signature, hreader, -⟩ := h.readerParcel
  have hcontains := Dict.contains_eq_true_iff.2 ⟨_, hcompilation.get?_filled_of_get? hc hrouting hreader⟩
  rw [hcompilation.call_router hc hrouting hcontains hdelivery (by simp), deliver, yields_bind] at hcall
  obtain ⟨p, t, hinvoke, -⟩ := hcall
  rw [invoke, yields_bind] at hinvoke
  obtain ⟨v, t', hread, -⟩ := hinvoke
  rw [← hcompilation.call_filled_of_get? hc hrouting hreader] at hread
  exact h.reader_fails hread

end Parcel

/-- A message that holds the state of a contract may be lost: it can be stored, but not be read where it arrives. -/
theorem parcel_lost : parcelTable.WellNamed ∧ parcelTable.Separate ∧
    Program.planned parcelTable = .ok parcelEnv.program ∧ parcelEnv.program.plans.validate = .ok () ∧
    ∃ out state, parcelTable.types.get? "Locker" = some keeperDecl ∧ compileContract parcelEnv "Locker" = .ok out ∧
      (Code.ofOutput out).WithHandlers keeperDecl out ∧ parcelDecl ∈ parcelTable.structs ∧
      parcelEnv.program.plans.HasOpcodeWidth "Parcel" 32 ∧ IsState parcelTable keeperDecl state ∧
      ¬ DeliversMessages (.ofOutput out) parcelEnv keeperDecl parcelDecl (.tensor [state]) := by
  have hw : parcelTable.WellNamed := ⟨by decide +kernel, by decide +kernel⟩
  have hsep : parcelTable.Separate := by
    have hall : ∀ decl ∈ parcelTable.types.values, (decl.fields.map (·.name)).Nodup ∧
        ∀ f ∈ decl.fields, '\'' ∉ f.name.toList := by decide +kernel
    exact fun decl hdecl => ⟨(hall decl hdecl).1, (hall decl hdecl).2⟩
  obtain ⟨out, hout, hc, hmodule⟩ := Parcel.exists_module
  generalize hx : (Cell.mk Locker.ownerBits []).parse = x
  have hrefs : x.refs = [] := by rw [← hx]; rfl
  have hstandard : IsStandard x.bits := by
    rw [← hx]
    exact ⟨by decide +kernel, by decide +kernel⟩
  have hstate : IsState parcelTable keeperDecl (.tensor [.slice x]) :=
    .record (List.cons_ne_nil _ _) rfl (List.forall_mem_singleton.2 (.scalar rfl rfl ⟨hstandard.length_eq, hrefs⟩))
  refine ⟨hw, hsep, rfl, rfl, out, .tensor [.slice x], rfl, hout, hc, List.mem_cons_self, ⟨_, _, rfl, rfl, rfl⟩, hstate,
    fun hdelivers => ?_⟩
  obtain ⟨y, heq, harrives, -⟩ := hdelivers (hmodule.writerCell_yields (s := {}) hstandard hrefs)
  obtain rfl : Cell.mk (Bits.ofInt 32 7 ++ x.bits) [] = y := by simpa using heq
  obtain ⟨v', hsame, hrun⟩ := harrives _ "$Locker$_internal_binary_Parcel" rfl rfl rfl (.tensor [.slice x]) {}
  -- the handler can be run, and the router would end if it were
  obtain ⟨box, rfl, hbox⟩ := hsame.exists_singleton
  obtain ⟨owner, rfl, howner⟩ := hbox.exists_singleton
  obtain ⟨x', rfl⟩ := howner.exists_slice
  have hinvoke : Yields (invoke (.ofOutput out) "$Locker$_internal_binary_Parcel"
      [.tensor [.slice x], .tensor [.tensor [.slice x']]]) {} (.tensor [.slice x], .tensor []) {} := by
    rw [Machine.Yields, invoke, hmodule.handler_yields.bind_eq]
    rfl
  have hrouter : Yields (call (.ofOutput out) (Name.routerInternal "Locker") [.tensor [.slice x], .int 0,
      .slice (Cell.mk (Bits.ofInt 32 7 ++ x.bits) []).parse]) {} (routerResult (.tensor [.slice x]) true) {} :=
    hrun.trans hinvoke.bind_eq
  exact Parcel.router_fails hw hsep hout hc hmodule hrouter

end CellCompiler
