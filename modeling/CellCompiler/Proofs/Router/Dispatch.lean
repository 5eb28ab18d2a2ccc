import CellCompiler.Compile
import CellCompiler.Proofs.Codec.Contract
import CellCompiler.Proofs.Router.Branches

/-!
# Routers dispatch to the first match

* `routerBody_acts` and `bounceStage_acts` put the branches of a router together;
* `router_eq_routed` is the main result: the emitted router is the dispatcher `routed`, whatever
  handlers and readers do.
-/

namespace CellCompiler

open Machine Generate

namespace Router

variable {c : Code} {env : Env} {d d' : Draft} {self : Val} {more : List Target.Stmt} {s : State}
  {msg : Slice}

theorem routerBody_acts {routes : List Route} {out : List Target.Stmt}
    (hrun : routerBody routes env d = .ok out d') (hc : c.Plain)
    (hreader : CanRead c
      (messageDelivery? env.program.types env.config.opcodeBits.toNat routes msg))
    (hhandlers : ∀ r ∈ routes, c.functions.contains r.2 = true)
    (hself : s.get? Name.self = some self) (hmsg : s.get? "in_msg" = some (.slice msg)) :
    Acts (block c out) s
      ((messageDelivery? env.program.types env.config.opcodeBits.toNat routes msg).elim
        (pure (routerResult self false)) (deliver c self)) := by
  simp only [routerBody, opcodeBits, run_bind, run_read, run_pure] at hrun
  obtain ⟨_, _, ⟨_, _, ⟨rfl, rfl⟩, rfl, rfl⟩, typed, _, htyped, text, _, htext, rfl, rfl⟩ := hrun
  generalize hw : env.config.opcodeBits.toNat = w at htext hreader ⊢
  have hwidth : w < UInt64.size := hw ▸ env.config.opcodeBits.toNat_lt.trans (by decide)
  -- the branches offer what the stages deliver, in the same order
  have hbranches : Offers c self (Ready self msg "op" (opcodeAt w msg))
      (typed ++ (emptyBranches (Target.int w) routes ++ (text ++ fallbackStage routes)))
      (messageDelivery? env.program.types w routes msg) :=
    (opcodeBranches_offers htyped hreader.left hhandlers).append
      ((emptyBranches_offers hc hhandlers).append (((textStage_offers htext hc hhandlers hwidth).append
        (fallbackStage_offers hhandlers)).congr Option.or_assoc))
  have hready : Ready self msg "op" (opcodeAt w msg) (s.set "op" (.int (opcodeAt w msg))) := by
    refine ⟨?_, ?_, by simp⟩
    · simpa [Name.self, Name.var] using hself
    · simpa using hmsg
  have hacts := hbranches _ hready [handled false] _ fun _ s hs => acts_handled hs.contract
  simp only [List.append_assoc] at hacts ⊢
  exact Acts.bindOpcode hacts hc hmsg (by simp) hwidth

/-- There is at most one handler of last resort, as handlers have different names. -/
theorem filter_bounceFallback {contract : String} {handlers : List Handler}
    (hnames : ∀ h ∈ handlers, receiverName contract h.selector = .ok h.name)
    (hdistinct : (handlers.map (·.name)).Nodup) :
    handlers.filter (·.selector == .bounceFallback) =
      (handlers.find? (·.selector == .bounceFallback)).toList := by
  have hname : ∀ h ∈ handlers.filter (·.selector == .bounceFallback),
      h.name = Name.receiver contract "bounced" "fallback" := by
    intro h hh
    obtain ⟨hmem, hselector⟩ := List.mem_filter.1 hh
    have hreceiver := hnames h hmem
    rw [beq_iff_eq.1 hselector] at hreceiver
    simpa [receiverName, eq_comm] using hreceiver
  have hnodup : ((handlers.filter (·.selector == .bounceFallback)).map (·.name)).Nodup :=
    hdistinct.sublist (List.filter_sublist.map _)
  rw [← List.head?_filter]
  match hfilter : handlers.filter (·.selector == .bounceFallback) with
  | [] => rw [hfilter]; rfl
  | [h] => rw [hfilter]; rfl
  | h :: h' :: rest =>
    -- two of them would have one name
    rw [hfilter] at hnodup hname
    have hsame : h.name = h'.name := (hname h (by simp)).trans (hname h' (by simp)).symm
    simp [hsame] at hnodup

theorem elim_or {α β : Type} {a b : Option α} {x : β} {f : α → β} :
    (a.or b).elim x f = a.elim (b.elim x f) f := by
  cases a <;> rfl

/-- The end of the part for bounced messages. -/
theorem acts_bounceFallback {contract : String} {handlers : List Handler}
    (hhandlers : ∀ h ∈ handlers, c.functions.contains h.name = true)
    (hnames : ∀ h ∈ handlers, receiverName contract h.selector = .ok h.name)
    (hdistinct : (handlers.map (·.name)).Nodup)
    (hself : s.get? Name.self = some self) (hmsg : s.get? "in_msg" = some (.slice msg)) :
    Acts (block c ((handlers.filter (·.selector == .bounceFallback)).map
        (fun h => callHandler h.name [inMsg]) ++ (handled true :: more))) s
      (((handlers.find? (·.selector == .bounceFallback)).map fun h => (h.name, Payload.rest msg)).elim
        (pure (routerResult self true)) (deliver c self)) := by
  rw [filter_bounceFallback hnames hdistinct]
  cases hfind : handlers.find? (·.selector == .bounceFallback) with
  | none => exact acts_handled hself
  | some h =>
    exact acts_dispatch hself (.cons (means_inMsg hmsg) .nil) (hhandlers h (List.mem_of_find?_eq_some hfind))

theorem bounceStage_acts {contract : String} {handlers : List Handler} {out : List Target.Stmt}
    (hrun : bounceStage handlers env d = .ok out d') (hc : c.Plain)
    (hreader : CanRead c (bounceDelivery? env.program.types env.config.opcodeBits.toNat handlers
      (msg.dropBits env.config.bounceMarkBits.toNat)))
    (hhandlers : ∀ h ∈ handlers, c.functions.contains h.name = true)
    (hnames : ∀ h ∈ handlers, receiverName contract h.selector = .ok h.name)
    (hdistinct : (handlers.map (·.name)).Nodup)
    (hself : s.get? Name.self = some self) (hmsg : s.get? "in_msg" = some (.slice msg)) :
    Acts (block c (out ++ more)) s
      (if env.config.bounceMarkBits.toNat ≤ msg.bits.length then
        (bounceDelivery? env.program.types env.config.opcodeBits.toNat handlers
          (msg.dropBits env.config.bounceMarkBits.toNat)).elim (pure (routerResult self true))
          (deliver c self)
      else throw (.exit 9)) := by
  simp only [bounceStage, opcodeBits, run_bind, run_read, run_pure] at hrun
  obtain ⟨_, _, ⟨rfl, rfl⟩, _, _, ⟨_, _, ⟨rfl, rfl⟩, rfl, rfl⟩, branches, _, hbranches, rfl, rfl⟩ := hrun
  have hmark : env.config.bounceMarkBits.toNat < UInt64.size :=
    env.config.bounceMarkBits.toNat_lt.trans (by decide)
  have hwidth : env.config.opcodeBits.toNat < UInt64.size :=
    env.config.opcodeBits.toNat_lt.trans (by decide)
  have hread : Primitive.read "skip_bits" msg [.int env.config.bounceMarkBits.toNat] = _ :=
    read_skip_bits hmark
  simp only [List.append_assoc, List.cons_append]
  -- a message that is too short for the mark stops the run where the mark is skipped
  by_cases hle : env.config.bounceMarkBits.toNat ≤ msg.bits.length
  · rw [if_pos hle] at hread ⊢
    refine Acts.read ?_ hc (by decide) hmsg (.cons means_int .nil) hread
    generalize msg.dropBits env.config.bounceMarkBits.toNat = left at hreader ⊢
    generalize hs' : s.set "in_msg" (.slice left) = s'
    have hself' : s'.get? Name.self = some self := by
      rw [← hs']
      simpa [Name.self, Name.var] using hself
    have hmsg' : s'.get? "in_msg" = some (.slice left) := by simp [← hs']
    rw [bounceDelivery?, elim_or]
    -- the opcode is read only if some handler takes a declared type
    cases htyped : handlers.any Handler.isTypedBounce with
    | false =>
      obtain ⟨rfl, hnone⟩ := bounceBranches_of_not_any hbranches htyped
      rw [hnone]
      exact acts_bounceFallback hhandlers hnames hdistinct hself' hmsg'
    | true =>
      refine Acts.bindOpcode ?_ hc hmsg' (by simp) hwidth
      refine bounceBranches_offers hbranches hreader.left hhandlers _ ⟨?_, ?_, by simp⟩ _ _ fun _ s hs =>
        acts_bounceFallback hhandlers hnames hdistinct hs.contract hs.message
      · simpa [Name.self, Name.var] using hself'
      · simpa using hmsg'
  · rw [if_neg hle] at hread ⊢
    exact acts_read_error hc (by decide) hmsg (.cons means_int .nil) hread

/-! ### The router -/

/-- Who takes a message of either kind, and with which payload. -/
def delivery? (env : Env) (handlers : List Handler) (bounced : Bool) (body : Slice) : Option Delivery :=
  if bounced then
    bounceDelivery? env.program.types env.config.opcodeBits.toNat handlers
      (body.dropBits env.config.bounceMarkBits.toNat)
  else messageDelivery? env.program.types env.config.opcodeBits.toNat (routes handlers .internal) body

/-- The router is the dispatcher, on every message that can be read where it goes. -/
theorem router_eq_routed_of_canRead {contract : TypeDecl} {handlers : List Handler} {item : Target.Item}
    (hitem : routerItem contract handlers .internal env d = .ok item d')
    (hnames : ∀ h ∈ handlers, receiverName contract.name h.selector = .ok h.name)
    (hdistinct : (handlers.map (·.name)).Nodup) (hc : c.Plain)
    (hrouter : c.functions.get? (Name.routerInternal contract.name) = some item)
    (hhandlers : ∀ h ∈ handlers, c.functions.contains h.name = true)
    (self : Val) (flag : Int) (body : Slice)
    (hreader : CanRead c (delivery? env handlers (flag != 0) body)) :
    call c (Name.routerInternal contract.name) [self, .int flag, .slice body] =
      routed c env handlers self (flag != 0) body := by
  simp only [routerItem, run_bind, run_pure] at hitem
  obtain ⟨_, _, -, stage, _, hstage, _, _, ⟨rfl, rfl⟩, out, _, hout, _, _, -, rfl, -⟩ := hitem
  have hhas : c.Has (Name.routerInternal contract.name) [Name.self, "msg_bounced", "in_msg"] _ :=
    ⟨_, hrouter, rfl⟩
  refine hhas.call_eq rfl fun s => ?_
  generalize hu : s.enter [Name.self, "msg_bounced", "in_msg"] [self, .int flag, .slice body] = u
  have hself : u.get? Name.self = some self := by
    simp [← hu, State.enter, State.get?, Dict.ofList, Name.self, Name.var]
  have hflag : u.get? "msg_bounced" = some (.int flag) := by
    simp [← hu, State.enter, State.get?, Dict.ofList]
  have hmsg : u.get? "in_msg" = some (.slice body) := by
    simp [← hu, State.enter, State.get?, Dict.ofList]
  have hroutes : ∀ r ∈ routes handlers .internal, c.functions.contains r.2 = true := by
    intro r hr
    obtain ⟨h, hh, -, hname⟩ := mem_routes_internal hr
    exact hname ▸ hhandlers h hh
  refine Acts.ifThen ?_ (means_id hflag) rfl
  rw [routed]
  cases hbounced : flag != 0 with
  | false =>
    rw [hbounced] at hreader
    exact routerBody_acts hout hc hreader hroutes hself hmsg
  | true =>
    rw [hbounced] at hreader
    exact bounceStage_acts hstage hc hreader hhandlers hnames hdistinct hself hmsg

/-- The function that reads the messages of a handler. -/
def reader? : ReceiverSelector → Option String
  | .internal (.binary typeName) | .external (.binary typeName) => some (Name.reader typeName)
  | .bounceBinary typeName bounced => some (bouncedReader typeName bounced)
  | _ => none

/-- A message that has to be read goes to a handler that it is read for. -/
theorem exists_handler_of_messageDelivery {t : TypeTable} {width : Nat} {handlers : List Handler}
    {name reader : String} {x : Slice}
    (h : messageDelivery? t width (routes handlers .internal) msg = some (name, .message reader x)) :
    ∃ h ∈ handlers, reader? h.selector = some reader := by
  have hrule : ∀ rule, firstRoute (routes handlers .internal) rule = some (name, .message reader x) →
      ∃ h ∈ handlers, ∃ message, h.selector = .internal message ∧
        rule message = some (.message reader x) := by
    intro rule hfirst
    obtain ⟨r, hr, hdelivery⟩ := List.exists_of_findSome?_eq_some hfirst
    obtain ⟨payload, hpayload, heq⟩ := Option.map_eq_some_iff.1 hdelivery
    obtain ⟨rfl, rfl⟩ := Prod.mk.inj heq
    obtain ⟨h, hh, hselector, -⟩ := mem_routes_internal hr
    exact ⟨h, hh, r.1, hselector, hpayload⟩
  simp only [messageDelivery?, Option.or_eq_some_iff] at h
  rcases h with h | ⟨-, h | ⟨-, h | ⟨-, h | ⟨-, h⟩⟩⟩⟩
  all_goals
    obtain ⟨handler, hh, message, hselector, hmessage⟩ := hrule _ h
    refine ⟨handler, hh, ?_⟩
    cases message <;>
      simp_all [typedRule, emptyRule, commentRule, textRule, fallbackRule, reader?]

theorem exists_handler_of_bounceDelivery {t : TypeTable} {width : Nat} {handlers : List Handler}
    {name reader : String} {x : Slice}
    (h : bounceDelivery? t width handlers msg = some (name, .message reader x)) :
    ∃ h ∈ handlers, reader? h.selector = some reader := by
  simp only [bounceDelivery?, Option.or_eq_some_iff] at h
  rcases h with h | ⟨-, h⟩
  · obtain ⟨handler, hh, hdelivery⟩ := List.exists_of_findSome?_eq_some h
    refine ⟨handler, hh, ?_⟩
    unfold bounceRule at hdelivery
    split at hdelivery
    · next hselector => simp_all [reader?]
    · simp at hdelivery
  · obtain ⟨handler, -, heq⟩ := Option.map_eq_some_iff.1 h
    simp at heq

/-- **The router is the first-match dispatcher.** In any code that runs the router of a contract and
leaves the functions of the target alone, and whatever the handlers and readers of that code do, the
router does what `routed` does: it gives the same result or stops with the same fault, leaves the
same state, and ends if and only if that ends. -/
theorem router_eq_routed {contract : TypeDecl} {handlers : List Handler} {item : Target.Item}
    (hitem : routerItem contract handlers .internal env d = .ok item d')
    (hnames : ∀ h ∈ handlers, receiverName contract.name h.selector = .ok h.name)
    (hdistinct : (handlers.map (·.name)).Nodup) (hc : c.Plain)
    (hrouter : c.functions.get? (Name.routerInternal contract.name) = some item)
    (hhandlers : ∀ h ∈ handlers, c.functions.contains h.name = true)
    (hreaders : ∀ h ∈ handlers, ∀ reader, reader? h.selector = some reader →
      c.functions.contains reader = true)
    (self : Val) (flag : Int) (body : Slice) :
    call c (Name.routerInternal contract.name) [self, .int flag, .slice body] =
      routed c env handlers self (flag != 0) body := by
  refine router_eq_routed_of_canRead hitem hnames hdistinct hc hrouter hhandlers self flag body ?_
  rintro handler reader s hdelivery
  cases hbounced : flag != 0 with
  | false =>
    simp only [delivery?, hbounced, Bool.false_eq_true, if_false] at hdelivery
    obtain ⟨h, hh, hreader⟩ := exists_handler_of_messageDelivery hdelivery
    exact hreaders h hh reader hreader
  | true =>
    simp only [delivery?, hbounced, if_true] at hdelivery
    obtain ⟨h, hh, hreader⟩ := exists_handler_of_bounceDelivery hdelivery
    exact hreaders h hh reader hreader

/-- A contract that takes pings, also those that bounce. -/
def beacon : TypeDecl :=
  { TypeDecl.ofFields .contract "Beacon" [⟨"seen", 0, .plain "Int", some "uint64", none⟩] with
    receivers := [{ selector := .internal (.binary "Ping"), param := some "msg" },
      { selector := .internal .empty }, { selector := .bounceBinary "Ping" false, param := some "msg" },
      { selector := .bounceFallback, param := some "rest" }] }

/-- The contract with the type of pings. -/
def beaconEnv : Env where
  program :=
    let ping := { TypeDecl.ofFields .struct "Ping" [⟨"id", 0, .plain "Int", some "uint64", none⟩] with
      header := some 7 }
    let types := (TypeTable.primitives.addType ping).addType beacon
    { types, plans := (planProgram types).toOption.getD {} }
  evaluate := noConstants

/-- The handlers of the contract. -/
def beaconHandlers : List Handler :=
  beacon.receivers.map fun r => ⟨r.selector, (receiverName "Beacon" r.selector).toOption.getD ""⟩

/-- The router of the contract. -/
def beaconRouter : Target.Item :=
  match routerItem beacon beaconHandlers .internal beaconEnv {} with
  | .ok item _ => item
  | .error _ _ => .comment []

theorem beacon_router_eq_routed : ∃ (out : Emission.Output) (d' : Draft),
    compileContract beaconEnv beacon.name = .ok out ∧
    routerItem beacon beaconHandlers .internal beaconEnv {} = .ok beaconRouter d' ∧
    (∀ h ∈ beaconHandlers, receiverName beacon.name h.selector = .ok h.name) ∧
    (beaconHandlers.map (·.name)).Nodup ∧ (Code.ofOutput out).Plain ∧
    (Code.ofOutput out).functions.get? (Name.routerInternal beacon.name) = some beaconRouter ∧
    (∀ h ∈ beaconHandlers, (Code.ofOutput out).functions.contains h.name = true) ∧
    (∀ h ∈ beaconHandlers, ∀ reader, reader? h.selector = some reader →
      (Code.ofOutput out).functions.contains reader = true) ∧
    ∀ self flag body, call (.ofOutput out) (Name.routerInternal beacon.name)
        [self, .int flag, .slice body] =
      routed (.ofOutput out) beaconEnv beaconHandlers self (flag != 0) body := by
  have hcompiles : (compileContract beaconEnv beacon.name).toOption.any (fun out =>
      let c := Code.ofOutput out
      c.functions.get? (Name.routerInternal beacon.name) == some beaconRouter &&
      beaconHandlers.all (fun h => c.functions.contains h.name &&
        (reader? h.selector).all c.functions.contains)) = true := by
    decide +kernel
  have hnames : ∀ h ∈ beaconHandlers, receiverName beacon.name h.selector = .ok h.name := by
    decide +kernel
  have hdistinct : (beaconHandlers.map (·.name)).Nodup := by decide +kernel
  obtain ⟨d', hitem⟩ : ∃ d', routerItem beacon beaconHandlers .internal beaconEnv {} =
      .ok beaconRouter d' := by
    have hok : (match routerItem beacon beaconHandlers .internal beaconEnv {} with
      | .ok _ _ => true
      | .error _ _ => false) = true := by
      decide +kernel
    unfold beaconRouter
    split at hok
    · next item d' hrun => exact ⟨d', by rw [hrun]⟩
    · simp at hok
  obtain ⟨out, hout, hserves⟩ := Except.exists_of_toOption_any hcompiles
  simp only [Bool.and_eq_true, List.all_eq_true, beq_iff_eq] at hserves
  obtain ⟨hrouter, hserved⟩ := hserves
  have hplain : (Code.ofOutput out).Plain := by
    obtain ⟨_, registry, order, -, -, hcompilation, rfl⟩ := compileContract_compilation hout
    exact ((output_within hcompilation.sound.filed order).proper hcompilation.sound).plain
  have hhandlers : ∀ h ∈ beaconHandlers, (Code.ofOutput out).functions.contains h.name = true :=
    fun h hh => (hserved h hh).1
  have hreaders : ∀ h ∈ beaconHandlers, ∀ reader, reader? h.selector = some reader →
      (Code.ofOutput out).functions.contains reader = true := by
    intro h hh reader hreader
    simpa [hreader] using (hserved h hh).2
  exact ⟨out, d', hout, hitem, hnames, hdistinct, hplain, hrouter, hhandlers, hreaders,
    router_eq_routed hitem hnames hdistinct hplain hrouter hhandlers hreaders⟩

end Router

end CellCompiler
