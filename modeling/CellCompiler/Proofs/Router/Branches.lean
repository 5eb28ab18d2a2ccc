import CellCompiler.Proofs.Generate.Contracts
import CellCompiler.Proofs.Layout
import CellCompiler.Proofs.Router.Delivery

/-!
# Branches of routers

* `Offers` is what branches do for a decision about who takes a message. It composes as decisions do:
  branches one after the other offer the message to one after the other (`Offers.append`);
* there is one lemma for every kind of branches, from `typedBranch_offers` to `fallbackStage_offers`.
-/

namespace CellCompiler

open Machine Generate

namespace Router

/-! ### What branches do -/

variable {c : Code} {env : Env} {d d' : Draft} {self : Val} {P Q : State → Prop}
  {branches more : List Target.Stmt} {o o' : Option Delivery} {s : State} {name : String}
  {vs : List Val} {es : List Target.Expr}

theorem acts_handled {value : Bool} (hself : s.get? Name.self = some self) :
    Acts (block c (handled value :: more)) s (pure (routerResult self value)) :=
  acts_ret (.tensor (.cons (means_id hself) (.cons means_bool .nil)))

theorem acts_dispatch (hself : s.get? Name.self = some self) (hes : List.Forall₂ (Means c s) es vs)
    (hname : c.functions.contains name = true) :
    Acts (block c (dispatch name es ++ more)) s (do
      let (self, _) ← invoke c name (self :: vs)
      return routerResult self true) :=
  Acts.modify (fun _ _ _ => acts_handled (by simp)) hself hes hname

/-- From a state with the property, the branches deliver the message if there is somebody who takes it,
and otherwise go on in such a state. -/
def Offers (c : Code) (self : Val) (P : State → Prop) (branches : List Target.Stmt)
    (o : Option Delivery) : Prop :=
  ∀ s, P s → ∀ more x, (o = none → ∀ s, P s → Acts (block c more) s x) →
    Acts (block c (branches ++ more)) s (o.elim x (deliver c self))

theorem offers_nil : Offers c self P [] none := fun s hs _ _ hmore => hmore rfl s hs

/-- What comes after branches matters only if they do not deliver the message. -/
theorem Offers.append_of_none (h : Offers c self P branches o)
    (h' : o = none → Offers c self P more o') : Offers c self P (branches ++ more) (o.or o') := by
  intro s hs rest x hrest
  rw [List.append_assoc]
  cases o with
  | some delivery => exact h s hs (more ++ rest) x fun hnone => absurd hnone (by simp)
  | none => exact h s hs (more ++ rest) _ fun _ s hs => h' rfl s hs rest x hrest

theorem Offers.append (h : Offers c self P branches o) (h' : Offers c self P more o') :
    Offers c self P (branches ++ more) (o.or o') := h.append_of_none fun _ => h'

/-- Branches for one route after the other. -/
theorem offers_flatMap {α : Type} {l : List α} {f : α → List Target.Stmt} {g : α → Option Delivery}
    (h : ∀ a ∈ l, Offers c self P (f a) (g a)) : Offers c self P (l.flatMap f) (l.findSome? g) := by
  induction l with
  | nil => exact offers_nil
  | cons a l ih =>
    rw [List.forall_mem_cons] at h
    rw [List.flatMap_cons, List.findSome?_cons]
    have happend := h.1.append (ih h.2)
    cases hg : g a with
    | none => simpa [hg] using happend
    | some delivery => simpa [hg] using happend

/-- Branches under a condition. -/
theorem Offers.ifThen {cond : Target.Expr} {hit : Bool} (h : hit = true → Offers c self P branches o)
    (hcond : ∀ s, P s → Means c s cond (.bool hit)) :
    Offers c self P [Target.ifThen cond branches] (if hit then o else none) := by
  intro s hs more x hmore
  refine Acts.ifThen ?_ (hcond s hs) truthy_bool
  cases hit with
  | false => exact hmore rfl s hs
  | true => exact h rfl s hs more x hmore

/-- Branches after a variable that only they use. -/
theorem Offers.var {e : Target.Expr} {v : Val} (h : Offers c self Q branches o)
    (he : ∀ s, P s → Means c s e v) (hset : ∀ s, P s → Q (s.set name v)) (hP : ∀ s, Q s → P s) :
    Offers c self P (Target.var (Target.id name) e :: branches) o := by
  intro s hs more x hmore
  exact Acts.varDef (h _ (hset s hs) more x fun hnone s hs => hmore hnone s (hP s hs)) (he s hs)

/-! ### Branches of routers -/

/-- The variables of a router while it looks for a handler. -/
structure Ready (state : Val) (msg : Slice) (opVar : String) (op : Nat) (s : State) : Prop where
  contract : s.get? Name.self = some state
  message : s.get? "in_msg" = some (.slice msg)
  opcode : s.get? opVar = some (.int op)

section Branches

variable {msg : Slice} {opVar : String} {op width : Nat}

theorem means_inMsg (h : s.get? "in_msg" = some (.slice msg)) : Means c s inMsg (.slice msg) :=
  means_id h

theorem means_sliceBits (hc : c.Plain) (h : s.get? "in_msg" = some (.slice msg)) :
    Means c s (Target.method inMsg "slice_bits" []) (.int msg.bits.length) :=
  .primitive hc (by decide) (.cons (means_inMsg h) .nil) (call_slice_bits.2 rfl)

theorem means_hasOpcode (hc : c.Plain) (h : s.get? "in_msg" = some (.slice msg)) :
    Means c s (hasOpcode (Target.int width)) (.bool (decide (width ≤ msg.bits.length))) :=
  (means_sliceBits hc h).binary means_int (by simp [Primitive.binary, Primitive.onInts])

theorem means_opcodeIs (h : Ready self msg opVar op s) {n : Nat} :
    Means c s (Target.eq (Target.id opVar) (Target.int n)) (.bool (decide (n = op))) := by
  have heq : ((op : Int) == n) = decide (n = op) := by
    rw [Bool.eq_iff_iff, beq_iff_eq, decide_eq_true_iff]
    omega
  exact heq ▸ (means_id h.opcode).eq means_int

/-- Reading a payload and passing it to a handler. -/
theorem acts_message {reader handler : String} (hs : Ready self msg opVar op s)
    (hreader : c.functions.contains reader = true) (hhandler : c.functions.contains handler = true) :
    Acts (block c (Target.var (Target.id "msg") (Target.modify inMsg reader []) ::
      (dispatch handler [Target.id "msg"] ++ more))) s (deliver c self (handler, .message reader msg)) := by
  refine Acts.varModify (fun p t ht => ?_) hs.message .nil hreader
  refine acts_dispatch ?_ (.cons (means_id (by simp)) .nil) hhandler
  have hself : t.get? Name.self = some self := by rw [State.get?, ht, ← State.get?, hs.contract]
  simpa [Name.self, Name.var] using hself

/-- The opcode that branches of a type are for. -/
theorem opcodeOf_eq_ok {typeName : String} {opcode : UInt32}
    (h : opcodeOf typeName env d = .ok opcode d') :
    opcode? env.program.types typeName = some opcode.toNat := by
  simp only [opcodeOf, declOf, table, run_bind, run_read, run_pure, run_ofExcept,
    Layout.declOf_eq_ok] at h
  obtain ⟨decl, _, ⟨_, _, ⟨_, _, ⟨rfl, rfl⟩, rfl, rfl⟩, hdecl, rfl⟩, h⟩ := h
  cases hheader : decl.header with
  | some x =>
    rw [hheader] at h
    obtain ⟨rfl, rfl⟩ := run_pure.1 h
    simp [opcode?, hdecl, hheader]
  | none =>
    rw [hheader] at h
    exact absurd h run_throw

theorem typedBranch_offers {typeName reader handler : String} {branch : Target.Stmt}
    (hrun : typedBranch opVar typeName reader handler env d = .ok branch d')
    (hreader : opcode? env.program.types typeName = some op → c.functions.contains reader = true)
    (hhandler : c.functions.contains handler = true) :
    Offers c self (Ready self msg opVar op) [branch]
      (if opcode? env.program.types typeName = some op then some (handler, .message reader msg)
        else none) := by
  simp only [typedBranch, used, run_bind, run_modify, run_pure] at hrun
  obtain ⟨opcode, _, hopcode, _, _, ⟨_, _, rfl, rfl, rfl⟩, rfl, rfl⟩ := hrun
  rw [opcodeOf_eq_ok hopcode] at hreader ⊢
  have hbranch : decide (opcode.toNat = op) = true → Offers c self (Ready self msg opVar op)
      (Target.var (Target.id "msg") (Target.modify inMsg reader []) ::
        dispatch handler [Target.id "msg"]) (some (handler, .message reader msg)) :=
    fun heq s hs more x _ =>
      acts_message hs (hreader (congrArg some (of_decide_eq_true heq))) hhandler
  have hguard := Offers.ifThen hbranch fun s hs => means_opcodeIs hs (n := opcode.toNat)
  simpa using hguard

/-- The function that reads the payload of a delivery is there. -/
def CanRead (c : Code) (o : Option Delivery) : Prop :=
  ∀ handler reader s, o = some (handler, .message reader s) → c.functions.contains reader = true

theorem CanRead.left (h : CanRead c (o.or o')) : CanRead c o := by
  rintro handler reader s rfl
  exact h handler reader s rfl

theorem opcodeBranches_offers {routes : List Route} {out : List Target.Stmt}
    (hrun : opcodeBranches routes env d = .ok out d')
    (hreader : CanRead c (firstRoute routes (typedRule env.program.types width msg)))
    (hhandlers : ∀ r ∈ routes, c.functions.contains r.2 = true) :
    Offers c self (Ready self msg "op" (opcodeAt width msg)) out
      (firstRoute routes (typedRule env.program.types width msg)) := by
  fun_induction opcodeBranches routes generalizing d out with
  | case1 =>
    obtain ⟨rfl, -⟩ := run_pure.1 hrun
    exact offers_nil
  | case2 typeName name rest ih =>
    obtain ⟨first, _, hfirst, hrun⟩ := run_bind.1 hrun
    obtain ⟨more, _, hmore, hrun⟩ := run_bind.1 hrun
    obtain ⟨rfl, rfl⟩ := run_pure.1 hrun
    have hdelivery : ((typedRule env.program.types width msg (.binary typeName)).map
        fun payload => (name, payload)) =
        if opcode? env.program.types typeName = some (opcodeAt width msg) then
          some (name, .message (Name.reader typeName) msg) else none := by
      simp only [typedRule]
      split <;> rfl
    rw [firstRoute_cons, hdelivery] at hreader ⊢
    refine Offers.append_of_none (typedBranch_offers hfirst (fun heq => ?_) ?_) fun hnone => ?_
    · exact hreader.left name _ msg (if_pos heq)
    · exact hhandlers _ List.mem_cons_self
    · rw [hnone, Option.none_or] at hreader
      exact ih hmore hreader fun r h => hhandlers r (List.mem_cons_of_mem _ h)
  | case3 r rest hother ih =>
    have hnone : typedRule env.program.types width msg r.1 = none := by
      obtain ⟨message, name⟩ := r
      cases message with
      | binary typeName => exact absurd rfl (hother typeName name)
      | _ => rfl
    rw [firstRoute_cons_of_none hnone] at hreader ⊢
    exact ih hrun hreader fun r h => hhandlers r (List.mem_cons_of_mem _ h)

/-- Branches that some routes have and others do not. -/
theorem offers_filterMap {routes : List Route} {f : Route → Option Target.Stmt}
    {rule : MessageSelector → Option Payload}
    (h : ∀ r ∈ routes, Offers c self P (f r).toList ((rule r.1).map fun payload => (r.2, payload))) :
    Offers c self P (routes.filterMap f) (firstRoute routes rule) := by
  rw [List.filterMap_eq_flatMap_toList]
  exact offers_flatMap h

theorem Offers.congr {o₁ o₂ : Option Delivery} (h : Offers c self P branches o₁) (heq : o₁ = o₂) :
    Offers c self P branches o₂ := heq ▸ h

theorem emptyBranches_offers {routes : List Route} (hc : c.Plain)
    (hhandlers : ∀ r ∈ routes, c.functions.contains r.2 = true) :
    Offers c self (Ready self msg "op" (opcodeAt width msg)) (emptyBranches (Target.int width) routes)
      (firstRoute routes (emptyRule width msg)) := by
  refine offers_filterMap fun ⟨message, name⟩ hr => ?_
  cases message with
  | empty =>
    have hbranch : Offers c self (Ready self msg "op" (opcodeAt width msg)) (dispatch name [])
        (some (name, .nothing)) := fun s hs more x _ => acts_dispatch hs.contract .nil (hhandlers _ hr)
    have hcond : ∀ s, Ready self msg "op" (opcodeAt width msg) s →
        Means c s (.binary .and (Target.eq (Target.id "op") (Target.int 0))
          (.binary .le (Target.method inMsg "slice_bits" []) (Target.int width)))
          (.bool (decide (0 = opcodeAt width msg) && decide (msg.bits.length ≤ width))) := by
      intro s hs
      have hle : Means c s (.binary .le (Target.method inMsg "slice_bits" []) (Target.int width))
          (.bool (decide (msg.bits.length ≤ width))) :=
        (means_sliceBits hc hs.message).binary means_int (by simp [Primitive.binary, Primitive.onInts])
      exact (means_opcodeIs hs).binary hle binary_and_bool
    refine (Offers.ifThen (fun _ => hbranch) hcond).congr ?_
    simp only [emptyRule, Bool.and_eq_true, decide_eq_true_eq, eq_comm (b := 0)]
    split <;> rfl
  | _ => exact offers_nil

theorem fallbackStage_offers {routes : List Route}
    (hhandlers : ∀ r ∈ routes, c.functions.contains r.2 = true) :
    Offers c self (Ready self msg opVar op) (fallbackStage routes)
      (firstRoute routes (fallbackRule msg)) := by
  refine offers_flatMap fun ⟨message, name⟩ hr => ?_
  cases message with
  | fallback =>
    exact fun s hs more x _ =>
      acts_dispatch hs.contract (.cons (means_inMsg hs.message) .nil) (hhandlers _ hr)
  | _ => exact offers_nil

/-! ### Text messages -/

/-- The variables of a router while it looks for a handler of a text message. -/
structure ReadyText (state : Val) (msg : Slice) (op : Nat) (s : State) : Prop extends
    Ready state msg "op" op s where
  text : s.get? "text_op" = some (.int msg.toCell.hashNumber)

theorem commentBranches_offers {routes : List Route} {out : List Target.Stmt}
    (hrun : commentBranches routes env d = .ok out d')
    (hhandlers : ∀ r ∈ routes, c.functions.contains r.2 = true) (hzero : opcodeAt width msg = 0) :
    Offers c self (ReadyText self msg op) out (firstRoute routes (commentRule width msg)) := by
  fun_induction commentBranches routes generalizing d out with
  | case1 =>
    obtain ⟨rfl, -⟩ := run_pure.1 hrun
    exact offers_nil
  | case2 text name rest ih =>
    obtain ⟨opcode, _, hopcode, hrun⟩ := run_bind.1 hrun
    obtain ⟨more, _, hmore, hrun⟩ := run_bind.1 hrun
    obtain ⟨rfl, rfl⟩ := run_pure.1 hrun
    have hrest := ih hmore fun r h => hhandlers r (List.mem_cons_of_mem _ h)
    have hcode : commentOpcode text = .ok opcode := (run_ofCell.1 hopcode).1
    have hbranch : Offers c self (ReadyText self msg op) (dispatch name []) (some (name, .nothing)) :=
      fun s hs more x _ => acts_dispatch hs.contract .nil (hhandlers _ List.mem_cons_self)
    have hcond : ∀ s, ReadyText self msg op s →
        Means c s (Target.eq (Target.id "text_op") (Target.int opcode))
          (.bool ((msg.toCell.hashNumber : Int) == opcode)) :=
      fun s hs => (means_id hs.text).eq means_int
    rw [firstRoute_cons]
    refine Offers.append ((Offers.ifThen (fun _ => hbranch) hcond).congr ?_) hrest
    simp only [commentRule, hzero, hcode, true_and, beq_iff_eq, Except.ok.injEq, Int.natCast_inj,
      eq_comm (a := opcode)]
    split <;> rfl
  | case3 r rest hother ih =>
    rw [firstRoute_cons_of_none]
    · exact ih hrun fun r h => hhandlers r (List.mem_cons_of_mem _ h)
    · obtain ⟨message, name⟩ := r
      cases message with
      | comment text => exact absurd rfl (hother text name)
      | _ => rfl

theorem commentFallbackBranches_offers {routes : List Route} (hc : c.Plain)
    (hhandlers : ∀ r ∈ routes, c.functions.contains r.2 = true) (hzero : opcodeAt width msg = 0)
    (hwidth : width < UInt64.size) :
    Offers c self (ReadyText self msg op) (commentFallbackBranches (Target.int width) routes)
      (firstRoute routes (textRule width msg)) := by
  refine offers_filterMap fun ⟨message, name⟩ hr => ?_
  cases message with
  | commentFallback =>
    have hbranch : width ≤ msg.bits.length → Offers c self (ReadyText self msg op)
        (dispatch name [Target.method inMsg "skip_bits" [Target.int width]])
        (some (name, .rest (msg.dropBits width))) := by
      intro hle s hs more x _
      refine acts_dispatch hs.contract (.cons ?_ .nil) (hhandlers _ hr)
      exact .primitive hc (by decide) (.cons (means_inMsg hs.message) (.cons means_int .nil))
        (call_skip_bits hwidth hle)
    refine (Offers.ifThen (fun h => hbranch (of_decide_eq_true h)) fun s hs =>
      means_hasOpcode hc hs.message).congr ?_
    simp only [textRule, hzero, true_and, decide_eq_true_eq]
    split <;> rfl
  | _ => exact offers_nil

theorem commentBranches_eq_nil {routes : List Route}
    (hrun : commentBranches routes env d = .ok [] d') :
    ∀ r ∈ routes, commentRule width msg r.1 = none := by
  fun_induction commentBranches routes generalizing d with
  | case1 => simp
  | case2 text name rest ih =>
    obtain ⟨opcode, _, hopcode, hrun⟩ := run_bind.1 hrun
    obtain ⟨more, _, hmore, hrun⟩ := run_bind.1 hrun
    simp at hrun
  | case3 r rest hother ih =>
    refine List.forall_mem_cons.2 ⟨?_, ih hrun⟩
    obtain ⟨message, name⟩ := r
    cases message with
    | comment text => exact absurd rfl (hother text name)
    | _ => rfl

theorem commentFallbackBranches_eq_nil {routes : List Route} {bits : Target.Expr}
    (h : commentFallbackBranches bits routes = []) :
    ∀ r ∈ routes, textRule width msg r.1 = none := by
  rintro ⟨message, name⟩ hr
  have hnone := List.filterMap_eq_nil_iff.1 h _ hr
  cases message with
  | commentFallback => simp at hnone
  | _ => rfl

theorem textStage_offers {routes : List Route} {out : List Target.Stmt}
    (hrun : textStage (Target.int width) routes env d = .ok out d') (hc : c.Plain)
    (hhandlers : ∀ r ∈ routes, c.functions.contains r.2 = true) (hwidth : width < UInt64.size) :
    Offers c self (Ready self msg "op" (opcodeAt width msg)) out
      ((firstRoute routes (commentRule width msg)).or (firstRoute routes (textRule width msg))) := by
  obtain ⟨comments, _, hcomments, hrun⟩ := run_bind.1 hrun
  split at hrun
  · next hempty =>
    -- no text handlers at all: nothing is emitted, and no rule delivers
    obtain ⟨rfl, rfl⟩ := run_pure.1 hrun
    obtain ⟨rfl, htexts⟩ := List.append_eq_nil_iff.1 (List.isEmpty_iff.1 hempty)
    rw [firstRoute_eq_none (commentBranches_eq_nil hcomments),
      firstRoute_eq_none (commentFallbackBranches_eq_nil htexts)]
    exact offers_nil
  · obtain ⟨rfl, rfl⟩ := run_pure.1 hrun
    have hhash : ∀ s, Ready self msg "op" (opcodeAt width msg) s →
        Means c s (Target.call "slice_hash" [inMsg]) (.int msg.toCell.hashNumber) :=
      fun s hs => .primitiveCall hc (by decide) (.cons (means_inMsg hs.message) .nil) rfl
    have hset : ∀ s, Ready self msg "op" (opcodeAt width msg) s →
        ReadyText self msg (opcodeAt width msg) (s.set "text_op" (.int msg.toCell.hashNumber)) := by
      intro s hs
      refine ⟨⟨?_, ?_, ?_⟩, by simp⟩
      · simpa [Name.self, Name.var] using hs.contract
      · simpa using hs.message
      · simpa using hs.opcode
    have hbranches : decide (0 = opcodeAt width msg) = true →
        Offers c self (Ready self msg "op" (opcodeAt width msg))
          (Target.var (Target.id "text_op") (Target.call "slice_hash" [inMsg]) ::
            (comments ++ commentFallbackBranches (Target.int width) routes))
          ((firstRoute routes (commentRule width msg)).or (firstRoute routes (textRule width msg))) := by
      intro hzero
      have hzero : opcodeAt width msg = 0 := (of_decide_eq_true hzero).symm
      exact ((commentBranches_offers hcomments hhandlers hzero).append
        (commentFallbackBranches_offers hc hhandlers hzero hwidth)).var hhash hset fun s hs => hs.toReady
    -- with another opcode the rules for texts deliver nothing either
    refine (Offers.ifThen hbranches fun s hs => means_opcodeIs hs).congr ?_
    by_cases hzero : 0 = opcodeAt width msg
    · simp [hzero]
    · have hcomment : ∀ r ∈ routes, commentRule width msg r.1 = none := by
        rintro ⟨message, name⟩ -
        cases message <;> simp [commentRule, Ne.symm hzero]
      have htext : ∀ r ∈ routes, textRule width msg r.1 = none := by
        rintro ⟨message, name⟩ -
        cases message <;> simp [textRule, Ne.symm hzero]
      simp [hzero, firstRoute_eq_none hcomment, firstRoute_eq_none htext]

/-! ### Bounced messages -/

theorem bounceBranches_offers {handlers : List Handler} {out : List Target.Stmt}
    (hrun : bounceBranches handlers env d = .ok out d')
    (hreader : CanRead c (handlers.findSome? (bounceRule env.program.types width msg)))
    (hhandlers : ∀ h ∈ handlers, c.functions.contains h.name = true) :
    Offers c self (Ready self msg "bounce_op" (opcodeAt width msg)) out
      (handlers.findSome? (bounceRule env.program.types width msg)) := by
  fun_induction bounceBranches handlers generalizing d out with
  | case1 =>
    obtain ⟨rfl, -⟩ := run_pure.1 hrun
    exact offers_nil
  | case2 h rest typeName bounced hselector reader =>
    rename_i ih
    obtain ⟨first, _, hfirst, hrun⟩ := run_bind.1 hrun
    obtain ⟨more, _, hmore, hrun⟩ := run_bind.1 hrun
    obtain ⟨rfl, rfl⟩ := run_pure.1 hrun
    rw [List.forall_mem_cons] at hhandlers
    have hfind : (h :: rest).findSome? (bounceRule env.program.types width msg) =
        (bounceRule env.program.types width msg h).or
          (rest.findSome? (bounceRule env.program.types width msg)) := by
      rw [List.findSome?_cons]
      cases bounceRule env.program.types width msg h <;> rfl
    rw [hfind] at hreader ⊢
    rw [← List.singleton_append]
    refine Offers.append_of_none ?_ fun hnone => ?_
    · have hhead := hreader.left
      rw [bounceRule, hselector] at hhead ⊢
      exact typedBranch_offers hfirst (fun heq => hhead _ _ msg (if_pos heq)) hhandlers.1
    · rw [hnone, Option.none_or] at hreader
      exact ih hmore hreader hhandlers.2
  | case3 h rest hother ih =>
    rw [List.forall_mem_cons] at hhandlers
    rw [List.findSome?_cons, bounceRule_of_other hother] at hreader ⊢
    exact ih hrun hreader hhandlers.2

/-- Handlers of declared types are the only ones with such branches. -/
theorem bounceBranches_of_not_any {handlers : List Handler} {out : List Target.Stmt}
    (hrun : bounceBranches handlers env d = .ok out d')
    (hnone : handlers.any Handler.isTypedBounce = false) :
    out = [] ∧ handlers.findSome? (bounceRule env.program.types width msg) = none := by
  fun_induction bounceBranches handlers generalizing d out with
  | case1 =>
    obtain ⟨rfl, -⟩ := run_pure.1 hrun
    exact ⟨rfl, rfl⟩
  | case2 h rest typeName bounced hselector reader =>
    simp [Handler.isTypedBounce, hselector] at hnone
  | case3 h rest hother ih =>
    rw [List.any_cons, Bool.or_eq_false_iff] at hnone
    rw [List.findSome?_cons, bounceRule_of_other hother]
    exact ih hrun hnone.2

/-! ### Opcodes -/

/-- The variable is bound to the opcode of the message. -/
theorem Acts.bindOpcode {x : Run Val} (h : Acts (block c more) (s.set name (.int (opcodeAt width msg))) x)
    (hc : c.Plain) (hmsg : s.get? "in_msg" = some (.slice msg)) (hname : name ≠ "in_msg")
    (hwidth : width < UInt64.size) :
    Acts (block c (Generate.bindOpcode name (Target.int width) ++ more)) s x := by
  have hmsg' : (s.set name (.int 0)).get? "in_msg" = some (.slice msg) := by
    simpa [hname.symm] using hmsg
  refine Acts.varDef (Acts.ifThen ?_ (means_hasOpcode hc hmsg') truthy_bool) means_int
  by_cases hle : width ≤ msg.bits.length
  · rw [decide_eq_true hle, if_pos rfl]
    have hcode : Means c (s.set name (.int 0)) (Target.method inMsg "preload_uint" [Target.int width])
        (.int (Bits.toNat (msg.bits.take width))) :=
      .primitive hc (by decide) (.cons (means_inMsg hmsg') (.cons means_int .nil))
        ((call_preload_uint hwidth hle).2 rfl)
    refine Acts.assign (w := .int 0) ?_ (by simp) hcode
    simpa [opcodeAt, hle] using h
  · rw [decide_eq_false hle, if_neg Bool.false_ne_true]
    simpa [opcodeAt, hle] using h

end Branches

end Router

end CellCompiler
