import CellCompiler.Proofs.Codec.Message
import CellCompiler.Proofs.Totality

/-!
# What is left of a message after a bounce

The reader for messages that come back takes the first fields only. It looks at nothing behind them, in
whichever cell of the chain the last of them is.

* `Recut` relates the contents of two chains of cells that agree up to the last of some first operations,
  and may differ in what follows it in its cell;
* `Ready.reads_recut` shows that the reader finds the same in both;
* `library_survivesBounce` is the result about compiled libraries.
-/

namespace CellCompiler

open Generate Machine
open Plan (Op Chain)

variable {c : Code} {env : Env} {decl : TypeDecl} {r : Record} {values : String → Val} {s s' : State}
  {v w : Val} {n : Nat} {bits bits' : List Bool} {refs refs' : List Cell}

/-! ### Other things behind the first operations -/

/-- The second contents are the first ones with anything, or nothing, in place of what follows the
first `n` operations in the cell that holds the last of these. If there are not as many operations, it
is what follows all of them. -/
inductive Recut (c : Code) (env : Env) (values : String → Val) :
    Nat → Chain → List Bool → List Cell → List Bool → List Cell → Prop where
  | last {n : Nat} {ops : List Op} {front rest rest' : List Bool} {own others others' : List Cell} :
      EncodesAll c env values (ops.take n) front own →
      Recut c env values n (.last ops) (front ++ rest) (own ++ others) (front ++ rest') (own ++ others')
  | here {n : Nat} {ops : List Op} {next : Chain} {front rest rest' : List Bool}
      {own others others' : List Cell} :
      n ≤ ops.length → EncodesAll c env values (ops.take n) front own →
      Recut c env values n (.link ops next) (front ++ rest) (own ++ others) (front ++ rest') (own ++ others')
  | next {n : Nat} {ops : List Op} {next : Chain} {bits more more' : List Bool}
      {refs others others' : List Cell} :
      ops.length < n → EncodesAll c env values ops bits refs →
      Recut c env values (n - ops.length) next more others more' others' →
      Recut c env values n (.link ops next) bits (refs ++ [Cell.mk more others]) bits
        (refs ++ [Cell.mk more' others'])

/-- The first operations are still in front. -/
theorem Recut.front {chain : Chain} (h : Recut c env values n chain bits refs bits' refs')
    (hdelimits : ∀ op ∈ chain.ops.take n, Delimits env op) :
    ∃ front rest own others, bits' = front ++ rest ∧ refs' = own ++ others ∧
      EncodesFront c env values n chain front own := by
  induction h with
  | last hops => exact ⟨_, _, _, _, rfl, rfl, .last hops⟩
  | here hn hops => exact ⟨_, _, _, _, rfl, rfl, .here hn hops⟩
  | next hn hops _ ih =>
    rw [Chain.ops_link, List.take_append, List.forall_mem_append] at hdelimits
    obtain ⟨front, rest, own, others, rfl, rfl, hfront⟩ := ih hdelimits.2
    refine ⟨_, [], _, [], (List.append_nil _).symm, (List.append_nil _).symm, ?_⟩
    exact .link hn hops hfront (.inl hdelimits.2)

/-! ### Reading them -/

/-- The first operations leave what follows them if the last of these does. -/
theorem Ready.delimits_first (h : Ready c env r values)
    (hlast : ∀ op, (r.plan.ops.take n).getLast? = some op → Delimits env op) :
    ∀ op ∈ r.plan.ops.take n, Delimits env op := by
  by_cases hn : n < r.plan.ops.length
  · exact delimits_take h.delimits hn
  · rw [List.take_of_length_le (not_lt.1 hn)] at hlast ⊢
    intro op hop
    have hne := List.ne_nil_of_mem hop
    rw [← List.dropLast_append_getLast hne, List.mem_append, List.mem_singleton] at hop
    obtain hop | rfl := hop
    · exact h.delimits op hop
    · exact hlast _ (List.getLast?_eq_some_getLast hne)

/-- The reader for messages that come back finds the first fields in the cell. -/
def ReadsFirst (c : Code) (decl : TypeDecl) (v : Val) (y : Cell) : Prop :=
  ∀ t, ∃ x' v', Yields (call c (Name.readerBounced decl.name) [.slice y.parse]) t
    (.tensor [.slice x', v']) t ∧ v'.Same (v.leading decl.bounceCount)

theorem Ready.reads_recut (h : Ready c env r values) (hc : c.Plain) (hsep : env.program.types.Separate)
    (hr : RecordOf env decl r)
    (hreader : ∃ inline, Runs c env (readerItem r (Name.readerBounced r.name) true inline))
    (hheader : HeaderFits r.plan)
    (hlast : ∀ op, (r.plan.ops.take decl.bounceCount).getLast? = some op → Delimits env op)
    (hrecut : Recut c env values decl.bounceCount r.plan.root bits refs bits' refs') :
    ReadsFirst c decl (packed r.fields values) (.mk (headerBits r.plan ++ bits') refs') := by
  obtain ⟨inline, hruns⟩ := hreader
  have hdelimits := h.delimits_first hlast
  obtain ⟨front, rest, own, others, rfl, rfl, hfront⟩ := hrecut.front (by rwa [h.flat])
  intro t
  have hcount : loadedCount r true = decl.bounceCount := hr.bounceCount_eq
  obtain ⟨v', x', hread, hsame, -⟩ := readerItem_restores hc hsep h hruns hheader (hcount.symm ▸ hfront)
    (.inl (hcount.symm ▸ hdelimits)) (by simpa using Slice.holds_parse _ _) t
  rw [h.visible_eq, hcount, packed_take] at hsame
  rw [hr.name_eq] at hread
  exact ⟨x', v', hread, hsame⟩

/-! ### Compiled libraries -/

/-- Wherever the message has been stored, its fields lie there behind the header as the plan has them.
The reader for messages that come back finds the first fields in that cell, and finds the same if
anything else follows the last of them, unless that one takes what follows it. -/
def SurvivesBounce (c : Code) (env : Env) (decl : TypeDecl) (v : Val) : Prop :=
  ∀ {s s' : State} {w : Val}, Yields (call c (Name.writerCell decl.name) [v]) s w s' → s' = s ∧
    ∃ plan values bits refs, env.program.plans.types.get? decl.name = some plan ∧
      packed (decl.fields.map fun f => (f.name, f.ty)) values = v ∧
      EncodesChain c env values plan.root bits refs ∧ w = .cell (.mk (headerBits plan ++ bits) refs) ∧
      ReadsFirst c decl v (.mk (headerBits plan ++ bits) refs) ∧
      ((∀ op, (plan.ops.take decl.bounceCount).getLast? = some op → Delimits env op) →
        ∀ bits' refs', Recut c env values decl.bounceCount plan.root bits refs bits' refs' →
          ReadsFirst c decl v (.mk (headerBits plan ++ bits') refs'))

theorem Library.survivesBounce (h : Library c env) (hdecl : decl ∈ env.program.types.structs)
    (hmessage : decl.header.isSome = true)
    (hv : Represents env.program.types (.plain decl.name) none v) : SurvivesBounce c env decl v := by
  intro s s' w hcall
  have hc := h.proper.plain
  obtain ⟨r, hr, hcodecs⟩ := (h.supports decl hdecl).codecs
  have hreader := hcodecs.bounced hmessage
  obtain ⟨rfl, values, bits, refs, rfl, hready, hfits, hbits, rfl⟩ :=
    h.packs hdecl hr hcodecs.toCodecs hv hcall
  refine ⟨rfl, r.plan, values, bits, refs, hr.plan_eq, by rw [hr.fields_eq], hbits, rfl, fun t => ?_,
    fun hlast bits' refs' => hready.reads_recut hc h.separate hr hreader hfits hlast⟩
  obtain ⟨front, rest, own, others, rfl, rfl, hfirst⟩ :=
    hready.reads_first hc h.separate hr hreader hfits hbits
  obtain ⟨x', v', hread, hsame, -⟩ := hfirst _ rest others
    (by simpa using Slice.holds_parse _ _) (.inr ⟨rfl, rfl⟩) t
  exact ⟨x', v', hread, hsame⟩

/-- **The first fields of a message survive a bounce, whatever follows them.** Take a table of types
whose fields have separate names and whose plans the planner makes and the check accepts, and run the
library that it compiles to. What the writer of a message stores, the reader for messages that come
back reads as the first fields of the message; and so it does of every cell that agrees with it up to
the last of these fields, in whichever cell of the chain that one is. Values that hold the state of a
contract are not among those of a message (`Represents`): a library has no codecs for them. -/
theorem library_survivesBounce {types : TypeTable} {program : Program} {env : Env} {out : Emission.Output}
    (hw : types.WellNamed) (hsep : types.Separate) (hplanned : Program.planned types = .ok program)
    (hvalid : program.plans.validate = .ok ()) (hprogram : env.program = program)
    (hout : compileLibrary env = .ok out) {decl : TypeDecl} (hdecl : decl ∈ types.structs)
    (hmessage : decl.header.isSome = true) {v : Val} (hv : Represents types (.plain decl.name) none v) :
    SurvivesBounce (.ofOutput out) env decl v := by
  obtain ⟨htypes, hlibrary⟩ := library_ofOutput hw hsep hplanned hvalid hprogram hout
  subst hprogram htypes
  exact hlibrary.survivesBounce hdecl hmessage hv

/-- A message of which a number survives a bounce. -/
def orderDecl : TypeDecl :=
  { TypeDecl.ofFields .struct "Order" [⟨"amount", 0, .plain "Int", some "uint64", none⟩,
      ⟨"fee", 1, .plain "Int", some "coins", none⟩] with
    header := some 7, bounceFields := 1 }

/-- The table of orders with its plans. -/
def orderEnv : Env where
  program :=
    let types := TypeTable.primitives.addType orderDecl
    { types, plans := (planProgram types).toOption.getD {} }
  evaluate := noConstants

theorem fits_order : FitsType orderEnv.program.types (.plain "Order") none (.tensor [.int 5, .int 9]) := by
  have hget : orderEnv.program.types.types.get? "Order" = some orderDecl := rfl
  refine .record hget rfl (List.cons_ne_nil _ _) rfl
    (List.forall_mem_cons.2 ⟨?_, List.forall_mem_singleton.2 ?_⟩)
  · refine .scalar rfl rfl ⟨trivial, fun kind hkind => ?_⟩
    obtain rfl : Plan.OpKind.uint 64 = kind := Option.some.inj hkind
    exact (by decide +kernel : Bits.fitsUnsigned 5 64 = true)
  · refine .scalar rfl rfl ⟨trivial, fun kind hkind => ?_⟩
    obtain rfl : Plan.OpKind.coins = kind := Option.some.inj hkind
    exact (by decide +kernel : Bits.fitsUnsigned 9 Builder.maxCoinsBits = true)

theorem order_survivesBounce : ∃ out y, compileLibrary orderEnv = .ok out ∧
    Yields (call (.ofOutput out) (Name.writerCell "Order") [.tensor [.int 5, .int 9]]) {} (.cell y) {} ∧
    ∃ x, Yields (call (.ofOutput out) (Name.readerBounced "Order") [.slice y.parse]) {}
      (.tensor [.slice x, .tensor [.int 5]]) {} := by
  have hw : orderEnv.program.types.WellNamed := ⟨by decide +kernel, by decide +kernel⟩
  have hall : ∀ decl ∈ orderEnv.program.types.types.values, (decl.fields.map (·.name)).Nodup ∧
      ∀ f ∈ decl.fields, '\'' ∉ f.name.toList ∧
        Plan.takesRest orderEnv.program.types f.ty f.format = false := by decide +kernel
  have hsep : orderEnv.program.types.Separate :=
    fun decl hdecl => ⟨(hall decl hdecl).1, fun f hf => ((hall decl hdecl).2 f hf).1⟩
  have hrest : orderEnv.program.types.NoRest "Order" := fun inner decl _ hdecl f hf =>
    ((hall decl (Dict.mem_values_of_get? hdecl)).2 f hf).2
  have hplanned : Program.planned orderEnv.program.types = .ok orderEnv.program := rfl
  have hvalid : orderEnv.program.plans.validate = .ok () := rfl
  have hdecl : orderDecl ∈ orderEnv.program.types.structs := List.mem_of_getLast? rfl
  have hrecords : orderEnv.program.types.IsRecords := by decide +kernel
  obtain ⟨out, hout⟩ := hrecords.exists_library hw hplanned
  obtain ⟨-, hlibrary⟩ := library_ofOutput hw hsep hplanned hvalid rfl hout
  obtain ⟨bits, refs, -, hcell⟩ := hlibrary.exists_cell hdecl hrest fits_order
  obtain ⟨-, _, _, _, _, -, -, -, heq, hreads, -⟩ :=
    library_survivesBounce hw hsep hplanned hvalid rfl hout hdecl rfl fits_order.represents (hcell {})
  rw [← Val.cell.inj heq] at hreads
  obtain ⟨x, v', hread, hsame⟩ := hreads {}
  obtain ⟨w, rfl, hw'⟩ := Val.Same.exists_singleton (hsame : v'.Same (.tensor [.int 5]))
  obtain rfl := hw'.eq_int
  exact ⟨out, _, hout, hcell {}, x, hread⟩

end CellCompiler
