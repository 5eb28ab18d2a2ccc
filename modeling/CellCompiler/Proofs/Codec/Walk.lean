import CellCompiler.Proofs.Codec.Store

/-!
# Cells that codecs walk along

The writer of a record fills the cells of the plan one by one and hangs each from the cell before it.
The reader counts the operations that it still has to do, and it opens no cell after the last of them.
Both walk along the same cells unless the plan ends with a cell that holds nothing: that one is
hung, but never opened.

* `StoresField` and `LoadsField` are about the code of one operation, `Hangs` and `OpensCell` about the
  statements that lead from cell to cell;
* `WritesCells` and `ReadsCells` say which operations code stores in each cell, or loads from it;
* `Plan.Chain.used` are the cells of a plan up to the last one that holds anything;
* `codecs_walk` is the main result, and `crate_walks_apart` a plan with a cell that is not opened.
-/

namespace CellCompiler

open Generate
open Plan (Op OpKind Chain)

namespace Plan

/-! ### Cells up to a number of operations -/

namespace Chain

variable {c : Chain}

/-- The operations of each cell until `limit` operations have been met. -/
def reached : (limit : Nat) → Chain → List (List Op)
  | limit, last ops => [ops.take limit]
  | limit, link ops next =>
    if limit ≤ ops.length then [ops.take limit] else ops :: next.reached (limit - ops.length)

/-- The operations of each cell up to the last one that holds any. -/
def used : Chain → List (List Op)
  | last ops => [ops]
  | link ops next => if next.ops = [] then [ops] else ops :: next.used

theorem reached_length (c : Chain) : c.reached c.ops.length = c.used := by
  induction c with
  | last ops => simp [reached, used]
  | link ops next ih =>
    rw [reached, used, ops_link, List.length_append]
    by_cases hnext : next.ops = []
    · simp [hnext]
    · have hpos := List.length_pos_of_ne_nil hnext
      rw [if_neg (by omega), if_neg hnext, Nat.add_sub_cancel_left, ih]

theorem cells_eq_replicate (h : c.ops = []) : c.cells = List.replicate c.cells.length [] :=
  List.eq_replicate_iff.2 ⟨rfl, fun ops hops => List.flatten_eq_nil_iff.1 h ops hops⟩

/-- What is left out are cells that hold nothing. -/
theorem exists_cells_eq_used (c : Chain) : ∃ n, c.cells = c.used ++ List.replicate n [] := by
  induction c with
  | last ops => exact ⟨0, by simp [cells, used]⟩
  | link ops next ih =>
    rw [cells, used]
    split
    · next hnext => exact ⟨next.cells.length, by rw [cells_eq_replicate hnext]; simp⟩
    · obtain ⟨n, hn⟩ := ih
      exact ⟨n, by rw [hn]; rfl⟩

theorem length_used_pos (c : Chain) : 0 < c.used.length := by
  cases c with
  | last => exact Nat.one_pos
  | link ops next => rw [used]; split <;> simp

/-- All cells are used unless the last one, not being the only one, holds nothing. -/
theorem length_used_eq_iff (c : Chain) :
    c.used.length = c.cells.length ↔ c.cells.tail.getLast? ≠ some [] := by
  induction c with
  | last ops => simp [used, cells]
  | link ops next ih =>
    rw [cells, used, List.tail_cons]
    split
    · next hnext =>
      have hpos := List.length_pos_of_ne_nil next.cells_ne_nil
      rw [cells_eq_replicate hnext, List.getLast?_replicate, if_neg (by simpa using hpos.ne')]
      simp [hpos.ne']
    · next hnext =>
      rw [List.length_cons, List.length_cons, Nat.add_right_cancel_iff, ih]
      cases next with
      | last more => simpa [cells] using hnext
      | link more next =>
        obtain ⟨first, others, hcells⟩ := List.exists_cons_of_ne_nil next.cells_ne_nil
        simp [cells, hcells]

theorem StartsFull.ops_ne_nil (h : c.StartsFull) : c.ops ≠ [] := by
  cases c with
  | last ops => exact fun hops => h (by simpa using hops)
  | link ops next => exact fun hops => h (List.append_eq_nil_iff.1 (ops_link ops next ▸ hops)).1

/-- A chain as the planner makes it is used as a whole. -/
theorem Full.used_eq (h : c.Full) : c.used = c.cells := by
  induction c with
  | last ops => rfl
  | link ops next ih => rw [used, cells, if_neg h.1.ops_ne_nil, ih h.2]

end Chain

end Plan

/-! ### Statements of codecs -/

section Statements

variable (env : Env) (r : Record)

/-- The statement makes a cell of what the builder of cell `k` holds, and another builder refers to
it. -/
def Hangs (k : Nat) (s : Target.Stmt) : Prop :=
  ∃ parent, s = Target.assign (Target.id parent)
    (Target.method (Target.id parent) "store_ref" [Target.endCell (Target.id (builderName k))])

/-- The statement takes the slice of cell `k` from a loaded reference. -/
def OpensCell (k : Nat) (s : Target.Stmt) : Prop :=
  ∃ parent, s = Target.var (Target.id (sliceName k)) (loadReference (Target.id parent))

/-- The statement stores the field of an operation in the builder of cell `k`. -/
def StoresField (k : Nat) (op : Op) (s : Target.Stmt) : Prop :=
  ∃ value stored d d', r.fieldPattern op env d = .ok value d ∧
    storeField (Target.id (builderName k)) op value env d = .ok stored d' ∧
    s = Target.assign (Target.id (builderName k)) stored

/-- The statements load the field of an operation from the slice of cell `k`. -/
def LoadsField (k : Nat) (op : Op) (ss : List Target.Stmt) : Prop :=
  ∃ pattern d d', r.fieldPattern op env d = .ok pattern d ∧
    loadField (Target.id (sliceName k)) op pattern env d = .ok ss d'

/-- The statements store these operations in cell `k` and those after it, and hang every cell after
`k` from the one before it. -/
inductive WritesCells : (k : Nat) → List (List Op) → List Target.Stmt → Prop
  | last {k ops own} : List.Forall₂ (StoresField env r k) ops own → WritesCells k [ops] own
  | link {k ops own cells below} : List.Forall₂ (StoresField env r k) ops own →
      WritesCells (k + 1) cells below →
      WritesCells k (ops :: cells) (own ++
        [Target.var (Target.id (builderName (k + 1))) Target.beginCell] ++ below ++
        [Target.assign (Target.id (builderName k)) (Target.method (Target.id (builderName k))
          "store_ref" [Target.endCell (Target.id (builderName (k + 1)))])])

/-- The statements load these operations from cell `k` and those after it, and open every cell after
`k` from the one before it. -/
inductive ReadsCells : (k : Nat) → List (List Op) → List Target.Stmt → Prop
  | last {k ops groups} : List.Forall₂ (LoadsField env r k) ops groups →
      ReadsCells k [ops] groups.flatten
  | link {k ops groups cells below} : List.Forall₂ (LoadsField env r k) ops groups →
      ReadsCells (k + 1) cells below →
      ReadsCells k (ops :: cells) (groups.flatten ++
        [Target.var (Target.id (sliceName (k + 1))) (loadReference (Target.id (sliceName k)))] ++
        below)

end Statements

variable {env : Env} {r : Record} {d d' : Draft} {k : Nat} {op : Op} {ops : List Op}
  {body : List Target.Stmt}

/-! ### What the generators emit -/

theorem writeOps_stores (h : writeOps r (Target.id (builderName k)) ops env d = .ok body d') :
    List.Forall₂ (StoresField env r k) ops body := by
  induction ops generalizing body d with
  | nil =>
    obtain ⟨rfl, -⟩ := run_pure.1 h
    exact .nil
  | cons op rest ih =>
    simp only [writeOps, run_bind, run_pure] at h
    obtain ⟨value, d₁, hvalue, stored, d₂, hstored, more, d₃, hmore, rfl, rfl⟩ := h
    obtain ⟨rfl, -⟩ := fieldPattern_eq_ok hvalue
    exact .cons ⟨value, stored, _, _, hvalue, hstored, rfl⟩ (ih hmore)

theorem readOps_loads (h : readOps r (Target.id (sliceName k)) ops env d = .ok body d') :
    ∃ groups, List.Forall₂ (LoadsField env r k) ops groups ∧ body = groups.flatten := by
  induction ops generalizing body d with
  | nil =>
    obtain ⟨rfl, -⟩ := run_pure.1 h
    exact ⟨[], .nil, rfl⟩
  | cons op rest ih =>
    simp only [readOps, run_bind, run_pure] at h
    obtain ⟨pattern, d₁, hpattern, loaded, d₂, hloaded, more, d₃, hmore, rfl, rfl⟩ := h
    obtain ⟨rfl, -⟩ := fieldPattern_eq_ok hpattern
    obtain ⟨groups, hgroups, rfl⟩ := ih hmore
    exact ⟨loaded :: groups, .cons ⟨pattern, _, _, hpattern, hloaded⟩ hgroups, rfl⟩

theorem writeChain_writes {chain : Chain} (h : writeChain r k chain env d = .ok body d') :
    WritesCells env r k chain.cells body := by
  induction chain generalizing k body d d' with
  | last ops => exact .last (writeOps_stores h)
  | link ops next ih =>
    simp only [writeChain, run_bind, run_pure] at h
    obtain ⟨own, d₁, hown, below, d₂, hbelow, rfl, rfl⟩ := h
    exact .link (writeOps_stores hown) (ih hbelow)

theorem readChain_reads {chain : Chain} {limit : Nat}
    (h : readChain r limit k chain env d = .ok body d') :
    ReadsCells env r k (chain.reached limit) body := by
  induction chain generalizing k limit body d d' with
  | last ops =>
    obtain ⟨groups, hgroups, rfl⟩ := readOps_loads h
    exact .last hgroups
  | link ops next ih =>
    simp only [readChain, run_bind] at h
    obtain ⟨own, d₁, hown, h⟩ := h
    obtain ⟨groups, hgroups, rfl⟩ := readOps_loads hown
    rw [Chain.reached]
    split at h
    · next hlimit =>
      obtain ⟨rfl, -⟩ := run_pure.1 h
      rw [if_pos hlimit]
      exact .last hgroups
    · next hlimit =>
      simp only [run_bind, run_pure] at h
      obtain ⟨below, d₂, hbelow, rfl, rfl⟩ := h
      rw [if_neg hlimit]
      rw [List.take_of_length_le (by omega)] at hgroups
      exact .link hgroups (ih hbelow)

/-! ### Cells that are hung and opened -/

theorem Layout.name_of_shapeWithin {table : TypeTable} {fuel : Nat} {mode : Layout.Mode} {ty : TypeRef}
    {base x : String} {l : Layout.Leaf}
    (h : Layout.shapeWithin table fuel mode ty base = .ok (.leaf x l)) : x = base := by
  have hdecl : ∀ {shapeOf decl optional bounced},
      Layout.declBy shapeOf decl optional bounced base = .ok (.leaf x l) → x = base := by
    intro shapeOf decl optional bounced h
    rw [Layout.declBy_eq_ok] at h
    split at h
    · cases h
      rfl
    · split at h
      · cases h
        rfl
      · rcases Layout.recordBy_eq_ok.1 h with ⟨-, h⟩ | ⟨-, parts, h, -⟩
        · cases h
          rfl
        · cases h
  cases ty with
  | named name optional | bounced name =>
    cases fuel with
    | zero => cases h
    | succ fuel =>
      simp only [Layout.shapeWithin, Except.bind_eq_ok] at h
      obtain ⟨decl, -, h⟩ := h
      exact hdecl h
  | _ =>
    simp only [Layout.shapeWithin] at h
    cases h
    rfl

/-- The variable of a field, if there is only one, is named after it. -/
theorem ident_of_fieldPattern {x : String} (h : r.fieldPattern op env d = .ok (Target.id x) d') :
    x = Name.tick "v" op.name := by
  obtain ⟨-, ty, sh, -, hsh, hpattern⟩ := fieldPattern_eq_ok h
  cases sh with
  | product parts => simp [Layout.Shape.pattern, Target.id] at hpattern
  | leaf name l =>
    obtain rfl : x = name := by simpa [Layout.Shape.pattern, Target.id] using hpattern
    exact Layout.name_of_shapeWithin hsh

theorem fieldPattern_ne_builder {x : String} (h : r.fieldPattern op env d = .ok (Target.id x) d')
    (n : Nat) : x ≠ builderName n :=
  ident_of_fieldPattern h ▸ Name.Under.ne_builderName (.refl _) n

theorem fieldPattern_ne_slice {x : String} (h : r.fieldPattern op env d = .ok (Target.id x) d')
    (n : Nat) : x ≠ sliceName n :=
  ident_of_fieldPattern h ▸ Name.Under.ne_sliceName (.refl _) n

/-- Code that stores a value by making a cell of a variable does so with the value itself. -/
theorem value_of_storeField {builder value : Target.Expr} {parent x : String}
    (h : storeField builder op value env d =
      .ok (Target.method (Target.id parent) "store_ref" [Target.endCell (Target.id x)]) d') :
    value = Target.id x ∨ value = Target.endCell (Target.id x) := by
  obtain ⟨name, kind, optional⟩ := op
  cases optional with
  | true =>
    cases hinline : kind.inline? with
    | some type =>
      obtain rfl := OpKind.eq_struct_of_inline? hinline
      simp [storeField, callUsed, Target.call, Target.method] at h
    | none =>
      obtain ⟨_, _, _, -, -, he, -⟩ := storeField_eq_ok hinline h
      cases he
  | false =>
    simp only [storeField, Bool.not_false, if_true] at h
    cases kind with
    | cell format =>
      cases format <;> simp_all [storeOp, Target.method, Target.endCell]
    | slice format =>
      cases format <;>
        simp [storeOp, Target.method, sliceCell, Target.endCell, Target.id] at h
    | builder format =>
      cases format <;> simp_all [storeOp, Target.method, Target.endCell]
    | struct type byRef =>
      cases byRef with
      | false => simp [storeOp, callUsed, Target.call, Target.method] at h
      | true =>
        simp only [storeOp, callUsed, run_bind, run_pure] at h
        obtain ⟨e, _, ⟨_, _, -, rfl, -⟩, h, -⟩ := h
        simp [Target.method, Target.call, Target.endCell] at h
    | address => simp [storeOp, callHelper, Target.call, Target.method] at h
    | string => simp [storeOp, Target.method, sliceCell, Target.endCell, Target.id] at h
    | _ => simp [storeOp, Target.method] at h

/-- Storing a field hangs no cell of the chain. -/
theorem StoresField.not_hangs {s : Target.Stmt} (h : StoresField env r k op s) (j : Nat) :
    ¬ Hangs j s := by
  obtain ⟨value, stored, d, d', hvalue, hstored, rfl⟩ := h
  rintro ⟨parent, heq⟩
  obtain ⟨-, rfl⟩ : Target.id (builderName k) = Target.id parent ∧ stored =
      Target.method (Target.id parent) "store_ref" [Target.endCell (Target.id (builderName j))] := by
    simpa [Target.assign] using heq
  rcases value_of_storeField hstored with rfl | rfl
  · exact fieldPattern_ne_builder hvalue j rfl
  · obtain ⟨-, -, sh, -, -, hpattern⟩ := fieldPattern_eq_ok hvalue
    cases sh <;> cases hpattern

/-- Loading a field opens no cell of the chain. -/
theorem LoadsField.not_opens {ss : List Target.Stmt} (h : LoadsField env r k op ss) (j : Nat) :
    ∀ s ∈ ss, ¬ OpensCell j s := by
  obtain ⟨pattern, d, d', hpattern, hloaded⟩ := h
  have hother : ∀ e, ¬ OpensCell j (Target.var pattern e) := by
    rintro e ⟨parent, heq⟩
    obtain ⟨rfl, -⟩ : pattern = Target.id (sliceName j) ∧ e = loadReference (Target.id parent) := by
      simpa [Target.var] using heq
    exact fieldPattern_ne_slice hpattern j rfl
  simp only [loadField] at hloaded
  split at hloaded
  · simp only [run_bind, run_pure] at hloaded
    obtain ⟨empty, d₁, -, rfl, -⟩ := hloaded
    refine List.forall_mem_cons.2 ⟨hother _, List.forall_mem_singleton.2 ?_⟩
    rintro ⟨parent, heq⟩
    cases heq
  · obtain ⟨loaded, rfl⟩ : ∃ loaded, ss = [Target.var pattern loaded] := by
      split at hloaded <;>
        simp only [run_bind, run_pure] at hloaded <;>
        obtain ⟨loaded, -, -, rfl, -⟩ := hloaded <;>
        exact ⟨loaded, rfl⟩
    exact List.forall_mem_singleton.2 (hother loaded)

theorem hangs_child_iff {builder : String} {j k : Nat} :
    Hangs j (Target.assign (Target.id builder)
      (Target.method (Target.id builder) "store_ref" [Target.endCell (Target.id (builderName k))])) ↔
      j = k := by
  constructor
  · rintro ⟨parent, heq⟩
    obtain ⟨-, hname⟩ : builder = parent ∧ builderName k = builderName j := by
      simpa [Target.assign, Target.method, Target.endCell, Target.id] using heq
    exact (builderName_inj hname).symm
  · rintro rfl
    exact ⟨_, rfl⟩

theorem opensCell_child_iff {slice : String} {j k : Nat} :
    OpensCell j (Target.var (Target.id (sliceName k)) (loadReference (Target.id slice))) ↔ j = k := by
  constructor
  · rintro ⟨parent, heq⟩
    obtain ⟨hname, -⟩ : sliceName k = sliceName j ∧ slice = parent := by
      simpa [Target.var, loadReference, Target.beginParse, Target.modify, Target.method, Target.id]
        using heq
    exact (sliceName_inj hname).symm
  · rintro rfl
    exact ⟨_, rfl⟩

theorem WritesCells.length_pos {cells : List (List Op)} (h : WritesCells env r k cells body) :
    0 < cells.length := by
  cases h <;> simp

theorem ReadsCells.length_pos {cells : List (List Op)} (h : ReadsCells env r k cells body) :
    0 < cells.length := by
  cases h <;> simp

/-- The cells that are hung are those after the first. -/
theorem WritesCells.hangs_iff {cells : List (List Op)} (h : WritesCells env r k cells body) (j : Nat) :
    (∃ s ∈ body, Hangs j s) ↔ k < j ∧ j < k + cells.length := by
  have hown : ∀ {k ops own}, List.Forall₂ (StoresField env r k) ops own →
      ¬ ∃ s ∈ own, Hangs j s := fun hown ⟨s, hs, hhangs⟩ =>
    List.forall_mem_of_forall₂ (P := fun _ => True) hown (fun _ _ hs _ => hs.not_hangs j) (by simp)
      s hs hhangs
  induction h with
  | last h =>
    simp only [hown h, List.length_singleton, false_iff]
    omega
  | @link k ops own cells below h hbelow ih =>
    have hfresh : ¬ Hangs j (Target.var (Target.id (builderName (k + 1))) Target.beginCell) :=
      fun ⟨_, heq⟩ => nomatch heq
    have hpos := hbelow.length_pos
    simp only [List.mem_append, List.mem_singleton, or_and_right, exists_or, exists_eq_left, hfresh,
      hangs_child_iff, ih, hown h, false_or, List.length_cons]
    omega

/-- The cells that are opened are those after the first. -/
theorem ReadsCells.opens_iff {cells : List (List Op)} (h : ReadsCells env r k cells body) (j : Nat) :
    (∃ s ∈ body, OpensCell j s) ↔ k < j ∧ j < k + cells.length := by
  have hown : ∀ {k ops groups}, List.Forall₂ (LoadsField env r k) ops groups →
      ¬ ∃ s ∈ groups.flatten, OpensCell j s := by
    rintro k ops groups hgroups ⟨s, hs, hopens⟩
    obtain ⟨group, hgroup, hs⟩ := List.mem_flatten.1 hs
    exact List.forall_mem_of_forall₂ (P := fun _ => True) hgroups (fun _ _ h _ => h.not_opens j)
      (by simp) group hgroup s hs hopens
  induction h with
  | last h =>
    simp only [hown h, List.length_singleton, false_iff]
    omega
  | @link k ops groups cells below h hbelow ih =>
    have hpos := hbelow.length_pos
    simp only [List.mem_append, List.mem_singleton, or_and_right, exists_or, exists_eq_left,
      opensCell_child_iff, ih, hown h, false_or, List.length_cons]
    omega

/-! ### Whole codecs -/

/-- The statements of a function. -/
def Target.Item.statements : Target.Item → List Target.Stmt
  | .function _ body => body
  | _ => []

/-- The function stores these operations in the cells of a chain, and hangs no other cells. -/
def WriterWalks (env : Env) (r : Record) (cells : List (List Op)) (item : Target.Item) : Prop :=
  (∃ shape walk, item.statements = openRecord shape ++ writeHeader r.plan ++ walk ++
    [Target.ret (Target.id (builderName 0))] ∧ WritesCells env r 0 cells walk) ∧
  ∀ k, (∃ s ∈ item.statements, Hangs k s) ↔ 0 < k ∧ k < cells.length

/-- The function loads these operations from the cells of a chain, and opens no other cells. -/
def ReaderWalks (env : Env) (r : Record) (cells : List (List Op)) (item : Target.Item) : Prop :=
  (∃ value walk, item.statements = readHeader r.plan ++ walk ++
    [Target.ret (.tensor [Target.id (sliceName 0), value])] ∧ ReadsCells env r 0 cells walk) ∧
  ∀ k, (∃ s ∈ item.statements, OpensCell k s) ↔ 0 < k ∧ k < cells.length

theorem writerItem_walks {inline : Bool} {item : Target.Item}
    (h : writerItem r inline env d = .ok item d') : WriterWalks env r r.plan.root.cells item := by
  simp only [writerItem, run_bind, run_pure] at h
  obtain ⟨shape, _, -, walk, _, hwalk, rfl, -⟩ := h
  have hcells := writeChain_writes hwalk
  refine ⟨⟨shape, walk, rfl, hcells⟩, fun k => ?_⟩
  have hopen : ¬ ∃ s ∈ openRecord shape, Hangs k s := by
    unfold openRecord
    split <;> simp [Hangs, Target.var, Target.assign]
  have hheader : ¬ ∃ s ∈ writeHeader r.plan, Hangs k s := by
    unfold writeHeader
    split <;> simp [Hangs, Target.assign, Target.method]
  have hret : ¬ Hangs k (Target.ret (Target.id "build_0")) := by
    rintro ⟨_, heq⟩
    cases heq
  simp only [Target.Item.statements, Target.Signature.define, List.mem_append, List.mem_singleton,
    or_and_right, exists_or, exists_eq_left, hopen, hheader, hret, hcells.hangs_iff, false_or,
    or_false, Nat.zero_add]

theorem readerItem_walks {name : String} {inline : Bool} {item : Target.Item}
    (h : readerItem r name false inline env d = .ok item d') :
    ReaderWalks env r (r.plan.root.reached r.plan.ops.length) item := by
  simp only [readerItem, Bool.false_eq_true, if_false, run_bind, run_pure] at h
  obtain ⟨shape, _, -, walk, _, hwalk, rfl, -⟩ := h
  have hcells := readChain_reads hwalk
  refine ⟨⟨_, walk, rfl, hcells⟩, fun k => ?_⟩
  have hheader : ¬ ∃ s ∈ readHeader r.plan, OpensCell k s := by
    unfold readHeader
    split <;> simp [OpensCell, Target.throwUnless, Target.var]
  have hret : ∀ e, ¬ OpensCell k (Target.ret e) := by
    rintro e ⟨_, heq⟩
    cases heq
  simp only [Target.Item.statements, Target.Signature.define, List.mem_append, List.mem_singleton,
    or_and_right, exists_or, exists_eq_left, hheader, hret, hcells.opens_iff, false_or, or_false,
    Nat.zero_add]

/-- **Codecs walk along the cells of their plan.** Let the plan of a record pass the check. The writer
stores the operations of every cell in that cell and hangs it from the one before; the reader loads
the operations of every cell up to the last one that holds any, from that cell, and opens no further
one. So it opens all the cells that are hung unless the plan ends, after another cell, with a cell
that holds nothing; a plan of the planner does not. -/
theorem codecs_walk {all : Plans} {typeName name : String} {inline inline' : Bool}
    {writer reader : Target.Item} {d₁ d₁' d₂ d₂' : Draft}
    (hvalid : all.validatePlan typeName r.plan = .ok ())
    (hwriter : writerItem r inline env d₁ = .ok writer d₁')
    (hreader : readerItem r name false inline' env d₂ = .ok reader d₂') :
    WriterWalks env r r.plan.root.cells writer ∧ ReaderWalks env r r.plan.root.used reader ∧
      (∃ n, r.plan.root.cells = r.plan.root.used ++ List.replicate n []) ∧
      ((∀ k, (∃ s ∈ reader.statements, OpensCell k s) ↔ ∃ s ∈ writer.statements, Hangs k s) ↔
        r.plan.root.cells.tail.getLast? ≠ some []) ∧
      (r.plan.root.Full → r.plan.root.used = r.plan.root.cells) := by
  have hflat : r.plan.root.ops = r.plan.ops := by
    by_contra hne
    simp [Plans.validatePlan, hne] at hvalid
  have hwrites := writerItem_walks hwriter
  have hreads : ReaderWalks env r r.plan.root.used reader := by
    have hreads := readerItem_walks hreader
    rwa [← hflat, Chain.reached_length] at hreads
  refine ⟨hwrites, hreads, r.plan.root.exists_cells_eq_used, ?_, fun hfull => hfull.used_eq⟩
  rw [← Chain.length_used_eq_iff]
  simp only [hwrites.2, hreads.2]
  refine ⟨fun h => ?_, fun h k => by rw [h]⟩
  have hused := r.plan.root.length_used_pos
  have hcells := List.length_pos_of_ne_nil r.plan.root.cells_ne_nil
  have hle := h (r.plan.root.used.length)
  have hge := h (r.plan.root.cells.length)
  omega

/-! ### A cell that is never opened -/

/-- A record of one number whose plan has another cell, with nothing in it. -/
def crate : Record where
  name := "Crate"
  fields := [("mark", .plain "Int")]
  bounceCount := 1
  plan := .ofChain none (.link [⟨"mark", .int 257, false⟩] (.last []))
  place := .type "Crate"

/-- The record is declared, and its plan supplied. -/
def crateEnv : Env where
  program :=
    { types := TypeTable.primitives.addType
        (TypeDecl.ofFields .struct "Crate" [⟨"mark", 0, .plain "Int", none, none⟩])
      plans := { types := .ofList [("Crate", crate.plan)] } }
  evaluate := noConstants

theorem exists_crate_codecs : ∃ writer reader d₁ d₂,
    writerItem crate true crateEnv {} = .ok writer d₁ ∧
      readerItem crate (Name.reader "Crate") false true crateEnv {} = .ok reader d₂ :=
  ⟨_, _, _, _, rfl, rfl⟩

theorem crate_walks : crateEnv.program.plans.validatePlan "Crate" crate.plan = .ok () ∧
    ∃ writer reader d₁ d₂, writerItem crate true crateEnv {} = .ok writer d₁ ∧
      readerItem crate (Name.reader "Crate") false true crateEnv {} = .ok reader d₂ ∧
      WriterWalks crateEnv crate [[⟨"mark", .int 257, false⟩], []] writer ∧
      ReaderWalks crateEnv crate [[⟨"mark", .int 257, false⟩]] reader := by
  have hvalid : crateEnv.program.plans.validatePlan "Crate" crate.plan = .ok () := rfl
  obtain ⟨writer, reader, d₁, d₂, hwriter, hreader⟩ := exists_crate_codecs
  obtain ⟨hwrites, hreads, -⟩ := codecs_walk hvalid hwriter hreader
  exact ⟨hvalid, writer, reader, d₁, d₂, hwriter, hreader, hwrites, hreads⟩

/-- The check accepts a plan by which a cell is hung that the reader does not open. -/
theorem crate_walks_apart : crateEnv.program.plans.validate = .ok () ∧
    ∃ writer reader d₁ d₂, writerItem crate true crateEnv {} = .ok writer d₁ ∧
      readerItem crate (Name.reader "Crate") false true crateEnv {} = .ok reader d₂ ∧
      (∃ s ∈ writer.statements, Hangs 1 s) ∧ ¬ ∃ k, ∃ s ∈ reader.statements, OpensCell k s := by
  obtain ⟨writer, reader, d₁, d₂, hwriter, hreader⟩ := exists_crate_codecs
  refine ⟨rfl, writer, reader, d₁, d₂, hwriter, hreader, ?_, ?_⟩
  · exact ((writerItem_walks hwriter).2 1).2 ⟨by decide, by decide⟩
  · rintro ⟨k, hopens⟩
    obtain ⟨hpos, hlt⟩ := ((readerItem_walks hreader).2 k).1 hopens
    have hlength : (crate.plan.root.reached crate.plan.ops.length).length = 1 := rfl
    omega

end CellCompiler
