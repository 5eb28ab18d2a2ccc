import CellCompiler.Proofs.Codec.Link

/-!
# Which functions a registry has

`Links` speaks of code that runs everything that has been entered. A contract may be written out
without the functions that nothing reaches, so here a registry is described by itself, and code by
what it does not have besides.

* `Entered native env r g` says that the registry `r` has the function that the generator `g`
  constructs, and `Only c env g` that the code `c` has no other function under its name;
* `Enters native env g post` is a judgement on generators of whole functions: `post` holds of their
  result and of every registry that extends the one they leave;
* `Readers`, `Converters` and `GetMethods` collect what is entered for a record and for a contract,
  and `compileLibrary_entered` and `compileContract_entered` find it in finished modules.
-/

namespace CellCompiler

open Emission (Entry Registry Section Output)
open Generate Machine

variable {native : Bool} {c : Code} {env : Env} {r r' : Registry} {d d' : Draft}
  {g : Gen Target.Item}

/-- The registry has the function that a generator constructs. -/
def Entered (native : Bool) (env : Env) (r : Registry) (g : Gen Target.Item) : Prop :=
  ∃ d item d', g env d = .ok item d' ∧ d.registry.Sound native ∧ d'.registry.Extends r ∧
    ∀ name, item.name? = some name →
      ∃ entry, r.functions.get? name = some entry ∧ entry.definition = some item

theorem Entered.mono (h : Entered native env r g) (hextends : r.Extends r') :
    Entered native env r' g := by
  obtain ⟨d, item, d', hrun, hsound, hd', hget⟩ := h
  refine ⟨d, item, d', hrun, hsound, hd'.trans hextends, fun name hname => ?_⟩
  obtain ⟨entry, hentry, hdef⟩ := hget name hname
  exact ⟨entry, hextends name entry hentry, hdef⟩

/-- The code has no other function under the name of the one that a generator constructs. -/
def Only (c : Code) (env : Env) (g : Gen Target.Item) : Prop :=
  ∃ d item d', g env d = .ok item d' ∧
    ∀ name, item.name? = some name → ∀ other, c.functions.get? name = some other → other = item

theorem Entered.only (h : Entered native env r g) (hc : Within c r) : Only c env g := by
  obtain ⟨d, item, d', hrun, -, -, hget⟩ := h
  refine ⟨d, item, d', hrun, fun name hname other hother => ?_⟩
  obtain ⟨entry, hentry, hdef⟩ := hget name hname
  obtain ⟨entry', hentry', hdef'⟩ := hc name other hother
  simp_all

/-! ### Generators of whole functions -/

/-- The generator keeps what is registered and the registry sound, and `post` holds of its result
and of every registry that has what has been entered by then. -/
def Enters {α : Type} (native : Bool) (env : Env) (g : Gen α) (post : Registry → α → Prop) : Prop :=
  ∀ d a d', g env d = .ok a d' → d.registry.Sound native →
    d.registry.Extends d'.registry ∧ d'.registry.Sound native ∧
      ∀ r, d'.registry.Extends r → post r a

namespace Enters

variable {α β : Type} {g : Gen α} {k : α → Gen β} {P P' : Registry → α → Prop}
  {Q : Registry → β → Prop}

theorem of_emits {P : α → Prop} (h : Emits native env (fun _ => True) g P) :
    Enters native env g fun _ a => P a := by
  intro d a d' hrun hd
  obtain ⟨hdevelops, hsound, hP⟩ := h d a d' hrun hd
  exact ⟨hdevelops.kept, hsound, fun _ _ => hP⟩

theorem bind (hg : Enters native env g P)
    (hk : ∀ a, Enters native env (k a) fun r b => P r a → Q r b) : Enters native env (g >>= k) Q := by
  intro d b d'' h hd
  obtain ⟨a, d', hrun, hrest⟩ := run_bind.1 h
  obtain ⟨hextends, hsound, hP⟩ := hg d a d' hrun hd
  obtain ⟨hextends', hsound', hQ⟩ := hk a d' b d'' hrest hsound
  exact ⟨hextends.trans hextends', hsound', fun r hr => hQ r hr (hP r (hextends'.trans hr))⟩

theorem mono (hg : Enters native env g P) (h : ∀ r a, P r a → P' r a) : Enters native env g P' := by
  intro d a d' hrun hd
  obtain ⟨hextends, hsound, hP⟩ := hg d a d' hrun hd
  exact ⟨hextends, hsound, fun r hr => h r a (hP r hr)⟩

theorem pure {a : α} (h : ∀ r, P r a) : Enters native env (Pure.pure a) P := by
  intro d b d' hrun hd
  obtain ⟨rfl, rfl⟩ := run_pure.1 hrun
  exact ⟨.refl _, hd, fun r _ => h r⟩

/-- What is known of the first result, whatever is entered later, is a premise of what follows. -/
theorem bind_const {P : α → Prop} (hg : Enters native env g fun _ a => P a)
    (hk : ∀ a, P a → Enters native env (k a) Q) : Enters native env (g >>= k) Q := by
  intro d b d'' h hd
  obtain ⟨a, d', hrun, hrest⟩ := run_bind.1 h
  obtain ⟨hextends, hsound, hP⟩ := hg d a d' hrun hd
  obtain ⟨hextends', hsound', hQ⟩ := hk a (hP _ (.refl _)) d' b d'' hrest hsound
  exact ⟨hextends.trans hextends', hsound', hQ⟩

/-- What follows does not depend on what has been entered before. -/
theorem andThen (hg : Enters native env g P) (hk : ∀ a, Enters native env (k a) Q) :
    Enters native env (g >>= k) Q := hg.bind fun a => (hk a).mono fun _ _ hb _ => hb

/-- A generator that only reads comes first. -/
theorem read_bind {P : α → Prop} (hg : ∀ d a d', g env d = .ok a d' → d' = d ∧ P a)
    (hk : ∀ a, P a → Enters native env (k a) Q) : Enters native env (g >>= k) Q := by
  intro d b d'' h hd
  obtain ⟨a, d', hrun, hrest⟩ := run_bind.1 h
  obtain ⟨rfl, hP⟩ := hg d a d' hrun
  exact hk a hP d' b d'' hrest hd

theorem define_of_emits {place : Section} {construct : Gen Target.Item}
    (h : Emits native env (fun _ => True) (Generate.define place construct) fun _ => True) :
    Enters native env (Generate.define place construct) fun r _ => Entered native env r construct := by
  intro d a d' hrun hd
  obtain ⟨hdevelops, hsound, -⟩ := h d a d' hrun hd
  refine ⟨hdevelops.kept, hsound, fun r hr => ?_⟩
  obtain ⟨item, d₁, hitem, r', hr', rfl⟩ := run_define.1 hrun
  have hentered : Entered native env r' construct :=
    ⟨_, item, d₁, hitem, hd, Registry.register_extends hr', fun name hname =>
      Registry.get?_register hname hr'⟩
  exact hentered.mono hr

theorem define {place : Section} {construct : Gen Target.Item}
    (h : ∀ deps : Deps env, Builds native deps construct (Enterable deps)) :
    Enters native env (Generate.define place construct) fun r _ => Entered native env r construct :=
  define_of_emits (.define h)

theorem forM {f : α → Gen PUnit} {l : List α} {P : Registry → α → Prop}
    (h : ∀ a ∈ l, Enters native env (f a) fun r _ => P r a) :
    Enters native env (l.forM f) fun r _ => ∀ a ∈ l, P r a := by
  induction l with
  | nil => exact pure (by simp)
  | cons a l ih =>
    refine (h a List.mem_cons_self).bind fun _ => ?_
    refine (ih fun x hx => h x (List.mem_cons_of_mem a hx)).mono fun r _ hl ha => ?_
    exact List.forall_mem_cons.2 ⟨ha, hl⟩

theorem mapM {f : α → Gen β} {l : List α} {P : Registry → α → β → Prop}
    (h : ∀ a ∈ l, Enters native env (f a) fun r b => P r a b) :
    Enters native env (l.mapM f) fun r bs => List.Forall₂ (P r) l bs := by
  induction l with
  | nil => exact pure fun _ => .nil
  | cons a l ih =>
    rw [List.mapM_cons]
    refine (h a List.mem_cons_self).bind fun b => ?_
    refine (ih fun x hx => h x (List.mem_cons_of_mem a hx)).bind fun bs => pure ?_
    exact fun r hbs hb => .cons hb hbs

end Enters

/-! ### Records -/

/-- The functions that load a record. -/
structure Readers (P : Gen Target.Item → Prop) (env : Env) (decl : TypeDecl) (r : Record) : Prop where
  record : RecordOf env decl r
  reader : ∃ inline, P (readerItem r (Name.reader r.name) false inline)
  readerNotMut : ∃ inline, P (readerNotMutItem r inline)
  /-- Only messages are loaded after a bounce. -/
  readerBounced : decl.header.isSome = true →
    ∃ inline, P (readerItem r (Name.readerBounced r.name) true inline)
  readerOpt : P (readerOptItem r)
  readerCellOpt : P (readerCellOptItem r)

/-- The functions that box a record and take it from outside. -/
structure Converters (P : Gen Target.Item → Prop) (env : Env) (decl : TypeDecl) (view : RecordView)
    (sh : Layout.Shape) : Prop where
  viewOf : ViewOf env decl view sh
  asOptional : P view.asOptionalItem
  fromExternal : P view.fromExternalItem
  fromOptExternal : P view.fromOptExternalItem

theorem Readers.mono {P Q : Gen Target.Item → Prop} {decl : TypeDecl} {r : Record}
    (h : Readers P env decl r) (hPQ : ∀ g, P g → Q g) : Readers Q env decl r :=
  ⟨h.record, h.reader.imp fun _ => hPQ _, h.readerNotMut.imp fun _ => hPQ _,
    fun hheader => (h.readerBounced hheader).imp fun _ => hPQ _, hPQ _ h.readerOpt,
    hPQ _ h.readerCellOpt⟩

theorem Converters.mono {P Q : Gen Target.Item → Prop} {decl : TypeDecl} {view : RecordView}
    {sh : Layout.Shape} (h : Converters P env decl view sh) (hPQ : ∀ g, P g → Q g) :
    Converters Q env decl view sh :=
  ⟨h.viewOf, hPQ _ h.asOptional, hPQ _ h.fromExternal, hPQ _ h.fromOptExternal⟩

theorem emitReader_enters {r : Record} : Enters native env (emitReader r false) fun reg _ =>
    (∃ inline, Entered native env reg (readerItem r (Name.reader r.name) false inline)) ∧
      ∃ inline, Entered native env reg (readerNotMutItem r inline) := by
  refine .read_bind (fun _ _ _ => isSmall_eq_ok) fun inline _ => ?_
  refine (Enters.define fun _ => readerItem_builds (Name.isConstructed_ofType _ _)).bind fun _ => ?_
  refine (Enters.define fun _ => readerNotMutItem_builds).mono fun _ _ hnotMut hreader => ?_
  exact ⟨⟨_, hreader⟩, _, hnotMut⟩

theorem emitBouncedReader_enters {r : Record} :
    Enters native env (emitBouncedReader r false) fun reg _ =>
      ∃ inline, Entered native env reg (readerItem r (Name.readerBounced r.name) true inline) := by
  refine .read_bind (fun _ _ _ => isSmall_eq_ok) fun inline _ => ?_
  exact (Enters.define fun _ => readerItem_builds (Name.isConstructed_ofType _ _)).mono
    fun _ _ h => ⟨_, h⟩

theorem emitOptionalCodecs_enters {r : Record} :
    Enters native env (emitOptionalCodecs r) fun reg _ =>
      Entered native env reg (readerOptItem r) ∧ Entered native env reg (readerCellOptItem r) := by
  refine (Enters.define fun _ => writerOptItem_builds).andThen fun _ => ?_
  refine (Enters.define fun _ => writerCellOptItem_builds).andThen fun _ => ?_
  refine (Enters.define fun _ => readerOptItem_builds).bind fun _ => ?_
  exact (Enters.define fun _ => readerCellOptItem_builds).mono fun _ _ hcell hopt => ⟨hopt, hcell⟩

theorem emitCodecs_enters {decl : TypeDecl} : Enters native env (emitCodecs decl) fun reg _ =>
    ∃ r, Readers (Entered native env reg) env decl r := by
  refine .read_bind (fun _ _ _ => ofDecl_eq_ok) fun r hr => ?_
  refine (Enters.of_emits emitWriter_emits).andThen fun _ => emitReader_enters.bind fun _ => ?_
  split
  · refine emitBouncedReader_enters.bind fun _ => emitOptionalCodecs_enters.mono ?_
    rintro reg _ ⟨hopt, hcell⟩ hbounced ⟨hreader, hnotMut⟩
    exact ⟨r, hr, hreader, hnotMut, fun _ => hbounced, hopt, hcell⟩
  · next hheader =>
    refine emitOptionalCodecs_enters.mono ?_
    rintro reg _ ⟨hopt, hcell⟩ ⟨hreader, hnotMut⟩
    exact ⟨r, hr, hreader, hnotMut, fun h => absurd h hheader, hopt, hcell⟩

theorem emitAccessors_enters {decl : TypeDecl} : Enters native env (emitAccessors decl) fun reg _ =>
    ∃ view sh, Converters (Entered native env reg) env decl view sh := by
  refine .read_bind (fun _ _ _ => recordView_eq_ok) fun view ⟨hview, sh, hsh⟩ => ?_
  have hgetters : Emits native env (fun _ => True) (emitGetters view) fun _ => True :=
    Emits.forM fun field _ => .define fun _ => getterItem_builds hview
  refine (Enters.of_emits hgetters).andThen fun _ => ?_
  refine (Enters.of_emits (.define fun _ => .pure tensorCastItem_enterable)).andThen fun _ => ?_
  refine (Enters.define fun _ => notNullItem_builds hview).andThen fun _ => ?_
  refine (Enters.define fun _ => asOptionalItem_builds hview).bind fun _ => ?_
  refine (Enters.define fun _ => toTupleItem_builds hview).andThen fun _ => ?_
  refine (Enters.define fun _ => toOptTupleItem_builds).andThen fun _ => ?_
  refine (Enters.define fun _ => fromTupleItem_builds).andThen fun _ => ?_
  refine (Enters.define fun _ => fromOptTupleItem_builds).andThen fun _ => ?_
  refine (Enters.define fun _ => toExternalItem_builds hview).andThen fun _ => ?_
  refine (Enters.define fun _ => toOptExternalItem_builds).andThen fun _ => ?_
  refine (Enters.define fun _ => fromExternalItem_builds).bind fun _ => ?_
  refine (Enters.define fun _ => fromOptExternalItem_builds).mono ?_
  exact fun reg _ hopt hfrom has => ⟨view, sh, hsh, has, hfrom, hopt⟩

/-- Everything that is entered for a record. -/
def Conversions (P : Gen Target.Item → Prop) (env : Env) (decl : TypeDecl) : Prop :=
  (∃ r, Readers P env decl r) ∧ ∃ view sh, Converters P env decl view sh

theorem emitShared_enters : Enters true env emitShared fun reg _ =>
    ∀ decl ∈ env.program.types.structs, Conversions (Entered true env reg) env decl := by
  have htable : ∀ d t d', table env d = .ok t d' → d' = d ∧ t = env.program.types := by
    intro d t d' h
    simp only [table, run_bind, run_read, run_pure] at h
    obtain ⟨_, _, ⟨rfl, rfl⟩, rfl, rfl⟩ := h
    exact ⟨rfl, rfl⟩
  refine .read_bind htable fun t ht => ?_
  subst ht
  have hstruct : ∀ decl ∈ env.program.types.structs, Enters true env (emitStruct decl) fun reg _ =>
      Conversions (Entered true env reg) env decl := fun decl _ =>
    emitCodecs_enters.bind fun _ => emitAccessors_enters.mono fun _ _ hviews hcodecs =>
      ⟨hcodecs, hviews⟩
  refine (Enters.forM hstruct).bind fun _ => ?_
  refine (Enters.of_emits (Emits.forM fun f hf => emitFunction_emits (.inl hf))).andThen fun _ => ?_
  refine (Enters.of_emits (Emits.forM fun decl hdecl => Emits.forM fun f hf =>
    emitFunction_emits (.inr ⟨decl, List.mem_of_mem_filter hdecl, hf⟩))).andThen fun _ => ?_
  exact (Enters.of_emits (Emits.forM fun decl _ => emitChildSupport_emits)).mono
    fun _ _ _ hstructs => hstructs

/-! ### Contracts -/

/-- The get-methods of a contract, all of which can be called from outside. -/
structure GetMethods (env : Env) (reg : Registry) (contract : TypeDecl) (roots : List String) :
    Prop where
  isContract : contract.isContract = true
  entered : ∀ f ∈ contract.getters, Entered true env reg (getMethodItem contract f)
  mem_roots : ∀ f ∈ contract.getters, Name.getterMethod f.name ∈ roots

theorem emitGetMethod_enters {contract : TypeDecl} {f : Function}
    (hf : env.program.types.HasFunction f) :
    Enters true env (emitGetMethod contract f) fun reg name =>
      Entered true env reg (getMethodItem contract f) ∧ name = Name.getterMethod f.name := by
  unfold emitGetMethod
  split
  · exact fun _ _ _ h => absurd h run_throw
  · exact (Enters.define fun _ => getMethodItem_builds hf).bind fun _ => .pure fun _ h => ⟨h, rfl⟩

/-- What a contract is written out with. -/
theorem emitContract_enters {contract : TypeDecl}
    (hmem : contract ∈ env.program.types.types.values) :
    Enters true env (emitContract contract) fun reg roots => GetMethods env reg contract roots := by
  have hgetter : ∀ f ∈ contract.getters, env.program.types.HasFunction f := fun f hf =>
    .inr ⟨contract, hmem, (List.mem_filter.1 hf).1⟩
  have hrest : contract.isContract = true → Enters true env (do
      declareContext
      emitStateCodecs contract
      contract.functions.values.forM emitFunction
      emitState contract
      let handlers ← contract.receivers.mapM (emitReceiver contract)
      let entryPoints ← emitEntryPoints contract handlers
      let getMethods ← contract.getters.mapM (emitGetMethod contract)
      return entryPoints ++ getMethods) fun reg roots => GetMethods env reg contract roots := by
    intro hcontract
    refine (Enters.of_emits (.of_builds fun _ => declareContext_builds)).andThen fun _ => ?_
    refine (Enters.of_emits emitStateCodecs_emits).andThen fun _ => ?_
    refine (Enters.of_emits (.forM fun f hf =>
      emitFunction_emits (.inr ⟨contract, hmem, hf⟩))).andThen fun _ => ?_
    refine (Enters.of_emits emitState_emits.forget).andThen fun _ => ?_
    refine (Enters.of_emits (.mapM fun receiver _ => emitReceiver_emits)).bind_const
      fun handlers hmentions => ?_
    refine (Enters.of_emits (emitEntryPoints_emits hmentions).forget).andThen fun entryPoints => ?_
    refine (Enters.mapM fun f hf => emitGetMethod_enters (hgetter f hf)).bind fun getMethods => .pure ?_
    intro reg hall
    have hmem : ∀ f ∈ contract.getters, Entered true env reg (getMethodItem contract f) ∧
        Name.getterMethod f.name ∈ getMethods := by
      generalize contract.getters = functions at hall ⊢
      induction hall with
      | nil => simp
      | cons hf _ ih =>
        rw [List.forall_mem_cons]
        refine ⟨⟨hf.1, hf.2 ▸ List.mem_cons_self⟩, fun f hmem => ?_⟩
        exact (ih f hmem).imp_right (List.mem_cons_of_mem _)
    exact ⟨hcontract, fun f hf => (hmem f hf).1, fun f hf => List.mem_append_right _ (hmem f hf).2⟩
  have hread : ∀ d e d', (read : Gen Env) env d = .ok e d' → d' = d ∧ True := by
    intro d e d' h
    exact ⟨(run_read.1 h).2.symm, trivial⟩
  unfold emitContract
  split
  · exact fun d _ _ h => absurd (run_bind.1 h).choose_spec.choose_spec.1 run_throw
  · next hcontract =>
    refine .read_bind hread fun e _ => ?_
    have hrest := hrest (by simpa using hcontract)
    split
    · exact (Enters.of_emits (.of_builds fun _ => addHeader_builds)).andThen fun _ => hrest
    · exact hrest

/-! ### Finished modules -/

theorem run_eq_ok {α : Type} {g : Gen α} {a : α} {reg : Registry}
    (h : Generate.run env g = .ok (a, reg)) : ∃ d, g env {} = .ok a d ∧ d.registry = reg := by
  unfold Generate.run at h
  split at h
  · next d hrun =>
    obtain ⟨rfl, hreg⟩ : _ = a ∧ d.registry = reg := by simpa using h
    exact ⟨d, hrun, hreg⟩
  · simp at h

/-- A library has nothing but what has been entered. -/
theorem compileLibrary_entered {out : Output} (h : compileLibrary env = .ok out) :
    ∃ reg, reg.Sound true ∧ Within (Code.ofOutput out) reg ∧
      ∀ decl ∈ env.program.types.structs, Conversions (Entered true env reg) env decl := by
  simp only [compileLibrary, Except.bind_eq_ok] at h
  obtain ⟨⟨⟨⟩, reg⟩, hrun, hout⟩ := h
  obtain ⟨d, hshared, rfl⟩ := run_eq_ok hrun
  obtain ⟨-, hsound, hentered⟩ := emitShared_enters _ _ _ hshared Registry.sound_empty
  obtain ⟨order, -, -, rfl⟩ := Registry.finalize_eq_ok hout
  exact ⟨d.registry, hsound, output_within hsound.filed order, hentered _ (.refl _)⟩

/-- A contract has nothing but what has been entered, and all that can be called from outside. -/
theorem compileContract_entered {contract : String} {out : Output}
    (h : compileContract env contract = .ok out) :
    ∃ reg, reg.Sound true ∧ Within (Code.ofOutput out) reg ∧
      (∀ decl ∈ env.program.types.structs, Conversions (Entered true env reg) env decl) ∧
      ∃ decl roots, env.program.types.types.get? contract = some decl ∧
        GetMethods env reg decl roots ∧ ∀ name ∈ roots, ∀ entry item,
          reg.functions.get? name = some entry → entry.definition = some item →
            (Code.ofOutput out).functions.get? name = some item := by
  simp only [compileContract, Except.bind_eq_ok, Layout.declOf_eq_ok] at h
  obtain ⟨decl, hdecl, ⟨roots, reg⟩, hrun, hout⟩ := h
  obtain ⟨d, hall, rfl⟩ := run_eq_ok hrun
  have henters : Enters true env (do emitShared; emitContract decl) fun reg roots =>
      (∀ decl ∈ env.program.types.structs, Conversions (Entered true env reg) env decl) ∧
        GetMethods env reg decl roots :=
    emitShared_enters.bind fun _ => (emitContract_enters (Dict.mem_values_of_get? hdecl)).mono fun _ _ hmethods hstructs =>
      ⟨hstructs, hmethods⟩
  obtain ⟨-, hsound, hentered⟩ := henters _ _ _ hall Registry.sound_empty
  obtain ⟨hstructs, hmethods⟩ := hentered _ (.refl _)
  obtain ⟨order, hroots, rfl⟩ : ∃ order, (∀ name ∈ roots, d.registry.has name = true →
      name ∈ order) ∧ out = d.registry.output order := by
    split at hout
    · obtain ⟨order, -, hsort, rfl⟩ := Registry.finalizeReachable_eq_ok hout
      refine ⟨order, fun name hname hhas => (Registry.sort_ordered hsort).2 name ?_, rfl⟩
      have hkey := Dict.mem_keys_iff.2 (Dict.contains_eq_true_iff.1 hhas)
      exact List.mem_filter.2 ⟨hkey, by simpa using hname⟩
    · obtain ⟨order, -, hsort, rfl⟩ := Registry.finalize_eq_ok hout
      refine ⟨order, fun name _ hhas => (Registry.sort_ordered hsort).2 name ?_, rfl⟩
      exact Dict.mem_keys_iff.2 (Dict.contains_eq_true_iff.1 hhas)
  refine ⟨d.registry, hsound, output_within hsound.filed order, hstructs, decl, roots, hdecl, hmethods,
    fun name hname entry item hget hdef => ?_⟩
  obtain rfl : entry.name = name := hsound.filed name entry hget
  refine get?_ofOutput hsound.filed ?_ hdef
  have hkind : entry.kind ≠ .skip := by
    cases hsound.entries _ entry hget with
    | skipped _ => simp [Entry.skipped] at hdef
    | defined _ hkind _ _ => exact hkind
  simp only [Registry.output, List.mem_filter, List.mem_filterMap, bne_iff_ne, ne_eq, hkind,
    not_false_eq_true, and_true]
  exact ⟨entry.name, hroots _ hname (Dict.contains_eq_true_iff.2 ⟨entry, hget⟩), hget⟩

end CellCompiler
