import CellCompiler.Compile
import CellCompiler.Proofs.Generate.Contracts
import CellCompiler.Proofs.Layout
import CellCompiler.Proofs.Machine.Helpers
import CellCompiler.Proofs.Plan.Growth

/-!
# From generators to running code

A finished module runs the functions that generators have entered.

* `Backs c r` says that the code `c` runs every function of the registry `r`, and `Underlies c r` that
  it also has all the helpers: none has been left to the target's own library. Registries only grow, so
  both pass from a registry to all earlier ones;
* `Runs c env g` says that `c` runs the function that the generator `g` constructs, and
  `Helps` that it runs a helper;
* `Links c env g post` is a judgement on generators of whole functions: if the code underlies the registry
  in the end, then `post` holds;
* `Supports c env decl` collects what `c` runs for a record, and `compileLibrary_supports` shows that
  a compiled library runs it for every record.
-/

namespace CellCompiler

open Emission (Entry Registry Section Output)
open Generate Machine

variable {c : Code} {env : Env} {d d' : Draft}

namespace Emission

/-! ### Entries of a registry -/

theorem Entry.Sound.weaken {native : Bool} {entry : Entry} (h : entry.Sound native) :
    entry.Sound true := by
  cases h with
  | skipped _ => exact .skipped (.inl rfl)
  | defined hname hkind hpermitted hcalls => exact .defined hname hkind hpermitted hcalls

theorem Registry.Sound.weaken {native : Bool} {r : Registry} (h : r.Sound native) : r.Sound true :=
  ⟨h.filed, fun name entry hget => (h.entries name entry hget).weaken, h.verified, h.declared, h.globals⟩

/-- A function is entered under a new name. -/
theorem Registry.register_eq_ok {r r' : Registry} {item : Target.Item} {place : Section}
    {depends : NameSet} {name : String} (hname : item.name? = some name)
    (h : r.register item place depends = .ok r') :
    ∃ entry, entry.definition = some item ∧ r.functions.get? name = none ∧
      r' = { r with functions := r.functions.insertNew name entry } := by
  simp only [register, Except.bind_eq_ok] at h
  obtain ⟨entry, hentry, h⟩ := h
  split at h
  · simp at h
  · next hnew =>
    obtain rfl := Except.pure_eq_ok.1 h
    obtain ⟨rfl, hitem⟩ : entry.name = name ∧ entry.definition = some item := by
      cases item with
      | function s body | declaration s | asm s code =>
        simp only [Target.Item.name?, Option.some.injEq] at hname
        simp only [entryOf, Except.ok.injEq] at hentry
        subst hname hentry
        exact ⟨rfl, rfl⟩
      | _ => simp [entryOf] at hentry
    refine ⟨entry, hitem, ?_, rfl⟩
    rw [← Dict.contains_eq_false_iff]
    simpa [has] using hnew

/-- The item can be found under its name. -/
theorem Registry.get?_register {r r' : Registry} {item : Target.Item} {place : Section}
    {depends : NameSet} {name : String} (hname : item.name? = some name)
    (h : r.register item place depends = .ok r') :
    ∃ entry, r'.functions.get? name = some entry ∧ entry.definition = some item := by
  obtain ⟨entry, hitem, hnone, rfl⟩ := register_eq_ok hname h
  exact ⟨entry, by simp [Dict.get?_insertNew, hnone], hitem⟩

end Emission

/-! ### Code that backs a registry -/

/-- The name is one that helpers have. Operations on dictionaries are left out. -/
def Helper.isOwn (name : String) : Bool :=
  !dictionaryStart.toList.isPrefixOf name.toList &&
    ((named.lookup name).isSome || "__tact_tuple_create_".toList.isPrefixOf name.toList ||
      "__tact_tuple_destroy_".toList.isPrefixOf name.toList)

theorem Helper.isOwn_tupleCreateName {n : Nat} : isOwn (tupleCreateName n) = true := by
  have heq : tupleCreateName n = "__tact_tuple_create_" ++ n.repr := rfl
  simp [heq, isOwn, dictionaryStart, List.isPrefixOf]

theorem Helper.isOwn_tupleDestroyName {n : Nat} : isOwn (tupleDestroyName n) = true := by
  have heq : tupleDestroyName n = "__tact_tuple_destroy_" ++ n.repr := rfl
  simp [heq, isOwn, dictionaryStart, List.isPrefixOf]

/-- None of the helpers in the registry has been left to the target's own library. -/
def Emission.Registry.OwnsHelpers (r : Registry) : Prop :=
  ∀ name entry, r.functions.get? name = some entry → Helper.isOwn name = true →
    entry.definition.isSome = true

theorem Emission.Registry.Sound.ownsHelpers {r : Registry} (h : r.Sound false) : r.OwnsHelpers := by
  intro name entry hget hown
  have hfiled := h.filed name entry hget
  cases h.entries name entry hget with
  | skipped hskip =>
    obtain rfl : _ = name := hfiled
    have hdict : Helper.isDictionary _ = true := hskip.resolve_left (by simp)
    simp only [Helper.isDictionary, Plan.dropStart?, Bool.and_eq_true] at hdict
    simp only [Helper.isOwn, Bool.and_eq_true, Bool.not_eq_true', Entry.skipped] at hown
    rw [hown.1] at hdict
    simp at hdict
  | defined => rfl

/-- The code runs every function of the registry. -/
def Backs (c : Code) (r : Registry) : Prop :=
  ∀ name entry item, r.functions.get? name = some entry → entry.definition = some item →
    c.functions.get? name = some item

/-- The code runs every function of the registry, which owns its helpers. -/
structure Underlies (c : Code) (r : Registry) : Prop where
  backs : Backs c r
  owns : r.OwnsHelpers

theorem Backs.mono {r r' : Registry} (h : Backs c r') (hextends : r.Extends r') : Backs c r :=
  fun name entry item hget hitem => h name entry item (hextends name entry hget) hitem

theorem Underlies.mono {r r' : Registry} (h : Underlies c r') (hextends : r.Extends r') : Underlies c r :=
  ⟨h.backs.mono hextends, fun name entry hget => h.owns name entry (hextends name entry hget)⟩

/-- The code runs the function that a generator constructs. -/
def Runs (c : Code) (env : Env) (g : Gen Target.Item) : Prop :=
  ∃ d item d', g env d = .ok item d' ∧ d.registry.Sound true ∧ Underlies c d'.registry ∧
    ∀ name, item.name? = some name → c.functions.get? name = some item

/-! ### Helpers -/

namespace Helper

theorem dropStart?_append {start rest : String} :
    Plan.dropStart? start (start ++ rest) = some rest := by
  simp [Plan.dropStart?]

theorem arity?_append {start : String} {n m : Nat} (h : arity? start (start ++ n.repr) = some m) :
    m = n ∧ n < UInt64.size := by
  rw [arity?, dropStart?_append] at h
  dsimp only at h
  cases hread : Numeral.readNat UInt64.size n.repr with
  | error e => simp [hread, Except.toOption] at h
  | ok k =>
    obtain rfl : k = m := by simpa [hread, Except.toOption] using h
    exact (Numeral.readNat_repr (by decide)).1 hread

/-- Helpers with fixed names are not about tuples. -/
theorem not_mem_named {name : String} {h : Helper} (hname : "__tact_tuple_".toList <+: name.toList) :
    named.lookup name ≠ some h := by
  intro hlookup
  have hall : ∀ p ∈ named, ¬ "__tact_tuple_".toList <+: p.1.toList := by decide +kernel
  exact hall (name, h) (Dict.mem_entries_of_get? (d := ⟨named⟩) hlookup) hname

theorem ofName?_tupleCreateName {n : Nat} {h : Helper} (hname : ofName? (tupleCreateName n) = some h) :
    h = tupleCreate n ∧ n < UInt64.size := by
  have heq : tupleCreateName n = "__tact_tuple_create_" ++ n.repr := rfl
  rw [heq, ofName?] at hname
  split at hname
  · next m hm =>
    obtain ⟨rfl, hlt⟩ := arity?_append hm
    exact ⟨by simpa [eq_comm] using hname, hlt⟩
  · split at hname
    · next m hm =>
      have hpre := prefix_of_arity? hm
      simp at hpre
    · exact absurd hname (not_mem_named (by simp))

theorem ofName?_tupleDestroyName {n : Nat} {h : Helper}
    (hname : ofName? (tupleDestroyName n) = some h) : h = tupleDestroy n ∧ n < UInt64.size := by
  have heq : tupleDestroyName n = "__tact_tuple_destroy_" ++ n.repr := rfl
  rw [heq, ofName?] at hname
  split at hname
  · next m hm =>
    have hpre := prefix_of_arity? hm
    simp at hpre
  · split at hname
    · next m hm =>
      obtain ⟨rfl, hlt⟩ := arity?_append hm
      exact ⟨by simpa [eq_comm] using hname, hlt⟩
    · exact absurd hname (not_mem_named (by simp))

theorem isEmitted_tupleCreateName {n : Nat} : Name.isEmitted (tupleCreateName n) = false := by
  have heq : tupleCreateName n = "__tact_tuple_create_" ++ n.repr := rfl
  simp [heq, Name.isEmitted, Name.recvInternal, Name.recvExternal, List.isPrefixOf,
    ← String.toList_inj]

theorem isEmitted_tupleDestroyName {n : Nat} : Name.isEmitted (tupleDestroyName n) = false := by
  have heq : tupleDestroyName n = "__tact_tuple_destroy_" ++ n.repr := rfl
  simp [heq, Name.isEmitted, Name.recvInternal, Name.recvExternal, List.isPrefixOf,
    ← String.toList_inj]

end Helper

theorem ensureHelper_has {name : String} (h : ensureHelper name env d = .ok () d') :
    ∃ entry, d'.registry.functions.get? name = some entry := by
  have hregister : ∀ {h : Helper} {depends : NameSet} {d₁ d₂ : Draft},
      register (h.item name) .stdlib depends env d₁ = .ok () d₂ →
        ∃ entry, d₂.registry.functions.get? name = some entry := by
    intro h depends d₁ d₂ hrun
    simp only [register, run_bind, run_get, run_ofExcept, run_modify] at hrun
    obtain ⟨_, _, ⟨rfl, rfl⟩, r, _, ⟨hr, rfl⟩, rfl⟩ := hrun
    obtain ⟨entry, hentry, -⟩ := Registry.get?_register name?_item hr
    exact ⟨entry, hentry⟩
  have henter : ∀ {h : Helper} {d₁ : Draft},
      (if h.verifies then do
        ensureVerifyAddress
        register (h.item name) .stdlib (.ofList [Helper.verifyAddressName])
      else register (h.item name) .stdlib .empty) env d₁ = .ok () d' →
      ∃ entry, d'.registry.functions.get? name = some entry := by
    intro h d₁ hrun
    split at hrun
    · obtain ⟨_, _, -, hrun⟩ := run_bind.1 hrun
      exact hregister hrun
    · exact hregister hrun
  simp only [ensureHelper, Generate.has, run_bind, run_get, run_pure] at h
  obtain ⟨known, _, ⟨_, _, ⟨rfl, rfl⟩, rfl, rfl⟩, h⟩ := h
  split at h
  · next hknown =>
    obtain ⟨-, rfl⟩ := run_pure.1 h
    exact Dict.contains_eq_true_iff.1 hknown
  · split at h
    · simp only [skip, onRegistry, run_bind, run_modify, run_pure] at h
      obtain ⟨_, _, rfl, -, rfl⟩ := h
      rw [← Dict.contains_eq_true_iff, Dict.contains, Registry.skip, Dict.get?_insertNew]
      simp
    · cases hof : Helper.ofName? name with
      | none =>
        rw [hof] at h
        split at h
        · obtain ⟨_, _, -, h⟩ := run_bind.1 h
          exact absurd h run_throw
        · exact absurd h run_throw
      | some helper =>
        rw [hof] at h
        split at h
        · obtain ⟨_, _, -, h⟩ := run_bind.1 h
          exact henter h
        · exact henter h

/-- What is entered under a name that belongs to a helper is that helper. -/
theorem helps_of_entered {r : Registry} {name : String} (hsound : r.Sound true)
    (hback : Underlies c r) (hhas : ∃ entry, r.functions.get? name = some entry)
    (hname : Name.isEmitted name = false) (hown : Helper.isOwn name = true) :
    ∃ helper, Helper.ofName? name = some helper ∧ c.Helps name helper := by
  obtain ⟨entry, hentry⟩ := hhas
  have hfiled := hsound.filed name entry hentry
  have hdefined := hback.owns name entry hentry hown
  cases hsound.entries name entry hentry with
  | skipped _ => simp [Entry.skipped] at hdefined
  | defined _ _ hpermitted _ =>
    obtain rfl := hfiled
    rcases hpermitted with hemitted | ⟨helper, hhelper, rfl⟩
    · simp_all
    · exact ⟨helper, hhelper, hback.backs _ _ _ hentry rfl⟩

theorem helper_entered {name n : String} (h : helper name env d = .ok n d')
    (hsound : d.registry.Sound true) :
    n = name ∧ d'.registry.Sound true ∧ ∃ entry, d'.registry.functions.get? name = some entry := by
  obtain ⟨⟨⟩, d₁, hensure, hused⟩ := run_bind.1 h
  have hbuilds : Builds true (⟨fun _ => True, fun _ => True⟩ : Deps env) (ensureHelper name)
      fun _ => True := ensureHelper_builds
  have hsound₁ := (hbuilds d () d₁ hensure hsound).2.1
  simp only [used, run_bind, run_modify, run_pure] at hused
  obtain ⟨_, _, rfl, rfl, rfl⟩ := hused
  obtain ⟨entry, hentry⟩ := ensureHelper_has hensure
  exact ⟨rfl, hsound₁, entry, hentry⟩

/-- **Helpers run.** A helper that a generator calls is in the code. -/
theorem helper_helps {name n : String} (h : helper name env d = .ok n d')
    (hsound : d.registry.Sound true) (hback : Underlies c d'.registry)
    (hname : Name.isEmitted name = false) (hown : Helper.isOwn name = true) :
    n = name ∧ ∃ helper, Helper.ofName? name = some helper ∧ c.Helps name helper := by
  obtain ⟨rfl, hsound', hhas⟩ := helper_entered h hsound
  exact ⟨rfl, helps_of_entered hsound' hback hhas hname hown⟩

/-- The check of addresses runs if a helper that a generator calls needs it. -/
theorem helper_verifies {name n : String} {helps : Helper} (h : helper name env d = .ok n d')
    (hsound : d.registry.Sound true) (hback : Underlies c d'.registry)
    (hname : Helper.ofName? name = some helps) (hverifies : helps.verifies = true) :
    c.Helps Helper.verifyAddressName .verifyAddress := by
  obtain ⟨-, hsound', entry, hentry⟩ := helper_entered h hsound
  have hown : Helper.isOwn name = true := by
    rcases Helper.eq_of_verifies hname hverifies with rfl | rfl <;> decide
  have hdefined := hback.owns name entry hentry hown
  have hverify := hsound'.verified name helps entry hentry hdefined hname hverifies
  obtain ⟨helper, hof, hhelps⟩ := helps_of_entered hsound' hback
    (Dict.contains_eq_true_iff.1 hverify) (by decide) (by decide)
  obtain rfl : Helper.verifyAddress = helper := by
    have hname : Helper.ofName? Helper.verifyAddressName = some .verifyAddress := by decide
    simpa [hname] using hof
  exact hhelps

theorem helper_tupleCreate {n : Nat} {name : String}
    (h : helper (Helper.tupleCreateName n) env d = .ok name d') (hsound : d.registry.Sound true)
    (hback : Underlies c d'.registry) :
    name = Helper.tupleCreateName n ∧ n < UInt64.size ∧ c.Helps name (.tupleCreate n) := by
  obtain ⟨rfl, helper, hof, hhelps⟩ :=
    helper_helps h hsound hback Helper.isEmitted_tupleCreateName Helper.isOwn_tupleCreateName
  obtain ⟨rfl, hlt⟩ := Helper.ofName?_tupleCreateName hof
  exact ⟨rfl, hlt, hhelps⟩

theorem helper_tupleDestroy {n : Nat} {name : String}
    (h : helper (Helper.tupleDestroyName n) env d = .ok name d') (hsound : d.registry.Sound true)
    (hback : Underlies c d'.registry) :
    name = Helper.tupleDestroyName n ∧ n < UInt64.size ∧ c.Helps name (.tupleDestroy n) := by
  obtain ⟨rfl, helper, hof, hhelps⟩ :=
    helper_helps h hsound hback Helper.isEmitted_tupleDestroyName Helper.isOwn_tupleDestroyName
  obtain ⟨rfl, hlt⟩ := Helper.ofName?_tupleDestroyName hof
  exact ⟨rfl, hlt, hhelps⟩

/-! ### Generators of whole functions -/

/-- The generator keeps what is registered and the registry sound, and `post` holds of the code if
it underlies the registry in the end. -/
def Links {α : Type} (c : Code) (env : Env) (g : Gen α) (post : Prop) : Prop :=
  ∀ d a d', g env d = .ok a d' → d.registry.Sound true →
    d.registry.Extends d'.registry ∧ d'.registry.Sound true ∧ (Underlies c d'.registry → post)

namespace Links

variable {α β : Type} {g : Gen α} {k : α → Gen β} {post more : Prop}

theorem of_emits_special {special : Target.Item → Prop} {P : α → Prop}
    (h : Emits true env special g P) : Links c env g True := by
  intro d a d' hrun hd
  obtain ⟨hdevelops, hsound, -⟩ := h d a d' hrun hd
  exact ⟨hdevelops.kept, hsound, fun _ => trivial⟩

theorem of_emits {P : α → Prop} (h : Emits true env (fun _ => False) g P) : Links c env g True :=
  of_emits_special h

theorem andThen (hg : Links c env g post) (hk : ∀ a, Links c env (k a) more) :
    Links c env (g >>= k) (post ∧ more) := by
  intro d b d'' h hd
  obtain ⟨a, d', hrun, hrest⟩ := run_bind.1 h
  obtain ⟨hextends, hsound, hpost⟩ := hg d a d' hrun hd
  obtain ⟨hextends', hsound', hmore⟩ := hk a d' b d'' hrest hsound
  exact ⟨hextends.trans hextends', hsound', fun hback => ⟨hpost (hback.mono hextends'), hmore hback⟩⟩

/-- What comes after a generator may depend on the value that it has given. -/
theorem emits_bind {special : Target.Item → Prop} {P : α → Prop} (hg : Emits true env special g P)
    (hk : ∀ a d d', g env d = .ok a d' → P a → Links c env (k a) post) :
    Links c env (g >>= k) post := by
  intro d b d'' h hd
  obtain ⟨a, d', hrun, hrest⟩ := run_bind.1 h
  obtain ⟨hdevelops, hsound, hP⟩ := hg d a d' hrun hd
  obtain ⟨hextends, hsound', hpost⟩ := hk a d d' hrun hP d' b d'' hrest hsound
  exact ⟨hdevelops.kept.trans hextends, hsound', hpost⟩

/-- A generator that only reads comes first. -/
theorem read_bind {P : α → Prop} (hg : ∀ d a d', g env d = .ok a d' → d' = d ∧ P a)
    (hk : ∀ a, P a → Links c env (k a) post) : Links c env (g >>= k) post := by
  intro d b d'' h hd
  obtain ⟨a, d', hrun, hrest⟩ := run_bind.1 h
  obtain ⟨rfl, hP⟩ := hg d a d' hrun
  exact hk a hP d' b d'' hrest hd

theorem mono (hg : Links c env g post) (h : post → more) : Links c env g more := by
  intro d a d' hrun hd
  obtain ⟨hextends, hsound, hpost⟩ := hg d a d' hrun hd
  exact ⟨hextends, hsound, fun hback => h (hpost hback)⟩

/-- A function that is entered runs. -/
theorem define_special {special : Target.Item → Prop} {place : Section} {construct : Gen Target.Item}
    (h : Emits true env special (Generate.define place construct) fun _ => True) :
    Links c env (Generate.define place construct) (Runs c env construct) := by
  intro d a d' hrun hd
  obtain ⟨hdevelops, hsound, -⟩ := h d a d' hrun hd
  refine ⟨hdevelops.kept, hsound, fun hback => ?_⟩
  obtain ⟨item, d₁, hitem, r, hr, rfl⟩ := run_define.1 hrun
  refine ⟨_, item, d₁, hitem, hd, hback.mono (Registry.register_extends hr), fun name hname => ?_⟩
  obtain ⟨entry, hentry, hdef⟩ := Registry.get?_register hname hr
  exact hback.backs name entry item hentry hdef

theorem define {place : Section} {construct : Gen Target.Item}
    (h : ∀ deps : Deps env, Builds true deps construct (Enterable deps)) :
    Links c env (Generate.define place construct) (Runs c env construct) := by
  have hemits : Emits true env (fun _ => False) (Generate.define place construct) fun _ => True := .define h
  exact .define_special hemits

theorem forM {f : α → Gen PUnit} {l : List α} {P : α → Prop} (h : ∀ a ∈ l, Links c env (f a) (P a)) :
    Links c env (l.forM f) (∀ a ∈ l, P a) := by
  induction l with
  | nil =>
    intro d a d' hrun hd
    obtain ⟨-, rfl⟩ := run_pure.1 hrun
    exact ⟨.refl _, hd, fun _ => by simp⟩
  | cons a l ih =>
    have hrest := ih fun x hx => h x (List.mem_cons_of_mem a hx)
    exact ((h a List.mem_cons_self).andThen fun _ => hrest).mono (by simp)

end Links

/-! ### Records -/

/-- What the code runs to store and load a record. -/
structure Codecs (c : Code) (env : Env) (r : Record) : Prop where
  writer : ∃ inline, Runs c env (writerItem r inline)
  writerCell : ∃ inline, Runs c env (writerCellItem r inline)
  reader : ∃ inline, Runs c env (readerItem r (Name.reader r.name) false inline)
  readerNotMut : ∃ inline, Runs c env (readerNotMutItem r inline)

/-- What the code runs besides for a record that may be absent. -/
structure OptionalCodecs (c : Code) (env : Env) (r : Record) : Prop extends Codecs c env r where
  writerOpt : Runs c env (writerOptItem r)
  writerCellOpt : Runs c env (writerCellOptItem r)
  readerOpt : Runs c env (readerOptItem r)
  readerCellOpt : Runs c env (readerCellOptItem r)

/-- What the code runs to box a record and to open it again. -/
structure Boxes (c : Code) (env : Env) (view : RecordView) : Prop where
  notNull : Runs c env view.notNullItem
  asOptional : Runs c env view.asOptionalItem

/-- What the code runs to convert a record to tuples and back. -/
structure Tuples (c : Code) (env : Env) (view : RecordView) : Prop where
  toTuple : Runs c env view.toTupleItem
  toOptTuple : Runs c env view.toOptTupleItem
  fromTuple : Runs c env view.fromTupleItem
  fromOptTuple : Runs c env view.fromOptTupleItem
  toExternal : Runs c env view.toExternalItem
  toOptExternal : Runs c env view.toOptExternalItem
  fromExternal : Runs c env view.fromExternalItem
  fromOptExternal : Runs c env view.fromOptExternalItem

/-- The record of a declared type. -/
structure RecordOf (env : Env) (decl : TypeDecl) (r : Record) : Prop where
  name_eq : r.name = decl.name
  fields_eq : r.fields = decl.fields.map fun f => (f.name, f.ty)
  plan_eq : env.program.plans.types.get? decl.name = some r.plan
  bounceCount_eq : r.bounceCount = decl.bounceCount

theorem ofDecl_eq_ok {decl : TypeDecl} {r : Record} (h : Record.ofDecl decl env d = .ok r d') :
    d' = d ∧ RecordOf env decl r := by
  simp only [Record.ofDecl, run_bind, run_read, run_ofExcept, run_pure, Except.mapError_eq_ok,
    Plans.get_eq_ok] at h
  obtain ⟨_, _, ⟨rfl, rfl⟩, plan, _, ⟨hplan, rfl⟩, rfl, rfl⟩ := h
  exact ⟨rfl, rfl, rfl, hplan, rfl⟩

theorem isSmall_eq_ok {r : Record} {small : Bool} (h : r.isSmall env d = .ok small d') :
    d' = d ∧ True := by
  simp only [Record.isSmall, run_bind, run_read, run_pure] at h
  obtain ⟨_, _, ⟨rfl, rfl⟩, -, rfl⟩ := h
  exact ⟨rfl, trivial⟩

theorem emitWriter_links {r : Record} : Links c env (emitWriter r false)
    ((∃ inline, Runs c env (writerItem r inline)) ∧ ∃ inline, Runs c env (writerCellItem r inline)) := by
  refine .read_bind (fun _ _ _ => isSmall_eq_ok) fun inline _ => ?_
  refine ((Links.define fun _ => writerItem_builds).andThen fun _ =>
    Links.define fun _ => writerCellItem_builds).mono fun h => ?_
  exact ⟨⟨_, h.1⟩, _, h.2⟩

theorem emitReader_links {r : Record} : Links c env (emitReader r false)
    ((∃ inline, Runs c env (readerItem r (Name.reader r.name) false inline)) ∧
      ∃ inline, Runs c env (readerNotMutItem r inline)) := by
  refine .read_bind (fun _ _ _ => isSmall_eq_ok) fun inline _ => ?_
  refine ((Links.define fun _ => readerItem_builds (Name.isConstructed_ofType _ _)).andThen fun _ =>
    Links.define fun _ => readerNotMutItem_builds).mono fun h => ?_
  exact ⟨⟨_, h.1⟩, _, h.2⟩

theorem emitBouncedReader_links {r : Record} : Links c env (emitBouncedReader r false)
    (∃ inline, Runs c env (readerItem r (Name.readerBounced r.name) true inline)) := by
  refine .read_bind (fun _ _ _ => isSmall_eq_ok) fun inline _ => ?_
  exact (Links.define fun _ => readerItem_builds (Name.isConstructed_ofType _ _)).mono fun h => ⟨_, h⟩

/-- What the code runs to store and load the values of a declared type, and what is left of its messages
after a bounce. -/
structure DeclaredCodecs (c : Code) (env : Env) (decl : TypeDecl) (r : Record) : Prop extends
    OptionalCodecs c env r where
  bounced : decl.header.isSome = true →
    ∃ inline, Runs c env (readerItem r (Name.readerBounced r.name) true inline)

theorem emitCodecs_links {decl : TypeDecl} :
    Links c env (emitCodecs decl) (∃ r, RecordOf env decl r ∧ DeclaredCodecs c env decl r) := by
  refine .read_bind (fun _ _ _ => ofDecl_eq_ok) fun r hr => ?_
  have hoptional : Links c env (emitOptionalCodecs r) (Runs c env (writerOptItem r) ∧
      Runs c env (writerCellOptItem r) ∧ Runs c env (readerOptItem r) ∧
      Runs c env (readerCellOptItem r)) :=
    (Links.define fun _ => writerOptItem_builds).andThen fun _ =>
      (Links.define fun _ => writerCellOptItem_builds).andThen fun _ =>
        (Links.define fun _ => readerOptItem_builds).andThen fun _ =>
          Links.define fun _ => readerCellOptItem_builds
  have hrest : Links c env (do
      if decl.header.isSome then emitBouncedReader r false
      emitOptionalCodecs r) ((decl.header.isSome = true →
        ∃ inline, Runs c env (readerItem r (Name.readerBounced r.name) true inline)) ∧
      Runs c env (writerOptItem r) ∧ Runs c env (writerCellOptItem r) ∧ Runs c env (readerOptItem r) ∧
      Runs c env (readerCellOptItem r)) := by
    split
    · exact (emitBouncedReader_links.andThen fun _ => hoptional).mono fun h => ⟨fun _ => h.1, h.2⟩
    · next hheader => exact hoptional.mono fun h => ⟨fun hsome => absurd hsome hheader, h⟩
  refine (emitWriter_links.andThen fun _ => emitReader_links.andThen fun _ => hrest).mono ?_
  rintro ⟨⟨hwriter, hcell⟩, ⟨hreader, hnotMut⟩, hbounced, hopt, hcellOpt, hropt, hrcellOpt⟩
  exact ⟨r, hr, ⟨⟨hwriter, hcell, hreader, hnotMut⟩, hopt, hcellOpt, hropt, hrcellOpt⟩, hbounced⟩

/-- The view of a declared type by its shape. -/
structure ViewOf (env : Env) (decl : TypeDecl) (view : RecordView) (sh : Layout.Shape) : Prop where
  decl_eq : view.decl = decl
  shape_eq : Layout.shape env.program.types (.plain decl.name) "v" = .ok sh
  pattern_eq : view.pattern = sh.pattern
  leaves_eq : view.leaves = sh.names.map Target.id

theorem recordView_eq_ok {decl : TypeDecl} {view : RecordView}
    (h : recordView decl env d = .ok view d') :
    d' = d ∧ view.CallsNothing ∧ ∃ sh, ViewOf env decl view sh := by
  simp only [recordView, representation, unpack, table, run_bind, run_read, run_ofExcept, run_pure,
    Layout.representation, Layout.unpack, Except.map_eq_ok] at h
  obtain ⟨_, _, ⟨_, _, ⟨rfl, rfl⟩, rfl, rfl⟩, ty, _, ⟨_, _, ⟨_, _, ⟨rfl, rfl⟩, rfl, rfl⟩, -, rfl⟩,
    pattern, _, ⟨_, _, ⟨_, _, ⟨rfl, rfl⟩, rfl, rfl⟩, ⟨sh, hsh, rfl⟩, rfl⟩, sh', _, ⟨hsh', rfl⟩, rfl, rfl⟩ := h
  -- an override of the optional marker by itself changes nothing
  have hmode : Layout.shapeWith env.program.types { optional := some false } (.plain decl.name) "v" =
      Layout.shape env.program.types (.plain decl.name) "v" := rfl
  obtain rfl : sh = sh' := by
    rw [hmode, hsh] at hsh'
    simpa using hsh'
  refine ⟨rfl, ?_, sh, rfl, hsh, rfl, ?_⟩
  · intro known
    refine ⟨sh.declared_pattern, fun e he => ?_⟩
    obtain ⟨leaf, -, rfl⟩ := List.mem_map.1 he
    exact Target.declared_id
  · simp [Layout.Shape.names]

theorem emitAccessors_links {decl : TypeDecl} : Links c env (emitAccessors decl)
    (∃ view sh, ViewOf env decl view sh ∧ Boxes c env view ∧ Tuples c env view) := by
  refine .read_bind (fun _ _ _ => recordView_eq_ok) fun view ⟨hview, sh, hsh⟩ => ?_
  have hgetters : Emits true env (fun _ => False) (emitGetters view) fun _ => True :=
    Emits.forM fun field _ => .define fun _ => getterItem_builds hview
  refine ((Links.of_emits hgetters).andThen fun _ =>
    (Links.of_emits (.define fun _ => .pure tensorCastItem_enterable)).andThen fun _ =>
      (Links.define fun _ => notNullItem_builds hview).andThen fun _ =>
        (Links.define fun _ => asOptionalItem_builds hview).andThen fun _ =>
          (Links.define fun _ => toTupleItem_builds hview).andThen fun _ =>
            (Links.define fun _ => toOptTupleItem_builds).andThen fun _ =>
              (Links.define fun _ => fromTupleItem_builds).andThen fun _ =>
                (Links.define fun _ => fromOptTupleItem_builds).andThen fun _ =>
                  (Links.define fun _ => toExternalItem_builds hview).andThen fun _ =>
                    (Links.define fun _ => toOptExternalItem_builds).andThen fun _ =>
                      (Links.define fun _ => fromExternalItem_builds).andThen fun _ =>
                        Links.define fun _ => fromOptExternalItem_builds).mono ?_
  rintro ⟨-, -, hnotNull, hasOptional, htuple, hoptTuple, hfromTuple, hfromOptTuple, hexternal,
    hoptExternal, hfromExternal, hfromOptExternal⟩
  exact ⟨view, sh, hsh, ⟨hnotNull, hasOptional⟩, htuple, hoptTuple, hfromTuple, hfromOptTuple,
    hexternal, hoptExternal, hfromExternal, hfromOptExternal⟩

/-! ### Finished modules -/

/-- What the code runs for a declared type. -/
structure Supports (c : Code) (env : Env) (decl : TypeDecl) : Prop where
  codecs : ∃ r, RecordOf env decl r ∧ DeclaredCodecs c env decl r
  conversions : ∃ view sh, ViewOf env decl view sh ∧ Boxes c env view ∧ Tuples c env view

theorem emitStruct_links {decl : TypeDecl} : Links c env (emitStruct decl) (Supports c env decl) :=
  (emitCodecs_links.andThen fun _ => emitAccessors_links).mono fun h => ⟨h.1, h.2⟩

/-- The functions of a finished module are those that its registry has under their names. -/
def Within (c : Code) (r : Registry) : Prop :=
  ∀ name item, c.functions.get? name = some item →
    ∃ entry, r.functions.get? name = some entry ∧ entry.definition = some item

theorem Within.proper {r : Registry} (h : Within c r) (hsound : r.Sound true) : c.Proper := by
  intro name item hget
  obtain ⟨entry, hentry, hdef⟩ := h name item hget
  obtain rfl : entry.name = name := hsound.filed _ _ hentry
  cases hsound.entries _ entry hentry with
  | skipped _ => simp [Entry.skipped] at hdef
  | defined _ _ hpermitted _ =>
    obtain rfl : _ = item := by simpa using hdef
    exact hpermitted

theorem output_within {r : Registry} (hfiled : r.Filed) (order : List String) :
    Within (Code.ofOutput (r.output order)) r := by
  intro name item hget
  obtain ⟨entry, hentry, hitem⟩ := List.mem_filterMap.1 (Dict.mem_of_get?_ofList hget)
  obtain ⟨item', hdef, heq⟩ := Option.map_eq_some_iff.1 hitem
  obtain ⟨rfl, rfl⟩ := Prod.mk.injEq .. ▸ heq
  exact ⟨entry, (Registry.get?_of_mem_output hfiled hentry).1, hdef⟩

/-- A function that is written out can be called. -/
theorem get?_ofOutput {r : Registry} (hfiled : r.Filed) {order : List String} {entry : Entry}
    {item : Target.Item} (hentry : entry ∈ (r.output order).functions)
    (hdef : entry.definition = some item) :
    (Code.ofOutput (r.output order)).functions.get? entry.name = some item := by
  refine Dict.get?_ofList (List.mem_filterMap.2 ⟨entry, hentry, by simp [hdef]⟩) fun other hother => ?_
  obtain ⟨entry', hentry', hitem⟩ := List.mem_filterMap.1 hother
  obtain ⟨item', hdef', heq⟩ := Option.map_eq_some_iff.1 hitem
  obtain ⟨hname, rfl⟩ := Prod.mk.injEq .. ▸ heq
  have hget := (Registry.get?_of_mem_output hfiled hentry).1
  have hget' := (Registry.get?_of_mem_output hfiled hentry').1
  simp_all

/-- A finished module runs what has been entered, and nothing else. -/
theorem finalize_backs {r : Registry} {out : Output} (hsound : r.Sound true)
    (h : r.finalize = .ok out) : (Code.ofOutput out).Proper ∧ Backs (Code.ofOutput out) r := by
  obtain ⟨order, -, -, rfl⟩ := Registry.finalize_eq_ok h
  refine ⟨(output_within hsound.filed order).proper hsound, fun name entry item hget hdef => ?_⟩
  obtain rfl : entry.name = name := hsound.filed name entry hget
  have hkind : entry.kind ≠ .skip := by
    cases hsound.entries _ entry hget with
    | skipped _ => simp [Entry.skipped] at hdef
    | defined _ hkind _ _ => exact hkind
  exact get?_ofOutput hsound.filed (Registry.mem_functions_of_finalize h hget hkind) hdef

/-- Records come first, and what follows only adds functions. -/
theorem emitShared_records {u : Unit} {d : Draft} (h : emitShared env {} = .ok u d) :
    ∃ first : Registry, first.Extends d.registry ∧ first.OwnsHelpers ∧
      ∀ c, Underlies c first → ∀ decl ∈ env.program.types.structs, Supports c env decl := by
  simp only [emitShared, run_bind, table, run_read, run_pure] at h
  obtain ⟨_, _, ⟨_, _, ⟨rfl, rfl⟩, rfl, rfl⟩, ⟨⟩, d₁, hstructs, hrest⟩ := h
  have hstructsEmits : Emits false env (fun _ => False) (env.program.types.structs.forM emitStruct)
      fun _ => True :=
    Emits.forM fun decl _ => emitCodecs_emits.bind fun _ _ => emitAccessors_emits
  have hrestEmits : Emits true env (fun _ => False) (do
      env.program.types.functions.values.forM emitFunction
      (env.program.types.types.values.filter (!·.isContract)).forM fun decl =>
        decl.functions.values.forM emitFunction
      env.program.types.contracts.forM emitChildSupport) fun _ => True := by
    refine (Emits.forM fun f hf => emitFunction_emits (.inl hf)).bind fun _ _ => ?_
    refine (Emits.forM fun decl hdecl => Emits.forM fun f hf => emitFunction_emits ?_).bind
      fun _ _ => ?_
    · exact .inr ⟨decl, List.mem_of_mem_filter hdecl, hf⟩
    exact Emits.forM fun decl _ => emitChildSupport_emits
  have hlinks : ∀ c, Links c env (env.program.types.structs.forM emitStruct)
      (∀ decl ∈ env.program.types.structs, Supports c env decl) := fun _ =>
    Links.forM fun decl _ => emitStruct_links
  have hsound := (hstructsEmits {} () d₁ hstructs Registry.sound_empty).2.1
  refine ⟨d₁.registry, ?_, hsound.ownsHelpers, fun c hc => ?_⟩
  · exact (hrestEmits d₁ () d (by simpa only [run_bind] using hrest) hsound.weaken).1.kept
  · exact (hlinks c {} () d₁ hstructs Registry.sound_empty).2.2 hc

/-- **Libraries support their records.** -/
theorem compileLibrary_supports {out : Output} (h : compileLibrary env = .ok out) :
    (Code.ofOutput out).Proper ∧
      ∀ decl ∈ env.program.types.structs, Supports (Code.ofOutput out) env decl := by
  simp only [compileLibrary, Except.bind_eq_ok] at h
  obtain ⟨⟨⟨⟩, r⟩, hrun, hout⟩ := h
  unfold Generate.run at hrun
  split at hrun
  · next draft hshared =>
    obtain rfl : draft.registry = r := by simpa using hrun
    have hemits : Emits true env (fun _ => False) emitShared fun _ => True := emitShared_emits
    obtain ⟨hproper, hbacks⟩ := finalize_backs (hemits {} _ draft hshared Registry.sound_empty).2.1 hout
    obtain ⟨first, hextends, howns, hsupports⟩ := emitShared_records hshared
    exact ⟨hproper, hsupports _ ⟨hbacks.mono hextends, howns⟩⟩
  · simp at hrun

end CellCompiler
