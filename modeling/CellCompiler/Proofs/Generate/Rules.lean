import CellCompiler.Generate.Helper
import CellCompiler.Proofs.Emission.Order
import CellCompiler.Proofs.Generate.History

/-!
# Rules for generators

Nothing is inferred from the bodies of emitted functions: a generator has to record every name that
it calls. Two judgements say that it does.

* `Builds native deps g post` is about a generator of code inside one function: it only adds to the
  registry and to the recorded names, and if all recorded names are in `deps`, then its result
  satisfies `post`. Since `deps` is fixed while names are still being recorded, the judgement
  composes like a Hoare triple without state (`Builds.bind`). Names that it records are among those
  that `deps` admits.
* `Emits native special g post` is about a generator of whole functions, which refer to names that any
  code may refer to, unless they are `special`. `Emits.define` and
  `Emits.define_special` lead from the first judgement to the second.

Both keep `Registry.Sound`: every registered function has an emitted name or is a helper under the
name of that helper, and it calls only what it declares. While `native` is false, nothing but
operations on dictionaries is left to the target's own library.
-/

namespace CellCompiler

/-! ### Names that are emitted -/

/-- The name is one that generators give to functions other than helpers. -/
def Name.isEmitted (name : String) : Bool :=
  name = recvInternal || name = recvExternal ||
    (name.toList.head?.any fun c => c = '$' || c = '%') || "__gen".toList.isPrefixOf name.toList

/-- The name is one that generators give to the functions of a program: it is neither that of a helper
nor that of an embedded constant. -/
def Name.isConstructed (name : String) : Bool :=
  name = recvInternal || name = recvExternal || name.toList.head?.any fun c => c = '$' || c = '%'

namespace Name

theorem isEmitted_of_isConstructed {name : String} (h : isConstructed name = true) :
    isEmitted name = true := by
  simp only [isConstructed, Bool.or_eq_true] at h
  simp only [isEmitted, Bool.or_eq_true]
  exact .inl h

theorem isConstructed_ofType (type suffix : String) : isConstructed (ofType type suffix) = true := by
  simp [isConstructed, ofType]

theorem isConstructed_globalFunction (name : String) : isConstructed (globalFunction name) = true := by
  simp [isConstructed, globalFunction]

theorem isConstructed_getterMethod (name : String) : isConstructed (getterMethod name) = true := by
  simp [isConstructed, getterMethod]

theorem isConstructed_notMut {type suffix : String} :
    isConstructed (notMut (ofType type suffix)) = true := by
  simp [isConstructed, notMut, ofType]

/-- Embedded constants have names of their own. -/
theorem not_isPrefix_of_isConstructed {name : String} (h : isConstructed name = true) :
    ¬ "__gen".toList <+: name.toList := by
  simp only [isConstructed, Bool.or_eq_true, decide_eq_true_eq] at h
  rintro ⟨rest, hrest⟩
  rcases h with (rfl | rfl) | h
  · simp [recvInternal] at hrest
  · simp [recvExternal] at hrest
  · simp [← hrest] at h

theorem isEmitted_ofType (type suffix : String) : isEmitted (ofType type suffix) = true := by
  simp [isEmitted, ofType]

end Name

namespace Helper

theorem prefix_of_arity? {start name : String} {n : Nat} (h : arity? start name = some n) :
    start.toList <+: name.toList := by
  simp only [arity?, Plan.dropStart?] at h
  split at h
  · simp at h
  · next hdrop =>
    split at hdrop
    · next hpre => exact List.isPrefixOf_iff_prefix.1 hpre
    · simp at hdrop

/-- All names of helpers begin alike. -/
theorem prefix_of_ofName? {name : String} {h : Helper} (hname : ofName? name = some h) :
    "__tact".toList <+: name.toList := by
  simp only [ofName?] at hname
  split at hname
  · next hcreate => exact .trans (by decide) (prefix_of_arity? hcreate)
  · split at hname
    · next hdestroy => exact .trans (by decide) (prefix_of_arity? hdestroy)
    · have hall : ∀ p ∈ named, "__tact".toList <+: p.1.toList := by decide +kernel
      exact hall (name, h) (Dict.mem_entries_of_get? (d := ⟨named⟩) hname)

end Helper

/-- Helpers are not named like embedded constants. -/
theorem Helper.not_isPrefix_of_ofName? {name : String} {h : Helper} (hname : ofName? name = some h) :
    ¬ "__gen".toList <+: name.toList := fun hgen =>
  absurd (List.prefix_or_prefix_of_prefix hgen (prefix_of_ofName? hname)) (by decide)

/-- Only one helper reads the sender of the message. -/
theorem Helper.eq_of_contextGetSender {name : String} (hname : ofName? name = some .contextGetSender) :
    name = contextGetSenderName := by
  simp only [ofName?] at hname
  split at hname
  · simp at hname
  · split at hname
    · simp at hname
    · have hall : ∀ p ∈ named, p.2 = .contextGetSender → p.1 = contextGetSenderName := by decide
      exact hall (name, .contextGetSender) (Dict.mem_entries_of_get? (d := ⟨named⟩) hname) rfl

/-- Only two helpers check addresses. -/
theorem Helper.eq_of_verifies {name : String} {h : Helper} (hname : ofName? name = some h)
    (hv : h.verifies = true) : name = loadAddressName ∨ name = storeAddressName := by
  simp only [ofName?] at hname
  split at hname
  · obtain rfl := Option.some.inj hname
    simp [verifies] at hv
  · split at hname
    · obtain rfl := Option.some.inj hname
      simp [verifies] at hv
    · have hall : ∀ p ∈ named, p.2.verifies = true → p.1 = loadAddressName ∨ p.1 = storeAddressName := by
        decide
      exact hall (name, h) (Dict.mem_entries_of_get? (d := ⟨named⟩) hname) hv

theorem Name.ofName?_of_isEmitted {name : String} (h : isEmitted name = true) :
    Helper.ofName? name = none := by
  cases hname : Helper.ofName? name with
  | none => rfl
  | some helper =>
    obtain ⟨rest, hrest⟩ := Helper.prefix_of_ofName? hname
    have hrecv : name ≠ recvInternal ∧ name ≠ recvExternal := by
      constructor <;> rintro rfl <;> simp [recvInternal, recvExternal] at hrest
    simp [isEmitted, hrecv, ← hrest, List.isPrefixOf] at h

/-! ### Sound registries -/

namespace Emission

/-- The item may be entered under the name: it is a helper of that name, or the name is not that of a
helper. -/
def Permitted (name : String) (item : Target.Item) : Prop :=
  Name.isEmitted name = true ∨ ∃ h, Helper.ofName? name = some h ∧ item = h.item name

theorem Permitted.not_mem_builtins {name : String} {item : Target.Item} (h : Permitted name item) :
    name ∉ Target.builtins := by
  rcases h with h | ⟨helper, h, -⟩
  · have hall : ∀ b ∈ Target.builtins, Name.isEmitted b = false := by decide +kernel
    intro hmem
    simp [hall name hmem] at h
  · have hall : ∀ b ∈ Target.builtins, ¬ "__tact".toList <+: b.toList := by decide +kernel
    exact fun hmem => hall name hmem (Helper.prefix_of_ofName? h)

/-- An entry is supplied by the target, or it is a function that calls only what it declares. -/
inductive Entry.Sound (native : Bool) : Entry → Prop where
  | skipped {name : String} (h : native = true ∨ Helper.isDictionary name = true) :
      Entry.Sound native (.skipped name)
  | defined {name : String} {item : Target.Item} {kind : Kind} {place : Section}
      {depends : NameSet} : item.name? = some name → kind ≠ .skip → Permitted name item →
      item.Declared (fun callee => callee ∈ depends.names ∨ callee = Target.dataWriter) →
      Entry.Sound native ⟨name, some item, kind, place, depends⟩

namespace Registry

/-- Every entry is sound and filed under its name. -/
structure Sound (native : Bool) (r : Registry) : Prop where
  filed : r.Filed
  entries : ∀ name entry, r.functions.get? name = some entry → entry.Sound native
  /-- Unless the target's own library has taken its name, a helper that checks addresses is entered
  after the check. -/
  verified : ∀ name helper entry, r.functions.get? name = some entry → entry.definition.isSome = true →
    Helper.ofName? name = some helper → helper.verifies = true → r.has Helper.verifyAddressName = true
  /-- Likewise the helper that reads the sender of the message is entered after the variable. -/
  declared : ∀ name entry, r.functions.get? name = some entry → entry.definition.isSome = true →
    Helper.ofName? name = some .contextGetSender → r.Declares Helper.contextSender
  /-- Global variables are filed under their names too. -/
  globals : ∀ name g, r.globals.get? name = some g → g.name = name

variable {native : Bool} {r r' r'' : Registry} {new : Entry → Prop}

theorem sound_empty : Sound native {} where
  filed := by simp [Filed]
  entries := by simp
  verified := by simp
  declared := by simp
  globals := by simp

theorem Extends.has {name : String} (h : r.Extends r') (hname : r.has name = true) :
    r'.has name = true := by
  obtain ⟨entry, hentry⟩ := Dict.contains_eq_true_iff.1 hname
  exact Dict.contains_eq_true_iff.2 ⟨entry, h name entry hentry⟩

/-- A name that may be entered: what the helper of that name relies on is there. -/
structure Prepared (r : Registry) (name : String) : Prop where
  verified : ∀ helper, Helper.ofName? name = some helper → helper.verifies = true →
    r.has Helper.verifyAddressName = true
  declared : Helper.ofName? name = some .contextGetSender → r.Declares Helper.contextSender

theorem prepared_of_none {name : String} (h : Helper.ofName? name = none) : r.Prepared name :=
  ⟨fun _ hname => by simp [h] at hname, fun hname => by simp [h] at hname⟩

theorem prepared_of_isEmitted {name : String} (h : Name.isEmitted name = true) :
    r.Prepared name := prepared_of_none (Name.ofName?_of_isEmitted h)

/-- Nothing but the header has changed, or there are more global variables. -/
theorem Sound.of_eq (hr : r.Sound native) (hfunctions : r'.functions = r.functions)
    (hdeclares : ∀ name, r.Declares name → r'.Declares name)
    (hglobals : ∀ name g, r'.globals.get? name = some g → g.name = name) : r'.Sound native where
  filed := fun name e h => hr.filed name e (hfunctions ▸ h)
  entries := fun name e h => hr.entries name e (hfunctions ▸ h)
  verified := by
    intro name helper e h hdef hname hv
    rw [has, hfunctions]
    exact hr.verified name helper e (hfunctions ▸ h) hdef hname hv
  declared := fun name e h hdef hname => hdeclares _ (hr.declared name e (hfunctions ▸ h) hdef hname)
  globals := hglobals

theorem Sound.addGlobal {ty : Target.Ty} {name : String} (hr : r.Sound native) :
    (r.addGlobal ty name).Sound native := by
  refine hr.of_eq rfl (fun _ h => declares_addGlobal.2 (.inr h)) fun other g h => ?_
  rw [Registry.addGlobal, Dict.get?_insertNew, Option.or_eq_some_iff] at h
  rcases h with hold | ⟨-, hnew⟩
  · exact hr.globals other g hold
  · by_cases hother : other = name
    · obtain rfl : ⟨ty, name⟩ = g := by simpa [hother] using hnew
      exact hother.symm
    · simp [hother] at hnew

/-- Entering a sound function under its name. -/
theorem insertNew_sound {entry : Entry} (hr : r.Sound native) (hentry : entry.Sound native)
    (hready : entry.definition.isSome = true → r.Prepared entry.name) :
    Sound native { r with functions := r.functions.insertNew entry.name entry } := by
  have hget : ∀ name e, (r.functions.insertNew entry.name entry).get? name = some e →
      r.functions.get? name = some e ∨ (name = entry.name ∧ e = entry) := by
    intro name e h
    rw [Dict.get?_insertNew, Option.or_eq_some_iff] at h
    rcases h with h | ⟨-, h⟩
    · exact .inl h
    · by_cases hname : name = entry.name
      · exact .inr ⟨hname, by simpa [hname, eq_comm] using h⟩
      · simp [hname] at h
  have hextends : r.Extends { r with functions := r.functions.insertNew entry.name entry } := by
    intro name e h
    rw [Dict.get?_insertNew, h, Option.some_or]
  refine ⟨fun name e h => ?_, fun name e h => ?_, fun name helper e h hdef hname hv => ?_,
    fun name e h hdef hname => ?_, hr.globals⟩
  · rcases hget name e h with h | ⟨rfl, rfl⟩
    · exact hr.filed name e h
    · rfl
  · rcases hget name e h with h | ⟨rfl, rfl⟩
    · exact hr.entries name e h
    · exact hentry
  · refine hextends.has ?_
    rcases hget name e h with h | ⟨rfl, rfl⟩
    · exact hr.verified name helper e h hdef hname hv
    · exact (hready hdef).verified helper hname hv
  · rcases hget name e h with h | ⟨rfl, rfl⟩
    · exact hr.declared name e h hdef hname
    · exact (hready hdef).declared hname

theorem entryOf_sound {item : Target.Item} {place : Section} {depends : NameSet} {entry : Entry}
    (h : entryOf item place depends = .ok entry)
    (hname : ∀ name, item.name? = some name → Permitted name item)
    (hcalls : item.Declared fun callee => callee ∈ depends.names ∨ callee = Target.dataWriter) :
    entry.Sound native := by
  cases item with
  | function s body | declaration s | asm s code =>
    simp only [entryOf, Except.ok.injEq] at h
    subst h
    exact .defined rfl (by simp) (hname _ rfl) hcalls
  | _ => simp [entryOf] at h

theorem name?_of_entryOf {item : Target.Item} {place : Section} {depends : NameSet} {entry : Entry}
    (h : entryOf item place depends = .ok entry) : item.name? = some entry.name := by
  cases item with
  | function s body | declaration s | asm s code =>
    simp only [entryOf, Except.ok.injEq] at h
    subst h
    rfl
  | _ => simp [entryOf] at h

theorem definition_of_entryOf {item : Target.Item} {place : Section} {depends : NameSet}
    {entry : Entry} (h : entryOf item place depends = .ok entry) : entry.definition = some item := by
  cases item with
  | function s body | declaration s | asm s code =>
    simp only [entryOf, Except.ok.injEq] at h
    subst h
    rfl
  | _ => simp [entryOf] at h

theorem register_sound {item : Target.Item} {place : Section} {depends : NameSet}
    (hr : r.Sound native) (h : r.register item place depends = .ok r')
    (hname : ∀ name, item.name? = some name → Permitted name item)
    (hcalls : item.Declared fun callee => callee ∈ depends.names ∨ callee = Target.dataWriter)
    (hnew : ∀ entry : Entry, item.name? = some entry.name → entry.definition = some item → new entry)
    (hready : ∀ name, item.name? = some name → r.Prepared name) :
    r.Develops new r' ∧ r'.Sound native := by
  simp only [register, Except.bind_eq_ok] at h
  obtain ⟨entry, hentry, h⟩ := h
  have hitem := name?_of_entryOf hentry
  split at h
  · simp at h
  · obtain rfl := Except.pure_eq_ok.1 h
    exact ⟨develops_insertNew (hnew entry hitem (definition_of_entryOf hentry)),
      insertNew_sound hr (entryOf_sound hentry hname hcalls) fun _ => hready _ hitem⟩

theorem register_extends {item : Target.Item} {place : Section} {depends : NameSet}
    (h : r.register item place depends = .ok r') : r.Extends r' := by
  simp only [register, Except.bind_eq_ok] at h
  obtain ⟨entry, -, h⟩ := h
  split at h
  · simp at h
  · obtain rfl := Except.pure_eq_ok.1 h
    intro name e hget
    rw [Dict.get?_insertNew, hget, Option.some_or]

theorem globals_of_register {item : Target.Item} {place : Section} {depends : NameSet}
    (h : r.register item place depends = .ok r') : r'.globals = r.globals := by
  simp only [register, Except.bind_eq_ok] at h
  obtain ⟨entry, -, h⟩ := h
  split at h
  · simp at h
  · obtain rfl := Except.pure_eq_ok.1 h
    rfl

end Registry

end Emission

namespace Generate

open Emission (Permitted Registry Section)
open Target (Item)

variable {native : Bool} {α β : Type} {env : Env} {d d' d'' : Draft}

/-! ### Runs -/

@[simp] theorem run_bind {g : Gen α} {k : α → Gen β} {b : β} :
    (g >>= k) env d = .ok b d'' ↔ ∃ a d', g env d = .ok a d' ∧ k a env d' = .ok b d'' := by
  change EStateM.bind (g env) (fun a => k a env) d = _ ↔ _
  unfold EStateM.bind
  cases h : g env d <;> simp

@[simp] theorem run_map {g : Gen α} {f : α → β} {b : β} :
    (f <$> g) env d = .ok b d'' ↔ ∃ a, g env d = .ok a d'' ∧ f a = b := by
  change EStateM.map f (g env) d = _ ↔ _
  unfold EStateM.map
  cases h : g env d <;> simp [and_comm]

@[simp] theorem run_pure {a b : α} : (pure a : Gen α) env d = .ok b d' ↔ a = b ∧ d = d' := by
  change EStateM.Result.ok a d = _ ↔ _
  simp

@[simp] theorem run_throw {e : CompileError} {a : α} :
    (throw e : Gen α) env d ≠ .ok a d' := by
  change EStateM.Result.error e d ≠ _
  simp

@[simp] theorem run_get {s : Draft} : (get : Gen Draft) env d = .ok s d' ↔ d = s ∧ d = d' := by
  change EStateM.Result.ok d d = _ ↔ _
  simp

@[simp] theorem run_read {e : Env} : (read : Gen Env) env d = .ok e d' ↔ env = e ∧ d = d' := by
  change EStateM.Result.ok env d = _ ↔ _
  simp

@[simp] theorem run_table {t : TypeTable} :
    table env d = .ok t d' ↔ env.program.types = t ∧ d = d' := by
  rw [table, run_bind]
  simp only [run_read, run_pure]
  constructor
  · rintro ⟨_, _, ⟨rfl, rfl⟩, h⟩
    exact h
  · exact fun h => ⟨env, d, ⟨rfl, rfl⟩, h⟩

@[simp] theorem run_modify {f : Draft → Draft} {u : PUnit} :
    (modify f : Gen PUnit) env d = .ok u d' ↔ f d = d' := by
  change EStateM.Result.ok PUnit.unit (f d) = _ ↔ _
  simp

@[simp] theorem run_ofExcept {x : Except CompileError α} {a : α} :
    ofExcept x env d = .ok a d' ↔ x = .ok a ∧ d = d' := by
  cases x <;> simp [ofExcept]

theorem run_mapM {f : α → Gen β} {l : List α} {bs : List β} (h : l.mapM f env d = .ok bs d') :
    List.Forall₂ (fun a b => ∃ d d', f a env d = .ok b d') l bs := by
  induction l generalizing bs d with
  | nil =>
    obtain ⟨rfl, -⟩ := run_pure.1 h
    exact .nil
  | cons a l ih =>
    simp only [List.mapM_cons, run_bind, run_pure] at h
    obtain ⟨b, d₁, hb, bs, d₂, hbs, rfl, rfl⟩ := h
    exact .cons ⟨d, d₁, hb⟩ (ih hbs)

theorem declareContext_declares {u : Unit} (h : declareContext env d = .ok u d') :
    d'.registry.Declares Helper.contextSender ∧ d'.registry.Declares Helper.contextSys := by
  simp only [declareContext, onRegistry, run_bind, run_modify] at h
  obtain ⟨_, _, rfl, _, _, rfl, rfl⟩ := h
  simp [Emission.Registry.declares_addGlobal]

/-! ### Code inside a function -/

/-- What the judgement on code inside a function speaks of: the names that are recorded for the
function in the end, and names that it may record besides those that any code may refer to. -/
structure Deps (env : Env) where
  recorded : String → Prop
  extra : String → Prop

instance : CoeFun (Deps env) fun _ => String → Prop := ⟨Deps.recorded⟩

/-- The name may be recorded. -/
def Deps.Admits (deps : Deps env) (name : String) : Prop :=
  env.program.types.Mentions name ∨ deps.extra name

/-- Everything that a draft holds is kept, and only what may be recorded and entered is new. -/
structure Grows (deps : Deps env) (d d' : Draft) : Prop where
  registry : d.registry.Develops (Emission.Entry.Auxiliary env.program.types) d'.registry
  history : ∃ es, d.registry.History env.program.types es d'.registry
  recorded : ∀ name ∈ d.deps.names, name ∈ d'.deps.names
  admitted : ∀ name ∈ d'.deps.names, name ∈ d.deps.names ∨ deps.Admits name

section

variable {deps : Deps env}

theorem Deps.Admits.ofType {type suffix : String} (h : suffix ≠ "contract_store") :
    deps.Admits (Name.ofType type suffix) := .inl (.ofType h)

theorem Deps.Admits.internal {name : String} (h : "__".toList <+: name.toList) : deps.Admits name :=
  .inl (.internal h)

theorem Deps.Admits.internal_append {start rest : String} (h : "__".toList <+: start.toList) :
    deps.Admits (start ++ rest) := by
  refine .internal ?_
  rw [String.toList_append]
  exact h.trans (List.prefix_append _ _)

theorem Grows.refl (d : Draft) : Grows deps d d :=
  ⟨.refl _, ⟨[], .refl _⟩, fun _ h => h, fun _ h => .inl h⟩

theorem Grows.trans (h : Grows deps d d') (h' : Grows deps d' d'') : Grows deps d d'' := by
  obtain ⟨es, hes⟩ := h.history
  obtain ⟨es', hes'⟩ := h'.history
  refine ⟨h.registry.trans h'.registry, ⟨es ++ es', hes.trans hes'⟩,
    fun name hname => h'.recorded name (h.recorded name hname), ?_⟩
  intro name hname
  rcases h'.admitted name hname with hold | hnew
  · exact h.admitted name hold
  · exact .inr hnew

theorem Grows.of_registry {r : Registry}
    (h : d.registry.Develops (Emission.Entry.Auxiliary env.program.types) r)
    (hhistory : ∃ es, d.registry.History env.program.types es r) :
    Grows deps d { d with registry := r } := ⟨h, hhistory, fun _ h => h, fun _ h => .inl h⟩

end

/-- The generator keeps everything and the registry sound, it records only what may be recorded, and
if all recorded names are in `deps`, then its result satisfies `post`. -/
def Builds (native : Bool) (deps : Deps env) (g : Gen α) (post : α → Prop) : Prop :=
  ∀ d a d', g env d = .ok a d' → d.registry.Sound native →
    Grows deps d d' ∧ d'.registry.Sound native ∧ ((∀ name ∈ d'.deps.names, deps name) → post a)

namespace Builds

variable {deps : Deps env} {g : Gen α} {k : α → Gen β} {P P' : α → Prop} {Q : β → Prop}

/-- What is known of the first result is a premise of what follows for the second: it may depend on
names that are recorded later. That a run has given the first result can be used right away. -/
theorem bind_run (hg : Builds native deps g P)
    (hk : ∀ a d d', g env d = .ok a d' → Builds native deps (k a) fun b => P a → Q b) :
    Builds native deps (g >>= k) Q := by
  intro d b d'' h hd
  obtain ⟨a, d', hrun, hrest⟩ := run_bind.1 h
  obtain ⟨hgrows, hsound, hP⟩ := hg d a d' hrun hd
  obtain ⟨hgrows', hsound', hQ⟩ := hk a d d' hrun d' b d'' hrest hsound
  refine ⟨hgrows.trans hgrows', hsound', fun hdeps => hQ hdeps (hP fun name hname => ?_)⟩
  exact hdeps name (hgrows'.recorded name hname)

theorem bind (hg : Builds native deps g P) (hk : ∀ a, Builds native deps (k a) fun b => P a → Q b) :
    Builds native deps (g >>= k) Q := bind_run hg fun a _ _ _ => hk a

theorem mono_run (hg : Builds native deps g P)
    (h : ∀ a d d', g env d = .ok a d' → P a → P' a) : Builds native deps g P' := by
  intro d a d' hrun hd
  obtain ⟨hgrows, hsound, hP⟩ := hg d a d' hrun hd
  exact ⟨hgrows, hsound, fun hdeps => h a d d' hrun (hP hdeps)⟩

theorem mono (hg : Builds native deps g P) (h : ∀ a, P a → P' a) : Builds native deps g P' :=
  hg.mono_run fun a _ _ _ => h a

/-- The first result does not matter for the second. -/
theorem andThen (hg : Builds native deps g P) (hk : ∀ a, Builds native deps (k a) Q) :
    Builds native deps (g >>= k) Q := bind hg fun a => (hk a).mono fun _ hb _ => hb

theorem pure {a : α} (h : P a) : Builds native deps (Pure.pure a) P := by
  intro d b d' hrun hd
  obtain ⟨rfl, rfl⟩ := run_pure.1 hrun
  exact ⟨.refl d, hd, fun _ => h⟩

theorem map {f : α → β} (hg : Builds native deps g P) (h : ∀ a, P a → Q (f a)) :
    Builds native deps (f <$> g) Q := by
  intro d b d' hrun hd
  obtain ⟨a, hrun', rfl⟩ := run_map.1 hrun
  obtain ⟨hgrows, hsound, hP⟩ := hg d a d' hrun' hd
  exact ⟨hgrows, hsound, fun hdeps => h a (hP hdeps)⟩

theorem throw {e : CompileError} : Builds native deps (MonadExcept.throw e : Gen α) P :=
  fun _ _ _ hrun => absurd hrun run_throw

/-- What follows a failure does not matter. -/
theorem throw_bind {e : CompileError} : Builds native deps ((MonadExcept.throw e : Gen α) >>= k) Q := by
  intro d b d'' hrun
  obtain ⟨a, d', hthrow, -⟩ := run_bind.1 hrun
  exact absurd hthrow run_throw

theorem defect {x : Defect} : Builds native deps (Generate.defect x : Gen α) P := throw

theorem defectAt {x : Defect} {loc : Location} : Builds native deps (Generate.defectAt x loc : Gen α) P :=
  throw

theorem misuseAt {x : Misuse} {loc : Location} : Builds native deps (Generate.misuseAt x loc : Gen α) P :=
  throw

theorem ofExcept {x : Except CompileError α} :
    Builds native deps (Generate.ofExcept x) fun a => x = .ok a := by
  intro d a d' hrun hd
  obtain ⟨hx, rfl⟩ := run_ofExcept.1 hrun
  exact ⟨.refl d, hd, fun _ => hx⟩

theorem read : Builds native deps (MonadReader.read : Gen Env) fun _ => True := by
  intro d a d' hrun hd
  obtain ⟨-, rfl⟩ := run_read.1 hrun
  exact ⟨.refl d, hd, fun _ => trivial⟩

theorem table : Builds native deps Generate.table fun _ => True := read.andThen fun _ => pure trivial

theorem table_value : Builds native deps Generate.table fun t => t = env.program.types := by
  intro d t d' hrun hd
  obtain ⟨rfl, rfl⟩ := run_table.1 hrun
  exact ⟨.refl d, hd, fun _ => rfl⟩

/-- The declarations of the program come first. -/
theorem table_bind {k : TypeTable → Gen β} (hk : Builds native deps (k env.program.types) Q) :
    Builds native deps (Generate.table >>= k) Q :=
  table.bind_run fun _ _ _ ht => ((run_table.1 ht).1 ▸ hk).mono fun _ hb _ => hb

theorem has {name : String} : Builds native deps (Generate.has name) fun _ => True := by
  intro d a d' hrun hd
  simp only [Generate.has, run_bind, run_get, run_pure] at hrun
  obtain ⟨_, _, ⟨rfl, rfl⟩, -, rfl⟩ := hrun
  exact ⟨.refl d, hd, fun _ => trivial⟩

theorem onRegistry {f : Registry → Registry}
    (h : ∀ r, r.Sound native →
      r.Develops (Emission.Entry.Auxiliary env.program.types) (f r) ∧
        (∃ es, r.History env.program.types es (f r)) ∧ (f r).Sound native) :
    Builds native deps (Generate.onRegistry f) fun _ => True := by
  intro d a d' hrun hd
  obtain rfl := run_modify.1 hrun
  obtain ⟨hdevelops, hhistory, hsound⟩ := h d.registry hd
  exact ⟨.of_registry hdevelops hhistory, hsound, fun _ => trivial⟩

theorem skip {name : String} (h : native = true ∨ Helper.isDictionary name = true)
    (hsupplies : env.program.types.Supplies name) :
    Builds native deps (Generate.skip name) fun _ => True := by
  have hskipped := Emission.Entry.auxiliary_skipped hsupplies
  refine onRegistry fun r hr => ⟨Registry.develops_insertNew hskipped,
    ⟨[], .skip (.refl r) hsupplies⟩, ?_⟩
  exact Registry.insertNew_sound hr (.skipped h) (by simp [Emission.Entry.skipped])

theorem used {name : String} (h : deps.Admits name) :
    Builds native deps (Generate.used name) fun n => n = name ∧ deps name := by
  intro d a d' hrun hd
  simp only [Generate.used, run_bind, run_modify, run_pure] at hrun
  obtain ⟨_, _, rfl, rfl, rfl⟩ := hrun
  refine ⟨⟨.refl _, ⟨[], .refl _⟩, fun n hn => ?_, fun n hn => ?_⟩, hd,
    fun hdeps => ⟨rfl, hdeps name ?_⟩⟩
  · exact NameSet.mem_insert.2 (.inr hn)
  · rcases NameSet.mem_insert.1 hn with rfl | hold
    · exact .inr h
    · exact .inl hold
  · exact NameSet.mem_insert.2 (.inl rfl)

/-- A name that is recorded comes first. -/
theorem used_bind {name : String} {k : String → Gen β} (h : deps.Admits name)
    (hk : Builds native deps (k name) fun b => deps name → Q b) :
    Builds native deps (Generate.used name >>= k) Q := by
  refine (Builds.used h).bind_run fun n d d' hn => ?_
  obtain rfl : name = n := by
    simp only [Generate.used, run_bind, run_modify, run_pure] at hn
    exact hn.choose_spec.choose_spec.2.1
  exact hk.mono fun b hb hdep => hb hdep.2

theorem fresh {stem : String} : Builds native deps (Generate.fresh stem) fun _ => True := by
  intro d a d' hrun hd
  simp only [Generate.fresh, run_bind, run_get, run_modify, run_pure] at hrun
  obtain ⟨_, _, ⟨rfl, rfl⟩, _, _, rfl, -, rfl⟩ := hrun
  exact ⟨⟨.refl _, ⟨[], .refl _⟩, fun _ h => h, fun _ h => .inl h⟩, hd, fun _ => trivial⟩

theorem callUsed {name : String} {args : List Target.Expr}
    (h : deps.Admits name) :
    Builds native deps (Generate.callUsed name args) fun e =>
      (∀ arg ∈ args, arg.Declared deps) → e.Declared deps :=
  (used h).bind fun _ => pure fun ⟨rfl, hdep⟩ hargs =>
    Target.declared_called.2 ⟨.inr hdep, hargs⟩

theorem mapM {f : α → Gen β} {l : List α} (h : ∀ a ∈ l, Builds native deps (f a) Q) :
    Builds native deps (l.mapM f) fun bs => ∀ b ∈ bs, Q b := by
  induction l with
  | nil => exact pure (by simp)
  | cons a l ih =>
    rw [List.mapM_cons]
    refine (h a List.mem_cons_self).bind fun b => ?_
    refine (ih fun x hx => h x (List.mem_cons_of_mem a hx)).bind fun bs => pure fun hbs hb => ?_
    simpa using ⟨hb, hbs⟩

end Builds

/-! ### Whole functions -/

/-- An item that can be entered as a function: it has a name that generators give to functions of a
program, and its calls are declared. -/
def Enterable (deps : String → Prop) (item : Item) : Prop :=
  (∀ name, item.name? = some name → Name.isConstructed name = true) ∧ item.Declared deps

theorem enterable_define {deps : String → Prop} {s : Target.Signature} {body : List Target.Stmt}
    (hname : Name.isConstructed s.name = true) (hbody : ∀ stmt ∈ body, stmt.Declared deps) :
    Enterable deps (s.define body) := by
  refine ⟨fun name h => ?_, by simpa using hbody⟩
  obtain rfl : s.name = name := by simpa using h
  exact hname

theorem Enterable.mono {deps more : String → Prop} {item : Item} (h : Enterable deps item)
    (hmore : ∀ name, deps name → more name) : Enterable more item := ⟨h.1, h.2.mono hmore⟩

theorem Enterable.isEmitted {deps : String → Prop} {item : Item} {name : String}
    (h : Enterable deps item) (hname : item.name? = some name) : Name.isEmitted name = true :=
  Name.isEmitted_of_isConstructed (h.1 name hname)

theorem Enterable.register_sound {item : Item} {place : Section} {depends : NameSet} {r r' : Registry}
    {special : Item → Prop}
    (hitem : Enterable (fun callee => callee ∈ depends.names ∨ callee = Target.dataWriter) item)
    (hquiet : special item ∨ item.Declared env.program.types.Mentions)
    (hr : r.Sound native) (h : r.register item place depends = .ok r') :
    r.Develops (Emission.Entry.QuietUnless special env.program.types) r' ∧ r'.Sound native :=
  Registry.register_sound hr h (fun _ hname => .inl (hitem.isEmitted hname)) hitem.2
    (fun _ _ hentry => hquiet.imp (fun hspecial => ⟨item, hentry, hspecial⟩) (.of_definition hentry))
    fun _ hname => Registry.prepared_of_isEmitted (hitem.isEmitted hname)

/-- The generator keeps what is registered and the registry sound, new functions refer only to what
any code may refer to unless they are special, and the result satisfies `post`. -/
def Emits (native : Bool) (env : Env) (special : Item → Prop) (g : Gen α) (post : α → Prop) : Prop :=
  ∀ d a d', g env d = .ok a d' → d.registry.Sound native →
    d.registry.Develops (Emission.Entry.QuietUnless special env.program.types) d'.registry ∧
      d'.registry.Sound native ∧ post a

/-- A run of a generator that constructs a function and enters it. -/
theorem run_define {place : Section} {construct : Gen Item} {u : Unit} :
    define place construct env d = .ok u d' ↔
      ∃ item d₁, construct env { d with deps := .empty, temps := 0 } = .ok item d₁ ∧
        ∃ r, d₁.registry.register item place d₁.deps = .ok r ∧ { d₁ with registry := r } = d' := by
  simp only [define, startFunction, register, run_bind, run_modify, run_get, run_ofExcept]
  constructor
  · rintro ⟨_, _, rfl, item, d₁, hitem, _, _, ⟨rfl, rfl⟩, _, _, ⟨rfl, rfl⟩, r, _, ⟨hr, rfl⟩, rfl⟩
    exact ⟨item, d₁, hitem, r, hr, rfl⟩
  · rintro ⟨item, d₁, hitem, r, hr, rfl⟩
    exact ⟨(), _, rfl, item, d₁, hitem, _, _, ⟨rfl, rfl⟩, _, _, ⟨rfl, rfl⟩, r, _, ⟨hr, rfl⟩, rfl⟩

namespace Emits

variable {special : Item → Prop} {g : Gen α} {k : α → Gen β} {P : α → Prop} {Q : β → Prop}

theorem of_builds (h : ∀ deps : Deps env, Builds native deps g P) : Emits native env special g P := by
  intro d a d' hrun hd
  obtain ⟨hgrows, hsound, hP⟩ := h ⟨fun _ => True, fun _ => False⟩ d a d' hrun hd
  exact ⟨hgrows.registry.mono fun _ h => .inr h.quiet, hsound, hP fun _ _ => trivial⟩

theorem bind (hg : Emits native env special g P) (hk : ∀ a, P a → Emits native env special (k a) Q) :
    Emits native env special (g >>= k) Q := by
  intro d b d'' h hd
  obtain ⟨a, d', hrun, hrest⟩ := run_bind.1 h
  obtain ⟨hdevelops, hsound, hP⟩ := hg d a d' hrun hd
  obtain ⟨hdevelops', hsound', hQ⟩ := hk a hP d' b d'' hrest hsound
  exact ⟨hdevelops.trans hdevelops', hsound', hQ⟩

theorem pure {a : α} (h : P a) : Emits native env special (Pure.pure a) P := of_builds fun _ => .pure h

/-- More functions may be special. -/
theorem weaken {more : Item → Prop} (h : Emits native env special g P)
    (hmore : ∀ item, special item → more item) : Emits native env more g P := by
  intro d a d' hrun hd
  obtain ⟨hdevelops, hsound, hP⟩ := h d a d' hrun hd
  refine ⟨hdevelops.mono fun _ hentry => hentry.imp_left ?_, hsound, hP⟩
  exact fun ⟨item, hitem, hspecial⟩ => ⟨item, hitem, hmore item hspecial⟩

/-- Nothing is said about what new functions refer to. -/
theorem forget (h : Emits native env special g P) : Emits native env (fun _ => True) g P :=
  h.weaken fun _ _ => trivial

/-- Constructing a function and entering it with what it has recorded. -/
theorem define {place : Section} {construct : Gen Item}
    (h : ∀ deps : Deps env, Builds native deps construct (Enterable deps)) :
    Emits native env special (Generate.define place construct) fun _ => True := by
  intro d a d' hrun hd
  obtain ⟨item, d₁, hitem, r, hr, rfl⟩ := run_define.1 hrun
  obtain ⟨hgrows, hsound, hpost⟩ := h ⟨(· ∈ d₁.deps.names), fun _ => False⟩ _ item d₁ hitem hd
  have henterable : Enterable (· ∈ d₁.deps.names) item := hpost fun _ h => h
  have hmentions : ∀ name ∈ d₁.deps.names, env.program.types.Mentions name := fun name hname =>
    (hgrows.admitted name hname).elim (fun h => absurd h List.not_mem_nil)
      fun h => h.resolve_right False.elim
  obtain ⟨hdevelops, hsound'⟩ := (henterable.mono fun _ => .inl).register_sound
    (.inr (henterable.2.mono hmentions)) hsound hr
  exact ⟨(hgrows.registry.mono fun _ h => .inr h.quiet).trans hdevelops, hsound', trivial⟩

/-- Entering a special function, which may replace the data of the contract. -/
theorem define_special {place : Section} {construct : Gen Item}
    (h : ∀ deps : Deps env, (∀ name, deps.extra name) → Builds native deps construct
      (Enterable fun name => deps name ∨ name = Target.dataWriter))
    (hspecial : ∀ d item d', construct env d = .ok item d' → special item) :
    Emits native env special (Generate.define place construct) fun _ => True := by
  intro d a d' hrun hd
  obtain ⟨item, d₁, hitem, r, hr, rfl⟩ := run_define.1 hrun
  obtain ⟨hgrows, hsound, hpost⟩ := h ⟨(· ∈ d₁.deps.names), fun _ => True⟩ (fun _ => trivial) _ item d₁
    hitem hd
  have henterable := hpost fun _ h => h
  obtain ⟨hdevelops, hsound'⟩ :=
    henterable.register_sound (.inl (hspecial _ _ _ hitem)) hsound hr
  exact ⟨(hgrows.registry.mono fun _ h => .inr h.quiet).trans hdevelops, hsound', trivial⟩

theorem forM {f : α → Gen PUnit} {l : List α}
    (h : ∀ a ∈ l, Emits native env special (f a) fun _ => True) :
    Emits native env special (l.forM f) fun _ => True := by
  induction l with
  | nil => exact pure trivial
  | cons a l ih =>
    exact (h a List.mem_cons_self).bind fun _ _ => ih fun x hx => h x (List.mem_cons_of_mem a hx)

theorem mapM {f : α → Gen β} {l : List α} (h : ∀ a ∈ l, Emits native env special (f a) Q) :
    Emits native env special (l.mapM f) fun bs => ∀ b ∈ bs, Q b := by
  induction l with
  | nil => exact pure (by simp)
  | cons a l ih =>
    rw [List.mapM_cons]
    refine (h a List.mem_cons_self).bind fun b hb => ?_
    refine (ih fun x hx => h x (List.mem_cons_of_mem a hx)).bind fun bs hbs => pure ?_
    simpa using ⟨hb, hbs⟩

end Emits

end Generate

end CellCompiler
