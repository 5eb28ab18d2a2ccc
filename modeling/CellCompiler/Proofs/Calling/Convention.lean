import CellCompiler.Proofs.Codec.Link
import CellCompiler.Proofs.Name
import CellCompiler.Proofs.Source.Table
import CellCompiler.Proofs.Target.Calls

/-!
# Calling conventions

Callers and callees are made by different generators. What they agree on is a convention for every
reason that a function can be emitted for: how many arguments it takes, and whether it can be applied
to variables that it changes.

* `Name.Origin.convention` is that convention;
* `TypeTable.Signs` says which heads functions of a module have, `TypeTable.Suits` which calls fit
  all heads under the name that is called;
* `suits_origin` and its companions are about the calls that generators make: since names can be read
  back, the head under a name has the convention of the function that the name was made for.
-/

namespace CellCompiler

open Target

/-- What the callers of a function rely on. -/
structure Convention where
  /-- Number of arguments. -/
  arity : Nat
  /-- The function can be applied to variables, to which it then assigns. -/
  threads : Bool
  deriving DecidableEq

/-- The head of a function is as its callers rely on. -/
structure Convention.Describes (c : Convention) (s : Signature) : Prop where
  arity : s.params.length = c.arity
  threads : c.threads = true → s.threads = true

namespace TypeTable

variable (table : TypeTable)

/-- Number of arguments that a contract starts with. -/
def initArity (type : String) : Nat :=
  ((table.types.get? type).map fun decl => decl.initParams.length).getD 0

/-- The method of a type. -/
def method? (type name : String) : Option Function :=
  (table.types.get? type).bind fun decl => decl.functions.get? name

end TypeTable

namespace Name

/-- The convention of a codec: writers take a builder first, and readers give back the slice. -/
def Codec.convention : Codec → Convention
  | writer | writerOpt => ⟨2, false⟩
  | writerCell | writerCellOpt | readerNotMut | readerCellOpt => ⟨1, false⟩
  | reader | readerBounced | readerOpt => ⟨1, true⟩

/-- The convention of a function that every type has, or every contract. -/
def Part.convention (initArity : Nat) : Part → Convention
  | codec c => c.convention
  | contractInit => ⟨initArity, false⟩
  | initChild => ⟨initArity + 1, false⟩
  | contractLoad => ⟨0, false⟩
  | contractStore => ⟨1, false⟩
  | routerInternal => ⟨3, true⟩
  | routerExternal => ⟨2, true⟩
  | tensorCast | notNull | asOptional | toTuple | toOptTuple | fromTuple | fromOptTuple | toExternal
  | toOptExternal | fromExternal | fromOptExternal => ⟨1, false⟩

namespace Origin

/-- The convention of an emitted function; entry points and get-methods are not called. -/
def convention (table : TypeTable) : Origin → Option Convention
  | member type (.part p) => some (p.convention (table.initArity type))
  | member _ (.getter _) => some ⟨1, false⟩
  | member type (.method name) =>
    (table.method? type name).map fun f => ⟨f.params.length + 1, f.mutates⟩
  | member _ (.receiver selector) => some ⟨if selector.payloadType?.isSome then 2 else 1, true⟩
  | initCodec _ c => some c.convention
  | notMut type name => (table.method? type name).map fun f => ⟨f.params.length + 1, false⟩
  | globalFunction name => (table.functions.get? name).map fun f => ⟨f.params.length, false⟩
  | getterMethod _ | recvInternal | recvExternal => none

variable {table : TypeTable} {o a b : Origin} {name : String}

/-- Whole and cut messages are handed over alike. -/
theorem convention_uncut : o.uncut.convention table = o.convention table := by
  cases o with
  | member type m =>
    cases m with
    | receiver selector =>
      cases selector with
      | bounceBinary typeName bounced => cases bounced <;> rfl
      | _ => rfl
    | _ => rfl
  | _ => rfl

theorem convention_of_text? {text : String} (h : o.text? = some text) :
    o.convention table = some ⟨1, true⟩ := by
  unfold text? at h
  split at h
  · rfl
  · rfl
  · simp at h

/-- The name of a function tells its convention. -/
theorem convention_eq_of_name_eq (ha : a.IsPlain) (hb : b.IsPlain) (hna : a.name = .ok name)
    (hnb : b.name = .ok name) : a.convention table = b.convention table := by
  -- handlers of texts are all called alike, so it does not matter which text a name is for
  cases hta : a.text? with
  | none =>
    have heq := uncut_eq_of_name_eq ha hb (by simp [HashesTellApart, hta]) hna hnb
    rw [← convention_uncut, heq, convention_uncut]
  | some s =>
    cases htb : b.text? with
    | none =>
      have heq := uncut_eq_of_name_eq ha hb (by simp [HashesTellApart, htb]) hna hnb
      rw [← convention_uncut, heq, convention_uncut]
    | some t => rw [convention_of_text? hta, convention_of_text? htb]

/-- How the names of functions begin. -/
theorem opens_of_name (h : o.name = .ok name) : name = Name.recvInternal ∨ name = Name.recvExternal ∨
    ∃ rest, name = "$" ++ rest ∨ name = "%" ++ rest := by
  have hofType : ∀ type suffix, ∃ rest, ofType type suffix = "$" ++ rest ∨ ofType type suffix = "%" ++ rest :=
    fun type suffix => ⟨type ++ "$_" ++ suffix, .inl (by simp [ofType, String.append_assoc])⟩
  cases o with
  | member type m =>
    refine .inr (.inr ?_)
    cases m with
    | part p =>
      obtain rfl := Except.ok.inj h
      exact p.name_eq type ▸ hofType _ _
    | getter field | method field =>
      obtain rfl := Except.ok.inj h
      exact hofType _ _
    | receiver selector =>
      obtain ⟨suffix, -, rfl⟩ := Generate.name_of_receiverName h
      exact hofType _ _
  | initCodec contract c =>
    obtain rfl := Except.ok.inj h
    exact .inr (.inr (c.name_eq _ ▸ hofType _ _))
  | notMut type name =>
    obtain rfl := Except.ok.inj h
    obtain ⟨rest, hrest⟩ := hofType type ("fun_" ++ name ++ "$not_mut")
    refine .inr (.inr ⟨rest, ?_⟩)
    rwa [show Name.notMut (Name.method type name) = ofType type ("fun_" ++ name ++ "$not_mut") by
      simp [Name.notMut, Name.method, ofType, String.append_assoc]]
  | globalFunction name =>
    obtain rfl := Except.ok.inj h
    exact .inr (.inr ⟨"global_" ++ name, .inl (by rw [← String.append_assoc]; rfl)⟩)
  | getterMethod name =>
    obtain rfl := Except.ok.inj h
    exact .inr (.inr ⟨name, .inr rfl⟩)
  | recvInternal => exact .inl (Except.ok.inj h).symm
  | recvExternal => exact .inr (.inl (Except.ok.inj h).symm)

theorem isEmitted_of_name (h : o.name = .ok name) : Name.isEmitted name = true := by
  obtain rfl | rfl | ⟨rest, rfl | rfl⟩ := opens_of_name h <;> simp [Name.isEmitted]

/-- Functions are not named like embedded constants. -/
theorem not_isPrefix_of_name (h : o.name = .ok name) : ¬ "__gen".toList <+: name.toList := by
  obtain rfl | rfl | ⟨rest, rfl | rfl⟩ := opens_of_name h
  · decide
  · decide
  · simp
  · simp

end Origin

end Name

/-- Names of helpers are not given to other functions. -/
theorem Name.isEmitted_eq_false {name : String} (h : "__tact".toList <+: name.toList) :
    isEmitted name = false := by
  obtain ⟨rest, hrest⟩ := h
  have hrecv : name ≠ recvInternal ∧ name ≠ recvExternal := by
    constructor <;> rintro rfl <;> simp [recvInternal, recvExternal] at hrest
  simp [isEmitted, hrecv, ← hrest, List.isPrefixOf]

namespace Helper

variable {name : String}

theorem prefix_of_isDictionary (h : isDictionary name = true) :
    dictionaryStart.toList <+: name.toList := by
  simp only [isDictionary, Bool.and_eq_true, Plan.dropStart?] at h
  split at h
  · next hpre => exact List.isPrefixOf_iff_prefix.1 hpre
  · simp at h

/-- Operations on dictionaries are no helpers. -/
theorem ofName?_of_isDictionary (h : isDictionary name = true) : ofName? name = none := by
  have hpre := prefix_of_isDictionary h
  have hcreate : arity? "__tact_tuple_create_" name = none :=
    Option.eq_none_iff_forall_ne_some.2 fun n hn =>
      absurd (List.prefix_or_prefix_of_prefix hpre (prefix_of_arity? hn)) (by decide)
  have hdestroy : arity? "__tact_tuple_destroy_" name = none :=
    Option.eq_none_iff_forall_ne_some.2 fun n hn =>
      absurd (List.prefix_or_prefix_of_prefix hpre (prefix_of_arity? hn)) (by decide)
  have hnamed : ∀ p ∈ named, isDictionary p.1 = false := by decide
  simp only [ofName?, hcreate, hdestroy]
  refine Option.eq_none_iff_forall_ne_some.2 fun helper hhelper => ?_
  simp [hnamed _ (Dict.mem_entries_of_get? (d := ⟨named⟩) hhelper)] at h

theorem isEmitted_of_isDictionary (h : isDictionary name = true) : Name.isEmitted name = false :=
  Name.isEmitted_eq_false (.trans (by decide) (prefix_of_isDictionary h))

end Helper

/-! ### Heads of functions -/

namespace TypeTable

/-- The heads that functions of a module have. -/
inductive Signs (table : TypeTable) : Signature → Prop where
  | origin {o : Name.Origin} {s : Signature} : o.IsPlain → o.name = .ok s.name →
      (∀ c, o.convention table = some c → c.Describes s) → Signs table s
  | helper {h : Helper} {s : Signature} : Helper.ofName? s.name = some h →
      (h.item s.name).signature? = some s → Signs table s
  | constant {s : Signature} : "__gen".toList <+: s.name.toList → s.params = [] → Signs table s

/-- The target supplies a function of this name for one of the program. -/
def IsNative (table : TypeTable) (name : String) : Prop :=
  ∃ f, table.HasFunction f ∧ f.body = .native name

/-- The call fits whatever function of a module has the name that is called, unless the name is that
of a native function. -/
def Suits (table : TypeTable) (site : CallSite) : Prop :=
  ¬ table.IsNative site.callee → ∀ s, table.Signs s → s.name = site.callee → site.Fits s

variable {table : TypeTable} {s : Signature} {name : String} {arity : Nat} {modifying : Bool}

theorem Signs.permitted (h : table.Signs s) :
    Name.isEmitted s.name = true ∨ ∃ helper, Helper.ofName? s.name = some helper := by
  cases h with
  | origin _ hname _ => exact .inl (Name.Origin.isEmitted_of_name hname)
  | helper hof _ => exact .inr ⟨_, hof⟩
  | constant hgen _ => exact .inl (by simpa [Name.isEmitted] using Or.inr hgen)

/-! ### Calls that fit -/

/-- Functions of the target are not defined anew. -/
theorem suits_builtin (h : name ∈ builtins) : table.Suits ⟨name, arity, modifying⟩ := by
  rintro - s hs rfl
  have hpermitted : ∃ item, Emission.Permitted s.name item := by
    rcases hs.permitted with h | ⟨helper, h⟩
    · exact ⟨.pragma "", .inl h⟩
    · exact ⟨helper.item s.name, .inr ⟨helper, h, rfl⟩⟩
  exact absurd h hpermitted.choose_spec.not_mem_builtins

theorem suits_native (h : table.IsNative name) : table.Suits ⟨name, arity, modifying⟩ :=
  fun hnot => absurd h hnot

/-- Operations on dictionaries are supplied by the target. -/
theorem suits_dictionary (h : Helper.isDictionary name = true) :
    table.Suits ⟨name, arity, modifying⟩ := by
  rintro - s hs rfl
  rcases hs.permitted with hemitted | ⟨helper, hof⟩
  · simp [Helper.isEmitted_of_isDictionary h] at hemitted
  · simp [Helper.ofName?_of_isDictionary h] at hof

/-- Calls of emitted functions keep to their conventions. -/
theorem suits_origin {o : Name.Origin} {c : Convention} (hplain : o.IsPlain) (hname : o.name = .ok name)
    (hc : o.convention table = some c) (harity : arity = c.arity)
    (hthreads : modifying = true → c.threads = true) : table.Suits ⟨name, arity, modifying⟩ := by
  rintro - s hs rfl
  cases hs with
  | origin hplain' hname' hdescribes =>
    have hdescribed := hdescribes c (Name.Origin.convention_eq_of_name_eq hplain hplain' hname hname' ▸ hc)
    exact ⟨harity.trans hdescribed.arity.symm, fun h => hdescribed.threads (hthreads h)⟩
  | helper hof _ =>
    rw [Name.ofName?_of_isEmitted (Name.Origin.isEmitted_of_name hname)] at hof
    simp at hof
  | constant hgen _ => exact absurd hgen (Name.Origin.not_isPrefix_of_name hname)

/-- Calls of helpers fit their definitions. -/
theorem suits_helper (hname : Name.isEmitted name = false)
    (h : ∀ helper s, Helper.ofName? name = some helper → (helper.item name).signature? = some s →
      CallSite.Fits ⟨name, arity, modifying⟩ s) : table.Suits ⟨name, arity, modifying⟩ := by
  rintro - s hs rfl
  cases hs with
  | origin _ hname' _ => simp [Name.Origin.isEmitted_of_name hname'] at hname
  | helper hof hsignature => exact h _ _ hof hsignature
  | constant hgen _ =>
    have hemitted : Name.isEmitted s.name = true := by simpa [Name.isEmitted] using Or.inr hgen
    simp [hemitted] at hname

/-- Embedded constants are called without arguments. -/
theorem suits_constant (h : "__gen".toList <+: name.toList) : table.Suits ⟨name, 0, false⟩ := by
  rintro - s hs rfl
  cases hs with
  | origin _ hname' _ => exact absurd h (Name.Origin.not_isPrefix_of_name hname')
  | helper hof _ =>
    have hemitted : Name.isEmitted s.name = true := by simpa [Name.isEmitted] using Or.inr h
    simp [Name.ofName?_of_isEmitted hemitted] at hof
  | constant _ hparams => simp [CallSite.Fits, hparams]

end TypeTable

end CellCompiler
