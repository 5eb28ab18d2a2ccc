import CellCompiler.Generate.MapKind
import CellCompiler.Proofs.Generate.Rules
import CellCompiler.Proofs.Layout

/-!
# Results of generators

What a generator enters into the registry does not matter for most properties of the code that it
gives. `Yields env g post` says that whatever the draft, a result of `g` satisfies `post`; it says
nothing of runs that fail. How the entries of a map are stored is read off the declarations alone
(`MapKind.exists_of_eq_ok`).
-/

namespace CellCompiler

/-! ### Entries of maps -/

namespace MapKind

variable {decl : TypeDecl} {name : String} {format : Option String} {table : TypeTable} {ty : TypeRef}
  {loc : Location} {kind : MapKind}

/-- Keys are of built-in types. -/
theorem exists_of_keyOf {key : Key} (h : keyOf decl name format = .ok key) :
    ∃ kind, decl.primitive? = some kind := by
  unfold keyOf at h
  split at h
  · next hkind => exact ⟨_, hkind⟩
  · next hkind => exact ⟨_, hkind⟩
  · cases h

/-- Values are of built-in types or records. -/
theorem cases_of_valueOf {value : Value} (h : valueOf decl name format = .ok value) :
    (value = .struct decl.name ∧ decl.primitive? = none) ∨
    (∃ kind, decl.primitive? = some kind) ∧ ∀ type, value ≠ .struct type := by
  unfold valueOf at h
  split at h
  · next hkind =>
    split at h
    · obtain rfl := Except.ok.inj h
      exact .inr ⟨⟨_, hkind⟩, by simp⟩
    · cases h
  · next hkind =>
    obtain rfl := Except.ok.inj h
    exact .inr ⟨⟨_, hkind⟩, by simp⟩
  · next hkind =>
    obtain rfl := Except.ok.inj h
    exact .inr ⟨⟨_, hkind⟩, by simp⟩
  · next hkind =>
    obtain rfl := Except.ok.inj h
    exact .inr ⟨⟨_, hkind⟩, by simp⟩
  · cases h
  · next hnone => exact .inl ⟨(Except.ok.inj h).symm, hnone⟩

/-- How entries are stored is told by the declared types of keys and values. -/
theorem exists_of_eq_ok (h : MapKind.of table ty loc = .ok kind) :
    ∃ keyType keyAs valueType valueAs keyDecl valueDecl, ty = .map keyType keyAs valueType valueAs ∧
      table.types.get? keyType = some keyDecl ∧ keyOf keyDecl keyType keyAs = .ok kind.key ∧
      table.types.get? valueType = some valueDecl ∧ valueOf valueDecl valueType valueAs = .ok kind.value := by
  cases ty with
  | map keyType keyAs valueType valueAs =>
    simp only [MapKind.of, Except.bind_eq_ok, Layout.declOf_eq_ok] at h
    obtain ⟨keyDecl, hkeyDecl, key, hkey, decl, hdecl, value, hvalue, hof⟩ := h
    obtain rfl := Except.pure_eq_ok.1 hof
    refine ⟨_, _, _, _, keyDecl, decl, rfl, hkeyDecl, ?_, hdecl, ?_⟩
    · cases hkeyOf : keyOf keyDecl keyType keyAs <;> simp_all
    · cases hvalueOf : valueOf decl valueType valueAs <;> simp_all
  | _ => simp [MapKind.of] at h

/-- The declaration of the records that a map holds. -/
theorem exists_decl_of_struct {type : String} (h : MapKind.of table ty loc = .ok kind)
    (hkind : kind.value = .struct type) :
    ∃ name decl, table.types.get? name = some decl ∧ decl.name = type ∧ decl.primitive? = none := by
  obtain ⟨_, _, name, _, _, decl, -, -, -, hdecl, hvalue⟩ := exists_of_eq_ok h
  obtain ⟨hstruct, hnone⟩ | ⟨-, hnot⟩ := cases_of_valueOf hvalue
  · exact ⟨name, decl, hdecl, Value.struct.inj (hstruct.symm.trans hkind), hnone⟩
  · exact absurd hkind (hnot type)

end MapKind

/-! ### Results -/

namespace Generate

variable {α β : Type} {env : Env}

/-- Every result of the generator satisfies `post`. -/
def Yields (env : Env) (g : Gen α) (post : α → Prop) : Prop :=
  ∀ d a d', g env d = .ok a d' → post a

namespace Yields

variable {g : Gen α} {k : α → Gen β} {P P' : α → Prop} {Q : β → Prop}

theorem bind (hg : Yields env g P) (hk : ∀ a, P a → Yields env (k a) Q) :
    Yields env (g >>= k) Q := by
  intro d b d'' h
  obtain ⟨a, d', hrun, hrest⟩ := run_bind.1 h
  exact hk a (hg d a d' hrun) d' b d'' hrest

/-- The first result does not matter for the second. -/
theorem andThen (hk : ∀ a, Yields env (k a) Q) : Yields env (g >>= k) Q := by
  intro d b d'' h
  obtain ⟨a, d', -, hrest⟩ := run_bind.1 h
  exact hk a d' b d'' hrest

theorem mono (hg : Yields env g P) (h : ∀ a, P a → P' a) : Yields env g P' :=
  fun d a d' hrun => h a (hg d a d' hrun)

theorem pure {a : α} (h : P a) : Yields env (Pure.pure a) P := by
  intro d b d' hrun
  obtain ⟨rfl, -⟩ := run_pure.1 hrun
  exact h

theorem map {f : α → β} (hg : Yields env g P) (h : ∀ a, P a → Q (f a)) : Yields env (f <$> g) Q := by
  intro d b d' hrun
  obtain ⟨a, hrun', rfl⟩ := run_map.1 hrun
  exact h a (hg d a d' hrun')

theorem throw {e : CompileError} : Yields env (MonadExcept.throw e : Gen α) P :=
  fun _ _ _ hrun => absurd hrun run_throw

/-- What follows a failure does not matter. -/
theorem throw_bind {e : CompileError} : Yields env ((MonadExcept.throw e : Gen α) >>= k) Q :=
  bind (P := fun _ => False) throw fun _ => False.elim

theorem defect {x : Defect} : Yields env (Generate.defect x : Gen α) P := throw

theorem defectAt {x : Defect} {loc : Location} : Yields env (Generate.defectAt x loc : Gen α) P := throw

theorem misuseAt {x : Misuse} {loc : Location} : Yields env (Generate.misuseAt x loc : Gen α) P := throw

theorem ofExcept {x : Except CompileError α} : Yields env (Generate.ofExcept x) fun a => x = .ok a :=
  fun _ _ _ hrun => (run_ofExcept.1 hrun).1

theorem table : Yields env Generate.table fun t => t = env.program.types :=
  fun _ _ _ hrun => (run_table.1 hrun).1.symm

/-- The declarations of the program come first. -/
theorem table_bind {k : TypeTable → Gen β} (hk : Yields env (k env.program.types) Q) :
    Yields env (Generate.table >>= k) Q := table.bind fun _ ht => ht ▸ hk

/-- A result that is computed from the declarations of the program. -/
theorem ofTable {f : TypeTable → Except CompileError α} :
    Yields env (do Generate.ofExcept (f (← Generate.table))) fun a => f env.program.types = .ok a :=
  table_bind ofExcept

theorem used {name : String} : Yields env (Generate.used name) fun n => n = name :=
  andThen fun _ => pure rfl

theorem callUsed {name : String} {args : List Target.Expr} :
    Yields env (Generate.callUsed name args) fun e => e = Target.call name args :=
  used.bind fun _ hn => pure (hn ▸ rfl)

theorem helper {name : String} : Yields env (Generate.helper name) fun n => n = name :=
  andThen fun _ => used

theorem callHelper {name : String} {args : List Target.Expr} :
    Yields env (Generate.callHelper name args) fun e => e = Target.call name args :=
  helper.bind fun _ hn => pure (hn ▸ rfl)

/-- A name that is recorded comes first. -/
theorem used_bind {name : String} {k : String → Gen β} (hk : Yields env (k name) Q) :
    Yields env (Generate.used name >>= k) Q := used.bind fun _ hn => hn ▸ hk

/-- A helper comes first. -/
theorem helper_bind {name : String} {k : String → Gen β} (hk : Yields env (k name) Q) :
    Yields env (Generate.helper name >>= k) Q := helper.bind fun _ hn => hn ▸ hk

theorem mapM {f : α → Gen β} {l : List α} {R : α → β → Prop}
    (h : ∀ a ∈ l, Yields env (f a) (R a)) : Yields env (l.mapM f) (List.Forall₂ R l) := by
  induction l with
  | nil => exact pure .nil
  | cons a l ih =>
    rw [List.mapM_cons]
    refine (h a List.mem_cons_self).bind fun b hb => ?_
    exact (ih fun x hx => h x (List.mem_cons_of_mem a hx)).bind fun bs hbs => pure (.cons hb hbs)

/-- As many results as there are members, each with the property. -/
theorem mapM_all {f : α → Gen β} {l : List α} (h : ∀ a ∈ l, Yields env (f a) Q) :
    Yields env (l.mapM f) fun bs => bs.length = l.length ∧ ∀ b ∈ bs, Q b := by
  refine Yields.mono (mapM (R := fun _ => Q) h) fun bs hbs => ⟨hbs.length_eq.symm, fun b hb => ?_⟩
  obtain ⟨i, hi, rfl⟩ := List.mem_iff_getElem.1 hb
  exact hbs.get (hbs.length_eq ▸ hi) hi

end Yields

theorem declOf_yields {name : String} : Yields env (declOf name) fun decl =>
    env.program.types.types.get? name = some decl :=
  (Yields.ofTable (f := fun t => Layout.declOf t name)).mono fun _ h => Layout.declOf_eq_ok.1 h

end Generate

end CellCompiler
