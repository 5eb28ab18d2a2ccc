import CellCompiler.Generate.Accessor
import CellCompiler.Generate.Codec
import CellCompiler.Proofs.Generate.Composition

/-!
# Properties that the code of fields inherits

Codecs and conversions put together code for one field of a record after the other: what stores or loads
it, and what takes it into a tuple or out of one. What holds of the variables that they start from holds of
that code, if whatever is put together from them inherits it.

* `storeField_has` is about storing, `loadField_has` about loading;
* `tupleField_has`, `untupleField_has` and `fromOutside_has` are about conversions.
-/

namespace CellCompiler

open Plan (Op OpKind)
open Target

namespace Generate

variable {env : Env} {P : Target.Expr → Prop} {name : String} {ty : TypeRef} {args : List Target.Expr}

section

variable (hP : Hereditary P)

include hP

theorem callUsed_inherits (hargs : ∀ e ∈ args, P e) : Yields env (callUsed name args) P :=
  Yields.callUsed.mono fun _ he => he ▸ hP.called hargs

theorem callHelper_inherits (hargs : ∀ e ∈ args, P e) : Yields env (callHelper name args) P :=
  Yields.callHelper.mono fun _ he => he ▸ hP.called hargs

theorem method_inherits {receiver : Target.Expr} (hreceiver : P receiver) (hargs : ∀ e ∈ args, P e) :
    P (method receiver name args) := hP.method receiver name args hreceiver hargs

/-! ### Storing -/

section

variable {builder value : Target.Expr}

theorem sliceCell_inherits (hvalue : P value) : P (sliceCell value) :=
  hP.endCell (method_inherits hP hP.beginCell (by simpa using hvalue))

theorem storeFlag_inherits {flag : Bool} (hbuilder : P builder) : P (storeFlag builder flag) :=
  method_inherits hP hbuilder (by simpa using ⟨hP.bool flag, hP.intOperand⟩)

theorem storeOp_has {kind : OpKind} (hbuilder : P builder) (hvalue : P value) :
    Yields env (storeOp builder value kind) P := by
  have hstore {callee : String} {args : List Target.Expr} (hargs : ∀ e ∈ args, P e) :
      P (method builder callee args) := method_inherits hP hbuilder hargs
  have hone {e : Target.Expr} (he : P e) : ∀ a ∈ [e], P a := List.forall_mem_singleton.2 he
  have hsized {size : Int} : ∀ e ∈ [value, int size], P e := by simpa using ⟨hvalue, hP.intOperand⟩
  have hboth : ∀ e ∈ [builder, value], P e := by simpa using ⟨hbuilder, hvalue⟩
  cases kind with
  | int | uint | boolean => exact .pure (hstore hsized)
  | address => exact callHelper_inherits hP hboth
  | struct typeName byRef =>
    cases byRef with
    | false => exact callUsed_inherits hP hboth
    | true => exact (callUsed_inherits hP (hone hvalue)).bind fun e he => .pure (hstore (hone he))
  | cell format =>
    cases format with
    | reference => exact .pure (hstore (hone hvalue))
    | remainder => exact .pure (hstore (hone (hP.beginParse hvalue)))
  | slice format =>
    cases format with
    | reference => exact .pure (hstore (hone (sliceCell_inherits hP hvalue)))
    | remainder => exact .pure (hstore (hone hvalue))
  | builder format =>
    cases format with
    | reference => exact .pure (hstore (hone (hP.endCell hvalue)))
    | remainder => exact .pure (hstore (hone hvalue))
  | string => exact .pure (hstore (hone (sliceCell_inherits hP hvalue)))
  | coins | fixedBytes | map => exact .pure (hstore (hone hvalue))

theorem storeField_has {op : Op} (hbuilder : P builder) (hvalue : P value) :
    Yields env (storeField builder op value) P := by
  have hstored {present : Target.Expr} {kind : OpKind} (hpresent : P present) : Yields env (do
      let stored ← storeOp (storeFlag builder true) present kind
      return .ternary (not (isNull value)) stored (storeFlag builder false)) P :=
    (storeOp_has hP (storeFlag_inherits hP hbuilder) hpresent).bind fun stored h =>
      .pure (hP.ternary _ _ _ (hP.not (hP.isNull hvalue)) h (storeFlag_inherits hP hbuilder))
  unfold storeField
  split
  · exact storeOp_has hP hbuilder hvalue
  · split
    · exact callUsed_inherits hP (by simpa using ⟨hbuilder, hvalue⟩)
    · split
      · exact (callUsed_inherits hP (by simpa using hvalue)).bind fun present => hstored
      · rw [pure_bind]
        exact hstored hvalue

end

/-! ### Loading -/

section

variable {slice : Target.Expr}
  (hload : ∀ callee args, (∀ e ∈ args, P e) → P (Target.modify slice callee args))

include hload

theorem loadReference_inherits : P (loadReference slice) := hP.beginParse (hload _ _ (by simp))

theorem loadOp_has {kind : OpKind} : Yields env (loadOp slice kind) P := by
  have hsized {callee : String} {size : Int} : P (Target.modify slice callee [int size]) :=
    hload _ _ (by simpa using hP.intOperand)
  have hreference : ∀ e ∈ [loadReference slice], P e := by simpa using loadReference_inherits hP hload
  cases kind with
  | address => exact .helper_bind (.pure (hload _ _ (by simp)))
  | struct typeName byRef =>
    cases byRef with
    | false => exact .used_bind (.pure (hload _ _ (by simp)))
    | true => exact callUsed_inherits hP hreference
  | builder => exact .pure (method_inherits hP hP.beginCell hreference)
  | slice | string => exact .pure (loadReference_inherits hP hload)
  | int | uint | boolean | fixedBytes => exact .pure hsized
  | coins | cell | map => exact .pure (hload _ _ (by simp))

theorem loadOptional_has {kind : OpKind} : Yields env (loadOptional slice kind) P := by
  have hpresent {value : Target.Expr} (hvalue : P value) :
      P (.ternary (Target.modify slice "load_int" [int 1]) value null) :=
    hP.ternary _ _ _ (hload _ _ (by simpa using hP.intOperand)) hvalue hP.null
  unfold loadOptional
  split
  · exact .used_bind (.pure (hload _ _ (by simp)))
  · refine (loadOp_has hP hload).bind fun loaded hloaded => ?_
    split
    · exact (callUsed_inherits hP (by simpa using hloaded)).bind fun value h => .pure (hpresent h)
    · rw [pure_bind]
      exact .pure (hpresent hloaded)

/-- Loading a field binds its pattern, and then perhaps empties the slice. -/
theorem loadField_has {op : Op} {pattern : Target.Expr} (hslice : P slice) :
    Yields env (loadField slice op pattern) fun out => ∃ value rest, out = var pattern value :: rest ∧
      P value ∧ (rest = [] ∨ ∃ empty, rest = [assign slice (call empty [])]) := by
  have hremainder : P (remainderOf slice op.kind) := by
    unfold remainderOf
    split
    · exact sliceCell_inherits hP hslice
    · exact method_inherits hP hP.beginCell (by simpa using hslice)
    · exact hslice
  unfold loadField
  split
  · exact .helper_bind (.pure ⟨_, _, rfl, hremainder, .inr ⟨_, rfl⟩⟩)
  · split
    · exact (loadOptional_has hP hload).bind fun value h => .pure ⟨_, _, rfl, h, .inl rfl⟩
    · exact (loadOp_has hP hload).bind fun value h => .pure ⟨_, _, rfl, h, .inl rfl⟩

end

/-! ### Conversions -/

theorem tupleField_has {field : Field} (hvar : field.ty.isOptional = true → P (fieldVar field))
    (hpattern : env.Patterned P field.ty (Name.tick "v" field.name)) : Yields env (tupleField field) P := by
  have hfield : Yields env (fieldPattern field) P :=
    (Yields.ofTable (f := fun t => Layout.unpack t field.ty (Name.tick "v" field.name))).mono hpattern
  refine .andThen fun nested? => ?_
  split
  · split
    · next hoptional => exact callUsed_inherits hP (by simpa using hvar hoptional)
    · exact .used_bind (hfield.bind fun value hvalue => .pure (hP.called (by simpa using hvalue)))
  · exact hfield

theorem untupleField_has {field : Field} (hvar : P (fieldVar field)) : Yields env (untupleField field) P := by
  refine .andThen fun nested? => ?_
  split
  · split <;> exact callUsed_inherits hP (by simpa using hvar)
  · exact .pure hvar

theorem fromOutside_has {value : Target.Expr} (hvalue : P value) : Yields env (fromOutside ty value) P := by
  have hargs : ∀ e ∈ [value], P e := by simpa using hvalue
  refine .andThen fun nested? => ?_
  split
  · unfold fromExternalValue
    split
    · exact callUsed_inherits hP hargs
    · refine .used_bind ?_
      split
      · exact .pure (hP.called hargs)
      · exact .helper_bind (.pure (hP.called (by simpa using hP.called hargs)))
  · refine .andThen fun kind? => ?_
    split
    · refine (callHelper_inherits hP hargs).bind fun verified hverified => .pure ?_
      split
      · exact hP.ternary _ _ _ (hP.isNull hvalue) hP.null hverified
      · exact hverified
    · exact .pure hvalue

end

end Generate

end CellCompiler
