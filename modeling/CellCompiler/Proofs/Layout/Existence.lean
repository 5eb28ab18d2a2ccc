import CellCompiler.Proofs.Layout.Views
import CellCompiler.Proofs.Plan.Soundness

/-!
# Data has a shape

A table of data whose records hold no contracts can be planned only if its records have heights:
what a record holds, perhaps in a cell of its own or not at all, is lower than the record.

* `TypeTable.Data` says which types fields have, `TypeTable.Layered` that a table has heights;
* `exists_layered` finds the heights of a table that has been planned;
* `Layered.shapeWith_ok` shows that every declared type has a shape;
* `Layout.length_fields_le` counts the variables of a record.
-/

namespace CellCompiler

open Relation (TransGen)

/-! ### Heights -/

/-- A map, or a value of a type that is no contract; a record is lower than the bound. -/
inductive TypeTable.Data (table : TypeTable) (height : String → Nat) (bound : Nat) : TypeRef → Prop
  | map {key value : String} {keyAs valueAs : Option String} :
      Data table height bound (.map key keyAs value valueAs)
  | named {name : String} {optional : Bool} {decl : TypeDecl} : table.types.get? name = some decl →
      decl.isContract = false → (decl.isStruct = true → height name < bound) →
      Data table height bound (.named name optional)

/-- A map, or a value of a declared type. -/
inductive TypeTable.Declares (table : TypeTable) : TypeRef → Prop
  | map {key value : String} {keyAs valueAs : Option String} :
      Declares table (.map key keyAs value valueAs)
  | named {name : String} {optional : Bool} {decl : TypeDecl} : table.types.get? name = some decl →
      Declares table (.named name optional)

theorem TypeTable.Data.declares {table : TypeTable} {height : String → Nat} {bound : Nat}
    {ty : TypeRef} (h : table.Data height bound ty) : table.Declares ty := by
  cases h with
  | map => exact .map
  | named hdecl => exact .named hdecl

/-- No field and no parameter that a contract starts with has the type of a contract. -/
structure TypeTable.ContractFree (table : TypeTable) : Prop where
  fields : ∀ decl ∈ table.types.values, ∀ f ∈ decl.fields, ∀ name ∈ f.ty.name?,
    ∀ inner, table.types.get? name = some inner → inner.isContract = false
  params : ∀ decl ∈ table.types.values, ∀ p ∈ decl.initParams, ∀ name ∈ p.ty.name?,
    ∀ inner, table.types.get? name = some inner → inner.isContract = false

/-- Records hold lower records, and contracts are on top. -/
structure TypeTable.Layered (table : TypeTable) (height : String → Nat) (top : Nat) : Prop where
  wellNamed : table.WellNamed
  fields : ∀ decl ∈ table.types.values, decl.isStructLike = true → ∀ f ∈ decl.fields,
    table.Data height (height decl.name) f.ty
  params : ∀ contract ∈ table.contracts, ∀ p ∈ contract.initParams, table.Data height top p.ty
  struct_lt : ∀ decl ∈ table.structs, height decl.name < top
  contract_eq : ∀ contract ∈ table.contracts, height contract.name = top

namespace Plan

variable {table : TypeTable} {plans : Plans}

/-- No record is below itself. -/
theorem planProgram_acyclic (hw : table.WellNamed) (h : planProgram table = .ok plans)
    (name : String) : ¬ TransGen (fun outer inner => table.Embeds inner outer) name name :=
  fun hcycle => planProgram_not_embeds_self hw h name (Relation.transGen_swap.1 hcycle)

/-- What can be planned holds data, if it holds no contracts. -/
theorem data_of_stores {header : Option Header} {plan : Plan}
    {fields : List (String × TypeRef × Option String)} {height : String → Nat} {bound : Nat}
    (h : Plans.Stores table plans header fields plan)
    (hfree : ∀ f ∈ fields, ∀ name ∈ f.2.1.name?, ∀ inner, table.types.get? name = some inner →
      inner.isContract = false)
    (hlt : ∀ f ∈ fields, ∀ name optional decl, f.2.1 = .named name optional →
      table.types.get? name = some decl → decl.isStruct = true → height name < bound) :
    ∀ f ∈ fields, table.Data height bound f.2.1 := by
  obtain ⟨ops, hops, -⟩ := h.ops
  have hop : ∀ f ∈ fields, ∃ op, OpOf table f.1 f.2.2 f.2.1 op :=
    List.forall_mem_of_forall₂ (P := fun _ => True) hops.flip (fun op _ hop _ => ⟨op, hop⟩) (by simp)
  intro f hf
  obtain ⟨op, hop⟩ := hop f hf
  have hfree := hfree f hf
  have hlt := hlt f hf
  generalize f.2.1 = ty at hop hfree hlt
  cases hop with
  | map => exact .map
  | named hdecl _ _ => exact .named hdecl (hfree _ rfl _ hdecl) (hlt _ _ _ rfl hdecl)

end Plan

/-- **A table that can be planned has heights**, if its records hold no contracts. -/
theorem TypeTable.exists_layered {table : TypeTable} {plans : Plans} (hw : table.WellNamed)
    (hfree : table.ContractFree) (h : planProgram table = .ok plans) :
    ∃ height top, table.Layered height top := by
  have hplanned := Plans.planProgram_planned hw h
  have hnodes : ∀ outer inner, table.Embeds inner outer → outer ∈ table.types.keys := by
    rintro outer inner ⟨⟨decl, hdecl, -⟩, -⟩
    exact Dict.mem_keys_iff.2 ⟨decl, hdecl⟩
  obtain ⟨height, hle, hlt⟩ := exists_height hnodes (Plan.planProgram_acyclic hw h)
  -- contracts are put above everything else
  let top := table.types.keys.length + 1
  let above (name : String) : Bool := (table.types.get? name).any (·.isContract)
  have habove : ∀ {name : String} {decl : TypeDecl}, table.types.get? name = some decl →
      above name = decl.isContract := by
    intro name decl hdecl
    simp [above, hdecl]
  have hstruct : ∀ {name : String} {decl : TypeDecl}, table.types.get? name = some decl →
      decl.isStruct = true → (if above name then top else height name) < top := by
    intro name decl hdecl hs
    have hbound := hle name
    simp only [habove hdecl, TypeDecl.isContract_of_isStruct hs, Bool.false_eq_true, if_false, top]
    omega
  refine ⟨fun name => if above name then top else height name, top, hw, ?_, ?_, ?_, ?_⟩
  · intro decl hdecl hs f hf
    have hget := hw.get?_name hdecl
    obtain ⟨plan, hplan⟩ := hplanned.types decl hdecl hs
    obtain ⟨decl', hdecl', -, hstores⟩ := hplanned.planned.stores _ _ hplan
    obtain rfl : decl = decl' := by simpa [hget] using hdecl'
    refine Plan.data_of_stores hstores ?_ ?_ (f.name, f.ty, f.format) (List.mem_map_of_mem hf)
    · rintro _ hx
      obtain ⟨f, hf, rfl⟩ := List.mem_map.1 hx
      exact hfree.fields decl hdecl f hf
    · rintro _ hx name optional inner hty hinner hs'
      obtain ⟨f, hf, rfl⟩ := List.mem_map.1 hx
      by_cases hcontract : above decl.name
      · rw [if_pos hcontract]
        exact hstruct hinner hs'
      · have hembeds : table.Embeds name decl.name :=
          ⟨⟨decl, hget, f, hf, optional, hty⟩, inner, hinner, TypeDecl.isStructLike_of_isStruct hs'⟩
        rw [if_neg hcontract, habove hinner, TypeDecl.isContract_of_isStruct hs']
        exact hlt _ _ hembeds
  · intro contract hc p hp
    obtain ⟨plan, hplan⟩ := hplanned.initArgs contract hc
    obtain ⟨contract', hc', hname, hstores⟩ := hplanned.storesArgs _ _ hplan
    have hmem := (TypeTable.mem_contracts.1 hc).1
    obtain rfl : contract = contract' := by
      have hget := hw.get?_name (TypeTable.mem_contracts.1 hc').1
      rw [hname, hw.get?_name hmem] at hget
      exact Option.some.inj hget
    refine Plan.data_of_stores hstores ?_ ?_ (p.name, p.ty, none) (List.mem_map_of_mem hp)
    · rintro _ hx
      obtain ⟨p, hp, rfl⟩ := List.mem_map.1 hx
      exact hfree.params contract hmem p hp
    · rintro _ - name optional inner - hinner hs
      exact hstruct hinner hs
  · intro decl hdecl
    obtain ⟨hmem, hs⟩ := TypeTable.mem_structs.1 hdecl
    exact hstruct (hw.get?_name hmem) hs
  · intro contract hc
    obtain ⟨hmem, hcontract⟩ := TypeTable.mem_contracts.1 hc
    simp only [habove (hw.get?_name hmem), hcontract, if_true]

/-! ### Shapes -/

theorem Layout.mem_fields_of_visible {decl : TypeDecl} {bounced : Bool} {f : Field}
    (hf : f ∈ visibleFields decl bounced) : f ∈ decl.fields := by
  unfold visibleFields at hf
  split at hf
  · exact List.mem_of_mem_take hf
  · exact hf

namespace TypeTable.Layered

open Layout

variable {table : TypeTable} {height : String → Nat} {top : Nat} {ty : TypeRef}

/-- What a field holds in place is lower. -/
theorem height_lt (h : table.Layered height top) {outer inner : String × Bool}
    (hunfolds : table.Unfolds outer inner) {decl : TypeDecl}
    (hinner : table.types.get? inner.1 = some decl) (hs : decl.isStructLike = true) :
    height inner.1 < height outer.1 := by
  obtain ⟨owner, howner, howner', f, hf, hty⟩ := hunfolds
  have hdata := h.fields owner (Dict.mem_values_of_get? howner) howner' f (mem_fields_of_visible hf)
  rw [h.wellNamed.name_eq howner] at hdata
  obtain ⟨hty, -⟩ | ⟨hty, -⟩ := hty <;> rw [hty] at hdata
  · cases hdata with
    | named hget hcontract hlt =>
      obtain rfl : decl = _ := by simpa [hinner] using hget
      cases hstruct : decl.isStruct with
      | true => exact hlt hstruct
      | false => simp [TypeDecl.isContract_of_isStructLike hs hstruct] at hcontract
  · cases hdata

theorem unfoldable (h : table.Layered height top) : table.Unfoldable := by
  have hlt : ∀ a b, TransGen table.Unfolds a b → ∀ decl, table.types.get? b.1 = some decl →
      decl.isStructLike = true → height b.1 < height a.1 := by
    intro a b hab
    induction hab with
    | single hab => exact fun decl hdecl hs => h.height_lt hab hdecl hs
    | tail _ hbc ih =>
      intro decl hdecl hs
      have hlower := h.height_lt hbc hdecl hs
      obtain ⟨owner, howner, howner', -⟩ := hbc
      exact hlower.trans (ih owner howner howner')
  intro node hnode
  obtain ⟨_, ⟨decl, hdecl, hs, -⟩, -⟩ := TransGen.head'_iff.1 hnode
  exact Nat.lt_irrefl _ (hlt node node hnode decl hdecl hs)

/-- Fields are of declared types. -/
theorem shapeWithin_ne_unknownType (h : table.Layered height top) {fuel : Nat} {mode : Mode}
    {base name : String} (hty : table.Declares ty) :
    shapeWithin table fuel mode ty base ≠ .error (.unknownType name) := by
  induction fuel generalizing mode ty base with
  | zero => cases hty <;> simp [shapeWithin]
  | succ fuel ih =>
    cases hty with
    | map => simp [shapeWithin]
    | @named typeName optional decl hdecl =>
      intro herror
      obtain herror | ⟨decl', hdecl', herror⟩ := Except.bind_eq_error.1 herror
      · simp [declOf, hdecl] at herror
      · obtain rfl : decl = decl' := by simpa [hdecl] using declOf_eq_ok.1 hdecl'
        obtain ⟨hs, -, f, hf, herror⟩ := exists_of_declBy_eq_error herror
        have hfields := h.fields decl (Dict.mem_values_of_get? hdecl) hs
        exact ih (hfields f (mem_fields_of_visible hf)).declares herror

/-- **Every declared type has a shape.** -/
theorem shapeWith_ok (h : table.Layered height top) (hty : table.Declares ty) (mode : Mode)
    (base : String) : ∃ sh, shapeWith table mode ty base = .ok sh := by
  cases hshape : shapeWith table mode ty base with
  | ok sh => exact ⟨sh, rfl⟩
  | error e =>
    obtain ⟨name, rfl⟩ | rfl := error_of_shapeWithin hshape
    · exact absurd hshape (h.shapeWithin_ne_unknownType hty)
    · exact absurd hshape (shapeWith_ne_endless h.unfoldable)

/-- A record of declared types has a shape. -/
theorem record_ok (h : table.Layered height top) {fields : List (String × TypeRef)}
    (hfields : ∀ f ∈ fields, table.Declares f.2) (base : String) :
    ∃ sh, Layout.record table fields base = .ok sh := by
  cases hshape : Layout.record table fields base with
  | ok sh => exact ⟨sh, rfl⟩
  | error e =>
    obtain ⟨f, hf, herror⟩ := exists_of_recordBy_eq_error hshape
    obtain ⟨sh, hsh⟩ := h.shapeWith_ok (hfields f hf) {} (Name.tick base f.1)
    simp [Layout.shape, hsh] at herror

end TypeTable.Layered

/-! ### Numbers of variables -/

namespace Layout

namespace Shape

mutual

theorem length_leaves_pos : (sh : Shape) → sh.Proper → 0 < sh.leaves.length
  | leaf _ _, _ => Nat.one_pos
  | product parts, h => by
    have hle := length_le_leavesOf parts h.2
    exact (List.length_pos_iff.2 h.1).trans_le hle

theorem length_le_leavesOf : (shs : List Shape) → AllProper shs → shs.length ≤ (leavesOf shs).length
  | [], _ => Nat.le_refl 0
  | sh :: shs, h => by
    have hpos := length_leaves_pos sh h.1
    have hle := length_le_leavesOf shs h.2
    rw [leavesOf, List.length_append, List.length_cons]
    omega

end

end Shape

/-- A record has at least one variable for each field. -/
theorem length_fields_le {table : TypeTable} {decl : TypeDecl} {name base : String} {sh : Shape}
    (hdecl : table.types.get? name = some decl) (hs : decl.isStructLike = true)
    (h : shape table (.plain name) base = .ok sh) : decl.fields.length ≤ sh.leaves.length := by
  have hproper := shapeWithin_proper h
  obtain ⟨n, h⟩ := Machine.declBy_of_shapeWithin hdecl h
  rw [declBy_eq_ok, TypeDecl.primitive?_eq_none_iff.2 hs] at h
  obtain ⟨hnil, -⟩ | ⟨-, parts, rfl, hparts⟩ := recordBy_eq_ok.1 h
  · have hfields : decl.fields = [] := List.map_eq_nil_iff.1 hnil
    exact hfields ▸ Nat.zero_le _
  · have hlength := hparts.length_eq
    rw [List.length_map] at hlength
    exact hlength ▸ Shape.length_le_leavesOf parts hproper.2

end Layout

end CellCompiler
