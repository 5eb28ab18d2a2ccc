import CellCompiler.Proofs.Layout
import CellCompiler.Proofs.Machine.Helpers
import CellCompiler.Proofs.Machine.Keeping
import CellCompiler.Proofs.Plan.Soundness

/-!
# Values with checked addresses

* `Verified table regular ty v` says that every address in a value of a type, at any depth, is a
  standard one, or absent where the type allows it;
* `VerifiedFields` is the same for a record with given fields, such as what is left of a message after
  a bounce;
* `Verified.rebinds` says that a value of a type is still verified after its pattern has been bound
  to it;
* `Loaded` and `LoadedField` say the same of what operations of a plan load
  (`LoadedField.verified`).

A record in its optional form is a tuple of its leaves, so its addresses are found by counting
leaves. This needs that each scalar is one leaf, which `regular` stands for: it may fail for records
that hold the state of a contract, since another contract's state is loaded by a function of
that name, if there is one.
-/

namespace CellCompiler

/-- No record has the state of a contract as a field. -/
def TypeTable.HoldsNoContract (table : TypeTable) : Prop :=
  ∀ decl ∈ table.structs, ∀ f ∈ decl.fields, ∀ name optional inner, f.ty = .named name optional →
    table.types.get? name = some inner → inner.isContract = false

namespace Machine

open Layout (Shape)

variable {table : TypeTable} {regular : Prop} {c : Code} {s s' : State} {v : Val}

/-! ### Types -/

/-- Every address in the value of a type is standard, or absent where the type allows it. Nothing is
said about the state of contracts. -/
inductive Verified (table : TypeTable) (regular : Prop) : TypeRef → Val → Prop where
  | address {name : String} {optional : Bool} {decl : TypeDecl} {x : Slice} :
      table.types.get? name = some decl → decl.primitive? = some .address → IsStandard x.bits →
      Verified table regular (.named name optional) (.slice x)
  | scalar {name : String} {optional : Bool} {decl : TypeDecl} {kind : PrimitiveKind} {v : Val} :
      table.types.get? name = some decl → decl.primitive? = some kind → kind ≠ .address →
      (regular → v.isLeaf = true) → Verified table regular (.named name optional) v
  | absent {name : String} {decl : TypeDecl} : table.types.get? name = some decl →
      decl.isContract = false → Verified table regular (.named name true) .null
  /-- A record without fields looks the same in its optional form. -/
  | empty {name : String} {optional : Bool} {decl : TypeDecl} {v : Val} :
      table.types.get? name = some decl → decl.isStruct = true → decl.fields = [] →
      (regular → v.isLeaf = true) → Verified table regular (.named name optional) v
  | record {name : String} {decl : TypeDecl} {vs : List Val} :
      table.types.get? name = some decl → decl.isStruct = true → decl.fields ≠ [] →
      vs.length = decl.fields.length →
      (∀ p ∈ decl.fields.zip vs, Verified table regular p.1.ty p.2) →
      Verified table regular (.named name false) (.tensor vs)
  | present {name : String} {decl : TypeDecl} {v : Val} :
      table.types.get? name = some decl → decl.isStruct = true →
      Verified table regular (.named name false) v → Verified table regular (.named name true) v.boxed
  | contract {name : String} {optional : Bool} {decl : TypeDecl} {v : Val} :
      table.types.get? name = some decl → decl.isContract = true →
      Verified table regular (.named name optional) v
  | unnamed {ty : TypeRef} {v : Val} : ty.name? = none → (regular → v.isLeaf = true) →
      Verified table regular ty v

/-- Every address in a record with these fields is standard, or absent where its type allows it. -/
def VerifiedFields (table : TypeTable) (regular : Prop) (fields : List Field) (v : Val) : Prop :=
  match fields with
  | [] => regular → v.isLeaf = true
  | fields => ∃ vs, v = .tensor vs ∧
      List.Forall₂ (fun f w => Verified table regular f.ty w) fields vs

section Records

variable {name : String} {decl : TypeDecl}

theorem verifiedFields_iff {fields : List Field} (hfields : fields ≠ []) :
    VerifiedFields table regular fields v ↔ ∃ vs, v = .tensor vs ∧
      List.Forall₂ (fun f w => Verified table regular f.ty w) fields vs := by
  cases fields with
  | nil => exact absurd rfl hfields
  | cons f fields => rfl

theorem VerifiedFields.verified (hdecl : table.types.get? name = some decl)
    (hstruct : decl.isStruct = true) (h : VerifiedFields table regular decl.fields v) :
    Verified table regular (.plain name) v := by
  by_cases hfields : decl.fields = []
  · rw [hfields] at h
    exact .empty hdecl hstruct hfields h
  · obtain ⟨vs, rfl, hvs⟩ := (verifiedFields_iff hfields).1 h
    exact .record hdecl hstruct hfields hvs.length_eq.symm fun p hp =>
      (List.forall₂_iff_zip.1 hvs).2 hp

theorem Verified.fields (hdecl : table.types.get? name = some decl) (hstruct : decl.isStruct = true)
    (h : Verified table regular (.plain name) v) : VerifiedFields table regular decl.fields v := by
  have hprimitive : decl.primitive? = none := primitive?_of_isStruct hstruct
  have hcontract := TypeDecl.isContract_of_isStruct hstruct
  generalize hty : TypeRef.plain name = ty at h
  cases h with
  | address hget _ _ | scalar hget _ _ _ | contract hget _ =>
    cases hty
    simp_all
  | absent _ _ | present _ _ _ => cases hty
  | empty hget _ hfields hleaf =>
    cases hty
    obtain rfl : decl = _ := by simpa [hdecl] using hget
    rw [hfields]
    exact hleaf
  | record hget _ hfields hlength hvs =>
    cases hty
    obtain rfl : decl = _ := by simpa [hdecl] using hget
    exact (verifiedFields_iff hfields).2 ⟨_, rfl, List.forall₂_iff_zip.2 ⟨hlength.symm, fun hp => hvs _ hp⟩⟩
  | unnamed hname _ =>
    subst hty
    simp [TypeRef.plain, TypeRef.name?] at hname

end Records

/-! ### Patterns -/

theorem carries_of_bind_leaf {name : String} {l : Layout.Leaf}
    (h : Yields (bind true v (Shape.leaf name l).pattern) s () s') :
    s.Keeps (· ∈ (Shape.leaf name l).names) s' ∧ Carries s' (.leaf name l) v := by
  rw [Shape.pattern, yields_bind_ident, State.assign_of_declare] at h
  subst h
  refine ⟨State.frames_set.keeps.mono fun x hx => by simp [hx], ?_⟩
  simp [Carries]

/-- Parts whose values stay verified when they are bound one by one. -/
theorem rebinds_all {n : Nat} {base : String} {fields : List Field} {parts : List Shape}
    {vs : List Val}
    (hparts : List.Forall₂ (fun (f : Field) part =>
      Layout.shapeWithin table n {} f.ty (Name.tick base f.name) = .ok part) fields parts)
    (hvs : List.Forall₂ (fun (f : Field) v => ∀ {fuel : Nat} {base : String} {sh : Shape}
      {s s' : State}, Layout.shapeWithin table fuel {} f.ty base = .ok sh → sh.names.Nodup →
      Yields (bind true v sh.pattern) s () s' →
      s.Keeps (· ∈ sh.names) s' ∧ ∃ w, Carries s' sh w ∧ Verified table regular f.ty w) fields vs)
    (hnodup : (Shape.namesOf parts).Nodup)
    (h : Yields (bindAll true vs (Shape.patterns parts)) s () s') :
    s.Keeps (· ∈ Shape.namesOf parts) s' ∧ ∃ ws, CarriesAll s' parts ws ∧
      List.Forall₂ (fun f w => Verified table regular f.ty w) fields ws := by
  induction hparts generalizing vs s with
  | nil =>
    cases hvs
    rw [Shape.patterns, bindAll, yields_pure] at h
    · obtain ⟨-, rfl⟩ := h
      exact ⟨.refl _, [], trivial, .nil⟩
    · simp
  | @cons f part fields parts hpart _ ih =>
    obtain _ | ⟨hv, hvs⟩ := hvs
    rw [Shape.namesOf_cons, List.nodup_append] at hnodup
    rw [Shape.patterns, bindAll, yields_bind] at h
    obtain ⟨_, t, hhead, htail⟩ := h
    obtain ⟨hkeeps, w, hw, hverified⟩ := hv hpart hnodup.1 hhead
    obtain ⟨hkeeps', ws, hws, hall⟩ := ih hvs hnodup.2.1 htail
    rw [Shape.namesOf_cons]
    refine ⟨(hkeeps.mono fun x hx => List.mem_append_left _ hx).trans
      (hkeeps'.mono fun x hx => List.mem_append_right _ hx), w :: ws, ⟨?_, hws⟩, .cons hverified hall⟩
    exact hw.keeps hkeeps' fun x hx hmem => hnodup.2.2 x hx x hmem rfl

/-- **Binding keeps addresses checked.** -/
theorem Verified.rebinds {ty : TypeRef} (hv : Verified table regular ty v) {fuel : Nat}
    {base : String} {sh : Shape} (hsh : Layout.shapeWithin table fuel {} ty base = .ok sh)
    (hnodup : sh.names.Nodup) (h : Yields (bind true v sh.pattern) s () s') :
    s.Keeps (· ∈ sh.names) s' ∧ ∃ w, Carries s' sh w ∧ Verified table regular ty w := by
  have hleaf : ∀ {ty : TypeRef} {v : Val} {name : String} {l : Layout.Leaf} {s s' : State},
      Verified table regular ty v → Yields (bind true v (Shape.leaf name l).pattern) s () s' →
      s.Keeps (· ∈ (Shape.leaf name l).names) s' ∧
        ∃ w, Carries s' (.leaf name l) w ∧ Verified table regular ty w :=
    fun hv h => (carries_of_bind_leaf h).imp_right fun hw => ⟨_, hw, hv⟩
  induction hv generalizing fuel base sh s s' with
  | address hget hkind hx =>
    obtain ⟨n, hsh⟩ := declBy_of_shapeWithin hget hsh
    rw [Layout.declBy_eq_ok, hkind] at hsh
    subst hsh
    exact hleaf (.address hget hkind hx) h
  | scalar hget hkind hne hx =>
    obtain ⟨n, hsh⟩ := declBy_of_shapeWithin hget hsh
    rw [Layout.declBy_eq_ok, hkind] at hsh
    subst hsh
    exact hleaf (.scalar hget hkind hne hx) h
  | absent hget hcontract =>
    obtain ⟨n, hsh⟩ := declBy_of_shapeWithin hget hsh
    rw [Layout.declBy_eq_ok] at hsh
    split at hsh
    · subst hsh
      exact hleaf (.absent hget hcontract) h
    · rw [if_pos rfl] at hsh
      subst hsh
      exact hleaf (.absent hget hcontract) h
  | @empty _ optional _ _ hget hstruct hfields hx =>
    obtain ⟨n, hsh⟩ := declBy_of_shapeWithin hget hsh
    rw [Layout.declBy_eq_ok, primitive?_of_isStruct hstruct] at hsh
    obtain rfl : Shape.leaf base .boxed = sh := by
      cases optional <;> simpa [Layout.visibleFields, hfields, Layout.recordBy, eq_comm] using hsh
    exact hleaf (.empty hget hstruct hfields hx) h
  | @record name decl vs hget hstruct hfields hlength _ ih =>
    obtain ⟨n, hsh⟩ := declBy_of_shapeWithin hget hsh
    rw [Layout.declBy_eq_ok, primitive?_of_isStruct hstruct] at hsh
    simp only [Layout.visibleFields, Bool.false_eq_true, if_false] at hsh
    rcases Layout.recordBy_eq_ok.1 hsh with ⟨hnil, -⟩ | ⟨-, parts, rfl, hparts⟩
    · exact absurd (List.map_eq_nil_iff.1 hnil) hfields
    · rw [List.forall₂_map_left_iff] at hparts
      rw [Shape.names_product] at hnodup ⊢
      have hvs : vs.length = (Shape.patterns parts).length := by
        rw [hlength, hparts.length_eq, length_patterns]
      rw [Shape.pattern, bind] at h
      simp only [hvs, if_true] at h
      obtain ⟨hkeeps, ws, hws, hall⟩ := rebinds_all hparts
        (List.forall₂_iff_zip.2 ⟨hlength.symm, fun hmem => ih _ hmem⟩) hnodup h
      refine ⟨hkeeps, .tensor ws, hws, .record hget hstruct hfields hall.length_eq.symm ?_⟩
      exact fun p hp => (List.forall₂_iff_zip.1 hall).2 hp
  | present hget hstruct hv _ =>
    obtain ⟨n, hsh⟩ := declBy_of_shapeWithin hget hsh
    rw [Layout.declBy_eq_ok, primitive?_of_isStruct hstruct] at hsh
    obtain rfl : sh = Shape.leaf base .boxed := by simpa using hsh
    exact hleaf (.present hget hstruct hv) h
  | contract hget hcontract =>
    obtain ⟨hkeeps, w, hw⟩ := exists_carries_of_bind hnodup h
    exact ⟨hkeeps, w, hw, .contract hget hcontract⟩
  | @unnamed ty v hname hx =>
    obtain ⟨l, rfl⟩ : ∃ l, Shape.leaf base l = sh := by
      cases ty with
      | named _ _ | bounced _ => simp [TypeRef.name?] at hname
      | _ => exact ⟨_, by cases fuel <;> simpa [Layout.shapeWithin] using hsh⟩
    exact hleaf (.unnamed hname hx) h

/-! ### Operations -/

section Operations

open Plan (Op OpKind OpOf)

/-- What a kind of operation loads, if all addresses in it are checked. -/
def Loaded (table : TypeTable) (regular : Prop) : OpKind → Val → Prop
  | .address, v => ∃ x, v = .slice x ∧ IsStandard x.bits
  | .struct type _, v => Verified table regular (.plain type) v
  | _, v => regular → v.isLeaf = true

/-- What an operation loads, which may be absent. -/
def LoadedField (table : TypeTable) (regular : Prop) (op : Op) (v : Val) : Prop :=
  if op.optional then
    match op.kind with
    | .struct type _ => Verified table regular (.named type true) v
    | kind => v = .null ∨ Loaded table regular kind v
  else Loaded table regular op.kind v

variable {name type : String} {format : Option String} {ty : TypeRef} {op op' : Op} {kind : OpKind}

theorem loaded_iff_isLeaf (hstruct : kind.isStruct = false) (haddress : kind ≠ .address) :
    Loaded table regular kind v ↔ (regular → v.isLeaf = true) := by
  cases kind with
  | address => exact absurd rfl haddress
  | struct type byRef => simp [OpKind.isStruct] at hstruct
  | _ => rfl

theorem loadedField_iff (hstruct : op.kind.isStruct = false) : LoadedField table regular op v ↔
    op.optional = true ∧ v = .null ∨ Loaded table regular op.kind v := by
  obtain ⟨name, kind, optional⟩ := op
  cases optional with
  | false => simp [LoadedField]
  | true =>
    cases kind with
    | struct type byRef => simp [OpKind.isStruct] at hstruct
    | _ => simp [LoadedField]

theorem loadedField_struct {field : String} {byRef optional : Bool} :
    LoadedField table regular ⟨field, .struct type byRef, optional⟩ v ↔
      Verified table regular (.named type optional) v := by
  cases optional <;> rfl

/-- Only addresses are stored as such. -/
theorem ne_address_of_primitiveKind {p : PrimitiveKind} (h : Plan.primitiveKind format p = .ok kind)
    (hp : p ≠ .address) : kind ≠ .address := by
  cases p with
  | address => exact absurd rfl hp
  | int => rcases Plan.primitiveKind_int h with rfl | ⟨_, rfl⟩ | ⟨_, rfl⟩ <;> simp
  | slice => simp only [Plan.primitiveKind] at h; split at h <;> cases h <;> simp
  | string => simp only [Plan.primitiveKind] at h; split at h <;> cases h <;> simp
  | stringBuilder => simp [Plan.primitiveKind] at h
  | _ => cases h; simp

/-- What the operation of a field loads is a verified value of the type of the field. -/
theorem LoadedField.verified (hw : table.WellNamed) (hop : OpOf table name format ty op)
    (hsettles : op.Settles op') (h : LoadedField table regular op' v) :
    Verified table regular ty v := by
  cases hop with
  | map =>
    obtain rfl := hsettles.eq_of_isStruct rfl
    exact .unnamed rfl h
  | @named typeName optional decl kind hdecl hkind _ =>
    cases hp : decl.primitive? with
    | none =>
      obtain rfl : OpKind.struct typeName false = kind := by
        rw [Plan.declKind, hp, hw.name_eq hdecl] at hkind
        simpa using hkind
      rcases hsettles with rfl | rfl
      · exact loadedField_struct.1 h
      · exact loadedField_struct.1 h
    | some p =>
      rw [Plan.declKind, hp] at hkind
      have hstruct := Plan.primitiveKind_isStruct hkind
      obtain rfl := hsettles.eq_of_isStruct hstruct
      rcases (loadedField_iff hstruct).1 h with ⟨rfl, rfl⟩ | h
      · exact .absent hdecl (TypeDecl.isContract_of_primitive? hp)
      · by_cases haddress : p = .address
        · subst haddress
          obtain rfl : OpKind.address = kind := by simpa [Plan.primitiveKind] using hkind
          obtain ⟨x, rfl, hx⟩ := h
          exact .address hdecl hp hx
        · have hne := ne_address_of_primitiveKind hkind haddress
          exact .scalar hdecl hp haddress ((loaded_iff_isLeaf hstruct hne).1 h)

end Operations

end Machine

end CellCompiler
