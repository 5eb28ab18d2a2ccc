import CellCompiler.Machine.Value
import CellCompiler.Proofs.Cell
import CellCompiler.Proofs.Failure
import CellCompiler.Proofs.Source.Table

/-!
# Values of source types

* `Val.Same` compares values by what they hold: a slice is what is left to read in it;
* `Val.boxed` is the optional form of a record: a tuple of its leaves;
* `Inhabits table P ty v` says that `v` is a value of a type, with addresses that satisfy `P`;
* `Represents table ty format v` says that `v` is a value of a type in a storage format.
-/

namespace CellCompiler

namespace Machine

namespace Val

/-! ### Comparison -/

mutual

/-- The value with every slice read from the start of a cell of its own. -/
def norm : Val → Val
  | slice s => slice s.toCell.parse
  | tuple items => tuple (normAll items)
  | tensor items => tensor (normAll items)
  | other => other

/-- The same for several values. -/
def normAll : List Val → List Val
  | [] => []
  | v :: vs => v.norm :: normAll vs

end

/-- The values hold the same. -/
def Same (v w : Val) : Prop := v.norm = w.norm

variable {v w : Val} {vs ws : List Val}

theorem Same.refl (v : Val) : v.Same v := rfl

/-- Only a number holds the same as a number. -/
theorem Same.eq_int {n : Int} (h : v.Same (int n)) : v = int n := by
  cases v <;> simp_all [Same, norm]

theorem same_slice {s t : Slice} {bits : List Bool} {refs : List Cell} (hs : s.Holds bits refs)
    (ht : t.Holds bits refs) : (slice s).Same (slice t) := by
  simp [Same, norm, Slice.toCell, hs.bits_eq, hs.refs_eq, ht.bits_eq, ht.refs_eq]

theorem normAll_eq_map (vs : List Val) : normAll vs = vs.map norm := by
  induction vs with
  | nil => rfl
  | cons v vs ih => simp [normAll, ih]

theorem same_tensor (h : List.Forall₂ Same ws vs) : (tensor ws).Same (tensor vs) := by
  have hmap : ws.map norm = vs.map norm :=
    (List.map_eq_map_of_forall₂ h fun _ _ hsame => hsame.symm).symm
  simp [Same, norm, normAll_eq_map, hmap]

/-- The value is not a tensor. -/
def isLeaf : Val → Bool
  | tensor _ => false
  | _ => true

theorem flatten_of_isLeaf (h : v.isLeaf = true) : v.flatten = [v] := by
  cases v with
  | tensor items => simp [isLeaf] at h
  | _ => rfl

@[simp] theorem isLeaf_norm : v.norm.isLeaf = v.isLeaf := by
  cases v <;> rfl

mutual

theorem flatten_norm : (v : Val) → v.norm.flatten = v.flatten.map norm
  | tensor items => by rw [norm, flatten, flatten, flattenAll_normAll items]
  | null | int _ | cell _ | slice _ | builder _ | tuple _ => by
    rw [flatten_of_isLeaf (by rw [isLeaf_norm]; rfl), flatten_of_isLeaf rfl]
    rfl

theorem flattenAll_normAll : (vs : List Val) → flattenAll (normAll vs) = (flattenAll vs).map norm
  | [] => rfl
  | v :: vs => by
    rw [normAll, flattenAll, flattenAll, flatten_norm v, flattenAll_normAll vs, List.map_append]

end

mutual

theorem isLeaf_of_mem_flatten : (v : Val) → ∀ x ∈ v.flatten, x.isLeaf = true
  | tensor items => by simpa [flatten] using isLeaf_of_mem_flattenAll items
  | null | int _ | cell _ | slice _ | builder _ | tuple _ => by simp [flatten, isLeaf]

theorem isLeaf_of_mem_flattenAll : (vs : List Val) → ∀ x ∈ flattenAll vs, x.isLeaf = true
  | [] => by simp [flattenAll]
  | v :: vs => by
    intro x hx
    rcases List.mem_append.1 hx with hx | hx
    · exact isLeaf_of_mem_flatten v x hx
    · exact isLeaf_of_mem_flattenAll vs x hx

end

theorem flattenAll_append : flattenAll (vs ++ ws) = flattenAll vs ++ flattenAll ws := by
  induction vs with
  | nil => rfl
  | cons v vs ih => rw [List.cons_append, flattenAll, flattenAll, ih, List.append_assoc]

theorem flattenAll_of_isLeaf (h : ∀ x ∈ vs, x.isLeaf = true) : flattenAll vs = vs := by
  induction vs with
  | nil => rfl
  | cons v vs ih =>
    rw [List.forall_mem_cons] at h
    rw [flattenAll, flatten_of_isLeaf h.1, ih h.2, List.singleton_append]

/-! ### Optional records -/

/-- The optional form of a record that is present. -/
def boxed : Val → Val
  | tensor items => tuple (flattenAll items)
  | other => other

@[simp] theorem isLeaf_boxed : v.boxed.isLeaf = true := by cases v <;> rfl

theorem norm_boxed (v : Val) : v.boxed.norm = v.norm.boxed := by
  cases v with
  | tensor items => simp [boxed, norm, normAll_eq_map, ← flattenAll_normAll]
  | _ => rfl

theorem Same.boxed (h : v.Same w) : v.boxed.Same w.boxed := by
  unfold Same at h ⊢
  rw [norm_boxed, norm_boxed, h]

end Val

/-! ### Types -/

/-- The value is one of a type, with addresses that satisfy `P`. Any other scalar takes one place on the
stack, whatever it holds. Modules that records are in know no conversions for the state of contracts,
so contracts are left out. -/
inductive Inhabits (table : TypeTable) (P : Slice → Prop) : TypeRef → Val → Prop where
  | address {name : String} {optional : Bool} {decl : TypeDecl} {x : Slice} :
      table.types.get? name = some decl → decl.primitive? = some .address → P x →
      Inhabits table P (.named name optional) (.slice x)
  | scalar {name : String} {optional : Bool} {decl : TypeDecl} {kind : PrimitiveKind} {v : Val} :
      table.types.get? name = some decl → decl.primitive? = some kind → kind ≠ .address →
      v.isLeaf = true → Inhabits table P (.named name optional) v
  /-- A record without fields. -/
  | empty {name : String} {decl : TypeDecl} : table.types.get? name = some decl →
      decl.isStruct = true → decl.fields = [] → Inhabits table P (.named name false) (.tuple [])
  /-- A record is the product of its fields. -/
  | record {name : String} {decl : TypeDecl} {vs : List Val} :
      table.types.get? name = some decl → decl.isStruct = true → decl.fields ≠ [] →
      vs.length = decl.fields.length → (∀ p ∈ decl.fields.zip vs, Inhabits table P p.1.ty p.2) →
      Inhabits table P (.named name false) (.tensor vs)
  | absent {name : String} {decl : TypeDecl} : table.types.get? name = some decl →
      decl.isContract = false → Inhabits table P (.named name true) .null
  | present {name : String} {decl : TypeDecl} {v : Val} : table.types.get? name = some decl →
      decl.isStruct = true → Inhabits table P (.named name false) v →
      Inhabits table P (.named name true) v.boxed
  | map {key : String} {keyAs : Option String} {value : String} {valueAs : Option String} {v : Val} :
      v.isLeaf = true → Inhabits table P (.map key keyAs value valueAs) v

/-- The value is one of a built-in type in a storage format. -/
def Holds (format : Option String) : PrimitiveKind → Val → Prop
  | .int, .int _ => True
  | .bool, v => ∃ b, v = .bool b
  | .cell, .cell _ => True
  | .builder, .builder _ => True
  | .string, .slice _ => True
  | .address, .slice s => s.bits.length = 267 ∧ s.refs = []
  | .slice, .slice s =>
    (format = some "bytes32" → s.bits.length = 32 * 8 ∧ s.refs = []) ∧
      (format = some "bytes64" → s.bits.length = 64 * 8 ∧ s.refs = [])
  | _, _ => False

/-- The value is one of a type in a storage format. Modules that records are stored by know no
codecs for the state of contracts, so contracts are left out. -/
inductive Represents (table : TypeTable) : TypeRef → Option String → Val → Prop where
  | scalar {name : String} {optional : Bool} {format : Option String} {decl : TypeDecl}
      {kind : PrimitiveKind} {v : Val} : table.types.get? name = some decl →
      decl.primitive? = some kind → Holds format kind v →
      Represents table (.named name optional) format v
  /-- A record without fields. -/
  | empty {name : String} {format : Option String} {decl : TypeDecl} :
      table.types.get? name = some decl → decl.isStruct = true → decl.fields = [] →
      Represents table (.named name false) format (.tuple [])
  /-- A record is the product of its fields. -/
  | record {name : String} {format : Option String} {decl : TypeDecl} {vs : List Val} :
      table.types.get? name = some decl → decl.isStruct = true → decl.fields ≠ [] →
      vs.length = decl.fields.length →
      (∀ p ∈ decl.fields.zip vs, Represents table p.1.ty p.1.format p.2) →
      Represents table (.named name false) format (.tensor vs)
  | absent {name : String} {format : Option String} {decl : TypeDecl} :
      table.types.get? name = some decl → decl.isContract = false →
      Represents table (.named name true) format .null
  | present {name : String} {format : Option String} {decl : TypeDecl} {v : Val} :
      table.types.get? name = some decl → decl.isStruct = true →
      Represents table (.named name false) format v →
      Represents table (.named name true) format v.boxed
  | noMap {key : String} {keyAs : Option String} {value : String} {valueAs format : Option String} :
      Represents table (.map key keyAs value valueAs) format .null
  | map {key : String} {keyAs : Option String} {value : String} {valueAs format : Option String}
      (c : Cell) : Represents table (.map key keyAs value valueAs) format (.cell c)

theorem Holds.isLeaf {format : Option String} {kind : PrimitiveKind} {v : Val}
    (h : Holds format kind v) : v.isLeaf = true := by
  cases v with
  | tensor items =>
    cases kind with
    | bool =>
      obtain ⟨b, hb⟩ := h
      cases b <;> simp [Val.bool] at hb
    | _ => exact h.elim
  | _ => rfl

theorem Represents.inhabits {table : TypeTable} {ty : TypeRef} {format : Option String} {v : Val}
    (h : Represents table ty format v) : Inhabits table (fun _ => True) ty v := by
  induction h with
  | @scalar _ _ _ _ kind v hdecl hkind hv =>
    by_cases haddress : kind = .address
    · subst haddress
      cases v with
      | slice x => exact .address hdecl hkind trivial
      | _ => exact hv.elim
    · exact .scalar hdecl hkind haddress hv.isLeaf
  | empty hdecl hstruct hfields => exact .empty hdecl hstruct hfields
  | record hdecl hstruct hfields hlength _ ih => exact .record hdecl hstruct hfields hlength ih
  | absent hdecl hcontract => exact .absent hdecl hcontract
  | present hdecl hstruct _ ih => exact .present hdecl hstruct ih
  | noMap | map => exact .map rfl

theorem Holds.isNull {format : Option String} {kind : PrimitiveKind} {v : Val}
    (h : Holds format kind v) : v.isNull = false := by
  cases v with
  | null =>
    cases kind with
    | bool =>
      obtain ⟨b, hb⟩ := h
      cases b <;> simp [Val.bool] at hb
    | _ => exact h.elim
  | _ => rfl

end Machine

end CellCompiler
