import CellCompiler.Json.Value
import CellCompiler.Proofs.Json.Decode

/-!
# Cells and values are read back

* `Address.read_text` reads an address back from its text;
* `Cell.ofJson?_toJson` and `Value.ofJson?_toJson` read cells and values back from their JSON forms.
-/

namespace CellCompiler

/-! ### Addresses -/

/-- An address is read back from its text. -/
@[simp] theorem Address.read_text (a : Address) : Address.read a.text = .ok a := by
  have hworkchain : Numeral.read 10 (-128) 127 a.workchain.toInt.repr.toList = .ok a.workchain.toInt :=
    Numeral.read_repr a.workchain.le_toInt (Int.le_of_lt_add_one a.workchain.toInt_lt) (by decide)
  have hcolon : ∀ c ∈ a.workchain.toInt.repr.toList, (c != ':') = true := by
    intro c hc
    rcases Numeral.mem_repr hc with rfl | hdigit
    · rfl
    · rw [bne_iff_ne]
      rintro rfl
      simp [Char.isDigit] at hdigit
  have htext : a.text.toList = a.workchain.toInt.repr.toList ++ ':' :: (Hex.encode a.account).toList := by
    simp [Address.text, Int.toString_eq_repr]
    rfl
  obtain ⟨hdecode, hlength⟩ := Hex.decode_encode a.account
  have hparts : Address.ofParts? a.workchain.toInt a.account = some a := by
    simp [Address.ofParts?, a.account_length]
  rw [Address.read, htext, List.span_eq_takeWhile_dropWhile, List.takeWhile_append_of_pos hcolon,
    List.dropWhile_append_of_pos hcolon]
  simp [Address.readParts, hworkchain, hdecode, hlength, a.account_length, hparts]

/-! ### Cells -/

mutual

@[simp] theorem Cell.plain_toJson : (c : Cell) → c.toJson.Plain
  | .mk bits refs => by simp [Cell.toJson, plain_cellsToJson refs, Json.plain_ofList]

theorem plain_cellsToJson : (cs : List Cell) → (Json.arr (cellsToJson cs)).Plain
  | [] => by simp [cellsToJson]
  | c :: cs => by simp [cellsToJson, c.plain_toJson, plain_cellsToJson cs]

end

mutual

theorem Cell.ofJsonWithin_toJson : (c : Cell) → (fuel : Nat) → c.toJson.depth ≤ fuel →
    Cell.ofJsonWithin fuel c.toJson = some c
  | .mk bits refs, fuel, h => by
    simp only [Cell.toJson, Json.depth, Json.depthMembers] at h
    obtain ⟨fuel, rfl⟩ := Nat.exists_eq_add_of_le' (Nat.le_of_add_left_le h)
    have hrefs := mapM_cellsToJson refs fuel (by omega)
    have hbits : Json.list? Json.bool? (Json.ofList Json.bool bits) = some bits :=
      Json.list?_ofList fun b _ => rfl
    rw [Cell.toJson, Cell.ofJsonWithin, Json.fields?_obj (by rfl) (by decide)]
    simp [hbits, hrefs]

theorem mapM_cellsToJson : (cs : List Cell) → (fuel : Nat) →
    Json.depthItems (cellsToJson cs) ≤ fuel →
    (cellsToJson cs).mapM (Cell.ofJsonWithin fuel) = some cs
  | [], _, _ => rfl
  | c :: cs, fuel, h => by
    rw [cellsToJson, Json.depthItems] at h
    simp [cellsToJson, List.mapM_cons, c.ofJsonWithin_toJson fuel (by omega),
      mapM_cellsToJson cs fuel (by omega)]

end

/-- Cells are read back from their JSON forms. -/
@[simp] theorem Cell.ofJson?_toJson (c : Cell) : Cell.ofJson? c.toJson = some c :=
  c.ofJsonWithin_toJson _ le_rfl

/-! ### Values -/

namespace Value

mutual

@[simp] theorem plain_toJson : (v : Value) → v.toJson.Plain
  | int v => by simp [toJson, tagged]
  | bool b => by simp [toJson, tagged]
  | null => by simp [toJson]
  | string text => by simp [toJson, tagged]
  | address a => by simp [toJson, tagged]
  | cell c => by simp [toJson, tagged]
  | slice c => by simp [toJson, tagged]
  | struct typeName fields => by simp [toJson, tagged, plain_fieldsToJson fields]

theorem plain_fieldsToJson : (fields : List (String × Value)) →
    (Json.obj (fieldsToJson fields)).Plain
  | [] => by simp [fieldsToJson]
  | (name, v) :: rest => by simp [fieldsToJson, v.plain_toJson, plain_fieldsToJson rest]

end

theorem toJson_ne_null (v : Value) : v.toJson ≠ .null := by
  cases v <;> simp [toJson, tagged]

mutual

/-- No record in the value has two fields of one name. -/
def Unrepeated : Value → Prop
  | struct _ fields => (fields.map Prod.fst).Nodup ∧ UnrepeatedFields fields
  | _ => True

/-- The values of fields are such values. -/
def UnrepeatedFields : List (String × Value) → Prop
  | [] => True
  | (_, v) :: rest => v.Unrepeated ∧ UnrepeatedFields rest

end

mutual

theorem ofJsonWithin_toJson (stage : Json.Stage) : (v : Value) → v.Unrepeated → (fuel : Nat) →
    v.toJson.depth ≤ fuel → ofJsonWithin fuel stage v.toJson = some v
  | int _, _, _, h | bool _, _, _, h | null, _, _, h | string _, _, _, h | address _, _, _, h
  | cell _, _, _, h | slice _, _, _, h => by
    obtain ⟨fuel, rfl⟩ := Nat.exists_eq_add_of_le' (Nat.le_of_add_left_le h)
    simp [ofJsonWithin, toJson, tagged, Json.beside?_obj, Json.beside?_obj_alone, Json.nothing?,
      Address.ofJson?]
  | struct typeName fields, hd, fuel, h => by
    rw [Unrepeated] at hd
    simp only [toJson, tagged, Json.depth, Json.depthMembers] at h
    obtain ⟨fuel, rfl⟩ := Nat.exists_eq_add_of_le' (Nat.le_of_add_left_le h)
    have hfields := Json.dict?_obj hd.1 (forall₂_fieldsToJson stage fields hd.2 fuel
      (by omega))
    rw [toJson, tagged, ofJsonWithin, Json.beside?_obj (by decide)]
    simp [Json.namedFields?_obj, hfields]

theorem forall₂_fieldsToJson (stage : Json.Stage) : (fields : List (String × Value)) →
    UnrepeatedFields fields → (fuel : Nat) → Json.depthMembers (fieldsToJson fields) ≤ fuel →
    List.Forall₂ (fun m e => m.1 = e.1 ∧ ofJsonWithin fuel stage m.2 = some e.2)
      (fieldsToJson fields) fields
  | [], _, _, _ => .nil
  | (name, v) :: rest, hd, fuel, h => by
    rw [UnrepeatedFields] at hd
    rw [fieldsToJson, Json.depthMembers] at h
    exact .cons ⟨rfl, ofJsonWithin_toJson stage v hd.1 fuel (by omega)⟩
      (forall₂_fieldsToJson stage rest hd.2 fuel (by omega))

end

/-- Values are read back from their JSON forms. -/
theorem ofJson?_toJson {v : Value} (h : v.Unrepeated) : ofJson? v.toJson = some v :=
  ofJsonWithin_toJson .direct v h _ le_rfl

end Value

end CellCompiler
