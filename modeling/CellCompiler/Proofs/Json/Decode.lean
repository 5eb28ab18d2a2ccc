import CellCompiler.Json.Decode
import CellCompiler.Json.Source
import CellCompiler.Proofs.Dict
import CellCompiler.Proofs.Json.Text
import Mathlib.Data.List.Forall2

/-!
# Written data are read back

What each way of reading gives on what the way of writing that belongs to it made: records whose
members have different names (`fields?_obj`), alternatives that name themselves inside, beside and
around their contents (`inside?_obj`, `beside?_obj`), lists, options, tables and integers of any size.
-/

namespace CellCompiler

namespace Json

theorem Plain.isReadable {j : Json} (h : j.Plain) : j.isReadable = true := by
  have hitems : ∀ {items : List Json}, (∀ j ∈ items, j.isReadable = true) →
      areReadable items = true := by
    intro items hall
    induction items with
    | nil => rfl
    | cons j js ih =>
      rw [List.forall_mem_cons] at hall
      rw [areReadable, hall.1, ih hall.2]
      rfl
  have hmembers : ∀ {members : List (String × Json)}, (∀ m ∈ members, m.2.isReadable = true) →
      haveReadable members = true := by
    intro members hall
    induction members with
    | nil => rfl
    | cons m ms ih =>
      rw [List.forall_mem_cons] at hall
      rw [haveReadable, hall.1, ih hall.2]
      rfl
  induction h with
  | null | bool | int | str => rfl
  | arr _ ih => exact hitems ih
  | obj _ ih => exact hmembers ih

/-- What is plain can be held. -/
@[simp] theorem hold?_of_plain {j : Json} (h : j.Plain) (stage : Stage) :
    hold? stage j = some j := by
  cases stage <;> simp [hold?, h.isReadable]

/-! ### Scalars -/

@[simp] theorem bool?_bool (b : Bool) : bool? (bool b) = some b := rfl

@[simp] theorem str?_str (text : String) : str? (str text) = some text := rfl

theorem nat?_ofNat {bound n : Nat} (h : n < bound) : nat? bound (ofNat n) = some n := if_pos h

@[simp] theorem uint16?_ofNat (n : UInt16) : uint16? (ofNat n.toNat) = some n := by
  rw [uint16?, nat?_ofNat n.toNat_lt, Option.map_some, UInt16.ofNat_toNat]

@[simp] theorem uint32?_ofNat (n : UInt32) : uint32? (ofNat n.toNat) = some n := by
  rw [uint32?, nat?_ofNat n.toNat_lt, Option.map_some, UInt32.ofNat_toNat]

@[simp] theorem uint64?_ofNat (n : UInt64) : uint64? (ofNat n.toNat) = some n := by
  rw [uint64?, nat?_ofNat n.toNat_lt, Option.map_some, UInt64.ofNat_toNat]

theorem plain_ofNat {n : Nat} (h : n < UInt64.size) : (ofNat n).Plain := .int h

@[simp] theorem plain_uint16 (n : UInt16) : (ofNat n.toNat).Plain :=
  plain_ofNat (n.toNat_lt.trans (by decide))

@[simp] theorem plain_uint32 (n : UInt32) : (ofNat n.toNat).Plain :=
  plain_ofNat (n.toNat_lt.trans (by decide))

@[simp] theorem plain_uint64 (n : UInt64) : (ofNat n.toNat).Plain := plain_ofNat n.toNat_lt

/-! ### Integers of any size -/

theorem lt_of_mem_limbs {fuel n limb : Nat} (h : limb ∈ limbs fuel n) : limb < limbRadix := by
  induction fuel generalizing n with
  | zero => simp [limbs] at h
  | succ fuel ih =>
    rw [limbs] at h
    split at h
    · simp at h
    · rcases List.mem_cons.1 h with rfl | h
      · exact Nat.mod_lt _ (by decide)
      · exact ih h

theorem ofLimbs_limbs {fuel n : Nat} (h : n < 2 ^ fuel) : ofLimbs (limbs fuel n) = n := by
  induction fuel generalizing n with
  | zero =>
    obtain rfl : n = 0 := by simpa using h
    rfl
  | succ fuel ih =>
    rw [limbs]
    split
    · next hn => exact hn.symm
    · have hdiv : n / limbRadix < 2 ^ fuel := by
        have hradix : 2 ≤ limbRadix := by decide
        have hle : n / limbRadix ≤ n / 2 := Nat.div_le_div_left hradix (by decide)
        rw [Nat.pow_succ] at h
        omega
      have hcons : ofLimbs (n % limbRadix :: limbs fuel (n / limbRadix)) =
          n % limbRadix + limbRadix * ofLimbs (limbs fuel (n / limbRadix)) := rfl
      rw [hcons, ih hdiv, Nat.mod_add_div]

/-! ### Lists, options and tables -/

theorem mapM_eq_some {α β : Type} {f : α → Option β} {as : List α} {bs : List β}
    (h : List.Forall₂ (fun a b => f a = some b) as bs) : as.mapM f = some bs := by
  induction h with
  | nil => rfl
  | cons hhead _ ih => simp [List.mapM_cons, hhead, ih]

@[simp] theorem list?_arr {α : Type} (f : Json → Option α) (items : List Json) :
    list? f (arr items) = items.mapM f := rfl

theorem list?_ofList {α : Type} {write : α → Json} {read : Json → Option α} {items : List α}
    (h : ∀ a ∈ items, read (write a) = some a) : list? read (ofList write items) = some items :=
  mapM_eq_some (List.forall₂_map_left_iff.2 (List.forall₂_same.2 h))

theorem plain_ofList {α : Type} {write : α → Json} {items : List α}
    (h : ∀ a ∈ items, (write a).Plain) : (ofList write items).Plain :=
  .arr (List.forall_mem_map.2 h)

theorem sign_bounds (v : Int) : -1 ≤ v.sign ∧ v.sign ≤ 1 := by
  rcases Int.lt_trichotomy v 0 with h | rfl | h
  · simp [Int.sign_eq_neg_one_of_neg h]
  · simp
  · simp [Int.sign_eq_one_of_pos h]

@[simp] theorem bigInt?_ofInt (v : Int) : bigInt? (ofInt v) = some v := by
  have hlimbs : list? (nat? limbRadix) (ofList ofNat (limbs (v.natAbs.log2 + 1) v.natAbs)) =
      some (limbs (v.natAbs.log2 + 1) v.natAbs) :=
    list?_ofList fun limb hlimb => nat?_ofNat (lt_of_mem_limbs hlimb)
  simp only [bigInt?, ofInt, hlimbs, ofLimbs_limbs Nat.lt_log2_self, Option.bind_eq_bind,
    Option.bind_some, if_pos (sign_bounds v), Int.sign_mul_natAbs]
  rfl

@[simp] theorem plain_ofInt (v : Int) : (ofInt v).Plain := by
  have hbounds := sign_bounds v
  have hsign : v.sign.natAbs < UInt64.size := by
    have hsize : 2 ≤ UInt64.size := by decide
    omega
  have hlimbs : (ofList ofNat (limbs (v.natAbs.log2 + 1) v.natAbs)).Plain :=
    plain_ofList fun limb hlimb => plain_ofNat ((lt_of_mem_limbs hlimb).trans (by decide))
  simp [ofInt, hsign, hlimbs]

/-- What is written for a value is not null, so null can stand for its absence. -/
theorem option?_ofOption {α : Type} {write : α → Json} {read : Json → Option α}
    {value : Option α} (h : ∀ a, value = some a → read (write a) = some a)
    (hnull : ∀ a, write a ≠ .null) : option? read (ofOption write value) = some value := by
  cases value with
  | none => rfl
  | some a =>
    rw [ofOption, option?.eq_def]
    split
    · next hwrite => exact absurd hwrite (hnull a)
    · rw [h a rfl, Option.map_some]

@[simp] theorem option?_ofOption_str (text : Option String) :
    option? str? (ofOption str text) = some text :=
  option?_ofOption (fun _ _ => rfl) nofun

theorem plain_ofOption {α : Type} {write : α → Json} {value : Option α}
    (h : ∀ a, value = some a → (write a).Plain) : (ofOption write value).Plain := by
  cases value with
  | none => exact .null
  | some a => exact h a rfl

/-! ### Records -/

@[simp] theorem required_some {α : Type} (f : Json → Option α) (j : Json) :
    required f (some j) = f j := rfl

@[simp] theorem defaulted_some {α : Type} (value : α) (f : Json → Option α) (j : Json) :
    defaulted value f (some j) = f j := rfl

@[simp] theorem nullable_some {α : Type} (f : Json → Option α) (j : Json) :
    nullable f (some j) = option? f j := rfl

@[simp] theorem obj?_obj (members : List (String × Json)) : obj? (obj members) = some members := rfl

theorem filter_name_of_not_mem {members : List (String × Json)} {name : String}
    (h : name ∉ members.map Prod.fst) : members.filter (·.1 == name) = [] := by
  rw [List.filter_eq_nil_iff]
  rintro m hm hname
  exact h (List.mem_map.2 ⟨m, hm, by simpa using hname⟩)

theorem member?_of_mem {members : List (String × Json)} {name : String} {j : Json}
    (hnodup : (members.map Prod.fst).Nodup) (hmem : (name, j) ∈ members) :
    member? members name = some (some j) := by
  obtain ⟨front, back, rfl⟩ := List.append_of_mem hmem
  rw [List.map_append, List.map_cons, List.nodup_middle, List.nodup_cons, List.mem_append] at hnodup
  obtain ⟨hfront, hback⟩ := not_or.1 hnodup.1
  simp [member?, filter_name_of_not_mem hfront, filter_name_of_not_mem hback]

theorem without_of_not_mem {members : List (String × Json)} {name : String}
    (h : name ∉ members.map Prod.fst) : without name members = members := by
  rw [without, List.filter_eq_self]
  rintro m hm
  have hne : m.1 ≠ name := fun hname => h (List.mem_map.2 ⟨m, hm, hname⟩)
  simpa using hne

/-- All members of a record are found by their names. -/
theorem mapM_member? {members : List (String × Json)} (hnodup : (members.map Prod.fst).Nodup) :
    (members.map Prod.fst).mapM (member? members) = some (members.map fun m => some m.2) := by
  have hall : ∀ part : List (String × Json), (∀ m ∈ part, m ∈ members) →
      (part.map Prod.fst).mapM (member? members) = some (part.map fun m => some m.2) := by
    intro part hpart
    induction part with
    | nil => rfl
    | cons m part ih =>
      rw [List.forall_mem_cons] at hpart
      simp [List.mapM_cons, member?_of_mem hnodup hpart.1, ih hpart.2]
  exact hall members fun _ hm => hm

theorem fields?_obj {names : List String} {least : Nat} {members : List (String × Json)}
    (hnames : members.map Prod.fst = names) (hnodup : names.Nodup) :
    fields? names least (obj members) = some (members.map fun m => some m.2) := by
  subst hnames
  exact mapM_member? hnodup

theorem namedFields?_obj {names : List String} {members : List (String × Json)}
    (hnames : members.map Prod.fst = names) (hnodup : names.Nodup) :
    namedFields? names (obj members) = some (members.map fun m => some m.2) := by
  subst hnames
  exact mapM_member? hnodup

theorem depthMembers_le_append (members more : List (String × Json)) :
    depthMembers members ≤ depthMembers (members ++ more) := by
  induction members with
  | nil => exact Nat.zero_le _
  | cons m ms ih =>
    simp only [List.cons_append, depthMembers]
    omega

/-! ### Alternatives -/

/-- An alternative that names itself first of all is read, and its other members are left. -/
theorem inside?_obj {stage : Stage} {tag kind : String} {names : List String}
    {members : List (String × Json)} (htag : tag ∉ members.map Prod.fst)
    (hplain : ∀ m ∈ members, m.2.Plain) :
    inside? stage tag names (obj ((tag, .str kind) :: members)) = some (kind, obj members) := by
  have hmember : member? ((tag, .str kind) :: members) tag = some (some (.str kind)) := by
    simp [member?, filter_name_of_not_mem htag]
  have hwithout : without tag ((tag, .str kind) :: members) = members := by
    have hrest := without_of_not_mem htag
    simpa [without] using hrest
  simp [inside?, hmember, hwithout, nameAmong?, hold?_of_plain (.obj hplain)]

theorem beside?_obj {stage : Stage} {tag content kind : String} {names : List String} {j : Json}
    (hne : tag ≠ content) :
    beside? stage tag content names (obj [(tag, .str kind), (content, j)]) =
      some (kind, stage, some j) := by
  have hname : name? stage (.str kind) = some kind := by cases stage <;> rfl
  simp [beside?, member?, hne, hne.symm, comesFirst, hname]

theorem beside?_obj_alone {stage : Stage} {tag content kind : String} {names : List String}
    (hne : tag ≠ content) :
    beside? stage tag content names (obj [(tag, .str kind)]) = some (kind, stage, none) := by
  have hname : name? stage (.str kind) = some kind := by cases stage <;> rfl
  simp [beside?, member?, hne, comesFirst, hname]

@[simp] theorem around?_str (name : String) : around? (.str name) = some (name, none) := rfl

@[simp] theorem around?_obj (name : String) (j : Json) :
    around? (obj [(name, j)]) = some (name, some j) := rfl

@[simp] theorem choice?_str {α : Type} (stage : Stage) (cases : List (String × α)) (name : String) :
    choice? stage cases (.str name) = cases.lookup name := by
  cases stage <;> rfl

end Json

/-! ### Tables -/

theorem Dict.ofList_entries {α : Type} {d : Dict α} (h : d.keys.Nodup) :
    Dict.ofList d.entries = d := by
  have hput : ∀ (entries : List (String × α)) {name : String} {value : α},
      name ∉ entries.map Prod.fst → put name value entries = entries ++ [(name, value)] := by
    intro entries name value hname
    induction entries with
    | nil => rfl
    | cons p rest ih =>
      rw [List.map_cons, List.mem_cons, not_or] at hname
      rw [put, if_neg (Ne.symm hname.1), ih hname.2, List.cons_append]
  have hfold : ∀ (rest front : List (String × α)), ((front ++ rest).map Prod.fst).Nodup →
      rest.foldl (fun d p => d.insert p.1 p.2) (Dict.mk front) = ⟨front ++ rest⟩ := by
    intro rest
    induction rest with
    | nil => simp
    | cons p rest ih =>
      intro front hnodup
      have hfresh : p.1 ∉ front.map Prod.fst := by
        rw [List.map_append, List.map_cons, List.nodup_middle, List.nodup_cons] at hnodup
        exact fun hmem => hnodup.1 (List.mem_append_left _ hmem)
      rw [List.foldl_cons, insert, hput front hfresh, ih _ (by simpa using hnodup)]
      simp
  exact hfold d.entries [] h

/-- A table is read back from the members of an object that go with its entries. -/
theorem Json.dict?_obj {α : Type} {read : Json → Option α} {members : List (String × Json)}
    {entries : List (String × α)} (hnodup : (entries.map Prod.fst).Nodup)
    (h : List.Forall₂ (fun m e => m.1 = e.1 ∧ read m.2 = some e.2) members entries) :
    Json.dict? read (.obj members) = some ⟨entries⟩ := by
  have hdict : Dict.ofList entries = ⟨entries⟩ := Dict.ofList_entries (d := ⟨entries⟩) hnodup
  refine Option.bind_eq_some_iff.2 ⟨entries, mapM_eq_some (h.imp fun m e hm => ?_), congrArg some hdict⟩
  simp [hm]

theorem Json.dict?_toJson {α : Type} {write : α → Json} {read : Json → Option α} {d : Dict α}
    (h : ∀ a ∈ d.values, read (write a) = some a) (hnodup : d.keys.Nodup) :
    Json.dict? read (d.toJson write) = some d := by
  refine Json.dict?_obj hnodup (List.forall₂_map_left_iff.2 (List.forall₂_same.2 fun p hp => ?_))
  exact ⟨rfl, h p.2 (List.mem_map.2 ⟨p, hp, rfl⟩)⟩

theorem Dict.plain_toJson {α : Type} {write : α → Json} {d : Dict α}
    (h : ∀ a ∈ d.values, (write a).Plain) : (d.toJson write).Plain := by
  refine .obj fun m hm => ?_
  obtain ⟨p, hp, rfl⟩ := List.mem_map.1 hm
  exact h p.2 (List.mem_map.2 ⟨p, hp, rfl⟩)

end CellCompiler
