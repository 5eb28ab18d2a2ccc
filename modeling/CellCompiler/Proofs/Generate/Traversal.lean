import CellCompiler.Proofs.Codec.Capacity
import CellCompiler.Proofs.Generate.Cursor
import CellCompiler.Proofs.Machine.Sameness
import CellCompiler.Proofs.Name

/-!
# Loops over maps visit each entry once

The code of a loop over a map keeps the current entry in variables that the body of the loop can see, and
reads the map again in every round.

* `LoopNames` says what the names of a loop have to be: the key, the value and the variable that the map
  is kept in differ, and the body changes neither the key nor the map;
* `Own` are the loop's own variables, which are numbered on from those that are in use;
* `WalkOf` describes the walk that is made for a loop, and `WalkOf.apart` is what the numbers are for;
* `foreach_visits` is the main statement.
-/

namespace CellCompiler

open Generate Machine
open Target (stmtWrites)

namespace Name

variable {name other x : String}

/-- A variable that is made up. -/
def numbered (stem : String) (i : Nat) : String := s!"{stem}_{i}"

/-- What follows the mark up to the first tick is the variable that a part belongs to. -/
theorem Under.takeWhile_var (hplain : '\'' ∉ name.toList) (h : Under (var name) x) :
    (x.toList.drop 1).takeWhile (· != '\'') = name.toList := by
  have hall : ∀ c ∈ name.toList, (c != '\'') = true := by
    intro c hc
    have hne : c ≠ '\'' := fun heq => hplain (heq ▸ hc)
    simpa using hne
  have hvar : (var name).toList = '$' :: name.toList := by simp [var]
  rcases h with h | ⟨rest, h⟩
  · rw [h, hvar, List.drop_one, List.tail_cons, ← List.append_nil name.toList,
      List.takeWhile_append_of_pos hall]
    simp
  · rw [h, hvar, List.drop_one, List.cons_append, List.tail_cons, List.takeWhile_append_of_pos hall]
    simp

/-- Variables of different names have no parts in common. -/
theorem Under.name_unique (hname : '\'' ∉ name.toList) (hother : '\'' ∉ other.toList)
    (h : Under (var name) x) (h' : Under (var other) x) : name = other :=
  String.toList_inj.1 ((h.takeWhile_var hname).symm.trans (h'.takeWhile_var hother))

/-- Parts of variables begin with a mark, variables that are made up do not. -/
theorem not_under_numbered {stem : String} {i : Nat} (hstem : stem ∈ loopStems) :
    ¬ Under (var name) (numbered stem i) := by
  have hhead : ∀ stem ∈ loopStems, stem.toList ≠ [] ∧ stem.toList.head? ≠ some '$' := by decide
  obtain ⟨hne, hmark⟩ := hhead stem hstem
  obtain ⟨c, cs, hlist⟩ := List.exists_cons_of_ne_nil hne
  rw [hlist, List.head?_cons, ne_eq, Option.some.injEq] at hmark
  have htext : (numbered stem i).toList.head? = some c := by simp [numbered, hlist, toString]
  rintro (h | ⟨rest, h⟩) <;> rw [h] at htext <;> simp [var, eq_comm, hmark] at htext

theorem Under.ne_numbered {stem : String} {i : Nat} (h : Under (var name) x) (hstem : stem ∈ loopStems) :
    x ≠ numbered stem i := fun heq => not_under_numbered hstem (heq ▸ h)

/-- Stem and number of a variable that is made up can be told from its name. -/
theorem numbered_injective {stem stem' : String} {i j : Nat} (hstem : stem ∈ loopStems)
    (hstem' : stem' ∈ loopStems) (h : numbered stem i = numbered stem' j) : stem = stem' ∧ i = j := by
  have hlength : ∀ stem ∈ loopStems, stem.toList.length = 2 := by decide
  have hlists : stem.toList ++ '_' :: i.repr.toList = stem'.toList ++ '_' :: j.repr.toList := by
    simpa [numbered, toString] using congrArg String.toList h
  obtain ⟨hstems, hnumbers⟩ := List.append_inj hlists ((hlength _ hstem).trans (hlength _ hstem').symm)
  exact ⟨String.toList_inj.1 hstems,
    Numeral.repr_injective (String.toList_inj.1 (List.cons.inj hnumbers).2)⟩

end Name

namespace Generate

variable {env : Env} {s : Scope} {key value : String} {map : Expr} {body : List Stmt} {loc : Location}
  {d d' : Draft} {n n' : Nat} {mapCode : Target.Expr} {cur : Cursor} {m : String}

/-! ### Names of a loop -/

/-- The names of a loop are well chosen: key, value and the variable that the map is kept in differ, and
the body changes neither the key nor that variable. No name has a tick in it. -/
structure LoopNames (types : TypeTable) (key value : String) (map : Expr) (body : List Stmt) : Prop where
  plain : ∀ x ∈ key :: value :: (map.origin?.toList ++ stmtChanges types body), '\'' ∉ x.toList
  nodup : (key :: value :: map.origin?.toList).Nodup
  unchanged : ∀ x ∈ key :: map.origin?.toList, x ∉ stmtChanges types body

/-- A variable that is made up for loops with a number from `n` on and below `n'`. -/
def Numbered (n n' : Nat) (x : String) : Prop :=
  ∃ stem ∈ loopStems, ∃ i, n ≤ i ∧ i < n' ∧ x = Name.numbered stem i

/-- The loop's own variables: the key, the parts of the value, and those that are made up for it. -/
def Own (key value : String) (n n' : Nat) (x : String) : Prop :=
  x = Name.var key ∨ Name.Under (Name.var value) x ∨ Numbered n n' x

/-- The variables of the loop's value hold the value of an entry. -/
def HoldsValue (types : TypeTable) (kind : MapKind) (value : String) (u : State) (e : Entry) : Prop :=
  match kind.value with
  | .struct type => ∃ sh v, Layout.shape types (.plain type) (Name.var value) = .ok sh ∧ Bound u sh v ∧
      v.Same e.value
  | _ => u.get? (Name.var value) = some e.value

/-- How the body of a loop begins with an entry: the variables for key and value hold it, and besides only
the loop's own variables differ. -/
def Begins (types : TypeTable) (kind : MapKind) (key value : String) (n n' : Nat) :
    Entry → State → State → Prop :=
  Cursor.Enters (Name.var key) (HoldsValue types kind value) (Own key value n n')

/-! ### The walk of a loop -/

/-- The variable that the map is in: the one that the code of the map is, or one that it is bound to. -/
inductive MapIn (n n' : Nat) (mapCode : Target.Expr) : List Target.Stmt → String → Prop where
  | there {m : String} : mapCode = Target.id m → MapIn n n' mapCode [] m
  | bound {i : Nat} : n ≤ i → i < n' →
      MapIn n n' mapCode [Target.var (Target.id (Name.numbered "fm" i)) mapCode] (Name.numbered "fm" i)

/-- How the value of an entry is got: as it is, or decoded from a cell in a variable that is made up. -/
def ValueIn (types : TypeTable) (kind : MapKind) (value : String) (n n' : Nat) (raw : String)
    (decode : List Target.Stmt) : Prop :=
  match kind.value with
  | .struct type => ∃ i, n ≤ i ∧ i < n' ∧ raw = Name.numbered "fv" i ∧
      ∃ pattern, Layout.unpack types (.plain type) (Name.var value) = .ok pattern ∧
        decode = [Target.var pattern (Target.call (Name.notNull type)
          [Target.call (Name.readerCellOpt type) [Target.id raw]])]
  | _ => raw = Name.var value ∧ decode = []

/-- The walk that is made for a loop whose map has the code `mapCode`, with variables that are numbered
from `n` on and below `n'`. -/
structure WalkOf (types : TypeTable) (key value : String) (n n' : Nat) (mapCode : Target.Expr)
    (cur : Cursor) (m : String) : Prop where
  map : MapIn n n' mapCode cur.before m
  source_eq : cur.source = Target.id m
  key_eq : cur.key = Name.var key
  flag : ∃ i, n ≤ i ∧ i < n' ∧ cur.flag = Name.numbered "fc" i
  value : ValueIn types cur.kind value n n' cur.raw cur.decode
  min_eq : cur.min = cur.kind.operation "min"
  next_eq : cur.next = cur.kind.operation "next"

theorem run_fresh {stem name : String} :
    fresh stem env d = .ok name d' ↔ name = Name.numbered stem d.temps ∧ d' = { d with temps := d.temps + 1 } := by
  simp only [fresh, run_bind, run_get, run_modify, run_pure]
  constructor
  · rintro ⟨_, _, ⟨rfl, rfl⟩, _, _, rfl, rfl, rfl⟩
    exact ⟨rfl, rfl⟩
  · rintro ⟨rfl, rfl⟩
    exact ⟨d, d, ⟨rfl, rfl⟩, ⟨⟩, _, rfl, rfl, rfl⟩

theorem bindOnce_eq_ok {p : List Target.Stmt × Target.Expr} (h : bindOnce "fm" mapCode env d = .ok p d') :
    d.temps ≤ d'.temps ∧ ∃ m, MapIn d.temps d'.temps mapCode p.1 m ∧ p.2 = Target.id m := by
  cases hident : mapCode.ident? with
  | some name =>
    simp only [bindOnce, hident, run_pure] at h
    obtain ⟨rfl, rfl⟩ := h
    obtain rfl : mapCode = Target.id name := by
      cases mapCode <;> simp_all [Target.Expr.ident?, Target.id]
    exact ⟨le_rfl, name, .there rfl, rfl⟩
  | none =>
    simp only [bindOnce, hident, run_bind, run_fresh, run_pure] at h
    obtain ⟨_, _, ⟨rfl, rfl⟩, rfl, rfl⟩ := h
    exact ⟨Nat.le_succ _, _, .bound le_rfl (Nat.lt_succ_self _), rfl⟩

theorem MapIn.mono {before : List Target.Stmt} {k k' : Nat} (h : MapIn n n' mapCode before m) (hk : k ≤ n)
    (hk' : n' ≤ k') : MapIn k k' mapCode before m := by
  cases h with
  | there hcode => exact .there hcode
  | bound hi hi' => exact .bound (hk.trans hi) (hi'.trans_le hk')

theorem ValueIn.mono {types : TypeTable} {kind : MapKind} {raw : String} {decode : List Target.Stmt}
    {k k' : Nat} (h : ValueIn types kind value n n' raw decode) (hk : k ≤ n) (hk' : n' ≤ k') :
    ValueIn types kind value k k' raw decode := by
  unfold ValueIn at h ⊢
  split at h
  · obtain ⟨i, hi, hi', hdecode⟩ := h
    exact ⟨i, hk.trans hi, hi'.trans_le hk', hdecode⟩
  · exact h

/-- What decodes a value takes at most one variable. -/
theorem cursorValue_eq_ok {kind : MapKind} {p : String × List Target.Stmt}
    (h : cursorValue kind value env d = .ok p d') :
    d.temps ≤ d'.temps ∧ ValueIn env.program.types kind value d.temps d'.temps p.1 p.2 := by
  unfold ValueIn
  cases hkind : kind.value with
  | struct type =>
    simp only [cursorValue, hkind, unpack, callUsed, used, run_bind, run_fresh, run_table, run_ofExcept,
      run_modify, run_pure] at h
    obtain ⟨raw, _, ⟨rfl, rfl⟩, pattern, _, ⟨_, _, ⟨rfl, rfl⟩, hpattern, rfl⟩, _, _,
      ⟨_, _, ⟨_, _, rfl, rfl, rfl⟩, rfl, rfl⟩, _, _, ⟨_, _, ⟨_, _, rfl, rfl, rfl⟩, rfl, rfl⟩, rfl, rfl⟩ := h
    exact ⟨Nat.le_succ _, _, le_rfl, Nat.lt_succ_self _, rfl, pattern, hpattern, rfl⟩
  | _ =>
    simp only [cursorValue, hkind, run_pure] at h
    obtain ⟨rfl, rfl⟩ := h
    exact ⟨le_rfl, rfl, rfl⟩

/-- A walk is made with variables that are numbered on from those in use. -/
theorem cursor_eq_ok (h : cursor s key value map loc env d = .ok cur d') :
    ∃ mapCode d₀ m, MapKind.of env.program.types map.ty loc = .ok cur.kind ∧
      lower s map env d = .ok mapCode d₀ ∧
      WalkOf env.program.types key value d.temps d'.temps mapCode cur m := by
  simp only [cursor, skip, onRegistry, used, run_bind, run_table, run_ofExcept, run_fresh, run_modify,
    run_pure] at h
  obtain ⟨_, _, ⟨rfl, rfl⟩, kind, _, ⟨hkind, rfl⟩, mapCode, d₀, hmap, ⟨before, source⟩, d₁, honce, flag, _,
    ⟨rfl, rfl⟩, ⟨raw, decode⟩, d₃, hvalue, _, _, ⟨_, _, rfl, rfl, rfl⟩, _, _, ⟨_, _, rfl, rfl, rfl⟩,
    _, _, rfl, _, _, rfl, rfl, rfl⟩ := h
  have hlower : d.temps ≤ d₀.temps := (lower_counts d mapCode d₀ le_rfl hmap).1
  obtain ⟨hbefore, m, hin, rfl⟩ := bindOnce_eq_ok honce
  obtain ⟨hafter, hdecode⟩ := cursorValue_eq_ok hvalue
  have hafter' : d₁.temps < d₃.temps := hafter
  have hstart : d.temps ≤ d₁.temps := hlower.trans hbefore
  exact ⟨mapCode, d₀, m, hkind, hmap, hin.mono hlower hafter'.le, rfl, rfl,
    ⟨d₁.temps, hstart, hafter', rfl⟩, hdecode.mono (hstart.trans (Nat.le_succ _)) le_rfl, rfl, rfl⟩

/-! ### Variables of the walk -/

/-- The map is kept where the source keeps it, or in a variable that is made up. -/
theorem MapIn.cases {before : List Target.Stmt} (h : MapIn n n' mapCode before m)
    (hstems : Stems map mapCode) : (∃ root ∈ map.origin?, Name.Under (Name.var root) m) ∨
      ∃ i, n ≤ i ∧ i < n' ∧ m = Name.numbered "fm" i := by
  cases h with
  | there hcode => exact .inl (hstems m (by simp [hcode, Target.id, Target.Expr.ident?]))
  | bound hi hi' => exact .inr ⟨_, hi, hi', rfl⟩

theorem ValueIn.raw_cases {types : TypeTable} {kind : MapKind} {raw : String} {decode : List Target.Stmt}
    (h : ValueIn types kind value n n' raw decode) :
    raw = Name.var value ∨ ∃ i, n ≤ i ∧ i < n' ∧ raw = Name.numbered "fv" i := by
  unfold ValueIn at h
  split at h
  · obtain ⟨i, hi, hi', hraw, -⟩ := h
    exact .inr ⟨i, hi, hi', hraw⟩
  · exact .inl h.1

section Walk

variable {types : TypeTable} (hnames : LoopNames types key value map body)
  (h : WalkOf types key value n n' mapCode cur m) (hstems : Stems map mapCode)

include hnames

theorem LoopNames.not_under_value {x : String} (hx : x = key ∨ x ∈ map.origin?) {y : String}
    (hy : Name.Under (Name.var x) y) : ¬ Name.Under (Name.var value) y := by
  intro hvalue
  have hplain := hnames.plain
  have hnodup := hnames.nodup
  simp only [List.forall_mem_cons, List.forall_mem_append, Option.mem_toList] at hplain
  simp only [List.nodup_cons, List.mem_cons, Option.mem_toList, not_or] at hnodup
  rcases hx with rfl | hx
  · exact hnodup.1.1 (hy.name_unique hplain.1 hplain.2.1 hvalue)
  · obtain rfl := hvalue.name_unique hplain.2.1 (hplain.2.2.1 x hx) hy
    exact hnodup.2.1 hx

theorem LoopNames.ne_key {x : String} (hx : x = value ∨ x ∈ map.origin?) {y : String}
    (hy : Name.Under (Name.var x) y) : y ≠ Name.var key := by
  rintro rfl
  have hplain := hnames.plain
  have hnodup := hnames.nodup
  simp only [List.forall_mem_cons, List.forall_mem_append, Option.mem_toList] at hplain
  simp only [List.nodup_cons, List.mem_cons, Option.mem_toList, not_or] at hnodup
  rcases hx with rfl | hx
  · exact hnodup.1.1 (hy.name_unique hplain.2.1 hplain.1 (.refl _)).symm
  · obtain rfl := hy.name_unique (hplain.2.2.1 x hx) hplain.1 (.refl _)
    exact hnodup.1.2 hx

include h hstems

/-- The variables of a walk do not get in each other's way. -/
theorem WalkOf.apart : cur.Apart value m := by
  have hkey : Name.Under (Name.var key) cur.key := h.key_eq ▸ .refl _
  have hvalue : Name.Under (Name.var value) (Name.var value) := .refl _
  have hfm : "fm" ∈ loopStems := by decide
  have hfc : "fc" ∈ loopStems := by decide
  have hfv : "fv" ∈ loopStems := by decide
  have hne : ∀ {stem stem' : String} {j j' : Nat}, stem ∈ loopStems → stem' ∈ loopStems → stem ≠ stem' →
      Name.numbered stem j ≠ Name.numbered stem' j' := fun hs hs' hne heq =>
    hne (Name.numbered_injective hs hs' heq).1
  obtain ⟨i, -, -, hflag⟩ := h.flag
  have hkeyRaw : cur.key ≠ cur.raw := by
    rcases h.value.raw_cases with hraw | ⟨k, -, -, hraw⟩ <;> rw [hraw]
    · exact h.key_eq ▸ (hnames.ne_key (.inl rfl) hvalue).symm
    · exact hkey.ne_numbered hfv
  have hrawFlag : cur.raw ≠ cur.flag := by
    rw [hflag]
    rcases h.value.raw_cases with hraw | ⟨k, -, -, hraw⟩ <;> rw [hraw]
    · exact hvalue.ne_numbered hfc
    · exact hne hfv hfc (by decide)
  have hkeyFlag : cur.key ≠ cur.flag := hflag ▸ hkey.ne_numbered hfc
  have hmap : m ≠ cur.key ∧ m ≠ cur.raw ∧ m ≠ cur.flag ∧ ¬ Name.Under (Name.var value) m := by
    rw [hflag]
    rcases h.map.cases hstems with ⟨root, hroot, hm⟩ | ⟨j, -, -, rfl⟩
    · have hnot := hnames.not_under_value (.inr hroot) hm
      refine ⟨h.key_eq ▸ hnames.ne_key (.inr hroot) hm, ?_, hm.ne_numbered hfc, hnot⟩
      rcases h.value.raw_cases with hraw | ⟨k, -, -, hraw⟩ <;> rw [hraw]
      · exact fun heq => hnot (heq ▸ hvalue)
      · exact hm.ne_numbered hfv
    · refine ⟨(hkey.ne_numbered hfm).symm, ?_, hne hfm hfc (by decide), Name.not_under_numbered hfm⟩
      rcases h.value.raw_cases with hraw | ⟨k, -, -, hraw⟩ <;> rw [hraw]
      · exact (hvalue.ne_numbered hfm).symm
      · exact hne hfm hfv (by decide)
  refine ⟨h.source_eq, by simp [Cursor.slots, hkeyRaw, hkeyFlag, hrawFlag],
    by simp [Cursor.slots, hmap.1, hmap.2.1, hmap.2.2.1], ?_⟩
  simp only [List.forall_mem_cons]
  exact ⟨hnames.not_under_value (.inl rfl) hkey, hflag ▸ Name.not_under_numbered hfc, hmap.2.2.2, by simp⟩

/-- The body changes neither the key nor the map. -/
theorem WalkOf.covers : Covers (fun x => x ≠ cur.key ∧ x ≠ m) n' (stmtChanges types body) := by
  have hplain := hnames.plain
  simp only [List.forall_mem_cons, List.forall_mem_append, Option.mem_toList] at hplain
  have hunchanged := hnames.unchanged
  simp only [List.forall_mem_cons, Option.mem_toList] at hunchanged
  refine ⟨fun name hname x hx => ⟨?_, ?_⟩, fun stem hstem i hi => ⟨?_, ?_⟩⟩
  · rintro rfl
    obtain rfl := hx.name_unique (hplain.2.2.2 name hname) hplain.1 (h.key_eq ▸ .refl _)
    exact hunchanged.1 hname
  · rintro rfl
    rcases h.map.cases hstems with ⟨root, hroot, hm⟩ | ⟨j, -, -, rfl⟩
    · obtain rfl := hx.name_unique (hplain.2.2.2 name hname) (hplain.2.2.1 root hroot) hm
      exact hunchanged.2 _ hroot hname
    · have hfm : "fm" ∈ loopStems := by decide
      exact Name.not_under_numbered hfm hx
  · exact (Name.Under.ne_numbered (h.key_eq ▸ .refl _ : Name.Under (Name.var key) cur.key) hstem).symm
  · rcases h.map.cases hstems with ⟨root, hroot, hm⟩ | ⟨j, -, hj, rfl⟩
    · exact (hm.ne_numbered hstem).symm
    · intro heq
      obtain ⟨-, rfl⟩ := Name.numbered_injective hstem (by decide) heq
      omega

end Walk

/-! ### Values of entries -/

variable {c : Code} {t u : State} {e : Entry} {entries : List Entry}

/-- The walk puts the values of the entries into the variable for them. -/
theorem WalkOf.decodes (h : WalkOf env.program.types key value n n' mapCode cur m) {ty : TypeRef}
    (hkind : MapKind.of env.program.types ty loc = .ok cur.kind)
    (hcodecs : ∀ type, cur.kind.value = .struct type → RunsCodecs c env type)
    (hstored : ∀ e ∈ entries, e.Stored c env cur.kind) :
    cur.Decodes c value (HoldsValue env.program.types cur.kind value) entries := by
  have hvalue := h.value
  unfold ValueIn at hvalue
  cases hstruct : cur.kind.value with
  | struct type =>
    simp only [hstruct] at hvalue
    obtain ⟨i, -, -, -, pattern, hpattern, hdecode⟩ := hvalue
    obtain ⟨sh, hsh, rfl⟩ := Except.map_eq_ok.1 hpattern
    have hruns := hcodecs type hstruct
    obtain ⟨name, decl, hdecl, rfl, hnone⟩ := MapKind.exists_decl_of_struct hkind hstruct
    have ⟨library, hlibrary, _⟩ := hruns
    obtain rfl := hlibrary.wellNamed.name_eq hdecl
    have hdistinct := Layout.shapeWithin_distinct hlibrary.separate hsh
    refine ⟨fun e he t ht => ?_, ?_⟩
    · have hentry := hstored e he
      simp only [Machine.Entry.Stored, hstruct] at hentry
      obtain ⟨hv, s, s', hraw⟩ := hentry
      obtain ⟨loaded, v, hload, hopen, hsame⟩ := hruns.opens hdecl hnone hv hraw t
      have hfits : sh.Fits v := (hv.fits hsh).same hsame
      refine ⟨t.setAll (sh.names.zip v.flatten), ?_, ?_, State.frames_setAll.mono hdistinct.under⟩
      · have hloaded : Means c t (Target.call (Name.readerCellOpt decl.name) [Target.id cur.raw]) loaded :=
          (yields_call_means (.cons (means_id ht) .nil)).2 hload
        rw [hdecode, yields_block_var]
        exact ⟨v, t, (yields_call_means (.cons hloaded .nil)).2 hopen, _, (yields_bind_pattern hfits).2 rfl,
          yields_block_nil.2 ⟨rfl, rfl⟩⟩
      · simp only [HoldsValue, hstruct]
        exact ⟨sh, v, hsh, bound_setAll hfits hdistinct.nodup, hsame⟩
    · simpa [hdecode, Target.var, Target.call, Target.id, Layout.Shape.boundNames_pattern] using
        hdistinct.under
  | _ =>
    simp only [hstruct] at hvalue
    obtain ⟨hraw, hdecode⟩ := hvalue
    refine ⟨fun e he t ht => ⟨t, ?_, ?_, .refl t⟩, by simp [hdecode]⟩
    · rw [hdecode]
      exact yields_block_nil.2 ⟨rfl, rfl⟩
    · have hvalue : e.raw = e.value := by simpa [Machine.Entry.Stored, hstruct] using hstored e he
      simpa [HoldsValue, hstruct, ← hraw, ← hvalue] using ht

/-! ### Loops -/

/-- The map is at hand in the variable that the walk reads. -/
theorem MapIn.runs {before : List Target.Stmt} {v : Val} (h : MapIn n n' mapCode before m)
    (hmap : Machine.Yields (eval c mapCode) t v u)
    (hlocal : ∀ name, mapCode = Target.id name → (t.get? name).isSome) :
    ∃ u', Machine.Yields (block c before) t none u' ∧ u'.get? m = some v ∧ u.Frames (Numbered n n') u' := by
  cases h with
  | there hcode =>
    obtain ⟨w, hw⟩ := Option.isSome_iff_exists.1 (hlocal m hcode)
    rw [hcode, Target.id, yields_ident hw] at hmap
    obtain ⟨rfl, rfl⟩ := hmap
    exact ⟨u, yields_block_nil.2 ⟨rfl, rfl⟩, hw, .refl u⟩
  | bound hi hi' =>
    rename_i i
    have hbind : Machine.Yields (bind true v (Target.id (Name.numbered "fm" i))) u ()
        (u.set (Name.numbered "fm" i) v) := yields_bind_ident.2 State.assign_of_declare.symm
    refine ⟨u.set (Name.numbered "fm" i) v, ?_, by simp, State.frames_set.mono ?_⟩
    · exact yields_block_var.2 ⟨v, u, hmap, _, hbind, yields_block_nil.2 ⟨rfl, rfl⟩⟩
    · rintro x rfl
      exact ⟨"fm", by decide, i, hi, hi', rfl⟩

/-- **Loops over maps visit each entry once.** Take a loop over a map with well-chosen names, whichever
variables are in use already, and any module whose operations on dictionaries answer for the entries of the
map. The code of the loop computes the map once. If the body ends, without a return, on every entry after
those before it, then the body runs once for every entry, in the order of the keys, with the entry in the
variables for key and value, and then the code ends. Between two runs of the body, and at the end, only the
loop's own variables change. -/
theorem foreach_visits (hnames : LoopNames env.program.types key value map body) {code : List Target.Stmt}
    (h : lowerStmt s (.foreach loc key value map body) env d = .ok code d') :
    ∃ kind mapCode bodyCode d₀ d₁, MapKind.of env.program.types map.ty loc = .ok kind ∧
      lower s map env d = .ok mapCode d₀ ∧ lowerStmts s body env d₁ = .ok bodyCode d' ∧
      ∀ (c : Code) (v : Val) (entries : List Entry) (t u : State),
        Machine.Yields (eval c mapCode) t v u → (∀ m, mapCode = Target.id m → (t.get? m).isSome) →
        Dictionary c kind v entries → (∀ type, kind.value = .struct type → RunsCodecs c env type) →
        (∀ e ∈ entries, e.Stored c env kind) →
        Cursor.Ends c bodyCode (Begins env.program.types kind key value d.temps d₁.temps) entries u →
        ∃ u' t', Visits c bodyCode (Begins env.program.types kind key value d.temps d₁.temps) entries u u' ∧
          u'.Frames (Own key value d.temps d₁.temps) t' ∧ Machine.Yields (block c code) t none t' := by
  simp only [lowerStmt, run_bind, run_pure] at h
  obtain ⟨cur, d₁, hcursor, bodyCode, _, hbody, rfl, rfl⟩ := h
  obtain ⟨mapCode, d₀, m, hkind, hmap, hwalk⟩ := cursor_eq_ok hcursor
  refine ⟨cur.kind, mapCode, bodyCode, d₀, d₁, hkind, hmap, hbody, ?_⟩
  intro c v entries t u hyields hlocal hdict hcodecs hstored hends
  unfold Begins at hends ⊢
  rw [← hwalk.key_eq] at hends ⊢
  have hstems : Stems map mapCode := (lower_stems map).result (Nat.zero_le _) hmap
  have hwrites := (lowerStmts_writes s body (hwalk.covers hnames hstems)).result le_rfl hbody
  obtain ⟨u₁, hbefore, hm, hframes⟩ := hwalk.map.runs hyields hlocal
  have hslots : ∀ x ∈ cur.slots, Own key value d.temps d₁.temps x := by
    obtain ⟨i, hi, hi', hflag⟩ := hwalk.flag
    simp only [Cursor.slots, List.forall_mem_cons]
    refine ⟨.inl hwalk.key_eq, ?_, .inr (.inr ⟨"fc", by decide, i, hi, hi', hflag⟩), by simp⟩
    rcases hwalk.value.raw_cases with hraw | ⟨k, hk, hk', hraw⟩
    · exact .inr (.inl (hraw ▸ .refl _))
    · exact .inr (.inr ⟨"fv", by decide, k, hk, hk', hraw⟩)
  obtain ⟨u', t', hvisits, hframes', hloop⟩ := Cursor.loop_visits (hwalk.apart hnames hstems) hdict
    hwalk.min_eq hwalk.next_eq (hwalk.decodes hkind hcodecs hstored) hwrites hslots
    (fun x hx => .inr (.inl hx)) hends (hframes.mono fun x hx => .inr (.inr hx)) hm
  exact ⟨u', t', hvisits, hframes', yields_block_append.2 ⟨none, u₁, hbefore, hloop⟩⟩

/-! ### A map of two parcels -/

section Examples

open Target (id call int assign)

/-- An operation that answers whatever it is asked about a cell. -/
theorem answer_runs {c : Code} (hc : c.Plain) {name : String} (params : List String) {args : List Val}
    {e : Target.Expr} {v : Val} {y : Cell}
    (hhas : c.Has name params [.expr (call "begin_parse" [id "d"]), Target.ret e])
    (hlength : params.length = args.length)
    (hd : ∀ t : State, (t.enter params args).get? "d" = some (.cell y))
    (he : ∀ t : State, Means c (t.enter params args) e v) (t : State) :
    Machine.Yields (Code.call c name args) t v t := by
  refine hhas.returns (t := t.enter params args) hlength ?_ rfl rfl
  have hparse : Means c (t.enter params args) (call "begin_parse" [id "d"]) (.slice y.parse) :=
    .primitiveCall hc (by decide) (.cons (means_id (hd t)) .nil) (call_begin_parse.2 rfl)
  exact yields_block_expr.2 ⟨_, _, hparse, (yields_ret_means (he t)).2 ⟨rfl, rfl⟩⟩

/-- A record of two numbers. -/
def parcelDecl : TypeDecl :=
  .ofFields .struct "Parcel" [⟨"pieces", 0, .plain "Int", some "uint8", none⟩,
    ⟨"weight", 1, .plain "Int", some "uint64", none⟩]

/-- The table of parcels with its plans. -/
def parcelEnv : Env where
  program :=
    let types := TypeTable.primitives.addType parcelDecl
    { types, plans := (planProgram types).toOption.getD {} }
  evaluate := noConstants

/-- Pieces and weight of a parcel. -/
def parcel (pieces weight : Int) : Val := .tensor [.int pieces, .int weight]

theorem fits_parcel {pieces weight : Int} (hpieces : Bits.fitsUnsigned pieces 8 = true)
    (hweight : Bits.fitsUnsigned weight 64 = true) :
    FitsType parcelEnv.program.types (.plain "Parcel") none (parcel pieces weight) := by
  have hget : parcelEnv.program.types.types.get? "Parcel" = some parcelDecl := rfl
  refine .record hget rfl (List.cons_ne_nil _ _) rfl
    (List.forall_mem_cons.2 ⟨?_, List.forall_mem_singleton.2 ?_⟩)
  · refine .scalar rfl rfl ⟨trivial, fun kind hkind => ?_⟩
    obtain rfl : Plan.OpKind.uint 8 = kind := Option.some.inj hkind
    exact hpieces
  · refine .scalar rfl rfl ⟨trivial, fun kind hkind => ?_⟩
    obtain rfl : Plan.OpKind.uint 64 = kind := Option.some.inj hkind
    exact hweight

/-- The library of parcels compiles, and its writer makes a cell of every parcel. -/
theorem exists_parcelLibrary : ∃ out, compileLibrary parcelEnv = .ok out ∧ Library (.ofOutput out) parcelEnv ∧
    ∀ v, FitsType parcelEnv.program.types (.plain "Parcel") none v → ∃ y, ∀ s,
      Machine.Yields (Code.call (.ofOutput out) (Name.writerCell "Parcel") [v]) s (.cell y) s := by
  have hw : parcelEnv.program.types.WellNamed := ⟨by decide +kernel, by decide +kernel⟩
  have hall : ∀ decl ∈ parcelEnv.program.types.types.values, (decl.fields.map (·.name)).Nodup ∧
      ∀ f ∈ decl.fields, '\'' ∉ f.name.toList ∧
        Plan.takesRest parcelEnv.program.types f.ty f.format = false := by decide +kernel
  have hsep : parcelEnv.program.types.Separate :=
    fun decl hdecl => ⟨(hall decl hdecl).1, fun f hf => ((hall decl hdecl).2 f hf).1⟩
  have hrest : parcelEnv.program.types.NoRest "Parcel" := fun inner decl _ hdecl f hf =>
    ((hall decl (Dict.mem_values_of_get? hdecl)).2 f hf).2
  have hplanned : Program.planned parcelEnv.program.types = .ok parcelEnv.program := rfl
  have hdecl : parcelDecl ∈ parcelEnv.program.types.structs := List.mem_of_getLast? rfl
  have hrecords : parcelEnv.program.types.IsRecords := by decide +kernel
  obtain ⟨out, hout⟩ := hrecords.exists_library hw hplanned
  obtain ⟨-, hlibrary⟩ := library_ofOutput hw hsep hplanned rfl rfl hout
  refine ⟨out, hout, hlibrary, fun v hv => ?_⟩
  obtain ⟨bits, refs, -, hcell⟩ := hlibrary.exists_cell hdecl hrest hv
  exact ⟨_, hcell⟩

/-- The operation for the first entry of a map of parcels. -/
def minParcel : Target.Signature where
  name := "__tact_dict_min_int_cell"
  params := [⟨.cell, "d"⟩, ⟨.int, "bits"⟩]

/-- The operation for the next entry of a map of parcels. -/
def nextParcel : Target.Signature where
  name := "__tact_dict_next_int_cell"
  params := [⟨.cell, "d"⟩, ⟨.int, "bits"⟩, ⟨.int, "key"⟩]

/-- The operations on maps of parcels. -/
def parcelOperations : List String := [minParcel.name, nextParcel.name]

/-- An answer about a cell: a parcel in the cell that its writer makes. -/
def parcelAnswer (key pieces weight : Int) (flag : Target.Expr) : List Target.Stmt :=
  [.expr (call "begin_parse" [id "d"]),
    Target.ret (.tensor [int key, call (Name.writerCell "Parcel") [.tensor [int pieces, int weight]], flag])]

/-- The library with operations that answer for two parcels. -/
def depotCode (library : Code) : Code :=
  { library with
    functions := (library.functions.insert minParcel.name
      (.function minParcel (parcelAnswer 1 2 10 (.bool true)))).insert nextParcel.name
      (.function nextParcel (parcelAnswer 2 3 20 (.binary .lt (id "key") (int 2)))) }

theorem get?_depotCode {library : Code} {name : String} (h : name ∉ parcelOperations) :
    (depotCode library).functions.get? name = library.functions.get? name := by
  simp only [parcelOperations, List.mem_cons, List.not_mem_nil, or_false, not_or] at h
  simp [depotCode, h]

theorem depotCode_plain {library : Code} (h : library.Plain) : (depotCode library).Plain := by
  have hother : ∀ name ∈ Target.builtins, name ∉ parcelOperations := by decide
  exact fun name hname => (get?_depotCode (hother name hname)).trans (h name hname)

/-- The library does not notice the operations. -/
theorem depotCode_alike {out : Emission.Output} (hout : compileLibrary parcelEnv = .ok out) :
    Alike (fun _ => True) (· ∉ parcelOperations) (depotCode (.ofOutput out)) (.ofOutput out) := by
  have hany : (compileLibrary parcelEnv).toOption.any (fun out =>
      (Code.ofOutput out).constants.entries.isEmpty &&
      (Code.ofOutput out).functions.entries.all fun p => p.2.callees.all (· ∉ parcelOperations)) = true := by
    decide +kernel
  obtain ⟨out', hout', hchecks⟩ := Except.exists_of_toOption_any hany
  obtain rfl := Except.ok.inj (hout'.symm.trans hout)
  simp only [Bool.and_eq_true, List.isEmpty_iff, List.all_eq_true, decide_eq_true_eq] at hchecks
  obtain ⟨hconstants, hcallees⟩ := hchecks
  refine ⟨fun _ => get?_depotCode, fun name item hname hitem => ?_, rfl, fun name e hget => ?_, rfl,
    fun _ _ => trivial⟩
  · exact hcallees _ (Dict.mem_entries_of_get? (get?_depotCode hname ▸ hitem))
  · have hmem := Dict.mem_entries_of_get? hget
    simp [depotCode, hconstants] at hmem

/-- The depot with two parcels, in cells that the writer has made. -/
def depotEntries (first second : Cell) : List Entry :=
  [⟨.int 1, .cell first, parcel 2 10⟩, ⟨.int 2, .cell second, parcel 3 20⟩]

/-- The operations answer for the two parcels, in the cells that the writer makes of them. -/
theorem depot_dictionary {library : Code} (hplain : library.Plain) {first second : Cell}
    (hfirst : ∀ s, Machine.Yields (Code.call (depotCode library) (Name.writerCell "Parcel") [parcel 2 10]) s
      (.cell first) s)
    (hsecond : ∀ s, Machine.Yields (Code.call (depotCode library) (Name.writerCell "Parcel") [parcel 3 20]) s
      (.cell second) s) (y : Cell) :
    Dictionary (depotCode library) ⟨.int 257 true, .struct "Parcel"⟩ (.cell y) (depotEntries first second) := by
  have hc := depotCode_plain hplain
  have hmin : (depotCode library).Has minParcel.name ["d", "bits"] (parcelAnswer 1 2 10 (.bool true)) :=
    ⟨minParcel, by simp [depotCode, minParcel, nextParcel], rfl⟩
  have hnext : (depotCode library).Has nextParcel.name ["d", "bits", "key"]
      (parcelAnswer 2 3 20 (.binary .lt (id "key") (int 2))) := ⟨nextParcel, by simp [depotCode], rfl⟩
  have hparcel : ∀ {pieces weight : Int} {cell : Cell}, (∀ s, Machine.Yields (Code.call (depotCode library)
      (Name.writerCell "Parcel") [parcel pieces weight]) s (.cell cell) s) → ∀ s, Means (depotCode library) s
      (call (Name.writerCell "Parcel") [.tensor [int pieces, int weight]]) (.cell cell) := fun h s =>
    (yields_call_means (.cons (.tensor (.cons means_int (.cons means_int .nil))) .nil)).2 (h s)
  have hafter : ∀ k : Int, ∀ t, Machine.Yields (Code.call (depotCode library) nextParcel.name
      [.cell y, .int 257, .int k]) t (.tensor [.int 2, .cell second, .bool (decide (k < 2))]) t := by
    intro k
    refine answer_runs hc _ hnext rfl (fun _ => rfl) fun t => ?_
    refine .tensor (.cons means_int (.cons (hparcel hsecond _) (.cons ?_ .nil)))
    exact .binary (means_id rfl) means_int rfl
  refine ⟨?_, ⟨some ⟨.int 1, .cell first, parcel 2 10⟩, ?_, ?_⟩, ?_⟩
  · simp [InOrder, depotEntries, Val.Before]
  · simp [Least, depotEntries, Val.Before]
  · refine answer_runs hc _ hmin rfl (fun _ => rfl) fun t => ?_
    exact .tensor (.cons means_int (.cons (hparcel hfirst _) (.cons means_bool .nil)))
  · simp only [depotEntries, List.forall_mem_cons]
    refine ⟨⟨some ⟨.int 2, .cell second, parcel 3 20⟩, ?_, hafter 1⟩, ⟨none, ?_, _, _, hafter 2⟩, by simp⟩
    · simp [Least, Val.Before]
    · simp [Least, Val.Before]

/-- A type of maps from numbers to parcels. -/
def depotType : TypeRef := .map "Int" none "Parcel" none

/-- The map that is looped over. -/
def depot : Expr := .ident ⟨depotType, {}⟩ "depot"

/-- A statement that adds the weight of a parcel to a total. -/
def addWeight : Stmt :=
  let number : Expr.Info := ⟨.plain "Int", {}⟩
  let total : Expr := .ident number "total"
  .assign {} total (.binary number .add total (.field number (.ident ⟨.plain "Parcel", {}⟩ "parcel") "weight"))

/-- The code of this statement. -/
def addWeightCode : List Target.Stmt :=
  [assign (id "$total") (.binary .add (id "$total") (id "$parcel'weight"))]

/-- The map in its variable, and a total of nothing. -/
def depotStart : State where
  frame := .ofList [("$depot", .cell .empty), ("$total", .int 0)]

/-- How a round begins with a parcel. -/
abbrev BeginsParcel (k : Nat) : Entry → State → State → Prop :=
  Begins parcelEnv.program.types ⟨.int 257 true, .struct "Parcel"⟩ "key" "parcel" 0 k

/-- The total is not one of the loop's own variables. -/
theorem total_not_own {k : Nat} : ¬ Own "key" "parcel" 0 k "$total" := by
  have htotal : Name.Under (Name.var "total") "$total" := .refl _
  rintro (heq | hunder | ⟨stem, hstem, i, -, -, heq⟩)
  · exact absurd heq (by decide)
  · exact absurd (hunder.name_unique (by decide) (by decide) htotal) (by decide)
  · exact htotal.ne_numbered hstem heq

/-- The weight of the current parcel is in its variable. -/
theorem weight_of_begins {k : Nat} {t u : State} {key raw : Val} {pieces weight : Int}
    (h : BeginsParcel k ⟨key, raw, parcel pieces weight⟩ t u) :
    u.get? "$parcel'weight" = some (.int weight) := by
  obtain ⟨sh, v, hsh, hbound, hsame⟩ := h.value
  have hshape : Layout.shape parcelEnv.program.types (.plain "Parcel") (Name.var "parcel") = .ok (.product
      [.leaf "$parcel'pieces" (.scalar .int), .leaf "$parcel'weight" (.scalar .int)]) := rfl
  obtain rfl := Except.ok.inj (hsh.symm.trans hshape)
  have hleaves : List.Forall₂ (fun name x => u.get? name = some x) ["$parcel'pieces", "$parcel'weight"]
      v.flatten := hbound.leaves
  have hvalues : List.Forall₂ Val.Same v.flatten [.int pieces, .int weight] := hsame.flatten
  generalize v.flatten = vs at hleaves hvalues
  cases hvalues with
  | cons _ hrest =>
    cases hrest with
    | cons hvalue _ =>
      cases hleaves with
      | cons _ hrest =>
        cases hrest with
        | cons hleaf _ => rwa [hvalue.eq_int] at hleaf

theorem addWeight_runs {c : Code} {t u u' : State} {n pieces weight : Int} {k : Nat} {key raw : Val}
    (hbegins : BeginsParcel k ⟨key, raw, parcel pieces weight⟩ t u) (htotal : t.get? "$total" = some (.int n)) :
    Machine.Yields (block c addWeightCode) u none u' ↔ u' = u.set "$total" (.int (n + weight)) := by
  have htotal' : u.get? "$total" = some (.int n) := (hbegins.frames.kept _ total_not_own).trans htotal
  have hsum : Means c u (.binary .add (id "$total") (id "$parcel'weight")) (.int (n + weight)) :=
    .binary (means_id htotal') (means_id (weight_of_begins hbegins)) rfl
  rw [addWeightCode, yields_assign_means htotal' hsum, yields_block_nil]
  simp

/-- After the first parcel the total is its weight. -/
theorem total_of_first {c : Code} {k : Nat} {first : Cell} {t : State}
    (h : Visits c addWeightCode (BeginsParcel k) [⟨.int 1, .cell first, parcel 2 10⟩] depotStart t) :
    t.get? "$total" = some (.int 10) := by
  obtain ⟨_, u, hnil, hbegins, hstep⟩ := visits_concat.1 (show Visits _ _ _ ([] ++ [_]) _ _ from h)
  obtain rfl := visits_nil.1 hnil
  rw [addWeight_runs hbegins rfl] at hstep
  simp [hstep]

/-- The statement ends on every parcel after those before it. -/
theorem addWeight_ends {c : Code} {k : Nat} {first second : Cell} :
    Cursor.Ends c addWeightCode (BeginsParcel k) (depotEntries first second) depotStart := by
  intro done e rest t u heq hdone hbegins
  match done with
  | [] =>
    obtain ⟨rfl, -⟩ := List.cons.inj heq
    obtain rfl := visits_nil.1 hdone
    exact ⟨_, (addWeight_runs hbegins rfl).2 rfl⟩
  | [f] =>
    obtain ⟨rfl, hrest⟩ := List.cons.inj heq
    obtain ⟨rfl, -⟩ := List.cons.inj hrest
    exact ⟨_, (addWeight_runs hbegins (total_of_first hdone)).2 rfl⟩
  | f :: g :: done => simp [depotEntries] at heq

/-- A loop over a map of two parcels adds their weights up. -/
theorem parcels_weighed : LoopNames parcelEnv.program.types "key" "parcel" depot [addWeight] ∧
    ∃ out code d' first second, compileLibrary parcelEnv = .ok out ∧
      lowerStmt (.function .void) (.foreach {} "key" "parcel" depot [addWeight]) parcelEnv {} = .ok code d' ∧
      Dictionary (depotCode (.ofOutput out)) ⟨.int 257 true, .struct "Parcel"⟩ (.cell .empty)
        (depotEntries first second) ∧
      RunsCodecs (depotCode (.ofOutput out)) parcelEnv "Parcel" ∧
      (∀ e ∈ depotEntries first second, e.Stored (depotCode (.ofOutput out)) parcelEnv
        ⟨.int 257 true, .struct "Parcel"⟩) ∧
      ∃ t', Machine.Yields (block (depotCode (.ofOutput out)) code) depotStart none t' ∧
        t'.get? "$total" = some (.int 30) := by
  obtain ⟨out, hout, hlibrary, hcells⟩ := exists_parcelLibrary
  have halike := depotCode_alike hout
  have hcell : ∀ pieces weight : Int, Bits.fitsUnsigned pieces 8 = true → Bits.fitsUnsigned weight 64 = true →
      ∃ cell, ∀ s, Machine.Yields (Code.call (depotCode (.ofOutput out)) (Name.writerCell "Parcel")
        [parcel pieces weight]) s (.cell cell) s := by
    intro pieces weight hpieces hweight
    have hwriter : Name.writerCell "Parcel" ∉ parcelOperations := by decide
    rw [halike.funext hwriter]
    exact hcells _ (fits_parcel hpieces hweight)
  obtain ⟨first, hfirst⟩ := hcell 2 10 (by decide +kernel) (by decide +kernel)
  obtain ⟨second, hsecond⟩ := hcell 3 20 (by decide +kernel) (by decide +kernel)
  have hdictionary := depot_dictionary hlibrary.proper.plain hfirst hsecond .empty
  have hcodecs : RunsCodecs (depotCode (.ofOutput out)) parcelEnv "Parcel" :=
    hlibrary.runsCodecs halike (by decide)
  have hstored : ∀ e ∈ depotEntries first second, e.Stored (depotCode (.ofOutput out)) parcelEnv
      ⟨.int 257 true, .struct "Parcel"⟩ := by
    simp only [depotEntries, List.forall_mem_cons]
    exact ⟨⟨(fits_parcel (by decide +kernel) (by decide +kernel)).represents, {}, {}, hfirst {}⟩,
      ⟨(fits_parcel (by decide +kernel) (by decide +kernel)).represents, {}, {}, hsecond {}⟩, by simp⟩
  have hnames : LoopNames parcelEnv.program.types "key" "parcel" depot [addWeight] := by
    constructor <;> decide +kernel
  have hrun : ∃ code d', lowerStmt (.function .void) (.foreach {} "key" "parcel" depot [addWeight])
      parcelEnv {} = .ok code d' := ⟨_, _, rfl⟩
  obtain ⟨code, d', hrun⟩ := hrun
  refine ⟨hnames, out, code, d', first, second, hout, hrun, hdictionary, hcodecs, hstored, ?_⟩
  obtain ⟨kind, mapCode, bodyCode, d₀, d₁, hkind, hmap, hbody, hvisits⟩ := foreach_visits hnames hrun
  have hkind' : MapKind.of parcelEnv.program.types depotType {} =
      .ok ⟨.int 257 true, .struct "Parcel"⟩ := rfl
  have hmap' : lower (.function .void) depot parcelEnv {} = .ok (id "$depot") {} := rfl
  have hbody' : lowerStmts (.function .void) [addWeight] parcelEnv d₁ = .ok addWeightCode d₁ := rfl
  obtain rfl := Except.ok.inj (hkind.symm.trans hkind')
  obtain ⟨rfl, -⟩ := EStateM.Result.ok.inj (hmap.symm.trans hmap')
  obtain ⟨rfl, -⟩ := EStateM.Result.ok.inj (hbody.symm.trans hbody')
  obtain ⟨t, t', hvisited, hframes, hcode⟩ := hvisits (depotCode (.ofOutput out)) (.cell .empty)
    (depotEntries first second) depotStart depotStart (means_id rfl) (fun m hm => by cases hm; rfl) hdictionary
    (fun type htype => by cases htype; exact hcodecs) hstored addWeight_ends
  refine ⟨t', hcode, ?_⟩
  obtain ⟨t₁, u, hdone, hbegins, hstep⟩ :=
    visits_concat.1 (show Visits _ _ _ ([⟨.int 1, .cell first, parcel 2 10⟩] ++ [_]) _ _ from hvisited)
  rw [addWeight_runs hbegins (total_of_first hdone)] at hstep
  rw [hframes.kept _ total_not_own, hstep]
  simp

/-! ### A map of two numbers -/

/-- A program without declarations of its own. -/
def stockEnv : Env where
  program := { types := .primitives }
  evaluate := noConstants

/-- A type of maps from numbers to numbers. -/
def stockType : TypeRef := .map "Int" none "Int" none

/-- The map that is looped over. -/
def stock : Expr := .ident ⟨stockType, {}⟩ "stock"

/-- The two entries of the map. -/
def stockEntries : List Entry := [⟨.int 1, .int 10, .int 10⟩, ⟨.int 2, .int 20, .int 20⟩]

/-- Operations that answer for these entries, if they are applied to a cell. -/
def stockCode : Code where
  functions := .ofList [
    ("__tact_dict_min_int_int", .function
      { name := "__tact_dict_min_int_int", params := [⟨.cell, "d"⟩, ⟨.int, "bits"⟩, ⟨.int, "width"⟩] }
      [.expr (call "begin_parse" [id "d"]), Target.ret (.tensor [int 1, int 10, .bool true])]),
    ("__tact_dict_next_int_int", .function
      { name := "__tact_dict_next_int_int",
        params := [⟨.cell, "d"⟩, ⟨.int, "bits"⟩, ⟨.int, "key"⟩, ⟨.int, "width"⟩] }
      [.expr (call "begin_parse" [id "d"]),
        Target.ret (.tensor [int 2, int 20, .binary .lt (id "key") (int 2)])])]

theorem stockCode_plain : stockCode.Plain := by
  have hall : ∀ name ∈ Target.builtins, stockCode.functions.get? name = none := by decide +kernel
  exact hall

/-- The operations answer for the two entries of any cell. -/
theorem stock_dictionary (y : Cell) :
    Dictionary stockCode ⟨.int 257 true, .int 257 true⟩ (.cell y) stockEntries := by
  have hnext : ∀ k : Int, ∀ t, Machine.Yields (Code.call stockCode "__tact_dict_next_int_int"
      [.cell y, .int 257, .int k, .int 257]) t (.tensor [.int 2, .int 20, .bool (decide (k < 2))]) t := by
    intro k
    refine answer_runs stockCode_plain ["d", "bits", "key", "width"] ⟨_, rfl, rfl⟩ rfl (fun _ => rfl) fun t => ?_
    refine .tensor (.cons means_int (.cons means_int (.cons ?_ .nil)))
    exact .binary (means_id rfl) means_int rfl
  refine ⟨?_, ⟨some ⟨.int 1, .int 10, .int 10⟩, ?_, ?_⟩, ?_⟩
  · simp [InOrder, stockEntries, Val.Before]
  · simp [Least, stockEntries, Val.Before]
  · refine answer_runs stockCode_plain ["d", "bits", "width"] ⟨_, rfl, rfl⟩ rfl (fun _ => rfl) fun t => ?_
    exact .tensor (.cons means_int (.cons means_int (.cons means_bool .nil)))
  · simp only [stockEntries, List.forall_mem_cons]
    refine ⟨⟨some ⟨.int 2, .int 20, .int 20⟩, ?_, hnext 1⟩, ⟨none, ?_, _, _, hnext 2⟩, by simp⟩
    · simp [Least, Val.Before]
    · simp [Least, Val.Before]

/-- The map in its variable, and a total of nothing. -/
def stockStart : State where
  frame := .ofList [("$stock", .cell .empty), ("$total", .int 0)]

/-- The operation for the next entry wants a cell. -/
theorem next_fails {k : Int} {bits key width v : Val} {t t' : State} :
    ¬ Machine.Yields (Code.call stockCode "__tact_dict_next_int_int" [.int k, bits, key, width]) t v t' := by
  intro hcall
  have hhas : stockCode.Has "__tact_dict_next_int_int" ["d", "bits", "key", "width"]
      [.expr (call "begin_parse" [id "d"]),
        Target.ret (.tensor [int 2, int 20, .binary .lt (id "key") (int 2)])] := ⟨_, rfl, rfl⟩
  obtain ⟨-, r, u, hblock, -⟩ := hhas.yields.1 hcall
  obtain ⟨w, s, hparse, -⟩ := yields_block_expr.1 hblock
  have hparse' := (yields_call_means (.cons (means_id (v := .int k) rfl) .nil)).1 hparse
  rw [yields_builtin stockCode_plain (by decide)] at hparse'
  cases hparse'.1

/-- The code of a loop without statements whose key is named like its map. -/
def clashCode : List Target.Stmt :=
  let pattern : Target.Expr := .tensor [id "$stock", id "$amount", id "fc_0"]
  [Target.var pattern (call "__tact_dict_min_int_int" [id "$stock", int 257, int 257]),
    .whileLoop (id "fc_0")
      [assign pattern (call "__tact_dict_next_int_int" [id "$stock", int 257, id "$stock", int 257])]]

/-- A key that is named like the map takes its place: the walk asks for the entry after the first key in
the first key, and not in the map. -/
theorem clash_of_key : ∃ code d', lowerStmt (.function .void) (.foreach {} "stock" "amount" stock [])
      stockEnv {} = .ok code d' ∧
    MapKind.of stockEnv.program.types stockType {} = .ok ⟨.int 257 true, .int 257 true⟩ ∧
    stmtChanges stockEnv.program.types [] = [] ∧
    lower (.function .void) stock stockEnv {} = .ok (id "$stock") {} ∧
    stockStart.get? "$stock" = some (.cell .empty) ∧
    Dictionary stockCode ⟨.int 257 true, .int 257 true⟩ (.cell .empty) stockEntries ∧
    ¬ ∃ t', Machine.Yields (block stockCode code) stockStart none t' := by
  refine ⟨clashCode, _, rfl, rfl, rfl, rfl, rfl, stock_dictionary _, ?_⟩
  rintro ⟨t', hrun⟩
  obtain ⟨v, s₁, hmin, s₂, hbind, hloop⟩ := yields_block_var.1 hrun
  have hmap : stockStart.get? "$stock" = some (.cell .empty) := rfl
  have hmin' := (yields_call_means (.cons (means_id hmap) (.cons means_int (.cons means_int .nil)))).1 hmin
  obtain ⟨rfl, rfl⟩ := hmin'.eq ((stock_dictionary .empty).first _)
  -- the first key is now where the map was
  obtain rfl : s₂ = stockStart.setAll _ :=
    (yields_bind_idents (show _ = ["$stock", "$amount", "fc_0"].length from rfl)).1 hbind
  obtain ⟨w, s₁, hflag, hit, htruthy, hround⟩ := yields_whileLoop.1 (yields_block_while.1 hloop)
  obtain ⟨rfl, rfl⟩ := (means_id (v := .bool true) rfl).iff.1 hflag
  obtain rfl : true = hit := Except.ok.inj (truthy_bool.symm.trans htruthy)
  obtain ⟨q, s₂, hadvance, -⟩ := hround
  obtain ⟨u, s₁, hassign, -⟩ := yields_block_expr.1 hadvance
  obtain ⟨s₁, hnext, -⟩ := yields_assign.1 hassign
  have hkey (t : State) (h : t.get? "$stock" = some (.int 1)) :
      List.Forall₂ (Means stockCode t) [id "$stock", int 257, id "$stock", int 257]
        [.int 1, .int 257, .int 1, .int 257] :=
    .cons (means_id h) (.cons means_int (.cons (means_id h) (.cons means_int .nil)))
  exact next_fails ((yields_call_means (hkey _ rfl)).1 hnext)

end Examples

end Generate

end CellCompiler
