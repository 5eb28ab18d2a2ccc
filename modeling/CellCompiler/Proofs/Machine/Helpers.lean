import CellCompiler.Proofs.Generate.Rules
import CellCompiler.Proofs.Machine.Primitives

/-!
# What helpers do

`Code.Helps` says that a module has a helper under a name. `yields_verifyAddress`,
`yields_storeAddress` and `yields_loadAddress` are about addresses, of which only standard ones
(`IsStandard`) pass.
-/

namespace CellCompiler

namespace Machine

variable {c : Code} {s s' : State} {v : Val}

/-- Every function of the module has an emitted name or is a helper under its name. -/
def Code.Proper (c : Code) : Prop :=
  ∀ name item, c.functions.get? name = some item → Emission.Permitted name item

theorem Code.Proper.plain (hc : c.Proper) : c.Plain := by
  intro name hname
  cases h : c.functions.get? name with
  | none => rfl
  | some item => exact absurd hname (hc name item h).not_mem_builtins

/-- The module has the helper under the name. -/
def Code.Helps (c : Code) (name : String) (h : Helper) : Prop :=
  c.functions.get? name = some (h.item name)

/-- The bits of an address in the basechain. -/
structure IsStandard (bits : List Bool) : Prop where
  length_eq : bits.length = Address.bitLength
  head_eq : Bits.toNat (bits.take 11) = 1024

theorem IsStandard.tag {bits : List Bool} (h : IsStandard bits) : Bits.toNat (bits.take 2) = 2 := by
  have hlength := h.length_eq
  have hsplit : bits.take 11 = bits.take 2 ++ (bits.drop 2).take 9 :=
    List.take_add (i := 2) (j := 9)
  have hrest : ((bits.drop 2).take 9).length = 9 := by
    simp [hlength, Address.bitLength]
  have hhead := h.head_eq
  have hlt := Bits.toNat_lt ((bits.drop 2).take 9)
  rw [hsplit, Bits.toNat_append, hrest] at hhead
  rw [hrest] at hlt
  omega

theorem isStandard_iff {bits : List Bool} :
    IsStandard bits ↔ bits.length = 267 ∧ Bits.toNat (bits.take 11) = 1024 :=
  ⟨fun h => ⟨h.length_eq, h.head_eq⟩, fun h => ⟨h.1, h.2⟩⟩

theorem yields_verifyBody (hc : c.Plain) {x : Slice} {r : Option Val}
    (h : s.get? "address" = some (.slice x)) :
    Yields (block c
      [Target.throwUnless ExitCode.invalidAddress
          (Target.eq (Target.method (Target.id "address") "slice_bits" []) (Target.int 267)),
        Target.var (Target.id "h") (Target.method (Target.id "address") "preload_uint" [Target.int 11]),
        Target.throwUnless ExitCode.invalidAddress
          (Target.eq (.binary .shr (Target.id "h") (Target.int 8)) (Target.int 4)),
        Target.throwUnless ExitCode.notBasechain (Target.eq (Target.id "h") (Target.int 1024)),
        Target.ret (Target.id "address")]) s r s' ↔
      IsStandard x.bits ∧ r = some (.slice x) ∧ s' = s.set "h" (.int 1024) := by
  have hbits : Means c s (Target.method (Target.id "address") "slice_bits" []) (.int x.bits.length) :=
    .primitive hc (by decide) (.cons (means_id h) .nil) (call_slice_bits.2 rfl)
  rw [yields_throwUnless hc (hbits.eq means_int), isStandard_iff]
  by_cases hlength : x.bits.length = 267
  · have hpeek : Means c s (Target.method (Target.id "address") "preload_uint" [Target.int 11])
        (.int (Bits.toNat (x.bits.take 11))) :=
      .primitive hc (by decide) (.cons (means_id h) (.cons means_int .nil))
        ((call_preload_uint (n := 11) (by decide) (by omega)).2 rfl)
    rw [yields_var_means hpeek]
    generalize Bits.toNat (x.bits.take 11) = n
    have hh : Means c (s.set "h" (.int n)) (Target.id "h") (.int n) := means_id (by simp)
    have haddress : Means c (s.set "h" (.int n)) (Target.id "address") (.slice x) :=
      means_id (by simp [h])
    have hshift : Means c (s.set "h" (.int n)) (.binary .shr (Target.id "h") (Target.int 8))
        (.int (Bitwise.shiftRight n 8)) := .binary hh means_int rfl
    rw [yields_throwUnless hc (hshift.eq means_int), yields_throwUnless hc (hh.eq means_int),
      yields_ret_means haddress]
    by_cases hn : n = 1024
    · subst hn
      simp [hlength, Bitwise.shiftRight, Bits.twoPow]
    · have hn' : ¬ (n : Int) = 1024 := by omega
      simp [hn, hn']
  · have hlength' : ¬ (x.bits.length : Int) = 267 := by omega
    simp [hlength, hlength']

theorem yields_verifyAddress (hc : c.Plain) (h : c.Helps Helper.verifyAddressName .verifyAddress)
    {x : Slice} : Yields (call c Helper.verifyAddressName [.slice x]) s v s' ↔
      IsStandard x.bits ∧ v = .slice x ∧ s' = s := by
  have hhas : c.Has Helper.verifyAddressName ["address"] _ := ⟨_, h, rfl⟩
  have haddress : (s.enter ["address"] [.slice x]).get? "address" = some (.slice x) := by
    simp [State.enter, State.get?, Dict.ofList]
  rw [hhas.yields]
  simp only [yields_verifyBody hc haddress]
  constructor
  · rintro ⟨-, r, t, ⟨hx, rfl, rfl⟩, rfl, rfl⟩
    exact ⟨hx, rfl, rfl⟩
  · rintro ⟨hx, rfl, rfl⟩
    exact ⟨rfl, _, _, ⟨hx, rfl, rfl⟩, rfl, rfl⟩

/-- Under the name of a helper that no emitted function has, the module has that helper or nothing. -/
theorem Code.Proper.eq_none_or_helps (hc : c.Proper) {name : String} {h : Helper}
    (hof : Helper.ofName? name = some h) (hname : Name.isEmitted name = false) :
    c.functions.get? name = none ∨ c.Helps name h := by
  cases hget : c.functions.get? name with
  | none => exact .inl rfl
  | some item =>
    obtain hemitted | ⟨helper, hhelper, rfl⟩ := hc _ item hget
    · simp [hname] at hemitted
    · obtain rfl : h = helper := by simpa [hof] using hhelper
      exact .inr hget

/-- The module has the check of addresses if it has anything under that name. -/
theorem Code.Proper.verifyAddress_cases (hc : c.Proper) :
    c.functions.get? Helper.verifyAddressName = none ∨
      c.Helps Helper.verifyAddressName .verifyAddress :=
  hc.eq_none_or_helps (by decide) (by decide)

/-- A module in which the check of addresses has been called has it. -/
theorem Code.Proper.helps_verifyAddress (hc : c.Proper) {args : List Val}
    (h : Yields (call c Helper.verifyAddressName args) s v s') :
    c.Helps Helper.verifyAddressName .verifyAddress := by
  refine hc.verifyAddress_cases.resolve_left fun hget => ?_
  rw [yields_primitive hget (by decide) (by decide)] at h
  have hcall : Primitive.call c.host Helper.verifyAddressName args =
      .error (.bug (.unsupported Helper.verifyAddressName args.length)) := rfl
  simp [hcall] at h

theorem yields_storeAddress (hc : c.Proper) (h : c.Helps Helper.storeAddressName .storeAddress)
    {b : Builder} {x : Slice}
    (hcall : Yields (call c Helper.storeAddressName [.builder b, .slice x]) s v s') :
    c.Helps Helper.verifyAddressName .verifyAddress ∧ IsStandard x.bits ∧
      v = .builder (b.push x.bits x.refs) ∧ s' = s := by
  have hhas : c.Has Helper.storeAddressName ["b", "address"] _ := ⟨_, h, rfl⟩
  obtain ⟨-, r, t, hbody, rfl, rfl⟩ := hhas.yields.1 hcall
  have hb : (s.enter ["b", "address"] [.builder b, .slice x]).get? "b" = some (.builder b) := by
    simp [State.enter, State.get?, Dict.ofList]
  have haddress : (s.enter ["b", "address"] [.builder b, .slice x]).get? "address" =
      some (.slice x) := by
    simp [State.enter, State.get?, Dict.ofList]
  rw [yields_block_ret] at hbody
  obtain ⟨w, hw, rfl⟩ := hbody
  rw [Target.method, yields_method] at hw
  obtain ⟨ws, t₁, hargs, hstore⟩ := hw
  simp only [yields_evalAll_cons, yields_evalAll_nil, (means_id hb).iff] at hargs
  obtain ⟨_, _, ⟨rfl, rfl⟩, _, ⟨y, t₂, hverify, _, ⟨rfl, rfl⟩, rfl⟩, rfl⟩ := hargs
  rw [yields_call_means (.cons (means_id haddress) .nil)] at hverify
  have hhelps := hc.helps_verifyAddress hverify
  obtain ⟨hx, rfl, rfl⟩ := (yields_verifyAddress hc.plain hhelps).1 hverify
  rw [yields_builtin hc.plain (by decide), call_store_slice] at hstore
  obtain ⟨⟨-, rfl⟩, rfl⟩ := hstore
  exact ⟨hhelps, hx, rfl, rfl⟩

/-- A standard address is stored where there is room. -/
theorem storeAddress_yields (hc : c.Plain) (h : c.Helps Helper.storeAddressName .storeAddress)
    (hverify : c.Helps Helper.verifyAddressName .verifyAddress) {b : Builder} {x : Slice}
    (hx : IsStandard x.bits) (hroom : b.Room x.bits.length x.refs.length) :
    Yields (call c Helper.storeAddressName [.builder b, .slice x]) s
      (.builder (b.push x.bits x.refs)) s := by
  have hhas : c.Has Helper.storeAddressName ["b", "address"] _ := ⟨_, h, rfl⟩
  generalize hu : s.enter ["b", "address"] [.builder b, .slice x] = u
  have hb : u.get? "b" = some (.builder b) := by simp [← hu, State.enter, State.get?, Dict.ofList]
  have haddress : u.get? "address" = some (.slice x) := by
    simp [← hu, State.enter, State.get?, Dict.ofList]
  have hverified : Means c u (Target.call Helper.verifyAddressName [Target.id "address"]) (.slice x) :=
    (yields_call_means (.cons (means_id haddress) .nil)).2
      ((yields_verifyAddress hc hverify).2 ⟨hx, rfl, rfl⟩)
  have hstore : Means c u (Target.method (Target.id "b") "store_slice"
      [Target.call Helper.verifyAddressName [Target.id "address"]]) (.builder (b.push x.bits x.refs)) :=
    .primitive hc (by decide) (.cons (means_id hb) (.cons hverified .nil)) (call_store_slice.2 ⟨hroom, rfl⟩)
  refine hhas.returns (t := u) rfl ?_ (by rw [← hu]; rfl) (by rw [← hu]; rfl)
  rw [hu]
  exact (yields_ret_means hstore).2 ⟨rfl, rfl⟩

theorem yields_loadAddress (hc : c.Plain) (h : c.Helps Helper.loadAddressName .loadAddress)
    (hverify : c.Helps Helper.verifyAddressName .verifyAddress) {x : Slice}
    {bits rest : List Bool} {refs : List Cell} (hbits : IsStandard bits)
    (hx : x.Holds (bits ++ rest) refs) :
    ∃ x', Yields (call c Helper.loadAddressName [.slice x]) s
      (.tensor [.slice x', .slice (Cell.mk bits []).parse]) s ∧ x'.Holds rest refs := by
  have hhas : c.Has Helper.loadAddressName ["cs"] _ := ⟨_, h, rfl⟩
  obtain ⟨x', hread, hx'⟩ := read_load_msg_addr hbits.length_eq hbits.tag hx
  have hcs : (s.enter ["cs"] [.slice x]).get? "cs" = some (.slice x) := by
    simp [State.enter, State.get?, Dict.ofList]
  have hload := yields_read hc (by decide) hcs .nil hread
  generalize hu : (s.enter ["cs"] [.slice x]).set "cs" (.slice x') = u at hload
  generalize hraw : Val.slice (Cell.mk bits []).parse = raw at hload ⊢
  have hcs' : (u.set "raw" raw).get? "cs" = some (.slice x') := by simp [← hu]
  have hraw' : (u.set "raw" raw).get? "raw" = some raw := by simp
  have hverified : Means c (u.set "raw" raw) (Target.call Helper.verifyAddressName [Target.id "raw"])
      raw := by
    rw [Means, yields_call_means (.cons (means_id hraw') .nil), ← hraw,
      yields_verifyAddress hc hverify]
    exact ⟨hbits, rfl, rfl⟩
  have hresult := Means.tensor (.cons (means_id hcs') (.cons hverified .nil))
  have hbind : Yields (bind true raw (Target.id "raw")) u () (u.set "raw" raw) :=
    yields_bind_ident.2 State.assign_of_declare.symm
  refine ⟨x', hhas.returns (t := u.set "raw" raw) rfl ?_ (by rw [← hu]; rfl) (by rw [← hu]; rfl), hx'⟩
  exact yields_block_cons.2 ⟨none, _, yields_varDef.2 ⟨rfl, _, _, hload, hbind⟩,
    (yields_ret_means hresult).2 ⟨rfl, rfl⟩⟩

end Machine

end CellCompiler
