import CellCompiler.Proofs.Codec.Loaders

/-!
# What comes from outside is checked

Callers from outside pass a record as a tuple, which is converted before a method gets it. All
addresses in it have been checked by then, also those in the records in its fields.

* `fromOutside_checks` is about a single value, and `evalAll_checks` about several;
* `fromExternal_verifies` and `fromOptExternal_verifies` are about the functions that convert a record,
  `Accepts` collects the two, and `Genuine.accepts` shows them for all records, by induction on how
  records are nested.
-/

namespace CellCompiler

open Generate Machine
open Plan (OpOf)

variable {c : Code} {env : Env} {d d' : Draft} {table : TypeTable} {regular : Prop}
  {s s' : State} {v w x : Val} {e : Target.Expr} {decl : TypeDecl} {name : String} {ty : TypeRef}

/-! ### Values -/

/-- Every address in an argument is standard, or absent where the type allows it. What is left of a
message after a bounce is converted as the whole message. -/
def VerifiedArgument (table : TypeTable) (regular : Prop) : TypeRef → Val → Prop
  | .bounced name, v => ∀ decl, table.types.get? name = some decl → decl.isStruct = true →
      Verified table regular (.plain name) v
  | ty, v => Verified table regular ty v

/-- Whenever a record from outside has been converted, its addresses are checked. -/
structure Accepts (c : Code) (table : TypeTable) (regular : Prop) (decl : TypeDecl) : Prop where
  fromExternal : Gives c (Name.fromExternal decl.name)
    (fun v => regular → v.Passed decl.fields.length) (Verified table regular (.plain decl.name))
  fromOptExternal : Gives c (Name.fromOptExternal decl.name) (fun v => regular → v.OnStack)
    (Verified table regular (.named decl.name true))

/-- Whenever the expression ends, it has changed no variable of the current function, and its value is
a verified one for what is in a variable. -/
def ChecksArgument (c : Code) (table : TypeTable) (regular : Prop) (source : String × TypeRef)
    (e : Target.Expr) : Prop :=
  ∀ s v w s', s.get? source.1 = some v → (regular → v.OnStack) → Yields (eval c e) s w s' →
    s'.frame = s.frame ∧ VerifiedArgument table regular source.2 w

theorem structOf_cases {found : Option TypeDecl} (h : structOf ty env d = .ok found d') :
    (∃ type inner, ty.name? = some type ∧ env.program.types.types.get? type = some inner ∧
      inner.isStructLike = true ∧ found = some inner) ∨
    found = none ∧ ∀ type inner, ty.name? = some type →
      env.program.types.types.get? type = some inner → inner.isStructLike = false := by
  simp only [structOf, table, run_bind, run_read, run_pure, run_ofExcept, Layout.structOf] at h
  obtain ⟨_, _, ⟨_, _, ⟨rfl, rfl⟩, rfl, rfl⟩, h, -⟩ := h
  cases hname : ty.name? with
  | none =>
    obtain rfl : none = found := by simpa [hname] using h
    exact .inr ⟨rfl, by simp⟩
  | some type =>
    simp only [hname, Except.bind_eq_ok, Layout.declOf_eq_ok, Except.pure_eq_ok] at h
    obtain ⟨inner, hinner, rfl⟩ := h
    cases hlike : inner.isStructLike with
    | true => exact .inl ⟨type, inner, rfl, hinner, hlike, by simp⟩
    | false =>
      refine .inr ⟨by simp, fun type' inner' htype hinner' => ?_⟩
      obtain rfl : type = type' := by simpa using htype
      obtain rfl : inner = inner' := by simpa [hinner] using hinner'
      exact hlike

theorem primitiveOf_named {optional : Bool} {kind : Option PrimitiveKind}
    (h : primitiveOf (.named name optional) env d = .ok kind d') :
    ∃ decl, env.program.types.types.get? name = some decl ∧ kind = decl.primitive? := by
  simp only [primitiveOf, table, run_bind, run_read, run_pure, run_ofExcept, Layout.primitiveOf,
    Except.bind_eq_ok, Layout.declOf_eq_ok, Except.pure_eq_ok] at h
  obtain ⟨_, _, ⟨_, _, ⟨rfl, rfl⟩, rfl, rfl⟩, ⟨decl, hdecl, rfl⟩, -⟩ := h
  exact ⟨decl, hdecl, rfl⟩

theorem primitiveOf_unnamed {kind : Option PrimitiveKind} (hty : ∀ name optional, ty ≠ .named name optional)
    (h : primitiveOf ty env d = .ok kind d') : kind = none := by
  simp only [primitiveOf, table, run_bind, run_read, run_pure, run_ofExcept] at h
  obtain ⟨_, _, ⟨_, _, ⟨rfl, rfl⟩, rfl, rfl⟩, h, -⟩ := h
  cases ty with
  | named name optional => exact absurd rfl (hty name optional)
  | _ => exact (Except.ok.inj h).symm

/-- A tuple that has been taken apart. -/
theorem passed_of_tupleDestroy (hc : c.Proper) {n : Nat} (hn : n ≠ 0)
    (h : Yields (call c (Helper.tupleDestroyName n) [v]) s w s') (hv : regular → v.OnStack) :
    s'.frame = s.frame ∧ (regular → w.Passed n) := by
  obtain ⟨hlt, hhelps⟩ := helps_tupleDestroy hc h
  obtain ⟨hasm, rfl⟩ := (yields_asm hhelps).1 h
  obtain ⟨items, hsingle, hlength, rfl⟩ := (asm_untuple_eq_ok hlt).1 hasm
  obtain rfl : v = .tuple items := hsingle
  exact ⟨rfl, fun hr => .inr ⟨hn, items, rfl, hlength, hv hr⟩⟩

/-- A record from outside is converted by a function that checks its addresses. -/
theorem fromExternalValue_checks (hc : c.Proper) {optional : Bool}
    (hrun : fromExternalValue decl optional (Target.id name) env d = .ok e d')
    (haccepts : Accepts c table regular decl) (hs : s.get? name = some v)
    (hv : regular → v.OnStack) (h : Yields (eval c e) s w s') :
    s'.frame = s.frame ∧ Verified table regular (.named decl.name optional) w := by
  have hvar : List.Forall₂ (Means c s) [Target.id name] [v] := .cons (means_id hs) .nil
  unfold fromExternalValue at hrun
  cases optional with
  | true =>
    simp only [if_true, callUsed, used, run_bind, run_modify, run_pure] at hrun
    obtain ⟨_, _, ⟨_, _, -, rfl, -⟩, rfl, -⟩ := hrun
    rw [yields_call_means hvar] at h
    exact ⟨h.frame_eq, haccepts.fromOptExternal _ _ _ _ h hv⟩
  | false =>
    by_cases hfields : decl.fields = []
    · simp only [Bool.false_eq_true, if_false, hfields, List.isEmpty_nil, if_true, used, run_bind,
        run_modify, run_pure] at hrun
      obtain ⟨_, _, ⟨_, _, -, rfl, -⟩, rfl, -⟩ := hrun
      rw [yields_call_means hvar] at h
      exact ⟨h.frame_eq, haccepts.fromExternal _ _ _ _ h fun hr => .inl (hv hr)⟩
    · have hnonempty : decl.fields.isEmpty = false := by simpa using hfields
      simp only [Bool.false_eq_true, if_false, hnonempty, used, run_bind, run_modify, run_pure] at hrun
      obtain ⟨_, _, ⟨_, _, -, rfl, -⟩, destroy, _, hhelper, rfl, -⟩ := hrun
      obtain rfl := helper_eq_ok hhelper
      rw [Target.call, yields_call] at h
      obtain ⟨_, t, hargs, hcall⟩ := h
      simp only [yields_evalAll_cons, yields_evalAll_nil, yields_call_means hvar] at hargs
      obtain ⟨items, _, hdestroy, _, ⟨rfl, rfl⟩, rfl⟩ := hargs
      have hlength : decl.fields.length ≠ 0 := by simpa using hfields
      obtain ⟨hframe, hitems⟩ := passed_of_tupleDestroy hc hlength hdestroy hv
      exact ⟨hcall.frame_eq.trans hframe, haccepts.fromExternal _ _ _ _ hcall hitems⟩

/-- A variable is passed on as it is. -/
theorem id_checks (h : ∀ v, (regular → v.OnStack) → VerifiedArgument table regular ty v) :
    ChecksArgument c table regular (name, ty) (Target.id name) := by
  intro s v w s' hs hv hw
  obtain ⟨rfl, rfl⟩ := (means_id hs).iff.1 hw
  exact ⟨rfl, h _ hv⟩

/-- An address is checked, if it is there. -/
theorem verifiedAddress_checks (hc : c.Proper) {type : String} {optional : Bool}
    (hrun : verifiedAddress (.named type optional) (Target.id name) env d = .ok e d')
    (hdecl : env.program.types.types.get? type = some decl) (hp : decl.primitive? = some .address) :
    ChecksArgument c env.program.types regular (name, .named type optional) e := by
  intro s v w s' hs _ h
  simp only [verifiedAddress, callHelper, run_bind, run_pure] at hrun
  obtain ⟨_, _, ⟨verify, _, hhelper, rfl, -⟩, rfl, -⟩ := hrun
  obtain rfl := helper_eq_ok hhelper
  have hverify : ∀ {w : Val} {s' : State}, Yields (eval c (Target.call Helper.verifyAddressName
      [Target.id name])) s w s' → s'.frame = s.frame ∧
        Verified env.program.types regular (.named type optional) w := by
    intro w s' h
    rw [yields_call_means (.cons (means_id hs) .nil)] at h
    obtain ⟨y, rfl, rfl, hy⟩ := slice_of_verifyAddress hc h
    exact ⟨h.frame_eq, .address hdecl hp hy⟩
  cases optional with
  | false => exact hverify h
  | true =>
    obtain ⟨flag, t, hflag, hit, -, hbranch⟩ := yields_ternary.1 h
    obtain ⟨-, rfl⟩ := (means_isNull hc.plain (means_id hs)).iff.1 hflag
    cases hit with
    | false => exact hverify hbranch
    | true =>
      obtain ⟨rfl, rfl⟩ := (means_null hc.plain).iff.1 hbranch
      exact ⟨rfl, .absent hdecl (TypeDecl.isContract_of_primitive? hp)⟩

/-- A record is checked as it is converted. -/
theorem fromExternalValue_checksArgument (hc : c.Proper) (hw : env.program.types.WellNamed) {type : String}
    (hrun : fromExternalValue decl ty.isOptional (Target.id name) env d = .ok e d') (htype : ty.name? = some type)
    (hdecl : env.program.types.types.get? type = some decl)
    (haccepts : Accepts c env.program.types regular decl) :
    ChecksArgument c env.program.types regular (name, ty) e := by
  intro s v w s' hs hv h
  obtain ⟨hframe, hverified⟩ := fromExternalValue_checks hc hrun haccepts hs hv h
  obtain rfl := hw.name_eq hdecl
  refine ⟨hframe, ?_⟩
  cases ty with
  | named type optional =>
    obtain rfl : type = decl.name := by simpa [TypeRef.name?] using htype
    exact hverified
  | bounced type =>
    obtain rfl : type = decl.name := by simpa [TypeRef.name?] using htype
    exact fun _ _ _ => hverified
  | _ => simp [TypeRef.name?] at htype

/-- **A value from outside is checked.** -/
theorem fromOutside_checks (hc : c.Proper) (hw : env.program.types.WellNamed)
    (hrun : fromOutside ty (Target.id name) env d = .ok e d')
    (haccepts : ∀ type inner, ty.name? = some type →
      env.program.types.types.get? type = some inner → inner.isStructLike = true →
      Accepts c env.program.types regular inner) :
    ChecksArgument c env.program.types regular (name, ty) e := by
  simp only [fromOutside, run_bind] at hrun
  obtain ⟨found, d₁, hfound, hrun⟩ := hrun
  rcases structOf_cases hfound with ⟨type, inner, htype, hinner, hlike, rfl⟩ | ⟨rfl, hnot⟩
  · exact fromExternalValue_checksArgument hc hw hrun htype hinner (haccepts type inner htype hinner hlike)
  · -- values that are no records are passed on as they are, except for addresses
    simp only [run_bind] at hrun
    obtain ⟨kind?, d₂, hkind, hrun⟩ := hrun
    cases ty with
    | named type optional =>
      obtain ⟨decl, hdecl, rfl⟩ := primitiveOf_named hkind
      have hlike := hnot type decl rfl hdecl
      obtain ⟨kind, hp⟩ : ∃ kind, decl.primitive? = some kind := by
        cases hp : decl.primitive? with
        | none => simp [TypeDecl.primitive?_eq_none_iff.1 hp] at hlike
        | some kind => exact ⟨kind, rfl⟩
      rw [hp] at hrun
      by_cases haddress : kind = .address
      · subst haddress
        exact verifiedAddress_checks hc hrun hdecl hp
      · obtain rfl : Target.id name = e := by
          cases kind with
          | address => exact absurd rfl haddress
          | _ => exact (run_pure.1 hrun).1
        exact id_checks fun v hv => .scalar hdecl hp haddress fun hr => (hv hr).isLeaf
    | bounced type =>
      obtain rfl := primitiveOf_unnamed (by simp) hkind
      obtain ⟨rfl, -⟩ := run_pure.1 hrun
      refine id_checks fun v _ decl hdecl hstruct => ?_
      have := TypeDecl.isStructLike_of_isStruct hstruct
      simp [hnot type decl rfl hdecl] at this
    | _ =>
      obtain rfl := primitiveOf_unnamed (by simp) hkind
      obtain ⟨rfl, -⟩ := run_pure.1 hrun
      exact id_checks fun v hv => .unnamed rfl fun hr => (hv hr).isLeaf

/-- Several values from outside are checked one after the other. -/
theorem evalAll_checks {sources : List (String × TypeRef)} {es : List Target.Expr}
    (hes : List.Forall₂ (ChecksArgument c table regular) sources es)
    (hs : ∀ source ∈ sources, ∃ v, s.get? source.1 = some v ∧ (regular → v.OnStack)) {ws : List Val}
    (h : Yields (evalAll c es) s ws s') :
    List.Forall₂ (fun source w => VerifiedArgument table regular source.2 w) sources ws := by
  induction hes generalizing s ws with
  | nil =>
    obtain ⟨rfl, -⟩ := yields_evalAll_nil.1 h
    exact .nil
  | cons he _ ih =>
    rw [List.forall_mem_cons] at hs
    obtain ⟨⟨v, hget, hv⟩, hrest⟩ := hs
    obtain ⟨w, t, hw, ws, hws, rfl⟩ := yields_evalAll_cons.1 h
    obtain ⟨hframe, hverified⟩ := he s v w t hget hv hw
    refine .cons hverified (ih (fun source hsource => ?_) hws)
    rw [State.get?, hframe, ← State.get?]
    exact hrest source hsource

/-! ### Records -/

section Records

variable {view : RecordView} {sh : Layout.Shape}

/-- No field has the type of what is left of a message. -/
theorem VerifiedArgument.verified (h : VerifiedArgument table regular ty v)
    (hty : ∀ type, ty ≠ .bounced type) : Verified table regular ty v := by
  cases ty with
  | bounced type => exact absurd rfl (hty type)
  | _ => exact h

theorem fromExternal_verifies (hc : c.Proper) (hw : env.program.types.WellNamed)
    (hsep : decl.Separate) (hdecl : env.program.types.types.get? decl.name = some decl)
    (hstruct : decl.isStruct = true) (hview : ViewOf env decl view sh)
    (honly : Only c env view.fromExternalItem)
    (hbounced : ∀ f ∈ decl.fields, ∀ type, f.ty ≠ .bounced type)
    (haccepts : ∀ f ∈ decl.fields, ∀ type inner, f.ty.name? = some type →
      env.program.types.types.get? type = some inner → inner.isStructLike = true →
      Accepts c env.program.types regular inner) :
    Gives c (Name.fromExternal decl.name) (fun v => regular → v.Passed decl.fields.length)
      (Verified env.program.types regular (.plain decl.name)) := by
  intro s x w s' h hx
  obtain ⟨d, item, d', hrun, hget⟩ := honly.get? h (Name.isEmitted_ofType _ _)
  have hvar : (s.enter ["v"] [x]).get? "v" = some x := by simp [State.enter, State.get?, Dict.ofList]
  simp only [RecordView.fromExternalItem, RecordView.conversion, RecordView.isEmpty, RecordView.name,
    RecordView.fieldVars, hview.decl_eq] at hrun
  by_cases hfields : decl.fields = []
  · simp only [hfields, List.isEmpty_nil, if_true, run_bind, run_pure] at hrun
    obtain ⟨_, _, ⟨rfl, -⟩, _, _, -, rfl, -⟩ := hrun
    have hhas : c.Has (Name.fromExternal decl.name) ["v"] _ := ⟨_, hget (by simp), by simp⟩
    obtain ⟨-, q, t, hyields, rfl, -⟩ := hhas.yields.1 h
    obtain ⟨rfl, rfl⟩ := (yields_ret_means (means_id hvar)).1 hyields
    refine .empty hdecl hstruct hfields fun hr => ?_
    rcases hx hr with hstack | ⟨hne, -⟩
    · exact hstack.isLeaf
    · simp [hfields] at hne
  · have hnonempty : decl.fields.isEmpty = false := by simpa using hfields
    simp only [hnonempty, Bool.false_eq_true, if_false, run_bind, run_pure] at hrun
    obtain ⟨items, _, hitems, _, _, ⟨rfl, -⟩, _, _, -, rfl, -⟩ := hrun
    have hhas : c.Has (Name.fromExternal decl.name) ["v"] _ := ⟨_, hget (by simp), by simp⟩
    obtain ⟨-, q, t, hyields, rfl, -⟩ := hhas.yields.1 h
    obtain ⟨y, _, hv, t₁, hbind, hret⟩ := yields_block_var.1 hyields
    obtain ⟨rfl, rfl⟩ := (means_id hvar).iff.1 hv
    -- the fields are bound as a whole, then each is checked
    have hidents : decl.fields.map fieldVar =
        (decl.fields.map fun f => Name.tick "v" f.name).map Target.id := by
      simp [fieldVar]
    rw [hidents] at hbind
    obtain ⟨vs, hlength, rfl, hstack⟩ := exists_setAll_of_bind_idents hbind (by simpa using hx)
    have hnodup : (decl.fields.map fun f => Name.tick "v" f.name).Nodup := by
      have hnames := hsep.nodup.map (Name.tick_injective "v")
      rwa [List.map_map] at hnames
    have hset := State.forall₂_setAll (s := s.enter ["v"] [y]) hnodup hlength.symm
    obtain ⟨w, htensor, rfl⟩ := yields_block_ret.1 hret
    obtain ⟨ws, hws, rfl⟩ := yields_tensor.1 htensor
    have hchecks : List.Forall₂ (ChecksArgument c env.program.types regular)
        (decl.fields.map fun f => (Name.tick "v" f.name, f.ty)) items := by
      rw [List.forall₂_map_left_iff]
      refine (List.forall₂_and_left _ _).2 ⟨fun _ hf => hf, run_mapM hitems⟩ |>.imp ?_
      rintro f e ⟨hf, d, d', hrun⟩
      exact fromOutside_checks hc hw hrun (haccepts f hf)
    have hbound : ∀ name ∈ decl.fields.map fun f => Name.tick "v" f.name, ∃ v,
        ((s.enter ["v"] [y]).setAll ((decl.fields.map fun f => Name.tick "v" f.name).zip vs)).get? name =
          some v ∧ (regular → v.OnStack) :=
      List.forall_mem_of_forall₂ hset.flip
        (fun v name hv hmem => ⟨v, hv, fun hr => Val.allOnStack_iff.1 (hstack hr) v hmem⟩)
        fun _ hmem => hmem
    rw [List.forall_mem_map] at hbound
    have hall := evalAll_checks hchecks (List.forall_mem_map.2 hbound) hws
    rw [List.forall₂_map_left_iff] at hall
    refine VerifiedFields.verified hdecl hstruct ((verifiedFields_iff hfields).2 ⟨ws, rfl, ?_⟩)
    refine (List.forall₂_and_left _ _).2 ⟨fun _ hf => hf, hall⟩ |>.imp ?_
    rintro f w ⟨hf, hw⟩
    exact hw.verified (hbounced f hf)

theorem fromOptExternal_verifies (hc : c.Proper)
    (hdecl : table.types.get? decl.name = some decl) (hstruct : decl.isStruct = true)
    (hview : ViewOf env decl view sh) (honly : Only c env view.fromOptExternalItem)
    (hfrom : Gives c (Name.fromExternal decl.name) (fun v => regular → v.Passed decl.fields.length)
      (Verified table regular (.plain decl.name)))
    (hbox : Gives c (Name.asOptional decl.name) (Verified table regular (.plain decl.name))
      (Verified table regular (.named decl.name true))) :
    Gives c (Name.fromOptExternal decl.name) (fun v => regular → v.OnStack)
      (Verified table regular (.named decl.name true)) := by
  intro s x w s' h hx
  obtain ⟨d, item, d', hrun, hget⟩ := honly.get? h (Name.isEmitted_ofType _ _)
  have hvar : Means c (s.enter ["v"] [x]) (Target.id "v") x :=
    means_id (by simp [State.enter, State.get?, Dict.ofList])
  simp only [RecordView.fromOptExternalItem, RecordView.conversion, RecordView.isEmpty,
    RecordView.name, hview.decl_eq] at hrun
  by_cases hfields : decl.fields = []
  · simp only [hfields, List.isEmpty_nil, if_true, run_bind, run_pure] at hrun
    obtain ⟨_, _, ⟨rfl, -⟩, rfl, -⟩ := hrun
    have hhas : c.Has (Name.fromOptExternal decl.name) ["v"] _ := ⟨_, hget (by simp), by simp⟩
    obtain ⟨-, q, t, hyields, rfl, -⟩ := hhas.yields.1 h
    obtain ⟨rfl, rfl⟩ := (yields_ret_means hvar).1 hyields
    exact .empty hdecl hstruct hfields fun hr => (hx hr).isLeaf
  · have hnonempty : decl.fields.isEmpty = false := by simpa using hfields
    simp only [hnonempty, Bool.false_eq_true, if_false, used, run_bind, run_modify, run_pure] at hrun
    obtain ⟨destroy, _, hhelper, _, _, ⟨_, _, -, rfl, -⟩, _, _, ⟨_, _, -, rfl, -⟩, _, _, ⟨rfl, -⟩, rfl,
      -⟩ := hrun
    obtain rfl := helper_eq_ok hhelper
    have hhas : c.Has (Name.fromOptExternal decl.name) ["v"] _ := ⟨_, hget (by simp), by simp⟩
    obtain ⟨-, q, t, hyields, rfl, -⟩ := hhas.yields.1 h
    rw [RecordView.passNull, yields_ifThen_means (means_isNull hc.plain hvar)] at hyields
    cases hnull : x.isNull with
    | true =>
      rw [hnull] at hyields
      obtain ⟨rfl, -⟩ := (yields_ret_means (means_null hc.plain)).1 hyields
      exact .absent hdecl (TypeDecl.isContract_of_isStruct hstruct)
    | false =>
      rw [hnull] at hyields
      obtain ⟨w, hclose, rfl⟩ := yields_block_ret.1 hyields
      -- from the inside out: taken apart, converted, boxed
      simp only [Target.call, yields_call, yields_evalAll_cons, yields_evalAll_nil] at hclose
      obtain ⟨_, t₃, ⟨y, _, ⟨_, t₂, ⟨items, _, ⟨_, t₁, ⟨_, _, hv, _, ⟨rfl, rfl⟩, rfl⟩, hdestroy⟩, _,
        ⟨rfl, rfl⟩, rfl⟩, hconvert⟩, _, ⟨rfl, rfl⟩, rfl⟩, hboxed⟩ := hclose
      obtain ⟨rfl, rfl⟩ := hvar.iff.1 hv
      have hlength : decl.fields.length ≠ 0 := by simpa using hfields
      have hpassed := (passed_of_tupleDestroy hc hlength hdestroy hx).2
      exact hbox _ _ _ _ hboxed (hfrom _ _ _ _ hconvert hpassed)

end Records

/-! ### All records -/

section Genuine

/-- No field has the type of what is left of a message. -/
theorem Genuine.ne_bounced (h : Genuine c env) {r : Record} (hr : RecordOf env decl r)
    (hdecl : env.program.types.types.get? decl.name = some decl) :
    ∀ f ∈ decl.fields, ∀ type, f.ty ≠ .bounced type := by
  obtain ⟨-, hops⟩ := hr.ops h.wellNamed h.planned hdecl
  refine List.forall_mem_of_forall₂ (P := fun _ => True) hops.flip ?_ fun _ _ => trivial
  rintro op' f ⟨op, hop, -⟩ - type hty
  rw [hty] at hop
  cases hop

/-- Nothing is said about the state of a contract. -/
theorem accepts_of_contract (hdecl : table.types.get? decl.name = some decl)
    (hcontract : decl.isContract = true) : Accepts c table regular decl :=
  ⟨fun _ _ _ _ _ _ => .contract hdecl hcontract, fun _ _ _ _ _ _ => .contract hdecl hcontract⟩

/-- **Records from outside are checked.** All addresses in them, at any depth, are standard, or absent
where the type allows it. -/
theorem Genuine.accepts (h : Genuine c env) (hregular : regular → env.program.types.HoldsNoContract)
    (hdecl : env.program.types.types.get? name = some decl) (hlike : decl.isStructLike = true) :
    Accepts c env.program.types regular decl := by
  have hacc := h.acc name decl hdecl hlike
  induction hacc generalizing decl with
  | intro name _ ih =>
    obtain rfl := h.wellNamed.name_eq hdecl
    cases hstruct : decl.isStruct with
    | false => exact accepts_of_contract hdecl (TypeDecl.isContract_of_isStructLike hlike hstruct)
    | true =>
      have hloaders := h.loaders hregular hdecl hstruct
      obtain ⟨⟨r, hreaders⟩, view, sh, hview⟩ :=
        h.conversions decl (TypeTable.mem_structs.2 ⟨Dict.mem_values_of_get? hdecl, hstruct⟩)
      have hbounced := h.ne_bounced hreaders.record hdecl
      have hfields : ∀ f ∈ decl.fields, ∀ type inner, f.ty.name? = some type →
          env.program.types.types.get? type = some inner → inner.isStructLike = true →
          Accepts c env.program.types regular inner := by
        intro f hf type inner htype hinner hinnerLike
        obtain ⟨optional, hty⟩ : ∃ optional, f.ty = .named type optional := by
          generalize hty : f.ty = ty at htype
          cases ty with
          | named _ optional => exact ⟨optional, by simpa [TypeRef.name?] using htype⟩
          | bounced type => exact absurd hty (hbounced f hf type)
          | _ => simp [TypeRef.name?] at htype
        exact ih type ⟨⟨decl, hdecl, f, hf, optional, hty⟩, inner, hinner, hinnerLike⟩ hinner hinnerLike
      have hsep := h.separate decl (Dict.mem_values_of_get? hdecl)
      have hfrom := fromExternal_verifies h.proper h.wellNamed hsep hdecl hstruct hview.viewOf
        hview.fromExternal hbounced hfields
      exact ⟨hfrom, fromOptExternal_verifies h.proper hdecl hstruct hview.viewOf hview.fromOptExternal
        hfrom hloaders.asOptional⟩

end Genuine

end CellCompiler
