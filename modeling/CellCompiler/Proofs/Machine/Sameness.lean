import CellCompiler.Proofs.Machine.Keeping
import CellCompiler.Proofs.Machine.Likeness
import CellCompiler.Proofs.Machine.Representation

/-!
# Values that hold the same are like

No function of the target looks behind what is left to read in a slice. So values that hold the same
(`Val.Same`) are like, and runs on them end alike (`Likeness.same`).

* `Slice.Same` compares slices by what is left to read, and `Slice.Respects` says that a read finds the
  same in such slices;
* `call_same` and `modify_same` go through the functions of the target.
-/

namespace CellCompiler

/-! ### Slices -/

namespace Slice

/-- The same is left to read. -/
def Same (x y : Slice) : Prop := x.toCell = y.toCell

variable {x y : Slice}

theorem same_iff : x.Same y ↔ x.bits = y.bits ∧ x.refs = y.refs := by
  simp [Same, toCell]

/-- Reads that go alike: they find the same, or stop for the same reason. -/
inductive ReadRel {α : Type} : EStateM.Result Cell.Error Slice α → EStateM.Result Cell.Error Slice α → Prop where
  | ok (a : α) {x y : Slice} : x.Same y → ReadRel (.ok a x) (.ok a y)
  | error (e : Cell.Error) {x y : Slice} : ReadRel (.error e x) (.error e y)

/-- The read finds the same in slices with the same left to read. -/
def Respects {α : Type} (load : Load α) : Prop := ∀ x y : Slice, x.Same y → ReadRel (load x) (load y)

section

variable {α β : Type} {load : Load α} {f : α → Load β} {n : Nat}

theorem respects_pure (a : α) : Respects (pure a : Load α) := fun _ _ h => .ok a h

theorem Respects.bind (h : Respects load) (hf : ∀ a, Respects (f a)) : Respects (load >>= f) := by
  intro x y hxy
  have hload := h x y hxy
  change ReadRel (EStateM.bind load f x) (EStateM.bind load f y)
  unfold EStateM.bind
  generalize load x = r, load y = r' at hload ⊢
  cases hload with
  | ok a hxy' => exact hf a _ _ hxy'
  | error e => exact .error e

theorem Respects.map {g : α → β} (h : Respects load) : Respects (do return g (← load)) :=
  h.bind fun a => respects_pure (g a)

theorem respects_loadBits : Respects (loadBits n) := by
  intro x y hxy
  obtain ⟨hbits, hrefs⟩ := same_iff.1 hxy
  have hlength : x.remainingBits = y.remainingBits := by rw [remainingBits_eq, remainingBits_eq, hbits]
  unfold loadBits
  rw [hlength]
  split
  · rw [hbits]
    refine .ok _ (same_iff.2 ⟨?_, hrefs⟩)
    have hdrop := congrArg (List.drop n) hbits
    simpa [Slice.bits, Nat.add_comm] using hdrop
  · exact .error _

theorem respects_loadRef : Respects loadRef := by
  intro x y hxy
  obtain ⟨hbits, hrefs⟩ := same_iff.1 hxy
  unfold loadRef
  rw [hrefs]
  split
  · refine .ok _ (same_iff.2 ⟨hbits, ?_⟩)
    have hdrop := congrArg (List.drop 1) hrefs
    simpa [Slice.refs, Nat.add_comm] using hdrop
  · exact .error _

theorem respects_loadBit : Respects loadBit := respects_loadBits.map

theorem respects_loadUint : Respects (loadUint n) := respects_loadBits.map

theorem respects_loadInt : Respects (loadInt n) := respects_loadBits.map

theorem respects_loadCoins : Respects loadCoins := respects_loadUint.bind fun _ => respects_loadUint

theorem respects_loadSlice : Respects (loadSlice n) := respects_loadBits.map

theorem respects_skipBits : Respects (skipBits n) := respects_loadBits.bind fun _ => respects_pure ()

theorem Same.preloadUint (h : x.Same y) : x.preloadUint n = y.preloadUint n := by
  unfold Slice.preloadUint
  generalize loadUint n x = r, loadUint n y = r', respects_loadUint x y h = hr
  cases hr <;> rfl

theorem Same.endParse (h : x.Same y) : x.endParse = y.endParse := by
  obtain ⟨hbits, hrefs⟩ := same_iff.1 h
  simp [Slice.endParse, isEmpty, remainingBits_eq, remainingRefs_eq, hbits, hrefs]

end

end Slice

namespace Machine

open Val

variable {host : Host} {name : String} {v w : Val} {vs ws : List Val}

/-! ### Forms of values -/

/-- Runs stop for the same reason: with the same exit code, or because of a bug. -/
def Fault.Same : Fault → Fault → Prop
  | .exit m, .exit n => m = n
  | .bug _, .bug _ => True
  | _, _ => False

theorem Fault.Same.refl (e : Fault) : e.Same e := by cases e <;> simp [Fault.Same]

/-- The same is left to read in the slices. -/
abbrev SameSlices : Except Fault Slice → Except Fault Slice → Prop := ResultRel Fault.Same Slice.Same

/-- Both stop for the same reason, or both have the same value. -/
abbrev SameResults {α : Type} : Except Fault α → Except Fault α → Prop := ResultRel Fault.Same Eq

namespace ResultRel

variable {α : Type} {R : α → α → Prop} {x : Except Fault α}

theorem of_same (hR : ∀ a, R a a) (x : Except Fault α) : ResultRel Fault.Same R x x :=
  .of_eq Fault.Same.refl hR x

/-- Steps that go on with the same value. -/
theorem next {β : Type} {y : Except Fault α} {f g : α → Except Fault β} {R : β → β → Prop}
    (h : SameResults x y) (hfg : ∀ a, ResultRel Fault.Same R (f a) (g a)) :
    ResultRel Fault.Same R (x >>= f) (y >>= g) := by
  refine h.bind fun a a' haa' => ?_
  subst haa'
  exact hfg a

theorem bug {b b' : Bug} : ResultRel Fault.Same R (.error (.bug b)) (.error (.bug b')) := .error trivial

end ResultRel

theorem Val.normAll_eq_iff : normAll vs = normAll ws ↔ List.Forall₂ Val.Same vs ws := by
  induction vs generalizing ws with
  | nil => cases ws <;> simp [normAll]
  | cons v vs ih => cases ws <;> simp [normAll, ih, Val.Same]

/-- The forms of two values that hold the same. -/
theorem Val.Same.cases (h : v.Same w) : (∃ x y, v = .slice x ∧ w = .slice y ∧ x.Same y) ∨
    (∃ xs ys, v = .tuple xs ∧ w = .tuple ys ∧ List.Forall₂ Val.Same xs ys) ∨
    (∃ xs ys, v = .tensor xs ∧ w = .tensor ys ∧ List.Forall₂ Val.Same xs ys) ∨
    v = w ∧ (∀ x, v ≠ .slice x) ∧ (∀ xs, v ≠ .tuple xs) ∧ ∀ xs, v ≠ .tensor xs := by
  unfold Val.Same at h
  cases v with
  | slice x =>
    cases w with
    | slice y => exact .inl ⟨x, y, rfl, rfl, by simpa [Slice.Same, norm, Cell.parse] using h⟩
    | _ => simp [norm] at h
  | tuple xs =>
    cases w with
    | tuple ys =>
      exact .inr (.inl ⟨xs, ys, rfl, rfl, normAll_eq_iff.1 (by simpa [norm] using h)⟩)
    | _ => simp [norm] at h
  | tensor xs =>
    cases w with
    | tensor ys =>
      exact .inr (.inr (.inl ⟨xs, ys, rfl, rfl, normAll_eq_iff.1 (by simpa [norm] using h)⟩))
    | _ => simp [norm] at h
  | _ =>
    refine .inr (.inr (.inr ⟨?_, by simp, by simp, by simp⟩))
    cases w <;> simp_all [norm]

theorem Val.Same.exists_singleton (h : v.Same (.tensor [w])) : ∃ v', v = .tensor [v'] ∧ v'.Same w := by
  rcases h.cases with ⟨x, y, -, heq, -⟩ | ⟨xs, ys, -, heq, -⟩ | ⟨xs, ys, rfl, heq, hsame⟩ | ⟨rfl, -, -, hother⟩
  · simp at heq
  · simp at heq
  · obtain rfl := Val.tensor.inj heq
    obtain ⟨v', _, hv', hnil, rfl⟩ := List.forall₂_cons_right_iff.1 hsame
    obtain rfl := List.forall₂_nil_right_iff.1 hnil
    exact ⟨v', rfl, hv'⟩
  · exact absurd rfl (hother [w])

theorem Val.Same.exists_slice {y : Slice} (h : v.Same (.slice y)) : ∃ x, v = .slice x := by
  rcases h.cases with ⟨x, _, rfl, -, -⟩ | ⟨xs, ys, -, heq, -⟩ | ⟨xs, ys, -, heq, -⟩ | ⟨rfl, hother, -⟩
  · exact ⟨x, rfl⟩
  · simp at heq
  · simp at heq
  · exact absurd rfl (hother y)

theorem Val.Same.asInt (h : v.Same w) : SameResults v.asInt w.asInt := by
  rcases h.cases with ⟨x, y, rfl, rfl, -⟩ | ⟨xs, ys, rfl, rfl, -⟩ | ⟨xs, ys, rfl, rfl, -⟩ | ⟨rfl, -⟩
  · exact .bug
  · exact .bug
  · exact .bug
  · exact .of_same (fun _ => rfl) _

theorem Val.Same.asCell (h : v.Same w) : SameResults v.asCell w.asCell := by
  rcases h.cases with ⟨x, y, rfl, rfl, -⟩ | ⟨xs, ys, rfl, rfl, -⟩ | ⟨xs, ys, rfl, rfl, -⟩ | ⟨rfl, -⟩
  · exact .bug
  · exact .bug
  · exact .bug
  · exact .of_same (fun _ => rfl) _

theorem Val.Same.asBuilder (h : v.Same w) : SameResults v.asBuilder w.asBuilder := by
  rcases h.cases with ⟨x, y, rfl, rfl, -⟩ | ⟨xs, ys, rfl, rfl, -⟩ | ⟨xs, ys, rfl, rfl, -⟩ | ⟨rfl, -⟩
  · exact .bug
  · exact .bug
  · exact .bug
  · exact .of_same (fun _ => rfl) _

theorem Val.Same.asSlice (h : v.Same w) : SameSlices v.asSlice w.asSlice := by
  rcases h.cases with ⟨x, y, rfl, rfl, hxy⟩ | ⟨xs, ys, rfl, rfl, -⟩ | ⟨xs, ys, rfl, rfl, -⟩ | ⟨rfl, -⟩
  · exact .ok hxy
  · exact .bug
  · exact .bug
  · exact .of_same (fun x => (rfl : x.Same x)) _

theorem Val.Same.isNull (h : v.Same w) : v.isNull = w.isNull := by
  rcases h.cases with ⟨x, y, rfl, rfl, -⟩ | ⟨xs, ys, rfl, rfl, -⟩ | ⟨xs, ys, rfl, rfl, -⟩ | ⟨rfl, -⟩ <;> rfl

theorem Val.Same.slice {x y : Slice} (h : x.Same y) : (Val.slice x).Same (.slice y) :=
  congrArg (fun c : Cell => Val.slice c.parse) h

theorem Val.same_tuple (h : List.Forall₂ Val.Same vs ws) : (Val.tuple vs).Same (.tuple ws) :=
  congrArg Val.tuple (normAll_eq_iff.2 h)

theorem Val.Same.flatten (h : v.Same w) : List.Forall₂ Val.Same v.flatten w.flatten := by
  rw [← normAll_eq_iff, normAll_eq_map, normAll_eq_map, ← flatten_norm, ← flatten_norm,
    show v.norm = w.norm from h]

theorem Val.eq_null (h : v.isNull = true) : v = .null := by
  cases v <;> first | rfl | simp [Val.isNull] at h

theorem Val.Same.truthy (h : v.Same w) : SameResults v.truthy w.truthy :=
  h.asInt.next fun _ => .of_same (fun _ => rfl) _

theorem Val.Same.width (h : v.Same w) : SameResults v.width w.width := by
  refine h.asInt.next fun n => ?_
  split
  · exact .ok rfl
  · exact .bug

theorem Val.Same.exitCode (h : v.Same w) : SameResults v.exitCode w.exitCode := by
  refine h.asInt.next fun n => ?_
  split
  · exact .ok rfl
  · exact .bug

theorem Val.Same.asDict (h : v.Same w) : SameResults (Primitive.asDict v) (Primitive.asDict w) := by
  have hother : ∀ v : Val, v.isNull = false → Primitive.asDict v = some <$> v.asCell := by
    intro v hv
    cases v <;> first | rfl | simp [Val.isNull] at hv
  cases hnull : v.isNull with
  | true =>
    rw [Val.eq_null hnull, Val.eq_null (h.isNull.symm.trans hnull)]
    exact .ok rfl
  | false =>
    rw [hother v hnull, hother w (h.isNull.symm.trans hnull)]
    exact h.asCell.map fun a b hab => congrArg some hab

/-! ### Functions of the target -/

namespace Primitive

variable {α : Type} {x y : Slice} {load : Slice.Load α} {b : Builder}

theorem loaded_same {value : α → Val} (hload : Slice.Respects load) (h : x.Same y) :
    ResultRel Fault.Same (fun p q => p.1.Same q.1 ∧ p.2.Same q.2) (loaded x load value)
      (loaded y load value) := by
  unfold loaded
  generalize load x = r, load y = r', hload x y h = hr
  cases hr with
  | ok a hxy => exact .ok ⟨hxy, .refl _⟩
  | error e => exact .error (.refl _)

theorem storeDict_same (h : v.Same w) :
    ResultRel Fault.Same Val.Same (storeDict b v) (storeDict b w) := by
  have hother : ∀ v : Val, v.isNull = false → storeDict b v = (do
      let c ← v.asCell
      stored b (do Builder.storeBit true; Builder.storeRef c)) := by
    intro v hv
    cases v <;> first | rfl | simp [Val.isNull] at hv
  cases hnull : v.isNull with
  | true =>
    rw [Val.eq_null hnull, Val.eq_null (h.isNull.symm.trans hnull)]
    exact .of_same Val.Same.refl _
  | false =>
    rw [hother v hnull, hother w (h.isNull.symm.trans hnull)]
    exact h.asCell.next fun _ => .of_same Val.Same.refl _

theorem call_same (h : List.Forall₂ Val.Same vs ws) :
    ResultRel Fault.Same Val.Same (call host name vs) (call host name ws) := by
  fun_cases call host name vs
  case case33 =>
    have hcall : call host name ws = .error (.bug (.unsupported name ws.length)) := by
      fun_cases call host name ws
      case case33 => rfl
      all_goals
        obtain _ | ⟨-, _ | ⟨-, _ | ⟨-, _ | -⟩⟩⟩ := h
        simp at *
    rw [hcall]
    exact .bug
  case case31 lookup hlookup =>
    obtain _ | ⟨h₁, _ | ⟨h₂, _ | ⟨h₃, _ | _⟩⟩⟩ := h
    unfold call
    rw [hlookup]
    exact h₁.asDict.next fun _ => h₂.width.next fun _ => h₃.asInt.next fun _ => .of_same Val.Same.refl _
  case case32 hlookup =>
    obtain _ | ⟨h₁, _ | ⟨h₂, _ | ⟨h₃, _ | _⟩⟩⟩ := h
    unfold call
    rw [hlookup]
    exact .of_same Val.Same.refl _
  all_goals obtain _ | ⟨h₁, _ | ⟨h₂, _ | ⟨h₃, _ | _⟩⟩⟩ := h
  case case1 | case2 | case3 | case10 => exact .of_same Val.Same.refl _
  case case8 c hcell | case9 e hcell =>
    unfold call
    rw [hcell]
    exact .of_same Val.Same.refl _
  case case4 => exact .ok (congrArg (fun b => (Val.bool b).norm) h₁.isNull)
  case case5 => exact h₁.exitCode.next fun _ => .of_same Val.Same.refl _
  case case6 | case7 =>
    refine h₂.truthy.next fun t => ?_
    cases t
    all_goals first
      | exact .of_same Val.Same.refl _
      | exact h₁.exitCode.next fun _ => .of_same Val.Same.refl _
  case case11 | case12 => exact h₁.asInt.next fun _ => h₂.asInt.next fun _ => .of_same Val.Same.refl _
  case case13 => exact h₁.asInt.next fun _ => .of_same Val.Same.refl _
  case case14 | case15 =>
    exact h₁.asBuilder.next fun _ => h₂.asInt.next fun _ => h₃.width.next fun _ => .of_same Val.Same.refl _
  case case16 => exact h₁.asBuilder.next fun _ => h₂.asInt.next fun _ => .of_same Val.Same.refl _
  case case17 => exact h₁.asBuilder.next fun _ => h₂.asCell.next fun _ => .of_same Val.Same.refl _
  case case18 =>
    refine h₁.asBuilder.next fun b => h₂.asSlice.bind fun x y hxy => ?_
    obtain ⟨hbits, hrefs⟩ := Slice.same_iff.1 hxy
    simp only [Builder.storeSlice, hbits, hrefs]
    exact .of_same Val.Same.refl _
  case case19 => exact h₁.asBuilder.next fun _ => h₂.asBuilder.next fun _ => .of_same Val.Same.refl _
  case case20 => exact h₁.asBuilder.next fun _ => storeDict_same h₂
  case case21 => exact h₁.asBuilder.next fun _ => .of_same Val.Same.refl _
  case case22 | case28 => exact h₁.asCell.next fun _ => .of_same Val.Same.refl _
  case case23 | case24 =>
    refine h₁.asSlice.bind fun x y hxy => ?_
    obtain ⟨hbits, hrefs⟩ := Slice.same_iff.1 hxy
    simp only [Slice.remainingBits_eq, Slice.remainingRefs_eq, hbits, hrefs]
    exact .of_same Val.Same.refl _
  case case25 =>
    refine h₁.asSlice.bind fun x y hxy => h₂.width.next fun n => ?_
    rw [hxy.preloadUint]
    exact .of_same Val.Same.refl _
  case case26 =>
    exact h₁.asSlice.bind fun x y hxy => h₂.width.next fun n =>
      (loaded_same Slice.respects_skipBits hxy).bind fun _ _ h => .ok (Val.Same.slice h.1)
  case case27 =>
    refine h₁.asSlice.bind fun x y hxy => ?_
    rw [hxy.endParse]
    exact .of_same Val.Same.refl _
  case case29 =>
    refine h₁.asSlice.bind fun x y hxy => ?_
    rw [show x.toCell = y.toCell from hxy]
    exact .of_same Val.Same.refl _
  case case30 =>
    refine h₁.asSlice.bind fun x y hxy => h₂.asSlice.bind fun x' y' hxy' => ?_
    rw [(Slice.same_iff.1 hxy).1, (Slice.same_iff.1 hxy').1]
    exact .of_same Val.Same.refl _

/-- Reads and the values that they find. -/
abbrev SameReads : Except Fault (Slice × Val) → Except Fault (Slice × Val) → Prop :=
  ResultRel Fault.Same fun p q => p.1.Same q.1 ∧ p.2.Same q.2

theorem loadMsgAddr_same (h : x.Same y) : SameReads (loadMsgAddr x) (loadMsgAddr y) := by
  unfold loadMsgAddr
  rw [h.preloadUint]
  refine ResultRel.next (.of_same (fun _ => rfl) _) fun tag => ?_
  split
  · exact loaded_same Slice.respects_loadSlice h
  · split
    · exact loaded_same Slice.respects_loadSlice h
    · exact .bug

theorem respects_loadDict : Slice.Respects loadDict :=
  Slice.respects_loadBit.bind fun
    | true => Slice.respects_loadRef.map
    | false => Slice.respects_pure none

theorem read_same (h : x.Same y) (hvs : List.Forall₂ Val.Same vs ws) :
    SameReads (read name x vs) (read name y ws) := by
  fun_cases read name x vs
  case case9 =>
    have hread : read name y ws = .error (.bug (.unsupportedModifying name ws.length)) := by
      fun_cases read name y ws
      case case9 => rfl
      all_goals
        obtain _ | ⟨-, _ | -⟩ := hvs
        simp at *
    rw [hread]
    exact .bug
  all_goals obtain _ | ⟨h₁, _ | _⟩ := hvs
  case case1 => exact h₁.width.next fun _ => loaded_same Slice.respects_loadUint h
  case case2 => exact h₁.width.next fun _ => loaded_same Slice.respects_loadInt h
  case case3 => exact loaded_same Slice.respects_loadCoins h
  case case4 => exact loaded_same Slice.respects_loadRef h
  case case5 => exact h₁.width.next fun _ => loaded_same Slice.respects_loadSlice h
  case case6 => exact h₁.width.next fun _ => loaded_same Slice.respects_skipBits h
  case case7 => exact loaded_same respects_loadDict h
  case case8 => exact loadMsgAddr_same h

theorem modify_same (h : List.Forall₂ Val.Same vs ws) :
    ResultRel Fault.Same (PairRel Val.Same) (modify name vs) (modify name ws) := by
  cases h with
  | nil => exact .bug
  | cons hv hvs =>
    exact hv.asSlice.bind fun x y hxy => (read_same hxy hvs).bind fun _ _ h =>
      .ok ⟨Val.Same.slice h.1, h.2⟩

theorem single_same (h : List.Forall₂ Val.Same vs ws) : (single vs).Same (single ws) := by
  obtain _ | ⟨hv, _ | ⟨hw, h⟩⟩ := h
  · rfl
  · exact hv
  · exact Val.same_tensor (.cons hv (.cons hw h))

theorem asm_same {instructions : List String} (h : List.Forall₂ Val.Same vs ws) :
    ResultRel Fault.Same Val.Same (asm instructions vs) (asm instructions ws) := by
  unfold asm runWords
  dsimp only
  split
  · exact .ok (single_same h)
  · refine ResultRel.next (.of_same (fun _ => rfl) _) fun n => ?_
    have hflat := (Val.same_tensor h).flatten
    rw [hflat.length_eq]
    split
    · exact .ok (Val.same_tuple hflat)
    · exact .bug
  · refine ResultRel.next (.of_same (fun _ => rfl) _) fun n => ?_
    rcases (single_same h).cases with ⟨x, y, hx, hy, -⟩ | ⟨xs, ys, hx, hy, hxs⟩ | ⟨xs, ys, hx, hy, -⟩ |
        ⟨heq, -⟩
    · rw [hx, hy]
      exact .of_same Val.Same.refl _
    · rw [hx, hy]
      dsimp only
      rw [hxs.length_eq]
      split
      · exact .ok (Val.same_tensor hxs)
      · exact .of_same Val.Same.refl _
    · rw [hx, hy]
      exact .of_same Val.Same.refl _
    · rw [heq]
      exact .of_same Val.Same.refl _
  all_goals exact .of_same Val.Same.refl _

end Primitive

theorem pair_same (h : v.Same w) : ResultRel Fault.Same (PairRel Val.Same) (pair v) (pair w) := by
  rcases h.cases with ⟨x, y, rfl, rfl, -⟩ | ⟨xs, ys, rfl, rfl, -⟩ | ⟨xs, ys, rfl, rfl, hxs⟩ | ⟨rfl, -⟩
  · exact .bug
  · exact .bug
  · obtain _ | ⟨hv, _ | ⟨hw, _ | _⟩⟩ := hxs
    · exact .bug
    · exact .bug
    · exact .ok ⟨hv, hw⟩
    · exact .bug
  · exact .of_same (fun p => ⟨.refl p.1, .refl p.2⟩) _

/-- Values that hold the same are like. -/
def Likeness.same : Likeness where
  val := Val.Same
  fault := Fault.Same
  refl := Val.Same.refl
  fault_refl := Fault.Same.refl
  exit := by
    rintro (m | b) (n | b') h
    · exact .inl ⟨m, rfl, congrArg Fault.exit h.symm⟩
    · exact h.elim
    · exact h.elim
    · exact .inr ⟨b, b', rfl, rfl⟩
  tensor := Val.same_tensor
  tuple := Val.same_tuple
  cases := fun {v w} h => by
    rcases h.cases with ⟨x, y, rfl, rfl, -⟩ | ⟨xs, ys, rfl, rfl, -⟩ | ⟨xs, ys, rfl, rfl, hxs⟩ |
        ⟨rfl, -, -, hv⟩
    · exact .inr ⟨nofun, nofun⟩
    · exact .inr ⟨nofun, nofun⟩
    · exact .inl ⟨xs, ys, rfl, rfl, hxs⟩
    · exact .inr ⟨hv, hv⟩
  flatten := Val.Same.flatten
  asInt := Val.Same.asInt
  asCell := Val.Same.asCell
  pair := pair_same
  call := Primitive.call_same
  modifying := Primitive.modify_same
  asm := Primitive.asm_same

end Machine

end CellCompiler
