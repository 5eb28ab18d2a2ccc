import CellCompiler.Proofs.Machine.Rules
import CellCompiler.Proofs.Target.Callees

/-!
# Runs that cannot be told apart

Two runs of the same code from like states do like things, whatever likeness of values the functions
of the target respect: both go on for ever, or both stop, with like results and in like states.

* `Likeness` is a relation between values, and one between faults, with these laws. Equality is one
  (`Likeness.equal`);
* `Likeness.Runs` relates runs, with one rule for every way in which runs are put together.
-/

namespace CellCompiler

namespace Machine

open Target (stmtCallees calleesOf)

/-! ### Likeness of values -/

/-- The results of two steps are like. -/
inductive ResultRel {α β : Type} (F : Fault → Fault → Prop) (R : α → β → Prop) :
    Except Fault α → Except Fault β → Prop where
  | ok {a : α} {b : β} : R a b → ResultRel F R (.ok a) (.ok b)
  | error {e f : Fault} : F e f → ResultRel F R (.error e) (.error f)

/-- Two pairs of like values. -/
def PairRel (V : Val → Val → Prop) (p q : Val × Val) : Prop := V p.1 q.1 ∧ V p.2 q.2

/-- A relation between values that no function of the target can look behind. -/
structure Likeness where
  val : Val → Val → Prop
  fault : Fault → Fault → Prop
  refl : ∀ v, val v v
  fault_refl : ∀ e, fault e e
  /-- Exit codes can be caught and are the same. -/
  exit : ∀ {e f}, fault e f → (∃ n, e = .exit n ∧ f = .exit n) ∨ ∃ b b', e = .bug b ∧ f = .bug b'
  tensor : ∀ {vs ws}, List.Forall₂ val vs ws → val (.tensor vs) (.tensor ws)
  tuple : ∀ {vs ws}, List.Forall₂ val vs ws → val (.tuple vs) (.tuple ws)
  cases : ∀ {v w}, val v w → (∃ vs ws, v = .tensor vs ∧ w = .tensor ws ∧ List.Forall₂ val vs ws) ∨
    (∀ vs, v ≠ .tensor vs) ∧ ∀ ws, w ≠ .tensor ws
  flatten : ∀ {v w}, val v w → List.Forall₂ val v.flatten w.flatten
  asInt : ∀ {v w}, val v w → ResultRel fault (· = ·) v.asInt w.asInt
  asCell : ∀ {v w}, val v w → ResultRel fault (· = ·) v.asCell w.asCell
  pair : ∀ {v w}, val v w → ResultRel fault (PairRel val) (pair v) (pair w)
  call : ∀ {host name vs ws}, List.Forall₂ val vs ws →
    ResultRel fault val (Primitive.call host name vs) (Primitive.call host name ws)
  modifying : ∀ {name vs ws}, List.Forall₂ val vs ws →
    ResultRel fault (PairRel val) (Primitive.modify name vs) (Primitive.modify name ws)
  asm : ∀ {instructions vs ws}, List.Forall₂ val vs ws →
    ResultRel fault val (Primitive.asm instructions vs) (Primitive.asm instructions ws)

namespace ResultRel

variable {α β γ δ : Type} {F : Fault → Fault → Prop} {R : α → β → Prop} {Q : γ → δ → Prop}

theorem of_eq (hF : ∀ e, F e e) {R : α → α → Prop} (hR : ∀ a, R a a) (x : Except Fault α) :
    ResultRel F R x x := by
  cases x with
  | ok a => exact .ok (hR a)
  | error e => exact .error (hF e)

theorem bind {x : Except Fault α} {y : Except Fault β} {f : α → Except Fault γ}
    {g : β → Except Fault δ} (h : ResultRel F R x y) (hf : ∀ a b, R a b → ResultRel F Q (f a) (g b)) :
    ResultRel F Q (x >>= f) (y >>= g) := by
  cases h with
  | ok hab => exact hf _ _ hab
  | error he => exact .error he

theorem map {x : Except Fault α} {y : Except Fault β} {f : α → γ} {g : β → δ}
    (h : ResultRel F R x y) (hf : ∀ a b, R a b → Q (f a) (g b)) :
    ResultRel F Q (x.map f) (y.map g) := by
  cases h with
  | ok hab => exact .ok (hf _ _ hab)
  | error he => exact .error he

theorem eq {x y : Except Fault α} (h : ResultRel Eq Eq x y) : x = y := by
  cases h with
  | ok hab => rw [hab]
  | error he => rw [he]

end ResultRel

namespace Likeness

/-- Equal values are like. -/
def equal : Likeness where
  val := Eq
  fault := Eq
  refl := fun _ => rfl
  fault_refl := fun _ => rfl
  exit := by
    rintro (n | b) _ rfl
    · exact .inl ⟨n, rfl, rfl⟩
    · exact .inr ⟨b, b, rfl, rfl⟩
  tensor := fun h => by rw [List.forall₂_eq_eq_eq] at h; rw [h]
  tuple := fun h => by rw [List.forall₂_eq_eq_eq] at h; rw [h]
  cases := by
    rintro v _ rfl
    by_cases h : ∃ vs, v = .tensor vs
    · obtain ⟨vs, rfl⟩ := h
      exact .inl ⟨vs, vs, rfl, rfl, by rw [List.forall₂_eq_eq_eq]⟩
    · exact .inr ⟨fun vs hv => h ⟨vs, hv⟩, fun vs hv => h ⟨vs, hv⟩⟩
  flatten := fun h => by rw [List.forall₂_eq_eq_eq, h]
  asInt := fun h => h ▸ .of_eq (fun _ => rfl) (fun _ => rfl) _
  asCell := fun h => h ▸ .of_eq (fun _ => rfl) (fun _ => rfl) _
  pair := fun h => h ▸ .of_eq (fun _ => rfl) (fun _ => ⟨rfl, rfl⟩) _
  call := fun h => by
    rw [List.forall₂_eq_eq_eq] at h
    exact h ▸ .of_eq (fun _ => rfl) (fun _ => rfl) _
  modifying := fun h => by
    rw [List.forall₂_eq_eq_eq] at h
    exact h ▸ .of_eq (fun _ => rfl) (fun _ => ⟨rfl, rfl⟩) _
  asm := fun h => by
    rw [List.forall₂_eq_eq_eq] at h
    exact h ▸ .of_eq (fun _ => rfl) (fun _ => rfl) _

variable (L : Likeness) {v w v' w' : Val}

theorem truthy (h : L.val v w) : ResultRel L.fault (· = ·) v.truthy w.truthy :=
  (L.asInt h).bind fun a b hab => .ok (by rw [hab])

theorem binary {op : Target.BinaryOp} (h : L.val v w) (h' : L.val v' w') :
    ResultRel L.fault L.val (Primitive.binary op v v') (Primitive.binary op w w') := by
  refine (L.asInt h).bind fun a b hab => (L.asInt h').bind fun a' b' hab' => ?_
  rw [hab, hab']
  exact .of_eq L.fault_refl L.refl _

theorem unary {op : Target.UnaryOp} (h : L.val v w) :
    ResultRel L.fault L.val (Primitive.unary op v) (Primitive.unary op w) := by
  refine (L.asInt h).bind fun a b hab => ?_
  rw [hab]
  exact .of_eq L.fault_refl L.refl _

/-! ### Likeness of states -/

/-- The same names stand for like values, in the same order. -/
def Entries (ps qs : List (String × Val)) : Prop :=
  List.Forall₂ (fun p q => p.1 = q.1 ∧ L.val p.2 q.2) ps qs

variable {L} {ps qs : List (String × Val)} {d e : Dict Val}

theorem Entries.refl (ps : List (String × Val)) : L.Entries ps ps :=
  List.forall₂_same.2 fun p _ => ⟨rfl, L.refl p.2⟩

theorem Entries.found (h : L.Entries d.entries e.entries) (name : String) :
    Option.Rel L.val (d.get? name) (e.get? name) := by
  unfold Dict.get?
  generalize d.entries = ps, e.entries = qs at h
  induction h with
  | nil => exact .none
  | @cons p q ps qs hpq _ ih =>
    obtain ⟨k, v⟩ := p
    obtain ⟨k', w⟩ := q
    obtain ⟨rfl, hv⟩ := hpq
    by_cases hk : name == k
    · simpa [List.lookup_cons, hk] using Option.Rel.some hv
    · simpa [List.lookup_cons, hk] using ih

theorem Entries.contains (h : L.Entries d.entries e.entries) (name : String) :
    d.contains name = e.contains name := by
  have hfound := h.found name
  unfold Dict.contains
  generalize d.get? name = v?, e.get? name = w? at hfound
  cases hfound with
  | some _ => rfl
  | none => rfl

theorem Entries.put (h : L.Entries ps qs) (name : String) (hv : L.val v w) :
    L.Entries (Dict.put name v ps) (Dict.put name w qs) := by
  induction h with
  | nil => exact .cons ⟨rfl, hv⟩ .nil
  | @cons p q ps qs hpq hrest ih =>
    obtain ⟨k, x⟩ := p
    obtain ⟨k', y⟩ := q
    obtain ⟨rfl, hxy⟩ := hpq
    simp only [Dict.put]
    split
    · exact .cons ⟨rfl, hv⟩ hrest
    · exact .cons ⟨rfl, hxy⟩ ih

theorem Entries.insert (h : L.Entries d.entries e.entries) (name : String) (hv : L.val v w) :
    L.Entries (d.insert name v).entries (e.insert name w).entries := Entries.put h name hv

theorem Entries.ofList (h : L.Entries ps qs) : L.Entries (Dict.ofList ps).entries (Dict.ofList qs).entries := by
  have hfold : ∀ {d e : Dict Val} {ps qs : List (String × Val)}, L.Entries d.entries e.entries →
      L.Entries ps qs → L.Entries (ps.foldl (fun d p => d.insert p.1 p.2) d).entries
        (qs.foldl (fun d p => d.insert p.1 p.2) e).entries := by
    intro d e ps qs hd h
    induction h generalizing d e with
    | nil => exact hd
    | @cons p q ps qs hpq _ ih =>
      rw [List.foldl_cons, List.foldl_cons, ← hpq.1]
      exact ih (hd.insert p.1 hpq.2)
  exact hfold .nil h

theorem Entries.zip {names : List String} {vs ws : List Val} (h : List.Forall₂ L.val vs ws) :
    L.Entries (names.zip vs) (names.zip ws) := by
  induction h generalizing names with
  | nil => simpa using Entries.refl []
  | cons hv _ ih =>
    cases names with
    | nil => exact .nil
    | cons name names => exact .cons ⟨rfl, hv⟩ ih

/-- Like states have the same data, which has a property. -/
structure States (L : Likeness) (K : Cell → Prop) (s t : State) : Prop where
  frame : L.Entries s.frame.entries t.frame.entries
  globals : L.Entries s.globals.entries t.globals.entries
  data : s.data = t.data
  holds : K s.data

variable {K : Cell → Prop} {s t : State}

theorem States.refl (h : K s.data) : L.States K s s := ⟨.refl _, .refl _, rfl, h⟩

/-- A name stands for like values, as a variable of the function or of the module. -/
theorem States.found (h : L.States K s t) (name : String) :
    Option.Rel L.val ((s.frame.get? name).or (s.globals.get? name))
      ((t.frame.get? name).or (t.globals.get? name)) := by
  have hframe := h.frame.found name
  generalize s.frame.get? name = v?, t.frame.get? name = w? at hframe
  cases hframe with
  | some hvw => exact .some hvw
  | none => exact h.globals.found name

theorem States.assign (h : L.States K s t) (declare : Bool) (name : String) (hv : L.val v w) :
    L.States K (s.assign declare name v) (t.assign declare name w) := by
  unfold State.assign
  rw [h.frame.contains, h.globals.contains]
  split
  · exact ⟨h.frame, h.globals.insert name hv, h.data, h.holds⟩
  · exact ⟨h.frame.insert name hv, h.globals, h.data, h.holds⟩

theorem States.eq {s t : State} (h : equal.States K s t) : s = t := by
  have hentries : ∀ {ps qs : List (String × Val)}, equal.Entries ps qs → ps = qs := by
    intro ps qs h
    induction h with
    | nil => rfl
    | cons hpq _ ih => rw [Prod.ext hpq.1 hpq.2, ih]
  obtain ⟨⟨frame⟩, ⟨globals⟩, data⟩ := s
  obtain ⟨⟨frame'⟩, ⟨globals'⟩, data'⟩ := t
  obtain rfl : frame = frame' := hentries h.frame
  obtain rfl : globals = globals' := hentries h.globals
  obtain rfl : data = data' := h.data
  rfl

/-! ### Likeness of runs -/

/-- From every like state the run ends in a like way. -/
def Follows {α β : Type} (L : Likeness) (K : Cell → Prop) (R : α → β → Prop) (y : Run β) (s : State)
    (p : Except Fault α × State) : Prop :=
  ∀ t, L.States K s t → ∃ q, y t = some q ∧ ResultRel L.fault R p.1 q.1 ∧ L.States K p.2 q.2

/-- Wherever the first run ends, the second one ends in a like way. -/
def Runs {α β : Type} (L : Likeness) (K : Cell → Prop) (R : α → β → Prop) (x : Run α) (y : Run β) :
    Prop :=
  ∀ s p, x s = some p → L.Follows K R y s p

namespace Runs

variable {α β γ δ : Type} {R : α → β → Prop} {Q : γ → δ → Prop} {x : Run α} {y : Run β}

theorem of_result {r : Except Fault α} {r' : Except Fault β} (h : ResultRel L.fault R r r') :
    L.Runs K R (fun s => some (r, s)) (fun s => some (r', s)) := by
  rintro s p hrun t hst
  obtain rfl := Option.some.inj hrun
  exact ⟨(r', t), rfl, h, hst⟩

theorem pure {a : α} {b : β} (h : R a b) : L.Runs K R (Pure.pure a) (Pure.pure b) :=
  of_result (.ok h)

theorem throw {e f : Fault} (h : L.fault e f) :
    L.Runs K R (MonadExcept.throw e : Run α) (MonadExcept.throw f : Run β) := of_result (.error h)

theorem ofExcept {x : Except Fault α} {y : Except Fault β} (h : ResultRel L.fault R x y) :
    L.Runs K R (Machine.ofExcept x) (Machine.ofExcept y) := by
  cases h with
  | ok hab => exact pure hab
  | error he => exact throw he

theorem bind {f : α → Run γ} {g : β → Run δ} (h : L.Runs K R x y)
    (hf : ∀ a b, R a b → L.Runs K Q (f a) (g b)) : L.Runs K Q (x >>= f) (y >>= g) := by
  intro s p hrun t hst
  have hsplit : ∀ {α β : Type} (x : Run α) (f : α → Run β) (s : State),
      (x >>= f) s = (x s).bind fun p => ExceptT.bindCont f p.1 p.2 := fun _ _ _ => rfl
  rw [hsplit, Option.bind_eq_some_iff] at hrun
  obtain ⟨⟨r, s'⟩, hx, hrest⟩ := hrun
  obtain ⟨⟨r', t'⟩, hy, hr, hst'⟩ := h s _ hx t hst
  rw [hsplit, hy]
  cases hr with
  | ok hab => exact hf _ _ hab s' p hrest t' hst'
  | error he =>
    obtain rfl := Option.some.inj hrest
    exact ⟨(_, t'), rfl, .error he, hst'⟩

theorem onState {f g : State → State} (h : ∀ s t, L.States K s t → L.States K (f s) (g t)) :
    L.Runs K (fun _ _ => True) (modify f : Run PUnit) (modify g : Run PUnit) := by
  intro s p hrun t hst
  obtain rfl := Option.some.inj hrun
  exact ⟨(.ok .unit, g t), rfl, .ok trivial, h s t hst⟩

/-- Runs that begin with a look at the state. -/
theorem withState {f : State → Run α} {g : State → Run β}
    (h : ∀ s t, L.States K s t → ∀ p, f s s = some p →
      ∃ q, g t t = some q ∧ ResultRel L.fault R p.1 q.1 ∧ L.States K p.2 q.2) :
    L.Runs K R (getThe State >>= f) (getThe State >>= g) := fun s p hrun t hst => h s t hst p hrun

/-- Runs with variables of their own. -/
theorem inFrame {frame frame' : Dict Val} {f : Except Fault α → Except Fault γ}
    {g : Except Fault β → Except Fault δ} (hframe : L.Entries frame.entries frame'.entries)
    (h : L.Runs K R x y) (hf : ∀ a b, ResultRel L.fault R a b → ResultRel L.fault Q (f a) (g b)) :
    L.Runs K Q
      (fun s => (x { s with frame }).bind fun p => some (f p.1, { p.2 with frame := s.frame }))
      (fun t => (y { t with frame := frame' }).bind fun p =>
        some (g p.1, { p.2 with frame := t.frame })) := by
  intro s p hrun t hst
  obtain ⟨⟨r, u⟩, hx, hrest⟩ := Option.bind_eq_some_iff.1 hrun
  obtain rfl := Option.some.inj hrest
  obtain ⟨⟨r', u'⟩, hy, hr, hu⟩ := h { s with frame } _ hx { t with frame := frame' }
    ⟨hframe, hst.globals, hst.data, hst.holds⟩
  refine ⟨(g r', { u' with frame := t.frame }), ?_, hf r r' hr,
    ⟨hst.frame, hu.globals, hu.data, hu.holds⟩⟩
  change (y { t with frame := frame' }).bind _ = _
  rw [hy]
  rfl

end Runs

end Likeness

end Machine

end CellCompiler
