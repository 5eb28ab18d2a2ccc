import CellCompiler.Proofs.Codec.Dictionary
import CellCompiler.Proofs.Generate.Writes

/-!
# Walks over maps

* `Cursor.Apart` says that the variables of a walk do not get in each other's way: the key is not the
  map, and the parts of the value are neither;
* `Visits c body P entries s s'` says that `body` runs once for every entry, in this order, each time
  from a state that `P` admits for the entry;
* `Cursor.loop_visits` is the result: a walk in a module whose dictionary operations answer for a list
  of entries visits these entries and ends. It is by induction on the entries that are left.
-/

namespace CellCompiler

open Generate Machine
open Target (stmtWrites)

/-! ### Runs over entries -/

namespace Machine

/-- The statements run once for every entry, from left to right, each time from a state that is admitted
for the entry after the state that the run before has ended in. -/
inductive Visits (c : Code) (body : List Target.Stmt) (P : Entry → State → State → Prop) :
    List Entry → State → State → Prop where
  | nil (s : State) : Visits c body P [] s s
  | snoc {done : List Entry} {e : Entry} {s t u s' : State} : Visits c body P done s t → P e t u →
      Yields (block c body) u none s' → Visits c body P (done ++ [e]) s s'

section

variable {c : Code} {body : List Target.Stmt} {P : Entry → State → State → Prop} {done : List Entry}
  {e : Entry} {s s' : State}

@[simp] theorem visits_nil : Visits c body P [] s s' ↔ s' = s := by
  constructor
  · intro h
    generalize hes : ([] : List Entry) = es at h
    cases h with
    | nil => rfl
    | snoc => simp at hes
  · rintro rfl
    exact .nil _

theorem visits_concat : Visits c body P (done ++ [e]) s s' ↔
    ∃ t u, Visits c body P done s t ∧ P e t u ∧ Yields (block c body) u none s' := by
  constructor
  · intro h
    generalize hes : done ++ [e] = es at h
    cases h with
    | nil => simp at hes
    | snoc hdone hbegins hrun =>
      obtain ⟨rfl, heq⟩ := List.append_inj' hes rfl
      obtain rfl := (List.cons.inj heq).1
      exact ⟨_, _, hdone, hbegins, hrun⟩
  · rintro ⟨t, u, hdone, hbegins, hrun⟩
    exact .snoc hdone hbegins hrun

end

end Machine

namespace Generate

variable {c : Code} {s t u : State} {map : Val} {e : Entry} {e? : Option Entry} {value m : String}
  {own : String → Prop}

namespace Cursor

/-- The variables that hold the current entry. -/
def slots (cur : Cursor) : List String := [cur.key, cur.raw, cur.flag]

theorem pattern_eq (cur : Cursor) : cur.pattern = .tensor (cur.slots.map Target.id) := rfl

/-- The map is a variable, and it and the variables of the walk do not get in each other's way. -/
structure Apart (cur : Cursor) (value m : String) : Prop where
  source_eq : cur.source = Target.id m
  nodup : cur.slots.Nodup
  map : m ∉ cur.slots
  /-- The parts of the value are none of them. -/
  value : ∀ x ∈ [cur.key, cur.flag, m], ¬ Name.Under (Name.var value) x

/-- The walk has got to an entry, or to the end. -/
structure At (cur : Cursor) (m : String) (map : Val) (e? : Option Entry) (t : State) : Prop where
  map : t.get? m = some map
  slots : ∀ x ∈ cur.slots, (t.get? x).isSome
  flag : t.get? cur.flag = some (.bool e?.isSome)
  entry : ∀ e ∈ e?, t.get? cur.key = some e.key ∧ t.get? cur.raw = some e.raw

/-- What an answer leads to. -/
theorem Apart.at_setAll {cur : Cursor} {key raw : Val} (h : cur.Apart value m) (hmap : t.get? m = some map)
    (hentry : ∀ e ∈ e?, key = e.key ∧ raw = e.raw) :
    cur.At m map e? (t.setAll (cur.slots.zip [key, raw, .bool e?.isSome])) := by
  have hset : List.Forall₂ (fun x v => (t.setAll (cur.slots.zip [key, raw, .bool e?.isSome])).get? x = some v)
      cur.slots [key, raw, .bool e?.isSome] := State.forall₂_setAll h.nodup rfl
  have hkept : (t.setAll (cur.slots.zip [key, raw, .bool e?.isSome])).get? m = t.get? m :=
    State.get?_setAll_of_not_mem h.map
  generalize t.setAll (cur.slots.zip [key, raw, .bool e?.isSome]) = t' at hset hkept
  obtain ⟨hkey, hraw, hflag⟩ : t'.get? cur.key = some key ∧ t'.get? cur.raw = some raw ∧
      t'.get? cur.flag = some (.bool e?.isSome) := by simpa [slots] using hset
  refine ⟨hkept.trans hmap, ?_, hflag, fun e he => ?_⟩
  · simp [slots, hkey, hraw, hflag]
  · obtain ⟨rfl, rfl⟩ := hentry e he
    exact ⟨hkey, hraw⟩

/-- The tensor that is an answer. -/
theorem exists_of_answers {name : String} {args : List Val} (h : Answers c name args e?) :
    ∃ key raw, (∀ e ∈ e?, key = e.key ∧ raw = e.raw) ∧
      ∀ s, Machine.Yields (call c name args) s (.tensor [key, raw, .bool e?.isSome]) s := by
  cases e? with
  | some e => exact ⟨e.key, e.raw, by simp, h⟩
  | none =>
    obtain ⟨key, raw, h⟩ := h
    exact ⟨key, raw, by simp, h⟩

variable {cur : Cursor}

theorem start_runs (h : cur.Apart value m) (hmap : t.get? m = some map)
    (hanswers : Answers c cur.min (cur.kind.withWidth [map, .int cur.kind.keyBits]) e?) :
    ∃ t', Machine.Yields (block c [cur.start]) t none t' ∧ cur.At m map e? t' ∧ t.Frames (· ∈ cur.slots) t' := by
  obtain ⟨key, raw, hentry, hcall⟩ := exists_of_answers hanswers
  refine ⟨_, ?_, h.at_setAll hmap hentry, State.frames_setAll⟩
  have hargs : List.Forall₂ (Means c t) [cur.source, Target.int cur.kind.keyBits]
      [map, .int cur.kind.keyBits] := h.source_eq ▸ .cons (means_id hmap) (.cons means_int .nil)
  have hmeans := (yields_call_means (MapKind.means_withValueBits hargs)).2 (hcall t)
  have hbind : Machine.Yields (bind true (.tensor [key, raw, .bool e?.isSome]) cur.pattern) t ()
      (t.setAll (cur.slots.zip [key, raw, .bool e?.isSome])) := by
    rw [pattern_eq]
    exact (yields_bind_idents rfl).2 rfl
  rw [start, yields_block_var]
  exact ⟨_, t, hmeans, _, hbind, yields_block_nil.2 ⟨rfl, rfl⟩⟩

theorem advance_runs {key : Val} (h : cur.Apart value m) (hmap : t.get? m = some map)
    (hkey : t.get? cur.key = some key) (hslots : ∀ x ∈ cur.slots, (t.get? x).isSome)
    (hanswers : Answers c cur.next (cur.kind.withWidth [map, .int cur.kind.keyBits, key]) e?) :
    ∃ t', Machine.Yields (block c [cur.advance]) t none t' ∧ cur.At m map e? t' ∧ t.Frames (· ∈ cur.slots) t' := by
  obtain ⟨next, raw, hentry, hcall⟩ := exists_of_answers hanswers
  refine ⟨_, ?_, h.at_setAll hmap hentry, State.frames_setAll⟩
  have hargs : List.Forall₂ (Means c t) [cur.source, Target.int cur.kind.keyBits, Target.id cur.key]
      [map, .int cur.kind.keyBits, key] :=
    h.source_eq ▸ .cons (means_id hmap) (.cons means_int (.cons (means_id hkey) .nil))
  have hmeans := (yields_call_means (MapKind.means_withValueBits hargs)).2 (hcall t)
  have hbind : Machine.Yields (bind false (.tensor [next, raw, .bool e?.isSome]) cur.pattern) t ()
      (t.setAll (cur.slots.zip [next, raw, .bool e?.isSome])) := by
    rw [pattern_eq]
    exact (yields_assign_idents hslots rfl).2 rfl
  rw [advance, Target.assign, yields_block_expr]
  simp only [yields_assign]
  exact ⟨_, _, ⟨t, hmeans, hbind⟩, yields_block_nil.2 ⟨rfl, rfl⟩⟩

/-! ### Rounds -/

/-- The walk turns what the dictionary holds into the values of the entries, in the parts of the value's
variable and in nothing else. -/
structure Decodes (cur : Cursor) (c : Code) (value : String) (Holds : State → Entry → Prop)
    (entries : List Entry) : Prop where
  runs : ∀ e ∈ entries, ∀ t, t.get? cur.raw = some e.raw → ∃ u, Machine.Yields (block c cur.decode) t none u ∧
    Holds u e ∧ t.Frames (Name.Under (Name.var value)) u
  writes : ∀ x ∈ stmtWrites cur.decode, Name.Under (Name.var value) x

/-- The state in which the body of a loop starts: key and value are those of the entry, and besides only
the loop's own variables differ. -/
structure Enters (key : String) (Holds : State → Entry → Prop) (own : String → Prop) (e : Entry)
    (t u : State) : Prop where
  key : u.get? key = some e.key
  value : Holds u e
  frames : t.Frames own u

/-- The body ends, without a return, whenever the entries before have been visited. -/
def Ends (c : Code) (body : List Target.Stmt) (P : Entry → State → State → Prop) (entries : List Entry)
    (s : State) : Prop :=
  ∀ done e rest t u, entries = done ++ e :: rest → Visits c body P done s t → P e t u →
    ∃ u', Machine.Yields (block c body) u none u'

variable {body : List Target.Stmt} {Holds : State → Entry → Prop} {entries done rest : List Entry}
  {s₀ : State}

/-- A round of the walk: the value is decoded, the body runs, and the walk goes on to the next entry. -/
theorem round_runs (h : cur.Apart value m) (hdict : Dictionary c cur.kind map (done ++ e :: rest))
    (hnext : cur.next = cur.kind.operation "next")
    (hdecodes : cur.Decodes c value Holds (done ++ e :: rest))
    (hbody : ∀ x ∈ stmtWrites body, x ≠ cur.key ∧ x ≠ m) (hslots : ∀ x ∈ cur.slots, own x)
    (hvalue : ∀ x, Name.Under (Name.var value) x → own x) (hat : cur.At m map (some e) s)
    (hframes : t.Frames own s)
    (hends : ∀ u, Enters cur.key Holds own e t u → ∃ u', Machine.Yields (block c body) u none u') :
    ∃ u u' s', Enters cur.key Holds own e t u ∧ Machine.Yields (block c body) u none u' ∧
      Machine.Yields (block c (cur.decode ++ body ++ [cur.advance])) s none s' ∧ cur.At m map rest.head? s' ∧
      u'.Frames own s' := by
  obtain ⟨hkey, hraw⟩ := hat.entry e rfl
  obtain ⟨u, hdecode, hholds, hchanged⟩ := hdecodes.runs e (by simp) s hraw
  have hapart : ∀ x ∈ [cur.key, cur.flag, m], u.get? x = s.get? x := fun x hx =>
    hchanged.kept x (h.value x hx)
  have henters : Enters cur.key Holds own e t u :=
    ⟨(hapart _ (by simp)).trans hkey, hholds, hframes.trans (hchanged.mono hvalue)⟩
  obtain ⟨u', hrun⟩ := hends u henters
  have hleaves := block_leaves hrun
  have hkept : ∀ x, x = cur.key ∨ x = m → u'.get? x = u.get? x := by
    rintro x (rfl | rfl)
    · exact hleaves.kept _ fun hx => (hbody _ hx).1 rfl
    · exact hleaves.kept _ fun hx => (hbody _ hx).2 rfl
  have hthere : ∀ x ∈ cur.slots, (u'.get? x).isSome := fun x hx =>
    hleaves.bound x ((block_leaves hdecode).bound x (hat.slots x hx))
  have hmap' : u'.get? m = some map := ((hkept m (.inr rfl)).trans (hapart m (by simp))).trans hat.map
  have hkey' : u'.get? cur.key = some e.key := (hkept _ (.inl rfl)).trans henters.key
  obtain ⟨s', hadvance, hat', hframes'⟩ := advance_runs h hmap' hkey' hthere (hnext ▸ hdict.following)
  refine ⟨u, u', s', henters, hrun, ?_, hat', hframes'.mono hslots⟩
  exact yields_block_append.2 ⟨none, u', yields_block_append.2 ⟨none, u, hdecode, hrun⟩, hadvance⟩

/-- From an entry on the walk visits the entries that are left. -/
theorem while_visits (h : cur.Apart value m) (hdict : Dictionary c cur.kind map (done ++ rest))
    (hnext : cur.next = cur.kind.operation "next") (hdecodes : cur.Decodes c value Holds (done ++ rest))
    (hbody : ∀ x ∈ stmtWrites body, x ≠ cur.key ∧ x ≠ m) (hslots : ∀ x ∈ cur.slots, own x)
    (hvalue : ∀ x, Name.Under (Name.var value) x → own x)
    (hends : Ends c body (Enters cur.key Holds own) (done ++ rest) s₀)
    (hvisits : Visits c body (Enters cur.key Holds own) done s₀ t) (hframes : t.Frames own s)
    (hat : cur.At m map rest.head? s) :
    ∃ t' s', Visits c body (Enters cur.key Holds own) (done ++ rest) s₀ t' ∧ t'.Frames own s' ∧
      Machine.Yields (whileLoop c (Target.id cur.flag) (cur.decode ++ body ++ [cur.advance])) s none s' := by
  induction rest generalizing done t s with
  | nil => exact ⟨t, s, by simpa using hvisits, hframes, whileLoop_ends hat.flag⟩
  | cons e rest ih =>
    obtain ⟨u, u', s', henters, hrun, hround, hat', hframes'⟩ := round_runs h hdict hnext hdecodes hbody
      hslots hvalue hat hframes fun u hu => hends done e rest t u rfl hvisits hu
    have hassoc : done ++ e :: rest = (done ++ [e]) ++ rest := by simp
    rw [hassoc] at hdict hdecodes hends ⊢
    obtain ⟨t', s'', hvisits', hframes'', hloop⟩ :=
      ih hdict hdecodes hends (hvisits.snoc henters hrun) hframes' hat'
    exact ⟨t', s'', hvisits', hframes'', whileLoop_round hat.flag hround hloop⟩

/-- **A walk visits every entry once**, in the order of the keys, and ends. -/
theorem loop_visits (h : cur.Apart value m) (hdict : Dictionary c cur.kind map entries)
    (hmin : cur.min = cur.kind.operation "min") (hnext : cur.next = cur.kind.operation "next")
    (hdecodes : cur.Decodes c value Holds entries)
    (hbody : ∀ x ∈ stmtWrites body, x ≠ cur.key ∧ x ≠ m) (hslots : ∀ x ∈ cur.slots, own x)
    (hvalue : ∀ x, Name.Under (Name.var value) x → own x)
    (hends : Ends c body (Enters cur.key Holds own) entries s₀) (hframes : s₀.Frames own s)
    (hmap : s.get? m = some map) :
    ∃ t s', Visits c body (Enters cur.key Holds own) entries s₀ t ∧ t.Frames own s' ∧
      Machine.Yields (block c [cur.start, .whileLoop (Target.id cur.flag) (cur.decode ++ body ++ [cur.advance])])
        s none s' := by
  obtain ⟨s₁, hstart, hat, hchanged⟩ := start_runs h hmap (hmin ▸ hdict.first)
  obtain ⟨t, s', hvisits, hframes', hloop⟩ := while_visits h
    (show Dictionary c cur.kind map ([] ++ entries) from hdict) hnext hdecodes hbody hslots hvalue hends
    (.nil s₀) (hframes.trans (hchanged.mono hslots)) hat
  refine ⟨t, s', hvisits, hframes', ?_⟩
  exact yields_block_append.2 ⟨none, s₁, hstart, yields_block_while.2 hloop⟩

end Cursor

end Generate

end CellCompiler
