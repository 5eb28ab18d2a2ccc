import CellCompiler.Generate.MapKind
import CellCompiler.Proofs.Codec.Conversion
import CellCompiler.Proofs.Codec.RoundTrip

/-!
# Dictionaries of the target's own library

Nothing is known of the operations on dictionaries but what they answer.

* `Val.Before` is the order of keys, and `Least` picks the least entry with a property;
* `Dictionary c kind map entries` says that in the module `c` the operations for the first and for the
  next entry of a map answer for these entries, which are listed in the order of their keys;
* `Entry.Stored` relates the value of an entry to what the dictionary holds: a record is held by the cell
  that its writer makes, and `RunsCodecs.opens` reads it from there.
-/

namespace CellCompiler

open Generate Machine

namespace Machine

/-- Keys in the order of a dictionary: numbers by size, addresses bit by bit. -/
def Val.Before : Val → Val → Prop
  | .int a, .int b => a < b
  | .slice x, .slice y => x.bits < y.bits
  | _, _ => False

theorem Val.Before.asymm {v w : Val} (h : v.Before w) : ¬ w.Before v := by
  cases v <;> cases w <;> simp only [Before] at h ⊢
  · exact lt_asymm h
  · exact lt_asymm h

/-- An entry of a dictionary. -/
structure Entry where
  key : Val
  /-- What the dictionary holds for the value. -/
  raw : Val
  value : Val

/-- The entry with the least key that has a property, if there is one. -/
def Least (entries : List Entry) (P : Val → Prop) : Option Entry → Prop
  | some e => e ∈ entries ∧ P e.key ∧ ∀ f ∈ entries, P f.key → f = e ∨ e.key.Before f.key
  | none => ∀ e ∈ entries, ¬ P e.key

/-- Entries in the order of their keys. -/
def InOrder (entries : List Entry) : Prop := entries.Pairwise fun e f => e.key.Before f.key

/-- If the last entries are those with the property, then the first of them has the least key. -/
theorem Least.eq_head? {done rest : List Entry} {P : Val → Prop} {e? : Option Entry}
    (h : Least (done ++ rest) P e?) (horder : InOrder rest) (hdone : ∀ e ∈ done, ¬ P e.key)
    (hrest : ∀ e ∈ rest, P e.key) : e? = rest.head? := by
  cases e? with
  | none =>
    cases rest with
    | nil => rfl
    | cons e rest => exact absurd (hrest e List.mem_cons_self) (h e (by simp))
  | some e =>
    obtain ⟨hmem, hP, hleast⟩ := h
    have hin : e ∈ rest := by
      rcases List.mem_append.1 hmem with hin | hin
      · exact absurd hP (hdone e hin)
      · exact hin
    cases rest with
    | nil => simp at hin
    | cons f rest =>
      rcases hleast f (by simp) (hrest f List.mem_cons_self) with rfl | hbefore
      · rfl
      · rcases List.mem_cons.1 hin with rfl | hin
        · rfl
        · exact absurd hbefore (List.rel_of_pairwise_cons horder hin).asymm

/-- The call answers an entry, or by a flag that there is none. It has no effects. -/
def Answers (c : Code) (name : String) (args : List Val) : Option Entry → Prop
  | some e => ∀ s, Yields (call c name args) s (.tensor [e.key, e.raw, .bool true]) s
  | none => ∃ key raw, ∀ s, Yields (call c name args) s (.tensor [key, raw, .bool false]) s

end Machine

/-- Values of arguments followed by the width of the value, if it is a number. -/
def MapKind.withWidth (k : MapKind) (args : List Val) : List Val :=
  match k.valueBits with
  | some bits => args ++ [.int bits]
  | none => args

theorem MapKind.means_withValueBits {c : Code} {s : State} {k : MapKind} {es : List Target.Expr}
    {vs : List Val} (h : List.Forall₂ (Means c s) es vs) :
    List.Forall₂ (Means c s) (k.withValueBits es) (k.withWidth vs) := by
  unfold withValueBits withWidth
  cases k.valueBits with
  | some bits => exact List.rel_append h (.cons means_int .nil)
  | none => exact h

/-- The operations for the first and for the next entry of a map answer for these entries. -/
structure Dictionary (c : Code) (kind : MapKind) (map : Val) (entries : List Entry) : Prop where
  inOrder : InOrder entries
  min : ∃ e?, Least entries (fun _ => True) e? ∧
    Answers c (kind.operation "min") (kind.withWidth [map, .int kind.keyBits]) e?
  next : ∀ e ∈ entries, ∃ e?, Least entries (e.key.Before ·) e? ∧
    Answers c (kind.operation "next") (kind.withWidth [map, .int kind.keyBits, e.key]) e?

section

variable {c : Code} {kind : MapKind} {map : Val} {entries done rest : List Entry} {e : Entry}

theorem Dictionary.first (h : Dictionary c kind map entries) :
    Answers c (kind.operation "min") (kind.withWidth [map, .int kind.keyBits]) entries.head? := by
  obtain ⟨e?, hleast, hanswers⟩ := h.min
  rw [← List.nil_append entries] at hleast
  rwa [← hleast.eq_head? h.inOrder (by simp) (by simp)]

theorem Dictionary.following (h : Dictionary c kind map (done ++ e :: rest)) :
    Answers c (kind.operation "next") (kind.withWidth [map, .int kind.keyBits, e.key]) rest.head? := by
  obtain ⟨hdone, ⟨hrest, horder⟩, hacross⟩ := List.pairwise_append.1 h.inOrder |>.imp_right
    (And.imp_left List.pairwise_cons.1)
  obtain ⟨e?, hleast, hanswers⟩ := h.next e (by simp)
  rw [← List.singleton_append, ← List.append_assoc] at hleast
  rwa [← hleast.eq_head? horder ?_ hrest]
  refine List.forall_mem_append.2 ⟨fun f hf => ?_, List.forall_mem_singleton.2 fun hself => ?_⟩
  · exact (hacross f hf e List.mem_cons_self).asymm
  · exact hself.asymm hself

end

/-! ### Values of entries -/

/-- The code runs the codecs of a record as a compiled library does. -/
def RunsCodecs (c : Code) (env : Env) (type : String) : Prop :=
  ∃ library, Library library env ∧
    ∀ f ∈ [Name.writerCell type, Name.readerCellOpt type, Name.notNull type], call c f = call library f

/-- A library runs its codecs also in a module with further functions that it does not call. -/
theorem Library.runsCodecs {c library : Code} {env : Env} {known : String → Prop} {type : String}
    (h : Library library env) (halike : Alike (fun _ => True) known c library)
    (hknown : ∀ f ∈ [Name.writerCell type, Name.readerCellOpt type, Name.notNull type], known f) :
    RunsCodecs c env type :=
  ⟨library, h, fun f hf => funext fun _ => halike.funext (hknown f hf)⟩

/-- The dictionary holds the value itself, or the cell that the writer of a record makes of it. -/
def Machine.Entry.Stored (c : Code) (env : Env) (kind : MapKind) (e : Entry) : Prop :=
  match kind.value with
  | .struct type => Represents env.program.types (.plain type) none e.value ∧
      ∃ s s', Yields (call c (Name.writerCell type) [e.value]) s e.raw s'
  | _ => e.raw = e.value

theorem isStruct_of_represents {table : TypeTable} {type : String} {decl : TypeDecl} {v : Val}
    (hv : Represents table (.plain type) none v) (hdecl : table.types.get? type = some decl)
    (hnone : decl.primitive? = none) : decl.isStruct = true := by
  cases hv with
  | scalar hget hkind _ =>
    obtain rfl : decl = _ := by simpa [hdecl] using hget
    simp [hnone] at hkind
  | empty hget hstruct _ | record hget hstruct _ _ _ =>
    obtain rfl : decl = _ := by simpa [hdecl] using hget
    exact hstruct

/-- A record is read from the cell that its writer makes. -/
theorem RunsCodecs.opens {c : Code} {env : Env} {type : String} {decl : TypeDecl} {v raw : Val}
    {s s' : State} (h : RunsCodecs c env type) (hdecl : env.program.types.types.get? type = some decl)
    (hnone : decl.primitive? = none) (hv : Represents env.program.types (.plain type) none v)
    (hraw : Yields (call c (Name.writerCell type) [v]) s raw s') (t : State) :
    ∃ loaded v', Yields (call c (Name.readerCellOpt type) [raw]) t loaded t ∧
      Yields (call c (Name.notNull type) [loaded]) t v' t ∧ v'.Same v := by
  obtain ⟨library, hlibrary, hcalls⟩ := h
  simp only [List.forall_mem_cons] at hcalls
  obtain ⟨hwriter, hreader, hnotNull, -⟩ := hcalls
  rw [hwriter] at hraw
  rw [hreader, hnotNull]
  have hstruct := isStruct_of_represents hv hdecl hnone
  have hstorable := storable_of_admitsType hlibrary.wellNamed hdecl hstruct (hlibrary.admits hv)
  have hboxable := hlibrary.boxable hdecl hstruct hv
  obtain rfl := hlibrary.wellNamed.name_eq hdecl
  have hmem : decl ∈ env.program.types.structs :=
    TypeTable.mem_structs.2 ⟨Dict.mem_values_of_get? hdecl, hstruct⟩
  obtain ⟨⟨r, hr, hcodecs⟩, view, sh, hview, hboxes, -⟩ := hlibrary.supports decl hmem
  have hrecord := Machine.Inhabits.isRecord hdecl hstruct hview.shape_eq hv.inhabits
  have hnodup := (Layout.shapeWithin_distinct hlibrary.separate hview.shape_eq).nodup
  have hproper := hlibrary.proper.plain
  rw [← hr.name_eq] at hstorable hboxable hraw ⊢
  obtain ⟨-, bits, refs, rfl, hstored⟩ := writerCell_stores hproper hcodecs.toCodecs hstorable hraw
  obtain ⟨v', hread, hsame⟩ := readerCellOpt_boxes hproper hcodecs.toOptionalCodecs hstored hboxable t
  refine ⟨v'.boxed, v', hread, ?_, hsame⟩
  rw [hr.name_eq]
  exact notNull_opens hproper hview hboxes hnodup (hrecord.same hsame) t

end CellCompiler
