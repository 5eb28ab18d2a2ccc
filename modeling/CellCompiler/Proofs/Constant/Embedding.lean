import CellCompiler.Proofs.Codec.Link

/-!
# Embedded constants and helpers

Literals that cannot be written in place become constants of the module, each a function that pushes
an embedded cell.

* `Code.Pushes` says that a module has the constant, and `asm_slice` and `asm_cell` what the
  instructions of a constant push;
* `Registry.Faithful` says that what is entered as a helper or a constant is one;
* `Lowers` is a judgement on generators of expressions, which keep the registry faithful. It
  composes like `Builds`.
-/

namespace CellCompiler

open Emission (Entry Registry Section)
open Generate Machine

variable {c : Code} {env : Env}

/-! ### Names of embedded constants -/

namespace Name

/-- The name is that of an embedded constant. -/
def IsConstant (name : String) : Prop := "__gen".toList.isPrefixOf name.toList = true

/-- The constant slice that reads a cell, by its kind. -/
def sliceConstant (kind : String) (cell : Cell) : String := s!"__gen_slice_{kind}_{cell.hashHex}"

/-- The constant cell. -/
def cellConstant (cell : Cell) : String := s!"__gen_cell_cell_{cell.hashHex}"

-- The hash is put aside first, so that nothing tries to compute it.
theorem isConstant_sliceConstant (kind : String) (cell : Cell) :
    IsConstant (sliceConstant kind cell) := by
  change "__gen".toList.isPrefixOf (s!"__gen_slice_{kind}_{cell.hashHex}").toList = true
  generalize cell.hashHex = hash
  simp [toString]

theorem isConstant_cellConstant (cell : Cell) : IsConstant (cellConstant cell) := by
  change "__gen".toList.isPrefixOf (s!"__gen_cell_cell_{cell.hashHex}").toList = true
  generalize cell.hashHex = hash
  simp [toString]

theorem IsConstant.ofName? {name : String} (h : IsConstant name) : Helper.ofName? name = none := by
  refine ofName?_of_isEmitted ?_
  unfold IsConstant at h
  simp only [isEmitted, h, Bool.or_true]

end Name

/-! ### Embedded cells -/

namespace Machine

/-- The module has a constant under the name that pushes the value. -/
def Code.Pushes (c : Code) (name : String) (w : Val) : Prop :=
  ∃ s code, c.functions.get? name = some (.asm s code) ∧ Primitive.asm code [] = .ok w ∧
    w.isLeaf = true

theorem Code.Pushes.means {s : State} {name : String} {w : Val} (h : c.Pushes name w) :
    Means c s (Target.call name []) w := by
  obtain ⟨signature, code, hget, hrun, -⟩ := h
  exact (yields_call_means .nil).2 ((yields_asm hget).2 ⟨hrun, rfl⟩)

theorem Code.Pushes.unique {name : String} {v w : Val} (h : c.Pushes name v)
    (h' : c.Pushes name w) : v = w := by
  obtain ⟨s, code, hget, hrun, -⟩ := h
  obtain ⟨s', code', hget', hrun', -⟩ := h'
  obtain ⟨rfl, rfl⟩ : s = s' ∧ code = code' := by simpa [hget] using hget'
  simpa [hrun] using hrun'

/-- Constants of one name push the same in both modules, as they do where no two cells have one
hash. -/
def Code.Agrees (c c' : Code) : Prop :=
  ∀ name v w, Name.IsConstant name → c.Pushes name v → c'.Pushes name w → v = w

theorem Code.agrees_self (c : Code) : c.Agrees c := fun _ _ _ _ => Code.Pushes.unique

end Machine

/-! ### Registries -/

namespace Emission.Registry

/-- No helper is left to the target's own library, and every embedded constant pushes something. -/
structure Faithful (r : Registry) : Prop where
  helpers : ∀ name entry h, r.functions.get? name = some entry → Helper.ofName? name = some h →
    entry.definition = some (h.item name)
  constants : ∀ name entry, Name.IsConstant name → r.functions.get? name = some entry →
    ∃ s code w, entry.definition = some (.asm s code) ∧ Primitive.asm code [] = .ok w ∧
      w.isLeaf = true

theorem faithful_empty : Faithful {} := ⟨by simp, by simp⟩

/-- The item may be entered under its name: a helper is the helper of that name, and an embedded
constant pushes something. -/
structure Suits (item : Target.Item) (name : String) : Prop where
  helper : ∀ h, Helper.ofName? name = some h → item = h.item name
  constant : Name.IsConstant name → ∃ s code w, item = .asm s code ∧
    Primitive.asm code [] = .ok w ∧ w.isLeaf = true

theorem register_faithful {r r' : Registry} {item : Target.Item} {place : Section}
    {depends : NameSet} {name : String} (hr : r.Faithful) (hname : item.name? = some name)
    (hitem : Suits item name) (h : r.register item place depends = .ok r') :
    r.Extends r' ∧ r'.Faithful := by
  obtain ⟨added, hadded, hnone, rfl⟩ := register_eq_ok hname h
  have hextends : r.Extends { r with functions := r.functions.insertNew name added } := by
    intro other entry hentry
    rw [Dict.get?_insertNew, hentry, Option.some_or]
  -- what is found afterwards was there before, or it is the new item
  have hget : ∀ other entry, (r.functions.insertNew name added).get? other = some entry →
      r.functions.get? other = some entry ∨ (other = name ∧ entry.definition = some item) := by
    intro other entry hentry
    rw [Dict.get?_insertNew, Option.or_eq_some_iff] at hentry
    rcases hentry with hold | ⟨-, hnew⟩
    · exact .inl hold
    · split at hnew
      · next hother => exact .inr ⟨hother, Option.some.inj hnew ▸ hadded⟩
      · simp at hnew
  refine ⟨hextends, fun other entry helper hentry hhelper => ?_,
    fun other entry hother hentry => ?_⟩
  · rcases hget other entry hentry with hold | ⟨rfl, hdef⟩
    · exact hr.helpers other entry helper hold hhelper
    · rw [hdef, hitem.helper helper hhelper]
  · rcases hget other entry hentry with hold | ⟨rfl, hdef⟩
    · exact hr.constants other entry hother hold
    · obtain ⟨s, code, w, rfl, hrun⟩ := hitem.constant hother
      exact ⟨s, code, w, hdef, hrun⟩

end Emission.Registry

/-! ### Generators of expressions -/

/-- The generator keeps what is registered and the registry faithful, and its result satisfies
`post` if the code backs the registry in the end. -/
def Lowers {α : Type} (c : Code) (env : Env) (g : Gen α) (post : α → Prop) : Prop :=
  ∀ d a d', g env d = .ok a d' → d.registry.Faithful →
    d.registry.Extends d'.registry ∧ d'.registry.Faithful ∧ (Backs c d'.registry → post a)

namespace Lowers

variable {α β : Type} {g : Gen α} {k : α → Gen β} {P P' : α → Prop} {Q : β → Prop}

theorem pure {a : α} (h : P a) : Lowers c env (Pure.pure a) P := by
  intro d b d' hrun hd
  obtain ⟨rfl, rfl⟩ := run_pure.1 hrun
  exact ⟨.refl _, hd, fun _ => h⟩

theorem throw {e : CompileError} : Lowers c env (MonadExcept.throw e : Gen α) P :=
  fun _ _ _ hrun => absurd hrun run_throw

theorem bind (hg : Lowers c env g P) (hk : ∀ a, Lowers c env (k a) fun b => P a → Q b) :
    Lowers c env (g >>= k) Q := by
  intro d b d'' h hd
  obtain ⟨a, d', hrun, hrest⟩ := run_bind.1 h
  obtain ⟨hextends, hfaithful, hP⟩ := hg d a d' hrun hd
  obtain ⟨hextends', hfaithful', hQ⟩ := hk a d' b d'' hrest hfaithful
  exact ⟨hextends.trans hextends', hfaithful', fun hback => hQ hback (hP (hback.mono hextends'))⟩

theorem mono (hg : Lowers c env g P) (h : ∀ a, P a → P' a) : Lowers c env g P' := by
  intro d a d' hrun hd
  obtain ⟨hextends, hfaithful, hP⟩ := hg d a d' hrun hd
  exact ⟨hextends, hfaithful, fun hback => h a (hP hback)⟩

/-- A generator that only reads comes first. -/
theorem read_bind (hg : ∀ d a d', g env d = .ok a d' → d' = d ∧ P a)
    (hk : ∀ a, P a → Lowers c env (k a) Q) : Lowers c env (g >>= k) Q := by
  intro d b d'' h hd
  obtain ⟨a, d', hrun, hrest⟩ := run_bind.1 h
  obtain ⟨rfl, hP⟩ := hg d a d' hrun
  exact hk a hP d' b d'' hrest hd

theorem mapM {R : α → β → Prop} {f : α → Gen β} {l : List α}
    (h : ∀ a ∈ l, Lowers c env (f a) (R a)) : Lowers c env (l.mapM f) (List.Forall₂ R l) := by
  induction l with
  | nil => exact pure .nil
  | cons a l ih =>
    rw [List.mapM_cons]
    refine (h a List.mem_cons_self).bind fun b => ?_
    refine (ih fun x hx => h x (List.mem_cons_of_mem a hx)).bind fun bs => pure fun hbs hb => ?_
    exact .cons hb hbs

theorem register {item : Target.Item} {place : Section} {depends : NameSet} {name : String}
    (hname : item.name? = some name) (hitem : Registry.Suits item name) :
    Lowers c env (Generate.register item place depends) fun _ =>
      c.functions.get? name = some item := by
  intro d a d' hrun hd
  simp only [Generate.register, run_bind, run_get, run_ofExcept, run_modify] at hrun
  obtain ⟨_, _, ⟨rfl, rfl⟩, r, _, ⟨hr, rfl⟩, rfl⟩ := hrun
  obtain ⟨hextends, hfaithful⟩ := Registry.register_faithful hd hname hitem hr
  refine ⟨hextends, hfaithful, fun hback => ?_⟩
  obtain ⟨entry, hentry, hdef⟩ := Registry.get?_register hname hr
  exact hback name entry item hentry hdef

/-- A helper or an embedded constant that is known already. -/
theorem has {name : String} : Lowers c env (Generate.has name) fun known => known = true →
    (∀ h, Helper.ofName? name = some h → c.Helps name h) ∧
      (Name.IsConstant name → ∃ w, c.Pushes name w) := by
  intro d a d' hrun hd
  simp only [Generate.has, run_bind, run_get, run_pure] at hrun
  obtain ⟨_, _, ⟨rfl, rfl⟩, rfl, rfl⟩ := hrun
  refine ⟨.refl _, hd, fun hback hknown => ?_⟩
  obtain ⟨entry, hentry⟩ := Dict.contains_eq_true_iff.1 hknown
  refine ⟨fun h hname => ?_, fun hname => ?_⟩
  · exact hback name entry _ hentry (hd.helpers name entry h hentry hname)
  · obtain ⟨s, code, w, hdef, hrun, hleaf⟩ := hd.constants name entry hname hentry
    exact ⟨w, s, code, hback name entry _ hentry hdef, hrun, hleaf⟩

theorem used {name : String} : Lowers c env (Generate.used name) (· = name) := by
  intro d a d' hrun hd
  simp only [Generate.used, run_bind, run_modify, run_pure] at hrun
  obtain ⟨_, _, rfl, rfl, rfl⟩ := hrun
  exact ⟨.refl _, hd, fun _ => rfl⟩

theorem callUsed {name : String} {args : List Target.Expr} :
    Lowers c env (Generate.callUsed name args) (· = Target.call name args) :=
  used.bind fun _ => pure fun hname => hname ▸ rfl

/-- Calling a helper that calls nothing itself. -/
theorem callHelper {name : String} {h : Helper} {args : List Target.Expr}
    (hname : Helper.ofName? name = some h) (hdict : Helper.isDictionary name = false)
    (hsender : name ≠ Helper.contextGetSenderName) (hverifies : h.verifies = false) :
    Lowers c env (Generate.callHelper name args) fun e =>
      e = Target.call name args ∧ c.Helps name h := by
  have hensure : Lowers c env (ensureHelper name) fun _ => c.Helps name h := by
    refine has.bind fun known => ?_
    cases known with
    | true => exact pure fun hknown => (hknown rfl).1 h hname
    | false =>
      simp only [hdict, hsender, hname, hverifies, Bool.false_eq_true, if_false]
      refine (register name?_item ⟨fun h' hname' => ?_, fun hconstant => ?_⟩).mono
        fun _ hget _ => hget
      · obtain rfl : h = h' := by simpa [hname] using hname'
        rfl
      · simp [hconstant.ofName?] at hname
  refine (hensure.bind fun _ => used.mono fun n hn hhelps => ?_ : Lowers c env
    (helper name) fun n => n = name ∧ c.Helps name h).bind fun n => pure fun hn => ?_
  · exact ⟨hn, hhelps⟩
  · exact ⟨hn.1 ▸ rfl, hn.2⟩

/-- Embedding a constant. -/
theorem embed {name push : String} {ty : Target.Ty} {cell : Cell} {w : Val}
    (hname : Name.IsConstant name)
    (hrun : Primitive.asm ["B\x7b" ++ Bag.encodeHex cell ++ "\x7d B>boc " ++ push] [] = .ok w)
    (hleaf : w.isLeaf = true) :
    Lowers c env (Generate.embed name ty cell push) fun _ => ∃ w, c.Pushes name w := by
  refine has.bind fun known => ?_
  cases known with
  | true => exact pure fun hknown => (hknown rfl).2 hname
  | false =>
    have hitem : Registry.Suits (.asm { name, returns := ty }
        ["B\x7b" ++ Bag.encodeHex cell ++ "\x7d B>boc " ++ push]) name :=
      ⟨fun h hhelper => by simp [hname.ofName?] at hhelper, fun _ => ⟨_, _, w, rfl, hrun, hleaf⟩⟩
    exact (register rfl hitem).mono fun _ hget _ => ⟨w, _, _, hget, hrun, hleaf⟩

/-- The code of an embedded constant. -/
theorem constant {name push : String} {ty : Target.Ty} {cell : Cell} {w : Val}
    (hname : Name.IsConstant name)
    (hrun : Primitive.asm ["B\x7b" ++ Bag.encodeHex cell ++ "\x7d B>boc " ++ push] [] = .ok w)
    (hleaf : w.isLeaf = true) :
    Lowers c env (do Generate.embed name ty cell push; Generate.callUsed name []) fun e =>
      ∃ w, c.Pushes name w ∧ ∀ s, Means c s e w := by
  refine (embed hname hrun hleaf).bind fun _ => callUsed.mono ?_
  rintro _ rfl ⟨w, hw⟩
  exact ⟨w, hw, fun _ => hw.means⟩

end Lowers

/-! ### Reading the table -/

variable {d d' : Draft} {name : String} {decl : TypeDecl} {ty : TypeRef}

theorem run_table {t : TypeTable} (h : table env d = .ok t d') :
    d' = d ∧ t = env.program.types := by
  simp only [table, run_bind, run_read, run_pure] at h
  obtain ⟨_, _, ⟨rfl, rfl⟩, rfl, rfl⟩ := h
  exact ⟨rfl, rfl⟩

end CellCompiler
