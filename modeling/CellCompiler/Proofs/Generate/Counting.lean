import CellCompiler.Proofs.Generate.Results

/-!
# Variables that generators make up and declare

The variables that are made up for a function are numbered, so that they differ from each other. Global
variables are declared while a function is constructed, and its code may refer to them from then on.

* `Steady` says that a generator makes up no variables and gives up no global variable;
* `Leads env n granted g post` is about code that may refer to the cell of known codes: from drafts on
  with at least `n` variables the generator keeps them, and if that cell is declared in the end only
  where this is `granted`, then its results have the property. What is known of a first result holds
  only if nothing is declared later, so it is a premise of what follows for the second (`Leads.bind`);
* `YieldsFrom env n g post` is the case in which it is granted. It composes like `Yields`.
  `Leads.fresh` is the rule for a new variable: its number is not below `n`.
-/

namespace CellCompiler

namespace Generate

open Emission (Registry)

variable {α β : Type} {env : Env} {n : Nat} {granted : Prop}

/-! ### No new variables -/

/-- The generator makes up no variables, and it gives up no global variable. -/
def Steady (env : Env) (g : Gen α) : Prop := ∀ d a d', g env d = .ok a d' →
  d'.temps = d.temps ∧ ∀ name, d.registry.Declares name → d'.registry.Declares name

namespace Steady

variable {g : Gen α} {k : α → Gen β}

theorem bind (hg : Steady env g) (hk : ∀ a, Steady env (k a)) : Steady env (g >>= k) := by
  intro d b d'' h
  obtain ⟨a, d', hrun, hrest⟩ := run_bind.1 h
  obtain ⟨htemps, hdeclares⟩ := hg d a d' hrun
  obtain ⟨htemps', hdeclares'⟩ := hk a d' b d'' hrest
  exact ⟨htemps'.trans htemps, fun name hname => hdeclares' name (hdeclares name hname)⟩

theorem of_eq (h : ∀ d a d', g env d = .ok a d' → d = d') : Steady env g := by
  intro d a d' hrun
  obtain rfl := h d a d' hrun
  exact ⟨rfl, fun _ hname => hname⟩

theorem pure {a : α} : Steady env (Pure.pure a) := of_eq fun _ _ _ h => (run_pure.1 h).2

theorem throw {e : CompileError} : Steady env (MonadExcept.throw e : Gen α) :=
  fun _ _ _ h => absurd h run_throw

theorem get : Steady env (get : Gen Draft) := of_eq fun _ _ _ h => (run_get.1 h).2

theorem modify {f : Draft → Draft} (htemps : ∀ d, (f d).temps = d.temps)
    (hdeclares : ∀ d name, d.registry.Declares name → (f d).registry.Declares name) :
    Steady env (modify f : Gen PUnit) := by
  intro d b d' hrun
  obtain rfl := run_modify.1 hrun
  exact ⟨htemps d, hdeclares d⟩

theorem ofExcept {x : Except CompileError α} : Steady env (Generate.ofExcept x) :=
  of_eq fun _ _ _ h => (run_ofExcept.1 h).2

theorem table : Steady env Generate.table := of_eq fun _ _ _ h => (run_table.1 h).2

/-- A result that is computed from the declarations of the program. -/
theorem ofTable {f : TypeTable → Except CompileError α} :
    Steady env (do Generate.ofExcept (f (← Generate.table))) := table.bind fun _ => ofExcept

theorem read : Steady env (MonadReader.read : Gen Env) := of_eq fun _ _ _ h => (run_read.1 h).2

/-- A step that is only taken under a condition. -/
theorem unlessDone {cond : Prop} [Decidable cond] {g : Gen Unit} (hg : Steady env g) :
    Steady env (unless cond do g) := by
  split_ifs
  · exact pure
  · exact hg

theorem onRegistry {f : Registry → Registry} (h : ∀ r name, r.Declares name → (f r).Declares name) :
    Steady env (Generate.onRegistry f) :=
  modify (fun _ => rfl) fun d => h d.registry

theorem skip {name : String} : Steady env (Generate.skip name) := onRegistry fun _ _ h => h

theorem has {name : String} : Steady env (Generate.has name) := get.bind fun _ => pure

theorem used {name : String} : Steady env (Generate.used name) :=
  (modify (f := fun d => { d with deps := d.deps.insert name }) (fun _ => rfl) fun _ _ h => h).bind
    fun _ => pure

theorem register {item : Target.Item} {place : Emission.Section} {depends : NameSet} :
    Steady env (Generate.register item place depends) := by
  intro d u d' hrun
  simp only [Generate.register, run_bind, run_get, run_ofExcept, run_modify] at hrun
  obtain ⟨_, _, ⟨rfl, rfl⟩, r, _, ⟨hr, rfl⟩, rfl⟩ := hrun
  exact ⟨rfl, fun name hname => by simpa [Registry.Declares, Registry.globals_of_register hr] using hname⟩

theorem declareContext : Steady env Generate.declareContext := by
  have hglobal : ∀ {ty name}, Steady env (Generate.onRegistry (·.addGlobal ty name)) :=
    onRegistry fun _ _ h => Registry.declares_addGlobal.2 (.inr h)
  exact hglobal.bind fun _ => hglobal.bind fun _ => hglobal

theorem ensureVerifyAddress : Steady env Generate.ensureVerifyAddress :=
  has.bind fun _ => .unlessDone register

theorem ensureHelper {name : String} : Steady env (Generate.ensureHelper name) := by
  unfold Generate.ensureHelper
  refine has.bind fun known => ?_
  split_ifs
  · exact pure
  · exact skip.bind fun _ => pure
  on_goal 1 => refine declareContext.bind fun _ => ?_
  all_goals
    split
    · exact throw
    · split
      · exact ensureVerifyAddress.bind fun _ => register
      · exact register

theorem embed {name push : String} {ty : Target.Ty} {cell : Cell} :
    Steady env (Generate.embed name ty cell push) :=
  has.bind fun _ => .unlessDone register

end Steady

/-! ### Results -/

/-- From at least `n` variables on, the generator gives up none of them and no global variable. If the
cell of known codes is declared in the end only where this is `granted`, then every result satisfies
`post`. -/
def Leads (env : Env) (n : Nat) (granted : Prop) (g : Gen α) (post : α → Prop) : Prop :=
  ∀ d a d', n ≤ d.temps → g env d = .ok a d' → n ≤ d'.temps ∧
    (∀ name, d.registry.Declares name → d'.registry.Declares name) ∧
    ((d'.registry.Declares Helper.contextSys → granted) → post a)

/-- From at least `n` variables on, the generator gives up none of them and no global variable, and
every result satisfies `post`. -/
abbrev YieldsFrom (env : Env) (n : Nat) (g : Gen α) (post : α → Prop) : Prop := Leads env n True g post

section

variable {g : Gen α} {k : α → Gen β} {P P' : α → Prop} {Q : β → Prop}

namespace Leads

/-- What is known of the first result is a premise of what follows for the second. -/
theorem bind (hg : Leads env n granted g P) (hk : ∀ a, Leads env n granted (k a) fun b => P a → Q b) :
    Leads env n granted (g >>= k) Q := by
  intro d b d'' hn h
  obtain ⟨a, d', hrun, hrest⟩ := run_bind.1 h
  obtain ⟨hn', hdeclares, ha⟩ := hg d a d' hn hrun
  obtain ⟨hn'', hdeclares', hb⟩ := hk a d' b d'' hn' hrest
  refine ⟨hn'', fun name hname => hdeclares' name (hdeclares name hname), fun hgranted => ?_⟩
  exact hb hgranted (ha fun hdeclared => hgranted (hdeclares' _ hdeclared))

theorem mono (hg : Leads env n granted g P) (h : ∀ a, P a → P' a) : Leads env n granted g P' := by
  intro d a d' hn hrun
  obtain ⟨hn', hdeclares, ha⟩ := hg d a d' hn hrun
  exact ⟨hn', hdeclares, fun hgranted => h a (ha hgranted)⟩

theorem result {d d' : Draft} {a : α} (hg : YieldsFrom env n g P) (hn : n ≤ d.temps)
    (hrun : g env d = .ok a d') : P a := (hg d a d' hn hrun).2.2 fun _ => trivial

theorem yields (hg : YieldsFrom env 0 g P) : Yields env g P :=
  fun _ _ _ hrun => hg.result (Nat.zero_le _) hrun

/-- No variables are made up. -/
theorem of_steady (hsteady : Steady env g) (hg : Yields env g P) : Leads env n granted g P := by
  intro d a d' hn hrun
  obtain ⟨htemps, hdeclares⟩ := hsteady d a d' hrun
  exact ⟨htemps.symm ▸ hn, hdeclares, fun _ => hg d a d' hrun⟩

/-- What follows a result that is known in any case. -/
theorem after (hg : YieldsFrom env n g P) (hk : ∀ a, P a → Leads env n granted (k a) Q) :
    Leads env n granted (g >>= k) Q := by
  intro d b d'' hn h
  obtain ⟨a, d', hrun, hrest⟩ := run_bind.1 h
  obtain ⟨hn', hdeclares, ha⟩ := hg d a d' hn hrun
  obtain ⟨hn'', hdeclares', hb⟩ := hk a (ha fun _ => trivial) d' b d'' hn' hrest
  exact ⟨hn'', fun name hname => hdeclares' name (hdeclares name hname), hb⟩

/-- The first result does not matter for the second. -/
theorem andThen (hg : Steady env g) (hk : ∀ a, Leads env n granted (k a) Q) :
    Leads env n granted (g >>= k) Q :=
  after (of_steady hg fun _ _ _ _ => trivial) fun a _ => hk a

theorem pure {a : α} (h : P a) : Leads env n granted (Pure.pure a) P := of_steady .pure (.pure h)

theorem map {f : α → β} (hg : Leads env n granted g P) (h : ∀ a, P a → Q (f a)) :
    Leads env n granted (f <$> g) Q := by
  intro d b d' hn hrun
  obtain ⟨a, hrun', rfl⟩ := run_map.1 hrun
  obtain ⟨hn', hdeclares, ha⟩ := hg d a d' hn hrun'
  exact ⟨hn', hdeclares, fun hgranted => h a (ha hgranted)⟩

theorem throw {e : CompileError} : Leads env n granted (MonadExcept.throw e : Gen α) P :=
  of_steady .throw .throw

/-- What follows a failure does not matter. -/
theorem throw_bind {e : CompileError} :
    Leads env n granted ((MonadExcept.throw e : Gen α) >>= k) Q :=
  after (P := fun _ => False) throw fun _ => False.elim

theorem defect {x : Defect} : Leads env n granted (Generate.defect x : Gen α) P := throw

theorem defectAt {x : Defect} {loc : Location} :
    Leads env n granted (Generate.defectAt x loc : Gen α) P := throw

theorem misuseAt {x : Misuse} {loc : Location} :
    Leads env n granted (Generate.misuseAt x loc : Gen α) P := throw

theorem ofExcept {x : Except CompileError α} :
    Leads env n granted (Generate.ofExcept x) fun a => x = .ok a :=
  of_steady .ofExcept .ofExcept

/-- The declarations of the program come first. -/
theorem table_bind {k : TypeTable → Gen β} (hk : Leads env n granted (k env.program.types) Q) :
    Leads env n granted (Generate.table >>= k) Q :=
  after (of_steady .table .table) fun _ ht => ht ▸ hk

/-- A result that is computed from the declarations of the program. -/
theorem ofTable {f : TypeTable → Except CompileError α} : Leads env n granted
    (do Generate.ofExcept (f (← Generate.table))) fun a => f env.program.types = .ok a :=
  table_bind ofExcept

/-- A name that is recorded comes first. -/
theorem used_bind {name : String} {k : String → Gen β} (hk : Leads env n granted (k name) Q) :
    Leads env n granted (Generate.used name >>= k) Q :=
  after (of_steady .used .used) fun _ hn => hn ▸ hk

/-- What follows the declaration of the cell of known codes may refer to it. -/
theorem declareContext_bind {k : Unit → Gen β} (hk : Leads env n granted (k ()) fun b => granted → Q b) :
    Leads env n granted (Generate.declareContext >>= k) Q := by
  intro d b d'' hn h
  obtain ⟨⟨⟩, d', hrun, hrest⟩ := run_bind.1 h
  obtain ⟨htemps, hdeclares⟩ := Steady.declareContext d () d' hrun
  obtain ⟨hn'', hdeclares', hb⟩ := hk d' b d'' (htemps.symm ▸ hn) hrest
  refine ⟨hn'', fun name hname => hdeclares' name (hdeclares name hname), fun hgranted => ?_⟩
  exact hb hgranted (hgranted (hdeclares' _ (declareContext_declares hrun).2))

theorem callUsed {name : String} {args : List Target.Expr} :
    Leads env n granted (Generate.callUsed name args) fun e => e = Target.call name args :=
  used_bind (pure rfl)

theorem callHelper {name : String} {args : List Target.Expr} :
    Leads env n granted (Generate.callHelper name args) fun e => e = Target.call name args :=
  of_steady ((Steady.ensureHelper.bind fun _ => .used).bind fun _ => .pure) .callHelper

/-- A new variable has a number from `n` on. -/
theorem fresh {stem : String} :
    Leads env n granted (Generate.fresh stem) fun x => ∃ i, n ≤ i ∧ x = s!"{stem}_{i}" := by
  intro d x d' hn h
  simp only [Generate.fresh, run_bind, run_get, run_modify, run_pure] at h
  obtain ⟨_, _, ⟨rfl, rfl⟩, _, _, rfl, rfl, rfl⟩ := h
  exact ⟨Nat.le_succ_of_le hn, fun _ h => h, fun _ => ⟨d.temps, hn, rfl⟩⟩

/-- As many results as there are members, each with the property. -/
theorem mapM_all {f : α → Gen β} {l : List α} (h : ∀ a ∈ l, Leads env n granted (f a) Q) :
    Leads env n granted (l.mapM f) fun bs => ∀ b ∈ bs, Q b := by
  induction l with
  | nil => exact pure (by simp)
  | cons a l ih =>
    rw [List.mapM_cons]
    refine (h a List.mem_cons_self).bind fun b => ?_
    refine (ih fun x hx => h x (List.mem_cons_of_mem a hx)).bind fun bs => pure fun hbs hb => ?_
    exact List.forall_mem_cons.2 ⟨hb, hbs⟩

end Leads

theorem YieldsFrom.bind (hg : YieldsFrom env n g P) (hk : ∀ a, P a → YieldsFrom env n (k a) Q) :
    YieldsFrom env n (g >>= k) Q := Leads.after hg hk

end

end Generate

end CellCompiler
