import CellCompiler.Proofs.Codec.Link
import CellCompiler.Proofs.Emission.Pruning

/-!
# Generators that succeed

Whether a module can be finished is decided before its functions are written. A schedule names the
functions that are due and ranks them, so that every function depends on lower ones. As long as what
is entered follows the schedule, nothing is missing in the end and there is no cycle.

* `Schedule.Keeps` says that a registry follows the schedule, `Schedule.Keeps.finalize` and
  `Schedule.Keeps.finalizeReachable` that it can be finished once everything due is there;
* `Reads env g post` is about a generator that only looks things up: it has a result;
* `Succeeds env s level g post` is about a generator of code inside a function: it has a result, and
  what it records is lower than the level;
* `Delivers env s names g post` is about a generator of whole functions: it has a result, and it enters
  functions under these names and nothing else but helpers.
-/

namespace CellCompiler

open Emission (Registry Section)

/-- The item is a function of this name. -/
def Target.Item.Defines (item : Item) (name : String) : Prop :=
  item.signature?.map (·.name) = some name

@[simp] theorem Target.Signature.defines_define {s : Signature} {body : List Stmt} {name : String} :
    (s.define body).Defines name ↔ s.name = name := by
  simp [Item.Defines, Item.signature?, define]

@[simp] theorem Target.Item.defines_asm {s : Signature} {instructions : List String} {name : String} :
    (asm s instructions).Defines name ↔ s.name = name := by
  simp [Defines, signature?]

/-! ### Schedules -/

/-- The functions that will have been entered in the end, and a rank for each. -/
structure Schedule where
  due : String → Prop
  rank : String → Nat

namespace Schedule

variable {s : Schedule} {r r' : Registry} {name : String}

/-- Helpers are lower than other functions, and the check of addresses is the lowest. -/
def level (s : Schedule) (name : String) : Nat :=
  if name = Helper.verifyAddressName then 0 else if Name.isEmitted name then s.rank name + 2 else 1

/-- A function of a level may depend on the name. -/
def Allows (s : Schedule) (r : Registry) (level : Nat) (dep : String) : Prop :=
  s.level dep < level ∧ (s.due dep ∨ r.has dep = true)

/-- Every function depends on lower ones, which are due or entered already. -/
structure Keeps (s : Schedule) (r : Registry) : Prop where
  wellFormed : r.WellFormed
  depends : ∀ name entry, r.functions.get? name = some entry → ∀ dep ∈ entry.depends.names,
    s.Allows r (s.level name) dep

/-- The function is due and has this rank. -/
structure Offers (s : Schedule) (name : String) (rank : Nat) : Prop where
  due : s.due name
  rank_eq : s.rank name = rank
  emitted : Name.isEmitted name = true

theorem level_of_isEmitted (h : Name.isEmitted name = true) : s.level name = s.rank name + 2 := by
  have hne : name ≠ Helper.verifyAddressName := by
    rintro rfl
    exact absurd h (by decide)
  rw [level, if_neg hne, if_pos h]

theorem level_le_one (h : Name.isEmitted name = false) : s.level name ≤ 1 := by
  unfold level
  split_ifs <;> simp_all

theorem Allows.mono {level : Nat} (h : s.Allows r level name)
    (hhas : ∀ n, r.has n = true → r'.has n = true) : s.Allows r' level name :=
  ⟨h.1, h.2.imp_right (hhas name)⟩

/-- A function that depends on lower ones can be entered under a new name. -/
theorem Keeps.register (h : s.Keeps r) (place : Section) {item : Target.Item} {depends : NameSet}
    (hname : item.Defines name) (hnew : r.has name = false)
    (hdeps : ∀ dep ∈ depends.names, s.Allows r (s.level name) dep) :
    ∃ r', r.register item place depends = .ok r' ∧ s.Keeps r' ∧
      ∀ n, r'.has n = true ↔ r.has n = true ∨ n = name := by
  obtain ⟨entry, hentry, rfl, rfl⟩ : ∃ entry, Registry.entryOf item place depends = .ok entry ∧
      entry.name = name ∧ entry.depends = depends := by
    cases item with
    | function signature | declaration signature | asm signature =>
      exact ⟨_, rfl, by simpa [Target.Item.Defines, Target.Item.signature?] using hname, rfl⟩
    | _ => simp [Target.Item.Defines, Target.Item.signature?] at hname
  have hget : ∀ n, (r.functions.insertNew entry.name entry).get? n =
      if n = entry.name then some entry else r.functions.get? n := by
    intro n
    rw [Dict.get?_insertNew]
    split
    · next heq => rw [heq, Dict.contains_eq_false_iff.1 hnew, Option.none_or]
    · rw [Option.or_none]
  have hhas : ∀ n, (r.functions.insertNew entry.name entry).contains n = true ↔
      r.has n = true ∨ n = entry.name := by
    intro n
    simp only [Dict.contains, hget, Registry.has]
    split_ifs with heq <;> simp [heq]
  refine ⟨{ r with functions := r.functions.insertNew entry.name entry }, ?_,
    ⟨h.wellFormed.enter rfl, fun n e hn dep hdep => ?_⟩, hhas⟩
  · simp [Registry.register, hentry, hnew]
  · have hmore : ∀ n, r.has n = true →
        Registry.has { r with functions := r.functions.insertNew entry.name entry } n = true :=
      fun n hn => (hhas n).2 (.inl hn)
    dsimp only at hn
    rw [hget] at hn
    split_ifs at hn with heq
    · obtain rfl := Option.some.inj hn
      exact heq ▸ (hdeps dep hdep).mono hmore
    · exact (h.depends n e hn dep hdep).mono hmore

/-! ### Finishing -/

theorem Keeps.complete (h : s.Keeps r) (hdue : ∀ name, s.due name → r.has name = true) :
    r.Complete := by
  intro f hf dep hdep
  obtain ⟨⟨name, f⟩, hentry, rfl⟩ := List.mem_map.1 hf
  have hget := Dict.get?_of_mem_entries h.wellFormed.nodup hentry
  exact (h.depends name f hget dep hdep).2.elim (hdue dep) fun h => h

theorem Keeps.acyclic (h : s.Keeps r) : ¬ r.Cyclic := by
  have hlt : ∀ a b, Relation.TransGen r.DependsOn a b → s.level b < s.level a := by
    intro a b hab
    induction hab with
    | single hab =>
      obtain ⟨entry, hentry, hdep, -⟩ := hab
      exact (h.depends _ _ hentry _ hdep).1
    | tail _ hbc ih =>
      obtain ⟨entry, hentry, hdep, -⟩ := hbc
      exact (h.depends _ _ hentry _ hdep).1.trans ih
  rintro ⟨name, hname⟩
  exact Nat.lt_irrefl _ (hlt name name hname)

/-- **What has followed the schedule to its end can be finished.** -/
theorem Keeps.finalize (h : s.Keeps r) (hdue : ∀ name, s.due name → r.has name = true) :
    ∃ out, r.finalize = .ok out := by
  have hfinishes := h.wellFormed.finishes
  generalize r.finalize = result at hfinishes
  cases hfinishes with
  | missing hmissing => exact absurd (h.complete hdue) hmissing
  | cycle _ hwalk => exact absurd hwalk.cyclic h.acyclic
  | sorted => exact ⟨_, rfl⟩

theorem Keeps.finalizeReachable (h : s.Keeps r) (hdue : ∀ name, s.due name → r.has name = true)
    {roots : List String} (hroots : r.Knows roots) :
    ∃ out, r.finalizeReachable roots = .ok out := by
  have hfinishes := h.wellFormed.finishesFrom roots
  generalize r.finalizeReachable roots = result at hfinishes
  cases hfinishes with
  | missing hmissing => exact absurd ⟨h.complete hdue, hroots⟩ hmissing
  | cycle _ _ hcyclic => exact absurd hcyclic.cyclic h.acyclic
  | sorted => exact ⟨_, rfl⟩

end Schedule

namespace Generate

open Target (Item)

variable {α β : Type} {env : Env} {d d' : Draft} {s : Schedule} {level : Nat}

/-! ### Generators that only read -/

/-- The generator has a result, with a property, and leaves everything as it is. -/
def Reads (env : Env) (g : Gen α) (post : α → Prop) : Prop :=
  ∀ d : Draft, ∃ a, g env d = .ok a d ∧ post a

namespace Reads

variable {g : Gen α} {k : α → Gen β} {P P' : α → Prop} {Q : β → Prop}

theorem bind (hg : Reads env g P) (hk : ∀ a, P a → Reads env (k a) Q) : Reads env (g >>= k) Q := by
  intro d
  obtain ⟨a, hrun, ha⟩ := hg d
  obtain ⟨b, hrun', hb⟩ := hk a ha d
  exact ⟨b, run_bind.2 ⟨a, d, hrun, hrun'⟩, hb⟩

theorem pure {a : α} (h : P a) : Reads env (Pure.pure a) P := fun _ => ⟨a, rfl, h⟩

theorem mono (hg : Reads env g P) (h : ∀ a, P a → P' a) : Reads env g P' := by
  intro d
  obtain ⟨a, hrun, ha⟩ := hg d
  exact ⟨a, hrun, h a ha⟩

theorem read : Reads env MonadReader.read fun e => e = env := fun _ => ⟨env, rfl, rfl⟩

theorem table : Reads env Generate.table fun t => t = env.program.types := fun _ => ⟨_, rfl, rfl⟩

theorem ofExcept {x : Except CompileError α} (h : ∃ a, x = .ok a) :
    Reads env (Generate.ofExcept x) fun a => x = .ok a := by
  obtain ⟨a, rfl⟩ := h
  exact fun _ => ⟨a, rfl, rfl⟩

theorem mapM {f : α → Gen β} {l : List α} (h : ∀ a ∈ l, Reads env (f a) fun _ => True) :
    Reads env (l.mapM f) fun _ => True := by
  induction l with
  | nil => exact pure trivial
  | cons a l ih =>
    rw [List.mapM_cons]
    refine (h a List.mem_cons_self).bind fun b _ => ?_
    exact (ih fun x hx => h x (List.mem_cons_of_mem a hx)).bind fun bs _ => pure trivial

theorem forM {f : α → Gen PUnit} {l : List α} (h : ∀ a ∈ l, Reads env (f a) fun _ => True) :
    Reads env (l.forM f) fun _ => True := by
  induction l with
  | nil => exact pure trivial
  | cons a l ih =>
    exact (h a List.mem_cons_self).bind fun _ _ => ih fun x hx => h x (List.mem_cons_of_mem a hx)

/-- Something is computed from the declarations. -/
theorem ofTable {f : TypeTable → Except CompileError α} (h : ∃ a, f env.program.types = .ok a) :
    Reads env (Generate.table >>= fun t => Generate.ofExcept (f t))
      fun a => f env.program.types = .ok a := by
  refine table.bind fun t ht => ?_
  subst ht
  exact ofExcept h

end Reads

/-! ### Code inside a function -/

theorem run_has {name : String} : has name env d = .ok (d.registry.has name) d := rfl

theorem run_register {item : Item} {place : Section} {depends : NameSet} {u : Unit} :
    register item place depends env d = .ok u d' ↔
      ∃ r, d.registry.register item place depends = .ok r ∧ { d with registry := r } = d' := by
  simp [register]

/-- Everything is kept, and only helpers are new. -/
structure AddsHelpers (r r' : Registry) : Prop where
  kept : ∀ name, r.has name = true → r'.has name = true
  new : ∀ name, Name.isEmitted name = true → r'.has name = true → r.has name = true

theorem AddsHelpers.refl (r : Registry) : AddsHelpers r r := ⟨fun _ h => h, fun _ _ h => h⟩

theorem AddsHelpers.trans {r r' r'' : Registry} (h : AddsHelpers r r') (h' : AddsHelpers r' r'') :
    AddsHelpers r r'' :=
  ⟨fun name hname => h'.kept name (h.kept name hname),
    fun name hname hhas => h.new name hname (h'.new name hname hhas)⟩

/-- The function under construction depends on what is lower. -/
structure Draft.Below (s : Schedule) (level : Nat) (d : Draft) : Prop where
  keeps : s.Keeps d.registry
  deps : ∀ dep ∈ d.deps.names, s.Allows d.registry level dep

/-- The generator has a result, with a property, and records only what is lower. -/
def Succeeds (env : Env) (s : Schedule) (level : Nat) (g : Gen α) (post : α → Prop) : Prop :=
  ∀ d : Draft, d.Below s level → ∃ a d', g env d = .ok a d' ∧ d'.Below s level ∧
    AddsHelpers d.registry d'.registry ∧ post a

namespace Succeeds

variable {g : Gen α} {k : α → Gen β} {P P' : α → Prop} {Q : β → Prop}

theorem bind (hg : Succeeds env s level g P) (hk : ∀ a, P a → Succeeds env s level (k a) Q) :
    Succeeds env s level (g >>= k) Q := by
  intro d hd
  obtain ⟨a, d', hrun, hd', hadds, ha⟩ := hg d hd
  obtain ⟨b, d'', hrun', hd'', hadds', hb⟩ := hk a ha d' hd'
  exact ⟨b, d'', run_bind.2 ⟨a, d', hrun, hrun'⟩, hd'', hadds.trans hadds', hb⟩

theorem pure {a : α} (h : P a) : Succeeds env s level (Pure.pure a) P :=
  fun d hd => ⟨a, d, rfl, hd, .refl _, h⟩

theorem of_reads (hg : Reads env g P) : Succeeds env s level g P := by
  intro d hd
  obtain ⟨a, hrun, ha⟩ := hg d
  exact ⟨a, d, hrun, hd, .refl _, ha⟩

theorem read_bind (hg : Reads env g P) (hk : ∀ a, P a → Succeeds env s level (k a) Q) :
    Succeeds env s level (g >>= k) Q := (of_reads hg).bind hk

theorem mapM {f : α → Gen β} {l : List α} (h : ∀ a ∈ l, Succeeds env s level (f a) fun _ => True) :
    Succeeds env s level (l.mapM f) fun bs => bs.length = l.length := by
  induction l with
  | nil => exact pure rfl
  | cons a l ih =>
    rw [List.mapM_cons]
    refine (h a List.mem_cons_self).bind fun b _ => ?_
    exact (ih fun x hx => h x (List.mem_cons_of_mem a hx)).bind fun bs hbs => pure (by simp [hbs])

/-- Recording what is lower. -/
theorem used {name : String} {rank : Nat} (h : s.Offers name rank) (hlt : rank + 2 < level) :
    Succeeds env s level (Generate.used name) fun n => n = name := by
  refine fun d hd => ⟨name, { d with deps := d.deps.insert name }, rfl, ⟨hd.keeps, ?_⟩, .refl _, rfl⟩
  intro dep hdep
  rcases NameSet.mem_insert.1 hdep with rfl | hdep
  · exact ⟨by rwa [Schedule.level_of_isEmitted h.emitted, h.rank_eq], .inl h.due⟩
  · exact hd.deps dep hdep

theorem callUsed {name : String} {args : List Target.Expr} {rank : Nat} (h : s.Offers name rank)
    (hlt : rank + 2 < level) : Succeeds env s level (Generate.callUsed name args) fun _ => True :=
  (used h hlt).bind fun _ _ => pure trivial

end Succeeds

/-! ### Helpers -/

end Generate

namespace Helper

theorem arity?_repr {start : String} {n : Nat} (h : n < UInt64.size) :
    arity? start (start ++ n.repr) = some n := by
  have hread : Numeral.readNat UInt64.size n.repr = .ok n :=
    (Numeral.readNat_repr (by decide)).2 ⟨rfl, h⟩
  simp [arity?, dropStart?_append, hread, Except.toOption]

/-- The helper of a name is entered when it is used, in this way. -/
structure Entered (name : String) : Prop where
  ofName : ∃ h, ofName? name = some h
  isDictionary : isDictionary name = false
  isEmitted : Name.isEmitted name = false
  ne_contextGetSender : name ≠ contextGetSenderName

theorem entered_tupleCreate {n : Nat} (h : n < UInt64.size) : Entered (tupleCreateName n) := by
  have heq : tupleCreateName n = "__tact_tuple_create_" ++ n.repr := rfl
  refine ⟨⟨.tupleCreate n, ?_⟩, ?_, isEmitted_tupleCreateName, ?_⟩
  · rw [heq, ofName?, arity?_repr h]
  · simp [heq, isDictionary, Plan.dropStart?, dictionaryStart, List.isPrefixOf]
  · intro hname
    have hlist := congrArg String.toList (heq ▸ hname)
    simp [contextGetSenderName] at hlist

theorem entered_tupleDestroy {n : Nat} (h : n < UInt64.size) : Entered (tupleDestroyName n) := by
  have heq : tupleDestroyName n = "__tact_tuple_destroy_" ++ n.repr := rfl
  have hcreate : arity? "__tact_tuple_create_" (tupleDestroyName n) = none := by
    simp [heq, arity?, Plan.dropStart?, List.isPrefixOf]
  refine ⟨⟨.tupleDestroy n, ?_⟩, ?_, isEmitted_tupleDestroyName, ?_⟩
  · rw [ofName?, hcreate, heq, arity?_repr h]
  · simp [heq, isDictionary, Plan.dropStart?, dictionaryStart, List.isPrefixOf]
  · intro hname
    have hlist := congrArg String.toList (heq ▸ hname)
    simp [contextGetSenderName] at hlist

end Helper

namespace Generate

variable {env : Env} {d : Draft} {s : Schedule} {level : Nat} {name : String}

/-- Entering a helper. -/
theorem run_register_helper (env : Env) (h : Helper) (depends : NameSet) (hd : s.Keeps d.registry)
    (hnew : d.registry.has name = false)
    (hdeps : ∀ dep ∈ depends.names, s.Allows d.registry (s.level name) dep) :
    ∃ r, register (h.item name) .stdlib depends env d = .ok () { d with registry := r } ∧ s.Keeps r ∧
      ∀ n, r.has n = true ↔ d.registry.has n = true ∨ n = name := by
  have hname : (h.item name).Defines name := by
    cases h <;> simp [Helper.item]
  obtain ⟨r, hr, hkeeps, hhas⟩ := hd.register .stdlib hname hnew hdeps
  exact ⟨r, run_register.2 ⟨r, hr, rfl⟩, hkeeps, hhas⟩

/-- The check of addresses is there after it has been asked for. -/
theorem run_ensureVerifyAddress (env : Env) (hd : s.Keeps d.registry) :
    ∃ r, ensureVerifyAddress env d = .ok () { d with registry := r } ∧ s.Keeps r ∧
      ∀ n, r.has n = true ↔ d.registry.has n = true ∨ n = Helper.verifyAddressName := by
  cases hhas : d.registry.has Helper.verifyAddressName with
  | true =>
    refine ⟨d.registry, run_bind.2 ⟨_, d, run_has, ?_⟩, hd, fun n => ⟨.inl, ?_⟩⟩
    · rw [hhas]
      rfl
    · rintro (hn | rfl)
      exacts [hn, hhas]
  | false =>
    obtain ⟨r, hr, hkeeps, hiff⟩ :=
      run_register_helper env .verifyAddress .empty hd hhas (by simp [NameSet.empty])
    refine ⟨r, run_bind.2 ⟨_, d, run_has, ?_⟩, hkeeps, hiff⟩
    rw [hhas]
    exact hr

/-- A helper is there after it has been asked for. -/
theorem run_ensureHelper (env : Env) (hd : s.Keeps d.registry) (hentered : Helper.Entered name) :
    ∃ r, ensureHelper name env d = .ok () { d with registry := r } ∧ s.Keeps r ∧
      r.has name = true ∧ AddsHelpers d.registry r := by
  obtain ⟨⟨h, hof⟩, hdict, hemitted, hsender⟩ := hentered
  have hverify : Name.isEmitted Helper.verifyAddressName = false := by decide
  cases hhas : d.registry.has name with
  | true =>
    refine ⟨d.registry, run_bind.2 ⟨_, d, run_has, ?_⟩, hd, hhas, .refl _⟩
    rw [hhas]
    rfl
  | false =>
    have hrun : ∀ d', ensureHelper name env d = .ok () d' ↔
        (if h.verifies then do
          ensureVerifyAddress
          register (h.item name) .stdlib (.ofList [Helper.verifyAddressName])
        else register (h.item name) .stdlib .empty : Gen Unit) env d = .ok () d' := by
      intro d'
      simp only [ensureHelper, run_bind, run_has, hhas, hdict, hsender, hof]
      simp
    simp only [hrun]
    split
    · next hverifies =>
      have hne : name ≠ Helper.verifyAddressName := by
        rintro rfl
        have hverify : Helper.ofName? Helper.verifyAddressName = some .verifyAddress := by decide
        obtain rfl : Helper.verifyAddress = h := by simpa [hverify] using hof
        simp [Helper.verifies] at hverifies
      obtain ⟨r, hr, hkeeps, hiff⟩ := run_ensureVerifyAddress env hd
      have hnew : r.has name = false := by
        rw [← Bool.not_eq_true, hiff, hhas]
        simp [hne]
      obtain ⟨r', hr', hkeeps', hiff'⟩ := run_register_helper env h
        (.ofList [Helper.verifyAddressName]) (d := { d with registry := r }) hkeeps hnew (by
          intro dep hdep
          obtain rfl : dep = Helper.verifyAddressName := by
            simpa [NameSet.ofList, NameSet.insertAll, NameSet.empty] using hdep
          exact ⟨by simp [Schedule.level, hne, hemitted], .inr ((hiff _).2 (.inr rfl))⟩)
      refine ⟨r', run_bind.2 ⟨(), _, hr, hr'⟩, hkeeps', (hiff' name).2 (.inr rfl),
        fun n hn => (hiff' n).2 (.inl ((hiff n).2 (.inl hn))), fun n hn hrn => ?_⟩
      rcases (hiff' n).1 hrn with hrn | rfl
      · rcases (hiff n).1 hrn with hrn | rfl
        · exact hrn
        · simp [hverify] at hn
      · simp [hemitted] at hn
    · obtain ⟨r, hr, hkeeps, hiff⟩ := run_register_helper env h .empty hd hhas
        (by simp [NameSet.empty])
      refine ⟨r, hr, hkeeps, (hiff name).2 (.inr rfl), fun n hn => (hiff n).2 (.inl hn),
        fun n hn hrn => ((hiff n).1 hrn).resolve_right ?_⟩
      rintro rfl
      simp [hemitted] at hn

namespace Succeeds

/-- Helpers are lower than all other functions. -/
theorem helper (hlevel : 1 < level) (h : Helper.Entered name) :
    Succeeds env s level (Generate.helper name) fun n => n = name := by
  intro d hd
  obtain ⟨r, hr, hkeeps, hhas, hadds⟩ := run_ensureHelper env hd.keeps h
  have hr' : Draft.Below s level { d with registry := r } :=
    ⟨hkeeps, fun dep hdep => (hd.deps dep hdep).mono hadds.kept⟩
  have hlt : s.level name < level := (Schedule.level_le_one h.isEmitted).trans_lt hlevel
  refine ⟨name, { d with registry := r, deps := d.deps.insert name }, run_bind.2 ⟨(), _, hr, rfl⟩,
    ⟨hkeeps, fun dep hdep => ?_⟩, hadds, rfl⟩
  rcases NameSet.mem_insert.1 hdep with rfl | hdep
  · exact ⟨hlt, .inr hhas⟩
  · exact hr'.deps dep hdep

theorem callHelper {args : List Target.Expr} (hlevel : 1 < level) (h : Helper.Entered name) :
    Succeeds env s level (Generate.callHelper name args) fun _ => True :=
  (helper hlevel h).bind fun _ _ => pure trivial

end Succeeds

/-! ### Whole functions -/

variable {α β : Type}

/-- New functions can be entered under these names. -/
structure Available (r : Registry) (names : List String) : Prop where
  nodup : names.Nodup
  emitted : ∀ name ∈ names, Name.isEmitted name = true
  new : ∀ name ∈ names, r.has name = false

/-- What is kept and what is new, apart from helpers. -/
structure Adds (names : List String) (r r' : Registry) : Prop where
  kept : ∀ name, r.has name = true → r'.has name = true
  iff : ∀ name, Name.isEmitted name = true →
    (r'.has name = true ↔ r.has name = true ∨ name ∈ names)

/-- If the names are available, then the generator has a result, with a property, and enters functions
under exactly these names. -/
def Delivers (env : Env) (s : Schedule) (names : List String) (g : Gen α) (post : α → Prop) : Prop :=
  ∀ d : Draft, s.Keeps d.registry → Available d.registry names →
    ∃ a d', g env d = .ok a d' ∧ s.Keeps d'.registry ∧ Adds names d.registry d'.registry ∧ post a

namespace Delivers

variable {g : Gen α} {k : α → Gen β} {P P' : α → Prop} {Q : β → Prop} {names more : List String}

theorem bind (hg : Delivers env s names g P) (hk : ∀ a, P a → Delivers env s more (k a) Q) :
    Delivers env s (names ++ more) (g >>= k) Q := by
  intro d hd h
  obtain ⟨hnodup, hnodup', hdisjoint⟩ := List.nodup_append.1 h.nodup
  have hemitted : ∀ name ∈ more, Name.isEmitted name = true :=
    fun name hname => h.emitted name (List.mem_append_right _ hname)
  obtain ⟨a, d', hrun, hd', hadds, ha⟩ := hg d hd
    ⟨hnodup, fun name hname => h.emitted name (List.mem_append_left _ hname),
      fun name hname => h.new name (List.mem_append_left _ hname)⟩
  have hnew : ∀ name ∈ more, d'.registry.has name = false := by
    intro name hname
    rw [← Bool.not_eq_true, hadds.iff name (hemitted name hname),
      h.new name (List.mem_append_right _ hname)]
    simpa using fun hmem => hdisjoint name hmem name hname rfl
  obtain ⟨b, d'', hrun', hd'', hadds', hb⟩ := hk a ha d' hd' ⟨hnodup', hemitted, hnew⟩
  refine ⟨b, d'', run_bind.2 ⟨a, d', hrun, hrun'⟩, hd'',
    ⟨fun name hname => hadds'.kept name (hadds.kept name hname), fun name hname => ?_⟩, hb⟩
  rw [hadds'.iff name hname, hadds.iff name hname, List.mem_append, or_assoc]

/-- A generator that leaves all functions alone comes first. -/
theorem quiet_bind (hg : ∀ d, ∃ a d', g env d = .ok a d' ∧
      d'.registry.functions = d.registry.functions ∧ P a)
    (hk : ∀ a, P a → Delivers env s names (k a) Q) : Delivers env s names (g >>= k) Q := by
  intro d hd h
  obtain ⟨a, d', hrun, hfunctions, ha⟩ := hg d
  have hhas : d'.registry.has = d.registry.has := by
    funext name
    rw [Registry.has, Registry.has, hfunctions]
  have hd' : s.Keeps d'.registry :=
    ⟨⟨hfunctions ▸ hd.wellFormed.nodup, fun name entry hget => hd.wellFormed.filed name entry
      (hfunctions ▸ hget)⟩, fun name entry hget dep hdep => by
        have hallows := hd.depends name entry (hfunctions ▸ hget) dep hdep
        exact hallows.mono fun n hn => hhas ▸ hn⟩
  obtain ⟨b, d'', hrun', hd'', hadds, hb⟩ := hk a ha d' hd'
    ⟨h.nodup, h.emitted, fun name hname => hhas ▸ h.new name hname⟩
  exact ⟨b, d'', run_bind.2 ⟨a, d', hrun, hrun'⟩, hd'',
    ⟨fun name hname => hadds.kept name (hhas ▸ hname), hhas ▸ hadds.iff⟩, hb⟩

theorem read_bind (hg : Reads env g P) (hk : ∀ a, P a → Delivers env s names (k a) Q) :
    Delivers env s names (g >>= k) Q :=
  quiet_bind (fun d => (hg d).imp fun _ ha => ⟨d, ha.1, rfl, ha.2⟩) hk

theorem pure {a : α} (h : P a) : Delivers env s [] (Pure.pure a) P :=
  fun d hd _ => ⟨a, d, rfl, hd, ⟨fun _ h => h, by simp⟩, h⟩

/-- **Constructing a function and entering it** under a name that is new. -/
theorem define {place : Section} {construct : Gen Target.Item} {name : String} {rank : Nat}
    (ho : s.Offers name rank) (h : Succeeds env s (rank + 2) construct (·.Defines name)) :
    Delivers env s [name] (Generate.define place construct) fun _ => True := by
  intro d hd havailable
  have hname := ho.emitted
  have hlevel : s.level name = rank + 2 := by rw [Schedule.level_of_isEmitted hname, ho.rank_eq]
  obtain ⟨item, d₁, hitem, hbelow, hadds, hsig⟩ :=
    h { d with deps := .empty, temps := 0 } ⟨hd, by simp [NameSet.empty]⟩
  have hnew : d₁.registry.has name = false := by
    rw [← Bool.not_eq_true]
    intro hhas
    have hold := hadds.new name hname hhas
    simp [havailable.new name] at hold
  obtain ⟨r, hr, hkeeps, hiff⟩ := hbelow.keeps.register place hsig hnew
    (hlevel ▸ hbelow.deps)
  refine ⟨(), { d₁ with registry := r }, run_define.2 ⟨item, d₁, hitem, r, hr, rfl⟩, hkeeps,
    ⟨fun n hn => (hiff n).2 (.inl (hadds.kept n hn)), fun n hn => ?_⟩, trivial⟩
  rw [hiff n, List.mem_singleton]
  exact or_congr_left ⟨hadds.new n hn, hadds.kept n⟩

/-- The function comes first. -/
theorem define_bind {place : Section} {construct : Gen Target.Item} {name : String} {rank : Nat}
    {k : Unit → Gen β} (ho : s.Offers name rank)
    (h : Succeeds env s (rank + 2) construct (·.Defines name))
    (hk : Delivers env s names (k ()) Q) :
    Delivers env s (name :: names) (Generate.define place construct >>= k) Q :=
  bind (define ho h) fun _ _ => hk

theorem forM {f : α → Gen PUnit} {names : α → List String} {l : List α}
    (h : ∀ a ∈ l, Delivers env s (names a) (f a) fun _ => True) :
    Delivers env s (l.flatMap names) (l.forM f) fun _ => True := by
  induction l with
  | nil => exact pure trivial
  | cons a l ih =>
    rw [List.flatMap_cons]
    exact bind (h a List.mem_cons_self) fun _ _ => ih fun x hx => h x (List.mem_cons_of_mem a hx)

end Delivers

end Generate

end CellCompiler
