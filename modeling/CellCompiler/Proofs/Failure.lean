import Mathlib.Data.List.Forall2

/-!
# Computations that can fail

What it means for a composed computation in `Except` to succeed: each of its parts does.

* `Except.bind_eq_ok` and `Except.map_eq_ok` take one step apart, `Except.bind_eq_error` and
  `Except.map_eq_error` one that fails;
* `List.mapM_eq_ok` and `List.forM_eq_ok` take a pass over a list apart, and `List.mapM_eq_some` does
  so in `Option`; `List.exists_of_mapM_eq_error` and `List.exists_of_forM_eq_error` find the element
  at which a pass fails;
* `List.foldlM_invariant` carries a property along a fold, `List.foldlM_result` also one of failures,
  and `List.foldlM_reaches` collects what each step of it achieves.

Two lists of equal length are compared entry by entry with `List.Forall₂`.
-/

namespace Except

variable {ε α β : Type}

@[simp] theorem bind_eq_ok {x : Except ε α} {f : α → Except ε β} {b : β} :
    x >>= f = .ok b ↔ ∃ a, x = .ok a ∧ f a = .ok b := by
  cases x with
  | error e => simp [bind, Except.bind]
  | ok a => simp [bind, Except.bind]

@[simp] theorem map_eq_ok {x : Except ε α} {f : α → β} {b : β} :
    f <$> x = .ok b ↔ ∃ a, x = .ok a ∧ f a = b := by
  cases x with
  | error e => simp [Functor.map, Except.map]
  | ok a => simp [Functor.map, Except.map]

@[simp] theorem pure_eq_ok {a b : α} : (pure a : Except ε α) = .ok b ↔ a = b := by
  simp [pure, Except.pure]

@[simp] theorem throw_ne_ok {e : ε} {b : α} : (throw e : Except ε α) = .ok b ↔ False := by
  simp [throw, throwThe, MonadExceptOf.throw]

@[simp] theorem mapError_eq_ok {ε' : Type} {x : Except ε α} {f : ε → ε'} {a : α} :
    x.mapError f = .ok a ↔ x = .ok a := by
  cases x <;> simp [Except.mapError]

theorem bind_eq_error {x : Except ε α} {f : α → Except ε β} {e : ε} :
    x >>= f = .error e ↔ x = .error e ∨ ∃ a, x = .ok a ∧ f a = .error e := by
  cases x with
  | error e => simp [bind, Except.bind]
  | ok a => simp [bind, Except.bind]

theorem map_eq_error {x : Except ε α} {f : α → β} {e : ε} : f <$> x = .error e ↔ x = .error e := by
  cases x with
  | error e => simp [Functor.map, Except.map]
  | ok a => simp [Functor.map, Except.map]

theorem ok_bind (a : α) (f : α → Except ε β) : Except.ok a >>= f = f a := rfl

/-- A computation of which the result has been checked. -/
theorem exists_of_toOption_any {x : Except ε α} {p : α → Bool} (h : x.toOption.any p = true) :
    ∃ a, x = .ok a ∧ p a = true := by
  cases x with
  | ok a => exact ⟨a, rfl, h⟩
  | error e => simp [Except.toOption] at h

theorem exists_of_toOption_isSome {x : Except ε α} (h : x.toOption.isSome = true) :
    ∃ a, x = .ok a := by
  cases x with
  | ok a => exact ⟨a, rfl⟩
  | error e => simp [Except.toOption] at h

end Except

namespace List

variable {ε α β : Type}

theorem mapM_eq_ok {f : α → Except ε β} {l : List α} {bs : List β} :
    l.mapM f = .ok bs ↔ Forall₂ (fun a b => f a = .ok b) l bs := by
  induction l generalizing bs with
  | nil =>
    rw [mapM_nil, Except.pure_eq_ok, forall₂_nil_left_iff]
    exact eq_comm
  | cons a l ih =>
    simp only [mapM_cons, Except.bind_eq_ok, ih, Except.pure_eq_ok, forall₂_cons_left_iff]
    constructor
    · rintro ⟨b, hb, rest, hrest, rfl⟩
      exact ⟨b, rest, hb, hrest, rfl⟩
    · rintro ⟨b, rest, hb, hrest, rfl⟩
      exact ⟨b, hb, rest, hrest, rfl⟩

theorem mapM_eq_some {f : α → Option β} {l : List α} {bs : List β} :
    l.mapM f = some bs ↔ Forall₂ (fun a b => f a = some b) l bs := by
  induction l generalizing bs with
  | nil =>
    rw [mapM_nil, Option.pure_def, Option.some.injEq, forall₂_nil_left_iff]
    exact eq_comm
  | cons a l ih =>
    simp only [mapM_cons, Option.bind_eq_bind, Option.bind_eq_some_iff, ih, Option.pure_def,
      Option.some.injEq, forall₂_cons_left_iff]
    constructor
    · rintro ⟨b, hb, rest, hrest, rfl⟩
      exact ⟨b, rest, hb, hrest, rfl⟩
    · rintro ⟨b, rest, hb, hrest, rfl⟩
      exact ⟨b, hb, rest, hrest, rfl⟩

theorem forM_eq_ok {f : α → Except ε PUnit} {l : List α} :
    l.forM f = .ok () ↔ ∀ a ∈ l, f a = .ok () := by
  induction l with
  | nil => simp [List.forM]
  | cons a l ih =>
    change (f a >>= fun _ => l.forM f) = _ ↔ _
    simp only [Except.bind_eq_ok, ih, mem_cons, forall_eq_or_imp]
    exact ⟨fun ⟨_, ha, hl⟩ => ⟨ha, hl⟩, fun ⟨ha, hl⟩ => ⟨_, ha, hl⟩⟩

theorem exists_of_mapM_eq_error {f : α → Except ε β} {l : List α} {e : ε} (h : l.mapM f = .error e) :
    ∃ a ∈ l, f a = .error e := by
  induction l with
  | nil => exact nomatch h
  | cons a l ih =>
    rw [mapM_cons, Except.bind_eq_error] at h
    obtain h | ⟨b, -, h⟩ := h
    · exact ⟨a, mem_cons_self, h⟩
    · obtain h | ⟨bs, -, h⟩ := Except.bind_eq_error.1 h
      · obtain ⟨x, hx, h⟩ := ih h
        exact ⟨x, mem_cons_of_mem a hx, h⟩
      · exact nomatch h

theorem exists_of_forM_eq_error {f : α → Except ε Unit} {l : List α} {e : ε}
    (h : l.forM f = .error e) : ∃ a ∈ l, f a = .error e := by
  induction l with
  | nil => exact nomatch h
  | cons a l ih =>
    change (f a >>= fun _ => l.forM f) = _ at h
    obtain h | ⟨-, -, h⟩ := Except.bind_eq_error.1 h
    · exact ⟨a, mem_cons_self, h⟩
    · obtain ⟨x, hx, h⟩ := ih h
      exact ⟨x, mem_cons_of_mem a hx, h⟩

/-- A property of the accumulator that every step of a fold keeps holds at its end. -/
theorem foldlM_invariant {f : β → α → Except ε β} (P : β → Prop) {l : List α}
    (step : ∀ a ∈ l, ∀ b b', P b → f b a = .ok b' → P b') {b b' : β} (hb : P b)
    (h : l.foldlM f b = .ok b') : P b' := by
  induction l generalizing b with
  | nil =>
    simp only [foldlM_nil, Except.pure_eq_ok] at h
    exact h ▸ hb
  | cons a l ih =>
    simp only [foldlM_cons, Except.bind_eq_ok] at h
    obtain ⟨c, hc, h⟩ := h
    exact ih (fun x hx => step x (mem_cons_of_mem a hx)) (step a mem_cons_self b c hb hc) h

/-- A fold that fails does so in one of its steps. -/
theorem exists_of_foldlM_eq_error {f : β → α → Except ε β} (P : β → Prop) {l : List α}
    (step : ∀ a ∈ l, ∀ b b', P b → f b a = .ok b' → P b') {b : β} {e : ε} (hb : P b)
    (h : l.foldlM f b = .error e) : ∃ a ∈ l, ∃ b, P b ∧ f b a = .error e := by
  induction l generalizing b with
  | nil => exact nomatch h
  | cons a l ih =>
    rw [foldlM_cons, Except.bind_eq_error] at h
    obtain h | ⟨c, hc, h⟩ := h
    · exact ⟨a, mem_cons_self, b, hb, h⟩
    · obtain ⟨x, hx, d, hd, h⟩ :=
        ih (fun x hx => step x (mem_cons_of_mem a hx)) (step a mem_cons_self b c hb hc) h
      exact ⟨x, mem_cons_of_mem a hx, d, hd, h⟩

/-- What every step of a fold that has gone well so far comes to, the fold comes to. -/
theorem foldlM_result {f : β → α → Except ε β} (P : Except ε β → Prop) {l : List α} {b : β}
    (hb : P (.ok b)) (step : ∀ a ∈ l, ∀ b, P (.ok b) → P (f b a)) : P (l.foldlM f b) := by
  induction l generalizing b with
  | nil => exact hb
  | cons a l ih =>
    rw [foldlM_cons]
    have ha := step a mem_cons_self b hb
    cases hstep : f b a with
    | error e =>
      rw [hstep] at ha
      exact ha
    | ok c =>
      rw [hstep] at ha
      exact ih ha fun x hx => step x (mem_cons_of_mem a hx)

/-- What the step for an element achieves, and later steps keep, holds at the end of a fold. -/
theorem foldlM_reaches {f : β → α → Except ε β} (P : β → Prop) (Q : α → β → Prop) {l : List α}
    (step : ∀ a ∈ l, ∀ b b', P b → f b a = .ok b' → P b' ∧ Q a b')
    (keep : ∀ a ∈ l, ∀ x b b', P b → Q x b → f b a = .ok b' → Q x b') {b b' : β} (hb : P b)
    (h : l.foldlM f b = .ok b') : ∀ a ∈ l, Q a b' := by
  induction l generalizing b with
  | nil => simp
  | cons a l ih =>
    simp only [foldlM_cons, Except.bind_eq_ok] at h
    obtain ⟨c, hc, h⟩ := h
    obtain ⟨hPc, hQc⟩ := step a mem_cons_self b c hb hc
    have keep' := fun x hx => keep x (mem_cons_of_mem a hx)
    simp only [mem_cons, forall_eq_or_imp]
    refine ⟨?_, ih (fun x hx => step x (mem_cons_of_mem a hx)) keep' hPc h⟩
    refine (foldlM_invariant (fun b => P b ∧ Q a b) (fun x hx d d' hd hf => ?_) ⟨hPc, hQc⟩ h).2
    exact ⟨(step x (mem_cons_of_mem a hx) d d' hd.1 hf).1, keep' x hx a d d' hd.1 hd.2 hf⟩

theorem forall₂_dropLast {R : α → β → Prop} {l : List α} {l' : List β} (h : Forall₂ R l l') :
    Forall₂ R l.dropLast l'.dropLast := by
  induction h with
  | nil => exact .nil
  | cons hab hl ih =>
    cases hl with
    | nil => exact .nil
    | cons _ _ => exact .cons hab ih

theorem forall_mem_of_forall₂ {R : α → β → Prop} {P : α → Prop} {Q : β → Prop} {l : List α}
    {l' : List β} (h : Forall₂ R l l') (hR : ∀ a b, R a b → P a → Q b) (hP : ∀ a ∈ l, P a) :
    ∀ b ∈ l', Q b := by
  induction h with
  | nil => simp
  | cons hab _ ih =>
    simp only [mem_cons, forall_eq_or_imp] at hP ⊢
    exact ⟨hR _ _ hab hP.1, ih hP.2⟩

/-- Two lists that are compared with a third one are compared with each other. -/
theorem forall₂_merge {γ : Type} {R : α → β → Prop} {Q : α → γ → Prop} {S : β → γ → Prop} {l : List α}
    {bs : List β} {cs : List γ} (h : Forall₂ R l bs) (h' : Forall₂ Q l cs)
    (hS : ∀ a b c, R a b → Q a c → S b c) : Forall₂ S bs cs := by
  induction h generalizing cs with
  | nil =>
    cases h' with
    | nil => exact .nil
  | cons hR _ ih =>
    cases h' with
    | cons hQ hrest => exact .cons (hS _ _ _ hR hQ) (ih hrest)

theorem map_eq_map_of_forall₂ {γ : Type} {R : α → β → Prop} {l : List α} {l' : List β}
    (h : Forall₂ R l l') {f : α → γ} {g : β → γ} (hR : ∀ a b, R a b → g b = f a) :
    l'.map g = l.map f := by
  induction h with
  | nil => rfl
  | cons hab _ ih => simp [hR _ _ hab, ih]

end List
