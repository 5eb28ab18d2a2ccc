import CellCompiler.Dict
import Mathlib.Data.List.Nodup

/-!
# Lookup in ordered tables

What a table holds after an entry, and how lookup and the list of entries are related when every
name occurs once.
-/

namespace CellCompiler

namespace Dict

variable {α : Type} {d : Dict α} {name other : String} {value : α}

theorem lookup_put (entries : List (String × α)) :
    (put name value entries).lookup other =
      if other = name then some value else entries.lookup other := by
  induction entries with
  | nil =>
    by_cases h : other = name
    · simp [put, h]
    · simp [put, List.lookup_cons, h, beq_false_of_ne h]
  | cons p rest ih =>
    obtain ⟨k, v⟩ := p
    by_cases hk : k = name
    · subst hk
      by_cases h : other = k
      · simp [put, h]
      · simp [put, List.lookup_cons, h, beq_false_of_ne h]
    · by_cases h : other = k
      · subst h
        simp [put, hk]
      · simp [put, hk, List.lookup_cons, beq_false_of_ne h, ih]

/-- Entering a name changes the answer for that name only. -/
@[simp] theorem get?_insert :
    (d.insert name value).get? other = if other = name then some value else d.get? other :=
  lookup_put d.entries

@[simp] theorem get?_empty : (empty : Dict α).get? name = none := rfl

theorem get?_insertNew {x : String} :
    (d.insertNew name value).get? x = (d.get? x).or (if x = name then some value else none) := by
  unfold insertNew
  split
  next h =>
    by_cases hx : x = name
    · subst hx
      cases hget : d.get? x with
      | none => simp [contains, hget] at h
      | some v => simp
    · simp [hx]
  next h =>
    by_cases hx : x = name
    · simp [get?, List.lookup_append, hx]
    · have hbeq : (x == name) = false := by simpa using hx
      simp [get?, List.lookup_append, List.lookup_cons, hx, hbeq]

theorem contains_eq_true_iff : d.contains name = true ↔ ∃ v, d.get? name = some v := by
  rw [contains, Option.isSome_iff_exists]

theorem contains_eq_false_iff : d.contains name = false ↔ d.get? name = none := by
  simp [contains]

theorem mem_keys_iff : name ∈ d.keys ↔ ∃ v, d.get? name = some v := by
  rw [← Option.isSome_iff_exists, get?, List.lookup_isSome_iff, keys]
  simp only [List.mem_map, beq_iff_eq]
  exact ⟨fun ⟨p, hp, h⟩ => ⟨p, hp, h.symm⟩, fun ⟨p, hp, h⟩ => ⟨p, hp, h.symm⟩⟩

theorem mem_entries_of_get? (h : d.get? name = some value) : (name, value) ∈ d.entries := by
  obtain ⟨before, after, hd, -⟩ := List.lookup_eq_some_iff.1 h
  simp [hd]

theorem mem_values_of_get? (h : d.get? name = some value) : value ∈ d.values :=
  List.mem_map.2 ⟨(name, value), mem_entries_of_get? h, rfl⟩

theorem get?_of_mem_entries (hd : d.keys.Nodup) (h : (name, value) ∈ d.entries) :
    d.get? name = some value := by
  obtain ⟨before, after, hsplit⟩ := List.append_of_mem h
  refine List.lookup_eq_some_iff.2 ⟨before, after, hsplit, fun p hp => ?_⟩
  -- a second entry of the name in front would repeat a key
  rw [keys, hsplit, List.map_append, List.nodup_append] at hd
  have hne := hd.2.2 p.1 (List.mem_map_of_mem hp) name (by simp)
  simpa using Ne.symm hne

theorem keys_put (entries : List (String × α)) :
    (put name value entries).map Prod.fst =
      if name ∈ entries.map Prod.fst then entries.map Prod.fst
      else entries.map Prod.fst ++ [name] := by
  induction entries with
  | nil => simp [put]
  | cons p rest ih =>
    obtain ⟨k, v⟩ := p
    simp only [put]
    by_cases hk : k = name
    · simp [hk]
    · have hk' : ¬ name = k := fun h => hk h.symm
      simp only [hk, ↓reduceIte, List.map_cons, ih, List.mem_cons, hk', false_or]
      split_ifs <;> simp

theorem keys_insert : (d.insert name value).keys = if name ∈ d.keys then d.keys
    else d.keys ++ [name] := keys_put d.entries

theorem nodup_keys_insert (hd : d.keys.Nodup) : (d.insert name value).keys.Nodup := by
  rw [keys_insert]
  split_ifs with h
  · exact hd
  · exact hd.append (List.nodup_singleton name) (by simpa using h)

theorem nodup_keys_insertNew (hd : d.keys.Nodup) : (d.insertNew name value).keys.Nodup := by
  unfold insertNew
  split
  · exact hd
  · next hnew =>
    have hname : name ∉ d.keys := by
      rw [mem_keys_iff, ← contains_eq_true_iff]
      exact hnew
    rw [keys, List.map_append]
    exact hd.append (List.nodup_singleton name) (by simpa [keys] using hname)

theorem size_le_insert : d.size ≤ (d.insert name value).size := by
  have h : d.keys.length ≤ (d.insert name value).keys.length := by
    rw [keys_insert]
    split_ifs <;> simp
  simpa [keys, size] using h

theorem get?_ofList {pairs : List (String × α)}
    (hmem : (name, value) ∈ pairs) (hunique : ∀ other, (name, other) ∈ pairs → other = value) :
    (ofList pairs).get? name = some value := by
  have hfold : ∀ (d : Dict α), d.get? name = some value ∨ (name, value) ∈ pairs →
      (pairs.foldl (fun d p => d.insert p.1 p.2) d).get? name = some value := by
    clear hmem
    induction pairs with
    | nil => simp
    | cons p pairs ih =>
      intro d hd
      have hrest : ∀ other, (name, other) ∈ pairs → other = value :=
        fun other hother => hunique other (List.mem_cons_of_mem p hother)
      rw [List.foldl_cons]
      refine ih hrest _ ?_
      rw [get?_insert]
      by_cases hp : name = p.1
      · have hvalue : p.2 = value := hunique p.2 (by simp [hp])
        exact .inl (by rw [if_pos hp, hvalue])
      · rw [if_neg hp]
        refine hd.imp_right fun hmem => (List.mem_cons.1 hmem).resolve_left ?_
        rintro rfl
        exact hp rfl
  exact hfold .empty (.inr hmem)

theorem exists_get?_ofList {pairs : List (String × α)} (h : name ∈ pairs.map Prod.fst) :
    ∃ value, (ofList pairs).get? name = some value := by
  have hfold : ∀ (d : Dict α), (∃ value, d.get? name = some value) ∨ name ∈ pairs.map Prod.fst →
      ∃ value, (pairs.foldl (fun d p => d.insert p.1 p.2) d).get? name = some value := by
    clear h
    induction pairs with
    | nil => simp
    | cons p pairs ih =>
      intro d hd
      refine ih _ ?_
      by_cases hname : name = p.1
      · exact .inl ⟨p.2, by simp [hname]⟩
      · simpa [hname] using hd
  exact hfold .empty (.inr h)

theorem mem_of_get?_ofList {pairs : List (String × α)} (h : (ofList pairs).get? name = some value) :
    (name, value) ∈ pairs := by
  have hfold : ∀ (d : Dict α), (pairs.foldl (fun d p => d.insert p.1 p.2) d).get? name = some value →
      d.get? name = some value ∨ (name, value) ∈ pairs := by
    clear h
    induction pairs with
    | nil => simp
    | cons p pairs ih =>
      intro d hd
      rw [List.foldl_cons] at hd
      rcases ih _ hd with hget | hmem
      · rw [get?_insert] at hget
        by_cases hp : name = p.1
        · obtain rfl : p.2 = value := by simpa [hp] using hget
          exact .inr (by simp [hp])
        · exact .inl (by simpa [hp] using hget)
      · exact .inr (List.mem_cons_of_mem p hmem)
  exact (hfold .empty h).resolve_left (by simp)

end Dict

end CellCompiler
