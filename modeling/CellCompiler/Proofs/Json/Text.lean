import CellCompiler.Json.Parser
import CellCompiler.Json.Printer
import CellCompiler.Proofs.Bag.Bytes
import CellCompiler.Proofs.Numeral

/-!
# JSON text is read back

`Json.Plain` are the values that a text spells as they are. Both printers write one text up to blanks
between tokens, so the printer `Spacing.text` takes the blanks as a parameter.

* `stringTail?_escaped`, `number?_repr` read strings and integers back;
* `Json.cut` is what a reader makes of a value for which it has room to a certain depth, and
  `cut_eq_self_iff` says that it keeps exactly the values that are not deeper;
* `Spacing.isRead` reads a value back in front of whatever may follow it, as deep as there is room;
* `parse?_compact` and `parse?_pretty` are the results for whole texts.
-/

namespace CellCompiler

namespace Json

/-- The value has no part whose text would say something else: no number with a fraction or an
exponent, no integer beyond sixty-four bits, and nothing that cannot be read. -/
inductive Plain : Json → Prop where
  | null : Plain null
  | bool (value : Bool) : Plain (bool value)
  | int {value : Int} (small : value.natAbs < UInt64.size) : Plain (int value)
  | str (text : String) : Plain (str text)
  | arr {items : List Json} (plain : ∀ j ∈ items, Plain j) : Plain (arr items)
  | obj {members : List (String × Json)} (plain : ∀ m ∈ members, Plain m.2) : Plain (obj members)

attribute [simp] Plain.null Plain.bool Plain.str

@[simp] theorem plain_int_iff {v : Int} : Plain (int v) ↔ v.natAbs < UInt64.size :=
  ⟨fun h => by cases h; assumption, .int⟩

theorem plain_arr_iff {items : List Json} : Plain (arr items) ↔ ∀ j ∈ items, Plain j :=
  ⟨fun h => by cases h; assumption, .arr⟩

theorem plain_obj_iff {members : List (String × Json)} :
    Plain (obj members) ↔ ∀ m ∈ members, Plain m.2 :=
  ⟨fun h => by cases h; assumption, .obj⟩

@[simp] theorem plain_arr_nil : Plain (arr []) := .arr (by simp)

@[simp] theorem plain_arr_cons {j : Json} {js : List Json} :
    Plain (arr (j :: js)) ↔ Plain j ∧ Plain (arr js) := by
  simp [plain_arr_iff]

@[simp] theorem plain_obj_nil : Plain (obj []) := .obj (by simp)

@[simp] theorem plain_obj_cons {m : String × Json} {ms : List (String × Json)} :
    Plain (obj (m :: ms)) ↔ Plain m.2 ∧ Plain (obj ms) := by
  simp [plain_obj_iff]

/-! ### Blanks -/

/-- The characters are blanks. -/
def AllBlank (cs : List Char) : Prop := ∀ c ∈ cs, isBlank c = true

theorem skipBlanks_append {blanks : List Char} (h : AllBlank blanks) (rest : List Char) :
    skipBlanks (blanks ++ rest) = skipBlanks rest :=
  List.dropWhile_append_of_pos h

theorem skipBlanks_cons {c : Char} (h : isBlank c = false) (rest : List Char) :
    skipBlanks (c :: rest) = c :: rest := by
  simp [skipBlanks, h]

theorem value?_skip {blanks : List Char} (h : AllBlank blanks) (fuel depth : Nat)
    (rest : List Char) : value? fuel depth (blanks ++ rest) = value? fuel depth rest := by
  cases fuel with
  | zero => rfl
  | succ fuel => simp only [value?, skipBlanks_append h]

theorem items?_skip {blanks : List Char} (h : AllBlank blanks) (fuel depth : Nat)
    (rest : List Char) : items? fuel depth (blanks ++ rest) = items? fuel depth rest := by
  cases fuel with
  | zero => rfl
  | succ fuel => simp only [items?, value?_skip h]

theorem members?_skip {blanks : List Char} (h : AllBlank blanks) (fuel depth : Nat)
    (rest : List Char) : members? fuel depth (blanks ++ rest) = members? fuel depth rest := by
  cases fuel with
  | zero => rfl
  | succ fuel => simp only [members?, skipBlanks_append h]

/-! ### Strings -/

/-- The piece that the escaped form of a character is read as. -/
def pieceOf (c : Char) : Piece :=
  if c.toNat < 0x20 ∧ c ∉ ['\n', '\r', '\t', '\x08', '\x0c'] then .unit c.toNat else .char c

/-- The text of a string after its opening quote, but for the closing one. -/
def escaped (text : List Char) : List Char := text.flatMap fun c => (escapeChar c).toList

theorem toList_quote (text : String) : (quote text).toList = '"' :: escaped text.toList ++ ['"'] := by
  have hfold : ∀ (cs : List Char) (acc : String),
      (cs.foldl (fun acc c => acc ++ escapeChar c) acc).toList = acc.toList ++ escaped cs := by
    intro cs
    induction cs with
    | nil => simp [escaped]
    | cons c cs ih => simp [ih, escaped]
  rw [quote, String.toList_append, String.foldl_eq_foldl_toList, hfold]
  rfl

theorem hex4?_control {n : Nat} (h : n < 0x20) :
    hex4? '0' '0' (Hex.digit (n / 16)) (Hex.digit (n % 16)) = some n := by
  revert n
  decide

theorem stringTail?_escapeChar (c : Char) (rest : List Char) :
    stringTail? ((escapeChar c).toList ++ rest) =
      (stringTail? rest).map fun (pieces, rest) => (pieceOf c :: pieces, rest) := by
  by_cases hquote : c = '"'
  · subst hquote; rfl
  by_cases hslash : c = '\\'
  · subst hslash; rfl
  by_cases hnewline : c = '\n'
  · subst hnewline; rfl
  by_cases hreturn : c = '\r'
  · subst hreturn; rfl
  by_cases htab : c = '\t'
  · subst htab; rfl
  by_cases hback : c = '\x08'
  · subst hback; rfl
  by_cases hfeed : c = '\x0c'
  · subst hfeed; rfl
  rw [escapeChar, if_neg hquote, if_neg hslash, if_neg hnewline, if_neg hreturn, if_neg htab, if_neg hback,
    if_neg hfeed]
  by_cases hcontrol : c.toNat < 0x20
  · -- the remaining control characters are spelled by their numbers
    rw [if_pos hcontrol]
    have hbyte : (UInt8.ofNat c.toNat).toNat = c.toNat := by
      rw [UInt8.toNat_ofNat']
      omega
    have hlist : ("\\u00" ++ Hex.encode [UInt8.ofNat c.toNat]).toList ++ rest =
        '\\' :: 'u' :: '0' :: '0' :: Hex.digit (c.toNat / 16) :: Hex.digit (c.toNat % 16) :: rest := by
      simp [Hex.encode, Hex.byte, hbyte]
    have hpiece : pieceOf c = .unit c.toNat := by
      simp [pieceOf, hcontrol, hnewline, hreturn, htab, hback, hfeed]
    rw [hlist, stringTail?, hex4?_control hcontrol, hpiece]
  · have hpiece : pieceOf c = .char c := if_neg fun h => hcontrol h.1
    rw [if_neg hcontrol, hpiece, Char.toString, String.toList_singleton, List.singleton_append, stringTail?.eq_def]
    split <;> simp_all

theorem stringTail?_escaped (text rest : List Char) :
    stringTail? (escaped text ++ '"' :: rest) = some (text.map pieceOf, rest) := by
  induction text with
  | nil => rfl
  | cons c text ih =>
    have hcons : escaped (c :: text) = (escapeChar c).toList ++ escaped text := rfl
    rw [hcons, List.append_assoc, stringTail?_escapeChar, ih]
    rfl

theorem chars?_unit {n : Nat} (h : n < 0x20) (pieces : List Piece) :
    chars? (.unit n :: pieces) = (chars? pieces).map (Char.ofNat n :: ·) := by
  have hhigh : isHighUnit n = false := by simp [isHighUnit]; omega
  have hlow : isLowUnit n = false := by simp [isLowUnit]; omega
  have hunit : unitChar? n = some (Char.ofNat n) := by simp [unitChar?, hhigh, hlow]
  rw [chars?.eq_def]
  split <;> simp_all <;> cases chars? _ <;> rfl

theorem text?_pieces (text : String) : text? (text.toList.map pieceOf) = some text := by
  have hchars : ∀ cs : List Char, chars? (cs.map pieceOf) = some cs := by
    intro cs
    induction cs with
    | nil => rfl
    | cons c cs ih =>
      rw [List.map_cons, pieceOf]
      split
      · next h => simp [chars?_unit h.1, ih]
      · simp [chars?, ih]
  rw [text?, hchars, Option.map_some, String.ofList_toList]

/-! ### Integers -/

/-- What follows does not go on with the number in front of it. -/
def EndsNumber (rest : List Char) : Prop :=
  ∀ c cs, rest = c :: cs → c.isDigit = false ∧ c ≠ '.' ∧ c ≠ 'e' ∧ c ≠ 'E'

theorem EndsNumber.nil : EndsNumber [] := by
  rintro c cs ⟨⟩

theorem EndsNumber.cons {c : Char} {cs : List Char}
    (h : c.isDigit = false ∧ c ≠ '.' ∧ c ≠ 'e' ∧ c ≠ 'E') : EndsNumber (c :: cs) := by
  rintro _ _ ⟨⟩
  exact h

theorem digits_append {ds rest : List Char} (hds : ∀ c ∈ ds, c.isDigit = true)
    (hrest : EndsNumber rest) : digits (ds ++ rest) = (ds, rest) := by
  have hstop : rest.takeWhile Char.isDigit = [] ∧ rest.dropWhile Char.isDigit = rest := by
    cases rest with
    | nil => simp
    | cons c cs => simp [(hrest c cs rfl).1]
  rw [digits, List.span_eq_takeWhile_dropWhile, List.takeWhile_append_of_pos hds,
    List.dropWhile_append_of_pos hds, hstop.1, hstop.2, List.append_nil]

/-- No zero stands in front of the digits of a number. -/
theorem toDigits_ne_zero_cons (n : Nat) (d : Char) (ds : List Char) :
    Nat.toDigits 10 n ≠ '0' :: d :: ds := by
  induction n using Nat.strongRecOn generalizing d ds with
  | ind n ih =>
    rw [Nat.toDigits_eq_if (by decide)]
    split
    · simp
    · next hn =>
      have hdiv : 0 < n / 10 := by omega
      intro h
      rcases hfirst : Nat.toDigits 10 (n / 10) with _ | ⟨a, _ | ⟨b, more⟩⟩
      · exact Nat.toDigits_ne_nil hfirst
      · -- a single digit in front is that of a number below ten, and not zero
        rw [hfirst] at h
        obtain rfl : a = '0' := by simpa using congrArg List.head? h
        have hvalue := Nat.ofDigitChars_ten_toDigits (n := n / 10)
        rw [hfirst] at hvalue
        simp [Nat.ofDigitChars] at hvalue
        omega
      · rw [hfirst] at h
        obtain rfl : a = '0' := by simpa using congrArg List.head? h
        exact ih (n / 10) (by omega) b more hfirst

theorem wholePart?_toDigits (n : Nat) {rest : List Char} (hrest : EndsNumber rest) :
    wholePart? (Nat.toDigits 10 n ++ rest) = some (Nat.toDigits 10 n, rest) := by
  have hdigits : ∀ c ∈ Nat.toDigits 10 n, c.isDigit = true := fun c hc =>
    Nat.isDigit_of_mem_toDigits (by decide) (by decide) hc
  rw [wholePart?, digits_append hdigits hrest]
  split
  · next h => exact absurd (congrArg Prod.fst h) Nat.toDigits_ne_nil
  · next h => exact absurd (congrArg Prod.fst h) (toDigits_ne_zero_cons n _ _)
  · rfl

theorem fraction?_absent {rest : List Char} (hrest : EndsNumber rest) :
    fraction? rest = some ([], rest) := by
  unfold fraction?
  split
  · exact absurd rfl (hrest _ _ rfl).2.1
  · rfl

theorem exponent?_absent {rest : List Char} (hrest : EndsNumber rest) :
    exponent? rest = some ([], [], rest) := by
  cases rest with
  | nil => rfl
  | cons c cs => simp [exponent?, (hrest c cs rfl).2.2]

theorem append_of_small {ds : List Char} {n : Nat}
    (h : Nat.ofDigitChars 10 ds n < UInt64.size) :
    Magnitude.append n ds = (Nat.ofDigitChars 10 ds n, 0) := by
  induction ds generalizing n with
  | nil => rfl
  | cons c ds ih =>
    rw [Nat.ofDigitChars_cons] at h ⊢
    have hnext : 10 * n + (c.toNat - '0'.toNat) < UInt64.size :=
      Nat.lt_of_le_of_lt (Numeral.le_ofDigitChars ds _) h
    rw [Magnitude.append]
    exact (if_pos hnext).trans (ih h)

theorem nearest_le (n : Nat) : Magnitude.nearest n ≤ 2 * n := by
  by_cases hn : Bits.bitLength n ≤ Magnitude.precision
  · rw [Magnitude.nearest_eq_self hn]
    omega
  · have hzero : n ≠ 0 := by
      rintro rfl
      exact hn (Nat.zero_le _)
    have hunit : Bits.twoPow (Bits.bitLength n - Magnitude.precision) ≤ n := by
      have hexponent : Bits.bitLength n - Magnitude.precision ≤ n.log2 := by
        simp only [Bits.bitLength, if_neg hzero, Magnitude.precision]
        omega
      exact (Nat.pow_le_pow_right (by decide) hexponent).trans (Nat.log2_self_le hzero)
    unfold Magnitude.nearest
    generalize Bits.twoPow (Bits.bitLength n - Magnitude.precision) = unit at hunit ⊢
    have hdiv : n / unit * unit ≤ n := Nat.div_mul_le_self n unit
    simp only
    split
    · rw [Nat.add_mul, Nat.one_mul]
      omega
    · omega

theorem isTooLarge_of_small {n : Nat} (h : n < UInt64.size) :
    Magnitude.isTooLarge ⟨n, 0⟩ = false := by
  have hone : Magnitude.nearest (Nat.pow 10 0) = 1 := Magnitude.nearest_eq_self (by decide)
  have hoverflow : 2 * UInt64.size ≤ Magnitude.overflow := by decide +kernel
  have hnearest := nearest_le n
  have hlt : ¬ Magnitude.overflow ≤ Magnitude.nearest n := by omega
  unfold Magnitude.isTooLarge
  simp only [Nat.zero_le, if_true, hone, Nat.mul_one, hlt, decide_false]

theorem isTooLarge_toDigits {n : Nat} (h : n < UInt64.size) :
    (Magnitude.ofDigits (Nat.toDigits 10 n) [] 0).isTooLarge = false := by
  have hn : Nat.ofDigitChars 10 (Nat.toDigits 10 n) 0 = n := Nat.ofDigitChars_ten_toDigits
  have happend := append_of_small (n := 0) (hn.symm ▸ h)
  rw [hn] at happend
  have hmagnitude : Magnitude.ofDigits (Nat.toDigits 10 n) [] 0 = ⟨n, 0⟩ := by
    simp [Magnitude.ofDigits, happend, Magnitude.append]
  rw [hmagnitude, isTooLarge_of_small h]

/-- An integer starts with a sign or a digit. -/
theorem exists_repr_cons (v : Int) :
    ∃ c cs, v.repr.toList = c :: cs ∧ (c = '-' ∨ c.isDigit = true) := by
  cases v with
  | ofNat n =>
    obtain ⟨d, ds, hds⟩ := List.exists_cons_of_ne_nil (Nat.toDigits_ne_nil (n := n) (b := 10))
    have hdigit := Nat.isDigit_of_mem_toDigits (b := 10) (n := n) (c := d) (by decide) (by decide)
      (by simp [hds])
    exact ⟨d, ds, by rw [Int.repr, Nat.toList_repr, hds], .inr hdigit⟩
  | negSucc n => exact ⟨'-', n.succ.repr.toList, by simp [Int.repr], .inl rfl⟩

theorem number?_repr {v : Int} {rest : List Char} (hv : v.natAbs < UInt64.size)
    (hrest : EndsNumber rest) : number? (v.repr.toList ++ rest) = some (int v, rest) := by
  have hvalue (n : Nat) : natOfDigits (Nat.toDigits 10 n) = n := Nat.ofDigitChars_ten_toDigits
  have hnone : natOfDigits [] = 0 := rfl
  cases v with
  | ofNat n =>
    obtain ⟨d, ds, hds⟩ := List.exists_cons_of_ne_nil (Nat.toDigits_ne_nil (n := n) (b := 10))
    have hminus : d ≠ '-' := by
      rintro rfl
      have hdigit := Nat.isDigit_of_mem_toDigits (b := 10) (n := n) (c := '-') (by decide)
        (by decide) (by simp [hds])
      simp [Char.isDigit] at hdigit
    have hwhole := wholePart?_toDigits n hrest
    have hfits := isTooLarge_toDigits (n := n) hv
    have hspelled := hvalue n
    rw [hds] at hwhole hfits hspelled
    rw [List.cons_append] at hwhole
    simp only [Int.repr, Nat.toList_repr, hds, List.cons_append]
    simp [number?, hminus, hwhole, fraction?_absent hrest, exponent?_absent hrest, hspelled, hnone,
      hfits]
  | negSucc n =>
    have hfits := isTooLarge_toDigits (n := n + 1) hv
    simp [number?, Int.repr, wholePart?_toDigits _ hrest, fraction?_absent hrest,
      exponent?_absent hrest, hvalue, hnone, hfits, Int.negSucc_eq]

/-! ### Depth -/

mutual

/-- What a reader makes of a value that has room for this depth: parts that lie deeper cannot be read. -/
def cut (depth : Nat) : Json → Json
  | arr items => bounded depth (arr (cutItems (depth - 1) items))
  | obj members => bounded depth (obj (cutMembers (depth - 1) members))
  | j => j

/-- What a reader makes of items. -/
def cutItems (depth : Nat) : List Json → List Json
  | [] => []
  | j :: js => j.cut depth :: cutItems depth js

/-- What a reader makes of members. -/
def cutMembers (depth : Nat) : List (String × Json) → List (String × Json)
  | [] => []
  | (name, j) :: rest => (name, j.cut depth) :: cutMembers depth rest

end

mutual

/-- A value for which there is room is kept. -/
theorem cut_of_depth_le : (j : Json) → (depth : Nat) → j.depth ≤ depth → j.cut depth = j
  | .arr items, depth, h => by
    rw [Json.depth] at h
    have hbound : depth ≠ 0 := by omega
    rw [cut, bounded, if_neg hbound, cutItems_of_depth_le items (depth - 1) (by omega)]
  | .obj members, depth, h => by
    rw [Json.depth] at h
    have hbound : depth ≠ 0 := by omega
    rw [cut, bounded, if_neg hbound, cutMembers_of_depth_le members (depth - 1) (by omega)]
  | .null, _, _ | .bool _, _, _ | .int _, _, _ | .decimal _, _, _ | .str _, _, _ | .unreadable, _, _ => by
    rw [cut] <;> nofun

theorem cutItems_of_depth_le : (js : List Json) → (depth : Nat) → depthItems js ≤ depth →
    cutItems depth js = js
  | [], _, _ => rfl
  | j :: js, depth, h => by
    rw [depthItems, Nat.max_le] at h
    rw [cutItems, cut_of_depth_le j depth h.1, cutItems_of_depth_le js depth h.2]

theorem cutMembers_of_depth_le : (ms : List (String × Json)) → (depth : Nat) →
    depthMembers ms ≤ depth → cutMembers depth ms = ms
  | [], _, _ => rfl
  | (name, j) :: ms, depth, h => by
    rw [depthMembers, Nat.max_le] at h
    rw [cutMembers, cut_of_depth_le j depth h.1, cutMembers_of_depth_le ms depth h.2]

end

mutual

theorem depth_cut_le : (j : Json) → (depth : Nat) → (j.cut depth).depth ≤ depth
  | .arr items, depth => by
    have hitems := depthItems_cutItems_le items (depth - 1)
    rw [cut, bounded]
    split
    · simp [Json.depth]
    · rw [Json.depth]
      omega
  | .obj members, depth => by
    have hmembers := depthMembers_cutMembers_le members (depth - 1)
    rw [cut, bounded]
    split
    · simp [Json.depth]
    · rw [Json.depth]
      omega
  | .null, _ | .bool _, _ | .int _, _ | .decimal _, _ | .str _, _ | .unreadable, _ => Nat.zero_le _

theorem depthItems_cutItems_le : (js : List Json) → (depth : Nat) →
    depthItems (cutItems depth js) ≤ depth
  | [], _ => Nat.zero_le _
  | j :: js, depth => Nat.max_le.2 ⟨depth_cut_le j depth, depthItems_cutItems_le js depth⟩

theorem depthMembers_cutMembers_le : (ms : List (String × Json)) → (depth : Nat) →
    depthMembers (cutMembers depth ms) ≤ depth
  | [], _ => Nat.zero_le _
  | (_, j) :: ms, depth => Nat.max_le.2 ⟨depth_cut_le j depth, depthMembers_cutMembers_le ms depth⟩

end

/-- Exactly the values for which there is room are kept. -/
theorem cut_eq_self_iff {j : Json} {depth : Nat} : j.cut depth = j ↔ j.depth ≤ depth :=
  ⟨fun h => h ▸ depth_cut_le j depth, cut_of_depth_le j depth⟩

/-! ### Values -/

/-- Where a printer puts blanks: in front of items and members at a level, and after colons. -/
structure Spacing where
  gap : Nat → List Char
  afterColon : List Char
  blank_gap : ∀ level, AllBlank (gap level)
  blank_afterColon : AllBlank afterColon

namespace Spacing

/-- No blanks. -/
def tight : Spacing where
  gap _ := []
  afterColon := []
  blank_gap _ := by simp [AllBlank]
  blank_afterColon := by simp [AllBlank]

/-- A line for each item and member. -/
def lines : Spacing where
  gap level := (newLine level).toList
  afterColon := [' ']
  blank_gap level c hc := by
    simp only [newLine, String.toList_append, String.toList_ofList, List.mem_append,
      List.mem_replicate] at hc
    rcases hc with hc | ⟨-, rfl⟩
    · obtain rfl : c = '\n' := by simpa using hc
      rfl
    · rfl
  blank_afterColon c hc := by
    obtain rfl : c = ' ' := by simpa using hc
    rfl

mutual

/-- The text of a value inside this many levels. -/
def text (s : Spacing) (level : Nat) : Json → List Char
  | arr [] => ['[', ']']
  | arr (j :: js) =>
    '[' :: (s.gap (level + 1) ++ s.text (level + 1) j ++ s.items (level + 1) js ++ s.gap level ++
      [']'])
  | obj [] => ['\x7b', '\x7d']
  | obj ((name, j) :: rest) =>
    '\x7b' :: (s.gap (level + 1) ++ (quote name).toList ++ ':' :: s.afterColon ++
      s.text (level + 1) j ++ s.members (level + 1) rest ++ s.gap level ++ ['\x7d'])
  | j => j.compact.toList

/-- Further items, each after a comma. -/
def items (s : Spacing) (level : Nat) : List Json → List Char
  | [] => []
  | j :: js => ',' :: s.gap level ++ s.text level j ++ s.items level js

/-- Further members, each after a comma. -/
def members (s : Spacing) (level : Nat) : List (String × Json) → List Char
  | [] => []
  | (name, j) :: rest =>
    ',' :: s.gap level ++ (quote name).toList ++ ':' :: s.afterColon ++ s.text level j ++
      s.members level rest

end

mutual

theorem toList_compact (level : Nat) : (j : Json) → j.compact.toList = tight.text level j
  | .arr [] => rfl
  | .arr (j :: js) => by
    simp [compact, text, toList_compact (level + 1) j, toList_compactItems (level + 1) js, tight]
  | .obj [] => rfl
  | .obj ((name, j) :: rest) => by
    simp [compact, text, toList_compact (level + 1) j, toList_compactMembers (level + 1) rest, tight]
  | .null | .bool _ | .int _ | .decimal _ | .str _ | .unreadable => by rw [text]; all_goals nofun

theorem toList_compactItems (level : Nat) : (js : List Json) →
    (compactItems js).toList = tight.items level js
  | [] => rfl
  | j :: js => by
    simp [compactItems, items, toList_compact level j, toList_compactItems level js, tight]

theorem toList_compactMembers (level : Nat) : (ms : List (String × Json)) →
    (compactMembers ms).toList = tight.members level ms
  | [] => rfl
  | (name, j) :: rest => by
    simp [compactMembers, members, toList_compact level j, toList_compactMembers level rest, tight]

end

mutual

theorem toList_prettyAt (level : Nat) : (j : Json) → (prettyAt level j).toList = lines.text level j
  | .arr [] => by rw [prettyAt, text]; rfl
  | .arr (j :: js) => by
    simp [prettyAt, text, toList_prettyAt (level + 1) j, toList_prettyItems (level + 1) js, lines]
  | .obj [] => by rw [prettyAt, text]; rfl
  | .obj ((name, j) :: rest) => by
    simp [prettyAt, text, toList_prettyAt (level + 1) j, toList_prettyMembers (level + 1) rest,
      lines]
  | .null | .bool _ | .int _ | .decimal _ | .str _ => by rw [text, prettyAt]; all_goals nofun
  | .unreadable => by
    rw [text, prettyAt]
    · rfl
    all_goals nofun

theorem toList_prettyItems (level : Nat) : (js : List Json) →
    (prettyItems level js).toList = lines.items level js
  | [] => rfl
  | j :: js => by
    simp [prettyItems, items, toList_prettyAt level j, toList_prettyItems level js, lines]

theorem toList_prettyMembers (level : Nat) : (ms : List (String × Json)) →
    (prettyMembers level ms).toList = lines.members level ms
  | [] => rfl
  | (name, j) :: rest => by
    simp [prettyMembers, members, toList_prettyAt level j, toList_prettyMembers level rest, lines]

end

/-! ### Reading -/

variable {s : Spacing}

theorem endsNumber_items {level : Nat} {rest : List Char} (hrest : EndsNumber rest) :
    (js : List Json) → EndsNumber (s.items level js ++ rest)
  | [] => hrest
  | j :: js => by
    rw [items]
    exact .cons (by decide)

theorem endsNumber_members {level : Nat} {rest : List Char} (hrest : EndsNumber rest) :
    (ms : List (String × Json)) → EndsNumber (s.members level ms ++ rest)
  | [] => hrest
  | (name, j) :: ms => by
    rw [members]
    exact .cons (by decide)

theorem endsNumber_gap {level : Nat} {c : Char} {rest : List Char}
    (h : c.isDigit = false ∧ c ≠ '.' ∧ c ≠ 'e' ∧ c ≠ 'E') :
    EndsNumber (s.gap level ++ c :: rest) := by
  cases hgap : s.gap level with
  | nil => exact .cons h
  | cons b blanks =>
    have hb := s.blank_gap level b (by simp [hgap])
    refine .cons ⟨?_, ?_, ?_, ?_⟩
    · simp only [isBlank, Bool.or_eq_true, decide_eq_true_eq] at hb
      rcases hb with ((rfl | rfl) | rfl) | rfl <;> rfl
    all_goals
      rintro rfl
      simp [isBlank] at hb

theorem ofMembers_named (name : String) (j : Json) (ms : List (String × Json)) :
    ofMembers ((some name, j) :: ms.map fun m => (some m.1, m.2)) = obj ((name, j) :: ms) := by
  have hall : ∀ ms : List (String × Json), (ms.map fun m => (some m.1, m.2)).mapM
      (fun m : Option String × Json => m.1.map (·, m.2)) = some ms := by
    intro ms
    induction ms with
    | nil => rfl
    | cons m ms ih => simp [List.mapM_cons, ih]
  have hmembers := hall ((name, j) :: ms)
  rw [List.map_cons] at hmembers
  simp only [ofMembers, hmembers]

/-- A text starts with a character that is neither a blank nor a closing bracket. -/
theorem exists_text_cons {j : Json} (h : j.Plain) (level : Nat) :
    ∃ c cs, s.text level j = c :: cs ∧ isBlank c = false ∧ c ≠ ']' := by
  cases h with
  | null => exact ⟨_, _, rfl, by decide, by decide⟩
  | bool b => cases b <;> exact ⟨_, _, rfl, by decide, by decide⟩
  | @int v small =>
    obtain ⟨c, cs, hcons, hc⟩ := exists_repr_cons v
    refine ⟨c, cs, by simp [text, compact, hcons], ?_, ?_⟩
    · simp only [isBlank, Bool.or_eq_false_iff, decide_eq_false_iff_not]
      refine ⟨⟨⟨?_, ?_⟩, ?_⟩, ?_⟩ <;> rintro rfl <;> simp [Char.isDigit] at hc
    · rintro rfl
      simp [Char.isDigit] at hc
  | str v =>
    refine ⟨'"', escaped v.toList ++ ['"'], ?_, by decide, by decide⟩
    simp [text, compact, toList_quote]
  | @arr items => cases items <;> exact ⟨_, _, by rw [text], by decide, by decide⟩
  | @obj members =>
    rcases members with _ | ⟨⟨name, j⟩, ms⟩ <;>
      exact ⟨_, _, by rw [text], by decide, by decide⟩

theorem exists_fuel {j : Json} {fuel level : Nat} (h : j.Plain)
    (hfuel : 2 * (s.text level j).length ≤ fuel) : ∃ n, fuel = n + 1 := by
  obtain ⟨c, cs, hcons, -⟩ := s.exists_text_cons h level
  rw [hcons, List.length_cons] at hfuel
  exact ⟨fuel - 1, by omega⟩

/-- The value is read back from its text in front of whatever ends it, as deep as there is room. -/
def IsRead (s : Spacing) (j : Json) : Prop :=
  ∀ (fuel depth level : Nat) (rest : List Char), 2 * (s.text level j).length ≤ fuel →
    EndsNumber rest → value? fuel depth (s.text level j ++ rest) = some (j.cut depth, rest)

theorem items?_items {j : Json} {js : List Json} {fuel depth level outer : Nat} {rest : List Char}
    (hj : s.IsRead j) (hjs : ∀ k ∈ js, s.IsRead k)
    (hfuel : 2 * ((s.text level j).length + (s.items level js).length) < fuel) :
    items? fuel depth (s.text level j ++ (s.items level js ++ (s.gap outer ++ ']' :: rest))) =
      some (cutItems depth (j :: js), rest) := by
  induction js generalizing j fuel with
  | nil =>
    obtain ⟨fuel, rfl⟩ := Nat.exists_eq_add_one_of_ne_zero (Nat.ne_zero_of_lt hfuel)
    have hvalue := hj fuel depth level (s.gap outer ++ ']' :: rest) (by omega)
      (s.endsNumber_gap (by decide))
    simp only [items, List.nil_append, items?, hvalue, Option.bind_eq_bind, Option.bind_some,
      skipBlanks_append (s.blank_gap outer), skipBlanks_cons (show isBlank ']' = false by decide)]
    rfl
  | cons k js ih =>
    obtain ⟨fuel, rfl⟩ := Nat.exists_eq_add_one_of_ne_zero (Nat.ne_zero_of_lt hfuel)
    rw [List.forall_mem_cons] at hjs
    simp only [items, List.length_cons, List.length_append] at hfuel
    have hvalue := hj fuel depth level (s.items level (k :: js) ++ (s.gap outer ++ ']' :: rest))
      (by omega) (s.endsNumber_items (s.endsNumber_gap (by decide)) _)
    have hitems := @ih k fuel hjs.1 hjs.2 (by omega)
    simp only [items, List.append_assoc, List.cons_append] at hvalue ⊢
    simp only [items?, hvalue, skipBlanks_cons (show isBlank ',' = false by decide),
      items?_skip (s.blank_gap level), hitems, Option.bind_eq_bind, Option.bind_some]
    rfl

/-- A member up to its value. -/
theorem members?_succ {fuel depth : Nat} (name : String) (rest : List Char) :
    members? (fuel + 1) depth ((quote name).toList ++ ':' :: (s.afterColon ++ rest)) =
      (value? fuel depth rest).bind fun read =>
        match skipBlanks read.2 with
        | ',' :: rest =>
          (members? fuel depth rest).bind fun more => some ((some name, read.1) :: more.1, more.2)
        | '\x7d' :: rest => some ([(some name, read.1)], rest)
        | _ => none := by
  simp only [members?, toList_quote, List.cons_append, List.append_assoc, List.nil_append,
    skipBlanks_cons (show isBlank '"' = false by decide), stringTail?_escaped,
    skipBlanks_cons (show isBlank ':' = false by decide), value?_skip s.blank_afterColon,
    Option.bind_eq_bind, Option.bind_some, text?_pieces]
  rfl

theorem members?_members {name : String} {j : Json} {ms : List (String × Json)}
    {fuel depth level outer : Nat} {rest : List Char} (hj : s.IsRead j)
    (hms : ∀ m ∈ ms, s.IsRead m.2)
    (hfuel : 2 * ((s.text level j).length + (s.members level ms).length) < fuel) :
    members? fuel depth ((quote name).toList ++ ':' :: (s.afterColon ++
      (s.text level j ++ (s.members level ms ++ (s.gap outer ++ '\x7d' :: rest))))) =
      some ((cutMembers depth ((name, j) :: ms)).map fun m => (some m.1, m.2), rest) := by
  induction ms generalizing name j fuel with
  | nil =>
    obtain ⟨fuel, rfl⟩ := Nat.exists_eq_add_one_of_ne_zero (Nat.ne_zero_of_lt hfuel)
    have hvalue := hj fuel depth level (s.gap outer ++ '\x7d' :: rest) (by omega)
      (s.endsNumber_gap (by decide))
    rw [members?_succ, members, List.nil_append, hvalue, Option.bind_some,
      skipBlanks_append (s.blank_gap outer), skipBlanks_cons (by decide)]
    rfl
  | cons m ms ih =>
    obtain ⟨fuel, rfl⟩ := Nat.exists_eq_add_one_of_ne_zero (Nat.ne_zero_of_lt hfuel)
    rw [List.forall_mem_cons] at hms
    simp only [members, List.length_cons, List.length_append] at hfuel
    have hvalue := hj fuel depth level (s.members level (m :: ms) ++ (s.gap outer ++ '\x7d' :: rest))
      (by omega) (s.endsNumber_members (s.endsNumber_gap (by decide)) _)
    have hmembers := @ih m.1 m.2 fuel hms.1 hms.2 (by omega)
    rw [members?_succ, hvalue, Option.bind_some]
    simp only [members, List.append_assoc, List.cons_append,
      skipBlanks_cons (show isBlank ',' = false by decide), members?_skip (s.blank_gap level),
      hmembers, Option.bind_some, cutMembers, List.map_cons]

theorem isRead_int {v : Int} (hv : v.natAbs < UInt64.size) : s.IsRead (int v) := by
  intro fuel depth level rest hfuel hrest
  obtain ⟨fuel, rfl⟩ := s.exists_fuel (.int hv) hfuel
  obtain ⟨c, cs, hcons, hc⟩ := exists_repr_cons v
  have hnumber := number?_repr hv hrest
  have htext : s.text level (int v) = v.repr.toList := by simp [text, compact]
  obtain ⟨hblank, hother⟩ : isBlank c = false ∧
      (c ≠ '"' ∧ c ≠ '[' ∧ c ≠ '\x7b' ∧ c ≠ 'n' ∧ c ≠ 't' ∧ c ≠ 'f') := by
    simp only [isBlank, Bool.or_eq_false_iff, decide_eq_false_iff_not]
    refine ⟨⟨⟨⟨?_, ?_⟩, ?_⟩, ?_⟩, ?_, ?_, ?_, ?_, ?_, ?_⟩ <;> rintro rfl <;>
      simp [Char.isDigit] at hc
  rw [hcons, List.cons_append] at hnumber
  rw [htext, hcons, List.cons_append, value?, skipBlanks_cons hblank]
  simp [hother, hnumber, cut]

theorem isRead_str (v : String) : s.IsRead (str v) := by
  intro fuel depth level rest hfuel _
  obtain ⟨fuel, rfl⟩ := s.exists_fuel (.str v) hfuel
  have htext : s.text level (str v) ++ rest = '"' :: (escaped v.toList ++ '"' :: rest) := by
    simp [text, compact, toList_quote]
  rw [htext, value?, skipBlanks_cons (by decide)]
  simp only [stringTail?_escaped, Option.map_some, ofPieces, text?_pieces, Option.getD_some, cut]

theorem isRead_arr {items : List Json} (hplain : ∀ j ∈ items, j.Plain)
    (h : ∀ j ∈ items, s.IsRead j) : s.IsRead (arr items) := by
  intro fuel depth level rest hfuel hrest
  obtain ⟨fuel, rfl⟩ := s.exists_fuel (.arr hplain) hfuel
  cases items with
  | nil => simp [text, value?, skipBlanks, isBlank, cut, cutItems]
  | cons j js =>
    rw [List.forall_mem_cons] at h hplain
    simp only [text, List.length_cons, List.length_append] at hfuel
    obtain ⟨c, cs, hcons, hblank, hclose⟩ := s.exists_text_cons hplain.1 (level + 1)
    have hitems := @items?_items s j js fuel (depth - 1) (level + 1) level rest h.1 h.2 (by omega)
    have htext : s.text level (arr (j :: js)) ++ rest = '[' :: (s.gap (level + 1) ++
        (s.text (level + 1) j ++ (s.items (level + 1) js ++ (s.gap level ++ ']' :: rest)))) := by
      simp [text]
    rw [hcons, List.cons_append] at hitems
    rw [htext, value?, skipBlanks_cons (by decide)]
    simp only [skipBlanks_append (s.blank_gap (level + 1)), hcons, List.cons_append,
      skipBlanks_cons hblank]
    simp [hclose, hitems, cut]

theorem isRead_obj {members : List (String × Json)} (hplain : ∀ m ∈ members, m.2.Plain)
    (h : ∀ m ∈ members, s.IsRead m.2) : s.IsRead (obj members) := by
  intro fuel depth level rest hfuel hrest
  obtain ⟨fuel, rfl⟩ := s.exists_fuel (.obj hplain) hfuel
  cases members with
  | nil => simp [text, value?, skipBlanks, isBlank, cut, cutMembers]
  | cons m ms =>
    obtain ⟨name, j⟩ := m
    rw [List.forall_mem_cons] at h
    simp only [text, List.length_cons, List.length_append] at hfuel
    have hmembers := @members?_members s name j ms fuel (depth - 1) (level + 1) level rest h.1 h.2
      (by omega)
    have htext : s.text level (obj ((name, j) :: ms)) ++ rest = '\x7b' :: (s.gap (level + 1) ++
        ((quote name).toList ++ ':' :: (s.afterColon ++ (s.text (level + 1) j ++
          (s.members (level + 1) ms ++ (s.gap level ++ '\x7d' :: rest)))))) := by
      simp [text]
    simp only [toList_quote, List.cons_append] at hmembers htext
    rw [htext, value?, skipBlanks_cons (by decide)]
    simp only [skipBlanks_append (s.blank_gap (level + 1)),
      skipBlanks_cons (show isBlank '"' = false by decide)]
    change Option.map _ (members? fuel (depth - 1) _) = _
    rw [hmembers, Option.map_some, cut, cutMembers, List.map_cons, ofMembers_named]

/-- **Values are read back from their texts.** -/
theorem isRead {j : Json} (h : j.Plain) : s.IsRead j := by
  induction h with
  | null =>
    intro fuel depth level rest hfuel _
    obtain ⟨fuel, rfl⟩ := s.exists_fuel .null hfuel
    rfl
  | bool b =>
    intro fuel depth level rest hfuel _
    obtain ⟨fuel, rfl⟩ := s.exists_fuel (.bool b) hfuel
    cases b <;> rfl
  | int small => exact s.isRead_int small
  | str v => exact s.isRead_str v
  | arr plain ih => exact s.isRead_arr plain ih
  | obj plain ih => exact s.isRead_obj plain ih

end Spacing

/-- A text that is spaced in some way is read back, as deep as there is room. -/
theorem parse?_text (s : Spacing) {j : Json} {text : String} {depth : Nat} (h : j.Plain)
    (htext : text.toList = s.text 0 j) : parse? depth text = some (j.cut depth) := by
  have hfuel : 2 * (s.text 0 j).length ≤ 2 * text.toList.length + 2 := by rw [htext]; omega
  have hvalue := s.isRead h (2 * text.toList.length + 2) depth 0 [] hfuel .nil
  rw [List.append_nil, ← htext] at hvalue
  simp only [parse?, hvalue]
  rfl

/-- **Values without blanks between their tokens are read back.** -/
theorem parse?_compact {j : Json} {depth : Nat} (h : j.Plain) :
    parse? depth j.compact = some (j.cut depth) :=
  parse?_text .tight h (Spacing.toList_compact 0 j)

/-- **Values on several lines are read back.** -/
theorem parse?_pretty {j : Json} {depth : Nat} (h : j.Plain) :
    parse? depth j.pretty = some (j.cut depth) :=
  parse?_text .lines h (Spacing.toList_prettyAt 0 j)

end Json

end CellCompiler
