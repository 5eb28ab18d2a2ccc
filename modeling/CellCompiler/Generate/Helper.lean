import CellCompiler.ExitCode
import CellCompiler.Generate.Basic

/-!
# Helpers of emitted code

Small target functions that emitted code calls. A helper is entered into the registry when it is
first used. Dictionary operations come with the target's own library and are skipped.

* `Helper` lists the helpers, `Helper.ofName?` finds one by its name;
* `Helper.item` is the definition of a helper;
* `Generate.ensureHelper` enters a helper, `Generate.helper` also records its use.
-/

namespace CellCompiler

open Target

/-- What two values are compared by. -/
inductive Comparison where
  /-- The bits of slices. -/
  | bits
  /-- The hashes of cells. -/
  | cell
  /-- The hashes of slices. -/
  | slice
  | int
  deriving DecidableEq, Repr

/-- Which of two compared values may be absent. -/
inductive Absence where
  | neither
  | first
  | both
  deriving DecidableEq, Repr

/-- A helper of emitted code. -/
inductive Helper where
  | tupleCreate (arity : Nat)
  | tupleDestroy (arity : Nat)
  | verifyAddress
  | loadAddress
  | storeAddress
  | notNull
  | emptySlice
  | contextGetSender
  | dictGetCode
  | equal (mode : Comparison) (absence : Absence)
  deriving DecidableEq, Repr

namespace Helper

/-! ### Names -/

/-- Makes a tuple. -/
def tupleCreateName (arity : Nat) : String := s!"__tact_tuple_create_{arity}"

/-- Takes a tuple apart. -/
def tupleDestroyName (arity : Nat) : String := s!"__tact_tuple_destroy_{arity}"

/-- Checks that a slice is an address of the basechain. -/
def verifyAddressName : String := "__tact_verify_address"

/-- Loads an address and checks it. -/
def loadAddressName : String := "__tact_load_address"

/-- Checks an address and stores it. -/
def storeAddressName : String := "__tact_store_address"

/-- Insists that a value is present. -/
def notNullName : String := "__tact_not_null"

/-- The slice that holds nothing. -/
def emptySliceName : String := "__tact_empty_slice"

/-- The sender of the message being handled. -/
def contextGetSenderName : String := "__tact_context_get_sender"

/-- Finds the code of a contract by its number. -/
def dictGetCodeName : String := "__tact_dict_get_code"

/-- The beginning of the names of dictionary operations. -/
def dictionaryStart : String := "__tact_dict_"

/-- The name of a comparison. -/
def equalName (mode : Comparison) (absence : Absence) : String :=
  let base :=
    match mode with
    | .bits => "__tact_slice_eq_bits"
    | .cell => "__tact_cell_eq"
    | .slice => "__tact_slice_eq"
    | .int => "__tact_int_eq"
  match absence with
  | .neither => base
  | .first => base ++ "_nullable_one"
  | .both => base ++ "_nullable"

/-- The comparisons that are helpers; integers that are present are compared directly. -/
def comparisons : List (Comparison × Absence) :=
  [(.bits, .neither), (.bits, .first), (.bits, .both), (.cell, .neither), (.cell, .first),
    (.cell, .both), (.slice, .neither), (.slice, .first), (.slice, .both), (.int, .first),
    (.int, .both)]

/-- The helpers with fixed names. -/
def named : List (String × Helper) :=
  [(verifyAddressName, verifyAddress), (loadAddressName, loadAddress),
    (storeAddressName, storeAddress), (notNullName, notNull), (emptySliceName, emptySlice),
    (contextGetSenderName, contextGetSender), (dictGetCodeName, dictGetCode)] ++
  comparisons.map fun (mode, absence) => (equalName mode absence, equal mode absence)

/-- The number after the beginning of a name. -/
def arity? (start name : String) : Option Nat :=
  match Plan.dropStart? start name with
  | none => none
  | some digits => (Numeral.readNat UInt64.size digits).toOption

/-- The helper of a name. -/
def ofName? (name : String) : Option Helper :=
  match arity? "__tact_tuple_create_" name with
  | some n => some (tupleCreate n)
  | none =>
    match arity? "__tact_tuple_destroy_" name with
    | some n => some (tupleDestroy n)
    | none => named.lookup name

/-- The name is that of a dictionary operation of the target's own library. -/
def isDictionary (name : String) : Bool :=
  (Plan.dropStart? dictionaryStart name).isSome && name != dictGetCodeName

/-! ### Variables of the message being handled -/

/-- Everything about the message. -/
def context : String := "__tact_context"

/-- The sender of the message. -/
def contextSender : String := "__tact_context_sender"

/-- The cell that holds the codes of other contracts. -/
def contextSys : String := "__tact_context_sys"

/-! ### Definitions -/

/-- Type variables `X0`, `X1` and so on. -/
def typeVars (arity : Nat) : List String := (List.range arity).map fun i => s!"X{i}"

/-- The target type of the values that are compared. -/
def comparedTy : Comparison → Ty
  | .bits | .slice => .slice
  | .cell => .cell
  | .int => .int

/-- The comparison of two values that are present. -/
def compareBy (a b : Target.Expr) : Comparison → Target.Expr
  | .bits => call "equal_slice_bits" [a, b]
  | .cell => eq (method a "cell_hash" []) (method b "cell_hash" [])
  | .slice => eq (method a "slice_hash" []) (method b "slice_hash" [])
  | .int => eq a b

/-- The body of a comparison. -/
def equalBody (mode : Comparison) : Absence → List Target.Stmt
  | .neither => [ret (compareBy (id "a") (id "b") mode)]
  | .first =>
    [ret (.ternary (isNull (id "a")) (.bool false) (compareBy (id "a") (id "b") mode))]
  | .both =>
    [var (id "a_is_null") (isNull (id "a")),
      var (id "b_is_null") (isNull (id "b")),
      ret (.ternary (.binary .and (id "a_is_null") (id "b_is_null")) (.bool true)
        (.ternary (.binary .and (not (id "a_is_null")) (not (id "b_is_null")))
          (compareBy (id "a") (id "b") mode) (.bool false)))]

/-- The definition of a helper under a name. -/
def item (name : String) : Helper → Item
  | tupleCreate arity =>
    let vars := typeVars arity
    .asm ((Signature.mk name vars [] .anyTuple []).param (.tensor (vars.map .var)) "v")
      [s!"{arity} TUPLE"]
  | tupleDestroy arity =>
    let vars := typeVars arity
    .asm ((Signature.mk name vars [] (.tensor (vars.map .var)) []).param .anyTuple "v")
      [s!"{arity} UNTUPLE"]
  | verifyAddress =>
    ((Signature.param { name } .slice "address").returning .slice).inline.define
      [throwUnless ExitCode.invalidAddress
          (eq (method (id "address") "slice_bits" []) (int 267)),
        var (id "h") (method (id "address") "preload_uint" [int 11]),
        throwUnless ExitCode.invalidAddress (eq (.binary .shr (id "h") (int 8)) (int 4)),
        throwUnless ExitCode.notBasechain (eq (id "h") (int 1024)),
        ret (id "address")]
  | loadAddress =>
    ((Signature.param { name } .slice "cs").returning (.tensor [.slice, .slice])).inline.define
      [typedVar .slice "raw" (Target.modify (id "cs") "load_msg_addr" []),
        ret (.tensor [id "cs", call verifyAddressName [id "raw"]])]
  | storeAddress =>
    (((Signature.param { name } .builder "b").param .slice "address").returning
      .builder).inline.define
      [ret (method (id "b") "store_slice" [call verifyAddressName [id "address"]])]
  | notNull =>
    (((Signature.generic { name } ["X"]).param (.var "X") "x").returning (.var "X")).inline.define
      [throwIf ExitCode.nullReference (isNull (id "x")), ret (id "x")]
  | emptySlice => .asm { name, returns := .slice } ["<b b> <s PUSHSLICE"]
  | contextGetSender =>
    (Signature.returning { name } .slice).inline.define [ret (id contextSender)]
  | dictGetCode =>
    (((Signature.param { name } .cell "dict").param .int "id").returning .cell).inline.define
      [var (.tensor [id "data", id "ok"])
          (method (id "dict") "udict_get_ref?" [int 16, id "id"]),
        throwUnless ExitCode.codeNotFound (id "ok"),
        ret (id "data")]
  | equal mode absence =>
    let ty := comparedTy mode
    (((Signature.param { name } ty "a").param ty "b").returning .int).inline.define
      (equalBody mode absence)

/-- The helper checks addresses. -/
def verifies : Helper → Bool
  | loadAddress | storeAddress => true
  | _ => false

end Helper

namespace Generate

open Emission (Section)

/-- Declare the variables of the message being handled. -/
def declareContext : Gen Unit := do
  onRegistry (·.addGlobal (.tensor [.int, .slice, .int, .slice]) Helper.context)
  onRegistry (·.addGlobal .slice Helper.contextSender)
  onRegistry (·.addGlobal .cell Helper.contextSys)

/-- Enter the check of addresses. -/
def ensureVerifyAddress : Gen Unit := do
  unless ← has Helper.verifyAddressName do
    register (Helper.item Helper.verifyAddressName .verifyAddress) .stdlib .empty

/-- Enter a helper after those that it calls. -/
def ensureHelper (name : String) : Gen Unit := do
  if ← has name then return
  if Helper.isDictionary name then
    skip name
    return
  if name = Helper.contextGetSenderName then declareContext
  match Helper.ofName? name with
  | none => defect (.unknownHelper name)
  | some h =>
    if h.verifies then
      ensureVerifyAddress
      register (h.item name) .stdlib (.ofList [Helper.verifyAddressName])
    else register (h.item name) .stdlib .empty

/-- Enter a helper and record its use. -/
def helper (name : String) : Gen String := do
  ensureHelper name
  used name

/-- Call a helper. -/
def callHelper (name : String) (args : List Target.Expr) : Gen Target.Expr := do
  return call (← helper name) args

end Generate

end CellCompiler
