import CellCompiler.Json.Decode

/-!
# Settings of code generation
-/

namespace CellCompiler

/-- Settings of code generation. -/
structure Config where
  /-- Records with at most this many fields have codecs that are copied to where they are called. -/
  smallStructFields : UInt64 := 5
  /-- Width of the mark in front of a bounced message. -/
  bounceMarkBits : UInt32 := 32
  /-- Width of the opcode of a message. -/
  opcodeBits : UInt32 := 32
  /-- Leave out functions that no entry point reaches. -/
  pruneUnused : Bool := false
  /-- Put a comment at the head of a contract. -/
  debugComments : Bool := false
  deriving DecidableEq, Repr, Inhabited

namespace Config

open Json (defaulted)

/-- The same settings, leaving out what is not reached. -/
def pruned (c : Config) : Config := { c with pruneUnused := true }

/-- The JSON form of settings. -/
def toJson (c : Config) : Json :=
  .obj [("small_struct_fields", .ofNat c.smallStructFields.toNat),
    ("bounce_prefix_bits", .ofNat c.bounceMarkBits.toNat),
    ("opcode_bits", .ofNat c.opcodeBits.toNat), ("prune_unused", .bool c.pruneUnused),
    ("debug_comments", .bool c.debugComments)]

/-- Read settings; each may be left out. -/
def ofJson? (j : Json) : Option Config := do
  let names := ["small_struct_fields", "bounce_prefix_bits", "opcode_bits", "prune_unused",
    "debug_comments"]
  let standard : Config := {}
  match ← j.fields? names 0 with
  | [small, bounce, opcode, prune, comments] =>
    return { smallStructFields := ← defaulted standard.smallStructFields Json.uint64? small
             bounceMarkBits := ← defaulted standard.bounceMarkBits Json.uint32? bounce
             opcodeBits := ← defaulted standard.opcodeBits Json.uint32? opcode
             pruneUnused := ← defaulted standard.pruneUnused Json.bool? prune
             debugComments := ← defaulted standard.debugComments Json.bool? comments }
  | _ => none

end Config

end CellCompiler
