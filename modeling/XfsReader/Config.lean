import XfsReader.Geometry

-- Geometry and options read from a configuration value. A record is given by its named fields, in
-- any order and with others beside them, or as the list of its fields from the first on. Fields
-- with a default may be left out.
namespace XfsReader

inductive ConfigValue where
  | null
  | bool (value : Bool)
  | integer (value : Int)
  | fraction
  | text (value : String)
  | list (items : List ConfigValue)
  | record (fields : List (String × ConfigValue))
deriving Inhabited

namespace ConfigValue

-- The fields of a record in the order of their names; none where one is left out. A list may not be
-- longer than the record.
def fields? (names : List String) : ConfigValue → Option (List (Option ConfigValue))
  | .record fields => some (names.map fun name => fields.lookup name)
  | .list items =>
    if items.length ≤ names.length then
      some (items.map some ++ List.replicate (names.length - items.length) none)
    else none
  | _ => none

def natural? (bound : Nat) : ConfigValue → Option Nat
  | .integer value => if 0 ≤ value ∧ value < bound then some value.toNat else none
  | _ => none

def word8? (value : ConfigValue) : Option UInt8 := (value.natural? UInt8.size).map UInt8.ofNat
def word16? (value : ConfigValue) : Option UInt16 := (value.natural? UInt16.size).map UInt16.ofNat
def word32? (value : ConfigValue) : Option UInt32 := (value.natural? UInt32.size).map UInt32.ofNat

def flag? : ConfigValue → Option Bool
  | .bool value => some value
  | _ => none

-- A field that may be left out but not be given wrongly.
def orDefault (read : ConfigValue → Option α) (fallback : α) : Option ConfigValue → Option α
  | none => some fallback
  | some value => read value

end ConfigValue

open ConfigValue

def MagicPair.ofConfig? (value : ConfigValue) : Option MagicPair := do
  let [v4,v5] ← fields? ["v4","v5"] value | none
  return ⟨← word32? (← v4),← word32? (← v5)⟩

def BtreeMagics.ofConfig? (value : ConfigValue) : Option BtreeMagics := do
  let [dataExtents,directory] ← fields? ["data_extents","directory"] value | none
  return ⟨← MagicPair.ofConfig? (← dataExtents),← MagicPair.ofConfig? (← directory)⟩

def Geometry.ofConfig? (value : ConfigValue) : Option Geometry := do
  let [blockSize,agBlocks,agBlockLog,dirFileType,magics] ←
    fields? ["block_size","ag_blocks","ag_block_log","dir_ftype","btree_magics"] value | none
  return ⟨← word32? (← blockSize),← word32? (← agBlocks),← word8? (← agBlockLog),
    ← orDefault flag? false dirFileType,← orDefault BtreeMagics.ofConfig? .standard magics⟩

def WalkOptions.ofConfig? (value : ConfigValue) : Option WalkOptions := do
  let [maxDepth,verifyOwner,verifyChecksums] ←
    fields? ["max_depth","verify_owner","verify_checksums"] value | none
  return ⟨← word16? (← maxDepth),← flag? (← verifyOwner),← orDefault flag? true verifyChecksums⟩

end XfsReader
