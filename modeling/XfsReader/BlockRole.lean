import XfsReader.Checksum

-- What a filesystem block is read as. The role fixes its name in messages and where its checksum
-- stands.
namespace XfsReader

inductive BlockRole where
  | mapBlock
  | leafBlock
  | dataBlock
  | attrBlock
deriving DecidableEq

namespace BlockRole

def subject : BlockRole → String
  | .mapBlock => "bmbt block"
  | .leafBlock => "dir leaf block"
  | .dataBlock => "dir data block"
  | .attrBlock => "attribute block"

def checksumOffset : BlockRole → Nat
  | .mapBlock => 64
  | .leafBlock => 12
  | .dataBlock => 4
  | .attrBlock => 12

def verify (role : BlockRole) (block : Bytes) : Except DecodeError Unit :=
  Checksum.verify role.subject block role.checksumOffset

end BlockRole
end XfsReader
