import XfsReader.Magic

-- Why a byte buffer is not the structure it was read as.
namespace XfsReader

inductive DecodeError where
  | insufficientData (needed offset actual : Nat)
  | signatureMismatch (subject : String) (expected : MagicSet) (actual : Magic)
  | invalidField (field reason : String)
  | unsupported (subject reason : String)
  | integerConversion (field : String)
  | checksumMismatch (subject : String) (stored computed : UInt32)
deriving DecidableEq

namespace DecodeError

def message : DecodeError → String
  | .insufficientData needed offset actual =>
    s!"insufficient data: need {needed} bytes at offset {offset}, got {actual}"
  | .signatureMismatch subject expected actual =>
    s!"{subject} signature mismatch: expected one of {expected.text}, got {actual.text}"
  | .invalidField field reason => s!"invalid field: {field} ({reason})"
  | .unsupported subject reason => s!"unsupported {subject}: {reason}"
  | .integerConversion field => s!"integer conversion failed: {field}"
  | .checksumMismatch subject stored computed =>
    s!"{subject} checksum mismatch: stored 0x{hexDigits 8 stored.toNat}, computed 0x{hexDigits 8 computed.toNat}"

end DecodeError

namespace MagicSet

def check32 (set : MagicSet) (subject : String) (magic : UInt32) : Except DecodeError Unit :=
  if set.contains magic then .ok ()
  else .error (.signatureMismatch subject set (Magic.ofWord32 magic))

def check16 (set : MagicSet) (subject : String) (magic : UInt16) : Except DecodeError Unit :=
  if set.contains magic.toUInt32 then .ok ()
  else .error (.signatureMismatch subject set (Magic.ofWord16 magic))

end MagicSet
end XfsReader
