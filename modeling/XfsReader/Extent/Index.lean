import XfsReader.Extent

-- The mapped bytes of a fork, laid end to end in extent order. Window i starts where window i-1
-- ends; a byte past the last window is not mapped.
namespace XfsReader

structure IndexWindow where
  start : Nat
  stop : Nat
  extent : Extent
deriving DecidableEq

namespace IndexWindow

def contains (window : IndexWindow) (offset : Nat) : Bool :=
  window.start ≤ offset && offset < window.stop

def delta (window : IndexWindow) (offset : Nat) : Nat := offset - window.start

end IndexWindow

structure OffsetIndex where
  windows : Array IndexWindow
deriving DecidableEq

namespace OffsetIndex

def windowsFrom (size : BlockSize) : (start : Nat) → List Extent → Except DecodeError (List IndexWindow)
  | _, [] => .ok []
  | start, extent :: rest =>
    match fit64? (start + extent.byteLength size) with
    | none => .error (.integerConversion "extent_index_offset")
    | some stop =>
      match windowsFrom size stop rest with
      | .error error => .error error
      | .ok windows => .ok (⟨start,stop,extent⟩ :: windows)

def build (size : BlockSize) (extents : List Extent) : Except DecodeError OffsetIndex :=
  match windowsFrom size 0 extents with
  | .error error => .error error
  | .ok windows => .ok ⟨windows.toArray⟩

-- Halving search between two bounds for the first window that ends past the offset. Windows before
-- the lower bound end at or before it.
def firstPast (windows : Array IndexWindow) (offset low high : Nat) : Nat :=
  if low < high then
    let middle := (low + high) / 2
    match windows[middle]? with
    | none => low
    | some window =>
      if window.stop ≤ offset then firstPast windows offset (middle + 1) high
      else firstPast windows offset low middle
  else low
termination_by high - low

def lookup (index : OffsetIndex) (offset : Nat) : Option IndexWindow :=
  match index.windows[firstPast index.windows offset 0 index.windows.size]? with
  | none => none
  | some window => if window.contains offset then some window else none

-- The same answer read off the windows one by one.
def scan (index : OffsetIndex) (offset : Nat) : Option IndexWindow :=
  index.windows.toList.find? fun window => window.contains offset

def mappedLength (index : OffsetIndex) : Nat := (index.windows.back?.map (·.stop)).getD 0

end OffsetIndex
end XfsReader
