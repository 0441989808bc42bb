import Minimk.Assert

namespace Minimk.Socket

open Abort

def HANDLE_TYPE_NULL : UInt8 := 0
def HANDLE_TYPE_SOCKET : UInt8 := 1

def handleType (handle : UInt64) : UInt8 :=
  ((handle &&& 0xff00000000000000) >>> 56).toUInt8

def handleGeneration (handle : UInt64) : UInt64 :=
  (handle &&& 0x00ffffffffffff00) >>> 8

def handleIndex (handle : UInt64) : UInt64 :=
  handle &&& 0x00000000000000ff

def handleGenerationValid (generation : UInt64) : Prop :=
  generation &&& 0xffff000000000000 = 0

instance (generation : UInt64) : Decidable (handleGenerationValid generation) :=
  inferInstanceAs (Decidable (_ = _))

def makeHandle (type : UInt8) (generation : UInt64) (index : UInt8) : Except Assertion UInt64 := do
  let handle := type.toUInt64 <<< 56
  assert (handleGenerationValid generation) .makeHandleGeneration
  let handle := handle ||| (generation <<< 8)
  return handle ||| index.toUInt64

end Minimk.Socket
