import Mathlib

/-!
Return codes and chunked strings. A `TfwStr` of the message layer is a sequence
of chunks that point into packet memory; the model keeps the bytes of the chunks
and the one chunk flag that header processing reads, the mark on chunks of white
space.
-/

namespace Tempesta

/-- The return codes `T_OK`, `T_POSTPONE`, `T_DROP` and `T_BAD`. -/
inductive TRet where
  | ok
  | postpone
  | drop
  | bad
  deriving DecidableEq, Repr

def ofAscii (s : String) : List UInt8 :=
  s.toList.map fun c => UInt8.ofNat c.toNat

/-- One chunk: its bytes and the flag `TFW_STR_OWS`. -/
structure TfwChunk where
  data : List UInt8
  ows : Bool
  deriving DecidableEq, Repr

/-- A compound string. -/
structure TfwStr where
  chunks : List TfwChunk
  deriving DecidableEq, Repr

namespace TfwStr

/-- `len` of the descriptor: the sum of the chunk lengths. -/
def len (s : TfwStr) : Nat :=
  (s.chunks.map fun c => c.data.length).sum

end TfwStr
end Tempesta
