import TupleStone.Common.Bytes

/-! # Status codes and messages -/

set_option autoImplicit false

namespace TupleStone

inductive StatusCode where
  | kNotFound
  | kAlreadyExists
  | kInvalidArgument
  | kSyntaxError
  | kTypeError
  | kIoError
  | kCorruption
  | kIncompatible
  | kOutOfMemory
  | kOutOfRange
  | kSerializationFailure
  | kNotSupported
  deriving DecidableEq, Repr

inductive Status where
  | ok
  | error (code : StatusCode) (message : Bytes)
  deriving DecidableEq, Repr

namespace Status

def isOk : Status → Bool
  | ok => true
  | error _ _ => false

def message : Status → Bytes
  | ok => []
  | error _ text => text

def notFound (message : Bytes) : Status := error .kNotFound message
def alreadyExists (message : Bytes) : Status := error .kAlreadyExists message
def invalidArgument (message : Bytes) : Status := error .kInvalidArgument message
def syntaxError (message : Bytes) : Status := error .kSyntaxError message
def typeError (message : Bytes) : Status := error .kTypeError message
def ioError (message : Bytes) : Status := error .kIoError message
def corruption (message : Bytes) : Status := error .kCorruption message
def incompatible (message : Bytes) : Status := error .kIncompatible message
def outOfMemory (message : Bytes) : Status := error .kOutOfMemory message
def outOfRange (message : Bytes) : Status := error .kOutOfRange message
def serializationFailure (message : Bytes) : Status := error .kSerializationFailure message
def notSupported (message : Bytes) : Status := error .kNotSupported message

@[simp] theorem isOk_iff (s : Status) : s.isOk = true ↔ s = ok := by
  cases s <;> simp [isOk]

end Status

end TupleStone
