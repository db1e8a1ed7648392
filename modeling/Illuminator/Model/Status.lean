/-! # Status

What a call reports: a code and a message. `Status::Ok` has the code `kOk` and no message.
-/

namespace Illuminator

inductive StatusCode where
  | kOk
  | kCancelled
  | kInvalidArgument
  | kNotFound
  | kAlreadyExists
  | kPermissionDenied
  | kResourceExhausted
  | kInternal
  | kUnimplemented
  | kUnavailable
  | kDataLoss
  deriving DecidableEq

structure Status where
  code_ : StatusCode
  message_ : String
  deriving DecidableEq

def Status.Ok : Status := ⟨.kOk, ""⟩

def Status.Error (code : StatusCode) (msg : String) : Status := ⟨code, msg⟩

def Status.ok (s : Status) : Bool := s.code_ == .kOk

end Illuminator
