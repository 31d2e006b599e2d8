import StoryScript.Json.Decode

/-!
Why a compile, or a request to the compiler, has no result.
-/

namespace StoryScript

inductive Failure where
  | timeout (method : String) (milliseconds : Nat)
  /-- The compiler went away. -/
  | disconnected
  /-- The caller withdrew the request. -/
  | cancelled
  /-- The compiler answered with an error. -/
  | remote (code : Int64) (message : String)
  /-- The compiler's answer is no program. -/
  | undecodable
  /-- The compile that the caller waited for failed. -/
  | abandoned (uri : String)
deriving DecidableEq, Inhabited

namespace Failure

/-- The name of the kind of failure. -/
def kind : Failure → String
  | timeout _ _ => "timeout"
  | disconnected => "disconnected"
  | cancelled => "cancelled"
  | remote _ _ => "remote"
  | undecodable => "decode"
  | abandoned _ => "abandoned"

def message : Failure → String
  | timeout method milliseconds =>
    "request '" ++ method ++ "' timed out after " ++ Nat.repr milliseconds ++ "ms"
  | disconnected => "compiler connection closed"
  | cancelled => "request cancelled"
  | remote code message => "compiler error " ++ Json.writeInt code.toInt ++ ": " ++ message
  | undecodable => "failed to decode compiler message"
  | abandoned uri => "in-flight compile of " ++ uri ++ " failed"

/-- Whether the compiler, or the way to it, is at fault. -/
def isCompilerFault : Failure → Bool
  | abandoned _ => false
  | _ => true

/-- A failure by its kind and, if the kind does not tell all, its message. -/
def toJson (failure : Failure) : Json :=
  match failure with
  | undecodable => .object [("error", .string failure.kind)]
  | _ => .object [("error", .string failure.kind), ("message", .string failure.message)]

/-- A failure by its kind and what belongs to it. -/
def ofJson : Json.Decoder Failure := fun json => do
  let record ← Json.Record.ofJson "a failure"
    ["kind", "method", "timeout_ms", "code", "message", "uri"] json
  match ← record.required "kind" Json.Decoder.text with
  | "timeout" =>
    pure (timeout (← record.required "method" Json.Decoder.text)
      (← record.required "timeout_ms" Json.Decoder.count))
  | "disconnected" => pure disconnected
  | "cancelled" => pure cancelled
  | "remote" =>
    let code ← record.required "code"
      (Json.Decoder.integer Int64.minValue.toInt Int64.maxValue.toInt "i64")
    pure (remote (Int64.ofInt code) (← record.required "message" Json.Decoder.text))
  | "decode" => pure undecodable
  | "abandoned" => pure (abandoned (← record.required "uri" Json.Decoder.text))
  | kind =>
    .error (.unknownVariant kind
      ["timeout", "disconnected", "cancelled", "remote", "decode", "abandoned"])

end Failure

end StoryScript
