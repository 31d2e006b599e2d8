/-!
Why a text is not a uri.
-/

namespace StoryScript

inductive UriError where
  | emptyHost
  | invalidDomain
  | invalidPort
  | invalidIpv4
  | invalidIpv6
  | invalidHostCharacter
  /-- A text without a scheme, and nothing that it could be relative to. -/
  | noBase
  /-- A text without a scheme, relative to a uri without hierarchy. -/
  | rootlessBase
deriving DecidableEq, Inhabited

def UriError.message : UriError → String
  | emptyHost => "empty host"
  | invalidDomain => "invalid international domain name"
  | invalidPort => "invalid port number"
  | invalidIpv4 => "invalid IPv4 address"
  | invalidIpv6 => "invalid IPv6 address"
  | invalidHostCharacter => "invalid domain character"
  | noBase => "relative URL without a base"
  | rootlessBase => "relative URL with a cannot-be-a-base base"

end StoryScript
