import Carriers.Store

/-! The configuration of the daemon, as far as the processing of mail reads it. -/

namespace Carriers

/-- What the listener speaks. -/
inductive Protocol where
  | lmtp
  | smtp
  deriving DecidableEq

/-- When a member whose mail bounces stops receiving copies.  Weights and scores are rationals. -/
structure BounceConfig where
  threshold : ℚ := 5
  hardWeight : ℚ := 3
  softWeight : ℚ := 1
  deriving DecidableEq

structure Smarthost where
  host : Text
  port : Nat := 25
  implicitTls : Bool := false
  allowPlaintext : Bool := false
  deriving DecidableEq

structure Config where
  hostname : Text
  protocol : Protocol := .lmtp
  smarthost : Smarthost
  archiveDir : Option Text := none
  bounce : BounceConfig := {}
  deriving DecidableEq

end Carriers
