import Mathlib
/-!
# `util/BasicNetworkStatus.java`

The failures of hosts. `System.currentTimeMillis()` is an argument of the calls
that read it. Times are milliseconds since 1970 and a count is below the
attempt limit when it goes up, so nothing here wraps. Property change events,
and the time stamps that only `isNetworkUnavailable` reads, do not appear.
-/

namespace WorldWind.NetworkStatus

structure HostInfo where
  tryAgainInterval : Int
  attemptLimit : Int
  logCount : Int
  lastLogTime : Int
  deriving DecidableEq, Repr

def HostInfo.isUnavailable (hi : HostInfo) : Bool := hi.attemptLimit ≤ hi.logCount

def HostInfo.isTimeToTryAgain (hi : HostInfo) (now : Int) : Bool := hi.tryAgainInterval ≤ now - hi.lastLogTime

/-- The table is a map from host names. -/
structure BasicNetworkStatus (H : Type) where
  offlineMode : Bool
  attemptLimit : Int
  tryAgainInterval : Int
  hostMap : H → Option HostInfo

namespace BasicNetworkStatus

variable {U H : Type} [DecidableEq H]

def new (attemptLimit tryAgainInterval : Int) : BasicNetworkStatus H :=
  ⟨false, attemptLimit, tryAgainInterval, fun _ => none⟩

/-- `hostMap.put`, or a change of the entry that is there. -/
def put (s : BasicNetworkStatus H) (hostName : H) (hi : HostInfo) : BasicNetworkStatus H :=
  { s with hostMap := Function.update s.hostMap hostName (some hi) }

def logUnavailableHost (getHost : U → H) (s : BasicNetworkStatus H) (url : U) (now : Int) : BasicNetworkStatus H :=
  if s.offlineMode then s
  else
    match s.hostMap (getHost url) with
    | some hi =>
      let hi := if ¬ hi.isUnavailable then { hi with logCount := hi.logCount + 1 } else hi
      s.put (getHost url) { hi with lastLogTime := now }
    | none => s.put (getHost url) ⟨s.tryAgainInterval, s.attemptLimit, 1, now⟩

def logAvailableHost (getHost : U → H) (s : BasicNetworkStatus H) (url : U) : BasicNetworkStatus H :=
  if s.offlineMode then s else { s with hostMap := Function.update s.hostMap (getHost url) none }

def isHostUnavailable (getHost : U → H) (s : BasicNetworkStatus H) (url : U) (now : Int) :
    BasicNetworkStatus H × Bool :=
  if s.offlineMode then (s, true)
  else
    match s.hostMap (getHost url) with
    | none => (s, false)
    | some hi =>
      if hi.isTimeToTryAgain now then (s.put (getHost url) { hi with logCount := 0 }, false)
      else (s, hi.isUnavailable)

end BasicNetworkStatus

/-! ## Calls -/

inductive Call (U : Type) where
  | logUnavailableHost (url : U) (now : Int)
  | logAvailableHost (url : U) (now : Int)
  | isHostUnavailable (url : U) (now : Int)
  deriving DecidableEq, Repr

open BasicNetworkStatus in
/-- The status after calls, the latest of which comes first. -/
def after {U H : Type} [DecidableEq H] (getHost : U → H) (attemptLimit tryAgainInterval : Int) :
    List (Call U) → BasicNetworkStatus H
  | [] => new attemptLimit tryAgainInterval
  | .logUnavailableHost url now :: past =>
    logUnavailableHost getHost (after getHost attemptLimit tryAgainInterval past) url now
  | .logAvailableHost url _ :: past => logAvailableHost getHost (after getHost attemptLimit tryAgainInterval past) url
  | .isHostUnavailable url now :: past =>
    (isHostUnavailable getHost (after getHost attemptLimit tryAgainInterval past) url now).1

end WorldWind.NetworkStatus
