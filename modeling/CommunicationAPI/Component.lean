import CommunicationAPI.Teds

/-!
# Components

The part of a component that answers the interest of others: how often it sends
its reading, and the thread that does so.
-/

namespace CommunicationAPI

/-- The members of `Component` that concern its responses. `joinable` belongs to
the handle `_response_thread`. Assigning to a joinable handle terminates the
process. -/
structure Component where
  responseRunning : Bool
  responsesInterval : Period
  responseType : TedsType
  joinable : Bool
  terminated : Bool

def gcd (a b : Period) : Period := UInt32.ofNat (Nat.gcd a.toNat b.toNat)

@[simp] theorem toNat_gcd (a b : Period) : (gcd a b).toNat = Nat.gcd a.toNat b.toNat := by
  have hlt : Nat.gcd a.toNat b.toNat < 2 ^ 32 := by
    rcases Nat.eq_zero_or_pos a.toNat with hzero | hpos
    · rw [hzero, Nat.gcd_zero_left]
      exact b.toNat_lt
    · exact (Nat.gcd_le_left _ hpos).trans_lt a.toNat_lt
  unfold gcd
  rw [UInt32.toNat_ofNat', Nat.mod_eq_of_lt hlt]

namespace Component

/-- `_response_type` is not initialized. -/
def construct (uninitialized : TedsType) : Component := ⟨false, 0, uninitialized, false, false⟩

variable (c : Component)

def nextInterval (requestedInterval : Period) (reset : Bool) : Period :=
  if reset then requestedInterval
  else if c.responsesInterval ≠ requestedInterval then
    gcd c.responsesInterval requestedInterval
  else c.responsesInterval

def enable (requestedInterval : Period) (type : TedsType) (reset : Bool) : Component :=
  { c with
    responsesInterval := c.nextInterval requestedInterval reset
    responseType := type
    responseRunning := true }

/-- `notify_interest_request` up to the creation of the thread, and whether it
creates one. -/
def setInterest (requestedInterval : Period) (type : TedsType) (reset : Bool) :
    Component × Bool :=
  if requestedInterval = 0 then
    ({ c with responseRunning := false, responsesInterval := requestedInterval }, false)
  else (c.enable requestedInterval type reset, !c.responseRunning)

def assignThread : Component :=
  if c.joinable then { c with terminated := true } else { c with joinable := true }

def notifyInterestRequest (requestedInterval : Period) (type : TedsType) (reset : Bool) :
    Component :=
  if c.terminated then c
  else
    let (c, starts) := c.setInterest requestedInterval type reset
    if starts then c.assignThread else c

section
variable {c : Component} {requestedInterval : Period} {type : TedsType} {reset : Bool}

@[simp] theorem enable_responseRunning :
    (c.enable requestedInterval type reset).responseRunning = true := rfl

@[simp] theorem enable_joinable :
    (c.enable requestedInterval type reset).joinable = c.joinable := rfl

@[simp] theorem enable_terminated :
    (c.enable requestedInterval type reset).terminated = c.terminated := rfl

theorem setInterest_stop (h : requestedInterval = 0) :
    c.setInterest requestedInterval type reset =
      ({ c with responseRunning := false, responsesInterval := 0 }, false) := by
  unfold setInterest
  rw [if_pos h, h]

theorem setInterest_start (h : requestedInterval ≠ 0) :
    c.setInterest requestedInterval type reset =
      (c.enable requestedInterval type reset, !c.responseRunning) := by
  unfold setInterest
  rw [if_neg h]

theorem assignThread_of_joinable (h : c.joinable = true) :
    c.assignThread = { c with terminated := true } := by
  unfold assignThread
  rw [if_pos h]

theorem assignThread_of_not_joinable (h : c.joinable = false) :
    c.assignThread = { c with joinable := true } := by
  unfold assignThread
  rw [if_neg (by simp [h])]

end

end Component
end CommunicationAPI
