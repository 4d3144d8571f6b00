/-!
# Shutdown signals

A signal only raises a flag, since a signal handler may do nothing else.  A thread that looks at the
flag from time to time lowers it, counts the signal and asks for shutdown; it ends when shutdown has
been asked for, by itself or by somebody else.
-/

namespace Cadence

/-- The flag that signals raise, and what has been made of them. -/
structure SignalWatch where
  /-- A signal has come that nobody has looked at. -/
  raised : Bool
  shutdownRequested : Bool
  /-- The signals counted, modulo `2 ^ 32`. -/
  count : UInt32
  /-- Whether the thread that looks at the flag is still there. -/
  polling : Bool
  deriving DecidableEq

inductive SignalEvent
  /-- A signal comes. -/
  | deliver
  /-- The thread looks at the flag. -/
  | poll
  /-- Somebody asks for shutdown. -/
  | request
  deriving DecidableEq

namespace SignalWatch

def new : SignalWatch := ⟨false, false, 0, true⟩

def deliver (w : SignalWatch) : SignalWatch := { w with raised := true }

def request (w : SignalWatch) : SignalWatch := { w with shutdownRequested := true }

def poll (w : SignalWatch) : SignalWatch :=
  if w.polling then
    let seen := if w.raised then { w with raised := false, count := w.count + 1 }.request else w
    { seen with polling := !seen.shutdownRequested }
  else w

def handle (w : SignalWatch) : SignalEvent → SignalWatch
  | .deliver => w.deliver
  | .poll => w.poll
  | .request => w.request

def handleAll (w : SignalWatch) (events : List SignalEvent) : SignalWatch :=
  events.foldl handle w

end SignalWatch

end Cadence
