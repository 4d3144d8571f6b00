import Cadence.Failure

/-!
# The lifecycle of a run loop

A loop is created, runs, is asked to stop and has stopped.  It may be asked to stop before it runs,
and a loop whose thread never came up has stopped at once; nothing leads back.
-/

namespace Cadence

inductive LoopState
  | created
  | running
  | stopping
  | stopped
  deriving DecidableEq

namespace LoopState

def all : List LoopState := [created, running, stopping, stopped]

def name : LoopState → String
  | created => "CREATED"
  | running => "RUNNING"
  | stopping => "STOPPING"
  | stopped => "STOPPED"

def title : LoopState → String
  | created => "Created"
  | running => "Running"
  | stopping => "Stopping"
  | stopped => "Stopped"

def ofName? (s : String) : Option LoopState :=
  all.find? fun st => st.name == s

def canMoveTo : LoopState → LoopState → Bool
  | created, running => true
  | running, stopping => true
  | stopping, stopped => true
  | created, stopping => true
  | created, stopped => true
  | _, _ => false

end LoopState

structure Lifecycle where
  state : LoopState
  moves : Nat
  deriving DecidableEq

namespace Lifecycle

def new : Lifecycle := ⟨.created, 0⟩

def moveTo (l : Lifecycle) (target : LoopState) : Except Failure Lifecycle :=
  if l.state.canMoveTo target then .ok ⟨target, l.moves + 1⟩
  else .error (.invalidTransition l.state.name target.name)

def tryMoveTo (l : Lifecycle) (target : LoopState) : Lifecycle :=
  match l.moveTo target with
  | .ok l' => l'
  | .error _ => l

end Lifecycle

end Cadence
