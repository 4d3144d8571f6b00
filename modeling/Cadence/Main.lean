import Cadence.Daemon

/-!
# The program

Reads the command line, the environment and files, lets the daemon run on the clock of the machine,
and prints the report.
-/

open Cadence

namespace Program

def now : IO Timestamp := do
  return (EpochClock.mk 0).read (← IO.monoNanosNow)

def readFile (path : String) : IO (Except FileError ByteArray) := do
  try
    return .ok (← IO.FS.readBinFile path)
  catch e =>
    match e with
    | .noFileOrDirectory .. => return .error .notFound
    | .inappropriateType _ code _ =>
      return .error (if code = 21 then .isDirectory else .notDirectory)
    | e => return .error (.other (toString e) 0)

/-- Read every file that the daemon may ask for. -/
def readFiles (paths : List String) : IO FileReader := do
  let files ← paths.mapM fun path => do return (path, ← readFile path)
  return fun path => (files.lookup path).getD (.error .notFound)

partial def run (e : Engine) (finish : Option Timestamp) : IO Engine := do
  let t ← now
  if (finish.map (decide <| · ≤ t)).getD false then return e
  else
    let wake := match finish with
      | some f => min f e.nextWake
      | none => e.nextWake
    let wait := wake.since t
    if 1000 ≤ wait then IO.sleep (UInt32.ofNat (min (wait / 1000) 1000))
    let t ← now
    if e.nextWake ≤ t then run ((e.wake t).consumeAll) finish else run e finish

def runSession (s : Session) : IO UInt32 := do
  let start ← now
  let random := (← IO.rand 0 maxSigned, ← IO.rand 0 maxSigned)
  let finish := s.arguments.duration.map fun d => start.after d.toMicros
  let e ← run (Engine.start s start random) finish
  let uptime := (← now).since start / 1000
  IO.print (s.output (e.close uptime))
  return 0

def conclude (ending : Ending) : IO UInt32 := do
  match ending with
  | .printed text => IO.print text
  | .usage => IO.eprintln "error: unusable command line\n\nFor more information, try '--help'."
  | .failed complaint =>
    IO.eprintln ("Error: " ++ complaint.headline)
    if let some cause := complaint.cause then
      IO.eprintln ("\nCaused by:\n    " ++ cause)
  | .breakdown => IO.eprintln "the daemon broke down"
  return UInt32.ofNat ending.status

end Program

def main (arguments : List String) : IO UInt32 := do
  let environment ← IO.getEnv Session.pathVariable
  let named := match CommandLine.read arguments with
    | .ok a => a.config.toList
    | .error _ => []
  let read ← Program.readFiles (named ++ environment.toList ++ [Session.localPath])
  match Session.prepare arguments environment read with
  | .ok s => Program.runSession s
  | .error ending => Program.conclude ending
