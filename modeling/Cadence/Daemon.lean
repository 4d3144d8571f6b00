import Cadence.CommandLine
import Cadence.Config.Load
import Cadence.Pipeline
import Cadence.Report

/-!
# The daemon

From its command line, an environment variable and files the daemon makes out what to run
(`Session.prepare`), or ends at once with an exit status.  A session that is open (`Engine`) is a run
loop with the two callbacks of the pipeline; closing it yields the report.
-/

namespace Cadence

structure Complaint where
  headline : String
  cause : Option String
  deriving DecidableEq

inductive Ending
  /-- It has printed what it was asked for. -/
  | printed (text : String)
  /-- The command line is wrong. -/
  | usage
  | failed (complaint : Complaint)
  | breakdown
  deriving DecidableEq

def Ending.status : Ending → Nat
  | printed _ => 0
  | usage => 2
  | failed _ => 1
  | breakdown => 101

def Ending.ofStop : CommandStop → Ending
  | .help => printed CommandLine.helpText
  | .version => printed CommandLine.versionText
  | .usage => usage
  | .breakdown => breakdown

structure Session where
  config : Config
  arguments : Arguments

namespace Session

def pathVariable : String := "RL_CONFIG_PATH"

def localPath : String := "config/default.toml"

def loadFile (read : FileReader) (path label : String) : Except Ending Config :=
  match Config.ofFile read path with
  | .ok c => .ok c
  | .error (.content cause) =>
    if cause.isBreakdown then .error .breakdown
    else .error (.failed ⟨"Failed to load config from " ++ label,
      some (Config.LoadError.content cause).message⟩)
  | .error e => .error (.failed ⟨"Failed to load config from " ++ label, some e.message⟩)

/-- Find the configuration: in the file named on the command line, in the one named by the environment
variable if it is there, in the local one if it is there, or the default. -/
def loadConfig (read : FileReader) (environment : Option String) (a : Arguments) :
    Except Ending Config :=
  match a.config with
  | some path => loadFile read path (Text.quotedPath path)
  | none =>
    match environment.filter read.holds with
    | some path => loadFile read path (pathVariable ++ "=" ++ Text.quoted path)
    | none =>
      if read.holds localPath then loadFile read localPath (Text.quotedPath localPath)
      else .ok .default

def memoryLimit : Nat := maxSigned

def messageBytes : Nat := 24

def sampleBytes : Nat := 8

def fits (c : Config) : Bool :=
  c.messaging.queueSlots * messageBytes ≤ memoryLimit &&
    c.messaging.busSlots * messageBytes ≤ memoryLimit && c.sampleCount * sampleBytes ≤ memoryLimit

def readerRate (rate : Float) : Float := rate / 4.0

def prepare (arguments : List String) (environment : Option String) (read : FileReader) :
    Except Ending Session := do
  let a ← (CommandLine.read arguments).mapError .ofStop
  let config ← loadConfig read environment a
  config.validate.mapError fun e => .failed ⟨"Invalid configuration", some e.message⟩
  if !Frequency.isValid a.rate then
    .error (.failed ⟨"--rate must be a positive number, got " ++ Number.plain64 a.rate, none⟩)
  else if !fits config then .error .breakdown
  else if !Frequency.isValid (readerRate a.rate) then .error .breakdown
  else return ⟨config, a⟩

end Session

/-! ## Running -/

structure Engine where
  loop : RunLoop Station
  scene : PipelineScene
  handles : List Handle

namespace Engine

def register (e : Engine) (hertz : Float) (random : Nat) (station : Station) : Engine :=
  match e.loop.register hertz random station with
  | (.ok h, l) => { e with loop := l, handles := e.handles ++ [h] }
  | (.error _, l) => { e with loop := l }

/-- Open a session at the given time; two random numbers select the phases of the callbacks. -/
def start (s : Session) (now : Timestamp) (random : Nat × Nat) : Engine :=
  let l : RunLoop Station :=
    RunLoop.create 1 ((LoopOptions.named s.config.runLoop.name).configured s.config) now
  let pipeline :=
    Pipeline.withSlots s.config.messaging.queueSlots s.config.messaging.busSlots
  let e : Engine := ⟨l.comeUp, ⟨pipeline, now, []⟩, []⟩
  (e.register s.arguments.rate random.1 .sampler).register
    (Session.readerRate s.arguments.rate) random.2 .reader

def nextWake (e : Engine) : Timestamp := e.loop.deadline

def wake (e : Engine) (now : Timestamp) : Engine :=
  let l := e.loop.settle now RunLoop.cycleLength
  let (_, l, scene) := l.tick PipelineScene.surroundings { e.scene with clock := now }
  { e with loop := l, scene := scene }

def consumeAll (e : Engine) : Engine :=
  let p := (List.range e.scene.pipeline.queue.length).foldl (fun p _ => p.consume.2)
    e.scene.pipeline
  { e with scene := { e.scene with pipeline := p } }

def close (e : Engine) (uptimeMillis : Nat) : Report :=
  let emptied := e.handles.foldl (fun l h => (l.unregister h).2) e.loop
  let ended := emptied.requestStop.settle e.scene.clock RunLoop.cycleLength
  let (_, l) := ended.complete.conclude
  { state := l.state
    uptimeMillis := uptimeMillis
    traffic := e.scene.pipeline.traffic
    busDropped := e.scene.pipeline.bus.dropped
    tick := l.report }

end Engine

def Session.output (s : Session) (r : Report) : String :=
  if s.arguments.json then r.toJson ++ "\n" else ""

end Cadence
