import Cadence.Duration.Read
import Cadence.Number.Read

/-!
# The command line

The options of the daemon, read from left to right.  The first thing that is wrong, or the first
request for help or the version, ends the reading.  An option may be given once; its value is attached
to it or is the next argument, which must not look like an option.
-/

namespace Cadence

structure Arguments where
  /-- The path of a configuration file. -/
  config : Option String
  /-- How long to run; until a signal comes if absent. -/
  duration : Option Duration
  /-- How often the sampler runs in a second. -/
  rate : Float
  /-- Whether to print the report. -/
  json : Bool
  logLevel : String

inductive CommandOption
  | config
  | duration
  | rate
  | json
  | logLevel
  | help
  | version
  deriving DecidableEq

namespace CommandOption

def names : List (String × CommandOption) :=
  [("config", config), ("duration", duration), ("rate", rate), ("json", json),
    ("log-level", logLevel), ("help", help), ("version", version)]

def letters : List (Char × CommandOption) :=
  [('c', config), ('d', duration), ('l', logLevel), ('h', help), ('V', version)]

def takesValue : CommandOption → Bool
  | config | duration | rate | logLevel => true
  | json | help | version => false

end CommandOption

inductive CommandStop
  | help
  | version
  /-- Something is wrong. -/
  | usage
  /-- The reader of durations broke down. -/
  | breakdown
  deriving DecidableEq

namespace CommandLine

structure Draft where
  config : Option String
  duration : Option Duration
  rate : Option Float
  json : Bool
  logLevel : Option String

def Draft.empty : Draft := ⟨none, none, none, false, none⟩

def Draft.arguments (d : Draft) : Arguments :=
  ⟨d.config, d.duration, d.rate.getD 100.0, d.json, d.logLevel.getD "info"⟩

def Draft.setValue (d : Draft) (o : CommandOption) (value : String) : Except CommandStop Draft :=
  match o with
  | .config =>
    if d.config.isSome ∨ value.isEmpty then .error .usage else .ok { d with config := some value }
  | .duration =>
    if d.duration.isSome then .error .usage
    else
      match Duration.ofText value with
      | .ok t => .ok { d with duration := some t }
      | .error .carryOverflow => .error .breakdown
      | .error _ => .error .usage
  | .rate =>
    if d.rate.isSome then .error .usage
    else
      match Number.ofText? value with
      | some x => .ok { d with rate := some x }
      | none => .error .usage
  | .logLevel =>
    if d.logLevel.isSome then .error .usage else .ok { d with logLevel := some value }
  | .json | .help | .version => .error .usage

def Draft.setFlag (d : Draft) (o : CommandOption) : Except CommandStop Draft :=
  match o with
  | .json => if d.json then .error .usage else .ok { d with json := true }
  | .help => .error .help
  | .version => .error .version
  | .config | .duration | .rate | .logLevel => .error .usage

/-- An argument that names an option, with the value attached to it.  `none` stands for an option that
there is not. -/
inductive Token
  | option (o : Option CommandOption) (value : Option String)
  /-- Two dashes alone, behind which there are no options. -/
  | separator
  | word (text : String)

def afterEquals? : List Char → Option String
  | '=' :: cs => some (String.ofList cs)
  | _ => none

def Token.of (argument : String) : Token :=
  match argument.toList with
  | ['-'] => .word argument
  | ['-', '-'] => .separator
  | '-' :: '-' :: cs =>
    let name := String.ofList (cs.takeWhile (· ≠ '='))
    .option (CommandOption.names.lookup name) (afterEquals? (cs.dropWhile (· ≠ '=')))
  | '-' :: c :: cs =>
    let option := CommandOption.letters.lookup c
    match option with
    | some .help | some .version =>
      -- The letter takes effect before anything behind it is looked at.
      .option option none
    | _ =>
      .option option
        (if cs.isEmpty then none
        else some ((afterEquals? cs).getD (String.ofList cs)))
  | _ => .word argument

def readFrom (d : Draft) : List String → Except CommandStop Draft
  | [] => .ok d
  | argument :: rest =>
    match Token.of argument with
    | .word _ => .error .usage
    | .separator => if rest.isEmpty then .ok d else .error .usage
    | .option none _ => .error .usage
    | .option (some o) (some value) => do
      let d ← d.setValue o value
      readFrom d rest
    | .option (some o) none =>
      if o.takesValue then
        match rest with
        | [] => .error .usage
        | next :: rest =>
          match Token.of next with
          | .word value => do
            let d ← d.setValue o value
            readFrom d rest
          | _ => .error .usage
      else do
        let d ← d.setFlag o
        readFrom d rest

def read (arguments : List String) : Except CommandStop Arguments :=
  (readFrom .empty arguments).map Draft.arguments

def versionText : String := "rl-daemon 0.1.0\n"

def helpText : String :=
  "Run-loop demo daemon - periodic producers feeding a queue and a bus\n\n" ++
  "Usage: rl-daemon [OPTIONS]\n\n" ++
  "Options:\n" ++
  "  -c, --config <FILE>          Path to a configuration file (TOML)\n" ++
  "  -d, --duration <DURATION>    Stop after this long (e.g. \"5s\"); runs until signalled if omitted\n" ++
  "      --rate <RATE>            Sampler frequency in Hz [default: 100]\n" ++
  "      --json                   Print the final report as JSON on stdout\n" ++
  "  -l, --log-level <LOG_LEVEL>  Log level (trace, debug, info, warn, error) [default: info]\n" ++
  "  -h, --help                   Print help\n" ++
  "  -V, --version                Print version\n"

end CommandLine

end Cadence
