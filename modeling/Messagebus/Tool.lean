import Messagebus.Bus
import Messagebus.Cli
import Messagebus.Lib.GetOpt

namespace Messagebus.Cli
open GetOpt

/-- The one listener that the tool registers. -/
inductive Listener where
  | dumpMessage
deriving DecidableEq

/-- What `fty-msgbus-cli` meets with. `permute` says that `POSIXLY_CORRECT` is not set, `heard`
is what the listener is called with before the interrupt; the last two are about the
wait of `request`. -/
structure Env where
  permute : Bool
  milliseconds : ℕ
  uuid : Bytes
  created : Bool
  connected : Bool
  actor : Bool
  mlm : Mlm
  heard : List Message
  meanwhile : Bus Listener → Bus Listener
  timedOut : Bool

/-- The bus, the lines that were logged and those written to `std::cerr`. -/
structure World where
  client : Client Listener
  log : List Bytes
  err : List Bytes

/-- How the tool ends when it does not come to the end of `main`. -/
inductive Stop where
  | exitFailure
  | uncaught (what : String)
  | undefined
deriving DecidableEq

abbrev ToolOp := EStateM Stop World

def cerr (line : Bytes) : ToolOp Unit := modify fun w => { w with err := w.err ++ [line] }

/-- A call on the bus. -/
def onBus {α : Type} (op : Op Listener α) : ToolOp α := fun w =>
  match op w.client with
  | .ok a client => .ok a { w with client := client }
  | .error (.thrown what) client => .error (.uncaught what) { w with client := client }
  | .error _ client => .error .undefined { w with client := client }

def dump (msg : Message) : ToolOp Unit := fun w =>
  match dumpMessage msg w.log with
  | .ok _ log => .ok () { w with log := log }
  | .error _ log => .error .undefined { w with log := log }

/-- `catch (const std::exception& ex)` -/
def catching (op : ToolOp Unit) : ToolOp Unit := fun w =>
  match op w with
  | .error (.uncaught what) w =>
    .ok () { w with err := w.err ++ [lit "Caught exception: " ++ lit what] }
  | r => r

/-- The command line parameters. -/
structure Settings where
  endpoint : Bytes
  type : Bytes
  subject : Bytes
  topic : Bytes
  queue : Bytes
  destination : Bytes
  timeout : Bytes
  doMetadata : Bool
deriving DecidableEq

def MLM_DEFAULT_ENDPOINT : Bytes := lit "ipc://@/malamute"

def Settings.default : Settings :=
  ⟨MLM_DEFAULT_ENDPOINT, lit "malamute", [], [], [], [], lit "5", true⟩

def getClientId (pre : Bytes) (milliseconds : ℕ) : Bytes :=
  pre ++ lit "-" ++ lit (toString milliseconds)

def clientName (env : Env) : Bytes := getClientId (lit "fty-msgbus-cli") env.milliseconds

def INT_MIN : ℤ := -2147483648

def isSpace (b : Fin 256) : Bool := b = letter ' ' ∨ letter '\t' ≤ b ∧ b ≤ letter '\x0d'

def isDigit (b : Fin 256) : Bool := letter '0' ≤ b ∧ b ≤ letter '9'

def digitsValue (digits : Bytes) : ℕ :=
  digits.foldl (fun value b => 10 * value + (b.val - (letter '0').val)) 0

/-- `std::stoi`; `none` stands for its exceptions, which both say "stoi". -/
def stoi (text : Bytes) : Option ℤ :=
  let text := (cStr text).dropWhile isSpace
  let negative := text.head? = some (letter '-')
  let text := if negative ∨ text.head? = some (letter '+') then text.tail else text
  let digits := text.takeWhile isDigit
  let value : ℤ := if negative then -digitsValue digits else digitsValue digits
  if digits = [] ∨ value < INT_MIN ∨ value > INT_MAX then none else some value

/-- The message of `sendRequest` and `request`. -/
def requestMessage (env : Env) (s : Settings) (argv : List Bytes) : Message where
  metaData :=
    if s.doMetadata then
      SortedMap.empty.emplaceAll [(Message.FROM, clientName env),
        (Message.REPLY_TO, clientName env), (Message.SUBJECT, s.subject),
        (Message.CORRELATION_ID, env.uuid), (Message.TO, s.destination),
        (Message.TIMEOUT, s.timeout)]
    else .empty
  userData := argv

def publishMessage (s : Settings) (argv : List Bytes) : Message where
  metaData :=
    if s.doMetadata then SortedMap.empty.emplaceAll [(Message.SUBJECT, s.subject)] else .empty
  userData := argv

/-- Until the interrupt. -/
def listen : List Message → ToolOp Unit
  | [] => pure ()
  | msg :: heard => do
    dump msg
    listen heard

def receive (env : Env) (s : Settings) (_ : List Bytes) : ToolOp Unit := do
  onBus (Messagebus.receive s.queue .dumpMessage)
  listen env.heard

def subscribe (env : Env) (s : Settings) (_ : List Bytes) : ToolOp Unit := do
  onBus (Messagebus.subscribe env.mlm s.topic .dumpMessage)
  listen env.heard

def sendRequest (env : Env) (s : Settings) (argv : List Bytes) : ToolOp Unit := do
  let msg := requestMessage env s argv
  dump msg
  onBus (Messagebus.sendRequest env.mlm s.queue msg)

def request (env : Env) (s : Settings) (argv : List Bytes) : ToolOp Unit := do
  let msg := requestMessage env s argv
  dump msg
  catching do
    match stoi s.timeout with
    | none => throw (.uncaught "stoi")
    | some timeout =>
      dump (← onBus (Messagebus.request env.mlm s.queue msg timeout env.meanwhile env.timedOut))

def publish (env : Env) (s : Settings) (argv : List Bytes) : ToolOp Unit := do
  let msg := publishMessage s argv
  dump msg
  onBus (Messagebus.publish env.mlm s.topic msg)

structure ProgAction where
  arguments : Bytes
  help : Bytes
  fn : Env → Settings → List Bytes → ToolOp Unit

def actions : SortedMap Bytes ProgAction :=
  SortedMap.empty.emplaceAll [
    (lit "sendRequest", ⟨lit "[userData]", lit "send a request with payload", sendRequest⟩),
    (lit "request",
      ⟨lit "[userData]", lit "send a request with payload and wait for response", request⟩),
    (lit "receive", ⟨[], lit "listen on a queue and dump out received messages", receive⟩),
    (lit "subscribe", ⟨[], lit "subscribe on a topic and dump out received messages", subscribe⟩),
    (lit "publish", ⟨[], lit "publish a message on a topic", publish⟩)]

/-- What makes a bus of each type; there is one type. -/
def busTypes : SortedMap Bytes (Env → ToolOp Unit) :=
  SortedMap.empty.emplaceAll [
    (lit "malamute",
      fun env => if env.created then pure () else throw (.uncaught "std::bad_alloc"))]

def connect (env : Env) : ToolOp Unit := do
  if env.connected = false then
    throw (.uncaught "Failed to connect to Malamute server.")
  if env.actor = false then
    throw (.uncaught "std::bad_alloc")

def usageLines : List Bytes :=
  [lit "Usage: fty-msgbus-cli [options] action ...",
    lit "Options:",
    lit "\t-h                      this information",
    lit "\t-e endpoint             endpoint to connect to",
    lit "\t-s subject              subject of message",
    lit "\t-t topic                topic to use",
    lit "\t-T timeout              timeout to use",
    lit "\t-q queue                queue to use",
    lit "\t-d destination          destination (messagebus::Message::TO metadata)",
    lit "\t-x                      send message with no metadata (for old-school Malamute)",
    lit "\t-i type                 message bus type (" ++
      List.intercalate (lit ", ") (busTypes.entries.map Prod.fst) ++ lit ")",
    lit "\nActions:"] ++
  actions.entries.map fun i =>
    let left := 24 - i.1.length - i.2.arguments.length - 2
    lit "\t" ++ i.1 ++ lit " " ++ i.2.arguments ++ List.replicate (left + 1) (letter ' ') ++ i.2.help

def usage {α : Type} : ToolOp α := do
  modify fun w => { w with err := w.err ++ usageLines }
  throw .exitFailure

def optstring : Bytes := lit "he:s:t:T:q:d:xi:"

/-- What `getopt` looks up in its string of options. -/
def optionTakes (options : Bytes) (c : Fin 256) : Option Bool :=
  if c = letter ':' ∨ c = letter ';' then none
  else
    match options.dropWhile (fun b => b ≠ c) with
    | [] => none
    | _ :: rest => some (rest.head? = some (letter ':'))

def optionSyntax : Syntax (Fin 256) := ⟨letter '-', optionTakes optstring, by decide⟩

/-- The value that `getopt` returns. -/
def returned : Found (Fin 256) → Fin 256
  | .flag c | .valued c _ => c
  | .unknown _ => letter '?'
  | .missing _ => if optstring.head? = some (letter ':') then letter ':' else letter '?'

def optarg : Found (Fin 256) → Bytes
  | .valued _ argument => argument
  | _ => []

def optopt : Found (Fin 256) → Fin 256
  | .flag c | .valued c _ | .unknown c | .missing c => c

/-- The `switch`. A line that `getopt` itself writes is left out. -/
def option (s : Settings) (f : Found (Fin 256)) : ToolOp Settings := do
  let c := returned f
  if c = letter 'h' then usage
  else if c = letter 'e' then return { s with endpoint := optarg f }
  else if c = letter 's' then return { s with subject := optarg f }
  else if c = letter 't' then return { s with topic := optarg f }
  else if c = letter 'T' then return { s with timeout := optarg f }
  else if c = letter 'q' then return { s with queue := optarg f }
  else if c = letter 'd' then return { s with destination := optarg f }
  else if c = letter 'x' then return { s with doMetadata := false }
  else if c = letter 'i' then return { s with type := optarg f }
  else if c = letter ':' then
    cerr (lit "Option -" ++ [optopt f] ++ lit " requires an operand")
    usage
  else if c = letter '?' then
    cerr (lit "Unrecognized option: -" ++ [optopt f])
    usage
  else return s

def options : List (Found (Fin 256)) → Settings → ToolOp Settings
  | [], s => pure s
  | f :: found, s => do options found (← option s f)

/-- The parameters and the words that are left over, from `optind` on. -/
def commandLine (permute : Bool) (args : List Bytes) : ToolOp (Settings × List Bytes) := do
  let s ← options (scan optionSyntax permute args none).1 .default
  return (s, (scan optionSyntax permute args none).2)

/-- `args` is `argv` without the name of the program. -/
def main (env : Env) (args : List Bytes) : ToolOp Unit := do
  let (s, operands) ← commandLine env.permute args
  match busTypes.find s.type with
  | none =>
    cerr (lit "Unknown message bus type '" ++ s.type ++ lit "'")
    usage
  | some create =>
    match operands with
    | [] =>
      cerr (lit "Action missing from arguments")
      usage
    | word :: argv =>
      match actions.find word with
      | none =>
        cerr (lit "Unknown action '" ++ word ++ lit "'")
        usage
      | some action =>
        create env
        connect env
        action.fn env s argv

def World.start (env : Env) : World := ⟨.new (clientName env), [], []⟩

end Messagebus.Cli
