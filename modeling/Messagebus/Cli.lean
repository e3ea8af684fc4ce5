import Messagebus.Lib.Printf
import Messagebus.Zmsg

namespace Messagebus.Cli

/-- What is undefined: an expansion, or the increment of the `int` at its maximum. -/
inductive DumpFault where
  | format (why : Printf.Undefined)
  | overflow
deriving DecidableEq

/-- What has been logged, oldest first. -/
abbrev LogOp := EStateM DumpFault (List Bytes)

def INT_MAX : ℕ := 2147483647

def separator : Bytes := List.replicate 80 ⟨45, by decide⟩

def newline : Bytes := lit "\n"

/-- `log_info` with no argument but the format. -/
def logInfo (format : Bytes) : LogOp Unit := fun log =>
  match Printf.expand format with
  | .ok text => .ok () (log ++ [text])
  | .error why => .error (.format why) log

/-- The loop over the metadata; `buffer` is the stream. -/
def dumpMetaData : List (Bytes × Bytes) → Bytes → Bytes
  | [], buffer => buffer
  | metadata :: rest, buffer =>
    dumpMetaData rest (buffer ++ lit "* " ++ metadata.1 ++ lit ": " ++ metadata.2 ++ newline)

/-- The loop over the user data, with its counter. -/
def dumpUserData : UserData → ℕ → Bytes → LogOp Bytes
  | [], _, buffer => return buffer
  | data :: rest, cpt, buffer => do
    let buffer := buffer ++ lit (toString cpt) ++ lit ": " ++ data ++ newline
    if cpt = INT_MAX then
      throw .overflow
    dumpUserData rest (cpt + 1) buffer

/-- What `fty-msgbus-cli` shows of a message. -/
def dumpMessage (msg : Message) : LogOp Unit := do
  let buffer := separator ++ newline
  let buffer := dumpMetaData msg.metaData.entries buffer
  let buffer ← dumpUserData msg.userData 0 buffer
  logInfo (cStr buffer)

def metaDataLine (pair : Bytes × Bytes) : Bytes :=
  lit "* " ++ pair.1 ++ lit ": " ++ pair.2 ++ newline

def userDataLine (data : Bytes) (i : ℕ) : Bytes :=
  lit (toString i) ++ lit ": " ++ data ++ newline

/-- What a message should look like when it is shown. -/
def shown (msg : Message) : Bytes :=
  separator ++ newline ++ msg.metaData.entries.flatMap metaDataLine ++
    (msg.userData.zipIdx.flatMap fun p => userDataLine p.1 p.2)

/-- The part of it that the sender has chosen. -/
def content (msg : Message) : Bytes :=
  (msg.metaData.entries.flatMap fun pair => pair.1 ++ pair.2) ++ msg.userData.flatten

end Messagebus.Cli
