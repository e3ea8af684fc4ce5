import Messagebus.Message

namespace Messagebus

abbrev Frame := Bytes

/-- A multipart message: `zmsg_addmem` adds at the end, `zmsg_pop` takes from the front. -/
abbrev Zmsg := List Frame

/-- How a call ends when it does not return. `thrown` is a `MessageBusException`;
the other two are undefined: the data of the frame that `zmsg_pop` did not
return, the value of a metadata iterator equal to `end()`. -/
inductive Fault where
  | thrown (what : String)
  | nullFrame
  | endIterator
deriving DecidableEq

def metadataStart : Frame := lit "__METADATA_START"

def metadataEnd : Frame := lit "__METADATA_END"

/-- The `while` over keys and values. Only the pop of the key is tested; the
pop of the value is used as it comes. -/
def metaDataLoop : Zmsg → MetaData → Except Fault (MetaData × Zmsg)
  | [], metaData => .ok (metaData, [])
  | [key], metaData => if key = metadataEnd then .ok (metaData, []) else .error .nullFrame
  | key :: value :: msg, metaData =>
    if key = metadataEnd then .ok (metaData, value :: msg)
    else metaDataLoop msg (metaData.emplace key value)

/-- The `while` which takes every frame that is left as user data. -/
def userDataLoop : Zmsg → UserData → UserData
  | [], userData => userData
  | item :: msg, userData => userDataLoop msg (userData ++ [item])

def fromZmsg : Zmsg → Except Fault Message
  | [] => .ok .empty
  | key :: msg =>
    if key = metadataStart then do
      let (metaData, msg) ← metaDataLoop msg .empty
      return ⟨metaData, userDataLoop msg []⟩
    else
      return ⟨.empty, userDataLoop msg [key]⟩

def toZmsg (message : Message) : Zmsg :=
  [metadataStart]
    ++ message.metaData.entries.flatMap (fun pair => [pair.1, pair.2])
    ++ [metadataEnd]
    ++ message.userData

end Messagebus
