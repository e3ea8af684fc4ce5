import Messagebus.Lib.Handles
import Messagebus.Zmsg

namespace Messagebus.Frames

/-- A frame as a handle, which `_fromZmsg` owns from the `zmsg_pop` that hands it out to its
`zframe_destroy`. -/
structure Zframe where
  handle : ℕ
  data : Frame

/-- What can go wrong with a frame: it is null, or it has been destroyed. -/
inductive FrameFault where
  | nullFrame
  | destroyedFrame

abbrev FrameOp := EStateM FrameFault Handles

/-- `zmsg_pop` where there is a frame left; where there is none it returns null, which
is `none` here. -/
def zmsgPop (frame : Frame) : FrameOp (Option Zframe) := fun h =>
  .ok (some ⟨h.issued, frame⟩) h.issue

/-- `zframe_data` and `zframe_size` -/
def zframeData : Option Zframe → FrameOp Frame
  | none => throw .nullFrame
  | some item => fun h =>
    if item.handle ∈ h.owned then .ok item.data h else .error .destroyedFrame h

/-- `zframe_destroy`; the result is the null that is left in the variable. -/
def zframeDestroy : Option Zframe → FrameOp (Option Zframe)
  | none => return none
  | some item => fun h =>
    if hi : item.handle ∈ h.owned then .ok none (h.release item.handle hi)
    else .error .destroyedFrame h

def metaDataLoop : Zmsg → MetaData → FrameOp (MetaData × Zmsg)
  | [], metaData => return (metaData, [])
  | [frame], metaData => do
    let item ← zmsgPop frame
    let key ← zframeData item
    let _ ← zframeDestroy item
    if key = metadataEnd then
      return (metaData, [])
    let _ ← zframeData none
    return (metaData, [])
  | frame :: frame' :: msg, metaData => do
    let item ← zmsgPop frame
    let key ← zframeData item
    let item ← zframeDestroy item
    if key = metadataEnd then
      return (metaData, frame' :: msg)
    let zvalue ← zmsgPop frame'
    let value ← zframeData zvalue
    -- `item`, not `zvalue`
    let _ ← zframeDestroy item
    metaDataLoop msg (metaData.emplace key value)

def userDataLoop : Zmsg → UserData → FrameOp UserData
  | [], userData => return userData
  | frame :: msg, userData => do
    let item ← zmsgPop frame
    let data ← zframeData item
    let _ ← zframeDestroy item
    userDataLoop msg (userData ++ [data])

def fromZmsg : Zmsg → FrameOp Message
  | [] => return .empty
  | frame :: msg => do
    let item ← zmsgPop frame
    let key ← zframeData item
    let _ ← zframeDestroy item
    if key = metadataStart then
      let (metaData, msg) ← metaDataLoop msg .empty
      return ⟨metaData, ← userDataLoop msg []⟩
    else
      return ⟨.empty, ← userDataLoop msg [key]⟩

end Messagebus.Frames
