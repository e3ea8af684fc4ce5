import Mathlib.Data.List.Lex
import Mathlib.Data.List.TakeWhile
import Mathlib.Order.Fin.Basic
import Messagebus.Lib.SortedMap

namespace Messagebus

/-- The bytes of a `std::string`. Its `<` compares them unsigned, as here. -/
abbrev Bytes := List (Fin 256)

/-- The bytes of an ASCII text, such as the literals of the source. -/
def lit (s : String) : Bytes := s.toList.map (fun c => Fin.ofNat 256 c.toNat)

/-- The byte of an ASCII character. -/
def letter (c : Char) : Fin 256 := Fin.ofNat 256 c.toNat

/-- What a C function makes of `s.c_str()`: it stops at the first NUL. -/
def cStr (s : Bytes) : Bytes := s.takeWhile (fun b => b ≠ 0)

abbrev UserData := List Bytes

abbrev MetaData := SortedMap Bytes Bytes

structure Message where
  metaData : MetaData
  userData : UserData
deriving DecidableEq

namespace Message

def REPLY_TO : Bytes := lit "_replyTo"
def CORRELATION_ID : Bytes := lit "_correlationId"
def FROM : Bytes := lit "_from"
def TO : Bytes := lit "_to"
def SUBJECT : Bytes := lit "_subject"
def TIMEOUT : Bytes := lit "_timeout"

/-- The default constructor. -/
def empty : Message := ⟨.empty, []⟩

def correlationId (message : Message) : Option Bytes := message.metaData.find CORRELATION_ID

end Message

theorem cStr_eq_self {s : Bytes} (h : 0 ∉ s) : cStr s = s := by
  apply List.takeWhile_eq_self_iff.mpr
  intro b hb
  exact decide_eq_true (fun he => h (he ▸ hb))

end Messagebus
