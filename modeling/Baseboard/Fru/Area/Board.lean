import Baseboard.Calendar
import Baseboard.Fru.Area.Basic

/-!
# Baseboard.Fru.Area.Board

The board area: a language, the date of manufacture, and fields in that
language.
-/

namespace Baseboard.Fru

/-- The Unix time of 1996-01-01T00:00:00Z, from which boards count minutes. -/
def boardEpoch : Nat := 820454400

/-- The Unix time of a board's date of manufacture, three bytes of minutes. -/
def manufactureTime (b0 b1 b2 : UInt8) : Nat := boardEpoch + 60 * (le24 b0 b1 b2).toNat

/-- What an inventory says about the board. -/
structure BoardArea extends Area where
  language : UInt8
  /-- When the board was made, in seconds since 1970. -/
  manufactured : Nat
  deriving DecidableEq, Repr

namespace BoardArea

/-- The area at the start of `buf`. -/
def decode (buf : List UInt8) : Except Fault BoardArea := do
  let ⟨bytes, h⟩ ← AreaKind.board.span buf
  have : 6 < bytes.length := h
  return {
    toArea := .ofSpan .board bytes h
    language := bytes[2]
    manufactured := manufactureTime bytes[3] bytes[4] bytes[5] }

/-- The value of the field at an index. -/
def value? (a : BoardArea) (index : Nat) : Option Value := a.toArea.value? a.language index

def manufacturer? (a : BoardArea) : Option Value := a.value? 0

def productName? (a : BoardArea) : Option Value := a.value? 1

def serialNumber? (a : BoardArea) : Option Value := a.value? 2

def partNumber? (a : BoardArea) : Option Value := a.value? 3

def fruFileId? (a : BoardArea) : Option Value := a.value? 4

/-- The values of the maker's own fields. -/
def custom (a : BoardArea) : List Value := a.toArea.custom 5 a.language

/-- When the board was made, as a date. -/
def manufacturedAt (a : BoardArea) : DateTime := .ofUnix a.manufactured

/-- The report of the area: its date, then its fields. -/
def report (a : BoardArea) : String :=
  reportLine "Board Mfg Date" a.manufacturedAt.text ++ a.toArea.report .board a.language

end BoardArea

end Baseboard.Fru
