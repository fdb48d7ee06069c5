import Baseboard.Fru.Area.Basic

/-!
# Baseboard.Fru.Area.Product

The product area: a language, and fields in that language.
-/

namespace Baseboard.Fru

/-- What an inventory says about the product. -/
structure ProductArea extends Area where
  language : UInt8
  deriving DecidableEq, Repr

namespace ProductArea

/-- The area at the start of `buf`. -/
def decode (buf : List UInt8) : Except Fault ProductArea := do
  let ⟨bytes, h⟩ ← AreaKind.product.span buf
  have : 2 < bytes.length := Nat.lt_trans (AreaKind.two_lt_fieldsStart .product) h
  return { toArea := .ofSpan .product bytes h, language := bytes[2] }

/-- The value of the field at an index. -/
def value? (a : ProductArea) (index : Nat) : Option Value := a.toArea.value? a.language index

def manufacturer? (a : ProductArea) : Option Value := a.value? 0

def name? (a : ProductArea) : Option Value := a.value? 1

def partNumber? (a : ProductArea) : Option Value := a.value? 2

def productVersion? (a : ProductArea) : Option Value := a.value? 3

def serialNumber? (a : ProductArea) : Option Value := a.value? 4

def assetTag? (a : ProductArea) : Option Value := a.value? 5

def fruFileId? (a : ProductArea) : Option Value := a.value? 6

/-- The values of the maker's own fields. -/
def custom (a : ProductArea) : List Value := a.toArea.custom 7 a.language

/-- The report of the area: its fields. -/
def report (a : ProductArea) : String := a.toArea.report .product a.language

end ProductArea

end Baseboard.Fru
