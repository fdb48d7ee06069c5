import Baseboard.Fru.Area.Board
import Baseboard.Fru.Area.Chassis
import Baseboard.Fru.Area.Product
import Baseboard.Fru.Header

/-!
# Baseboard.Fru.Inventory

An inventory: the common header and the areas that it places.

The areas are decoded in the order chassis, board, product, and the first fault
refuses the inventory.  The internal use and multi-record areas are not decoded.
-/

namespace Baseboard.Fru

/-- The bytes from the start of an area on, `none` for an absent area. -/
def areaBytes (kind : AreaKind) (data : List UInt8) (offset : UInt8) :
    Except Fault (Option (List UInt8)) :=
  let start := 8 * offset.toNat
  if offset = 0 then .ok none
  else if data.length ≤ start then .error (.areaOffset kind.name start data.length)
  else .ok (some (data.drop start))

/-- The area of some kind that the header places at `offset`, read with `decode`. -/
def areaAt {α : Type} (kind : AreaKind) (decode : List UInt8 → Except Fault α)
    (data : List UInt8) (offset : UInt8) : Except Fault (Option α) := do
  match ← areaBytes kind data offset with
  | none => return none
  | some bytes => return some (← decode bytes)

/-- A decoded inventory. -/
structure Inventory where
  header : Header
  chassis : Option ChassisArea
  board : Option BoardArea
  product : Option ProductArea
  deriving DecidableEq, Repr

namespace Inventory

/-- The inventory in some bytes. -/
def decode (data : List UInt8) : Except Fault Inventory := do
  let header ← Header.decode data
  let chassis ← areaAt .chassis ChassisArea.decode data header.chassis
  let board ← areaAt .board BoardArea.decode data header.board
  let product ← areaAt .product ProductArea.decode data header.product
  return { header, chassis, board, product }

/-- The report of an inventory, area by area.  An absent chassis area is left
out, the others are named as absent. -/
def report (i : Inventory) : String :=
  let chassis := match i.chassis with
    | some area => "Chassis Info Area:\n" ++ area.report
    | none => ""
  let board := match i.board with
    | some area => "Board Info Area:\n" ++ area.report
    | none => "Board Info Area: not present\n"
  let product := match i.product with
    | some area => "Product Info Area:\n" ++ area.report
    | none => "Product Info Area: not present\n"
  chassis ++ board ++ product

end Inventory

end Baseboard.Fru
