import Baseboard.Address
import Baseboard.Attempts
import Baseboard.Bytes
import Baseboard.Calendar
import Baseboard.Command
import Baseboard.Command.Perform
import Baseboard.Command.Reply
import Baseboard.CompletionCode
import Baseboard.Console
import Baseboard.Controller.Chassis
import Baseboard.Controller.DeviceId
import Baseboard.Controller.SelfTest
import Baseboard.Dialogue
import Baseboard.Dump
import Baseboard.Failure
import Baseboard.Fru.Access
import Baseboard.Fru.Area.Basic
import Baseboard.Fru.Area.Board
import Baseboard.Fru.Area.Chassis
import Baseboard.Fru.Area.Product
import Baseboard.Fru.Assembly
import Baseboard.Fru.Device
import Baseboard.Fru.Fault
import Baseboard.Fru.Field
import Baseboard.Fru.Header
import Baseboard.Fru.Inventory
import Baseboard.Fru.Retrieval
import Baseboard.Message
import Baseboard.Proofs.Attempts
import Baseboard.Proofs.Calendar.Date
import Baseboard.Proofs.Calendar.Instant
import Baseboard.Proofs.Calendar.Text
import Baseboard.Proofs.Command.Attempts
import Baseboard.Proofs.Command.Leftover
import Baseboard.Proofs.Command.Reply
import Baseboard.Proofs.Command.Wire
import Baseboard.Proofs.Exchange
import Baseboard.Proofs.FirstFailure
import Baseboard.Proofs.Fru.Acceptance
import Baseboard.Proofs.Fru.Collection
import Baseboard.Proofs.Fru.Corruption
import Baseboard.Proofs.Fru.FieldList
import Baseboard.Proofs.Fru.Grammar
import Baseboard.Proofs.Fru.Header
import Baseboard.Proofs.Fru.InRange
import Baseboard.Proofs.Fru.InternalUse
import Baseboard.Proofs.Fru.LastByte
import Baseboard.Proofs.Fru.Layout
import Baseboard.Proofs.Fru.Locality
import Baseboard.Proofs.Fru.Presentation
import Baseboard.Proofs.Fru.Pushes
import Baseboard.Proofs.Fru.Salvage
import Baseboard.Proofs.Fru.Span
import Baseboard.Proofs.Fru.Supply
import Baseboard.Proofs.Fru.TextField
import Baseboard.Proofs.Fru.TextValue
import Baseboard.Proofs.Indexing
import Baseboard.Proofs.Retry
import Baseboard.Proofs.Sel.Bounds
import Baseboard.Proofs.Sel.Budget
import Baseboard.Proofs.Sel.Calls
import Baseboard.Proofs.Sel.Chain
import Baseboard.Proofs.Sel.Delivery
import Baseboard.Proofs.Sel.Discipline
import Baseboard.Proofs.Sel.Encoding
import Baseboard.Proofs.Sel.Ending
import Baseboard.Proofs.Sel.Fetch
import Baseboard.Proofs.Sel.Lasso
import Baseboard.Proofs.Sel.LatestLimit
import Baseboard.Proofs.Sel.LifeCycle
import Baseboard.Proofs.Sel.Limit
import Baseboard.Proofs.Sel.Look
import Baseboard.Proofs.Sel.Order
import Baseboard.Proofs.Sel.Parts
import Baseboard.Proofs.Sel.Service
import Baseboard.Proofs.Sel.Streak
import Baseboard.Proofs.Sel.Turn
import Baseboard.Proofs.Sel.Window
import Baseboard.Proofs.Settings
import Baseboard.Proofs.Text.Blank
import Baseboard.Proofs.Text.Repair
import Baseboard.Proofs.Text.Utf8
import Baseboard.Proofs.Wrapping
import Baseboard.Sel.Clearing
import Baseboard.Sel.Erasure
import Baseboard.Sel.EventText
import Baseboard.Sel.Info
import Baseboard.Sel.Reading
import Baseboard.Sel.Record
import Baseboard.Sel.RecordId
import Baseboard.Sel.SensorType
import Baseboard.Sel.Timestamp
import Baseboard.Sel.Walk
import Baseboard.Settings
import Baseboard.Text.Blank
import Baseboard.Text.Column
import Baseboard.Text.Hex
import Baseboard.Text.Utf8
import Baseboard.Transport
import Baseboard.Transport.Script
