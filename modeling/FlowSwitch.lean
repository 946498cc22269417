import FlowSwitch.Action.Basic
import FlowSwitch.Action.Set
import FlowSwitch.Bytes
import FlowSwitch.Checksum
import FlowSwitch.Config
import FlowSwitch.ConfigValue
import FlowSwitch.Counter
import FlowSwitch.Crc32c
import FlowSwitch.Error
import FlowSwitch.Event.Basic
import FlowSwitch.Event.Buffer
import FlowSwitch.Event.Notifier
import FlowSwitch.Flow.Entry
import FlowSwitch.Flow.Filter
import FlowSwitch.Flow.Instruction
import FlowSwitch.Flow.Table
import FlowSwitch.Forward.Execute
import FlowSwitch.Forward.Output
import FlowSwitch.Forward.Pass
import FlowSwitch.Forward.Walk
import FlowSwitch.Group.Bucket
import FlowSwitch.Group.Choice
import FlowSwitch.Group.Table
import FlowSwitch.Identifier
import FlowSwitch.Match.Basic
import FlowSwitch.Match.Field
import FlowSwitch.Match.Packet
import FlowSwitch.Meter.Police
import FlowSwitch.Meter.Table
import FlowSwitch.Packet.FieldWrite
import FlowSwitch.Packet.Frame
import FlowSwitch.Packet.Headers
import FlowSwitch.Packet.Parse
import FlowSwitch.Packet.Tagging
import FlowSwitch.Port.Basic
import FlowSwitch.Port.Device
import FlowSwitch.Port.Table
import FlowSwitch.Proofs.Action.Latest
import FlowSwitch.Proofs.Action.Order
import FlowSwitch.Proofs.Crc32c
import FlowSwitch.Proofs.Event.Buffer
import FlowSwitch.Proofs.Flow.Instruction
import FlowSwitch.Proofs.Flow.Order
import FlowSwitch.Proofs.Forward.Abreast
import FlowSwitch.Proofs.Forward.Capped
import FlowSwitch.Proofs.Forward.Checked
import FlowSwitch.Proofs.Forward.Dropping
import FlowSwitch.Proofs.Forward.Effect
import FlowSwitch.Proofs.Forward.Ending
import FlowSwitch.Proofs.Forward.Failing
import FlowSwitch.Proofs.Forward.Misfits
import FlowSwitch.Proofs.Forward.Record
import FlowSwitch.Proofs.Forward.Settled
import FlowSwitch.Proofs.Forward.View
import FlowSwitch.Proofs.Group.Choice
import FlowSwitch.Proofs.Group.Dues
import FlowSwitch.Proofs.Match.Coverage
import FlowSwitch.Proofs.Match.Overlap
import FlowSwitch.Proofs.Match.Prerequisites
import FlowSwitch.Proofs.Match.Same
import FlowSwitch.Proofs.Meter.Account
import FlowSwitch.Proofs.Meter.Reckoning
import FlowSwitch.Proofs.Packet.Access
import FlowSwitch.Proofs.Packet.Agree
import FlowSwitch.Proofs.Packet.Assign
import FlowSwitch.Proofs.Packet.Balance
import FlowSwitch.Proofs.Packet.Behind
import FlowSwitch.Proofs.Packet.Bits
import FlowSwitch.Proofs.Packet.Blank
import FlowSwitch.Proofs.Packet.Cell
import FlowSwitch.Proofs.Packet.Checksums
import FlowSwitch.Proofs.Packet.CodePoint
import FlowSwitch.Proofs.Packet.Commute
import FlowSwitch.Proofs.Packet.Compose
import FlowSwitch.Proofs.Packet.Datagram
import FlowSwitch.Proofs.Packet.Decode
import FlowSwitch.Proofs.Packet.Edits
import FlowSwitch.Proofs.Packet.Extent
import FlowSwitch.Proofs.Packet.Fragment
import FlowSwitch.Proofs.Packet.Layout
import FlowSwitch.Proofs.Packet.Merge
import FlowSwitch.Proofs.Packet.Moved
import FlowSwitch.Proofs.Packet.Padding
import FlowSwitch.Proofs.Packet.Parts
import FlowSwitch.Proofs.Packet.Places
import FlowSwitch.Proofs.Packet.Push
import FlowSwitch.Proofs.Packet.Reach
import FlowSwitch.Proofs.Packet.Reading
import FlowSwitch.Proofs.Packet.Recompute
import FlowSwitch.Proofs.Packet.Recover
import FlowSwitch.Proofs.Packet.Reread
import FlowSwitch.Proofs.Packet.Residue
import FlowSwitch.Proofs.Packet.Scripts
import FlowSwitch.Proofs.Packet.Sealed
import FlowSwitch.Proofs.Packet.Shape
import FlowSwitch.Proofs.Packet.Silence
import FlowSwitch.Proofs.Packet.Spelling
import FlowSwitch.Proofs.Packet.Splices
import FlowSwitch.Proofs.Packet.Steady
import FlowSwitch.Proofs.Packet.Tag
import FlowSwitch.Proofs.Packet.Transparent
import FlowSwitch.Proofs.Packet.Values
import FlowSwitch.Proofs.Packet.View
import FlowSwitch.Proofs.Packet.Words
import FlowSwitch.Proofs.Port.Reports
import FlowSwitch.Proofs.Port.Sending
import FlowSwitch.Proofs.Port.Stepwise
import FlowSwitch.Proofs.Steps
import FlowSwitch.Proofs.Switch.Bounded
import FlowSwitch.Proofs.Switch.Chains
import FlowSwitch.Proofs.Switch.Dropping
import FlowSwitch.Proofs.Switch.Granted
import FlowSwitch.Proofs.Switch.MeterUses
import FlowSwitch.Proofs.Switch.Outcounts
import FlowSwitch.Proofs.Switch.References
import FlowSwitch.Proofs.Switch.Refused
import FlowSwitch.Proofs.Switch.Sending
import FlowSwitch.Proofs.Switch.Tables
import FlowSwitch.Proofs.Tables.Carried
import FlowSwitch.Proofs.Tables.Classify
import FlowSwitch.Proofs.Tables.Each
import FlowSwitch.Proofs.Tables.Entries
import FlowSwitch.Proofs.Tables.Groups
import FlowSwitch.Proofs.Tables.Installed
import FlowSwitch.Proofs.Tables.MeterUses
import FlowSwitch.Proofs.Tables.Moves
import FlowSwitch.Proofs.Tables.Numbers
import FlowSwitch.Proofs.Tables.Onward
import FlowSwitch.Proofs.Tables.Overlap
import FlowSwitch.Proofs.Tables.Plans
import FlowSwitch.Proofs.Tables.References
import FlowSwitch.Proofs.Tables.Removal
import FlowSwitch.Proofs.Tables.Selection
import FlowSwitch.Proofs.Tables.Selective
import FlowSwitch.Proofs.Tables.Settled
import FlowSwitch.Proofs.Tables.Sound
import FlowSwitch.Proofs.Tables.Stepwise
import FlowSwitch.Proofs.Tables.Strict
import FlowSwitch.Proofs.Trace.Directives
import FlowSwitch.Proofs.Trace.Levels
import FlowSwitch.Registry
import FlowSwitch.Scheduler
import FlowSwitch.Switch.Basic
import FlowSwitch.Switch.Command
import FlowSwitch.Switch.Control
import FlowSwitch.Switch.Packet
import FlowSwitch.Tables.Basic
import FlowSwitch.Tables.Command
import FlowSwitch.Tables.Modify
import FlowSwitch.Tables.Remove
import FlowSwitch.Tables.Report
import FlowSwitch.Time
import FlowSwitch.Trace.Config
import FlowSwitch.Trace.Control
import FlowSwitch.Trace.Level
