import Readback.Access.Recorded
import Readback.Access.Script
import Readback.Assertion.SimulatedAlarm
import Readback.Proofs.Poll
import Readback.Server.Transport
import Readback.Settings.Json
import Readback.Settings.Load
import Readback.Suite.Run
import Readback.Suite.Table
import Readback.Proofs.Watching
import Readback.Proofs.Verdict
import Readback.Proofs.Traffic
import Readback.Proofs.Conservation
import Readback.Proofs.Order
import Readback.Proofs.Delivery
import Readback.Proofs.Monitoring
import Readback.Proofs.Shadowing
import Readback.Proofs.Forcing
import Readback.Proofs.Sheltering
import Readback.Proofs.Restoring
import Readback.Proofs.Holding
import Readback.Proofs.Refusals
import Readback.Proofs.Reporting
import Readback.Proofs.Setpoints
import Readback.Proofs.Digits
import Readback.Proofs.JsonTrees
import Readback.Proofs.Spans
import Readback.Proofs.Tables
import Readback.Proofs.JsonSettings
import Readback.Proofs.Layers
import Readback.Proofs.Origins
import Readback.Proofs.Nesting
import Readback.Proofs.Cancelling
import Readback.Proofs.Pushing
import Readback.Proofs.Informing
import Readback.Proofs.Patience
import Readback.Proofs.Comparing
import Readback.Proofs.Blurring
import Readback.Proofs.Budget
import Readback.Proofs.Booting
import Readback.Proofs.Revising
import Readback.Proofs.Truncating
import Readback.Proofs.Differences
import Readback.Proofs.Writing
import Readback.Proofs.Turns
import Readback.Proofs.Resetting
import Readback.Proofs.Severities
import Readback.Proofs.Trends
import Readback.Proofs.Devices
import Readback.Proofs.Rendering
import Readback.Proofs.Coercing
import Readback.Proofs.Repeating
