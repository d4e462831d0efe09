import Switchboard.Main
import Switchboard.Event.Notifier
import Switchboard.Event.History
import Switchboard.Session.Scripted
import Switchboard.Message.Json
import Switchboard.Proofs.Text.Lines
import Switchboard.Proofs.Text.Words
import Switchboard.Proofs.Text.Decimal
import Switchboard.Proofs.Text.Utf8
import Switchboard.Proofs.Text.LineEnds
import Switchboard.Proofs.Text.Letters
import Switchboard.Proofs.Json.Path
import Switchboard.Proofs.Message.RoundTrip
import Switchboard.Proofs.Scenario.Field
import Switchboard.Proofs.Scenario.Wire
import Switchboard.Proofs.Scenario.Schema
import Switchboard.Proofs.Scenario.Fault
import Switchboard.Proofs.Scenario.Rules
import Switchboard.Proofs.Scenario.Refusal
import Switchboard.Proofs.Scenario.Clauses
import Switchboard.Proofs.Scenario.Verdict
import Switchboard.Proofs.Session.Phase
import Switchboard.Proofs.Session.Lifecycle
import Switchboard.Proofs.Session.Deed
import Switchboard.Proofs.Session.Roster
import Switchboard.Proofs.Session.Operations
import Switchboard.Proofs.Session.Tally
import Switchboard.Proofs.Session.Ledger
import Switchboard.Proofs.Session.Closing
import Switchboard.Proofs.Session.Frame
import Switchboard.Proofs.Session.Loops
import Switchboard.Proofs.Session.Course
import Switchboard.Proofs.Session.Joining
import Switchboard.Proofs.Session.ForkJoin
import Switchboard.Proofs.Server.Behind
import Switchboard.Proofs.Server.Admission
import Switchboard.Proofs.Server.Reuse
import Switchboard.Proofs.Server.Turns
import Switchboard.Proofs.Server.Chores
import Switchboard.Proofs.Server.Isolation
import Switchboard.Proofs.Server.LateAdmission
import Switchboard.Proofs.Session.Tending
import Switchboard.Proofs.Server.Errands
import Switchboard.Proofs.Server.Care
import Switchboard.Proofs.Server.Brisk
import Switchboard.Proofs.Server.Stopping
import Switchboard.Proofs.Server.Attendance
import Switchboard.Proofs.Server.Beside
import Switchboard.Proofs.Server.Running
import Switchboard.Proofs.Server.Lifecycle
import Switchboard.Proofs.Config.Document
import Switchboard.Proofs.Config.Layers
import Switchboard.Proofs.Session.Single
import Switchboard.Proofs.Message.ExitToken
import Switchboard.Proofs.Message.Grammar
import Switchboard.Proofs.Realizer.Account
import Switchboard.Proofs.Realizer.Beside
import Switchboard.Proofs.Realizer.ClientCourse
import Switchboard.Proofs.Realizer.ServerCourse
import Switchboard.Proofs.Realizer.Actions
import Switchboard.Proofs.Scenario.Transmission
import Switchboard.Proofs.Session.Stance
import Switchboard.Realizer.Meeting
import Switchboard.Proofs.Realizer.Script
import Switchboard.Proofs.Realizer.ClientPhases
import Switchboard.Proofs.Realizer.ServerPhases
import Switchboard.Proofs.Realizer.Dialogue
import Switchboard.Proofs.Event.Broadcast
import Switchboard.Proofs.Event.Seating
import Switchboard.Proofs.Session.Custody
import Switchboard.Proofs.Client.Account
import Switchboard.Proofs.Client.Sessions
import Switchboard.Proofs.Client.Trials
import Switchboard.Proofs.Session.Telling
import Switchboard.Proofs.Session.Idleness
import Switchboard.Proofs.Session.Timekeeping
import Switchboard.Proofs.Server.Cells
import Switchboard.Proofs.Server.Delivery
import Switchboard.Proofs.Server.Eviction
import Switchboard.Proofs.Cli.Inputs
import Switchboard.Proofs.Message.Json
