import IndexRefresh.Main
import IndexRefresh.Rehearsal
import IndexRefresh.Proofs.Service.Step
import IndexRefresh.Proofs.Service.Effect
import IndexRefresh.Proofs.Counting
import IndexRefresh.Proofs.Service.Permits
import IndexRefresh.Proofs.Ledger.Records
import IndexRefresh.Proofs.Service.Jobs
import IndexRefresh.Proofs.Update.Stages
import IndexRefresh.Proofs.Update.Course
import IndexRefresh.Proofs.Update.Itinerary
import IndexRefresh.Proofs.Update.Exits
import IndexRefresh.Proofs.Service.Runs
import IndexRefresh.Proofs.Store.Memory
import IndexRefresh.Proofs.Fallible
import IndexRefresh.Proofs.Disk
import IndexRefresh.Proofs.Json.Lexer
import IndexRefresh.Proofs.Json.Reader
import IndexRefresh.Proofs.Json.Printer
import IndexRefresh.Proofs.Calendar.Timestamp
import IndexRefresh.Proofs.Json.Form
import IndexRefresh.Proofs.Json.Record
import IndexRefresh.Proofs.Store.Document
import IndexRefresh.Proofs.Json.RoundTrip
import IndexRefresh.Proofs.Store.Files
import IndexRefresh.Proofs.Store.Replacing
import IndexRefresh.Proofs.Store.SharedFile
import IndexRefresh.Proofs.Store.Updates
import IndexRefresh.Proofs.Store.Calls
import IndexRefresh.Proofs.Store.Refinement
import IndexRefresh.Proofs.Store.Keys
import IndexRefresh.Proofs.Update.Cancellation
import IndexRefresh.Proofs.Update.Overflow
import IndexRefresh.Proofs.GitHub.Pages
import IndexRefresh.Proofs.GitHub.Paging
import IndexRefresh.Proofs.GitHub.Exchange
import IndexRefresh.Proofs.GitHub.Retrying
import IndexRefresh.Proofs.Update.Completeness
import IndexRefresh.Proofs.Service.Watching
import IndexRefresh.Proofs.Service.Outcomes
import IndexRefresh.Proofs.Update.Messages
import IndexRefresh.Proofs.Service.Replay
import IndexRefresh.Proofs.Service.Calls
import IndexRefresh.Proofs.Service.Timeouts
import IndexRefresh.Proofs.Guard.History
import IndexRefresh.Proofs.Ledger.History
import IndexRefresh.Proofs.Store.Mishaps
import IndexRefresh.Proofs.Service.Admission
import IndexRefresh.Proofs.Service.Requests
import IndexRefresh.Proofs.Service.Parties
import IndexRefresh.Proofs.Service.Outlook
import IndexRefresh.Proofs.Service.Independence
import IndexRefresh.Proofs.Update.Listening
import IndexRefresh.Proofs.Service.Listening
import IndexRefresh.Proofs.Ledger.Sweeping
import IndexRefresh.Proofs.CommandLine.Vigil
import IndexRefresh.Proofs.CommandLine.Polling
import IndexRefresh.Proofs.Json.Members
import IndexRefresh.Proofs.Json.Shape
import IndexRefresh.Proofs.Json.Blanks
import IndexRefresh.Proofs.Json.KnownFields
import IndexRefresh.Proofs.Text.Cut
import IndexRefresh.Proofs.Repository.Address
import IndexRefresh.Proofs.Guard.Cooldown
import IndexRefresh.Proofs.Ledger.Eviction
import IndexRefresh.Proofs.Update.Convergence
import IndexRefresh.Proofs.GitHub.Branches
import IndexRefresh.Proofs.Command.Pipeline
import IndexRefresh.Proofs.GitHub.Links
import IndexRefresh.Proofs.CommandLine.Secrecy
import IndexRefresh.Proofs.Settings.Layering
import IndexRefresh.Proofs.Settings.TextKeys
import IndexRefresh.Proofs.Rehearsal
