import UnionFS.Cli.Memory
import UnionFS.Client.Fault
import UnionFS.Client.Shared
import UnionFS.Main
import UnionFS.Network.Attached
import UnionFS.Session.Schedule
import UnionFS.Session.Company
import UnionFS.Session.Departure
import UnionFS.Session.Upkeep
import UnionFS.Tree.Dates
import UnionFS.Tree.Layout
import UnionFS.Tree.WellFormed
import UnionFS.Union.Memory
import UnionFS.Wire.Conversation
import UnionFS.Wire.Datum
import UnionFS.Proofs.Export.Refusal
import UnionFS.Proofs.Wire.Reads
import UnionFS.Proofs.Client.Replies
import UnionFS.Proofs.Wire.Agreement
import UnionFS.Proofs.Tree.Outline
import UnionFS.Proofs.Export.Confinement
import UnionFS.Proofs.Tree.Dates
import UnionFS.Proofs.Export.Dates
import UnionFS.Proofs.Union.Listing
import UnionFS.Proofs.Session.Settled
import UnionFS.Proofs.Session.Writes
import UnionFS.Proofs.Network.Remote
import UnionFS.Proofs.Client.Apart
import UnionFS.Proofs.Client.Write
import UnionFS.Proofs.Union.Writes
import UnionFS.Proofs.Network.Serving
import UnionFS.Proofs.Client.Pieces
import UnionFS.Proofs.Client.Grammar
import UnionFS.Proofs.Client.Errands
import UnionFS.Proofs.Client.InStep
import UnionFS.Proofs.Session.Cuts
import UnionFS.Proofs.Session.Timing
import UnionFS.Proofs.Wire.Readers
import UnionFS.Proofs.Export.Alignment
import UnionFS.Proofs.Session.Admission
import UnionFS.Proofs.Session.History
import UnionFS.Proofs.Session.Waits
import UnionFS.Proofs.Session.Rounds
import UnionFS.Proofs.Session.Courses
import UnionFS.Proofs.Session.Expiry
import UnionFS.Proofs.Session.Likeness
import UnionFS.Proofs.Session.Dates
import UnionFS.Proofs.Session.Pace
import UnionFS.Proofs.Session.Departure
import UnionFS.Proofs.Session.Changes
import UnionFS.Proofs.Session.Neighbours
import UnionFS.Proofs.Client.Shutdown
import UnionFS.Proofs.Client.Stopping
import UnionFS.Client.Shutdown
import UnionFS.Proofs.Client.Deeds
import UnionFS.Proofs.Client.Accounts
import UnionFS.Proofs.Client.Turns
import UnionFS.Proofs.Client.Serial
import UnionFS.Proofs.Client.Serialised
import UnionFS.Proofs.Union.Merging
import UnionFS.Proofs.Union.Names
import UnionFS.Proofs.Union.Walks
import UnionFS.Proofs.Client.ShortReads
import UnionFS.Proofs.Tree.Sight
import UnionFS.Proofs.Export.Seclusion
import UnionFS.Proofs.Export.Permission
import UnionFS.Proofs.Export.Search
import UnionFS.Proofs.Export.Lookup
import UnionFS.Proofs.Session.Greeting
import UnionFS.Proofs.Plan
import UnionFS.Proofs.Union.Runs
import UnionFS.Proofs.Union.Routing
import UnionFS.Proofs.Union.Overwriting
import UnionFS.Proofs.Union.Verdicts
import UnionFS.Proofs.Union.Delimiters
import UnionFS.Proofs.Union.Recording
import UnionFS.Proofs.Union.Printing
import UnionFS.Proofs.Wire.RoundTrip
import UnionFS.Proofs.Wire.Canonical
import UnionFS.Proofs.Client.Rounds
import UnionFS.Proofs.Client.Words
import UnionFS.Proofs.Text.Words
import UnionFS.Proofs.Keys.Layout
import UnionFS.Proofs.Config.Usable
import UnionFS.Proofs.Export.PathField
import UnionFS.Proofs.Union.Arrival
import UnionFS.Client.Launch
import UnionFS.Proofs.Client.Launch
import UnionFS.Proofs.Path.Spelling
