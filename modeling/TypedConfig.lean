import TypedConfig.Registry.Operation
import TypedConfig.Settings.Toml
import TypedConfig.Proofs.Evolution
import TypedConfig.Proofs.Evolution.Document
import TypedConfig.Proofs.Evolution.Registry
import TypedConfig.Proofs.Options
import TypedConfig.Proofs.WellFormed
import TypedConfig.Proofs.Parents
import TypedConfig.Proofs.Routing
import TypedConfig.Proofs.Projection
import TypedConfig.Proofs.Reload
import TypedConfig.Proofs.Lines
import TypedConfig.Proofs.RoundTrip
import TypedConfig.Proofs.Paths
import TypedConfig.Proofs.Places
import TypedConfig.Proofs.Accesses
import TypedConfig.Proofs.Backups
import TypedConfig.Proofs.Rejection
import TypedConfig.Proofs.Confinement
import TypedConfig.Proofs.Saving
import TypedConfig.Proofs.Representation
import TypedConfig.Roster.Search
import TypedConfig.Proofs.Containers
import TypedConfig.Proofs.Renaming
import TypedConfig.Proofs.Outcomes
import TypedConfig.Proofs.Notifications
import TypedConfig.Proofs.Notifications.Registry
import TypedConfig.Proofs.Notifications.Run
import TypedConfig.Proofs.Convergence
import TypedConfig.Proofs.FailedReload
import TypedConfig.Proofs.Bootstrap
import TypedConfig.Proofs.Refusals
import TypedConfig.Proofs.Commutation
import TypedConfig.Proofs.Creation
import TypedConfig.Proofs.Migrations
import TypedConfig.Proofs.Padding
import TypedConfig.Proofs.Addressing
import TypedConfig.Proofs.Naming
import TypedConfig.Proofs.Teardown
import TypedConfig.Proofs.Bulk
import TypedConfig.Proofs.Polling
import TypedConfig.Proofs.Offsets
import TypedConfig.Proofs.Numbers
import TypedConfig.Proofs.Direct
import TypedConfig.Proofs.Colors
import TypedConfig.Proofs.Canonical
import TypedConfig.Proofs.Rings
import TypedConfig.Proofs.Toggles
import TypedConfig.Proofs.Chains
import TypedConfig.Proofs.Definitions
import TypedConfig.Proofs.Probing
import TypedConfig.Proofs.Listing
import TypedConfig.Proofs.LineEnds
import TypedConfig.Proofs.OptionLines
import TypedConfig.Proofs.Warnings
