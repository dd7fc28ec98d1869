import Sandcube.Path.Basic
import Sandcube.Path.Resolve
import Sandcube.Path.Mounts
import Sandcube.Path.Relative
import Sandcube.Files.SandboxPath
import Sandcube.Table.Basic
import Sandcube.Table.Sum
import Sandcube.Prog.Basic
import Sandcube.Prog.Does
import Sandcube.Prog.Lockstep
import Sandcube.Transition.Basic
import Sandcube.Value.Json
import Sandcube.Journal.Schema
import Sandcube.Journal.Statements
import Sandcube.Journal.Capacity
import Sandcube.Journal.Intent
import Sandcube.Images.Store
import Sandcube.Images.Manager
import Sandcube.Images.Queue
import Sandcube.Runtime.Basic
import Sandcube.Runtime.Containers
import Sandcube.Runtime.Scripted
import Sandcube.Reliability.Basic
import Sandcube.Reliability.Converge
import Sandcube.Reliability.Request
import Sandcube.Reliability.Reconcile
import Sandcube.Reliability.Moves
import Sandcube.Reliability.Steps
import Sandcube.Service.Route
import Sandcube.System.Basic
import Sandcube.Invariants.Admission
import Sandcube.Invariants.Records
import Sandcube.Invariants.ExactlyOnce
import Sandcube.Invariants.ImageStates
import Sandcube.Invariants.Resurrection
import Sandcube.Host.Coupling
import Sandcube.Host.Overcommit
import Sandcube.Host.View
import Sandcube.Host.Faithful
import Sandcube.Host.Goal
import Sandcube.Host.Order
import Sandcube.Host.Clean
import Sandcube.Host.Sweep
import Sandcube.Host.Transparency
import Sandcube.Host.ImageUse
import Sandcube.Host.Missing
import Sandcube.Host.Expiry
import Sandcube.Host.Convergence
import Sandcube.Adapter.World
import Sandcube.Adapter.Background
import Sandcube.Adapter.Calls
import Sandcube.Adapter.Beside
import Sandcube.Adapter.Processes
import Sandcube.Adapter.Network
import Sandcube.Adapter.Quota
import Sandcube.Adapter.QuotaDevice
import Sandcube.Adapter.ImportImage
import Sandcube.Adapter.Lifecycle
import Sandcube.Adapter.Moves
import Sandcube.Adapter.Steps.Network
import Sandcube.Adapter.Steps.Quota
import Sandcube.Adapter.Steps.Processes
import Sandcube.Adapter.Steps.Recovery
import Sandcube.Adapter.Steps.Lifecycle
import Sandcube.Adapter.System
import Sandcube.Adapter.BackMoves
import Sandcube.Adapter.Calm
import Sandcube.Adapter.NetworkSafety
import Sandcube.Adapter.QuotaSafety
import Sandcube.Adapter.Reclaim
import Sandcube.Adapter.Infos
import Sandcube.Adapter.Registry
import Sandcube.Adapter.Coherence
import Sandcube.Adapter.AtMostOnce
import Sandcube.Adapter.Isolation
import Sandcube.Adapter.BookMoves
import Sandcube.Adapter.Books
import Sandcube.Adapter.ExitCodes
import Sandcube.Adapter.Lodging
import Sandcube.Adapter.Tenancy
import Sandcube.Context.Header
import Sandcube.Context.Extract
import Sandcube.Context.Confined
import Sandcube.Context.Archive
import Sandcube.Context.Recovers
import Sandcube.Value.Text
import Sandcube.Value.Read
import Sandcube.Value.GoDecode
import Sandcube.Service.ProcessBody
import Sandcube.Service.Keyed
import Sandcube.Service.CreateBody
import Sandcube.Adapter.Addresses
import Sandcube.Adapter.Neighbours
import Sandcube.Adapter.Deletion
import Sandcube.Adapter.Foreign
import Sandcube.Disk.Basic
import Sandcube.Metadata.Durable
import Sandcube.Adapter.Environment
import Sandcube.Inode.Basic
import Sandcube.Base64.Basic
import Sandcube.Files.Tree
import Sandcube.Files.Upload
import Sandcube.Value.Quoted
import Sandcube.Files.Transfer
import Sandcube.Adapter.Capture
import Sandcube.Adapter.Allocation
import Sandcube.Cli.Config
import Sandcube.Cli.Bundle
import Sandcube.Cli.Extract
import Sandcube.Cli.Release
