import Irosh.Lib.Exec
import Irosh.Lib.Prog
import Irosh.Lib.UnixPath
import Irosh.Storage.Trust
import Irosh.Auth.Unified
import Irosh.Auth.Sessions
import Irosh.Auth.Interleaved
import Irosh.Auth.RateLimit
import Irosh.Auth.Check
import Irosh.Auth.Tracking
import Irosh.Server.Gate
import Irosh.Server.Loop
import Irosh.Server.Control
import Irosh.Transfer.Sanitize
import Irosh.Transfer.Receive
import Irosh.Proof.Gate
import Irosh.Proof.Containment
import Irosh.Proof.Provenance
import Irosh.Proof.Owner
import Irosh.Proof.Bootstrap
import Irosh.Proof.Revocation
import Irosh.Proof.Established
import Irosh.Proof.OneTime
import Irosh.Proof.WormholeEvents
import Irosh.Proof.Shutdown
import Irosh.Proof.BruteForce
import Irosh.Proof.Lockout
import Irosh.Lib.BigEndian
import Irosh.Lib.Lockstep
import Irosh.Transport.Codec
import Irosh.Proof.Wire
import Irosh.Transfer.Blob
import Irosh.Transfer.Store
import Irosh.Proof.HashSeq
import Irosh.Proof.BlobPut
import Irosh.Proof.FailedPut
import Irosh.Proof.PeerPaths
import Irosh.Proof.AddressBook
import Irosh.Transfer.Budget
import Irosh.Proof.Budget
import Irosh.Proof.Status
import Irosh.Transfer.Disk
import Irosh.Transfer.Download
import Irosh.Proof.AtomicDownload
import Irosh.Lib.Utf8
import Irosh.Transfer.Serve
import Irosh.Server.Stream
import Irosh.Proof.Answers
import Irosh.Proof.FinalAnswer
import Irosh.Proof.Metrics
import Irosh.Transfer.Upload
import Irosh.Proof.WholeUpload
import Irosh.Transfer.Concurrent
import Irosh.Proof.NoOverwrite
import Irosh.Proof.LexicalPaths
import Irosh.Auth.Window
import Irosh.Proof.LockoutExact
import Irosh.Proof.MetadataFields
import Irosh.Client.HostKey
import Irosh.Storage.Identity
import Irosh.Proof.FirstUse
import Irosh.Input.Editor
import Irosh.Input.Engine
import Irosh.Proof.InputBytes
import Irosh.Proof.EditSession
import Irosh.Lib.Terminal
import Irosh.Proof.EscapeArming
import Irosh.Proof.ShownLine
import Irosh.Lib.FileTree
import Irosh.Transfer.UploadDir
import Irosh.Proof.RecursiveUpload
import Irosh.Transfer.UploadBlob
import Irosh.Proof.BlobDir
import Irosh.Lib.Transducer
import Irosh.Proof.Echo
import Irosh.Proof.ChannelTable
import Irosh.Proof.FailedStart
import Irosh.Proof.ShellSlot
import Irosh.Proof.IdleReaper
import Irosh.Proof.EscapeTilde
import Irosh.Proof.BlobGet
import Irosh.Transfer.Listing
import Irosh.Proof.Listings
import Irosh.Lib.Fnmatch
import Irosh.Lib.Shell
import Irosh.Server.Completion
import Irosh.Proof.Completion
import Irosh.Lib.Permissions
import Irosh.Transfer.Guarded
import Irosh.Proof.DirModes
import Irosh.Proof.BarredEntry
import Irosh.Lib.Base64
import Irosh.Proof.VaultSet
import Irosh.Input.CompleteLine
import Irosh.Proof.EscapeFallback
import Irosh.Input.HistoryFile
import Irosh.Proof.TokenRanges
import Irosh.Proof.History
import Irosh.Storage.SecretDisk
import Irosh.Lib.Components
import Irosh.Proof.AtomicWrite
import Irosh.Transfer.Targets
import Irosh.Proof.TransferTargets
import Irosh.Input.CompletePath
import Irosh.Lib.Quoted
import Irosh.Lib.Serial
import Irosh.Proof.Retokenise
import Irosh.Proof.PathCompletion
import Irosh.Proof.CompletionExtends
import Irosh.Proof.RecursiveDownload
import Irosh.Client.Connect
import Irosh.Proof.PlacedEntries
import Irosh.Proof.Connecting
import Irosh.Client.Pairing
import Irosh.Proof.Pairing
import Irosh.Client.Session
import Irosh.Proof.SessionLife
import Irosh.Input.Drive
import Irosh.Proof.Driving
import Irosh.Proof.CursorReport
import Irosh.Server.ExecTask
import Irosh.Proof.ExecOutput
import Irosh.Proof.Teardown
import Irosh.Proof.ControlSocket
import Irosh.Lib.Newest
import Irosh.Server.Rendezvous
import Irosh.Proof.FoundWormhole
import Irosh.Transfer.UploadFile
import Irosh.Proof.ConfirmedUpload
import Irosh.Proof.FinishedDownload
import Irosh.Transfer.FaultyTree
import Irosh.Proof.CutListing
import Irosh.Proof.UncheckedSizes
