import Conest.Lib.FMap
import Conest.Lib.Machine
import Conest.Lib.Outcome
import Conest.Lib.RateMap
import Conest.Lib.Table
import Conest.Lib.Dart
import Conest.Lib.Dag
import Conest.Lib.Sorted
import Conest.Lib.Indexes
import Conest.Lib.Memo
import Conest.Lib.LinkedMap
import Conest.Lib.Base64
import Conest.Lib.BigEndian
import Conest.Lib.XorLinear
import Conest.Relay.Config
import Conest.Relay.Database
import Conest.Relay.Store
import Conest.Relay.Queue
import Conest.Relay.Bounds
import Conest.Relay.Leases
import Conest.Relay.Admission
import Conest.Relay.UdpIsolation
import Conest.Relay.RatePruning
import Conest.Relay.Budgets
import Conest.Group.Event
import Conest.Group.Codec
import Conest.Group.Roles
import Conest.Group.Records
import Conest.Group.MembershipHistory
import Conest.Group.Ancestry
import Conest.Group.Admissions
import Conest.Group.Privileges
import Conest.Group.Convergence
import Conest.Group.Access
import Conest.Group.Fences
import Conest.Journal.Index
import Conest.Journal.Worker
import Conest.Journal.Layout
import Conest.Journal.Recovery
import Conest.Journal.OrderIndependence
import Conest.Journal.Replica
import Conest.Journal.Restart
import Conest.Journal.MessageProjection
import Conest.Journal.Mutations
import Conest.Journal.CatchUp
import Conest.Journal.Learning
import Conest.Journal.Filing
import Conest.Journal.Completeness
import Conest.Ratchet.Olm
import Conest.Ratchet.Sessions
import Conest.Ratchet.Interleaving
import Conest.Ratchet.Effects
import Conest.Ratchet.Steps
import Conest.Ratchet.Replay
import Conest.Carrier.Reassembler
import Conest.Carrier.Envelopes
import Conest.Carrier.Collecting
import Conest.Carrier.Accepting
import Conest.Carrier.Keys
import Conest.Carrier.RoundTrip
import Conest.Carrier.Isolation
import Conest.Mesh.Packet
import Conest.Mesh.Codec
import Conest.Account.DeviceList
import Conest.Account.Revocation
import Conest.Account.Statements
import Conest.Mesh.Duplicates
import Conest.Mesh.Nesting
import Conest.Transfer.Stored
import Conest.Lib.Steps
import Conest.Relay.Transaction
import Conest.Relay.Eviction
import Conest.Relay.Draining
import Conest.Radio.Deframing
import Conest.Files.Download
import Conest.Ble.Splitting
import Conest.Ble.Crossing
import Conest.Mail.Carriage
import Conest.Ratchet.PeerState
import Conest.Journal.ProjectionOrder
import Conest.Journal.Paging
import Conest.Journal.Publishing
import Conest.Relay.LongPoll
import Conest.Carrier.Receipts
import Conest.Relay.Datagrams
import Conest.Courier.Queue
import Conest.Mesh.Fragmentation
import Conest.Mesh.Links
import Conest.Mesh.Splitting
import Conest.Noise.ReplayWindow
import Conest.Beam.Completion
import Conest.Beam.Indices
import Conest.Beam.Frames
import Conest.Beam.Encoder
import Conest.Call.Refusal
import Conest.Gateway.Passing
import Conest.Attachment.Session
import Conest.Transfer.Accounting
import Conest.Reticulum.PathRequests
import Conest.Reticulum.Paths
import Conest.Radio.Companion
import Conest.Radio.Protobuf
import Conest.Journal.Announcing
import Conest.Relay.SoftBans
import Conest.Call.Topology
import Conest.Mail.KeptKey
import Conest.Mail.Protection
import Conest.Mail.Folding
import Conest.Nostr.Nip44
import Conest.Nostr.Nip19
import Conest.Nostr.Schnorr
import Conest.Lib.Surrogates
import Conest.Attachment.FileNames
import Conest.Updater.Exact
