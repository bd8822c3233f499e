import Nio.Py.Str
import Nio.Py.JsonRoundtrip
import Nio.Lib.Nested
import Nio.Lib.Log
import Nio.Durable.Model
import Nio.Durable.Store
import Nio.Durable.StoreCache
import Nio.Durable.Delivery
import Nio.Store.TrustAgreement
import Nio.Crypto.Sas
import Nio.Crypto.SasSoundness
import Nio.Crypto.KeyVerification
import Nio.Py.JsonSchema
import Nio.Schemas
import Nio.Events.Misc
import Nio.Events.ToDevice
import Nio.Responses
import Nio.Durable.Response
import Nio.Durable.WriteBack
import Nio.Durable.Codec
import Nio.Durable.Session
import Nio.Lib.Run
import Nio.Durable.Processor
import Nio.Durable.Sync
import Nio.Durable.Sliding
import Nio.Durable.Recovery
import Nio.Durable.Client
import Nio.Durable.Transaction
import Nio.Durable.Steps
import Nio.Crypto.GroupSessions
import Nio.Crypto.KeyQuery
import Nio.Crypto.KeyQueryHistory
import Nio.Crypto.KeyRequests
import Nio.Durable.Change
import Nio.Durable.Interpretation
import Nio.Durable.Phases
import Nio.Durable.Retained
import Nio.Durable.Lifecycle
import Nio.Durable.PageBounds
import Nio.Durable.Termination
import Nio.Durable.Tenure
import Nio.Durable.CryptoMaintenance
import Nio.Durable.RetainedRequests
import Nio.Durable.Invalidations
import Nio.Durable.MessageQueue
import Nio.Crypto.ForwardedKeys
import Nio.Crypto.Decryption
import Nio.SlidingResponses
import Nio.Durable.ToDevice
import Nio.Crypto.KeyAnswers
import Nio.Crypto.AnswerPayloads
import Nio.Crypto.AnswerDevices
import Nio.Crypto.AnswerTolerance
import Nio.Crypto.ClaimTolerance
import Nio.Durable.Publication
import Nio.Crypto.GroupSharing
import Nio.Crypto.GroupRevocation
import Nio.Crypto.EligibleDevices
import Nio.Durable.GroupSharing
import Nio.Durable.GroupRevocation
import Nio.Py.Text
import Nio.Store.KeyFile
import Nio.Crypto.GroupRecipients
import Nio.Crypto.VerificationEvents
import Nio.Crypto.SasAgreement
import Nio.Py.Validation
import Nio.Rooms.MatrixRoom
import Nio.Lib.Index
import Nio.Rooms.Membership
import Nio.Rooms.CurrentLevels
import Nio.Durable.SlidingTenure
import Nio.Lib.Part
import Nio.Store.Accounts
import Nio.Store.Isolation
import Nio.Store.SharedDevices
import Nio.Store.SharedDatabase
import Nio.RoomSchemas
import Nio.Events.RoomEvents
import Nio.Events.InviteEvents
import Nio.Events.RoomParsing
import Nio.Events.EventParsing
import Nio.Events.ParserTotality
import Nio.Rooms.StateEvents
import Nio.Rooms.StateKeys
import Nio.Crypto.OlmSessions
import Nio.Crypto.KeyQuality
import Nio.Crypto.MegolmDecryption
import Nio.Crypto.MegolmSoundness
import Nio.Py.JsonSize
import Nio.Durable.SlidingBounds
import Nio.Crypto.KeyFile
import Nio.Crypto.KeyImport
import Nio.Py.JsonAscii
import Nio.Lib.FifoDict
import Nio.Events.EventIds
import Nio.Rooms.SlidingDelivery
import Nio.Rooms.DecryptedIds
import Nio.Lib.FileLock
import Nio.Store.Lease
import Nio.AtomicWrite
import Nio.Crypto.Attachments
import Nio.Events.PushRules
import Nio.Rooms.Names
