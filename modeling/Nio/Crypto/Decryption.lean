import Nio.Crypto.ForwardedKeys
import Nio.Durable.WriteBack

/-!
# Decrypted events

What the library answers when a message is decrypted, and the events that
`Olm.handle_to_device_event` returns.

* `SessionAnswer` — one session of the sender key
* `DecryptedEvent` — the events that come out of a decryption
-/

namespace Nio.Crypto

open Nio.Py
open Nio.Events (BadEventType)
open Nio.Durable (AuthenticatedDevice)

/-! ## The library -/

/-- The exceptions of `vodozemac`, with the one of `base64` -/
inductive LibraryException where
  | base64
  | key
  | decode
  | sessionCreation
  | sessionKeyDecode
  | olmDecryption
  | signature
  deriving DecidableEq, Repr

/-- A session of the sender key: whether it matches a pre-key message, and the plaintext -/
structure SessionAnswer where
  sessionMatches : Except LibraryException Bool
  plaintext : Except LibraryException Str

/-! ## Events -/

structure RoomKeyEvent where
  source : Json
  sender : Str
  senderKey : Str
  roomId : Str
  sessionId : Str
  algorithm : Str

structure DummyEvent where
  source : Json
  sender : Str
  senderKey : Str
  senderDevice : Str

/-- The events of `handle_to_device_event` -/
inductive DecryptedEvent where
  | bad (event : BadEventType)
  | roomKey (event : RoomKeyEvent)
  | forwardedRoomKey (event : ForwardedRoomKeyEvent)
  | dummy (event : DummyEvent)
  | authenticated (source : Json) (sender type : Str) (identity : AuthenticatedDevice)
  | unknown (source : Json) (sender type : Str)

end Nio.Crypto
