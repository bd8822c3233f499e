import Nio.Lib.StreamCipher
import Nio.Py.Bytes
import Nio.Py.Dict

/-!
# Attachments

A file is encrypted in AES counter mode while it is read, and its SHA-256 goes into the message
beside key and counter. The primitives are parameters.

* `attachment_roundtrip` — whatever pieces a file comes in, it is encrypted like its bytes at once,
  and decrypted with the information in the message
-/

namespace Nio.Crypto

open Nio.Lib Nio.Py

inductive AttachmentError where
  /-- `EncryptionError` -/
  | encryption
  /-- `binascii.Error` -/
  | binascii
  /-- `UnicodeEncodeError` -/
  | unicode
  /-- `ValueError` -/
  | value
  | type
  | os
  deriving DecidableEq, Repr

/-- The primitives; a cipher object is in a state `κ`. -/
structure AttachmentLibrary (κ : Type) where
  /-- `AES.new(key, AES.MODE_CTR, counter=Counter.new(64, prefix=prefix, initial_value=cnt))`, or
  `none` for a `ValueError` -/
  newCipher : Bytes → Bytes → Nat → Option κ
  /-- A key of 32 bytes and a prefix of 8 beside a counter of 8 make a cipher. -/
  newCipher_isSome : ∀ key counterPrefix, key.length = 32 → counterPrefix.length = 8 →
    (newCipher key counterPrefix 0).isSome
  /-- `cipher.encrypt` of one piece after the other, and `cipher.decrypt` -/
  ctr : StreamCipher κ
  sha256 : Bytes → Bytes
  /-- `unpaddedbase64.encode_base64(b, urlsafe)` -/
  encodeBase64 : Bool → Bytes → Str
  decodeBase64 : Str → Except AttachmentError Bytes
  /-- Both alphabets are decoded. -/
  decodeBase64_encode : ∀ urlsafe b, decodeBase64 (encodeBase64 urlsafe b) = .ok b

/-- `Random.new().read` for key and counter prefix -/
structure DrawnAttachmentKey where
  key : Bytes
  iv : Bytes
  length_key : key.length = 32
  length_iv : iv.length = 8

namespace AttachmentLibrary

variable {κ : Type} (lib : AttachmentLibrary κ)

/-- `_get_decryption_info_dict` -/
def getDecryptionInfoDict (key iv digest : Bytes) : Json :=
  .obj [(py "v", .str (py "v2")),
    (py "key", .obj [(py "kty", .str (py "oct")), (py "alg", .str (py "A256CTR")),
      (py "ext", .bool true), (py "k", .str (lib.encodeBase64 true key)),
      (py "key_ops", .arr [.str (py "encrypt"), .str (py "decrypt")])]),
    (py "iv", .str (lib.encodeBase64 false (iv ++ List.replicate 8 0))),
    (py "hashes", .obj [(py "sha256", .str (lib.encodeBase64 false digest))])]

/-- The loop of both generators: what they yield for the pieces, and last of all -/
def encryptPieces (drawn : DrawnAttachmentKey) (pieces : List Bytes) :
    Except AttachmentError (List Bytes × Json) :=
  match lib.newCipher drawn.key drawn.iv 0 with
  | none => .error .value
  | some cipher =>
    let encrypted := lib.ctr.encryptPieces cipher pieces
    -- `sha256.update` of one piece after the other
    .ok (encrypted, lib.getDecryptionInfoDict drawn.key drawn.iv (lib.sha256 encrypted.flatten))

/-- `encrypted_attachment_generator` of an iterable -/
def encryptedAttachmentGenerator (drawn : DrawnAttachmentKey) (data : List Bytes) :
    Except AttachmentError (List Bytes × Json) := lib.encryptPieces drawn data

/-- `b"".join(values[:-1])` and `values[-1]` -/
def collect (values : List Bytes × Json) : Bytes × Json := (values.1.flatten, values.2)

/-- `encrypt_attachment`; `bytes` are an iterable of one piece. -/
def encryptAttachment (drawn : DrawnAttachmentKey) (plaintext : Bytes) :
    Except AttachmentError (Bytes × Json) :=
  (lib.encryptedAttachmentGenerator drawn [plaintext]).map collect

/-- `except (BinAsciiError, TypeError): raise EncryptionError` -/
def decodeArgument (text : Str) : Except AttachmentError Bytes :=
  match lib.decodeBase64 text with
  | .error .binascii => .error .encryption
  | .error .type => .error .encryption
  | other => other

def decryptAttachment (ciphertext : Bytes) (key hash iv : Str) : Except AttachmentError Bytes := do
  let expectedHash ← lib.decodeBase64 hash
  if lib.sha256 ciphertext ≠ expectedHash then .error .encryption
  else
    let byteKey ← lib.decodeArgument key
    let byteIv ← lib.decodeArgument iv
    match lib.newCipher byteKey (byteIv.take 8) (fromBytes (byteIv.drop 8)) with
    | none => .error .encryption
    | some cipher => return lib.ctr.decrypt cipher ciphertext

end AttachmentLibrary

/-! ## Where the bytes come from -/

/-- A piece of an iterable -/
inductive AttachmentPiece where
  | bytes (b : Bytes)
  | str (s : Str)

inductive AsyncData where
  /-- a path and what is there, if it can be opened -/
  | path (content : Option Bytes)
  | bytes (b : Bytes)
  /-- an open file and what its reads return -/
  | file (reads : List Bytes)
  /-- an iterable or an asynchronous iterable -/
  | iterable (pieces : List AttachmentPiece)
  | other

/-- `b[i : i + size] for i in range(0, len(b), size)` -/
def slices (size : Nat) (b : Bytes) : List Bytes :=
  (List.range ((b.length + size - 1) / size)).map fun i => (b.drop (i * size)).take size

/-- `chunk.encode() if isinstance(chunk, str) else chunk` -/
def AttachmentPiece.encode : AttachmentPiece → Except AttachmentError Bytes
  | .bytes b => .ok b
  | .str s =>
    match s.encode with
    | .ok codes => .ok (codes.map UInt8.ofNat)
    | .error _ => .error .unicode

def chunkSize : Nat := 4 * 1024

/-- `async_generator_from_data`: what it yields, if it comes to its end -/
def asyncGeneratorFromData : AsyncData → Except AttachmentError (List Bytes)
  | .path none => .error .os
  -- the reads of a file on disk are full until its end
  | .path (some content) => .ok ((slices chunkSize content).takeWhile (· ≠ []))
  | .bytes b => .ok (slices chunkSize b)
  | .file reads => .ok (reads.takeWhile (· ≠ []))
  | .iterable pieces => pieces.mapM AttachmentPiece.encode
  | .other => .error .type

namespace AttachmentLibrary

/-- `async_encrypt_attachment`: what it yields, if it comes to its end -/
def asyncEncryptAttachment {κ : Type} (lib : AttachmentLibrary κ) (drawn : DrawnAttachmentKey)
    (data : AsyncData) : Except AttachmentError (List Bytes × Json) := do
  lib.encryptPieces drawn (← asyncGeneratorFromData data)

end AttachmentLibrary

/-- The bytes that the data stands for -/
def AsyncData.content : AsyncData → Except AttachmentError Bytes
  | .path none => .error .os
  | .path (some content) => .ok content
  | .bytes b => .ok b
  | .file reads => .ok (reads.takeWhile (· ≠ [])).flatten
  | .iterable pieces => (pieces.mapM AttachmentPiece.encode).map List.flatten
  | .other => .error .type

/-! ### The pieces of a file -/

theorem slices_flatten_take (size : Nat) (b : Bytes) (n : Nat) :
    ((List.range n).map fun i => (b.drop (i * size)).take size).flatten = b.take (n * size) := by
  induction n with
  | zero => simp
  | succ n ih =>
    rw [List.range_succ, List.map_append, List.flatten_append, ih, Nat.succ_mul, List.take_add]
    simp

theorem slices_flatten {size : Nat} (hsize : 0 < size) (b : Bytes) :
    (slices size b).flatten = b := by
  unfold slices
  rw [slices_flatten_take, List.take_of_length_le]
  have hdiv := Nat.lt_div_mul_add (a := b.length + size - 1) hsize
  omega

theorem slices_ne_nil {size : Nat} (hsize : 0 < size) (b : Bytes) :
    ∀ piece ∈ slices size b, piece ≠ [] := by
  intro piece hpiece
  unfold slices at hpiece
  obtain ⟨i, hi, rfl⟩ := List.mem_map.mp hpiece
  have hi : i < (b.length + size - 1) / size := List.mem_range.mp hi
  have hle : (i + 1) * size ≤ b.length + size - 1 := (Nat.le_div_iff_mul_le hsize).mp hi
  rw [Nat.succ_mul] at hle
  intro hnil
  have hlength := congrArg List.length hnil
  rw [List.length_take, List.length_drop, List.length_nil] at hlength
  omega

/-- The pieces of the data are the data. -/
theorem asyncGeneratorFromData_flatten (data : AsyncData) :
    (asyncGeneratorFromData data).map List.flatten = data.content := by
  have hsize : 0 < chunkSize := by decide
  cases data with
  | path content =>
    cases content with
    | none => rfl
    | some content =>
      have hall : (slices chunkSize content).takeWhile (· ≠ []) = slices chunkSize content := by
        refine List.takeWhile_eq_self_iff.mpr fun piece hpiece => ?_
        exact decide_eq_true (slices_ne_nil hsize content piece hpiece)
      change Except.ok ((slices chunkSize content).takeWhile (· ≠ [])).flatten = _
      rw [hall, slices_flatten hsize]
      rfl
  | bytes b =>
    change Except.ok (slices chunkSize b).flatten = _
    rw [slices_flatten hsize]
    rfl
  | file reads => rfl
  | iterable pieces => rfl
  | other => rfl

/-! ## Encryption and decryption -/

namespace AttachmentLibrary

variable {κ : Type} {lib : AttachmentLibrary κ}

theorem fromBytes_zeros : fromBytes (List.replicate 8 0) = 0 := by decide

/-- The pieces come to the same ciphertext and to the same information as the whole. -/
theorem encryptPieces_flatten (drawn : DrawnAttachmentKey) (pieces : List Bytes) :
    (lib.encryptPieces drawn pieces).map collect =
      lib.encryptAttachment drawn pieces.flatten := by
  unfold encryptAttachment encryptedAttachmentGenerator encryptPieces
  split
  · rfl
  · next cipher hcipher =>
    have hpieces : (lib.ctr.encryptPieces cipher pieces).flatten =
        (lib.ctr.encryptPieces cipher [pieces.flatten]).flatten := by
      rw [StreamCipher.flatten_encryptPieces, StreamCipher.flatten_encryptPieces,
        List.flatten_singleton]
    change Except.ok (collect _) = Except.ok (collect _)
    unfold collect
    dsimp only
    rw [hpieces]

theorem decodeArgument_encode (urlsafe : Bool) (b : Bytes) :
    lib.decodeArgument (lib.encodeBase64 urlsafe b) = .ok b := by
  unfold decodeArgument
  rw [lib.decodeBase64_encode]

/-- What decryption gets from the message -/
theorem decryptAttachment_info {drawn : DrawnAttachmentKey} {cipher : κ}
    (hcipher : lib.newCipher drawn.key drawn.iv 0 = some cipher) (digest ciphertext : Bytes) :
    lib.decryptAttachment ciphertext (lib.encodeBase64 true drawn.key)
        (lib.encodeBase64 false digest)
        (lib.encodeBase64 false (drawn.iv ++ List.replicate 8 0)) =
      if lib.sha256 ciphertext = digest then .ok (lib.ctr.decrypt cipher ciphertext)
      else .error .encryption := by
  have htake : (drawn.iv ++ List.replicate 8 0).take 8 = drawn.iv := by
    rw [← drawn.length_iv, List.take_left]
  have hdrop : (drawn.iv ++ List.replicate 8 (0 : UInt8)).drop 8 = List.replicate 8 0 := by
    have h := @List.drop_left _ drawn.iv (List.replicate 8 (0 : UInt8))
    rwa [drawn.length_iv] at h
  unfold decryptAttachment
  rw [lib.decodeBase64_encode, ok_bind]
  by_cases heq : lib.sha256 ciphertext = digest
  · rw [if_neg (not_not.mpr heq), if_pos heq, decodeArgument_encode, ok_bind,
      decodeArgument_encode, ok_bind, htake, hdrop, fromBytes_zeros, hcipher]
    rfl
  · rw [if_pos heq, if_neg heq]

/-- Whatever pieces the bytes come in, the synchronous and the asynchronous generator yield the
ciphertext of the whole and the same information; the ciphertext is as long as the plaintext and is
decrypted to it with that information, and bytes of another digest are refused. -/
theorem attachment_roundtrip {κ : Type} (lib : AttachmentLibrary κ) (drawn : DrawnAttachmentKey) :
    (∀ data, (lib.asyncEncryptAttachment drawn data).map collect =
        data.content >>= lib.encryptAttachment drawn) ∧
      (∀ pieces, (lib.encryptedAttachmentGenerator drawn pieces).map collect =
        lib.encryptAttachment drawn pieces.flatten) ∧
      ∀ plaintext, ∃ ciphertext key iv hash info,
        lib.encryptAttachment drawn plaintext = .ok (ciphertext, .obj info) ∧
          dictGet? info (py "iv") = some (.str iv) ∧
          (∃ keyInfo, dictGet? info (py "key") = some (.obj keyInfo) ∧
            dictGet? keyInfo (py "k") = some (.str key)) ∧
          (∃ hashes, dictGet? info (py "hashes") = some (.obj hashes) ∧
            dictGet? hashes (py "sha256") = some (.str hash)) ∧
          ciphertext.length = plaintext.length ∧
          lib.decryptAttachment ciphertext key hash iv = .ok plaintext ∧
          ∀ tampered, lib.sha256 tampered ≠ lib.sha256 ciphertext →
            lib.decryptAttachment tampered key hash iv = .error .encryption := by
  refine ⟨fun data => ?_, encryptPieces_flatten drawn, fun plaintext => ?_⟩
  · have hcontent := asyncGeneratorFromData_flatten data
    unfold asyncEncryptAttachment
    cases hpieces : asyncGeneratorFromData data with
    | error e =>
      rw [hpieces] at hcontent
      rw [← hcontent]
      rfl
    | ok pieces =>
      rw [hpieces] at hcontent
      rw [← hcontent, ok_bind, encryptPieces_flatten]
      rfl
  · obtain ⟨cipher, hcipher⟩ := Option.isSome_iff_exists.mp
      (lib.newCipher_isSome drawn.key drawn.iv drawn.length_key drawn.length_iv)
    have hencrypt : lib.encryptAttachment drawn plaintext =
        .ok (lib.ctr.encrypt cipher plaintext,
          lib.getDecryptionInfoDict drawn.key drawn.iv
            (lib.sha256 (lib.ctr.encrypt cipher plaintext))) := by
      unfold encryptAttachment encryptedAttachmentGenerator encryptPieces
      rw [hcipher]
      simp [Except.map, collect, StreamCipher.encryptPieces]
    have hinfo := decryptAttachment_info hcipher
      (lib.sha256 (lib.ctr.encrypt cipher plaintext))
    refine ⟨_, _, _, _, _, hencrypt, rfl, ⟨_, rfl, rfl⟩, ⟨_, rfl, rfl⟩,
      lib.ctr.length_encrypt cipher plaintext, ?_, fun tampered hdigest => ?_⟩
    · rw [hinfo, if_pos rfl, lib.ctr.decrypt_encrypt]
    · rw [hinfo, if_neg hdigest]

/-! ## Three bytes under the key of zeros -/

/-- The digit of six bits -/
def base64Digit (urlsafe : Bool) (n : Nat) : CodePoint :=
  chr (Char.ofNat (if n < 26 then 65 + n else if n < 52 then 71 + n else if n < 62 then n - 4
    else if n = 62 then if urlsafe then 45 else 43
    else if urlsafe then 95 else 47))

def base64Value (c : CodePoint) : Option Nat :=
  if 65 ≤ c.val ∧ c.val ≤ 90 then some (c.val - 65)
  else if 97 ≤ c.val ∧ c.val ≤ 122 then some (c.val - 71)
  else if 48 ≤ c.val ∧ c.val ≤ 57 then some (c.val + 4)
  else if c.val = 43 ∨ c.val = 45 then some 62
  else if c.val = 47 ∨ c.val = 95 then some 63
  else none

def encodeUnpadded (urlsafe : Bool) : Bytes → Str
  | x :: y :: z :: rest =>
    base64Digit urlsafe (x.toNat / 4) :: base64Digit urlsafe (x.toNat % 4 * 16 + y.toNat / 16) ::
      base64Digit urlsafe (y.toNat % 16 * 4 + z.toNat / 64) :: base64Digit urlsafe (z.toNat % 64) ::
      encodeUnpadded urlsafe rest
  | [x, y] =>
    [base64Digit urlsafe (x.toNat / 4), base64Digit urlsafe (x.toNat % 4 * 16 + y.toNat / 16),
      base64Digit urlsafe (y.toNat % 16 * 4)]
  | [x] => [base64Digit urlsafe (x.toNat / 4), base64Digit urlsafe (x.toNat % 4 * 16)]
  | [] => []

def decodeUnpadded : Str → Option Bytes
  | a :: b :: c :: d :: rest => do
    let a ← base64Value a
    let b ← base64Value b
    let c ← base64Value c
    let d ← base64Value d
    return UInt8.ofNat (a * 4 + b / 16) :: UInt8.ofNat (b % 16 * 16 + c / 4) ::
      UInt8.ofNat (c % 4 * 64 + d) :: (← decodeUnpadded rest)
  | [a, b, c] => do
    let a ← base64Value a
    let b ← base64Value b
    let c ← base64Value c
    return [UInt8.ofNat (a * 4 + b / 16), UInt8.ofNat (b % 16 * 16 + c / 4)]
  | [a, b] => do
    let a ← base64Value a
    let b ← base64Value b
    return [UInt8.ofNat (a * 4 + b / 16)]
  | [_] => none
  | [] => some []

theorem base64Value_digit (urlsafe : Bool) {n : Nat} (h : n < 64) :
    base64Value (base64Digit urlsafe n) = some n := by
  have hall : ∀ urlsafe : Bool, ∀ n < 64, base64Value (base64Digit urlsafe n) = some n := by
    decide +kernel
  exact hall urlsafe n h

theorem ofNat_eq {x : UInt8} {n : Nat} (h : n = x.toNat) : UInt8.ofNat n = x := by
  rw [h, UInt8.ofNat_toNat]

theorem decodeUnpadded_encode (urlsafe : Bool) (b : Bytes) :
    decodeUnpadded (encodeUnpadded urlsafe b) = some b := by
  fun_induction encodeUnpadded urlsafe b with
  | case1 x y z rest ih =>
    have hx := x.toNat_lt
    have hy := y.toNat_lt
    have hz := z.toNat_lt
    rw [decodeUnpadded, base64Value_digit urlsafe (by omega), base64Value_digit urlsafe (by omega),
      base64Value_digit urlsafe (by omega), base64Value_digit urlsafe (by omega), ih]
    change some (_ :: _ :: _ :: rest) = _
    rw [ofNat_eq (x := x) (by omega), ofNat_eq (x := y) (by omega), ofNat_eq (x := z) (by omega)]
  | case2 x y =>
    have hx := x.toNat_lt
    have hy := y.toNat_lt
    rw [decodeUnpadded, base64Value_digit urlsafe (by omega), base64Value_digit urlsafe (by omega),
      base64Value_digit urlsafe (by omega)]
    change some [_, _] = _
    rw [ofNat_eq (x := x) (by omega), ofNat_eq (x := y) (by omega)]
  | case3 x =>
    have hx := x.toNat_lt
    rw [decodeUnpadded, base64Value_digit urlsafe (by omega), base64Value_digit urlsafe (by omega)]
    change some [_] = _
    rw [ofNat_eq (x := x) (by omega)]
  | case4 => rfl

/-- The first block of the keystream of AES-256 under the key and the prefix of zeros -/
def zeroBlock : Bytes :=
  [0xdc, 0x95, 0xc0, 0x78, 0xa2, 0x40, 0x89, 0x89, 0xad, 0x48, 0xa2, 0x14, 0x92, 0x84, 0x20, 0x87]

/-- A library that agrees with the primitives on three bytes under the key of zeros -/
def zeroLibrary : AttachmentLibrary Nat where
  newCipher := fun key counterPrefix cnt =>
    if key.length = 32 ∧ counterPrefix.length = 8 then some (16 * cnt) else none
  newCipher_isSome := by
    intro key counterPrefix hkey hpre
    rw [if_pos ⟨hkey, hpre⟩]
    rfl
  ctr := xorCipher fun n => zeroBlock.getD n 0
  sha256 := fun b =>
    if b = [178, 252, 175] then
      [249, 172, 122, 171, 220, 251, 172, 120, 231, 186, 127, 139, 129, 217, 144, 147,
        51, 233, 240, 26, 209, 36, 104, 243, 223, 51, 242, 229, 247, 66, 38, 127]
    else List.replicate 32 0
  encodeBase64 := encodeUnpadded
  decodeBase64 := fun text => (decodeUnpadded text).elim (.error .binascii) .ok
  decodeBase64_encode := by
    intro urlsafe b
    rw [decodeUnpadded_encode]
    rfl

def zeroDrawn : DrawnAttachmentKey :=
  ⟨List.replicate 32 0, List.replicate 8 0, List.length_replicate, List.length_replicate⟩

/-- The bytes come in two pieces, one of them text; they are decrypted, and another byte is not. -/
theorem attachment_roundtrip_zeros :
    (zeroLibrary.asyncEncryptAttachment zeroDrawn
        (.iterable [.str (py "n"), .bytes [105, 111]])).map collect =
      zeroLibrary.encryptAttachment zeroDrawn [110, 105, 111] ∧
    ∃ key iv hash info,
      zeroLibrary.encryptAttachment zeroDrawn [110, 105, 111] = .ok ([178, 252, 175], .obj info) ∧
        zeroLibrary.decryptAttachment [178, 252, 175] key hash iv = .ok [110, 105, 111] ∧
        zeroLibrary.decryptAttachment [0] key hash iv = .error .encryption := by
  obtain ⟨hasync, -, hround⟩ := attachment_roundtrip zeroLibrary zeroDrawn
  refine ⟨hasync _, ?_⟩
  obtain ⟨ciphertext, key, iv, hash, info, hencrypt, -, -, -, -, hdecrypt, hrefused⟩ :=
    hround [110, 105, 111]
  have hfst : (zeroLibrary.encryptAttachment zeroDrawn [110, 105, 111]).map Prod.fst =
      .ok [178, 252, 175] := rfl
  rw [hencrypt] at hfst
  obtain rfl := Except.ok.inj hfst
  exact ⟨key, iv, hash, info, hencrypt, hdecrypt, hrefused [0] (by decide)⟩

end AttachmentLibrary

end Nio.Crypto
