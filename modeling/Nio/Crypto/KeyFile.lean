import Nio.Py.Bytes
import Nio.Py.Json

/-!
# Key files

An exported key file holds bytes that are encrypted under a passphrase, with a MAC over version,
salt, counter, rounds and ciphertext. The primitives are parameters.

* `decryptAndRead_save` — what was saved is read back with the same passphrase
-/

namespace Nio.Crypto

open Nio.Py

/-- What reading a key file raises -/
inductive KeyFileError where
  /-- `EncryptionError` -/
  | encryption
  /-- `OSError` -/
  | file
  /-- `ValueError` and what derives from it -/
  | value
  | index
  | type
  | assertion
  deriving DecidableEq, Repr

/-- Every character has a code below 256. -/
def Latin1 (passphrase : Str) : Prop := ∀ c ∈ passphrase, c.val < 0x100

instance (passphrase : Str) : Decidable (Latin1 passphrase) :=
  List.decidableBAll (fun c : CodePoint => c.val < 0x100) passphrase

/-- The primitives of the file format -/
structure KeyFileLibrary where
  encodeBase64 : Bytes → Str
  /-- `none` is a `ValueError`. -/
  decodeBase64 : Str → Option Bytes
  decodeBase64_encode : ∀ b, decodeBase64 (encodeBase64 b) = some b
  /-- The alphabet has neither white space nor characters beyond ASCII. -/
  encodeBase64_alphabet : ∀ b, ∀ c ∈ encodeBase64 b, 0x20 < c.val ∧ c.val < 0x7F
  /-- `PBKDF2(passphrase, salt, 64, count, prf)`, which encodes the passphrase as Latin-1 -/
  pbkdf2 : Str → Bytes → Nat → Except KeyFileError Bytes
  pbkdf2_latin1 : ∀ passphrase salt count, Latin1 passphrase → 0 < count →
    ∃ key, pbkdf2 passphrase salt count = .ok key
  pbkdf2_other : ∀ passphrase salt count, ¬ Latin1 passphrase →
    pbkdf2 passphrase salt count = .error .value
  /-- HMAC-SHA-256 of a message under a key -/
  hmac : Bytes → Bytes → Bytes
  length_hmac : ∀ key message, (hmac key message).length = 32
  /-- AES in counter mode under a key, from an initial counter, in either direction -/
  aesCtr : Bytes → Nat → Bytes → Bytes
  aesCtr_aesCtr : ∀ key iv b, aesCtr key iv (aesCtr key iv b) = b

/-- What goes into a file beside the data and the passphrase -/
structure Drawn where
  salt : Bytes
  iv : Nat
  count : Nat
  length_salt : salt.length = 16
  iv_lt : iv < 2 ^ 128
  count_pos : 0 < count
  count_lt : count < 2 ^ 32

def header : Str := py "-----BEGIN MEGOLM SESSION DATA-----"

def footer : Str := py "-----END MEGOLM SESSION DATA-----"

/-- `iv &= ~(1 << 63)` -/
def clearBit63 (iv : Nat) : Nat := if iv.testBit 63 then iv - 2 ^ 63 else iv

def removePrefix (p s : Str) : Str := if p.isPrefixOf s then s.drop p.length else s

def removeSuffix (p s : Str) : Str := if p.isSuffixOf s then s.take (s.length - p.length) else s

namespace KeyFileLibrary

variable (lib : KeyFileLibrary)

def aesKey (derivedKey : Bytes) : Bytes := derivedKey.take 32

def hmacKey (derivedKey : Bytes) : Bytes := (derivedKey.drop 32).take 32

def encrypt (data : Bytes) (passphrase : Str) (drawn : Drawn) : Except KeyFileError Str := do
  let derivedKey ← lib.pbkdf2 passphrase drawn.salt drawn.count
  let iv := clearBit63 drawn.iv
  let payload := [1] ++ drawn.salt ++ toBytes iv 16 ++ toBytes drawn.count 4 ++
    lib.aesCtr (aesKey derivedKey) iv data
  return lib.encodeBase64 (payload ++ lib.hmac (hmacKey derivedKey) payload)

/-- `decrypt` of the bytes that the text stands for -/
def decryptPayload (payload : Bytes) (passphrase : Str) : Except KeyFileError Bytes :=
  match payload.head? with
  | none => .error .index
  | some version =>
    if version ≠ 1 then .error .value
    else do
      let salt := (payload.take 17).drop 1
      let iv := fromBytes ((payload.take 33).drop 17)
      let count := fromBytes ((payload.take 37).drop 33)
      -- `payload[:-32]` and `payload[-32:]`
      let message := payload.take (payload.length - 32)
      let expectedHmac := payload.drop (payload.length - 32)
      let derivedKey ← lib.pbkdf2 passphrase salt count
      if lib.hmac (hmacKey derivedKey) message ≠ expectedHmac then .error .value
      else return lib.aesCtr (aesKey derivedKey) iv (message.drop 37)

def decrypt (encryptedPayload : Str) (passphrase : Str) : Except KeyFileError Bytes :=
  match lib.decodeBase64 encryptedPayload with
  | none => .error .value
  | some payload => lib.decryptPayload payload passphrase

/-- `encrypt_and_save`: the content of the file -/
def encryptAndSave (data : Bytes) (passphrase : Str) (drawn : Drawn) :
    Except KeyFileError Bytes := do
  let encryptedData ← lib.encrypt data passphrase drawn
  return asciiBytes (header ++ py "\n" ++ encryptedData ++ py "\n" ++ footer)

/-- What stands between header and footer; `none` where the file is not text or lacks one of them -/
def unframe (content : Bytes) : Option Str := do
  let text ← (Str.decode content.codes).map universalNewlines
  let encryptedData := text.filter (· ≠ chr '\n')
  if header.isPrefixOf encryptedData && footer.isSuffixOf encryptedData then
    some (removeSuffix footer (removePrefix header encryptedData))
  else none

/-- `decrypt_and_read`; `none` is a file that cannot be read. -/
def decryptAndRead (infile : Option Bytes) (passphrase : Str) : Except KeyFileError Bytes :=
  match infile with
  | none => .error .file
  | some content =>
    match unframe content with
    | none => .error .value
    | some encryptedPayload => lib.decrypt encryptedPayload passphrase

end KeyFileLibrary

/-! ## Reading back -/

/-- Clearing the bit keeps the vector in its sixteen bytes. -/
theorem clearBit63_lt {iv : Nat} (h : iv < 2 ^ 128) : clearBit63 iv < 2 ^ 128 := by
  unfold clearBit63
  split <;> omega

theorem slice_middle {front middle : Bytes} (back : Bytes) {m n : Nat} (hm : front.length = m)
    (hn : m + middle.length = n) : ((front ++ (middle ++ back)).take n).drop m = middle := by
  subst hm hn
  rw [← List.append_assoc, ← List.length_append, List.take_left, List.drop_left]

namespace KeyFileLibrary

variable {lib : KeyFileLibrary}

/-- What was encrypted with the key of a passphrase is decrypted with it. -/
theorem decryptPayload_encrypt {passphrase : Str} {drawn : Drawn} {derivedKey : Bytes}
    (hkey : lib.pbkdf2 passphrase drawn.salt drawn.count = .ok derivedKey) (data : Bytes) :
    let iv := clearBit63 drawn.iv
    let payload := [1] ++ drawn.salt ++ toBytes iv 16 ++ toBytes drawn.count 4 ++
      lib.aesCtr (aesKey derivedKey) iv data
    lib.decryptPayload (payload ++ lib.hmac (hmacKey derivedKey) payload) passphrase =
      .ok data := by
  intro iv payload
  have hiv : iv < 256 ^ 16 := clearBit63_lt drawn.iv_lt
  have hcount : drawn.count < 256 ^ 4 := drawn.count_lt
  have hlength : (payload ++ lib.hmac (hmacKey derivedKey) payload).length - 32 =
      payload.length := by
    rw [List.length_append, lib.length_hmac]
    omega
  generalize hmac : lib.hmac (hmacKey derivedKey) payload = mac at hlength
  generalize hcipher : lib.aesCtr (aesKey derivedKey) iv data = encryptedData
  have hpayload : payload = [1] ++ drawn.salt ++ toBytes iv 16 ++ toBytes drawn.count 4 ++
      encryptedData := by
    rw [← hcipher]
  have hsaltSlice : ((payload ++ mac).take 17).drop 1 = drawn.salt := by
    have h := @slice_middle [1] drawn.salt
      (toBytes iv 16 ++ (toBytes drawn.count 4 ++ (encryptedData ++ mac))) 1 17 rfl
      (by rw [drawn.length_salt])
    simpa [hpayload] using h
  have hivSlice : ((payload ++ mac).take 33).drop 17 = toBytes iv 16 := by
    have h := @slice_middle ([1] ++ drawn.salt) (toBytes iv 16)
      (toBytes drawn.count 4 ++ (encryptedData ++ mac)) 17 33 (by simp [drawn.length_salt]) (by simp)
    simpa [hpayload] using h
  have hcountSlice : ((payload ++ mac).take 37).drop 33 = toBytes drawn.count 4 := by
    have h := @slice_middle ([1] ++ drawn.salt ++ toBytes iv 16) (toBytes drawn.count 4)
      (encryptedData ++ mac) 33 37 (by simp [drawn.length_salt]) (by simp)
    simpa [hpayload] using h
  have hencrypted : payload.drop 37 = encryptedData := by
    have hfront : ([1] ++ drawn.salt ++ toBytes iv 16 ++ toBytes drawn.count 4).length = 37 := by
      simp [drawn.length_salt]
    rw [hpayload, ← hfront, List.drop_left]
  have hversion : (payload ++ mac).head? = some 1 := by
    rw [hpayload]
    rfl
  unfold decryptPayload
  rw [hversion]
  dsimp only
  rw [if_neg (by simp), hsaltSlice, hivSlice, hcountSlice, fromBytes_toBytes hiv,
    fromBytes_toBytes hcount, hkey, ok_bind, hlength, List.take_left, List.drop_left, hmac,
    if_neg (by simp), hencrypted, ← hcipher, lib.aesCtr_aesCtr]
  rfl

/-! ### The file -/

theorem ascii_frame {text : Str} (h : ∀ c ∈ text, 0x20 < c.val ∧ c.val < 0x7F) :
    Str.Ascii (header ++ py "\n" ++ text ++ py "\n" ++ footer) := by
  have hheader : Str.Ascii (header ++ py "\n") := Str.ascii_of_all (by decide)
  have hfooter : Str.Ascii (py "\n" ++ footer) := Str.ascii_of_all (by decide)
  have htext : Str.Ascii text := by
    intro c hc
    have := h c hc
    omega
  rw [List.append_assoc _ (py "\n") footer]
  exact (hheader.append htext).append hfooter

/-- ASCII text is read back from its bytes. -/
theorem decode_ascii {s : Str} (h : s.Ascii) : Str.decode (asciiBytes s).codes = some s := by
  rw [codes_asciiBytes h]
  exact Str.decode_encode (encode_ascii h)

/-- A text without carriage returns is left alone. -/
theorem universalNewlines_noReturn {s : Str} (h : ∀ c ∈ s, c ≠ chr '\r') :
    universalNewlines s = s := by
  fun_induction universalNewlines s with
  | case1 => rfl
  | case2 => exact absurd rfl (h _ (by simp))
  | case3 => rfl
  | case4 => exact absurd rfl (h _ (by simp))
  | case5 => exact absurd rfl (h _ (by simp))
  | case6 c d rest hc ih => rw [ih fun x hx => h x (List.mem_cons_of_mem _ hx)]

/-- Line ends apart, the file holds the header, the text and the footer. -/
theorem unframe_frame {text : Str} (h : ∀ c ∈ text, 0x20 < c.val ∧ c.val < 0x7F) :
    unframe (asciiBytes (header ++ py "\n" ++ text ++ py "\n" ++ footer)) = some text := by
  have hreturn : ∀ c ∈ header ++ py "\n" ++ text ++ py "\n" ++ footer, c ≠ chr '\r' := by
    have hheader : chr '\r' ∉ header ++ py "\n" := by decide
    have hfooter : chr '\r' ∉ py "\n" ++ footer := by decide
    rintro c hc rfl
    rw [List.append_assoc _ (py "\n") footer] at hc
    rcases List.mem_append.mp hc with hc | hc
    · rcases List.mem_append.mp hc with hc | hc
      · exact hheader hc
      · exact absurd (h _ hc).1 (by decide)
    · exact hfooter hc
  have htext : text.filter (· ≠ chr '\n') = text := by
    refine List.filter_eq_self.mpr fun c hc => decide_eq_true ?_
    rintro rfl
    exact absurd (h _ hc).1 (by decide)
  have hfilter : (header ++ py "\n" ++ text ++ py "\n" ++ footer).filter (· ≠ chr '\n') =
      header ++ (text ++ footer) := by
    have hheader : (header ++ py "\n").filter (· ≠ chr '\n') = header := by decide
    have hfooter : (py "\n" ++ footer).filter (· ≠ chr '\n') = footer := by decide
    rw [List.append_assoc _ (py "\n") footer, List.filter_append, List.filter_append, hheader,
      hfooter, htext, List.append_assoc]
  have hprefix : header.isPrefixOf (header ++ (text ++ footer)) = true :=
    List.isPrefixOf_iff_prefix.mpr (List.prefix_append _ _)
  have hsuffix : footer.isSuffixOf (header ++ (text ++ footer)) = true :=
    List.isSuffixOf_iff_suffix.mpr ⟨header ++ text, List.append_assoc _ _ _⟩
  have hsuffix' : footer.isSuffixOf (text ++ footer) = true :=
    List.isSuffixOf_iff_suffix.mpr ⟨text, rfl⟩
  unfold unframe
  rw [decode_ascii (ascii_frame h), Option.map_some, universalNewlines_noReturn hreturn]
  dsimp only [Option.bind_eq_bind, Option.bind_some]
  rw [hfilter, hprefix, hsuffix, Bool.and_self, if_pos rfl]
  unfold removePrefix removeSuffix
  rw [if_pos hprefix, List.drop_left, if_pos hsuffix', List.length_append, Nat.add_sub_cancel,
    List.take_left]

/-- What was saved is read back with the same passphrase. -/
theorem decryptAndRead_save {data content : Bytes} {passphrase : Str} {drawn : Drawn}
    (h : lib.encryptAndSave data passphrase drawn = .ok content) :
    lib.decryptAndRead (some content) passphrase = .ok data := by
  obtain ⟨encryptedData, hencrypt, h⟩ := bind_eq_ok.mp h
  cases h
  obtain ⟨derivedKey, hkey, hencrypt⟩ := bind_eq_ok.mp hencrypt
  cases hencrypt
  unfold decryptAndRead
  dsimp only
  rw [unframe_frame (lib.encodeBase64_alphabet _)]
  dsimp only
  unfold decrypt
  rw [lib.decodeBase64_encode]
  exact decryptPayload_encrypt hkey data

end KeyFileLibrary

end Nio.Crypto
