import Mathlib.Data.List.Basic

/-!
# Stream ciphers

A cipher that keeps its place between the pieces of a text.

* `flatten_encryptPieces` — the pieces of a text come to the same as the text
* `xorCipher` — the cipher of a keystream
-/

namespace Nio.Lib

/-- What a cipher in the state `κ` makes of a text, and the state after it -/
structure StreamCipher (κ : Type) where
  encrypt : κ → List UInt8 → List UInt8
  next : κ → List UInt8 → κ
  decrypt : κ → List UInt8 → List UInt8
  /-- The second part of a text goes on where the first one stopped. -/
  encrypt_append : ∀ c text text',
    encrypt c (text ++ text') = encrypt c text ++ encrypt (next c text) text'
  length_encrypt : ∀ c text, (encrypt c text).length = text.length
  decrypt_encrypt : ∀ c text, decrypt c (encrypt c text) = text

namespace StreamCipher

variable {κ : Type} (cipher : StreamCipher κ)

/-- The pieces of a text, one after the other -/
def encryptPieces : κ → List (List UInt8) → List (List UInt8)
  | _, [] => []
  | c, piece :: pieces => cipher.encrypt c piece :: encryptPieces (cipher.next c piece) pieces

theorem encrypt_nil (c : κ) : cipher.encrypt c [] = [] :=
  List.length_eq_zero_iff.mp (cipher.length_encrypt c [])

/-- The pieces are encrypted as one text would be. -/
theorem flatten_encryptPieces (c : κ) (pieces : List (List UInt8)) :
    (cipher.encryptPieces c pieces).flatten = cipher.encrypt c pieces.flatten := by
  induction pieces generalizing c with
  | nil => exact (cipher.encrypt_nil c).symm
  | cons piece pieces ih =>
    rw [encryptPieces, List.flatten_cons, List.flatten_cons, cipher.encrypt_append, ih]

end StreamCipher

/-! ## Keystreams -/

/-- A text under a keystream, from a place in it on -/
def xorFrom (keystream : Nat → UInt8) : Nat → List UInt8 → List UInt8
  | _, [] => []
  | n, x :: text => (x ^^^ keystream n) :: xorFrom keystream (n + 1) text

variable (keystream : Nat → UInt8)

@[simp] theorem length_xorFrom (n : Nat) (text : List UInt8) :
    (xorFrom keystream n text).length = text.length := by
  induction text generalizing n with
  | nil => rfl
  | cons x text ih => rw [xorFrom, List.length_cons, List.length_cons, ih]

/-- The second part goes on where the first one ended. -/
theorem xorFrom_append (n : Nat) (text text' : List UInt8) :
    xorFrom keystream n (text ++ text') =
      xorFrom keystream n text ++ xorFrom keystream (n + text.length) text' := by
  induction text generalizing n with
  | nil => rfl
  | cons x text ih =>
    rw [List.cons_append, xorFrom, xorFrom, List.cons_append, ih, List.length_cons]
    congr 3
    omega

/-- The same keystream takes the text back. -/
theorem xorFrom_xorFrom (n : Nat) (text : List UInt8) :
    xorFrom keystream n (xorFrom keystream n text) = text := by
  induction text generalizing n with
  | nil => rfl
  | cons x text ih =>
    rw [xorFrom, xorFrom, ih, UInt8.xor_assoc, UInt8.xor_self, UInt8.xor_zero]

/-- The cipher of a keystream, whose state is the place in it -/
def xorCipher : StreamCipher Nat where
  encrypt := xorFrom keystream
  next := fun n text => n + text.length
  decrypt := xorFrom keystream
  encrypt_append := xorFrom_append keystream
  length_encrypt := length_xorFrom keystream
  decrypt_encrypt := xorFrom_xorFrom keystream

end Nio.Lib
