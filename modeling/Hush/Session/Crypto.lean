import Hush.Foundation.Utf8
import Mathlib.Data.List.TakeDrop

/-! The cryptographic functions of `session.rs` over the crates they call. What
the crates promise is stated here and assumed by name where it is used. -/
namespace Hush.Session

open Hush.Foundation

def keySize : Nat := 32
def nonceSize : Nat := 12
def tagSize : Nat := 16
def pubKeySize : Nat := 32

inductive SessionError where
  | hkdf (msg : String)
  | aes (msg : String)
  | crypto (msg : String)
  deriving DecidableEq, Repr

/-- Twelve bytes, fresh from the operating system's generator at each use. -/
structure Nonce where
  bytes : List UInt8
  length_bytes : bytes.length = nonceSize
  deriving DecidableEq, Repr

/-- AES-256-GCM of the `aes-gcm` crate: key, nonce, text. -/
structure Aead where
  encrypt : List UInt8 → List UInt8 → List UInt8 → Option (List UInt8)
  decrypt : List UInt8 → List UInt8 → List UInt8 → Option (List UInt8)

/-- The longest text that the crate encrypts. -/
def maxPlaintext : Nat := 2 ^ 36

/-- What the crate documents of a 32-byte key and a 12-byte nonce: texts up to
the limit are encrypted, the tag adds its size, and the same key and nonce
recover the text. -/
structure Aead.Lawful (aead : Aead) : Prop where
  encrypt_isSome : ∀ {key text : List UInt8} {nonce : Nonce}, key.length = keySize →
    text.length ≤ maxPlaintext → (aead.encrypt key nonce.bytes text).isSome
  length_encrypt : ∀ {key text sealed : List UInt8} {nonce : Nonce}, key.length = keySize →
    aead.encrypt key nonce.bytes text = some sealed → sealed.length = text.length + tagSize
  decrypt_encrypt : ∀ {key text sealed : List UInt8} {nonce : Nonce}, key.length = keySize →
    aead.encrypt key nonce.bytes text = some sealed →
      aead.decrypt key nonce.bytes sealed = some text

/-- `Aes256Gcm::new_from_slice`, which takes 32-byte keys only. -/
def newFromSlice (key : List UInt8) : Except SessionError (List UInt8) :=
  if key.length = keySize then .ok key else .error (.aes "invalid key length")

/-- Encrypt plaintext with AES-256-GCM. Returns nonce || ciphertext. -/
def encrypt (aead : Aead) (nonce : Nonce) (key plaintext : List UInt8) :
    Except SessionError (List UInt8) := do
  let cipher ← newFromSlice key
  match aead.encrypt cipher nonce.bytes plaintext with
  | some ciphertext => return nonce.bytes ++ ciphertext
  | none => .error (.crypto "aes-gcm encrypt: aead::Error")

/-- Decrypt data produced by `encrypt`. -/
def decrypt (aead : Aead) (key data : List UInt8) : Except SessionError (List UInt8) :=
  if data.length < nonceSize + tagSize then .error (.crypto "ciphertext too short")
  else do
    let cipher ← newFromSlice key
    match aead.decrypt cipher (data.take nonceSize) (data.drop nonceSize) with
    | some plaintext => return plaintext
    | none => .error (.crypto "gcm decrypt: message authentication failed")

theorem newFromSlice_of_length {key : List UInt8} (h : key.length = keySize) :
    newFromSlice key = .ok key := if_pos h

theorem newFromSlice_of_length_ne {key : List UInt8} (h : key.length ≠ keySize) :
    newFromSlice key = .error (.aes "invalid key length") := if_neg h

theorem encrypt_ok_iff {aead : Aead} {nonce : Nonce} {key plaintext out : List UInt8} :
    encrypt aead nonce key plaintext = .ok out ↔
      key.length = keySize ∧ ∃ sealed, aead.encrypt key nonce.bytes plaintext = some sealed ∧
        out = nonce.bytes ++ sealed := by
  unfold encrypt
  by_cases hkey : key.length = keySize
  · rw [newFromSlice_of_length hkey]
    dsimp only [bind, Except.bind]
    split
    · rename_i sealed hsealed
      simp only [pure, Except.pure, Except.ok.injEq, hkey, hsealed, Option.some.injEq, true_and,
        exists_eq_left']
      exact eq_comm
    · rename_i hnone
      simp [hnone]
  · rw [newFromSlice_of_length_ne hkey]
    simp [hkey, bind, Except.bind]

theorem decrypt_ok_iff {aead : Aead} {key data plaintext : List UInt8} :
    decrypt aead key data = .ok plaintext ↔
      nonceSize + tagSize ≤ data.length ∧ key.length = keySize ∧
        aead.decrypt key (data.take nonceSize) (data.drop nonceSize) = some plaintext := by
  unfold decrypt
  by_cases hshort : data.length < nonceSize + tagSize
  · rw [if_pos hshort]
    simp [Nat.not_le.mpr hshort]
  · rw [if_neg hshort]
    by_cases hkey : key.length = keySize
    · rw [newFromSlice_of_length hkey]
      dsimp only [bind, Except.bind]
      split
      · rename_i text htext
        simp [pure, Except.pure, hkey, htext, Nat.not_lt.mp hshort]
      · rename_i hnone
        simp [hnone]
    · rw [newFromSlice_of_length_ne hkey]
      simp [hkey, bind, Except.bind]

/-- Nothing opens under a key of another size, the empty key among them. -/
theorem decrypt_of_length_ne {aead : Aead} {key data : List UInt8} (h : key.length ≠ keySize) :
    ∃ e, decrypt aead key data = .error e := by
  match hrun : decrypt aead key data with
  | .error e => exact ⟨e, rfl⟩
  | .ok plaintext => exact absurd (decrypt_ok_iff.mp hrun).2.1 h

/-- Whatever `encrypt` makes, `decrypt` undoes, and its size is known. -/
theorem decrypt_encrypt {aead : Aead} (hlaw : aead.Lawful) {nonce : Nonce}
    {key plaintext out : List UInt8} (h : encrypt aead nonce key plaintext = .ok out) :
    decrypt aead key out = .ok plaintext ∧
      out.length = nonceSize + (plaintext.length + tagSize) := by
  obtain ⟨hkey, sealed, hsealed, rfl⟩ := encrypt_ok_iff.mp h
  have hlength := hlaw.length_encrypt hkey hsealed
  have hout : (nonce.bytes ++ sealed).length = nonceSize + (plaintext.length + tagSize) := by
    rw [List.length_append, nonce.length_bytes, hlength]
  refine ⟨decrypt_ok_iff.mpr ⟨by omega, hkey, ?_⟩, hout⟩
  rw [List.take_left' nonce.length_bytes, List.drop_left' nonce.length_bytes]
  exact hlaw.decrypt_encrypt hkey hsealed

theorem encrypt_isOk {aead : Aead} (hlaw : aead.Lawful) {nonce : Nonce}
    {key plaintext : List UInt8} (hkey : key.length = keySize)
    (hlength : plaintext.length ≤ maxPlaintext) :
    ∃ out, encrypt aead nonce key plaintext = .ok out := by
  have hsome : (aead.encrypt key nonce.bytes plaintext).isSome :=
    hlaw.encrypt_isSome hkey hlength
  obtain ⟨sealed, hsealed⟩ := Option.isSome_iff_exists.mp hsome
  exact ⟨_, encrypt_ok_iff.mpr ⟨hkey, sealed, hsealed, rfl⟩⟩

/-- X25519 of `x25519-dalek` and HKDF-SHA256 of `hkdf`: the public key of a
secret, the shared secret of a secret and a public key, and the expansion of
salt, key material and info to a number of bytes. -/
structure KeyExchange where
  publicKey : List UInt8 → List UInt8
  diffieHellman : List UInt8 → List UInt8 → List UInt8
  hkdf : List UInt8 → List UInt8 → List UInt8 → Nat → Option (List UInt8)

/-- What the crates document: public keys have 32 bytes, both sides of an exchange
get the same secret, and HKDF expands to as few bytes as a session key has. -/
structure KeyExchange.Lawful (exchange : KeyExchange) : Prop where
  length_publicKey : ∀ secret, (exchange.publicKey secret).length = pubKeySize
  diffieHellman_comm : ∀ a b, exchange.diffieHellman a (exchange.publicKey b) =
    exchange.diffieHellman b (exchange.publicKey a)
  hkdf_isSome : ∀ salt ikm info, (exchange.hkdf salt ikm info keySize).isSome

/-- Compute ECDH shared secret from a static private key. -/
def sharedSecretStatic (exchange : KeyExchange) (privKey pubKey : List UInt8) : List UInt8 :=
  exchange.diffieHellman privKey pubKey

/-- Derive AES-256 session key via HKDF-SHA256. -/
def deriveSessionKey (exchange : KeyExchange) (sharedSecret apiKeySecret : List UInt8) :
    Except SessionError (List UInt8) :=
  match exchange.hkdf sharedSecret apiKeySecret (Utf8.asBytes "hush-v1-key") keySize with
  | some okm => .ok okm
  | none => .error (.hkdf "hkdf expand failed")

theorem deriveSessionKey_isOk {exchange : KeyExchange} (hlaw : exchange.Lawful)
    (sharedSecret apiKeySecret : List UInt8) :
    ∃ key, deriveSessionKey exchange sharedSecret apiKeySecret = .ok key := by
  obtain ⟨key, hkey⟩ := Option.isSome_iff_exists.mp
    (hlaw.hkdf_isSome sharedSecret apiKeySecret (Utf8.asBytes "hush-v1-key"))
  refine ⟨key, ?_⟩
  unfold deriveSessionKey
  rw [hkey]

/-- A stand-in for examples: the tag is the first half of the key, so a sealed
text opens under a key that shares it and under no other. -/
def keyTagAead : Aead where
  encrypt := fun key _ text => some (text ++ key.take tagSize)
  decrypt := fun key _ sealed =>
    let text := sealed.take (sealed.length - tagSize)
    if sealed = text ++ key.take tagSize then some text else none

theorem length_keyTag {key : List UInt8} (h : key.length = keySize) :
    (key.take tagSize).length = tagSize := by
  rw [List.length_take, h]
  rfl

theorem keyTagAead_decrypt {key other text : List UInt8} {nonce : Nonce}
    (hkey : key.length = keySize) :
    keyTagAead.decrypt other nonce.bytes (text ++ key.take tagSize) =
      if key.take tagSize = other.take tagSize then some text else none := by
  have hlength : (text ++ key.take tagSize).length - tagSize = text.length := by
    rw [List.length_append, length_keyTag hkey, Nat.add_sub_cancel]
  simp only [keyTagAead, hlength, List.take_left, List.append_cancel_left_eq]

theorem keyTagAead_lawful : keyTagAead.Lawful := by
  constructor
  · intro key text nonce _ _
    rfl
  · intro key text sealed nonce hkey hsealed
    obtain rfl := Option.some.inj hsealed
    rw [List.length_append, length_keyTag hkey]
  · intro key text sealed nonce hkey hsealed
    obtain rfl := Option.some.inj hsealed
    rw [keyTagAead_decrypt hkey, if_pos rfl]

end Hush.Session
