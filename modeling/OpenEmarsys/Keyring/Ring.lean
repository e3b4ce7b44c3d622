import OpenEmarsys.Encoding.Base64
import OpenEmarsys.Golang.Values
import OpenEmarsys.Javascript.Values

/-! The master key ring, in Go (`libs/go/oe/keyring`) and in TypeScript (`ts-common/keyring`).

Both keep the keys in a map by kid. The order in which a loop visits a Go map, and the
order of insertion in a `Map`, decide at most which of several errors is reported.
Texts are lists of code units: bytes in Go, UTF-16 in TypeScript, characters where the
two are compared.
-/

set_option autoImplicit false

namespace OpenEmarsys.Keyring

open Base64 (CodeUnit)
open Golang (GoMap)

abbrev Bytes := List UInt8

def KEY_SIZE := 32

def TAG_SIZE := 16

variable {α : Type} [CodeUnit α]

def unit (c : Char) : α := CodeUnit.ascii c

def VERSION : List α := [unit 'v', unit '1']

inductive KeyringError (α : Type) where
  /-- OE_MASTER_KEYS is empty -/
  | noKeys
  /-- OE_MASTER_KEY_ID is empty -/
  | noActive
  | notPair (entry : List α)
  | notBase64 (kid : List α)
  | duplicate (kid : List α)
  | invalidKid (kid : List α)
  | keySize (kid : List α) (size : Nat)
  | notInRing (active : List α)
  | unknownKid (kid : List α)
  | malformed
  | decryption
  deriving DecidableEq

/-- `kid == "" || strings.ContainsAny(kid, ".,: ")`, and the same as a regular expression. -/
def invalidKid (kid : List α) : Bool := kid.isEmpty || kid.any
    fun c => [unit '.', unit ',', unit ':', unit ' '].contains c

structure Ring (α : Type) [CodeUnit α] where
  active : List α
  keys : GoMap (List α) Bytes
  kids : ∀ entry ∈ keys.entries, invalidKid entry.1 = false
  sizes : ∀ entry ∈ keys.entries, entry.2.length = KEY_SIZE
  listed : active ∈ keys.entries.map Prod.fst

def problem (entry : List α × Bytes) : Option (KeyringError α) :=
  if invalidKid entry.1 then some (.invalidKid entry.1)
  else if entry.2.length ≠ KEY_SIZE then some (.keySize entry.1 entry.2.length)
  else none

theorem problem_none {entry : List α × Bytes} (fine : problem entry = none) :
    invalidKid entry.1 = false ∧ entry.2.length = KEY_SIZE := by
  unfold problem at fine
  split at fine
  · cases fine
  · next kid =>
    split at fine
    · cases fine
    · next size => exact ⟨Bool.eq_false_iff.mpr kid, not_not.mp size⟩

/-- The checks of `New` and of the constructor, on the entries in the order of the loop. -/
def build (keys : GoMap (List α) Bytes) (active : List α) : Except (KeyringError α) (Ring α) :=
  if active = [] then .error .noActive
  else
    match fine : keys.entries.findSome? problem with
    | some error => .error error
    | none =>
        if listed : active ∈ keys.entries.map Prod.fst then
          .ok {
            active := active
            keys := keys
            kids := fun entry member => (problem_none (List.findSome?_eq_none_iff.mp fine entry member)).1
            sizes := fun entry member => (problem_none (List.findSome?_eq_none_iff.mp fine entry member)).2
            listed := listed }
        else .error (.notInRing active)

def lookup (keys : GoMap (List α) Bytes) (kid : List α) : Option Bytes :=
  (keys.entries.find? fun entry => entry.1 == kid).map Prod.snd

/-- `keys[kid] = key` for a new kid. -/
def insert (keys : GoMap (List α) Bytes) (kid : List α) (key : Bytes)
    (fresh : kid ∉ keys.entries.map Prod.fst) :
    GoMap (List α) Bytes where
  entries := keys.entries ++ [(kid, key)]
  distinct := by
    have apart : ∀ other ∈ keys.entries.map Prod.fst, ∀ same ∈ [kid], other ≠ same := by
      intro other member same is equal
      rw [equal, List.mem_singleton.mp is] at member
      exact fresh member
    rw [List.map_append]
    exact List.nodup_append.mpr ⟨keys.distinct, List.nodup_singleton kid, apart⟩

theorem build_ring (ring : Ring α) : build ring.keys ring.active = .ok ring := by
  have fine : ring.keys.entries.findSome? problem = none := by
    rw [List.findSome?_eq_none_iff]
    intro entry member
    rw [problem, if_neg (Bool.eq_false_iff.mp (ring.kids entry member)),
      if_neg (not_not.mpr (ring.sizes entry member))]
  have some_ : ring.active ≠ [] := by
    intro none_
    obtain ⟨entry, member, same⟩ := List.mem_map.mp ring.listed
    have kid := ring.kids entry member
    rw [same, none_] at kid
    cases kid
  unfold build
  rw [if_neg some_]
  split
  · next error wrong => cases fine.symm.trans wrong
  · rw [dif_pos ring.listed]

theorem lookup_listed (ring : Ring α) : ∃ key, lookup ring.keys ring.active = some key := by
  obtain ⟨entry, member, same⟩ := List.mem_map.mp ring.listed
  have found : (ring.keys.entries.find? fun entry => entry.1 == ring.active).isSome = true :=
    List.find?_isSome.mpr ⟨entry, member, beq_iff_eq.mpr same⟩
  obtain ⟨other, is⟩ := Option.isSome_iff_exists.mp found
  exact ⟨other.2, by rw [lookup, is, Option.map_some]⟩

/-- AES-256-GCM under a key derived with HKDF-SHA256, without additional data. Purposes are those whose
`info` has at most 1024 bytes: `hkdfSync` throws for a longer one. -/
structure Cipher (α : Type) where
  hkdfKey : Bytes → List α → Bytes
  /-- Key, nonce and plaintext to ciphertext with tag. -/
  encrypt : Bytes → Bytes → Bytes → Bytes
  decrypt : Bytes → Bytes → Bytes → Option Bytes

structure Cipher.Correct (cipher : Cipher α) : Prop where
  decrypt_encrypt : ∀ key nonce plaintext,
    cipher.decrypt key nonce (cipher.encrypt key nonce plaintext) = some plaintext
  tagged : ∀ key nonce plaintext, (cipher.encrypt key nonce plaintext).length = plaintext.length + TAG_SIZE
  /-- What is too short for a tag is not authentic. -/
  short : ∀ key nonce text, text.length < TAG_SIZE → cipher.decrypt key nonce text = none

def info (purpose : List α) : List α := "oe-seal/".toList.map unit ++ purpose

section Envelopes
variable (cipher : Cipher α)

/-- Both `seal`: the nonce is given. -/
def seal_ (ring : Ring α) (purpose : List α) (plaintext nonce : Bytes) : List α :=
  let key := (lookup ring.keys ring.active).getD []
  let text := cipher.encrypt (cipher.hkdfKey key (info purpose)) nonce plaintext
  [unit '.'].intercalate [VERSION, ring.active, (Base64.url α).encode nonce, (Base64.url α).encode text]

namespace Go

def new (keys : GoMap (List α) Bytes) (active : List α) :
    Except (KeyringError α) (Ring α) := build keys active

def skipNewlines (text : List α) : List α := text.filter fun c => c ≠ unit '\n' ∧ c ≠ unit '\r'

/-- `base64.RawURLEncoding.DecodeString` -/
def decodeRawURL (text : List α) : Option Bytes := (Base64.url α).decode (skipNewlines text)

/-- `base64.StdEncoding.DecodeString` -/
def decodeStd (text : List α) : Option Bytes := (Base64.std α).decodePadded (unit '=') (skipNewlines text)

def open_ (ring : Ring α) (purpose envelope : List α) : Except (KeyringError α) Bytes :=
  match envelope.splitOn (unit '.') with
  | [version, kid, nonceText, cipherText] =>
      if version ≠ VERSION then .error .malformed
      else
        match lookup ring.keys kid with
        | none => .error (.unknownKid kid)
        | some key =>
            match decodeRawURL nonceText with
            | none => .error .malformed
            | some nonce =>
                if nonce.length ≠ 12 then .error .malformed
                else
                  match decodeRawURL cipherText with
                  | none => .error .malformed
                  | some text =>
                      match cipher.decrypt (cipher.hkdfKey key (info purpose)) nonce text with
                      | none => .error .decryption
                      | some plaintext => .ok plaintext
  | _ => .error .malformed

end Go

namespace Ts

def new (keys : GoMap (List α) Bytes) (active : List α) :
    Except (KeyringError α) (Ring α) := build keys active

variable (fromBase64url : List α → Bytes)

/-- `fromB64url`: `Buffer.from` takes any text, so only what it would write itself is let through. -/
def fromB64url (text : List α) : Option Bytes :=
  let bytes := fromBase64url text
  if (Base64.url α).encode bytes ≠ text then none else some bytes

def open_ (ring : Ring α) (purpose envelope : List α) : Except (KeyringError α) Bytes :=
  match envelope.splitOn (unit '.') with
  | [version, kid, nonceText, cipherText] =>
      if version ≠ VERSION then .error .malformed
      else
        match lookup ring.keys kid with
        | none => .error (.unknownKid kid)
        | some key =>
            match fromB64url fromBase64url nonceText, fromB64url fromBase64url cipherText with
            | some nonce, some text =>
                if nonce.length ≠ 12 ∨ text.length < TAG_SIZE then .error .malformed
                else
                  match cipher.decrypt (cipher.hkdfKey key (info purpose)) nonce text with
                  | none => .error .decryption
                  | some plaintext => .ok plaintext
            | _, _ => .error .malformed
  | _ => .error .malformed

end Ts

end Envelopes

end OpenEmarsys.Keyring
