import OpenEmarsys.Keyring.Ring

/-! Sealed texts outlive the ring they were sealed under. -/

set_option autoImplicit false

namespace OpenEmarsys.Keyring

open Base64 (CodeUnit)
open Golang (GoMap)

variable {α : Type} [CodeUnit α]

theorem unit_ne {c d : Char} (small : c.toNat < 128) (small' : d.toNat < 128) (differs : c ≠ d) :
    (unit c : α) ≠ unit d :=
  fun same => differs (CodeUnit.distinct c d small small' same)

theorem dot_not_digit (sextet : Base64.Sextet) : (Base64.url α).digit sextet ≠ unit '.' := by
  refine Base64.ascii_ne_digit (by decide) (fun other => ?_) sextet
  unfold Base64.symbol
  have := other.isLt
  split_ifs <;> simp <;> omega

theorem newline_not_digit (sextet : Base64.Sextet) :
    (Base64.url α).digit sextet ≠ unit '\n' ∧ (Base64.url α).digit sextet ≠ unit '\r' := by
  constructor
  all_goals
    refine Base64.ascii_ne_digit (by decide) (fun other => ?_) sextet
    unfold Base64.symbol
    have := other.isLt
    split_ifs <;> simp <;> omega

theorem dot_not_encoded (bytes : Bytes) : unit '.' ∉ (Base64.url α).encode bytes := by
  intro member
  obtain ⟨sextet, same⟩ := Base64.Alphabet.mem_encode _ member
  exact dot_not_digit sextet same

theorem dot_not_kid {kid : List α} (valid : invalidKid kid = false) : unit '.' ∉ kid := by
  intro member
  rw [invalidKid, Bool.or_eq_false_iff, List.any_eq_false] at valid
  exact valid.2 _ member (by simp)

theorem dot_not_version : unit '.' ∉ (VERSION : List α) := by
  rw [VERSION, List.mem_cons, List.mem_singleton]
  exact not_or.mpr ⟨unit_ne (by decide) (by decide) (by decide), unit_ne (by decide) (by decide) (by decide)⟩

theorem ring_active (ring : Ring α) : invalidKid ring.active = false := by
  obtain ⟨entry, member, same⟩ := List.mem_map.mp ring.listed
  rw [← same]
  exact ring.kids entry member

theorem split_seal (cipher : Cipher α) (ring : Ring α) (purpose : List α) (plaintext nonce key : Bytes)
    (active : lookup ring.keys ring.active = some key) :
    (seal_ cipher ring purpose plaintext nonce).splitOn (unit '.') =
      [VERSION, ring.active, (Base64.url α).encode nonce,
        (Base64.url α).encode (cipher.encrypt (cipher.hkdfKey key (info purpose)) nonce plaintext)] := by
  simp only [seal_, active, Option.getD_some]
  apply List.splitOn_intercalate
  · intro part member
    simp only [List.mem_cons, List.not_mem_nil, or_false] at member
    rcases member with rfl | rfl | rfl | rfl
    · exact dot_not_version
    · exact dot_not_kid (ring_active ring)
    · exact dot_not_encoded nonce
    · exact dot_not_encoded _
  · exact List.cons_ne_nil _ _

theorem Go.decodeRawURL_encode (bytes : Bytes) : Go.decodeRawURL
    ((Base64.url α).encode bytes) = some bytes := by
  have kept : Go.skipNewlines ((Base64.url α).encode bytes) = (Base64.url α).encode bytes := by
    apply List.filter_eq_self.mpr
    intro c member
    obtain ⟨sextet, rfl⟩ := Base64.Alphabet.mem_encode _ member
    simpa using newline_not_digit sextet
  rw [Go.decodeRawURL, kept, Base64.Alphabet.decode_encode]

/-- What `Buffer.from(text, 'base64url')` is known for. -/
def ReadsBack (fromBase64url : List α → Bytes) : Prop :=
  ∀ bytes, fromBase64url ((Base64.url α).encode bytes) = bytes

theorem Ts.fromB64url_encode {fromBase64url : List α → Bytes} (reads : ReadsBack fromBase64url)
    (bytes : Bytes) :
    Ts.fromB64url fromBase64url ((Base64.url α).encode bytes) = some bytes := by
  simp [Ts.fromB64url, reads bytes]

/-- Under a ring that has the kid, either language opens what was sealed as long as the key is the same; under
one that has not, both name the kid. -/
theorem sealed_survives_rotation (cipher : Cipher α) (correct : cipher.Correct)
    (fromBase64url : List α → Bytes)
    (reads : ReadsBack fromBase64url) (ring later : Ring α) (purpose : List α) (plaintext nonce : Bytes)
    (twelve : nonce.length = 12) :
    (lookup later.keys ring.active = lookup ring.keys ring.active →
      Go.open_ cipher later purpose (seal_ cipher ring purpose plaintext nonce) = .ok plaintext ∧
      Ts.open_ cipher fromBase64url later purpose
      (seal_ cipher ring purpose plaintext nonce) = .ok plaintext) ∧
    (lookup later.keys ring.active = none →
      Go.open_ cipher later purpose (seal_ cipher ring purpose plaintext nonce) = .error
      (.unknownKid ring.active) ∧
        Ts.open_ cipher fromBase64url later purpose (seal_ cipher ring purpose plaintext nonce) =
        .error (.unknownKid ring.active)) := by
  obtain ⟨key, active⟩ := lookup_listed ring
  have parts := split_seal cipher ring purpose plaintext nonce key active
  have long : ¬ (plaintext.length + TAG_SIZE < TAG_SIZE) := by omega
  constructor
  · intro same
    rw [active] at same
    constructor
    · simp only [Go.open_, parts, same, Go.decodeRawURL_encode, correct.decrypt_encrypt, twelve, ne_eq,
        not_true_eq_false, if_false]
    · simp only [Ts.open_, parts, same, Ts.fromB64url_encode reads, correct.decrypt_encrypt,
        correct.tagged, twelve, long, ne_eq,
        not_true_eq_false, or_self, if_false]
  · intro absent
    constructor
    · simp only [Go.open_, parts, absent, ne_eq, not_true_eq_false, if_false]
    · simp only [Ts.open_, parts, absent, ne_eq, not_true_eq_false, if_false]

def tagging : Cipher Char where
  hkdfKey key _ := key
  encrypt _ _ plaintext := plaintext ++ List.replicate TAG_SIZE 0
  decrypt _ _ text := if text.length < TAG_SIZE then none else some (text.take (text.length - TAG_SIZE))

theorem tagging_correct : tagging.Correct where
  decrypt_encrypt key nonce plaintext := by
    simp [tagging]
  tagged key nonce plaintext := by simp [tagging]
  short key nonce text small := if_pos small

def bufferFromBase64url (text : List Char) : Bytes := ((Base64.url Char).decode text).getD []

theorem bufferFromBase64url_reads : ReadsBack bufferFromBase64url := by
  intro bytes
  rw [bufferFromBase64url, Base64.Alphabet.decode_encode, Option.getD_some]

def zeroKey : Bytes := List.replicate KEY_SIZE 0

def firstRing : Ring Char := ⟨['a'], ⟨[(['a'], zeroKey)], by decide⟩, by decide, by decide, by decide⟩

def rotatedRing : Ring Char :=
  ⟨['b'], ⟨[(['b'], List.replicate KEY_SIZE 1), (['a'], zeroKey)], by decide⟩,
    by decide, by decide, by decide⟩

theorem sealed_survives_a_rotation :
    Go.open_ tagging rotatedRing ['p'] (seal_ tagging firstRing ['p'] [1, 2, 3] (List.replicate 12 7)) = .ok
    [1, 2, 3] ∧
    Ts.open_ tagging bufferFromBase64url firstRing ['p']
    (seal_ tagging rotatedRing ['p'] [] (List.replicate 12 7)) =
      .error (.unknownKid ['b']) :=
  ⟨((sealed_survives_rotation tagging tagging_correct bufferFromBase64url bufferFromBase64url_reads
    firstRing rotatedRing ['p']
      [1, 2, 3] (List.replicate 12 7) (by decide)).1 (by decide)).1,
    ((sealed_survives_rotation tagging tagging_correct bufferFromBase64url bufferFromBase64url_reads
      rotatedRing firstRing ['p']
      [] (List.replicate 12 7) (by decide)).2 (by decide)).2⟩

end OpenEmarsys.Keyring
