import Mathlib.Tactic.IntervalCases
import Mathlib.Tactic.Ring
import OpenEmarsys.Javascript.Values

/-! The text of a uuid, read back by those who read it. -/

set_option autoImplicit false

namespace OpenEmarsys.Javascript

/-- The number some hexadecimal digits denote, read after `n`. -/
def hexFrom (n : Nat) (digits : List Char) : Nat := digits.foldl (fun n c => 16 * n + hexDigit c) n

theorem hexFrom_append (n : Nat) (first second : List Char) :
    hexFrom n (first ++ second) = hexFrom (hexFrom n first) second :=
  List.foldl_append

theorem isHex_iff {c : Char} : isHex c = true ↔
    48 ≤ c.toNat ∧ c.toNat ≤ 57 ∨ 97 ≤ c.toNat ∧ c.toNat ≤ 102 ∨ 65 ≤ c.toNat ∧ c.toNat ≤ 70 := by
  simp [isHex, isDigit, Char.le_def, UInt32.le_iff_toNat_le, or_assoc]

theorem hexDigit_lt {c : Char} (hex : isHex c = true) : hexDigit c < 16 := by
  have bounds := isHex_iff.mp hex
  have value : c.val.toNat = c.toNat := rfl
  unfold hexDigit
  split
  · next digit =>
    simp only [isDigit, Char.le_def, UInt32.le_iff_toNat_le, Bool.and_eq_true,
      decide_eq_true_eq, value] at digit
    have above : ('9' : Char).val.toNat = 57 := rfl
    omega
  · split
    · omega
    · next other upper =>
      simp only [isDigit, Char.le_def, UInt32.le_iff_toNat_le, Bool.and_eq_true,
        decide_eq_true_eq, value] at other upper
      have zero : ('0' : Char).val.toNat = 48 := rfl
      have nine : ('9' : Char).val.toNat = 57 := rfl
      have a : ('a' : Char).val.toNat = 97 := rfl
      omega

theorem digitChar_hex {n : Nat} (small : n < 16) : isHex n.digitChar = true ∧ hexDigit n.digitChar = n := by
  interval_cases n <;> decide

theorem toDigits_hex (n : Nat) : (∀ c ∈ Nat.toDigits 16 n, isHex c = true) ∧ hexFrom 0
    (Nat.toDigits 16 n) = n := by
  induction n using Nat.strongRecOn with
  | ind n ih =>
    by_cases small : n < 16
    · have digit := digitChar_hex small
      rw [Nat.toDigits_of_lt_base small]
      exact ⟨fun c member => List.mem_singleton.mp member ▸ digit.1, by simp [hexFrom, digit.2]⟩
    · have digit := digitChar_hex (Nat.mod_lt n (by decide : 0 < 16))
      obtain ⟨hex, value⟩ := ih (n / 16) (by omega)
      rw [Nat.toDigits_of_base_le (by decide) (by omega)]
      refine ⟨fun c member => ?_, ?_⟩
      · rcases List.mem_append.mp member with early | last
        · exact hex c early
        · exact List.mem_singleton.mp last ▸ digit.1
      · rw [hexFrom_append, value]
        simp only [hexFrom, List.foldl_cons, List.foldl_nil, digit.2]
        omega

theorem hexFrom_lt {digits : List Char} (hex : ∀ c ∈ digits, isHex c = true) (n : Nat) :
    hexFrom n digits < (n + 1) * 16 ^ digits.length := by
  induction digits generalizing n with
  | nil => simp [hexFrom]
  | cons c rest ih =>
    have digit := hexDigit_lt (hex c (List.mem_cons_self ..))
    have later := ih (fun other member => hex other (List.mem_cons_of_mem _ member)) (16 * n + hexDigit c)
    refine Nat.lt_of_lt_of_le later ?_
    calc (16 * n + hexDigit c + 1) * 16 ^ rest.length ≤ (16 * (n + 1)) * 16 ^ rest.length :=
      Nat.mul_le_mul_right _ (by omega)
      _ = (n + 1) * 16 ^ (rest.length + 1) := by ring

theorem hexFrom_zeros (count : Nat) (digits : List Char) :
    hexFrom 0 (Number.zeros count ++ digits) = hexFrom 0 digits := by
  induction count with
  | zero => rfl
  | succ count ih => exact ih

def uuidDigits (id : Uuid) : List Char :=
  Number.zeros (32 - (Nat.toDigits 16 id).length) ++ Nat.toDigits 16 id

theorem uuidDigits_hex (id : Uuid) : ∀ c ∈ uuidDigits id, isHex c = true := by
  intro c member
  rcases List.mem_append.mp member with zero | digit
  · rw [List.eq_of_mem_replicate zero]
    rfl
  · exact (toDigits_hex id).1 c digit

theorem uuidDigits_value (id : Uuid) : hexFrom 0 (uuidDigits id) = id := by
  rw [uuidDigits, hexFrom_zeros, (toDigits_hex id).2]

theorem uuidDigits_length {id : Uuid} (small : id < 2 ^ 128) : (uuidDigits id).length = 32 := by
  have short : (Nat.toDigits 16 id).length ≤ 32 :=
    (Nat.length_toDigits_le_iff (by decide) (by decide)).mpr small
  rw [uuidDigits, List.length_append, Number.zeros, List.length_replicate]
  omega

def grouped (digits : List Char) : List Char :=
  let part (first count : Nat) := (digits.drop first).take count
  part 0 8 ++ '-' :: part 8 4 ++ '-' :: part 12 4 ++ '-' :: part 16 4 ++ '-' :: part 20 12

theorem uuidText_toList (id : Uuid) : (uuidText id).toList = grouped (uuidDigits id) := String.toList_ofList

structure Parts (digits : List Char) (a b c d e : List Char) : Prop where
  whole : digits = a ++ (b ++ (c ++ (d ++ e)))
  text : grouped digits = a ++ ('-' :: (b ++ ('-' :: (c ++ ('-' :: (d ++ ('-' :: e)))))))
  lengths : a.length = 8 ∧ b.length = 4 ∧ c.length = 4 ∧ d.length = 4 ∧ e.length = 12

theorem parts_of_length {digits : List Char} (length : digits.length = 32) :
    ∃ a b c d e, Parts digits a b c d e := by
  refine ⟨digits.take 8, (digits.drop 8).take 4, (digits.drop 12).take 4, (digits.drop 16).take 4,
    digits.drop 20, ?_, ?_, ?_⟩
  · have step (first count : Nat) : digits.drop first = (digits.drop first).take count ++
        digits.drop (first + count) := by
      rw [← List.drop_drop, List.take_append_drop]
    rw [← step 16 4, ← step 12 4, ← step 8 4, List.take_append_drop]
  · have last : (digits.drop 20).take 12 = digits.drop 20 := List.take_of_length_le (by simp [length])
    simp only [grouped, List.drop_zero, last, List.append_assoc, List.cons_append]
  · simp [length]

theorem filter_hex {digits : List Char} (hex : ∀ c ∈ digits, isHex c = true) : digits.filter isHex = digits :=
  List.filter_eq_self.mpr hex

theorem grouped_filter {digits : List Char} (length : digits.length = 32)
    (hex : ∀ c ∈ digits, isHex c = true) :
    (grouped digits).filter isHex = digits := by
  obtain ⟨a, b, c, d, e, whole, text, -⟩ := parts_of_length length
  have hyphen : isHex '-' = false := rfl
  rw [text]
  conv_rhs => rw [← filter_hex hex, whole]
  simp only [List.filter_append, List.filter_cons, hyphen, Bool.false_eq_true, if_false]

def uuidChar (entry : Char × Nat) : Bool := if entry.2 ∈ [8, 13, 18, 23]
    then entry.1 == '-' else isHex entry.1

theorem isUuid_iff (text : String) : isUuid text = true ↔ text.toList.length = 36 ∧
    text.toList.zipIdx.all uuidChar = true := by
  rw [isUuid, Bool.and_eq_true, beq_iff_eq]
  exact Iff.rfl

theorem digits_uuidChar {digits : List Char} (hex : ∀ c ∈ digits, isHex c = true) (start : Nat)
    (clear : ∀ i, start ≤ i → i < start + digits.length → i ∉ [8, 13, 18, 23]) :
    (digits.zipIdx start).all uuidChar = true := by
  rw [List.all_eq_true]
  rintro ⟨c, i⟩ member
  obtain ⟨from_, to_, is⟩ := List.mem_zipIdx member
  have at_ := clear i from_ (by omega)
  rw [uuidChar, if_neg at_]
  exact hex c (is ▸ List.getElem_mem _)

theorem grouped_uuidChar {digits : List Char} (length : digits.length = 32)
    (hex : ∀ c ∈ digits, isHex c = true) :
    (grouped digits).length = 36 ∧ (grouped digits).zipIdx.all uuidChar = true := by
  obtain ⟨a, b, c, d, e, whole, text, la, lb, lc, ld, le⟩ := parts_of_length length
  rw [whole] at hex
  simp only [List.forall_mem_append] at hex
  obtain ⟨ha, hb, hc, hd, he⟩ := hex
  rw [text]
  refine ⟨by simp [la, lb, lc, ld, le], ?_⟩
  simp only [List.zipIdx_append, List.zipIdx_cons, List.all_append, List.all_cons,
    Bool.and_eq_true, la, lb, lc, ld]
  refine ⟨digits_uuidChar ha _ ?_, rfl, digits_uuidChar hb _ ?_, rfl, digits_uuidChar hc _ ?_, rfl,
    digits_uuidChar hd _ ?_, rfl,
    digits_uuidChar he _ ?_⟩
  all_goals
    intro i
    simp
    omega

theorem uuidText_isUuid {id : Uuid} (small : id < 2 ^ 128) :
    isUuid (uuidText id) = true ∧ uuidOf (uuidText id) = id := by
  have length := uuidDigits_length small
  refine ⟨(isUuid_iff _).mpr ?_, ?_⟩
  · rw [uuidText_toList]
    exact grouped_uuidChar length (uuidDigits_hex id)
  · rw [uuidOf, uuidText_toList, grouped_filter length (uuidDigits_hex id)]
    exact uuidDigits_value id

theorem uuidText_injective {id other : Uuid} (small : id < 2 ^ 128) (otherSmall : other < 2 ^ 128)
    (same : uuidText id = uuidText other) :
    id = other := by
  rw [← (uuidText_isUuid small).2, same, (uuidText_isUuid otherSmall).2]

theorem isUuid_char {text : String} (is : isUuid text = true) {c : Char} (member : c ∈ text.toList) :
    c = '-' ∨ isHex c = true := by
  obtain ⟨-, all⟩ := (isUuid_iff text).mp is
  obtain ⟨i, within, here⟩ := List.mem_iff_getElem.mp member
  have entry := List.all_eq_true.mp all (c, i) (List.mem_zipIdx_iff_getElem?.mpr (by simp [← here]))
  rw [uuidChar] at entry
  split at entry
  · exact .inl (beq_iff_eq.mp entry)
  · exact .inr entry

theorem isUuid_digits {text : String} (is : isUuid text = true) : (text.toList.filter isHex).length ≤ 32 := by
  obtain ⟨length, all⟩ := (isUuid_iff text).mp is
  have clear : ∀ entry ∈ text.toList.zipIdx, isHex entry.1 = true →
      decide (entry.2 ∉ [8, 13, 18, 23]) = true := by
    intro entry member hex
    have holds := List.all_eq_true.mp all entry member
    rw [uuidChar] at holds
    split at holds
    · rw [beq_iff_eq.mp holds] at hex
      cases hex
    · next free => exact decide_eq_true free
  calc (text.toList.filter isHex).length
      = (text.toList.zipIdx.filter fun entry => isHex entry.1).length := by
        conv_lhs => rw [← List.zipIdx_map_fst 0 text.toList, List.filter_map, List.length_map]
        rfl
    _ ≤ (text.toList.zipIdx.filter fun entry => decide (entry.2 ∉ [8, 13, 18, 23])).length := by
        simp only [← List.countP_eq_length_filter]
        exact List.countP_mono_left clear
    _ = ((List.range' 0 36).filter fun i => decide (i ∉ [8, 13, 18, 23])).length := by
        conv_rhs => rw [← length, ← List.zipIdx_map_snd 0 text.toList, List.filter_map, List.length_map]
        rfl
    _ = 32 := by decide

theorem uuidOf_lt {text : String} (is : isUuid text = true) : uuidOf text < 2 ^ 128 := by
  have hex : ∀ c ∈ text.toList.filter isHex, isHex c = true := fun c member => (List.mem_filter.mp member).2
  calc uuidOf text < (0 + 1) * 16 ^ (text.toList.filter isHex).length := hexFrom_lt hex 0
    _ ≤ 1 * 16 ^ 32 := Nat.mul_le_mul_left 1 (Nat.pow_le_pow_right (by decide) (isUuid_digits is))
    _ = 2 ^ 128 := by decide

end OpenEmarsys.Javascript
