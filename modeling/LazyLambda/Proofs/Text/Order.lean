/-
# LazyLambda.Proofs.Text.Order — strings are in the order of the bytes that spell them.

Strings compare by the codes of their characters. A code is spelled by a first byte, which grows with the
number of bytes that follow, and by bytes of six bits each, the highest bits first. So the larger of two codes
has the larger spelling, and of two strings the larger one too (`Text.bytes_ofString_lt`).
-/
import LazyLambda.Proofs.Text.Decoding

namespace LazyLambda.Text

/-! ## Spellings -/

/-- How many bytes follow the first one in the spelling of a code. -/
def tailLength (code : Nat) : Nat :=
  if code < 128 then 0 else if code < 2048 then 1 else if code < 65536 then 2 else 3

/-- The first byte in the spelling of a code: how many bytes follow, and the leading bits. -/
def leadByte (code : Nat) : Nat :=
  if code < 128 then code
  else if code < 2048 then 192 + code / 64
  else if code < 65536 then 224 + code / 4096
  else 240 + code / 262144

/-- The last `k` bytes in the spelling of a code, which hold six bits of it each. -/
def tailBytes (code : Nat) : Nat → List UInt8
  | 0 => []
  | k + 1 => UInt8.ofNat (code / Nat.pow 64 k % 64 + 128) :: tailBytes code k

theorem utf8EncodeChar_eq (c : Char) :
    String.utf8EncodeChar c =
      UInt8.ofNat (leadByte c.toNat) :: tailBytes c.toNat (tailLength c.toNat) := by
  have hc := toNat_lt c
  -- codes end before the leading bits would overflow
  have hlead (mark size bits : Nat) (h : bits < size) :
      UInt8.ofNat (bits % size + mark) = UInt8.ofNat (mark + bits) := by
    rw [Nat.mod_eq_of_lt h, Nat.add_comm]
  unfold String.utf8EncodeChar leadByte tailLength
  rw [show c.val.toNat = c.toNat from rfl]
  generalize c.toNat = v at hc ⊢
  simp only [Nat.lt_succ_iff.symm]
  split
  · simp [tailBytes]
  · split
    · rw [hlead 192 32 _ (by omega)]
      simp [tailBytes]
    · split
      · rw [hlead 224 16 _ (by omega)]
        simp [tailBytes]
      · rw [hlead 240 8 _ (by omega)]
        simp [tailBytes]

/-! ## Comparing spellings -/

/-- Bytes compare by the first of them, and by the others where it is the same. -/
theorem ofNat_cons_lt {a b : Nat} {l l' : List UInt8} (hb : b < 256) (h : a < b ∨ a = b ∧ l < l') :
    UInt8.ofNat a :: l < UInt8.ofNat b :: l' := by
  rw [List.cons_lt_cons_iff, UInt8.lt_iff_toNat_lt, UInt8.toNat_ofNat', UInt8.toNat_ofNat']
  rcases h with h | ⟨rfl, hl⟩
  · left
    omega
  · exact .inr ⟨rfl, hl⟩

theorem leadByte_lt {v : Nat} (hv : v < 0x110000) : leadByte v < 256 := by
  unfold leadByte
  repeat' split
  all_goals omega

/-- The larger code has the larger first byte, or one as large and the same leading bits. -/
theorem leadByte_lt_or_eq {v w : Nat} (h : v < w) :
    leadByte v < leadByte w ∨
      leadByte v = leadByte w ∧ tailLength v = tailLength w ∧
        v / Nat.pow 64 (tailLength v) = w / Nat.pow 64 (tailLength w) := by
  have hpow (n : Nat) : n / Nat.pow 64 0 = n ∧ n / Nat.pow 64 1 = n / 64 ∧
      n / Nat.pow 64 2 = n / 4096 ∧ n / Nat.pow 64 3 = n / 262144 := by simp
  unfold leadByte tailLength
  repeat' split
  all_goals
    simp only [hpow, true_and]
    omega

/-- Codes with the same leading bits compare by their last bytes. -/
theorem tailBytes_append_lt {v w : Nat} (h : v < w) (bs bs' : List UInt8) (k : Nat)
    (hk : v / Nat.pow 64 k = w / Nat.pow 64 k) : tailBytes v k ++ bs < tailBytes w k ++ bs' := by
  induction k with
  | zero =>
      have heq : v = w := by simpa using hk
      omega
  | succ k ih =>
      have hdiv (n : Nat) : n / Nat.pow 64 (k + 1) = n / Nat.pow 64 k / 64 :=
        (Nat.div_div_eq_div_mul n _ 64).symm
      have hle : v / Nat.pow 64 k ≤ w / Nat.pow 64 k := Nat.div_le_div_right (Nat.le_of_lt h)
      rw [hdiv, hdiv] at hk
      refine ofNat_cons_lt (by omega) ?_
      rcases Nat.lt_or_eq_of_le hle with hlt | heq
      · left
        omega
      · exact .inr ⟨by rw [heq], ih heq⟩

/-- The larger character has the larger spelling, whatever follows. -/
theorem utf8EncodeChar_append_lt {c d : Char} (h : c < d) (bs bs' : List UInt8) :
    String.utf8EncodeChar c ++ bs < String.utf8EncodeChar d ++ bs' := by
  have hlt : c.toNat < d.toNat := h
  rw [utf8EncodeChar_eq, utf8EncodeChar_eq, List.cons_append, List.cons_append]
  refine ofNat_cons_lt (leadByte_lt (toNat_lt d)) ?_
  rcases leadByte_lt_or_eq hlt with hl | ⟨hl, hlength, hbits⟩
  · exact .inl hl
  · rw [← hlength] at hbits ⊢
    exact .inr ⟨hl, tailBytes_append_lt hlt bs bs' _ hbits⟩

/-! ## Strings -/

/-- **The order of strings is the order of their bytes.** -/
theorem bytes_ofString_lt {x y : String} (h : x < y) : (ofString x).bytes < (ofString y).bytes := by
  have hlist : x.toList < y.toList := h
  rw [ofString, ofString, bytes, bytes]
  generalize x.toList = cs, y.toList = ds at hlist
  induction cs generalizing ds with
  | nil =>
      cases ds with
      | nil => cases hlist
      | cons d ds =>
          obtain ⟨b, bs, hb⟩ : ∃ b bs, String.utf8EncodeChar d = b :: bs := ⟨_, _, utf8EncodeChar_eq d⟩
          simp [Symbol.bytes, hb]
  | cons c cs ih =>
      cases ds with
      | nil => cases hlist
      | cons d ds =>
          rw [List.map_cons, List.map_cons, List.flatMap_cons, List.flatMap_cons]
          rcases List.cons_lt_cons_iff.1 hlist with hcd | ⟨rfl, hrest⟩
          · exact utf8EncodeChar_append_lt hcd _ _
          · exact List.append_left_lt (ih ds hrest)

end LazyLambda.Text
