import Mathlib.Data.Nat.Notation
import Mathlib.Tactic.Ring

/-!
# Numbers in base 128

A number is written with seven bits in each byte, the lowest first, and every
byte but the last has its high bit set.  The written form is the shortest one;
a reader also takes longer forms.
-/

namespace HttpRaftKv

abbrev Bytes := List UInt8

namespace Varint

/-- The form of a number with at most the given number of bytes. -/
def write : ℕ → ℕ → Bytes
  | 0, _ => []
  | size + 1, n =>
      if n < 128 then [UInt8.ofNat n] else UInt8.ofNat (n % 128 + 128) :: write size (n / 128)

/-- The number at the front of the bytes, in at most the given number of bytes. -/
def read : ℕ → Bytes → Option (ℕ × Bytes)
  | 0, _ => none
  | _ + 1, [] => none
  | size + 1, b :: bs =>
      if b.toNat < 128 then some (b.toNat, bs)
      else (read size bs).map fun p ↦ (b.toNat - 128 + 128 * p.1, p.2)

theorem toNat_ofNat {k : ℕ} (h : k < 256) : (UInt8.ofNat k).toNat = k := by
  rw [UInt8.toNat_ofNat']
  exact Nat.mod_eq_of_lt h

theorem read_write {size n : ℕ} (hsize : 0 < size) (hn : n < 128 ^ size) {limit : ℕ}
    (hlimit : size ≤ limit) (rest : Bytes) :
    read limit (write size n ++ rest) = some (n, rest) := by
  induction size generalizing n limit with
  | zero => exact absurd hsize (lt_irrefl 0)
  | succ size ih =>
      obtain ⟨limit, rfl⟩ : ∃ k, limit = k + 1 := ⟨limit - 1, by omega⟩
      unfold write
      split_ifs with hsmall
      · rw [List.singleton_append, read, toNat_ofNat (by omega), if_pos hsmall]
      · have hdiv : n / 128 < 128 ^ size := by
          rw [Nat.div_lt_iff_lt_mul (by decide)]
          rwa [pow_succ] at hn
        have hpos : 0 < size := by
          by_contra hzero
          obtain rfl : size = 0 := by omega
          rw [pow_zero] at hdiv
          omega
        have hread := ih hpos hdiv (Nat.le_of_succ_le_succ hlimit)
        rw [List.cons_append, read, toNat_ofNat (by omega), if_neg (by omega), hread,
          Option.map_some]
        congr 2
        omega

/-- Bytes that follow a number are not looked at. -/
theorem read_append {limit : ℕ} {bs rest : Bytes} {n : ℕ} (h : read limit bs = some (n, rest))
    (more : Bytes) : read limit (bs ++ more) = some (n, rest ++ more) := by
  induction limit generalizing bs n with
  | zero => simp [read] at h
  | succ limit ih =>
      cases bs with
      | nil => simp [read] at h
      | cons b bs =>
          rw [read] at h
          rw [List.cons_append, read]
          split_ifs at h ⊢ with hsmall
          · cases h
            rfl
          · obtain ⟨⟨m, tail⟩, hread, heq⟩ := Option.map_eq_some_iff.mp h
            obtain ⟨rfl, rfl⟩ := Prod.mk.inj heq
            rw [ih hread, Option.map_some]

/-- A number that is read from `k` bytes is below `128 ^ k`. -/
theorem read_lt {limit : ℕ} {bs rest : Bytes} {n : ℕ} (h : read limit bs = some (n, rest)) :
    rest.length < bs.length ∧ n < 128 ^ (bs.length - rest.length) := by
  induction limit generalizing bs n with
  | zero => simp [read] at h
  | succ limit ih =>
      cases bs with
      | nil => simp [read] at h
      | cons b bs =>
          rw [read] at h
          split_ifs at h with hsmall
          · cases h
            refine ⟨Nat.lt_succ_self _, ?_⟩
            simpa using hsmall
          · obtain ⟨⟨m, tail⟩, hread, heq⟩ := Option.map_eq_some_iff.mp h
            obtain ⟨rfl, rfl⟩ := Prod.mk.inj heq
            have hbelow : tail.length < bs.length ∧ m < 128 ^ (bs.length - tail.length) := ih hread
            obtain ⟨hlength, hm⟩ := hbelow
            have hbyte : b.toNat < 256 := b.toNat_lt
            have hexponent : (b :: bs).length - tail.length = bs.length - tail.length + 1 := by
              rw [List.length_cons]
              omega
            refine ⟨hlength.trans (Nat.lt_succ_self _), ?_⟩
            change b.toNat - 128 + 128 * m < 128 ^ ((b :: bs).length - tail.length)
            rw [hexponent, pow_succ]
            omega

theorem length_write_le (size : ℕ) {n k : ℕ} (hk : 0 < k) (hn : n < 128 ^ k) :
    (write size n).length ≤ k := by
  induction size generalizing n k with
  | zero => simp [write]
  | succ size ih =>
      unfold write
      split_ifs with hsmall
      · exact hk
      · obtain ⟨k, rfl⟩ : ∃ j, k = j + 1 := ⟨k - 1, by omega⟩
        have hdiv : n / 128 < 128 ^ k := by
          rw [Nat.div_lt_iff_lt_mul (by decide)]
          rwa [pow_succ] at hn
        have hpos : 0 < k := by
          by_contra hzero
          obtain rfl : k = 0 := by omega
          rw [pow_zero] at hdiv
          omega
        exact Nat.succ_le_succ (ih hpos hdiv)

/-- The written form is the shortest: what has been read as a number at least as
large was as long. -/
theorem length_write_add_le (size : ℕ) {limit m n : ℕ} {bs rest : Bytes}
    (h : read limit bs = some (n, rest)) (hm : m ≤ n) :
    (write size m).length + rest.length ≤ bs.length := by
  obtain ⟨hlength, hn⟩ := read_lt h
  have hwrite := length_write_le size (Nat.sub_pos_of_lt hlength) (hm.trans_lt hn)
  omega

theorem length_write_mono (size : ℕ) {m n : ℕ} (h : m ≤ n) :
    (write size m).length ≤ (write size n).length := by
  induction size generalizing m n with
  | zero => exact le_rfl
  | succ size ih =>
      have hdiv := ih (Nat.div_le_div_right (c := 128) h)
      unfold write
      split_ifs with hm hn hn
      · simp
      · simp
      · omega
      · simpa using hdiv

end Varint

end HttpRaftKv
