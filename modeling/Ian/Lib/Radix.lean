import Mathlib.Data.Nat.Digits.Defs
import Mathlib.Tactic.Common
import Mathlib.Tactic.Ring

/-!
# Positional notation

`value b ds` is the number that the digits `ds` denote in base `b`, the most
significant digit first. Digit lists of one length are told apart by it
(`value_inj`), dropping the last digit divides by the base (`value_dropLast`),
and two digits can be read as one digit of the squared base (`value_pairs`).
-/

namespace Ian.Lib.Radix

def value (b : Nat) (ds : List Nat) : Nat := Nat.ofDigits b ds.reverse

variable {b : Nat}

theorem value_cons (d : Nat) (ds : List Nat) :
    value b (d :: ds) = d * b ^ ds.length + value b ds := by
  rw [value, Nat.ofDigits_reverse_cons, value]
  ring

theorem value_append_singleton (ds : List Nat) (d : Nat) :
    value b (ds ++ [d]) = b * value b ds + d := by
  rw [value, List.reverse_append, List.reverse_singleton, List.singleton_append, Nat.ofDigits_cons,
    ← value]
  exact Nat.add_comm d (b * value b ds)

theorem value_lt (hb : 1 < b) {ds : List Nat} (h : ∀ d ∈ ds, d < b) :
    value b ds < b ^ ds.length := by
  rw [← List.length_reverse]
  exact Nat.ofDigits_lt_base_pow_length hb fun d hd => h d (List.mem_reverse.mp hd)

/-- The digits of a number are unique once their count is known. -/
theorem value_inj (hb : 1 < b) {ds es : List Nat} (hlen : ds.length = es.length)
    (hds : ∀ d ∈ ds, d < b) (hes : ∀ e ∈ es, e < b) (h : value b ds = value b es) : ds = es := by
  apply List.reverse_inj.mp
  refine Nat.ofDigits_inj_of_len_eq hb ?_ ?_ ?_ h
  · rw [List.length_reverse, List.length_reverse, hlen]
  · exact fun d hd => hds d (List.mem_reverse.mp hd)
  · exact fun e he => hes e (List.mem_reverse.mp he)

theorem value_eq_zero (hb : b ≠ 0) {ds : List Nat} (h : value b ds = 0) : ∀ d ∈ ds, d = 0 :=
  fun d hd => Nat.digits_zero_of_eq_zero hb h d (List.mem_reverse.mpr hd)

theorem value_zero_cons (ds : List Nat) : value b (0 :: ds) = value b ds := by
  rw [value_cons, Nat.zero_mul, Nat.zero_add]

theorem value_dropLast {ds : List Nat} (h : ∀ d ∈ ds, d < b) :
    value b ds.dropLast = value b ds / b := by
  rcases List.eq_nil_or_concat ds with rfl | ⟨es, d, rfl⟩
  · exact (Nat.zero_div b).symm
  · have hd : d < b := h d (by simp)
    rw [List.concat_eq_append, List.dropLast_concat, value_append_singleton,
      Nat.mul_add_div (Nat.zero_lt_of_lt hd), Nat.div_eq_of_lt hd, Nat.add_zero]

/-- A number is the same without its last digit only if it is zero. -/
theorem zero_of_shifted (hb : 1 < b) {ds : List Nat} (h : ∀ d ∈ ds, d < b)
    (hshift : 0 :: ds.dropLast = ds) : ∀ d ∈ ds, d = 0 := by
  have hvalue : value b ds / b = value b ds := by
    rw [← value_dropLast h, ← value_zero_cons, hshift]
  apply value_eq_zero (Nat.ne_zero_of_lt hb)
  by_contra hne
  exact Nat.ne_of_lt (Nat.div_lt_self (Nat.pos_of_ne_zero hne) hb) hvalue

/-! ## Two digits as one -/

/-- Every two digits in base `b` as one digit in base `b * b`. -/
def pairs (b : Nat) : List Nat → List Nat
  | d :: e :: ds => (d * b + e) :: pairs b ds
  | _ => []

theorem pairs_length : ∀ ds : List Nat, (pairs b ds).length = ds.length / 2
  | [] => rfl
  | [_] => by simp [pairs]
  | d :: e :: ds => by
    rw [pairs, List.length_cons, pairs_length ds, List.length_cons, List.length_cons]
    omega

theorem value_pairs : ∀ {ds : List Nat}, ds.length % 2 = 0 → value (b * b) (pairs b ds) = value b ds
  | [], _ => rfl
  | [_], h => nomatch h
  | d :: e :: ds, h => by
    have hds : ds.length % 2 = 0 := by
      rw [List.length_cons, List.length_cons] at h
      omega
    have hpow : (b * b) ^ (pairs b ds).length = b ^ ds.length := by
      rw [pairs_length, ← pow_two, ← pow_mul, Nat.mul_div_cancel' (Nat.dvd_of_mod_eq_zero hds)]
    rw [pairs, value_cons, hpow, value_pairs hds, value_cons, value_cons, List.length_cons]
    ring

/-- Pairs of digits lose nothing. -/
theorem pairs_inj (hb : 1 < b) {ds es : List Nat} (hlen : ds.length = es.length)
    (heven : ds.length % 2 = 0) (hds : ∀ d ∈ ds, d < b) (hes : ∀ e ∈ es, e < b)
    (h : pairs b ds = pairs b es) : ds = es := by
  apply value_inj hb hlen hds hes
  rw [← value_pairs heven, h, value_pairs (hlen ▸ heven)]

end Ian.Lib.Radix
