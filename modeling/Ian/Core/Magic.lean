import Ian.Lib.Radix

/-!
# The magic

The magic is written twice: as 32 hexadecimal digits in `ian_cfg` and as the
first 16 bytes of the server's first message. The client reads both as four
32-bit integers, the text with `parseInt`, the message with `DataView.getInt32`,
and compares them.

`slice` leaves the last of the digits it is given out, so of every group of
eight digits only seven are parsed: `checkMagic_iff` says that the client looks
for the bytes of `Magic.heard`, in which every group is moved one digit to the
right, and `heard_eq_bytes_iff` that these are the bytes of the magic only if
all its digits are zeros.
-/

namespace Ian.Core

open Lib.Radix

/-! ## The calls of the script -/

inductive JsError where
  | typeError
  | rangeError
deriving DecidableEq, Repr

/-- `event.data` of a message event. -/
inductive Data where
  | arrayBuffer (bytes : List UInt8)
  | text (string : List Char)
deriving DecidableEq, Repr

structure DataView where
  bytes : List UInt8
deriving DecidableEq, Repr

/-- `new DataView(data)`: only a buffer has bytes to look at. -/
def DataView.new : Data → Except JsError DataView
  | .arrayBuffer bytes => .ok ⟨bytes⟩
  | .text _ => .error .typeError

/-- The numbers the script computes with: integers, and what `parseInt` gives for
a text without digits. -/
inductive Number where
  | nan
  | integer (n : Int)
deriving DecidableEq, Repr

/-- `n` as a signed integer of 32 bits. -/
def wrap32 (n : Int) : Int := n.bmod (2 ^ 32)

def Number.toInt32 : Number → Int
  | .nan => 0
  | .integer n => wrap32 n

/-- `x << count` -/
def leftShift (x : Number) (count : Nat) : Int := wrap32 (x.toInt32 * 2 ^ (count % 32))

/-- Without an argument for it the byte order is big-endian. -/
def DataView.getInt32 (data : DataView) (byteOffset : Nat) : Except JsError Int :=
  if byteOffset + 4 ≤ data.bytes.length then
    .ok (wrap32 (value 256 (((data.bytes.drop byteOffset).take 4).map UInt8.toNat)))
  else
    .error .rangeError

/-- `string.slice(start, end)`, up to and without `end`. -/
def slice {α : Type} (string : List α) (start stop : Nat) : List α :=
  (string.take stop).drop start

def hexDigit (c : Char) : Option Nat :=
  if '0' ≤ c ∧ c ≤ '9' then some (c.toNat - '0'.toNat)
  else if 'a' ≤ c ∧ c ≤ 'f' then some (c.toNat - 'a'.toNat + 10)
  else if 'A' ≤ c ∧ c ≤ 'F' then some (c.toNat - 'A'.toNat + 10)
  else none

/-- The white space and line ends that `parseInt` passes over first. -/
def isStrWhiteSpaceChar (c : Char) : Bool :=
  [0x9, 0xA, 0xB, 0xC, 0xD, 0x20, 0xA0, 0x1680, 0x2000, 0x2001, 0x2002, 0x2003, 0x2004, 0x2005,
    0x2006, 0x2007, 0x2008, 0x2009, 0x200A, 0x2028, 0x2029, 0x202F, 0x205F, 0x3000, 0xFEFF].contains
    c.toNat

def hexDigits : List Char → List Nat
  | [] => []
  | c :: cs =>
    match hexDigit c with
    | some d => d :: hexDigits cs
    | none => []

def stripSign : List Char → Int × List Char
  | '-' :: cs => (-1, cs)
  | '+' :: cs => (1, cs)
  | cs => (1, cs)

def stripPrefix : List Char → List Char
  | '0' :: 'x' :: cs => cs
  | '0' :: 'X' :: cs => cs
  | cs => cs

/-- `parseInt(string, 16)` -/
def parseInt16 (string : List Char) : Number :=
  let (sign, cs) := stripSign (string.dropWhile isStrWhiteSpaceChar)
  match hexDigits (stripPrefix cs) with
  | [] => .nan
  | ds => .integer (sign * value 16 ds)

/-- What `onHandshakeMessage` compares: four reads of the message with four
slices of the magic. -/
def checkMagic (gameMagic : List Char) (data : DataView) : Except JsError Bool := do
  let k1 ← data.getInt32 0
  let k2 ← data.getInt32 4
  let k3 ← data.getInt32 8
  let k4 ← data.getInt32 12
  let m1 := leftShift (parseInt16 (slice gameMagic 0 7)) 0
  let m2 := leftShift (parseInt16 (slice gameMagic 8 15)) 0
  let m3 := leftShift (parseInt16 (slice gameMagic 16 23)) 0
  let m4 := leftShift (parseInt16 (slice gameMagic 24 31)) 0
  return k1 == m1 && k2 == m2 && k3 == m3 && k4 == m4

/-! ## Hexadecimal text -/

def hexValue (c : Char) : Nat := (hexDigit c).getD 0

/-- The bytes that a text of hexadecimal digits denotes, two digits a byte. -/
def hexBytes : List Char → List UInt8
  | c :: c' :: cs => UInt8.ofNat (hexValue c * 16 + hexValue c') :: hexBytes cs
  | _ => []

/-- A hexadecimal digit is one of three runs of characters. -/
theorem hexDigit_eq_some {c : Char} {d : Nat} (h : hexDigit c = some d) :
    (48 ≤ c.toNat ∧ c.toNat ≤ 57 ∧ d = c.toNat - 48) ∨
      (97 ≤ c.toNat ∧ c.toNat ≤ 102 ∧ d = c.toNat - 97 + 10) ∨
        (65 ≤ c.toNat ∧ c.toNat ≤ 70 ∧ d = c.toNat - 65 + 10) := by
  unfold hexDigit at h
  split at h
  next hc => exact .inl ⟨hc.1, hc.2, (Option.some.inj h).symm⟩
  next =>
    split at h
    next hc => exact .inr (.inl ⟨hc.1, hc.2, (Option.some.inj h).symm⟩)
    next =>
      split at h
      next hc => exact .inr (.inr ⟨hc.1, hc.2, (Option.some.inj h).symm⟩)
      next => cases h

theorem hexValue_lt (c : Char) : hexValue c < 16 := by
  unfold hexValue
  cases h : hexDigit c with
  | none => exact Nat.zero_lt_succ 15
  | some d =>
    have hd := hexDigit_eq_some h
    simp only [Option.getD_some]
    omega

/-- Only `0` has the value zero. -/
theorem eq_zero_of_hexValue {c : Char} (hc : (hexDigit c).isSome = true) (h : hexValue c = 0) :
    c = '0' := by
  obtain ⟨d, hd⟩ := Option.isSome_iff_exists.mp hc
  have hrun := hexDigit_eq_some hd
  rw [hexValue, hd, Option.getD_some] at h
  apply Char.toNat_inj.mp
  change c.toNat = 48
  omega

theorem digits_lt (cs : List Char) : ∀ d ∈ cs.map hexValue, d < 16 := by
  intro d hd
  obtain ⟨c, -, rfl⟩ := List.mem_map.mp hd
  exact hexValue_lt c

/-- A text of digits has no blank, sign or `0x` in front. -/
theorem hexDigit_cases {c : Char} (hc : (hexDigit c).isSome = true) :
    isStrWhiteSpaceChar c = false ∧ c ≠ '-' ∧ c ≠ '+' ∧ c ≠ 'x' ∧ c ≠ 'X' := by
  obtain ⟨d, hd⟩ := Option.isSome_iff_exists.mp hc
  have hrun := hexDigit_eq_some hd
  have hne : ∀ x : Char, c.toNat ≠ x.toNat → c ≠ x := fun x h heq => h (congrArg Char.toNat heq)
  refine ⟨?_, hne _ ?_, hne _ ?_, hne _ ?_, hne _ ?_⟩
  · rw [isStrWhiteSpaceChar, List.contains_eq_any_beq, List.any_eq_false]
    intro x hx
    simp only [List.mem_cons, List.not_mem_nil, or_false] at hx
    simp only [beq_iff_eq]
    omega
  all_goals
    simp only [ne_eq, Char.reduceToNat]
    omega

theorem hexDigits_eq : ∀ {cs : List Char}, (∀ c ∈ cs, (hexDigit c).isSome = true) →
    hexDigits cs = cs.map hexValue
  | [], _ => rfl
  | c :: cs, h => by
    obtain ⟨d, hd⟩ := Option.isSome_iff_exists.mp (h c (by simp))
    rw [hexDigits, hd, List.map_cons, hexValue, hd, Option.getD_some,
      hexDigits_eq fun x hx => h x (List.mem_cons_of_mem c hx)]

theorem stripSign_hex {cs : List Char} (h : ∀ c ∈ cs, (hexDigit c).isSome = true) :
    stripSign cs = (1, cs) := by
  unfold stripSign
  split
  next cs => exact absurd rfl (hexDigit_cases (h '-' (by simp))).2.1
  next cs => exact absurd rfl (hexDigit_cases (h '+' (by simp))).2.2.1
  next => rfl

theorem stripPrefix_hex {cs : List Char} (h : ∀ c ∈ cs, (hexDigit c).isSome = true) :
    stripPrefix cs = cs := by
  unfold stripPrefix
  split
  next cs => exact absurd rfl (hexDigit_cases (h 'x' (by simp))).2.2.2.1
  next cs => exact absurd rfl (hexDigit_cases (h 'X' (by simp))).2.2.2.2
  next => rfl

theorem parseInt16_hex {cs : List Char} (hne : cs ≠ [])
    (h : ∀ c ∈ cs, (hexDigit c).isSome = true) :
    parseInt16 cs = .integer (value 16 (cs.map hexValue)) := by
  have hblank : cs.dropWhile isStrWhiteSpaceChar = cs := by
    cases cs with
    | nil => rfl
    | cons c cs =>
      rw [List.dropWhile_cons_of_neg]
      simp [(hexDigit_cases (h c (by simp))).1]
  have hdigits : hexDigits (stripPrefix cs) = cs.map hexValue := by
    rw [stripPrefix_hex h, hexDigits_eq h]
  rw [parseInt16, hblank, stripSign_hex h]
  simp only [hdigits]
  cases cs with
  | nil => exact absurd rfl hne
  | cons c cs => simp

theorem hexBytes_length : ∀ cs : List Char, (hexBytes cs).length = cs.length / 2
  | [] => rfl
  | [_] => by simp [hexBytes]
  | c :: c' :: cs => by
    rw [hexBytes, List.length_cons, hexBytes_length cs, List.length_cons, List.length_cons]
    omega

theorem hexBytes_append : ∀ {cs : List Char}, cs.length % 2 = 0 → ∀ es : List Char,
    hexBytes (cs ++ es) = hexBytes cs ++ hexBytes es
  | [], _, _ => rfl
  | [_], h, _ => nomatch h
  | c :: c' :: cs, h, es => by
    have hcs : cs.length % 2 = 0 := by
      rw [List.length_cons, List.length_cons] at h
      omega
    simp only [List.cons_append, hexBytes, hexBytes_append hcs es]

/-- The bytes are the digits, two at a time. -/
theorem toNat_hexBytes : ∀ cs : List Char,
    (hexBytes cs).map UInt8.toNat = pairs 16 (cs.map hexValue)
  | [] => rfl
  | [_] => rfl
  | c :: c' :: cs => by
    have hc := hexValue_lt c
    have hc' := hexValue_lt c'
    have hbyte : (UInt8.ofNat (hexValue c * 16 + hexValue c')).toNat =
        hexValue c * 16 + hexValue c' := UInt8.toNat_ofNat_of_lt' (by simp only [UInt8.size]; omega)
    rw [hexBytes, List.map_cons, hbyte, toNat_hexBytes cs]
    rfl

/-! ## One word -/

theorem wrap32_inj {n m : Nat} (hn : n < 2 ^ 32) (hm : m < 2 ^ 32) :
    wrap32 n = wrap32 m ↔ n = m := by
  constructor
  · intro h
    have hmod := congrArg (fun k : Int => k % (2 ^ 32 : Nat)) h
    simp only [wrap32, Int.bmod_emod] at hmod
    omega
  · rintro rfl
    rfl

theorem leftShift_integer (n : Int) : leftShift (.integer n) 0 = wrap32 n := by
  simp [leftShift, Number.toInt32, wrap32]

theorem bytes_lt (ws : List UInt8) : ∀ d ∈ ws.map UInt8.toNat, d < 256 := by
  intro d hd
  obtain ⟨w, -, rfl⟩ := List.mem_map.mp hd
  exact w.toNat_lt

/-- Four bytes and eight digits are the same word when the bytes are those the
digits denote: neither the sign nor the order of the bytes gets in the way. -/
theorem word_iff {ws : List UInt8} {cs : List Char} (hws : ws.length = 4) (hcs : cs.length = 8) :
    wrap32 (value 256 (ws.map UInt8.toNat)) = wrap32 (value 16 (cs.map hexValue)) ↔
      ws = hexBytes cs := by
  have hleft : value 256 (ws.map UInt8.toNat) < 2 ^ 32 := by
    have h := value_lt (by decide) (bytes_lt ws)
    rw [List.length_map, hws] at h
    exact h
  have hright : value 16 (cs.map hexValue) < 2 ^ 32 := by
    have h := value_lt (by decide) (digits_lt cs)
    rw [List.length_map, hcs] at h
    exact h
  have hpairs : value 16 (cs.map hexValue) = value 256 ((hexBytes cs).map UInt8.toNat) := by
    rw [toNat_hexBytes]
    exact (value_pairs (by rw [List.length_map, hcs])).symm
  rw [wrap32_inj hleft hright, hpairs]
  constructor
  · intro h
    have hlen : (ws.map UInt8.toNat).length = ((hexBytes cs).map UInt8.toNat).length := by
      rw [List.length_map, List.length_map, hexBytes_length, hws, hcs]
    have hsame := value_inj (by decide) hlen (bytes_lt _) (bytes_lt _) h
    exact (List.map_inj_right fun _ _ => UInt8.toNat_inj.mp).mp hsame
  · rintro rfl
    rfl

/-! ## Texts in groups -/

theorem slice_eq {α : Type} (string : List α) (start n : Nat) :
    slice string start (start + n) = (string.drop start).take n := by
  rw [slice, List.drop_take, Nat.add_sub_cancel_left]

theorem take_eq_flatMap {α : Type} (k : Nat) (xs : List α) : ∀ n : Nat,
    xs.take (k * n) = (List.range n).flatMap fun i => (xs.drop (k * i)).take k
  | 0 => rfl
  | n + 1 => by
    rw [Nat.mul_succ, List.take_add, take_eq_flatMap k xs n, List.range_succ, List.flatMap_append,
      List.flatMap_singleton]

/-- Texts put together from groups of the same lengths are the same group by
group. -/
theorem flatMap_inj {α : Type} {f g : Nat → List α} : ∀ {is : List Nat},
    (∀ i ∈ is, (f i).length = (g i).length) → (is.flatMap f = is.flatMap g ↔ ∀ i ∈ is, f i = g i)
  | [], _ => by simp
  | i :: is, h => by
    have htail := flatMap_inj (f := f) (g := g) fun j hj => h j (List.mem_cons_of_mem i hj)
    rw [List.flatMap_cons, List.flatMap_cons, List.forall_mem_cons, ← htail]
    constructor
    · exact fun heq => List.append_inj heq (h i List.mem_cons_self)
    · rintro ⟨hhead, hrest⟩
      rw [hhead, hrest]

theorem hexBytes_flatMap {f : Nat → List Char} : ∀ {is : List Nat},
    (∀ i ∈ is, (f i).length % 2 = 0) → hexBytes (is.flatMap f) = is.flatMap fun i => hexBytes (f i)
  | [], _ => rfl
  | i :: is, h => by
    rw [List.flatMap_cons, List.flatMap_cons, hexBytes_append (h i List.mem_cons_self),
      hexBytes_flatMap fun j hj => h j (List.mem_cons_of_mem i hj)]

/-! ## The magic -/

structure Magic where
  text : List Char
  length_text : text.length = 32
  hex : ∀ c ∈ text, (hexDigit c).isSome = true

namespace Magic

variable (magic : Magic)

/-- The bytes the magic denotes. -/
def bytes : List UInt8 := hexBytes magic.text

/-- The magic as the client reads it: of every eight digits the first seven,
after a zero. -/
def heard : List Char :=
  (List.range 4).flatMap fun i => '0' :: (magic.text.drop (8 * i)).take 7

variable {magic}

theorem hex_group {c : Char} {i n : Nat} (h : c ∈ (magic.text.drop i).take n) :
    (hexDigit c).isSome = true :=
  magic.hex c (List.mem_of_mem_drop (List.mem_of_mem_take h))

theorem length_group {i n : Nat} (h : i + n ≤ 32) : ((magic.text.drop i).take n).length = n := by
  rw [List.length_take, List.length_drop, magic.length_text]
  omega

theorem length_heard_group {i : Nat} (h : i ∈ List.range 4) :
    ('0' :: (magic.text.drop (8 * i)).take 7).length = 8 := by
  rw [List.length_cons, length_group (by have := List.mem_range.mp h; omega)]

/-- A slice is parsed as its seven digits. -/
theorem parse_slice {i : Nat} (h : i ∈ List.range 4) :
    leftShift (parseInt16 (slice magic.text (8 * i) (8 * i + 7))) 0 =
      wrap32 (value 16 (('0' :: (magic.text.drop (8 * i)).take 7).map hexValue)) := by
  have hlen : ((magic.text.drop (8 * i)).take 7).length = 7 :=
    length_group (by have := List.mem_range.mp h; omega)
  have hne : (magic.text.drop (8 * i)).take 7 ≠ [] := List.ne_nil_of_length_pos (by omega)
  have hzero : hexValue '0' = 0 := rfl
  rw [slice_eq, parseInt16_hex hne fun c => hex_group, leftShift_integer, List.map_cons, hzero,
    value_zero_cons]

end Magic

theorem checkMagic_short {gameMagic : List Char} {bytes : List UInt8} (h : bytes.length < 16) :
    checkMagic gameMagic ⟨bytes⟩ = .error .rangeError := by
  have hlast : DataView.getInt32 ⟨bytes⟩ 12 = .error .rangeError := if_neg (by simp only; omega)
  unfold checkMagic
  rw [hlast]
  simp only [DataView.getInt32]
  split_ifs <;> rfl

theorem checkMagic_words {gameMagic : List Char} {bytes : List UInt8} (h : 16 ≤ bytes.length) :
    checkMagic gameMagic ⟨bytes⟩ = .ok true ↔ ∀ i ∈ List.range 4,
      wrap32 (value 256 (((bytes.drop (4 * i)).take 4).map UInt8.toNat)) =
        leftShift (parseInt16 (slice gameMagic (8 * i) (8 * i + 7))) 0 := by
  have hread : ∀ off, off ≤ 12 → DataView.getInt32 ⟨bytes⟩ off =
      .ok (wrap32 (value 256 (((bytes.drop off).take 4).map UInt8.toNat))) :=
    fun off hoff => if_pos (Nat.le_trans (Nat.add_le_add_right hoff 4) h)
  have hrange : List.range 4 = [0, 1, 2, 3] := rfl
  unfold checkMagic
  rw [hread 0 (by decide), hread 4 (by decide), hread 8 (by decide), hread 12 (by decide), hrange]
  simp [bind, Except.bind, pure, Except.pure, and_assoc]

/-- The client looks for the bytes of the magic as it reads it. -/
theorem checkMagic_iff (magic : Magic) (bytes : List UInt8) :
    checkMagic magic.text ⟨bytes⟩ = .ok true ↔
      16 ≤ bytes.length ∧ bytes.take 16 = hexBytes magic.heard := by
  by_cases hlong : 16 ≤ bytes.length
  · have hword : ∀ i ∈ List.range 4, ((bytes.drop (4 * i)).take 4).length = 4 := by
      intro i hi
      rw [List.length_take, List.length_drop]
      have := List.mem_range.mp hi
      omega
    have hsame : ∀ i ∈ List.range 4,
        (wrap32 (value 256 (((bytes.drop (4 * i)).take 4).map UInt8.toNat)) =
          leftShift (parseInt16 (slice magic.text (8 * i) (8 * i + 7))) 0 ↔
        (bytes.drop (4 * i)).take 4 = hexBytes ('0' :: (magic.text.drop (8 * i)).take 7)) := by
      intro i hi
      rw [Magic.parse_slice hi]
      exact word_iff (hword i hi) (Magic.length_heard_group hi)
    have hall : bytes.take 16 = hexBytes magic.heard ↔ ∀ i ∈ List.range 4,
        (bytes.drop (4 * i)).take 4 = hexBytes ('0' :: (magic.text.drop (8 * i)).take 7) := by
      rw [Magic.heard, hexBytes_flatMap fun i hi => by rw [Magic.length_heard_group hi],
        take_eq_flatMap 4 bytes 4]
      apply flatMap_inj
      intro i hi
      rw [hword i hi, hexBytes_length, Magic.length_heard_group hi]
    rw [checkMagic_words hlong, hall]
    constructor
    · exact fun h => ⟨hlong, fun i hi => (hsame i hi).mp (h i hi)⟩
    · exact fun h i hi => (hsame i hi).mpr (h.2 i hi)
  · rw [checkMagic_short (by omega)]
    simp [hlong]

namespace Magic

variable (magic : Magic)

theorem length_heard : magic.heard.length = 32 := by
  rw [heard, List.length_flatMap, List.map_congr_left fun i hi => length_heard_group hi]
  rfl

theorem text_groups :
    magic.text = (List.range 4).flatMap fun i => (magic.text.drop (8 * i)).take 8 := by
  rw [← take_eq_flatMap 8 magic.text 4]
  exact (List.take_of_length_le (Nat.le_of_eq magic.length_text)).symm

/-- A group that stays itself when its last digit is left out is zero. -/
theorem group_zero {i : Nat} (hi : i ∈ List.range 4)
    (h : ('0' :: (magic.text.drop (8 * i)).take 7).map hexValue =
      ((magic.text.drop (8 * i)).take 8).map hexValue) :
    ∀ c ∈ (magic.text.drop (8 * i)).take 8, c = '0' := by
  have hlen : ((magic.text.drop (8 * i)).take 8).length = 8 :=
    length_group (by have := List.mem_range.mp hi; omega)
  have hlast : ((magic.text.drop (8 * i)).take 8).dropLast = (magic.text.drop (8 * i)).take 7 := by
    rw [List.dropLast_eq_take, hlen, List.take_take]
    rfl
  have hshift : 0 :: (((magic.text.drop (8 * i)).take 8).map hexValue).dropLast =
      ((magic.text.drop (8 * i)).take 8).map hexValue := by
    rw [← List.map_dropLast, hlast]
    exact h
  intro c hc
  exact eq_zero_of_hexValue (hex_group hc)
    (zero_of_shifted (by decide) (digits_lt _) hshift _ (List.mem_map_of_mem hc))

/-- The client looks for the right bytes only if there is nothing to look for. -/
theorem heard_eq_bytes_iff : hexBytes magic.heard = magic.bytes ↔ ∀ c ∈ magic.text, c = '0' := by
  constructor
  · intro h
    have hpairs := congrArg (List.map UInt8.toNat) h
    rw [bytes, toNat_hexBytes, toNat_hexBytes] at hpairs
    have hlen : (magic.heard.map hexValue).length = (magic.text.map hexValue).length := by
      rw [List.length_map, List.length_map, length_heard, magic.length_text]
    have hdigits : magic.heard.map hexValue = magic.text.map hexValue := by
      refine pairs_inj (by decide) hlen ?_ (digits_lt _) (digits_lt _) hpairs
      rw [List.length_map, length_heard]
    have htext : magic.text.map hexValue =
        (List.range 4).flatMap fun i => ((magic.text.drop (8 * i)).take 8).map hexValue := by
      conv_lhs => rw [magic.text_groups]
      exact List.map_flatMap
    rw [htext, heard, List.map_flatMap, flatMap_inj] at hdigits
    · intro c hc
      rw [magic.text_groups] at hc
      obtain ⟨i, hi, hc⟩ := List.mem_flatMap.mp hc
      exact magic.group_zero hi (hdigits i hi) c hc
    · intro i hi
      rw [List.length_map, List.length_map, length_heard_group hi,
        length_group (by have := List.mem_range.mp hi; omega)]
  · intro h
    have htext : magic.text = List.replicate 32 '0' :=
      List.eq_replicate_iff.mpr ⟨magic.length_text, h⟩
    rw [heard, bytes, htext]
    decide

end Magic

end Ian.Core
