import Mathlib.Algebra.Ring.Nat
import Mathlib.Tactic.Common

/-!
# Length-prefixed frames

A frame is a 32-bit little-endian length followed by that many bytes, and a
length of 0 is not a frame. `decode` reads a whole byte string in one pass:
the payloads of the complete frames, and what stops it (`Tail`), either an
incomplete header or body, or a header that is 0.

* `decode_append`: a byte string can be decoded in two parts, the second
  starting from what the first left over.
* `decode_frames`: decoding the frames of some payloads gives them back.
* `decode_of_append_frames`: a prefix of the frames of some payloads decodes to
  a prefix of them, and is never rejected.
* `decode_sized_frames`: where an empty payload is among them, decoding gives
  those before it, and stops there.
-/

namespace Ian.Lib

/-- The four bytes of `n % 2^32`, least significant first. -/
def le32 (n : Nat) : List UInt8 :=
  [UInt8.ofNat n, UInt8.ofNat (n / 2 ^ 8), UInt8.ofNat (n / 2 ^ 16), UInt8.ofNat (n / 2 ^ 24)]

/-- The number whose four bytes, least significant first, start the list. -/
def readLe32 : List UInt8 → Nat
  | b0 :: b1 :: b2 :: b3 :: _ =>
    b0.toNat + 2 ^ 8 * b1.toNat + 2 ^ 16 * b2.toNat + 2 ^ 24 * b3.toNat
  | _ => 0

/-- What one-pass decoding stops at: bytes that are not a whole frame yet, with
the length already read (0 if it is not), or a header that is 0. -/
inductive Tail where
  | more (len : Nat) (rest : List UInt8)
  | rejected
deriving DecidableEq, Repr

/-- Decode a byte string in one pass. -/
def decode (bytes : List UInt8) : List (List UInt8) × Tail :=
  if bytes.length < 4 then ([], .more 0 bytes)
  else
    let len := readLe32 bytes
    let body := bytes.drop 4
    if len = 0 then ([], .rejected)
    else if body.length < len then ([], .more len body)
    else
      let next := decode (body.drop len)
      (body.take len :: next.1, next.2)
termination_by bytes.length
decreasing_by
  simp only [List.length_drop]
  omega

/-- The bytes that an unfinished frame stands for: its length, if it has been
read, and what there is of its body. -/
def unfinished (len : Nat) (rest : List UInt8) : List UInt8 :=
  if len = 0 then rest else le32 len ++ rest

/-- The frame of a payload. -/
def frame (payload : List UInt8) : List UInt8 := le32 payload.length ++ payload

/-- The frames of some payloads, in order. -/
def frames (payloads : List (List UInt8)) : List UInt8 := (payloads.map frame).flatten

/-- The payload has a frame that decodes to it. -/
def Framable (payload : List UInt8) : Prop := 0 < payload.length ∧ payload.length < 2 ^ 32

instance (payload : List UInt8) : Decidable (Framable payload) :=
  inferInstanceAs (Decidable (_ ∧ _))

namespace FramingLemmas

@[simp] theorem length_le32 (n : Nat) : (le32 n).length = 4 := rfl

theorem readLe32_le32 (n : Nat) (rest : List UInt8) : readLe32 (le32 n ++ rest) = n % 2 ^ 32 := by
  simp only [le32, List.cons_append, readLe32, UInt8.toNat_ofNat']
  omega

theorem readLe32_lt (bytes : List UInt8) : readLe32 bytes < 2 ^ 32 := by
  unfold readLe32
  split
  · next b0 b1 b2 b3 _ =>
    have h0 := b0.toNat_lt
    have h1 := b1.toNat_lt
    have h2 := b2.toNat_lt
    have h3 := b3.toNat_lt
    omega
  · decide

theorem readLe32_append {bytes : List UInt8} (h : 4 ≤ bytes.length) (more : List UInt8) :
    readLe32 (bytes ++ more) = readLe32 bytes := by
  match bytes with
  | [] | [_] | [_, _] | [_, _, _] =>
    simp only [List.length_cons, List.length_nil] at h
    omega
  | _ :: _ :: _ :: _ :: _ => rfl

theorem le32_readLe32 {bytes : List UInt8} (h : 4 ≤ bytes.length) :
    le32 (readLe32 bytes) ++ bytes.drop 4 = bytes := by
  match bytes with
  | [] | [_] | [_, _] | [_, _, _] =>
    simp only [List.length_cons, List.length_nil] at h
    omega
  | b0 :: b1 :: b2 :: b3 :: rest =>
    have h0 := b0.toNat_lt
    have h1 := b1.toNat_lt
    have h2 := b2.toNat_lt
    have h3 := b3.toNat_lt
    have hbyte : ∀ (n : Nat) (b : UInt8), n % 2 ^ 8 = b.toNat → UInt8.ofNat n = b := by
      intro n b hn
      exact UInt8.toNat_inj.mp (by rw [UInt8.toNat_ofNat', hn])
    simp only [readLe32, le32, List.drop_succ_cons, List.drop_zero, List.cons_append,
      List.nil_append]
    rw [hbyte _ b0 (by omega), hbyte _ b1 (by omega), hbyte _ b2 (by omega), hbyte _ b3 (by omega)]

theorem drop_le32 (n : Nat) (rest : List UInt8) : (le32 n ++ rest).drop 4 = rest := rfl

/-! ## One pass, case by case -/

theorem decode_short {bytes : List UInt8} (h : bytes.length < 4) :
    decode bytes = ([], .more 0 bytes) := by
  rw [decode, if_pos h]

theorem decode_zero {bytes : List UInt8} (h : 4 ≤ bytes.length) (hlen : readLe32 bytes = 0) :
    decode bytes = ([], .rejected) := by
  rw [decode, if_neg (Nat.not_lt.mpr h)]
  exact if_pos hlen

theorem decode_cut {bytes : List UInt8} (h : 4 ≤ bytes.length) (hlen : readLe32 bytes ≠ 0)
    (hbody : (bytes.drop 4).length < readLe32 bytes) :
    decode bytes = ([], .more (readLe32 bytes) (bytes.drop 4)) := by
  rw [decode, if_neg (Nat.not_lt.mpr h)]
  exact (if_neg hlen).trans (if_pos hbody)

theorem decode_frame {bytes : List UInt8} (h : 4 ≤ bytes.length) (hlen : readLe32 bytes ≠ 0)
    (hbody : readLe32 bytes ≤ (bytes.drop 4).length) :
    decode bytes =
      ((bytes.drop 4).take (readLe32 bytes) ::
        (decode ((bytes.drop 4).drop (readLe32 bytes))).1,
        (decode ((bytes.drop 4).drop (readLe32 bytes))).2) := by
  rw [decode, if_neg (Nat.not_lt.mpr h)]
  exact (if_neg hlen).trans (if_neg (Nat.not_lt.mpr hbody))

end FramingLemmas

open FramingLemmas

/-- The ways one-pass decoding can start, as an induction principle. -/
theorem decode_induction {P : List UInt8 → Prop}
    (short : ∀ bytes, bytes.length < 4 → P bytes)
    (zero : ∀ bytes, 4 ≤ bytes.length → readLe32 bytes = 0 → P bytes)
    (partialBody : ∀ bytes, 4 ≤ bytes.length → readLe32 bytes ≠ 0 →
      (bytes.drop 4).length < readLe32 bytes → P bytes)
    (whole : ∀ bytes, 4 ≤ bytes.length → readLe32 bytes ≠ 0 →
      readLe32 bytes ≤ (bytes.drop 4).length →
      P ((bytes.drop 4).drop (readLe32 bytes)) → P bytes)
    (bytes : List UInt8) : P bytes := by
  induction hn : bytes.length using Nat.strongRecOn generalizing bytes with
  | ind n ih =>
    subst hn
    rcases Nat.lt_or_ge bytes.length 4 with h | h
    · exact short bytes h
    by_cases hlen : readLe32 bytes = 0
    · exact zero bytes h hlen
    rcases Nat.lt_or_ge (bytes.drop 4).length (readLe32 bytes) with hbody | hbody
    · exact partialBody bytes h hlen hbody
    · refine whole bytes h hlen hbody (ih _ ?_ _ rfl)
      simp only [List.length_drop]
      omega

/-- Decoding in two parts. -/
theorem decode_append (bytes more : List UInt8) :
    decode (bytes ++ more) = match decode bytes with
      | (payloads, .rejected) => (payloads, .rejected)
      | (payloads, .more len rest) =>
        (payloads ++ (decode (unfinished len rest ++ more)).1,
          (decode (unfinished len rest ++ more)).2) := by
  induction bytes using decode_induction with
  | short bytes h =>
    rw [decode_short h]
    rfl
  | zero bytes h hlen =>
    have happ : 4 ≤ (bytes ++ more).length := by
      rw [List.length_append]
      omega
    rw [decode_zero h hlen, decode_zero happ (by rw [readLe32_append h, hlen])]
  | partialBody bytes h hlen hbody =>
    rw [decode_cut h hlen hbody]
    dsimp only
    rw [unfinished, if_neg hlen, le32_readLe32 h]
    rfl
  | whole bytes h hlen hbody ih =>
    have happ : 4 ≤ (bytes ++ more).length := by
      rw [List.length_append]
      omega
    have hread := readLe32_append h more
    have hdrop : (bytes ++ more).drop 4 = bytes.drop 4 ++ more := List.drop_append_of_le_length h
    rw [decode_frame h hlen hbody, decode_frame happ (by rw [hread]; exact hlen)
      (by rw [hread, hdrop, List.length_append]; omega), hread, hdrop,
      List.take_append_of_le_length hbody, List.drop_append_of_le_length hbody, ih]
    generalize decode ((bytes.drop 4).drop (readLe32 bytes)) = next
    obtain ⟨payloads, tail⟩ := next
    cases tail with
    | more len rest => rfl
    | rejected => rfl

/-- What decoding leaves over is an unfinished frame. -/
theorem decode_unfinished {bytes : List UInt8} {len : Nat} {rest : List UInt8}
    (h : (decode bytes).2 = .more len rest) :
    decode (unfinished len rest) = ([], .more len rest) ∧ len < 2 ^ 32 := by
  induction bytes using decode_induction with
  | short bytes hshort =>
    rw [decode_short hshort] at h
    cases h
    exact ⟨decode_short hshort, by decide⟩
  | zero bytes h4 hlen =>
    rw [decode_zero h4 hlen] at h
    cases h
  | partialBody bytes h4 hlen hbody =>
    rw [decode_cut h4 hlen hbody] at h
    cases h
    rw [unfinished, if_neg hlen, le32_readLe32 h4]
    exact ⟨decode_cut h4 hlen hbody, readLe32_lt _⟩
  | whole bytes h4 hlen hbody ih =>
    rw [decode_frame h4 hlen hbody] at h
    exact ih h

/-! ## Frames -/

theorem decode_frame_append {payload : List UInt8} (h : Framable payload) (more : List UInt8) :
    decode (frame payload ++ more) = (payload :: (decode more).1, (decode more).2) := by
  have hbytes : frame payload ++ more = le32 payload.length ++ (payload ++ more) := by
    rw [frame, List.append_assoc]
  have hread : readLe32 (frame payload ++ more) = payload.length := by
    rw [hbytes, readLe32_le32, Nat.mod_eq_of_lt h.2]
  have hdrop : (frame payload ++ more).drop 4 = payload ++ more := by
    rw [hbytes, drop_le32]
  have hlen : 4 ≤ (frame payload ++ more).length := by
    rw [hbytes, List.length_append, length_le32]
    omega
  rw [decode_frame hlen (by rw [hread]; exact Nat.ne_of_gt h.1)
    (by rw [hread, hdrop, List.length_append]; omega), hread, hdrop, List.take_left, List.drop_left]

theorem decode_frames_append {payloads : List (List UInt8)} (h : ∀ p ∈ payloads, Framable p)
    (more : List UInt8) :
    decode (frames payloads ++ more) = (payloads ++ (decode more).1, (decode more).2) := by
  induction payloads with
  | nil => rfl
  | cons p ps ih =>
    have hps := ih fun q hq => h q (List.mem_cons_of_mem p hq)
    have hframes : frames (p :: ps) ++ more = frame p ++ (frames ps ++ more) := by
      simp only [frames, List.map_cons, List.flatten_cons, List.append_assoc]
    rw [hframes, decode_frame_append (h p List.mem_cons_self), hps]
    rfl

theorem decode_nil : decode [] = ([], .more 0 []) := decode_short (by decide)

/-- Decoding the frames of some payloads gives them back, with nothing left. -/
theorem decode_frames {payloads : List (List UInt8)} (h : ∀ p ∈ payloads, Framable p) :
    decode (frames payloads) = (payloads, .more 0 []) := by
  have happ := decode_frames_append h []
  rw [List.append_nil, decode_nil] at happ
  rw [happ, List.append_nil]

/-- A prefix of the frames of some payloads is not rejected, and decodes to a
prefix of the payloads. -/
theorem decode_of_append_frames {payloads : List (List UInt8)} (h : ∀ p ∈ payloads, Framable p)
    {bytes more : List UInt8} (hframes : bytes ++ more = frames payloads) :
    ∃ len rest, (decode bytes).2 = .more len rest ∧ (decode bytes).1 <+: payloads := by
  have happ := decode_append bytes more
  rw [hframes, decode_frames h] at happ
  generalize decode bytes = decoded at happ ⊢
  obtain ⟨got, tail⟩ := decoded
  cases tail with
  | rejected => cases happ
  | more len rest =>
    injection happ with hgot _
    exact ⟨len, rest, rfl, ⟨_, hgot.symm⟩⟩

/-- What a part of a byte string decodes to comes first in what it all decodes
to. -/
theorem decode_initial {bytes all : List UInt8} (h : bytes <+: all) :
    (decode bytes).1 <+: (decode all).1 := by
  obtain ⟨more, rfl⟩ := h
  rw [decode_append]
  generalize decode bytes = decoded
  obtain ⟨got, tail⟩ := decoded
  cases tail with
  | more len rest => exact List.prefix_append _ _
  | rejected => exact List.prefix_refl got

/-- The frame of an empty payload is a header of 0. -/
theorem decode_empty_frame (more : List UInt8) : decode (frame [] ++ more) = ([], .rejected) := by
  refine decode_zero ?_ (readLe32_le32 0 more)
  rw [List.length_append]
  exact Nat.le_add_right 4 _

/-- Decoding the frames of payloads that may be empty: it ends at the first
that is. -/
theorem decode_sized_frames {payloads : List (List UInt8)} (h : ∀ p ∈ payloads, p.length < 2 ^ 32) :
    decode (frames payloads) = (payloads, .more 0 []) ∨
      ((decode (frames payloads)).1 <+: payloads ∧ (decode (frames payloads)).2 = .rejected) := by
  induction payloads with
  | nil => exact Or.inl decode_nil
  | cons p ps ih =>
    have hframes : frames (p :: ps) = frame p ++ frames ps := by
      simp only [frames, List.map_cons, List.flatten_cons]
    rw [hframes]
    rcases Nat.eq_zero_or_pos p.length with hempty | hpos
    · rw [List.length_eq_zero_iff.mp hempty, decode_empty_frame]
      exact Or.inr ⟨List.nil_prefix, rfl⟩
    rw [decode_frame_append ⟨hpos, h p List.mem_cons_self⟩]
    rcases ih fun q hq => h q (List.mem_cons_of_mem p hq) with hall | ⟨hbegins, hrejected⟩
    · rw [hall]
      exact Or.inl rfl
    · exact Or.inr ⟨(List.prefix_cons_inj p).mpr hbegins, hrejected⟩

end Ian.Lib
