import Mathlib.Data.List.Flatten
import Mathlib.Data.List.Infix
import Mathlib.Tactic.Common

/-! Texts as the bytes of their characters. No encoding of a character starts another one, so
that bytes can be compared in place of the characters. -/

namespace AtomComm.Utf8

def bytes (cs : List Char) : List UInt8 := cs.flatMap String.utf8EncodeChar

@[simp] theorem bytes_nil : bytes [] = [] := rfl

@[simp] theorem bytes_cons (c : Char) (cs : List Char) :
    bytes (c :: cs) = String.utf8EncodeChar c ++ bytes cs := rfl

@[simp] theorem bytes_append (cs ds : List Char) : bytes (cs ++ ds) = bytes cs ++ bytes ds :=
  List.flatMap_append

/-! ### One character -/

/-- A byte that goes on with a character. -/
def isTail (b : UInt8) : Bool := b &&& 0xc0 = 0x80

/-- One byte below 128, or a first byte that tells how many tails follow. -/
theorem encode_cases (c : Char) :
    (c.toNat < 128 ∧ String.utf8EncodeChar c = [UInt8.ofNat c.toNat]) ∨
    (128 ≤ c.toNat ∧ ∃ b < 32, ∃ t < 64,
      String.utf8EncodeChar c = [UInt8.ofNat (b + 0xc0), UInt8.ofNat (t + 0x80)]) ∨
    (128 ≤ c.toNat ∧ ∃ b < 16, ∃ t < 64, ∃ u < 64, String.utf8EncodeChar c =
      [UInt8.ofNat (b + 0xe0), UInt8.ofNat (t + 0x80), UInt8.ofNat (u + 0x80)]) ∨
    (128 ≤ c.toNat ∧ ∃ b < 8, ∃ t < 64, ∃ u < 64, ∃ v < 64, String.utf8EncodeChar c =
      [UInt8.ofNat (b + 0xf0), UInt8.ofNat (t + 0x80), UInt8.ofNat (u + 0x80),
        UInt8.ofNat (v + 0x80)]) := by
  have hval : c.val.toNat = c.toNat := rfl
  unfold String.utf8EncodeChar
  dsimp only
  rw [hval]
  split
  · exact .inl ⟨by omega, rfl⟩
  split
  · exact .inr (.inl ⟨by omega, _, Nat.mod_lt _ (by decide), _, Nat.mod_lt _ (by decide), rfl⟩)
  split
  · exact .inr (.inr (.inl ⟨by omega, _, Nat.mod_lt _ (by decide), _, Nat.mod_lt _ (by decide), _,
      Nat.mod_lt _ (by decide), rfl⟩))
  · exact .inr (.inr (.inr ⟨by omega, _, Nat.mod_lt _ (by decide), _, Nat.mod_lt _ (by decide), _,
      Nat.mod_lt _ (by decide), _, Nat.mod_lt _ (by decide), rfl⟩))

theorem encode_ascii {c : Char} (h : c.toNat < 128) :
    String.utf8EncodeChar c = [UInt8.ofNat c.toNat] := by
  rcases encode_cases c with ⟨-, he⟩ | ⟨hc, -⟩ | ⟨hc, -⟩ | ⟨hc, -⟩
  · exact he
  all_goals omega

/-- All bytes of a character but its first are tails. -/
theorem encode_tails (c : Char) : ∃ b tails, String.utf8EncodeChar c = b :: tails ∧
    isTail b = false ∧ ∀ t ∈ tails, isTail t = true := by
  have hone : ∀ n < 128, isTail (UInt8.ofNat n) = false := by decide
  have hlead : ∀ b < 64, isTail (UInt8.ofNat (b + 0xc0)) = false := by decide
  have htail : ∀ t < 64, isTail (UInt8.ofNat (t + 0x80)) = true := by decide
  rcases encode_cases c with ⟨hc, he⟩ | ⟨-, b, hb, t, ht, he⟩ | ⟨-, b, hb, t, ht, u, hu, he⟩ |
    ⟨-, b, hb, t, ht, u, hu, v, hv, he⟩
  · exact ⟨_, _, he, hone _ hc, by simp⟩
  · exact ⟨_, _, he, hlead b (by omega), List.forall_mem_singleton.2 (htail t ht)⟩
  · exact ⟨_, _, he, hlead (b + 32) (by omega),
      List.forall_mem_cons.2 ⟨htail t ht, List.forall_mem_singleton.2 (htail u hu)⟩⟩
  · exact ⟨_, _, he, hlead (b + 48) (by omega), List.forall_mem_cons.2 ⟨htail t ht,
      List.forall_mem_cons.2 ⟨htail u hu, List.forall_mem_singleton.2 (htail v hv)⟩⟩⟩

/-- The bytes of the other characters are all from 128 on. -/
theorem encode_high {c : Char} (h : 128 ≤ c.toNat) :
    ∀ b ∈ String.utf8EncodeChar c, 128 ≤ b.toNat := by
  have hlead : ∀ b < 64, 128 ≤ (UInt8.ofNat (b + 0xc0)).toNat := by decide
  have htail : ∀ t < 64, 128 ≤ (UInt8.ofNat (t + 0x80)).toNat := by decide
  rcases encode_cases c with ⟨hc, -⟩ | ⟨-, b, hb, t, ht, he⟩ | ⟨-, b, hb, t, ht, u, hu, he⟩ |
    ⟨-, b, hb, t, ht, u, hu, v, hv, he⟩
  · omega
  · rw [he]
    exact List.forall_mem_cons.2 ⟨hlead b (by omega), List.forall_mem_singleton.2 (htail t ht)⟩
  · rw [he]
    exact List.forall_mem_cons.2 ⟨hlead (b + 32) (by omega),
      List.forall_mem_cons.2 ⟨htail t ht, List.forall_mem_singleton.2 (htail u hu)⟩⟩
  · rw [he]
    exact List.forall_mem_cons.2 ⟨hlead (b + 48) (by omega), List.forall_mem_cons.2 ⟨htail t ht,
      List.forall_mem_cons.2 ⟨htail u hu, List.forall_mem_singleton.2 (htail v hv)⟩⟩⟩

theorem mem_encode {c : Char} {b : UInt8} (hb : b.toNat < 128) :
    b ∈ String.utf8EncodeChar c ↔ c.toNat = b.toNat := by
  by_cases hc : c.toNat < 128
  · rw [encode_ascii hc, List.mem_singleton, ← UInt8.toNat_inj, UInt8.toNat_ofNat',
      Nat.mod_eq_of_lt (by omega)]
    exact eq_comm
  · refine iff_of_false (fun hmem => ?_) (by omega)
    have hhigh := encode_high (by omega) b hmem
    omega

theorem encode_ne_nil (c : Char) : String.utf8EncodeChar c ≠ [] := by
  obtain ⟨b, tails, he, -⟩ := encode_tails c
  simp [he]

/-- What follows decides nothing: the first character is read off the bytes. -/
theorem encode_eq_of_append {c d : Char} {s t : List UInt8}
    (h : String.utf8EncodeChar c ++ s = String.utf8EncodeChar d ++ t) : c = d := by
  have hbytes := congrArg List.toByteArray h
  rw [List.toByteArray_append, List.toByteArray_append] at hbytes
  have hc := @ByteArray.utf8DecodeChar?_utf8EncodeChar_append s.toByteArray c
  rw [hbytes, ByteArray.utf8DecodeChar?_utf8EncodeChar_append] at hc
  exact (Option.some.inj hc).symm

/-! ### Texts -/

theorem bytes_prefix_iff {cs ds : List Char} : bytes cs <+: bytes ds ↔ cs <+: ds := by
  constructor
  · intro h
    induction cs generalizing ds with
    | nil => exact List.nil_prefix
    | cons c cs ih =>
      obtain ⟨s, hs⟩ := h
      cases ds with
      | nil => simp at hs
      | cons d ds =>
        rw [bytes_cons, bytes_cons, List.append_assoc] at hs
        obtain rfl := encode_eq_of_append hs
        rw [List.append_cancel_left_eq] at hs
        exact List.cons_prefix_cons.2 ⟨rfl, ih ⟨s, hs⟩⟩
  · rintro ⟨t, rfl⟩
    exact ⟨bytes t, (bytes_append cs t).symm⟩

theorem bytes_injective {cs ds : List Char} (h : bytes cs = bytes ds) : cs = ds :=
  (bytes_prefix_iff.1 (h ▸ List.prefix_refl _)).eq_of_length_le
    (bytes_prefix_iff.1 (h ▸ List.prefix_refl _)).length_le

theorem length_le_bytes (cs : List Char) : cs.length ≤ (bytes cs).length := by
  induction cs with
  | nil => exact le_rfl
  | cons c cs ih =>
    have hpos := List.length_pos_of_ne_nil (encode_ne_nil c)
    rw [bytes_cons, List.length_append, List.length_cons]
    omega

/-- Without the tails the bytes are as many as the characters. -/
theorem length_bytes (cs : List Char) :
    (bytes cs).length = cs.length + (bytes cs).countP isTail := by
  induction cs with
  | nil => rfl
  | cons c cs ih =>
    obtain ⟨b, tails, he, hb, htails⟩ := encode_tails c
    rw [bytes_cons, he, List.length_append, List.countP_append, List.countP_cons, hb,
      List.countP_eq_length.2 htails, ih]
    simp only [List.length_cons, Bool.false_eq_true, if_false]
    omega

theorem mem_bytes {cs : List Char} {b : UInt8} (hb : b.toNat < 128) :
    b ∈ bytes cs ↔ ∃ c ∈ cs, c.toNat = b.toNat := by
  simp only [bytes, List.mem_flatMap, mem_encode hb]

/-- A byte below 128 at the end is the last character. -/
theorem bytes_eq_concat {cs : List Char} {l : List UInt8} {b : UInt8} (hb : b.toNat < 128)
    (h : bytes cs = l ++ [b]) : ∃ ds d, cs = ds ++ [d] ∧ d.toNat = b.toNat ∧ bytes ds = l := by
  rcases List.eq_nil_or_concat cs with rfl | ⟨ds, d, rfl⟩
  · simp at h
  · rw [List.concat_eq_append, bytes_append, bytes_cons, bytes_nil, List.append_nil] at h
    have hne := encode_ne_nil d
    have hmem : b ∈ String.utf8EncodeChar d := by
      have hlast := congrArg List.getLast? h
      rw [List.getLast?_append_of_ne_nil _ hne, List.getLast?_concat] at hlast
      exact List.mem_of_getLast? hlast
    have hd := (mem_encode hb).1 hmem
    rw [encode_ascii (by omega)] at h
    exact ⟨ds, d, List.concat_eq_append, hd, (List.append_inj' h rfl).1⟩

end AtomComm.Utf8
