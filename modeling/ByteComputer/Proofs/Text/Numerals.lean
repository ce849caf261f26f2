import ByteComputer.Text.Numeral
import Mathlib.Data.List.Induction
import Mathlib.Data.Nat.Digits.Lemmas

/-!
# Numerals of a byte

Which texts are numerals in base two, and of which value; and that the digits of a number are read
back as that number in every base.

* `Numeral.value?_two_eq_some_iff`: a sequence of binary digits has the value that its digits have.
* `Numeral.binary_lt_iff`: the value fits into a byte if no more than eight digits are left without
  the leading zeros.
* `Numeral.byte?_two_eq_some_iff`: both together, for a numeral with a sign or without
  (`Numeral.Literal`).
* `Numeral.byte?_padded`: the digits of a byte, behind any number of zeros, are read back.
-/

namespace ByteComputer.Numeral

/-! ## Values -/

/-- The value of a binary digit. -/
def bit (c : Char) : Nat := if c = '1' then 1 else 0

def IsBinary (digits : List Char) : Prop := ∀ d ∈ digits, d = '0' ∨ d = '1'

/-- The number that binary digits stand for, the most significant digit first. -/
def binary (digits : List Char) : Nat := Nat.ofDigits 2 (digits.reverse.map bit)

theorem bit_lt (c : Char) : bit c < 2 := by
  unfold bit
  split <;> omega

theorem binary_append (ds : List Char) (d : Char) : binary (ds ++ [d]) = 2 * binary ds + bit d := by
  unfold binary
  rw [List.reverse_append, List.reverse_singleton, List.singleton_append, List.map_cons,
    Nat.ofDigits_cons]
  omega

theorem binary_cons_zero (ds : List Char) : binary ('0' :: ds) = binary ds := by
  unfold binary
  rw [List.reverse_cons, List.map_append]
  exact Nat.ofDigits_append_zero _

theorem isBinary_append {ds : List Char} {d : Char} :
    IsBinary (ds ++ [d]) ↔ IsBinary ds ∧ (d = '0' ∨ d = '1') := by
  simp [IsBinary, or_imp, forall_and]

theorem digit?_two_eq_some_iff {c : Char} {k : Nat} :
    digit? 2 c = some k ↔ (c = '0' ∨ c = '1') ∧ k = bit c := by
  have hzero : c = '0' ↔ c.toNat = 48 := Char.toNat_inj.symm
  have hone : c = '1' ↔ c.toNat = 49 := Char.toNat_inj.symm
  have hdigit : c.isDigit = true ↔ 48 ≤ c.toNat ∧ c.toNat ≤ 57 := Char.isDigit_iff_toNat
  unfold digit? bit
  simp only [hdigit, hzero, hone]
  split
  · rw [Option.some.injEq]
    split <;> omega
  · split <;> simp <;> omega

theorem value?_append (base : Nat) (ds : List Char) (d : Char) :
    value? base (ds ++ [d]) =
      (value? base ds).bind fun n => (digit? base d).map (base * n + ·) := by
  unfold value?
  rw [List.foldlM_append]
  simp

theorem value?_two_eq_some_iff {ds : List Char} {n : Nat} :
    value? 2 ds = some n ↔ IsBinary ds ∧ n = binary ds := by
  induction ds using List.reverseRecOn generalizing n with
  | nil => simp [value?, IsBinary, binary, eq_comm]
  | append_singleton ds d ih =>
    rw [value?_append, isBinary_append, binary_append, Option.bind_eq_some_iff]
    constructor
    · rintro ⟨v, hv, hn⟩
      obtain ⟨k, hk, rfl⟩ := Option.map_eq_some_iff.1 hn
      obtain ⟨hds, rfl⟩ := ih.1 hv
      obtain ⟨hd, rfl⟩ := digit?_two_eq_some_iff.1 hk
      exact ⟨⟨hds, hd⟩, rfl⟩
    · rintro ⟨⟨hds, hd⟩, rfl⟩
      refine ⟨binary ds, ih.2 ⟨hds, rfl⟩, ?_⟩
      rw [digit?_two_eq_some_iff.2 ⟨hd, rfl⟩, Option.map_some]

/-! ## Bounds -/

/-- The digits that are left without the leading zeros. -/
def significant (digits : List Char) : List Char := digits.dropWhile (· = '0')

theorem binary_significant (ds : List Char) : binary (significant ds) = binary ds := by
  unfold significant
  induction ds with
  | nil => rfl
  | cons d ds ih =>
    by_cases hd : d = '0'
    · rw [hd, List.dropWhile_cons_of_pos (by simp), binary_cons_zero, ih]
    · rw [List.dropWhile_cons_of_neg (by simpa using hd)]

theorem binary_lt_pow (ds : List Char) : binary ds < 2 ^ ds.length := by
  have hlt : ∀ x ∈ ds.reverse.map bit, x < 2 := by
    intro x hx
    obtain ⟨c, -, rfl⟩ := List.mem_map.1 hx
    exact bit_lt c
  have h := Nat.ofDigits_lt_base_pow_length (by omega) hlt
  rwa [List.length_map, List.length_reverse] at h

/-- A leading one counts. -/
theorem pow_le_binary (ds : List Char) : 2 ^ ds.length ≤ binary ('1' :: ds) := by
  have hne : ('1' :: ds).reverse.map bit ≠ [] := by simp
  have hlast : (('1' :: ds).reverse.map bit).getLast hne ≠ 0 := by simp [bit]
  have h : 2 ^ _ ≤ 2 * Nat.ofDigits 2 (('1' :: ds).reverse.map bit) :=
    Nat.pow_length_le_mul_ofDigits hne hlast
  rw [List.length_map, List.length_reverse, List.length_cons, Nat.pow_succ] at h
  unfold binary
  omega

/-- A value fits into a byte if no more than eight digits of it count. -/
theorem binary_lt_iff {ds : List Char} (hds : IsBinary ds) :
    binary ds < 256 ↔ (significant ds).length ≤ 8 := by
  rw [← binary_significant]
  constructor
  · intro hlt
    cases hs : significant ds with
    | nil => simp
    | cons d rest =>
      have hne : ¬ d = '0' := by
        have := List.head?_dropWhile_not (· = '0') ds
        rw [show ds.dropWhile (· = '0') = d :: rest from hs] at this
        simpa using this
      have hmem : d ∈ ds := by
        have hsuffix : significant ds <:+ ds := List.dropWhile_suffix _
        exact hsuffix.subset (by rw [hs]; exact List.mem_cons_self)
      obtain rfl := (hds d hmem).resolve_left hne
      rw [hs] at hlt
      have hpow : 2 ^ rest.length < 2 ^ 8 := Nat.lt_of_le_of_lt (pow_le_binary rest) hlt
      have hlength : rest.length < 8 := (Nat.pow_lt_pow_iff_right (by omega)).1 hpow
      rw [List.length_cons]
      omega
  · intro hle
    have hpow : 2 ^ (significant ds).length ≤ 2 ^ 8 := Nat.pow_le_pow_right (by omega) hle
    have hlt := binary_lt_pow (significant ds)
    omega

/-! ## Numerals -/

/-- Numerals in base two that stand for a byte: one or more digits after at most one plus sign, of
which no more than eight count. -/
inductive Literal : List Char → UInt8 → Prop
  | unsigned {ds : List Char} {b : UInt8} (hne : ds ≠ []) (hds : IsBinary ds)
      (hfits : (significant ds).length ≤ 8) (hb : b.toNat = binary ds) : Literal ds b
  | plus {ds : List Char} {b : UInt8} (hne : ds ≠ []) (hds : IsBinary ds)
      (hfits : (significant ds).length ≤ 8) (hb : b.toNat = binary ds) : Literal ('+' :: ds) b

theorem unsigned_of_ne {cs : List Char} (h : ∀ ds, cs ≠ '+' :: ds) : unsigned cs = cs := by
  unfold unsigned
  split
  · exact absurd rfl (h _)
  · rfl

theorem literal_iff {cs : List Char} {b : UInt8} :
    Literal cs b ↔ unsigned cs ≠ [] ∧ IsBinary (unsigned cs) ∧
      (significant (unsigned cs)).length ≤ 8 ∧ b.toNat = binary (unsigned cs) := by
  constructor
  · intro h
    cases h with
    | unsigned hne hds hfits hb =>
      have hsign : ∀ es, cs ≠ '+' :: es := by
        rintro es rfl
        rcases hds '+' List.mem_cons_self with h | h <;> cases h
      rw [unsigned_of_ne hsign]
      exact ⟨hne, hds, hfits, hb⟩
    | plus hne hds hfits hb => exact ⟨hne, hds, hfits, hb⟩
  · rintro ⟨hne, hds, hfits, hb⟩
    by_cases hsign : ∃ ds, cs = '+' :: ds
    · obtain ⟨ds, rfl⟩ := hsign
      exact .plus hne hds hfits hb
    · rw [unsigned_of_ne (not_exists.1 hsign)] at hne hds hfits hb
      exact .unsigned hne hds hfits hb

theorem byte?_two_eq_some_iff {cs : List Char} {b : UInt8} :
    byte? 2 cs = some b ↔ Literal cs b := by
  rw [literal_iff]
  unfold byte?
  cases unsigned cs with
  | nil => simp
  | cons d ds =>
    simp only [Option.bind_eq_bind, Option.bind_eq_some_iff, value?_two_eq_some_iff]
    constructor
    · rintro ⟨n, ⟨hds, rfl⟩, h⟩
      split at h
      · rename_i hlt
        cases h
        refine ⟨List.cons_ne_nil d ds, hds, (binary_lt_iff hds).1 hlt, ?_⟩
        rw [Nat.toUInt8_eq, UInt8.toNat_ofNat_of_lt' hlt]
      · cases h
    · rintro ⟨-, hds, hfits, hb⟩
      refine ⟨binary (d :: ds), ⟨hds, rfl⟩, ?_⟩
      rw [if_pos ((binary_lt_iff hds).2 hfits), ← hb, Nat.toUInt8_eq, UInt8.ofNat_toNat]

/-! ## Written numerals -/

/-- The digits of a number, with zeros in front of them. -/
def padded (base zeros n : Nat) : List Char := List.replicate zeros '0' ++ Nat.toDigits base n

variable {base : Nat}

theorem padded_ne_nil (base zeros n : Nat) : padded base zeros n ≠ [] := by
  intro h
  exact Nat.toDigits_ne_nil (List.append_eq_nil_iff.1 h).2

theorem isDigit_of_mem_padded (hpos : 0 < base) (hten : base ≤ 10) {zeros n : Nat} {c : Char}
    (h : c ∈ padded base zeros n) : c.isDigit = true := by
  rcases List.mem_append.1 h with hzero | hdigit
  · rw [List.eq_of_mem_replicate hzero]
    rfl
  · exact Nat.isDigit_of_mem_toDigits hpos hten hdigit

theorem digit?_digitChar (hten : base ≤ 10) {d : Nat} (hd : d < base) :
    digit? base d.digitChar = some d := by
  have htoNat : d.digitChar.toNat = 48 + d := Nat.toNat_digitChar_of_lt_ten (by omega)
  have hdigit : d.digitChar.isDigit = true := by
    rw [Nat.isDigit_digitChar]
    exact decide_eq_true (by omega)
  unfold digit?
  rw [htoNat, Nat.add_sub_cancel_left]
  exact if_pos ⟨hdigit, hd⟩

theorem value?_toDigits (hone : 1 < base) (hten : base ≤ 10) (n : Nat) :
    value? base (Nat.toDigits base n) = some n := by
  induction n using Nat.strongRecOn with
  | ind n ih =>
    rcases Nat.lt_or_ge n base with hlt | hge
    · rw [Nat.toDigits_of_lt_base hlt, ← List.nil_append [n.digitChar], value?_append]
      simp [value?, digit?_digitChar hten hlt]
    · have hquotient : n / base < n := Nat.div_lt_self (by omega) hone
      have hrest : n % base < base := Nat.mod_lt n (by omega)
      rw [Nat.toDigits_of_base_le hone hge, value?_append, ih _ hquotient, Option.bind_some,
        digit?_digitChar hten hrest, Option.map_some, Nat.div_add_mod]

/-- Leading zeros count for nothing. -/
theorem value?_padded (hone : 1 < base) (hten : base ≤ 10) (zeros n : Nat) :
    value? base (padded base zeros n) = some n := by
  have hzero : digit? base '0' = some 0 := digit?_digitChar hten (d := 0) (by omega)
  have hvalue := value?_toDigits hone hten n
  unfold padded value? at *
  induction zeros with
  | zero => exact hvalue
  | succ zeros ih =>
    rw [List.replicate_succ, List.cons_append, List.foldlM_cons, hzero, Option.map_some,
      Nat.mul_zero, Nat.add_zero]
    exact ih

theorem byte?_padded (hone : 1 < base) (hten : base ≤ 10) (zeros : Nat) (b : UInt8) :
    byte? base (padded base zeros b.toNat) = some b := by
  have hne := padded_ne_nil base zeros b.toNat
  have hvalue := value?_padded hone hten zeros b.toNat
  have hsign : ∀ ds, padded base zeros b.toNat ≠ '+' :: ds := by
    intro ds hds
    have hmem : '+' ∈ padded base zeros b.toNat := by
      rw [hds]
      exact List.mem_cons_self
    cases isDigit_of_mem_padded (by omega) hten hmem
  obtain ⟨d, ds, hds⟩ := List.exists_cons_of_ne_nil hne
  unfold byte?
  rw [unsigned_of_ne hsign]
  rw [hds] at hvalue ⊢
  simp only [hvalue, Option.bind_eq_bind, Option.bind_some, if_pos b.toNat_lt, Nat.toUInt8_eq,
    UInt8.ofNat_toNat]

end ByteComputer.Numeral
