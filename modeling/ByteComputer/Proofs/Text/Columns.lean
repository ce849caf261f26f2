import ByteComputer.Machine.Snapshot

/-!
# Bytes in columns

Where the digits of a byte stand in a text. A byte takes two columns and a blank in front of it one
more, so bytes in a row stand three columns apart, whatever their values are.

* `Hex.at?`: the byte whose digits stand at a column.
* `Hex.spaced`: bytes in a row, each behind a blank.
* `Hex.at?_spaced`: what stands where in such a row.
* `Hex.toList_separated`: bytes with blanks between them are such a row without its first blank.
-/

namespace ByteComputer.Hex

/-- The byte whose two digits stand at a column and the one behind it. -/
def at? (text : List Char) (column : Nat) : Option UInt8 := do
  byte? (← text[column]?) (← text[column + 1]?)

/-- Bytes in a row, each behind a blank. -/
def spaced (bs : List UInt8) : List Char := bs.flatMap fun b => ' ' :: (byte b).toList

/-! ## Reading in a part of a text -/

/-- What stands behind a front is found at its column there, counted from the end of the front. -/
theorem at?_append_right {front : List Char} {column k : Nat} (h : column = front.length + k)
    (text : List Char) : at? (front ++ text) column = at? text k := by
  have hget : ∀ j, (front ++ text)[front.length + j]? = text[j]? := by
    intro j
    rw [List.getElem?_append_right (Nat.le_add_right _ _), Nat.add_sub_cancel_left]
  rw [h, at?, Nat.add_assoc, hget, hget]
  rfl

/-- What has been read stays there when the text goes on. -/
theorem at?_append_left {text : List Char} {column : Nat} {b : UInt8} (h : at? text column = some b)
    (rest : List Char) : at? (text ++ rest) column = some b := by
  obtain ⟨c, hc, d, hd, hb⟩ : ∃ c, text[column]? = some c ∧ ∃ d, text[column + 1]? = some d ∧
      byte? c d = some b := by
    simpa only [at?, Option.bind_eq_bind, Option.bind_eq_some_iff] using h
  have hstays : ∀ {j : Nat} {e : Char}, text[j]? = some e → (text ++ rest)[j]? = some e := by
    intro j e he
    rw [List.getElem?_append_left (List.getElem?_eq_some_iff.1 he).1, he]
  rw [at?, hstays hc, hstays hd]
  exact hb

theorem toList_byte (b : UInt8) : (byte b).toList = [high b, low b] := String.toList_ofList

@[simp] theorem length_byte (b : UInt8) : (byte b).toList.length = 2 := by
  rw [toList_byte]
  rfl

theorem at?_byte (b : UInt8) : at? (byte b).toList 0 = some b := by
  rw [toList_byte]
  exact byte?_byte b

/-! ## Bytes in a row -/

theorem spaced_cons (b : UInt8) (bs : List UInt8) :
    spaced (b :: bs) = (' ' :: (byte b).toList) ++ spaced bs := List.flatMap_cons

@[simp] theorem length_spaced (bs : List UInt8) : (spaced bs).length = 3 * bs.length := by
  induction bs with
  | nil => rfl
  | cons b bs ih =>
    rw [spaced_cons, List.length_append, ih, List.length_cons, length_byte, List.length_cons]
    omega

/-- The bytes of a row stand three columns apart. -/
theorem at?_spaced {bs : List UInt8} {i : Nat} (hi : i < bs.length) :
    at? (spaced bs) (3 * i + 1) = some bs[i] := by
  induction bs generalizing i with
  | nil => exact absurd hi (Nat.not_lt_zero i)
  | cons b bs ih =>
    rw [spaced_cons]
    cases i with
    | zero =>
      apply at?_append_left
      exact at?_byte b
    | succ i =>
      have hcolumn : 3 * (i + 1) + 1 = (' ' :: (byte b).toList).length + (3 * i + 1) := by
        rw [List.length_cons, length_byte]
        omega
      rw [at?_append_right hcolumn]
      exact ih (Nat.lt_of_succ_lt_succ hi)

/-- Bytes with blanks between them lack only the first blank of a row. -/
theorem toList_separated {bs : List UInt8} (h : bs ≠ []) :
    ' ' :: (separated bs).toList = spaced bs := by
  induction bs with
  | nil => exact absurd rfl h
  | cons b bs ih =>
    rw [spaced_cons, List.cons_append]
    by_cases hbs : bs = []
    · subst hbs
      simp [separated, spaced]
    · have hmap : bs.map byte ≠ [] := mt List.map_eq_nil_iff.1 hbs
      rw [← ih hbs, separated, List.map_cons, String.intercalate_cons_of_ne_nil hmap,
        String.toList_append, String.toList_append, List.append_assoc]
      rfl

/-! ## Characters of a row -/

/-- A character that is no digit is in the text of no byte. -/
theorem not_mem_byte {c : Char} (hc : digit? c = none) (b : UInt8) : c ∉ (byte b).toList := by
  have hb : b.toNat < 256 := b.toNat_lt
  have hne : ∀ n, n < 16 → c ≠ digit n := by
    rintro n hn rfl
    rw [digit?_digit hn] at hc
    cases hc
  have hhigh : c ≠ high b := hne _ (by omega)
  have hlow : c ≠ low b := hne _ (by omega)
  rw [toList_byte]
  simp [hhigh, hlow]

theorem not_mem_spaced {c : Char} (hc : digit? c = none) (hblank : c ≠ ' ') (bs : List UInt8) :
    c ∉ spaced bs := by
  intro hmem
  obtain ⟨b, -, hb⟩ := List.mem_flatMap.1 hmem
  rcases List.mem_cons.1 hb with hb | hb
  · exact hblank hb
  · exact not_mem_byte hc b hb

end ByteComputer.Hex
