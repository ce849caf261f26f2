import ByteComputer.Text.Utf8
import Mathlib.Algebra.Group.Nat.Defs
import Mathlib.Data.List.Basic
import Mathlib.Tactic.SplitIfs

/-!
# ASCII bytes among others

A byte below `0x80` is a character wherever it stands: it never carries on a character that has
begun, so what has begun before it is ill-formed. A line feed comes from nothing but its own byte.

* `Utf8.Lead.sorted_ofByte`: which bytes are characters of their own, and what the others begin.
* `Utf8.Unfinished.WellBegun`: what holds of every character under way.
* `Utf8.lossy_append_ascii`: what stands before an ASCII byte and what stands behind it are read
  apart.
* `Utf8.newline_not_mem_lossy`: a text without the byte of a line feed is read without line feeds.
-/

namespace ByteComputer.Utf8

/-! ## Characters under way -/

/-- None of the further bytes is an ASCII byte, and the least value that they can make is not that of
an ASCII character. -/
structure Unfinished.WellBegun (p : Unfinished) : Prop where
  next : 0x80 ≤ p.next.low
  later : ∀ r ∈ p.later, 0x80 ≤ r.low
  least : 0x80 ≤ (p.bits * 64 + (p.next.low.toNat - 0x80)) * 64 ^ p.later.length

theorem Unfinished.wellBegun_continuation {bits : Nat} (k : Nat) (h : 0x80 ≤ bits * 64 * 64 ^ k) :
    WellBegun ⟨bits, .continuation, List.replicate k .continuation⟩ where
  next := UInt8.le_refl 0x80
  later := by
    intro r hr
    rw [List.eq_of_mem_replicate hr]
    exact UInt8.le_refl 0x80
  least := by
    have hlow : ByteRange.continuation.low.toNat - 0x80 = 0 := rfl
    rw [List.length_replicate, hlow, Nat.add_zero]
    exact h

/-- What bytes are in leading position: an ASCII byte is a character, and no other is. -/
inductive Lead.Sorted (b : UInt8) : Lead → Prop
  | complete (hascii : b < 0x80) : Sorted b (.complete (Char.ofNat b.toNat))
  | begins {p : Unfinished} (hascii : ¬ b < 0x80) (hp : p.WellBegun) : Sorted b (.begins p)
  | illFormed (hascii : ¬ b < 0x80) : Sorted b .illFormed

theorem Lead.sorted_ofByte (b : UInt8) : Sorted b (ofByte b) := by
  have hge : ∀ n : UInt8, ¬ b < n → n.toNat ≤ b.toNat := fun n h =>
    UInt8.le_iff_toNat_le.1 (UInt8.not_lt.1 h)
  have hne : ∀ n : UInt8, ¬ b = n → b.toNat ≠ n.toNat := fun n h => mt UInt8.toNat_inj.1 h
  unfold ofByte
  dsimp only
  split_ifs with hascii htail htwo hE0 hED hthree hF0 hfour hF4
  · exact .complete hascii
  · exact .illFormed hascii
  · have hbits : 0xC2 ≤ b.toNat := hge 0xC2 htail
    exact .begins hascii (Unfinished.wellBegun_continuation 0 (by omega))
  · exact .begins hascii ⟨by decide, by decide, by decide⟩
  · exact .begins hascii ⟨by decide, by decide, by decide⟩
  · have hbits : 0xE0 ≤ b.toNat := hge 0xE0 htwo
    have hbits' : b.toNat ≠ 0xE0 := hne 0xE0 hE0
    exact .begins hascii (Unfinished.wellBegun_continuation 1 (by omega))
  · exact .begins hascii ⟨by decide, by decide, by decide⟩
  · have hbits : 0xF0 ≤ b.toNat := hge 0xF0 hthree
    have hbits' : b.toNat ≠ 0xF0 := hne 0xF0 hF0
    exact .begins hascii (Unfinished.wellBegun_continuation 2 (by omega))
  · exact .begins hascii ⟨by decide, by decide, by decide⟩
  · exact .illFormed hascii

theorem ByteRange.low_le_of_holds {r : ByteRange} {b : UInt8} (h : r.holds b = true) : r.low ≤ b :=
  of_decide_eq_true (Bool.and_eq_true_iff.1 h).1

/-- An ASCII byte does not carry on what has begun. -/
theorem Unfinished.WellBegun.holds_ascii {p : Unfinished} (h : p.WellBegun) {b : UInt8}
    (hb : b < 0x80) : p.next.holds b = false := by
  rw [Bool.eq_false_iff]
  intro hholds
  exact UInt8.not_lt.2 (UInt8.le_trans h.next (ByteRange.low_le_of_holds hholds)) hb

/-- The value with the bits of one more byte. -/
theorem Unfinished.WellBegun.least_extend {p : Unfinished} (h : p.WellBegun) {b : UInt8}
    (hb : p.next.holds b = true) :
    0x80 ≤ (p.bits * 64 + (b.toNat - 0x80)) * 64 ^ p.later.length := by
  have hlow : p.next.low.toNat ≤ b.toNat :=
    UInt8.le_iff_toNat_le.1 (ByteRange.low_le_of_holds hb)
  exact Nat.le_trans h.least (Nat.mul_le_mul_right _ (by omega))

/-! ## One byte -/

theorem eq_ten_of_newline {n : Nat} (h : Char.ofNat n = '\n') : n = 10 := by
  by_cases hn : n.isValidChar
  · rw [Char.ofNat, dif_pos hn] at h
    exact congrArg Char.toNat h
  · rw [Char.ofNat, dif_neg hn] at h
    cases h

namespace Decoder

/-- The decoder that has read some parts before all others. -/
def behind (d : Decoder) (before : List (Option Char)) : Decoder :=
  { d with parts := d.parts ++ before }

/-- What the decoder has under way is well begun. -/
def WellBegun (d : Decoder) : Prop := ∀ p ∈ d.underWay, p.WellBegun

variable {d : Decoder} {b : UInt8}

theorem feed_behind (d : Decoder) (before : List (Option Char)) (b : UInt8) :
    (d.behind before).feed b = (d.feed b).behind before := by
  have hlead : ∀ parts, lead (parts ++ before) b = (lead parts b).behind before := by
    intro parts
    unfold lead
    cases Lead.ofByte b with
    | complete c => rfl
    | begins p => rfl
    | illFormed => rfl
  have hextend : ∀ parts p, extend (parts ++ before) p b = (extend parts p b).behind before := by
    intro parts p
    unfold extend
    cases p.later with
    | nil => rfl
    | cons next later => rfl
  unfold feed behind
  cases d.underWay with
  | none => exact hlead _
  | some p =>
    dsimp only
    split
    · exact hextend _ p
    · exact hlead (none :: d.parts)

theorem finish_behind (d : Decoder) (before : List (Option Char)) :
    (d.behind before).finish = before.reverse ++ d.finish := by
  unfold finish behind
  cases d.underWay with
  | none => exact List.reverse_append
  | some p =>
    show (none :: d.parts ++ before).reverse = _
    exact List.reverse_append

theorem wellBegun_lead (parts : List (Option Char)) (b : UInt8) : (lead parts b).WellBegun := by
  have hsorted := Lead.sorted_ofByte b
  unfold lead
  generalize Lead.ofByte b = first at hsorted ⊢
  cases hsorted with
  | complete | illFormed => exact nofun
  | begins _ hp =>
    intro q hq
    cases hq
    exact hp

theorem wellBegun_extend (parts : List (Option Char)) {p : Unfinished} (hp : p.WellBegun)
    (hb : p.next.holds b = true) : (extend parts p b).WellBegun := by
  have hleast := hp.least_extend hb
  unfold extend
  cases hlater : p.later with
  | nil => exact nofun
  | cons next later =>
    have hranges := hp.later
    rw [hlater] at hranges hleast
    intro q hq
    rw [← Option.some.inj hq]
    refine ⟨hranges next List.mem_cons_self, fun r hr => hranges r (List.mem_cons_of_mem _ hr), ?_⟩
    generalize p.bits * 64 + (b.toNat - 0x80) = bits at hleast ⊢
    calc 0x80 ≤ bits * 64 ^ (later.length + 1) := hleast
      _ = bits * 64 * 64 ^ later.length := by rw [Nat.pow_succ', Nat.mul_assoc]
      _ ≤ _ := Nat.mul_le_mul_right _ (Nat.le_add_right _ _)

theorem WellBegun.feed (h : d.WellBegun) (b : UInt8) : (d.feed b).WellBegun := by
  unfold Decoder.feed
  cases hway : d.underWay with
  | none => exact wellBegun_lead _ b
  | some p =>
    dsimp only
    split
    · rename_i hholds
      exact wellBegun_extend _ (h p hway) hholds
    · exact wellBegun_lead _ b

theorem lead_ascii (parts : List (Option Char)) (hb : b < 0x80) :
    lead parts b = { parts := some (Char.ofNat b.toNat) :: parts } := by
  have hsorted := Lead.sorted_ofByte b
  unfold lead
  generalize Lead.ofByte b = first at hsorted ⊢
  cases hsorted with
  | complete => rfl
  | begins hascii | illFormed hascii => exact absurd hb hascii

/-- An ASCII byte ends all that was read before it. -/
theorem WellBegun.feed_ascii (h : d.WellBegun) (hb : b < 0x80) :
    d.feed b = { parts := some (Char.ofNat b.toNat) :: d.finish.reverse } := by
  unfold Decoder.feed finish
  cases hway : d.underWay with
  | none =>
    dsimp only
    rw [List.reverse_reverse, lead_ascii _ hb]
  | some p =>
    dsimp only
    rw [(h p hway).holds_ascii hb, List.reverse_reverse]
    exact lead_ascii _ hb

/-! ### Line feeds -/

theorem newline_of_lead {parts : List (Option Char)} (hb : b ≠ 10)
    (hmem : some '\n' ∈ (lead parts b).parts) : some '\n' ∈ parts := by
  have hsorted := Lead.sorted_ofByte b
  unfold lead at hmem
  generalize Lead.ofByte b = first at hsorted hmem
  cases hsorted with
  | complete =>
    refine (List.mem_cons.1 hmem).resolve_left fun heq => hb ?_
    exact UInt8.toNat_inj.1 (eq_ten_of_newline (Option.some.inj heq.symm))
  | begins => exact hmem
  | illFormed => exact (List.mem_cons.1 hmem).resolve_left nofun

theorem newline_of_extend {parts : List (Option Char)} {p : Unfinished} (hp : p.WellBegun)
    (hb : p.next.holds b = true) (hmem : some '\n' ∈ (extend parts p b).parts) :
    some '\n' ∈ parts := by
  have hleast := hp.least_extend hb
  unfold extend at hmem
  cases hlater : p.later with
  | nil =>
    rw [hlater, List.length_nil, Nat.pow_zero, Nat.mul_one] at hleast
    simp only [hlater] at hmem
    refine (List.mem_cons.1 hmem).resolve_left fun heq => ?_
    have hten := eq_ten_of_newline (Option.some.inj heq.symm)
    omega
  | cons next later =>
    simp only [hlater] at hmem
    exact hmem

/-- No other byte than that of a line feed makes one. -/
theorem WellBegun.newline_of_feed (h : d.WellBegun) (hb : b ≠ 10)
    (hmem : some '\n' ∈ (d.feed b).parts) : some '\n' ∈ d.parts := by
  unfold Decoder.feed at hmem
  cases hway : d.underWay with
  | none =>
    rw [hway] at hmem
    exact newline_of_lead hb hmem
  | some p =>
    simp only [hway] at hmem
    split at hmem
    · rename_i hholds
      exact newline_of_extend (h p hway) hholds hmem
    · exact (List.mem_cons.1 (newline_of_lead hb hmem)).resolve_left nofun

/-! ## Bytes in a row -/

theorem foldl_feed_behind (d : Decoder) (before : List (Option Char)) (bytes : List UInt8) :
    bytes.foldl feed (d.behind before) = (bytes.foldl feed d).behind before := by
  induction bytes generalizing d with
  | nil => rfl
  | cons b bytes ih => rw [List.foldl_cons, List.foldl_cons, feed_behind, ih]

theorem WellBegun.foldl (h : d.WellBegun) (bytes : List UInt8) :
    (bytes.foldl Decoder.feed d).WellBegun := by
  induction bytes generalizing d with
  | nil => exact h
  | cons b bytes ih => exact ih (h.feed b)

theorem WellBegun.newline_of_foldl (h : d.WellBegun) {bytes : List UInt8} (hbytes : 10 ∉ bytes)
    (hmem : some '\n' ∈ (bytes.foldl Decoder.feed d).parts) : some '\n' ∈ d.parts := by
  induction bytes generalizing d with
  | nil => exact hmem
  | cons b bytes ih =>
    obtain ⟨hb, hbytes⟩ := not_or.1 (mt List.mem_cons.2 hbytes)
    exact h.newline_of_feed (Ne.symm hb) (ih (h.feed b) hbytes hmem)

theorem wellBegun_empty : WellBegun {} := nofun

end Decoder

/-- An ASCII byte parts what stands before it from what stands behind it. -/
theorem parts_append_ascii (u v : List UInt8) {b : UInt8} (hb : b < 0x80) :
    parts (u ++ b :: v) = parts u ++ some (Char.ofNat b.toNat) :: parts v := by
  have hfeed := (Decoder.wellBegun_empty.foldl u).feed_ascii hb
  have hafter := Decoder.foldl_feed_behind {} (some (Char.ofNat b.toNat) :: (parts u).reverse) v
  unfold parts at hafter ⊢
  rw [List.foldl_append, List.foldl_cons, hfeed]
  show (v.foldl Decoder.feed (Decoder.behind {} _)).finish = _
  rw [hafter, Decoder.finish_behind, List.reverse_cons, List.reverse_reverse, List.append_assoc]
  rfl

theorem lossy_append_ascii (u v : List UInt8) {b : UInt8} (hb : b < 0x80) :
    lossy (u ++ b :: v) = lossy u ++ Char.ofNat b.toNat :: lossy v := by
  unfold lossy
  rw [parts_append_ascii u v hb, List.map_append]
  rfl

theorem toNat_toUInt8 {c : Char} (h : c.toNat < 0x80) : c.toUInt8.toNat = c.toNat := by
  show c.val.toUInt8.toNat = c.val.toNat
  rw [UInt32.toNat_toUInt8, Nat.mod_eq_of_lt]
  exact Nat.lt_trans h (by decide)

/-- ASCII characters are read back from their bytes. -/
theorem lossy_map_toUInt8 {cs : List Char} (h : ∀ c ∈ cs, c.toNat < 0x80) :
    lossy (cs.map Char.toUInt8) = cs := by
  induction cs with
  | nil => rfl
  | cons c cs ih =>
    obtain ⟨hc, hcs⟩ := List.forall_mem_cons.1 h
    have hascii : c.toUInt8 < 0x80 := by
      rw [UInt8.lt_iff_toNat_lt, toNat_toUInt8 hc]
      exact hc
    have hfirst := lossy_append_ascii [] (cs.map Char.toUInt8) hascii
    rw [List.map_cons, ← List.nil_append (c.toUInt8 :: _), hfirst, ih hcs, toNat_toUInt8 hc,
      Char.ofNat_toNat]
    rfl

theorem newline_not_mem_lossy {bytes : List UInt8} (h : 10 ∉ bytes) : '\n' ∉ lossy bytes := by
  intro hmem
  obtain ⟨part, hpart, heq⟩ := List.mem_map.1 hmem
  have hnone : some '\n' ∉ (bytes.foldl Decoder.feed {}).parts := fun hparts =>
    List.not_mem_nil (Decoder.wellBegun_empty.newline_of_foldl h hparts)
  cases part with
  | none => exact absurd heq (by decide)
  | some c =>
    obtain rfl : c = '\n' := heq
    unfold parts Decoder.finish at hpart
    split at hpart
    · exact hnone (List.mem_reverse.1 hpart)
    · exact hnone ((List.mem_cons.1 (List.mem_reverse.1 hpart)).resolve_left nofun)

end ByteComputer.Utf8
