import ByteComputer.Program
import ByteComputer.Proofs.Machine.Decoding
import ByteComputer.Proofs.Text.Lines
import ByteComputer.Proofs.Text.Numerals

/-!
# The grammar of program texts

What a line of a program text may hold, what a text stands for, and what is wrong with a text that
stands for nothing. Lines, comments, margins and numerals are described by what they look like, not
by how they are found.

* `Program.readLine_of_blank`, `Program.readLine_of_good`, `Program.readLine_of_bad`: one line.
* `Program.exists_verdict`: every sequence of lines stands for a program, is too long for one, or
  has a first bad line.
* `Program.parse_grammar`: reading a text comes to the verdict on its lines.
-/

namespace ByteComputer.Program

open Text (isBlank trim Trimmed)

/-! ## One line -/

/-- What stands on a line before its first `#`. -/
structure Body (line body : List Char) : Prop where
  comment : ∃ comment, line = body ++ comment ∧ ∀ c ∈ comment.head?, c = '#'
  plain : '#' ∉ body

/-- What stands on a line before its first `#`, without the white space at either end. -/
def Code (line code : List Char) : Prop := ∃ body, Body line body ∧ Trimmed body code

/-- Nothing but white space stands on the line before its first `#`. -/
def Blank (line : List Char) : Prop := ∃ body, Body line body ∧ ∀ c ∈ body, isBlank c = true

/-- The line holds the numeral of a byte. -/
def Good (line : List Char) (b : UInt8) : Prop := ∃ code, Code line code ∧ Numeral.Literal code b

/-- The line holds something, but no numeral of a byte. -/
def Bad (line : List Char) : Prop := ¬ Blank line ∧ ∀ b, ¬ Good line b

theorem body_iff {line body : List Char} : Body line body ↔ body = line.takeWhile (· ≠ '#') := by
  constructor
  · rintro ⟨⟨comment, rfl, hhead⟩, hplain⟩
    have hall : ∀ c ∈ body, decide (c ≠ '#') = true := by
      intro c hc
      refine decide_eq_true ?_
      rintro rfl
      exact hplain hc
    rw [List.takeWhile_append_of_pos hall]
    cases comment with
    | nil => simp
    | cons c rest =>
      obtain rfl := hhead c rfl
      simp
  · rintro rfl
    refine ⟨⟨line.dropWhile (· ≠ '#'), List.takeWhile_append_dropWhile.symm, ?_⟩, ?_⟩
    · intro c hc
      have := List.head?_dropWhile_not (· ≠ '#') line
      rw [hc] at this
      simpa using this
    · intro hmem
      simpa using List.mem_takeWhile_imp hmem

theorem code_iff {line cs : List Char} : Code line cs ↔ code line = cs := by
  unfold Code code
  simp only [body_iff, exists_eq_left, Text.trim_eq_iff]

theorem code_unique {line cs ds : List Char} (h : Code line cs) (h' : Code line ds) : cs = ds := by
  rw [← code_iff.1 h, code_iff.1 h']

theorem blank_iff {line : List Char} : Blank line ↔ Code line [] := by
  unfold Blank Code
  refine exists_congr fun body => and_congr_right fun _ => ?_
  constructor
  · intro hall
    exact ⟨⟨body, [], by simp, hall, nofun⟩, nofun, nofun⟩
  · intro h c hc
    obtain ⟨left, right, hbody, hleft, hright⟩ := h.margins
    rw [hbody, List.append_nil] at hc
    exact (List.mem_append.1 hc).elim (hleft c) (hright c)

theorem not_blank_of_good {line : List Char} {b : UInt8} (h : Good line b) : ¬ Blank line := by
  intro hblank
  obtain ⟨cs, hcode, hliteral⟩ := h
  obtain rfl := code_unique (blank_iff.1 hblank) hcode
  cases hliteral with
  | unsigned hne => exact hne rfl

/-- A bad line holds something, and no `#` is part of it. -/
theorem code_of_bad {line cs : List Char} (hbad : Bad line) (hcode : Code line cs) :
    cs ≠ [] ∧ '#' ∉ cs := by
  refine ⟨?_, ?_⟩
  · rintro rfl
    exact hbad.1 (blank_iff.2 hcode)
  · intro hmem
    obtain ⟨body, hbody, htrim⟩ := hcode
    obtain ⟨left, right, rfl, -, -⟩ := htrim.margins
    exact hbody.plain (List.mem_append_left _ (List.mem_append_right _ hmem))

theorem readLine_of_blank {line : List Char} (h : Blank line) (k : Nat) :
    readLine k line = .ok none := by
  unfold readLine
  rw [code_iff.1 (blank_iff.1 h)]

theorem readLine_of_good {line : List Char} {b : UInt8} (h : Good line b) (k : Nat) :
    readLine k line = .ok (some b) := by
  have hblank := not_blank_of_good h
  obtain ⟨cs, hcode, hliteral⟩ := h
  unfold readLine
  rw [code_iff.1 hcode]
  cases cs with
  | nil => exact absurd (blank_iff.2 hcode) hblank
  | cons c cs => simp only [Numeral.byte?_two_eq_some_iff.2 hliteral]

theorem readLine_of_bad {line cs : List Char} (hbad : Bad line) (hcode : Code line cs) (k : Nat) :
    readLine k line = .error (.badLiteral k (String.ofList cs)) := by
  have hnone : Numeral.byte? 2 cs = none := by
    rw [Option.eq_none_iff_forall_ne_some]
    intro b hb
    exact hbad.2 b ⟨cs, hcode, Numeral.byte?_two_eq_some_iff.1 hb⟩
  unfold readLine
  rw [code_iff.1 hcode]
  cases cs with
  | nil => exact absurd rfl (code_of_bad hbad hcode).1
  | cons c cs => simp only [hnone]

/-! ## All lines -/

/-- None of the lines is bad, and the program is the bytes on the good ones. -/
inductive Yields : List (List Char) → List UInt8 → Prop
  | nil : Yields [] []
  | blank {line : List Char} {ls : List (List Char)} {p : List UInt8} (hline : Blank line)
      (h : Yields ls p) : Yields (line :: ls) p
  | good {line : List Char} {b : UInt8} {ls : List (List Char)} {p : List UInt8}
      (hline : Good line b) (h : Yields ls p) : Yields (line :: ls) (b :: p)

/-- What comes of reading some lines. -/
inductive Verdict (ls : List (List Char)) : Except LoadError (List UInt8) → Prop
  | accepted {p : List UInt8} (h : Yields ls p) (hsize : p.length ≤ 256) : Verdict ls (.ok p)
  | tooLarge {p : List UInt8} (h : Yields ls p) (hsize : 256 < p.length) :
      Verdict ls (.error (.tooLarge p.length))
  /-- The first bad line is reported, and what stands on it. -/
  | bad {before after : List (List Char)} {line cs : List Char} (hls : ls = before ++ line :: after)
      (hbefore : ∀ l ∈ before, ¬ Bad l) (hbad : Bad line) (hcode : Code line cs) :
      Verdict ls (.error (.badLiteral (before.length + 1) (String.ofList cs)))

/-- The bytes on lines of which the first has the number `k`. -/
def readLines (k : Nat) (ls : List (List Char)) : Except LoadError (List (Option UInt8)) :=
  (ls.zipIdx k).mapM fun (line, number) => readLine number line

theorem readLines_cons (k : Nat) (line : List Char) (ls : List (List Char)) :
    readLines k (line :: ls) = do return (← readLine k line) :: (← readLines (k + 1) ls) := by
  simp [readLines]

theorem readLine_of_not_bad {line : List Char} (h : ¬ Bad line) (k : Nat) :
    ∃ found, readLine k line = .ok found := by
  by_cases hblank : Blank line
  · exact ⟨none, readLine_of_blank hblank k⟩
  · by_cases hgood : ∃ b, Good line b
    · obtain ⟨b, hb⟩ := hgood
      exact ⟨some b, readLine_of_good hb k⟩
    · exact absurd ⟨hblank, not_exists.1 hgood⟩ h

theorem readLines_of_yields {ls : List (List Char)} {p : List UInt8} (h : Yields ls p) (k : Nat) :
    ∃ found, readLines k ls = .ok found ∧ found.filterMap id = p := by
  induction h generalizing k with
  | nil => exact ⟨[], rfl, rfl⟩
  | blank hline h ih =>
    obtain ⟨found, hfound, rfl⟩ := ih (k + 1)
    refine ⟨none :: found, ?_, rfl⟩
    rw [readLines_cons, readLine_of_blank hline, hfound]
    rfl
  | good hline h ih =>
    obtain ⟨found, hfound, rfl⟩ := ih (k + 1)
    refine ⟨some _ :: found, ?_, rfl⟩
    rw [readLines_cons, readLine_of_good hline, hfound]
    rfl

/-- Lines are read one after the other, and the first bad one ends it. -/
theorem readLines_of_bad {before after : List (List Char)} {line cs : List Char}
    (hbefore : ∀ l ∈ before, ¬ Bad l) (hbad : Bad line) (hcode : Code line cs) (k : Nat) :
    readLines k (before ++ line :: after) =
      .error (.badLiteral (k + before.length) (String.ofList cs)) := by
  induction before generalizing k with
  | nil =>
    rw [List.nil_append, readLines_cons, readLine_of_bad hbad hcode]
    rfl
  | cons l before ih =>
    obtain ⟨found, hfound⟩ := readLine_of_not_bad (hbefore l List.mem_cons_self) k
    have hrest := ih (fun l' hl' => hbefore l' (List.mem_cons_of_mem l hl')) (k + 1)
    rw [List.cons_append, readLines_cons, hfound, hrest, List.length_cons, Nat.add_right_comm,
      Nat.add_assoc]
    rfl

theorem parse_eq (text : List Char) :
    parse text = readLines 1 (Text.lines text) >>= fun found =>
      if (found.filterMap id).length ≤ Memory.size then pure (found.filterMap id)
      else throw (.tooLarge (found.filterMap id).length) := rfl

theorem parse_of_verdict {text : List Char} {result : Except LoadError (List UInt8)}
    (h : Verdict (Text.lines text) result) : parse text = result := by
  rw [parse_eq]
  cases h with
  | accepted hyields hsize =>
    obtain ⟨found, hfound, rfl⟩ := readLines_of_yields hyields 1
    rw [hfound]
    exact if_pos hsize
  | tooLarge hyields hsize =>
    obtain ⟨found, hfound, rfl⟩ := readLines_of_yields hyields 1
    rw [hfound]
    exact if_neg (Nat.not_le.2 hsize)
  | bad hls hbefore hbad hcode =>
    rw [hls, readLines_of_bad hbefore hbad hcode, Nat.add_comm]
    rfl

/-! ## The verdict -/

/-- The bytes of some lines, or the first bad one among them. -/
theorem yields_or_bad (ls : List (List Char)) :
    (∃ p, Yields ls p) ∨
      ∃ before line after, ls = before ++ line :: after ∧ (∀ l ∈ before, ¬ Bad l) ∧ Bad line := by
  induction ls with
  | nil => exact Or.inl ⟨[], .nil⟩
  | cons line ls ih =>
    by_cases hbad : Bad line
    · exact Or.inr ⟨[], line, ls, rfl, nofun, hbad⟩
    · rcases ih with ⟨p, hp⟩ | ⟨before, l, after, rfl, hbefore, hl⟩
      · by_cases hblank : Blank line
        · exact Or.inl ⟨p, .blank hblank hp⟩
        · by_cases hgood : ∃ b, Good line b
          · obtain ⟨b, hb⟩ := hgood
            exact Or.inl ⟨b :: p, .good hb hp⟩
          · exact absurd ⟨hblank, not_exists.1 hgood⟩ hbad
      · refine Or.inr ⟨line :: before, l, after, rfl, ?_, hl⟩
        intro l' hl'
        rcases List.mem_cons.1 hl' with rfl | hmem
        · exact hbad
        · exact hbefore l' hmem

theorem exists_verdict (ls : List (List Char)) : ∃ result, Verdict ls result := by
  rcases yields_or_bad ls with ⟨p, hp⟩ | ⟨before, line, after, hls, hbefore, hbad⟩
  · by_cases hsize : p.length ≤ 256
    · exact ⟨_, .accepted hp hsize⟩
    · exact ⟨_, .tooLarge hp (Nat.lt_of_not_le hsize)⟩
  · exact ⟨_, .bad hls hbefore hbad (code_iff.2 rfl)⟩

/-- Every text has a verdict, and reading it comes to that verdict. -/
theorem verdict_parse (text : List Char) : Verdict (Text.lines text) (parse text) := by
  obtain ⟨result, h⟩ := exists_verdict (Text.lines text)
  rw [parse_of_verdict h]
  exact h

theorem not_bad_of_yields {ls : List (List Char)} {p : List UInt8} (h : Yields ls p) :
    ∀ line ∈ ls, ¬ Bad line := by
  induction h with
  | nil => exact nofun
  | blank hline h ih =>
    intro l hl
    rcases List.mem_cons.1 hl with rfl | hmem
    · exact fun hbad => hbad.1 hline
    · exact ih l hmem
  | good hline h ih =>
    intro l hl
    rcases List.mem_cons.1 hl with rfl | hmem
    · exact fun hbad => hbad.2 _ hline
    · exact ih l hmem

theorem exists_yields_iff {ls : List (List Char)} :
    (∃ p, Yields ls p) ↔ ∀ line ∈ ls, ¬ Bad line := by
  constructor
  · rintro ⟨p, hp⟩
    exact not_bad_of_yields hp
  · intro hall
    rcases yields_or_bad ls with h | ⟨before, line, after, rfl, -, hbad⟩
    · exact h
    · exact absurd hbad (hall line (by simp))

/-- **A program text is read by its grammar.** A text falls into lines in one way. If none of them
is bad, it is the program of the bytes on the good ones, or too long for one; otherwise the first
bad line is reported, with its number and with what stands on it. -/
theorem parse_grammar (text : List Char) :
    ∃ ls, (∀ ms, Text.Lined text ms ↔ ms = ls) ∧
      ((∃ p, Yields ls p) ↔ ∀ line ∈ ls, ¬ Bad line) ∧
      (∀ result, parse text = result ↔ Verdict ls result) ∧
      ∀ line cs, Bad line → Code line cs → cs ≠ [] ∧ '#' ∉ cs := by
  refine ⟨Text.lines text, fun ms => Text.lined_iff, exists_yields_iff, fun result => ?_,
    fun line cs => code_of_bad⟩
  constructor
  · rintro rfl
    obtain ⟨result, h⟩ := exists_verdict (Text.lines text)
    rw [parse_of_verdict h]
    exact h
  · exact parse_of_verdict

/-- A sign, leading zeros, comments and line ends of both kinds, before a bad line. -/
example :
    parse "# print\r\n+0000000101\t# five\n\u2028\r\n2 # two\n101".toList =
      .error (.badLiteral 4 "2") := rfl

end ByteComputer.Program
