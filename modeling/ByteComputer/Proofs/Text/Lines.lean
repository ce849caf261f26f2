import ByteComputer.Text.Blank
import ByteComputer.Text.Lines
import Mathlib.Data.List.TakeWhile

/-!
# Texts, lines and margins

The lines of a text and the white space around a piece of it, said without the functions that find
them.

* `Text.lined_iff`: a text falls into lines in one way (`Text.Lined`), and `Text.lines` finds it.
* `Text.listed_iff`: where each line has a line feed behind it (`Text.Listed`), the lines are those
  that were written.
* `Text.trim_eq_iff`: what is left between the margins (`Text.Trimmed`) is what `Text.trim` leaves.
-/

namespace ByteComputer.Text

/-! ## Lines -/

/-- How a text falls into lines. A line ends at a line feed, and a carriage return right before it
belongs to the line end. The last line may go without an end, but not if it is empty. -/
inductive Lined : List Char → List (List Char) → Prop
  | nothing : Lined [] []
  | unended {line : List Char} (hline : '\n' ∉ line) (hne : line ≠ []) : Lined line [line]
  | feed {line rest : List Char} {ls : List (List Char)} (hline : '\n' ∉ line)
      (hreturn : line.getLast? ≠ some '\r') (h : Lined rest ls) :
      Lined (line ++ '\n' :: rest) (line :: ls)
  | returnFeed {line rest : List Char} {ls : List (List Char)} (hline : '\n' ∉ line)
      (h : Lined rest ls) : Lined (line ++ '\r' :: '\n' :: rest) (line :: ls)

theorem pieces_ne_nil (sep : Char) (cs : List Char) : pieces sep cs ≠ [] := by
  cases cs with
  | nil => simp [pieces]
  | cons c cs =>
    simp only [pieces, List.foldr_cons]
    split <;> simp

theorem pieces_cons_sep (sep : Char) (cs : List Char) :
    pieces sep (sep :: cs) = [] :: pieces sep cs := by
  simp [pieces]

theorem pieces_cons_of_ne {sep c : Char} (h : c ≠ sep) (cs : List Char) :
    pieces sep (c :: cs) = (c :: (pieces sep cs).headD []) :: (pieces sep cs).tail := by
  simp [pieces, h]

/-- A text without a separator is one piece. -/
theorem pieces_of_not_mem {sep : Char} {cs : List Char} (h : sep ∉ cs) : pieces sep cs = [cs] := by
  induction cs with
  | nil => rfl
  | cons c cs ih =>
    obtain ⟨hne, hcs⟩ := not_or.1 (mt List.mem_cons.2 h)
    rw [pieces_cons_of_ne (Ne.symm hne), ih hcs]
    rfl

/-- The first separator ends the first piece. -/
theorem pieces_append {sep : Char} {line : List Char} (h : sep ∉ line) (rest : List Char) :
    pieces sep (line ++ sep :: rest) = line :: pieces sep rest := by
  induction line with
  | nil => exact pieces_cons_sep sep rest
  | cons c cs ih =>
    obtain ⟨hne, hcs⟩ := not_or.1 (mt List.mem_cons.2 h)
    rw [List.cons_append, pieces_cons_of_ne (Ne.symm hne), ih hcs]
    rfl

theorem lines_of_not_mem {line : List Char} (hline : '\n' ∉ line) (hne : line ≠ []) :
    lines line = [line] := by
  simp [lines, pieces_of_not_mem hline, hne]

theorem lines_append {line : List Char} (hline : '\n' ∉ line) (rest : List Char) :
    lines (line ++ '\n' :: rest) = dropReturn line :: lines rest := by
  have hpieces := pieces_ne_nil '\n' rest
  obtain ⟨p, ps, hps⟩ := List.exists_cons_of_ne_nil hpieces
  simp only [lines, pieces_append hline, hps]
  simp

theorem dropReturn_of_ne {line : List Char} (h : line.getLast? ≠ some '\r') :
    dropReturn line = line := by
  simp [dropReturn, h]

theorem dropReturn_append (line : List Char) : dropReturn (line ++ ['\r']) = line := by
  simp [dropReturn]

theorem lines_of_lined {text : List Char} {ls : List (List Char)} (h : Lined text ls) :
    lines text = ls := by
  induction h with
  | nothing => rfl
  | unended hline hne => exact lines_of_not_mem hline hne
  | feed hline hreturn h ih => rw [lines_append hline, dropReturn_of_ne hreturn, ih]
  | @returnFeed line rest ls hline h ih =>
    have hfeed : '\n' ∉ line ++ ['\r'] := by simp [hline]
    have hsplit : line ++ '\r' :: '\n' :: rest = (line ++ ['\r']) ++ '\n' :: rest := by simp
    rw [hsplit, lines_append hfeed, dropReturn_append, ih]

/-- A line with a line feed behind it. -/
theorem lined_append {line rest : List Char} {ls : List (List Char)} (hline : '\n' ∉ line)
    (h : Lined rest ls) : ∃ first, Lined (line ++ '\n' :: rest) (first :: ls) := by
  by_cases hreturn : line.getLast? = some '\r'
  · obtain ⟨init, rfl⟩ := List.getLast?_eq_some_iff.1 hreturn
    have hinit : '\n' ∉ init := fun hmem => hline (List.mem_append_left _ hmem)
    refine ⟨init, ?_⟩
    rw [List.append_assoc]
    exact .returnFeed hinit h
  · exact ⟨line, .feed hline hreturn h⟩

/-- Every text falls into lines. -/
theorem exists_lined (text : List Char) : ∃ ls, Lined text ls := by
  induction hn : text.length using Nat.strongRecOn generalizing text with
  | ind n ih =>
    by_cases hmem : '\n' ∈ text
    · obtain ⟨line, rest, rfl, hline⟩ := List.eq_append_cons_of_mem hmem
      have hlt : rest.length < n := by
        rw [← hn, List.length_append, List.length_cons]
        omega
      obtain ⟨ls, hls⟩ := ih rest.length hlt rest rfl
      obtain ⟨first, h⟩ := lined_append hline hls
      exact ⟨_, h⟩
    · by_cases hne : text = []
      · rw [hne]
        exact ⟨[], .nothing⟩
      · exact ⟨[text], .unended hmem hne⟩

/-- A text falls into lines in exactly one way. -/
theorem lined_iff {text : List Char} {ls : List (List Char)} : Lined text ls ↔ ls = lines text := by
  constructor
  · intro h
    exact (lines_of_lined h).symm
  · rintro rfl
    obtain ⟨ls, h⟩ := exists_lined text
    rw [lines_of_lined h]
    exact h

/-! ## Lines that all have their end -/

/-- A text of lines that each have a line feed behind them, the last one too. -/
inductive Listed : List Char → List (List Char) → Prop
  | nil : Listed [] []
  | cons {line rest : List Char} {ls : List (List Char)} (hline : '\n' ∉ line)
      (h : Listed rest ls) : Listed (line ++ '\n' :: rest) (line :: ls)

/-- Behind the last line feed there is an empty piece. -/
theorem pieces_of_listed {text : List Char} {ls : List (List Char)} (h : Listed text ls) :
    pieces '\n' text = ls ++ [[]] := by
  induction h with
  | nil => rfl
  | cons hline h ih => rw [pieces_append hline, ih, List.cons_append]

theorem listed_flatMap {α : Type} {f : α → List Char} (hf : ∀ a, '\n' ∉ f a) (as : List α) :
    Listed (as.flatMap fun a => f a ++ ['\n']) (as.map f) := by
  induction as with
  | nil => exact .nil
  | cons a as ih =>
    rw [List.flatMap_cons, List.append_assoc, List.map_cons]
    exact .cons (hf a) ih

/-- Lines that are written one after the other can be told apart in no other way. -/
theorem listed_iff {text : List Char} {ls ms : List (List Char)} (h : Listed text ls) :
    Listed text ms ↔ ms = ls := by
  constructor
  · intro h'
    have hpieces : ms ++ [[]] = ls ++ [[]] := by
      rw [← pieces_of_listed h', ← pieces_of_listed h]
    exact List.append_cancel_right hpieces
  · rintro rfl
    exact h

/-! ## Margins -/

/-- No digit is white space. -/
theorem isBlank_of_isDigit {c : Char} (h : c.isDigit = true) : isBlank c = false := by
  have hdigit : 48 ≤ c.toNat ∧ c.toNat ≤ 57 := Char.isDigit_iff_toNat.1 h
  have hranges : ∀ r ∈ blankRanges, r.2 < 48 ∨ 57 < r.1 := by decide
  rw [Bool.eq_false_iff]
  intro hblank
  obtain ⟨r, hr, hc⟩ := List.any_eq_true.1 hblank
  have houtside := hranges r hr
  simp only [Bool.and_eq_true, decide_eq_true_eq] at hc
  omega

/-- `code` is `cs` without the white space at either end. -/
structure Trimmed (cs code : List Char) : Prop where
  margins : ∃ left right, cs = left ++ code ++ right ∧
    (∀ c ∈ left, isBlank c = true) ∧ ∀ c ∈ right, isBlank c = true
  head : ∀ c ∈ code.head?, isBlank c = false
  last : ∀ c ∈ code.getLast?, isBlank c = false

/-- A margin in front of something that does not begin with white space. -/
theorem dropWhile_margin {left cs : List Char} (hleft : ∀ c ∈ left, isBlank c = true)
    (hcs : ∀ c ∈ cs.head?, isBlank c = false) : (left ++ cs).dropWhile isBlank = cs := by
  rw [List.dropWhile_append_of_pos hleft]
  cases cs with
  | nil => rfl
  | cons c cs => exact List.dropWhile_cons_of_neg (by simp [hcs c rfl])

theorem exists_margin (cs : List Char) :
    ∃ left, cs = left ++ cs.dropWhile isBlank ∧ (∀ c ∈ left, isBlank c = true) ∧
      ∀ c ∈ (cs.dropWhile isBlank).head?, isBlank c = false := by
  refine ⟨cs.takeWhile isBlank, List.takeWhile_append_dropWhile.symm, ?_, ?_⟩
  · intro c hc
    exact List.mem_takeWhile_imp hc
  · intro c hc
    have := List.head?_dropWhile_not isBlank cs
    rw [hc] at this
    simpa using this

theorem trimmed_trim (cs : List Char) : Trimmed cs (trim cs) := by
  obtain ⟨left, hleft, hblank, hhead⟩ := exists_margin cs
  -- the right margin is a left one of the text read backwards
  obtain ⟨right, hright, hblank', hlast⟩ := exists_margin (cs.dropWhile isBlank).reverse
  have hcs : cs.dropWhile isBlank = trim cs ++ right.reverse := by
    rw [← List.reverse_inj, hright]
    simp [trim]
  constructor
  · refine ⟨left, right.reverse, ?_, hblank, fun c hc => hblank' c (List.mem_reverse.1 hc)⟩
    rw [List.append_assoc, ← hcs]
    exact hleft
  · intro c hc
    apply hhead
    rw [hcs, List.head?_append, hc]
    rfl
  · intro c hc
    rw [trim, List.getLast?_reverse] at hc
    exact hlast c hc

theorem trim_of_trimmed {cs code : List Char} (h : Trimmed cs code) : trim cs = code := by
  obtain ⟨left, right, rfl, hleft, hright⟩ := h.margins
  cases code with
  | nil =>
    have hall : ∀ c ∈ left ++ right, isBlank c = true := by
      intro c hc
      exact (List.mem_append.1 hc).elim (hleft c) (hright c)
    have hnil : (left ++ right).dropWhile isBlank = [] :=
      List.dropWhile_eq_nil_iff.2 hall
    simp [trim, hnil]
  | cons c code =>
    have hfront : (left ++ (c :: code) ++ right).dropWhile isBlank = (c :: code) ++ right := by
      rw [List.append_assoc]
      exact dropWhile_margin hleft fun d hd => h.head d hd
    have hback : (right.reverse ++ (c :: code).reverse).dropWhile isBlank =
        (c :: code).reverse := by
      apply dropWhile_margin
      · intro d hd
        exact hright d (List.mem_reverse.1 hd)
      · intro d hd
        rw [List.head?_reverse] at hd
        exact h.last d hd
    rw [trim, hfront, List.reverse_append, hback, List.reverse_reverse]

theorem trim_eq_iff {cs code : List Char} : trim cs = code ↔ Trimmed cs code := by
  constructor
  · rintro rfl
    exact trimmed_trim cs
  · exact trim_of_trimmed

/-- White space at the end belongs to the margin. -/
theorem Trimmed.append_blank {cs code : List Char} {c : Char} (h : Trimmed cs code)
    (hc : isBlank c = true) : Trimmed (cs ++ [c]) code := by
  obtain ⟨left, right, rfl, hleft, hright⟩ := h.margins
  refine ⟨⟨left, right ++ [c], (List.append_assoc ..), hleft, ?_⟩, h.head, h.last⟩
  intro d hd
  rcases List.mem_append.1 hd with hd | hd
  · exact hright d hd
  · rw [List.mem_singleton.1 hd]
    exact hc

theorem trim_dropReturn (line : List Char) : trim (dropReturn line) = trim line := by
  by_cases hreturn : line.getLast? = some '\r'
  · obtain ⟨init, rfl⟩ := List.getLast?_eq_some_iff.1 hreturn
    have hblank : isBlank '\r' = true := by decide
    rw [dropReturn_append]
    exact (trim_eq_iff.2 ((trimmed_trim init).append_blank hblank)).symm
  · rw [dropReturn_of_ne hreturn]

theorem trim_of_no_blank {cs : List Char} (h : ∀ c ∈ cs, isBlank c = false) : trim cs = cs := by
  refine trim_eq_iff.2 ⟨⟨[], [], (List.append_nil cs).symm, nofun, nofun⟩, ?_, ?_⟩
  · exact fun c hc => h c (List.mem_of_mem_head? hc)
  · exact fun c hc => h c (List.mem_of_mem_getLast? hc)

end ByteComputer.Text
