import ByteComputer.Proofs.Machine.Loading
import ByteComputer.Proofs.ProgramText

/-!
# Layouts of a program

A program can be written as a text in many ways: each byte on a line of its own, with zeros in front of
its digits, white space at both ends and a comment, and between the bytes any lines that hold none. All
of them are read as that program.

* `Program.Layout`: a way to write a program, and the text that it gives.
* `Program.Line.code_chars`: the code on a written line is the numeral of its byte.
* `Program.Layout.yields`: the lines of a written text yield the program.
* `Program.layouts_read_back`: reading the text of a layout, and loading what was read.
-/

namespace ByteComputer.Program

open Text (isBlank isBlank_of_isDigit)

/-! ## Writing -/

/-- White space within a line. -/
structure Margin where
  chars : List Char
  blank : ∀ c ∈ chars, isBlank c = true
  flat : '\n' ∉ chars

def Margin.empty : Margin := ⟨[], nofun, nofun⟩

def Margin.single (c : Char) (hblank : isBlank c = true) (hflat : c ≠ '\n') : Margin where
  chars := [c]
  blank := by
    intro d hd
    rw [List.mem_singleton.1 hd]
    exact hblank
  flat := by
    rw [List.mem_singleton]
    exact hflat.symm

/-- What stands behind the `#` of a comment. -/
structure Comment where
  chars : List Char
  flat : '\n' ∉ chars

/-- A line: white space, the numeral of a byte or nothing, white space, and a comment or none. -/
structure Line where
  left : Margin
  /-- The number of zeros in front of the digits of the byte, and the byte. -/
  numeral? : Option (Nat × UInt8)
  right : Margin
  comment? : Option Comment

/-- How a line ends. -/
inductive LineEnd where
  | feed
  | returnFeed

def LineEnd.chars : LineEnd → List Char
  | feed => ['\n']
  | returnFeed => ['\r', '\n']

/-- A way to write a program: lines with their ends, and perhaps a last line without an end. -/
structure Layout where
  lines : List (Line × LineEnd)
  last? : Option Line

namespace Line

/-- The byte on a line. -/
def byte? (l : Line) : Option UInt8 := l.numeral?.map Prod.snd

/-- The numeral on a line. -/
def code (l : Line) : List Char :=
  match l.numeral? with
  | some (zeros, b) => Numeral.padded 2 zeros b.toNat
  | none => []

def remark (l : Line) : List Char :=
  match l.comment? with
  | some comment => '#' :: comment.chars
  | none => []

def chars (l : Line) : List Char := l.left.chars ++ l.code ++ l.right.chars ++ l.remark

end Line

namespace Layout

/-- The bytes on the lines, in their order. -/
def program (layout : Layout) : List UInt8 :=
  layout.lines.filterMap (fun line => line.1.byte?) ++ (layout.last?.bind Line.byte?).toList

def text (layout : Layout) : List Char :=
  (layout.lines.flatMap fun (l, e) => l.chars ++ e.chars) ++ (layout.last?.map Line.chars).getD []

end Layout

/-! ## One line -/

namespace Line

variable (l : Line)

theorem isDigit_of_mem_code {c : Char} (h : c ∈ l.code) : c.isDigit = true := by
  unfold code at h
  split at h
  · exact Numeral.isDigit_of_mem_padded (by omega) (by omega) h
  · cases h

theorem newline_not_mem_chars : '\n' ∉ l.chars := by
  have hcode : '\n' ∉ l.code := fun h => absurd (l.isDigit_of_mem_code h) (by decide)
  have hremark : '\n' ∉ l.remark := by
    unfold remark
    split
    · rename_i comment _
      intro h
      rcases List.mem_cons.1 h with h | h
      · cases h
      · exact comment.flat h
    · exact List.not_mem_nil
  simp only [chars, List.mem_append, not_or]
  exact ⟨⟨⟨l.left.flat, hcode⟩, l.right.flat⟩, hremark⟩

/-- The code on a written line is what was written there as a numeral. -/
theorem code_chars : Code l.chars l.code := by
  have hdigit : ∀ c ∈ l.code, isBlank c = false := fun c hc =>
    isBlank_of_isDigit (l.isDigit_of_mem_code hc)
  refine ⟨l.left.chars ++ l.code ++ l.right.chars, ⟨⟨l.remark, rfl, ?_⟩, ?_⟩, ?_⟩
  · intro c hc
    unfold remark at hc
    split at hc
    · exact (Option.some.inj hc).symm
    · cases hc
  · intro hmem
    have hnot : isBlank '#' = false := by decide
    rcases List.mem_append.1 hmem with hmem | hright
    · rcases List.mem_append.1 hmem with hleft | hcode
      · exact absurd (l.left.blank _ hleft) (by rw [hnot]; exact Bool.false_ne_true)
      · exact absurd (l.isDigit_of_mem_code hcode) (by decide)
    · exact absurd (l.right.blank _ hright) (by rw [hnot]; exact Bool.false_ne_true)
  · refine ⟨⟨l.left.chars, l.right.chars, rfl, l.left.blank, l.right.blank⟩, ?_, ?_⟩
    · intro c hc
      exact hdigit c (List.mem_of_mem_head? hc)
    · intro c hc
      exact hdigit c (List.mem_of_mem_getLast? hc)

end Line

/-- A carriage return at the end of a line is white space or part of a comment. -/
theorem code_dropReturn (line : List Char) : code (Text.dropReturn line) = code line := by
  by_cases hreturn : line.getLast? = some '\r'
  · obtain ⟨init, rfl⟩ := List.getLast?_eq_some_iff.1 hreturn
    obtain ⟨body, hbody, htrim⟩ := code_iff.2 (rfl : code init = code init)
    obtain ⟨comment, hinit, hhead⟩ := hbody.comment
    rw [Text.dropReturn_append, eq_comm]
    apply code_iff.1
    cases comment with
    | nil =>
      rw [List.append_nil] at hinit
      have hplain : '#' ∉ body ++ ['\r'] := by
        simpa using hbody.plain
      have hblank : isBlank '\r' = true := by decide
      exact ⟨body ++ ['\r'], ⟨⟨[], by simp [hinit], nofun⟩, hplain⟩, htrim.append_blank hblank⟩
    | cons c comment =>
      refine ⟨body, ⟨⟨c :: comment ++ ['\r'], ?_, ?_⟩, hbody.plain⟩, htrim⟩
      · rw [hinit, List.append_assoc]
      · exact hhead
  · rw [Text.dropReturn_of_ne hreturn]

/-! ## All lines -/

/-- A line that holds the code of a written line counts for the byte on that. -/
theorem yields_cons {l : Line} {line : List Char} {ls : List (List Char)} {p : List UInt8}
    (hline : code line = l.code) (h : Yields ls p) : Yields (line :: ls) (l.byte?.toList ++ p) := by
  have hcode : Code line l.code := code_iff.2 hline
  unfold Line.code at hcode
  unfold Line.byte?
  cases hnumeral : l.numeral? with
  | none =>
    rw [hnumeral] at hcode
    exact .blank (blank_iff.2 hcode) h
  | some numeral =>
    obtain ⟨zeros, b⟩ := numeral
    rw [hnumeral] at hcode
    have hbyte := Numeral.byte?_padded (by omega : 1 < 2) (by omega) zeros b
    exact .good ⟨_, hcode, Numeral.byte?_two_eq_some_iff.1 hbyte⟩ h

/-- A written line with its end is the first of the lines that it begins. -/
theorem Line.lines_append (l : Line) (e : LineEnd) (rest : List Char) :
    ∃ line, Text.lines (l.chars ++ e.chars ++ rest) = line :: Text.lines rest ∧
      Program.code line = l.code := by
  have hcode := code_iff.1 l.code_chars
  cases e with
  | feed =>
    refine ⟨Text.dropReturn l.chars, ?_, (code_dropReturn _).trans hcode⟩
    rw [LineEnd.chars, List.append_assoc]
    exact Text.lines_append l.newline_not_mem_chars rest
  | returnFeed =>
    have hfeed : '\n' ∉ l.chars ++ ['\r'] := by
      simpa using l.newline_not_mem_chars
    have hsplit : l.chars ++ ['\r', '\n'] ++ rest = l.chars ++ ['\r'] ++ '\n' :: rest := by simp
    refine ⟨l.chars, ?_, hcode⟩
    rw [LineEnd.chars, hsplit, Text.lines_append hfeed, Text.dropReturn_append]

theorem Line.byte?_of_code {l : Line} (h : l.code = []) : l.byte? = none := by
  unfold code at h
  unfold byte?
  cases hnumeral : l.numeral? with
  | none => rfl
  | some numeral =>
    rw [hnumeral] at h
    exact absurd h (Numeral.padded_ne_nil _ _ _)

/-- A written line without an end is a line, unless nothing is written there. -/
theorem Line.yields_lines (l : Line) : Yields (Text.lines l.chars) l.byte?.toList := by
  have hcode := code_iff.1 l.code_chars
  by_cases hne : l.chars = []
  · rw [hne] at hcode ⊢
    rw [Line.byte?_of_code hcode.symm]
    exact .nil
  · rw [Text.lines_of_not_mem l.newline_not_mem_chars hne, ← List.append_nil l.byte?.toList]
    exact yields_cons hcode .nil

namespace Layout

variable (l : Line) (e : LineEnd) (lines : List (Line × LineEnd)) (last? : Option Line)

theorem text_cons : text ⟨(l, e) :: lines, last?⟩ = l.chars ++ e.chars ++ text ⟨lines, last?⟩ := by
  simp only [text, List.flatMap_cons, List.append_assoc]

theorem program_cons :
    program ⟨(l, e) :: lines, last?⟩ = l.byte?.toList ++ program ⟨lines, last?⟩ := by
  simp only [program, List.filterMap_eq_flatMap_toList, List.flatMap_cons, List.append_assoc]

/-- The lines of a written text yield the program that was written. -/
theorem yields (layout : Layout) : Yields (Text.lines layout.text) layout.program := by
  obtain ⟨lines, last?⟩ := layout
  induction lines with
  | nil =>
    cases last? with
    | none => exact .nil
    | some l => exact l.yields_lines
  | cons first lines ih =>
    obtain ⟨l, e⟩ := first
    obtain ⟨line, hlines, hcode⟩ := l.lines_append e (text ⟨lines, last?⟩)
    rw [text_cons, program_cons, hlines]
    exact yields_cons hcode ih

/-! ## Plain layouts -/

/-- A line with nothing but the digits of a byte. -/
def plainLine (b : UInt8) : Line := ⟨.empty, some (0, b), .empty, none⟩

/-- The layout without anything that could be left out. -/
def plain (p : List UInt8) : Layout := ⟨p.map fun b => (plainLine b, .feed), none⟩

theorem program_plain (p : List UInt8) : (plain p).program = p := by
  have hbyte : ∀ b, (plainLine b).byte? = some b := fun _ => rfl
  simp [program, plain, List.filterMap_map, hbyte]

end Layout

/-! ## Reading -/

/-- **A program is read back from every layout.** Every sequence of bytes can be written, and however
it is written, the text is read as these bytes, or as too long if they are more than 256. A machine
that loads what was read holds the bytes and zeros behind them, and begins at address 0. -/
theorem layouts_read_back (p : List UInt8) :
    (∃ layout : Layout, layout.program = p) ∧
    ∀ layout : Layout, layout.program = p →
      (p.length ≤ 256 → parse layout.text = .ok p ∧
        ∀ m : Machine, ∃ loaded, m.load p = .ok loaded ∧ loaded.pc = 0 ∧
          loaded.memory.cells.toList = p ++ List.replicate (256 - p.length) 0) ∧
      (256 < p.length → parse layout.text = .error (.tooLarge p.length)) := by
  refine ⟨⟨.plain p, Layout.program_plain p⟩, ?_⟩
  rintro layout rfl
  refine ⟨fun hsize => ⟨parse_of_verdict (.accepted layout.yields hsize), fun m => ?_⟩,
    fun hsize => parse_of_verdict (.tooLarge layout.yields hsize)⟩
  obtain ⟨loaded, hload⟩ := Machine.exists_load_iff.2 hsize
  exact ⟨loaded, hload, Machine.pc_of_load hload, Machine.cells_of_load hload⟩

/-- Two bytes among comments, blank lines, carriage returns and white space that is not ASCII. -/
def mixed : Layout where
  lines := [
    (⟨.single ' ' rfl (by simp), none, .empty, some ⟨['#', 'a', '\r'], by simp⟩⟩, .feed),
    (⟨.single '\u2028' rfl (by simp), some (2, 130), .single '\u0085' rfl (by simp), none⟩, .returnFeed),
    (⟨.single '\r' rfl (by simp), none, .single '\t' rfl (by simp), none⟩, .feed)]
  last? := some ⟨.empty, some (0, 1), .single ' ' rfl (by simp), some ⟨[' ', 'e'], by simp⟩⟩

theorem layouts_read_back_mixed :
    mixed.text = " ##a\r\n\u20280010000010\u0085\r\n\r\t\n1 # e".toList ∧
    parse mixed.text = .ok [130, 1] ∧
    (∃ loaded, (Machine.powerOn {}).load [130, 1] = .ok loaded ∧ loaded.pc = 0 ∧
      loaded.memory.cells.toList = [130, 1] ++ List.replicate 254 0) ∧
    parse (Layout.plain (List.replicate 257 130)).text = .error (.tooLarge 257) := by
  have hmixed := (layouts_read_back [130, 1]).2 mixed rfl
  have hlong := (layouts_read_back (List.replicate 257 130)).2 _ (Layout.program_plain _)
  have hread := hmixed.1 (by decide)
  rw [List.length_replicate] at hlong
  exact ⟨by decide +kernel, hread.1, hread.2 _, hlong.2 (by omega)⟩

end ByteComputer.Program
