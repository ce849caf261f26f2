import ByteComputer.Proofs.SingleSteps
import ByteComputer.Proofs.Text.Lines
import ByteComputer.Proofs.Text.Numerals
import ByteComputer.Proofs.Text.Utf8

/-!
# Printed numbers, read back

The numbers of a transcript are those of its lines, and each line is read apart from the others,
whether or not they are UTF-8. So the numbers that were printed are read back if each of them begins a
line and no line of characters looks like a number.

* `Transcript.Tidy`: outputs of which this is so.
* `Transcript.numbers_append_line`, `Transcript.numbers_append`: whole lines are read apart from what
  stands behind them.
* `Transcript.numberOn_digits`: a line with a printed number is read as that number.
* `Transcript.numbers_of_tidy`: the numbers of tidy outputs.
* `Machine.numbers_attempts`: the numbers of steps that print no character.
* `Transcript.numbers_read_back`: sequences of bytes, of outputs, and runs.
-/

namespace ByteComputer

/-- The value of an output that is a number. -/
def Output.number? : Output → Option UInt8
  | .number value => some value
  | .char _ => none

/-- The value that the next step of the machine prints as a number. -/
def Machine.printed? (m : Machine) : Option UInt8 :=
  match m.state, m.ready with
  | .running, .ok (.printNumber source) => some (m.register source)
  | .running, .ok .halt => if m.config.echoOnHalt then some (m.register .first) else none
  | _, _ => none

namespace Transcript

/-- The transcript that holds the bytes. -/
def ofBytes (bytes : List UInt8) : Transcript := ⟨bytes.toArray⟩

/-- The number that a line is read as. -/
def numberOn (line : List UInt8) : Option UInt8 := Numeral.byte? 10 (Text.trim (Utf8.lossy line))

/-- There are no bytes, or they end with a line feed, so that a line begins behind them. -/
def Ended (bytes : List UInt8) : Prop := bytes = [] ∨ bytes.getLast? = some lineFeed

/-- Of the outputs, those with the bytes of `line` are characters and make up a line. -/
def CharLine (os : List Output) (line : List UInt8) : Prop :=
  ∃ before after, os = before ++ line.map .char ++ after ∧ Ended (before.flatMap Output.bytes) ∧
    lineFeed ∉ line ∧ (after = [] ∨ after.head? = some (.char lineFeed))

/-- Each number begins a line, and no line of characters is read as a number. -/
structure Tidy (os : List Output) : Prop where
  numbers : ∀ before value after, os = before ++ .number value :: after →
    Ended (before.flatMap Output.bytes)
  chars : ∀ line, CharLine os line → numberOn line = none

/-! ## Line by line -/

theorem numbers_ofBytes (bytes : List UInt8) :
    (ofBytes bytes).numbers =
      (Text.lines (Utf8.lossy bytes)).flatMap fun line =>
        (Numeral.byte? 10 (Text.trim line)).toList :=
  List.filterMap_eq_flatMap_toList ..

theorem numbers_line {line : List UInt8} (h : lineFeed ∉ line) :
    (ofBytes line).numbers = (numberOn line).toList := by
  rw [numbers_ofBytes, numberOn]
  by_cases hne : Utf8.lossy line = []
  · rw [hne]
    rfl
  · rw [Text.lines_of_not_mem (Utf8.newline_not_mem_lossy h) hne, List.flatMap_singleton]

/-- Neither the decoding nor the trimming of a line reaches across the line feed behind it. -/
theorem numbers_append_line {line : List UInt8} (h : lineFeed ∉ line) (rest : List UInt8) :
    (ofBytes (line ++ lineFeed :: rest)).numbers =
      (numberOn line).toList ++ (ofBytes rest).numbers := by
  have hfeed : Char.ofNat lineFeed.toNat = '\n' := by decide
  rw [numbers_ofBytes, numbers_ofBytes, numberOn, Utf8.lossy_append_ascii line rest (by decide),
    hfeed, Text.lines_append (Utf8.newline_not_mem_lossy h), List.flatMap_cons, Text.trim_dropReturn]

theorem ended_append_iff {u : List UInt8} (hu : Ended u) (v : List UInt8) :
    Ended (u ++ v) ↔ Ended v := by
  unfold Ended at *
  cases v with
  | nil => simpa using hu
  | cons b v => simp [List.getLast?_append, List.getLast?_cons]

theorem ended_append_lineFeed (bytes : List UInt8) : Ended (bytes ++ [lineFeed]) :=
  .inr (List.getLast?_concat ..)

/-- Bytes that end with a line feed begin with a line. -/
theorem Ended.exists_line {bytes : List UInt8} (h : Ended bytes) (hne : bytes ≠ []) :
    ∃ line rest, bytes = line ++ lineFeed :: rest ∧ lineFeed ∉ line ∧ Ended rest := by
  have hmem : lineFeed ∈ bytes := List.mem_of_getLast? (h.resolve_left hne)
  obtain ⟨line, rest, rfl, hline⟩ := List.eq_append_cons_of_mem hmem
  refine ⟨line, rest, rfl, hline, ?_⟩
  rw [← ended_append_iff (ended_append_lineFeed line), List.append_assoc]
  exact h

theorem numbers_append {u : List UInt8} (hu : Ended u) (v : List UInt8) :
    (ofBytes (u ++ v)).numbers = (ofBytes u).numbers ++ (ofBytes v).numbers := by
  induction hn : u.length using Nat.strongRecOn generalizing u with
  | ind n ih =>
    by_cases hne : u = []
    · rw [hne]
      rfl
    · obtain ⟨line, rest, rfl, hline, hrest⟩ := hu.exists_line hne
      have hlt : rest.length < n := by
        rw [← hn, List.length_append, List.length_cons]
        omega
      rw [List.append_assoc, List.cons_append, numbers_append_line hline, numbers_append_line hline,
        ih rest.length hlt hrest rfl, List.append_assoc]

/-! ## Outputs -/

theorem toList_bytes_after (t : Transcript) (os : List Output) :
    (Console.after t os).bytes.toList = t.bytes.toList ++ os.flatMap Output.bytes := by
  induction os generalizing t with
  | nil => exact (List.append_nil _).symm
  | cons o os ih =>
    show (Console.after (t.append o) os).bytes.toList = _
    rw [ih, toList_bytes_append, List.flatMap_cons, List.append_assoc]

theorem numbers_after_empty (os : List Output) :
    (Console.after empty os).numbers = (ofBytes (os.flatMap Output.bytes)).numbers := by
  unfold numbers chars
  rw [toList_bytes_after]
  rfl

theorem toNat_of_mem_decimal {n : Nat} {c : Char} (h : c ∈ Numeral.decimal n) :
    48 ≤ c.toNat ∧ c.toNat ≤ 57 :=
  Char.isDigit_iff_toNat.1 (Nat.isDigit_of_mem_toDigits (by omega) (by omega) h)

theorem lineFeed_not_mem_digits (value : UInt8) : lineFeed ∉ Output.digits value := by
  intro h
  obtain ⟨c, hc, hfeed⟩ := List.mem_map.1 h
  have hdigit := toNat_of_mem_decimal hc
  have hten : c.toNat = 10 := by
    rw [← Utf8.toNat_toUInt8 (by omega), hfeed]
    rfl
  omega

/-- A printed number is read as it was printed. -/
theorem numberOn_digits (value : UInt8) : numberOn (Output.digits value) = some value := by
  have hlossy : Utf8.lossy (Output.digits value) = Numeral.decimal value.toNat := by
    refine Utf8.lossy_map_toUInt8 fun c hc => ?_
    have hdigit := toNat_of_mem_decimal hc
    omega
  have hblank : ∀ c ∈ Numeral.decimal value.toNat, Text.isBlank c = false := fun c hc =>
    Text.isBlank_of_isDigit (Char.isDigit_iff_toNat.2 (toNat_of_mem_decimal hc))
  rw [numberOn, hlossy, Text.trim_of_no_blank hblank]
  exact Numeral.byte?_padded (by omega) (by omega) 0 value

/-! ## Tidy outputs -/

variable {os : List Output}

theorem CharLine.mem {line : List UInt8} (h : CharLine os line) {b : UInt8} (hb : b ∈ line) :
    Output.char b ∈ os ∧ b ≠ lineFeed := by
  obtain ⟨before, after, rfl, -, hline, -⟩ := h
  exact ⟨by simp [hb], fun heq => hline (heq ▸ hb)⟩

/-- Behind whole lines tidy outputs go on being tidy. -/
theorem Tidy.of_append {first rest : List Output} (h : Tidy (first ++ rest))
    (hfirst : Ended (first.flatMap Output.bytes)) : Tidy rest where
  numbers := by
    rintro before value after rfl
    have hended := h.numbers (first ++ before) value after (List.append_assoc ..).symm
    rw [List.flatMap_append] at hended
    exact (ended_append_iff hfirst _).1 hended
  chars := by
    rintro line ⟨before, after, rfl, hbefore, hline, hafter⟩
    refine h.chars line ⟨first ++ before, after, by simp only [List.append_assoc], ?_, hline, hafter⟩
    rw [List.flatMap_append]
    exact (ended_append_iff hfirst _).2 hbefore

theorem Tidy.of_number {value : UInt8} (h : Tidy (.number value :: os)) : Tidy os := by
  have hended : Ended ([.number value].flatMap Output.bytes) := by
    rw [List.flatMap_singleton]
    exact ended_append_lineFeed (Output.digits value)
  exact Tidy.of_append h hended

theorem bytes_chars (line : List UInt8) : (line.map Output.char).flatMap Output.bytes = line := by
  induction line with
  | nil => rfl
  | cons b line ih => exact congrArg (b :: ·) ih

theorem Tidy.of_line {line : List UInt8} (h : Tidy (line.map .char ++ .char lineFeed :: os)) :
    Tidy os := by
  have hended : Ended ((line.map Output.char ++ [Output.char lineFeed]).flatMap Output.bytes) := by
    rw [List.flatMap_append, bytes_chars]
    exact ended_append_lineFeed line
  rw [← List.singleton_append, ← List.append_assoc] at h
  exact h.of_append hended

/-- A printed number is the first that is read. -/
theorem numbers_cons_number (value : UInt8) (os : List Output) :
    (ofBytes ((Output.number value :: os).flatMap Output.bytes)).numbers =
      value :: (ofBytes (os.flatMap Output.bytes)).numbers := by
  have hline := numbers_append_line (lineFeed_not_mem_digits value) (os.flatMap Output.bytes)
  rw [numberOn_digits] at hline
  rw [List.flatMap_cons, Output.bytes, List.append_assoc]
  exact hline

/-- The numbers of outputs behind characters that have begun a line. -/
theorem numbers_of_begun (line : List UInt8) (hline : lineFeed ∉ line)
    (h : Tidy (line.map .char ++ os)) :
    (ofBytes (line ++ os.flatMap Output.bytes)).numbers = os.filterMap Output.number? := by
  -- the characters of the line are collected until a line feed or the end of the outputs
  induction os generalizing line with
  | nil =>
    have hchars := h.chars line ⟨[], [], rfl, .inl rfl, hline, .inl rfl⟩
    rw [List.flatMap_nil, List.append_nil, numbers_line hline, hchars]
    rfl
  | cons o os ih =>
    cases o with
    | number value =>
      -- a number begins a line, so no other line has been begun
      have hended := h.numbers _ value os rfl
      rw [bytes_chars] at hended
      obtain rfl : line = [] :=
        hended.resolve_right fun hlast => hline (List.mem_of_getLast? hlast)
      have hnext := ih [] nofun (Tidy.of_number h)
      rw [List.nil_append] at hnext ⊢
      rw [numbers_cons_number, hnext]
      rfl
    | char b =>
      by_cases hb : b = lineFeed
      · subst hb
        have hchars := h.chars line ⟨[], _, rfl, .inl rfl, hline, .inr rfl⟩
        have hnext := ih [] nofun (Tidy.of_line h)
        rw [List.nil_append] at hnext
        show (ofBytes (line ++ lineFeed :: os.flatMap Output.bytes)).numbers = _
        rw [numbers_append_line hline, hchars, hnext]
        rfl
      · have hbegun : lineFeed ∉ line ++ [b] := by
          simp [hline, Ne.symm hb]
        have hnext := ih (line ++ [b]) hbegun (by simpa using h)
        rw [List.append_assoc] at hnext
        exact hnext

theorem numbers_of_tidy (h : Tidy os) :
    (ofBytes (os.flatMap Output.bytes)).numbers = os.filterMap Output.number? :=
  numbers_of_begun [] nofun h

/-- Numbers alone are tidy. -/
theorem tidy_map_number (values : List UInt8) : Tidy (values.map .number) where
  numbers := by
    intro before value after heq
    rcases before.eq_nil_or_concat with rfl | ⟨init, o, rfl⟩
    · exact .inl rfl
    · have hmem : o ∈ values.map Output.number := by
        rw [heq]
        simp
      obtain ⟨v, -, rfl⟩ := List.mem_map.1 hmem
      rw [List.concat_eq_append, List.flatMap_append, List.flatMap_singleton, Output.bytes,
        ← List.append_assoc]
      exact ended_append_lineFeed _
  chars := by
    intro line h
    cases line with
    | nil => rfl
    | cons b line =>
      obtain ⟨v, -, hv⟩ := List.mem_map.1 (h.mem List.mem_cons_self).1
      cases hv

end Transcript

/-! ## Runs -/

namespace Machine

variable {κ : Type} [Console κ]

/-- A machine that prints no character offers the number that it prints. -/
theorem offered_of_no_char {m : Machine} (h : ∀ source, m.ready ≠ .ok (.printChar source)) :
    m.offered = m.printed?.toList.map .number := by
  unfold offered printed?
  cases m.state with
  | halted => rfl
  | running =>
    cases hready : m.ready with
    | error fault => rfl
    | ok i =>
      cases i with
      | printChar source => exact absurd hready (h source)
      | halt =>
        dsimp only [output?]
        split
        · rfl
        · rfl
      | _ => rfl

theorem console_attempts (m : Machine) (c : κ) (n : Nat) :
    (m.attempts n c).console =
      Console.after c ((List.range n).flatMap fun k => (m.attempts k c).machine.offered) := by
  induction n with
  | zero => rfl
  | succ n ih =>
    have hstep : (m.attempts (n + 1) c).console =
        Console.after (m.attempts n c).console (m.attempts n c).machine.offered := console_step _ _
    rw [hstep, ih, List.range_succ, List.flatMap_append, List.flatMap_singleton]
    exact List.foldl_append.symm

theorem numbers_attempts {m : Machine} {n : Nat}
    (h : ∀ k, k < n → ∀ source,
      (m.attempts k Transcript.empty).machine.ready ≠ .ok (.printChar source)) :
    (m.attempts n Transcript.empty).console.numbers =
      (List.range n).filterMap fun k => (m.attempts k Transcript.empty).machine.printed? := by
  generalize hvalues :
    (List.range n).filterMap (fun k => (m.attempts k Transcript.empty).machine.printed?) = values
  have hoffered : (List.range n).flatMap (fun k => (m.attempts k Transcript.empty).machine.offered) =
      values.map .number := by
    rw [← hvalues, List.filterMap_eq_flatMap_toList, List.map_flatMap]
    exact List.flatMap_congr fun k hk => offered_of_no_char (h k (List.mem_range.1 hk))
  rw [console_attempts, hoffered, Transcript.numbers_after_empty,
    Transcript.numbers_of_tidy (Transcript.tidy_map_number values), List.filterMap_map]
  exact List.filterMap_some

end Machine

/-- **Printed numbers are read back.** Some lines of a transcript are read apart from what stands behind
them, whatever bytes they hold. So if each number that is written to an empty transcript begins a line,
and no line of characters is read as a number, then the numbers of the transcript are those that were
written, in their order. A run that executes no instruction for printing characters leaves the numbers
that its steps have printed. -/
theorem Transcript.numbers_read_back :
    (∀ u v : List UInt8, Ended u →
      (ofBytes (u ++ v)).numbers = (ofBytes u).numbers ++ (ofBytes v).numbers) ∧
    (∀ os : List Output, Tidy os →
      (Console.after Transcript.empty os).numbers = os.filterMap Output.number?) ∧
    ∀ (m : Machine) (t : Transition Transcript), m.RunsTo Transcript.empty t →
      let before := fun k => (m.started.attempts k Transcript.empty).machine
      ∃ n, m.started.StopsAt Transcript.empty n ∧
        ((∀ k, k < n → ∀ source, (before k).ready ≠ .ok (.printChar source)) →
          t.console.numbers = (List.range n).filterMap fun k => (before k).printed?) := by
  refine ⟨fun u v hu => numbers_append hu v, fun os h => ?_, ?_⟩
  · rw [numbers_after_empty, numbers_of_tidy h]
  · intro m t ht before
    obtain ⟨n, hstops, rfl⟩ := Machine.runsTo_iff_stopsAt.1 ht
    refine ⟨n, hstops, fun hnone => ?_⟩
    have hflush : Console.flush (m.started.attempts n empty).console =
        ((m.started.attempts n empty).console, .ok ()) := rfl
    rw [conclude_of_flush hflush]
    exact Machine.numbers_attempts hnone

/-- A program that loads a value, prints it and halts, on a machine that echoes. -/
def Machine.printing : Machine :=
  (((((powerOn { echoOnHalt := true }).write 0 0x82).write 1 1).write 2 7).write 3 0x47).write 4 1
    |>.write 5 0x01

/-- A number behind a line with a byte that is no UTF-8. -/
theorem Transcript.tidy_broken_line : Tidy [.char 0xC3, .char lineFeed, .number 9] where
  numbers := by
    intro before value after heq
    rcases before with _ | ⟨a, _ | ⟨b, _ | ⟨c, before⟩⟩⟩
    · simp at heq
    · simp at heq
    · simp only [List.cons_append, List.cons.injEq] at heq
      obtain ⟨rfl, rfl, -⟩ := heq
      exact .inr rfl
    · simp at heq
  chars := by
    intro line h
    have hbyte : ∀ b ∈ line, b = 0xC3 := by
      intro b hb
      obtain ⟨hmem, hne⟩ := h.mem hb
      simpa [mt Output.char.inj hne] using hmem
    obtain ⟨n, rfl⟩ : ∃ n, line = List.replicate n 0xC3 := ⟨_, List.eq_replicate_of_mem hbyte⟩
    obtain ⟨before, after, heq, -⟩ := h
    -- the byte is there once
    have hcount := congrArg (List.count (Output.char 0xC3)) heq
    have hone : List.count (Output.char 0xC3) [.char 0xC3, .char lineFeed, .number 9] = 1 := by decide
    rw [hone, List.map_replicate, List.count_append, List.count_append,
      List.count_replicate_self] at hcount
    obtain rfl | rfl : n = 0 ∨ n = 1 := by omega
    · rfl
    · decide +kernel

/-- A sequence that is broken by a line feed, a number behind a line that is no UTF-8, and a run. -/
theorem Transcript.numbers_read_back_amid_broken_utf8 :
    (ofBytes ([0xF0, 0x9F, 10, 0xE2, 0x82, 10] ++ [0xA0, 10, 32, 55, 13, 10])).numbers = [7] ∧
    (Console.after empty [.char 0xC3, .char lineFeed, .number 9]).numbers = [9] ∧
    ∃ t, Machine.printing.RunsTo empty t ∧ t.console.numbers = [7, 0] := by
  obtain ⟨happend, houtputs, hruns⟩ := numbers_read_back
  refine ⟨?_, ?_, ?_⟩
  · rw [happend _ _ (.inr rfl)]
    decide +kernel
  · rw [houtputs _ tidy_broken_line]
    rfl
  · have hstops : Machine.printing.started.StopsAt empty 3 := ⟨by decide +kernel, by decide +kernel⟩
    have hnone : ∀ k, k < 3 → ∀ source,
        (Machine.printing.started.attempts k empty).machine.ready ≠ .ok (.printChar source) := by
      decide +kernel
    have hprinted : (List.range 3).filterMap (fun k =>
        (Machine.printing.started.attempts k empty).machine.printed?) = [7, 0] := by
      decide +kernel
    have hrun := Machine.runsTo_iff_stopsAt.2 ⟨3, hstops, rfl⟩
    obtain ⟨n, hn, hnumbers⟩ := hruns _ _ hrun
    obtain rfl := hn.unique hstops
    exact ⟨_, hrun, (hnumbers hnone).trans hprinted⟩

end ByteComputer
