import ByteComputer.Proofs.Execution.Basic

/-!
# Exit statuses of programs in files

What the exit status of a process says about the file it was given and the program in it, as long as
the console can be flushed.

* `Execution.exists_ofFile_iff`: the execution of a file comes to an end if the file holds no program
  or the loop of that program ends.
* `Execution.ofFile_of_flushes`: what it ends with, if the file holds a program.
* `Execution.classified_ofFile`: which status it has, for every file and every console.
-/

namespace ByteComputer

namespace Program

variable {path : String} {contents : Except SystemError (List UInt8)}

/-- What reading the file gave is not the text of a program. -/
def Malformed (contents : Except SystemError (List UInt8)) : Prop :=
  ∃ bytes, contents = .ok bytes ∧
    (Utf8.decode? bytes = none ∨
      ∃ text error, Utf8.decode? bytes = some text ∧ parse text = .error error)

theorem malformed_iff (path : String) :
    Malformed contents ↔
      (∃ bytes, contents = .ok bytes) ∧ ∃ error, ofFile path contents = .error error := by
  unfold Malformed ofFile
  constructor
  · rintro ⟨bytes, rfl, hdecode | ⟨text, error, hdecode, hparse⟩⟩
    · exact ⟨⟨bytes, rfl⟩, .notText path, by simp only [hdecode]⟩
    · exact ⟨⟨bytes, rfl⟩, error, by simp only [hdecode, hparse]⟩
  · rintro ⟨⟨bytes, rfl⟩, error, hfile⟩
    refine ⟨bytes, rfl, ?_⟩
    cases hdecode : Utf8.decode? bytes with
    | none => exact Or.inl rfl
    | some text =>
      simp only [hdecode] at hfile
      exact Or.inr ⟨text, error, rfl, hfile⟩

theorem unreadable_or_malformed {error : LoadError} (h : ofFile path contents = .error error) :
    ((∃ why, contents = .error why) ∧ ¬ Malformed contents ∧ error.status.code = 2) ∨
      ((¬ ∃ why, contents = .error why) ∧ Malformed contents ∧ error.status.code = 3) := by
  rcases status_of_ofFile h with ⟨⟨why, rfl⟩, hstatus⟩ | ⟨⟨bytes, rfl⟩, hstatus⟩
  · refine Or.inl ⟨⟨why, rfl⟩, ?_, by rw [hstatus]; rfl⟩
    rintro ⟨bytes, hbytes, -⟩
    cases hbytes
  · refine Or.inr ⟨?_, (malformed_iff path).2 ⟨⟨bytes, rfl⟩, error, h⟩, by rw [hstatus]; rfl⟩
    rintro ⟨why, hwhy⟩
    cases hwhy

end Program

namespace Execution

variable {κ : Type} [Console κ] {path : String} {contents : Except SystemError (List UInt8)}
  {config : Config} {program : List UInt8} {c : κ} {e : Execution κ}

theorem exists_load_of_ofFile (hfile : Program.ofFile path contents = .ok program) (m : Machine) :
    ∃ fresh, m.load program = .ok fresh := by
  obtain ⟨text, -, hparse⟩ := Program.ofFile_eq_ok_iff.1 hfile
  exact Machine.exists_load_iff.2 (Program.length_of_parse hparse)

/-- When an execution of a file comes to an end. -/
theorem exists_ofFile_iff :
    (∃ fuel e, ofFile fuel path contents config c = some e) ↔
      (∃ error, Program.ofFile path contents = .error error) ∨
        ∃ program fresh t, Program.ofFile path contents = .ok program ∧
          (Machine.powerOn config).load program = .ok fresh ∧ fresh.LoopEnds c t := by
  cases hfile : Program.ofFile path contents with
  | error error => simp [ofFile_of_error hfile]
  | ok program =>
    obtain ⟨fresh, hload⟩ := exists_load_of_ofFile hfile (Machine.powerOn config)
    constructor
    · rintro ⟨fuel, e, h⟩
      rw [ofFile_of_program hfile] at h
      obtain ⟨e', he', -⟩ := Option.map_eq_some_iff.1 h
      obtain ⟨t, hloop, -⟩ := (exists_ofProgram_iff hload).1 ⟨fuel, he'⟩
      exact Or.inr ⟨program, fresh, t, rfl, hload, hloop⟩
    · rintro (⟨error, herror⟩ | ⟨_, fresh', t, hok, hload', hloop⟩)
      · cases herror
      · cases hok
        obtain ⟨fuel, h⟩ := (exists_ofProgram_iff hload').2 ⟨t, hloop, rfl⟩
        have hends := ofFile_of_program hfile fuel config c
        rw [h, Option.map_some] at hends
        exact ⟨fuel, _, hends⟩

/-- On a console that can be flushed, an execution ends with what the loop ends with, and a fault is
put into the context of the file. -/
theorem ofFile_of_flushes (hflush : Console.Flushes c)
    (hfile : Program.ofFile path contents = .ok program) {fuel : Nat}
    (h : ofFile fuel path contents config c = some e) :
    ∃ fresh t, (Machine.powerOn config).load program = .ok fresh ∧ fresh.LoopEnds c t ∧
      e.result =
        match t.result with
        | .ok _ => .ok t.machine
        | .error fault => .error (.context (contextOf path) (.failure (.machine fault))) := by
  obtain ⟨fresh, hload⟩ := exists_load_of_ofFile hfile (Machine.powerOn config)
  rw [ofFile_of_program hfile] at h
  obtain ⟨e', he', rfl⟩ := Option.map_eq_some_iff.1 h
  obtain ⟨t, hloop, rfl⟩ := (exists_ofProgram_iff hload).1 ⟨fuel, he'⟩
  refine ⟨fresh, t, hload, hloop, ?_⟩
  have hresult := result_conclude t
  rw [hloop.flushFault?_eq_none hflush] at hresult
  simp only [loggedAfter, inContext, ofTransition, hresult, Machine.machine_conclude]
  cases t.result with
  | ok s => rfl
  | error fault => rfl

/-! ## The classification -/

/-- How an execution of the program that a file holds is told from others by its status. -/
structure Classified (path : String) (contents : Except SystemError (List UInt8)) (config : Config)
    (c : κ) (e : Execution κ) : Prop where
  unreadable : e.status.code = 2 ↔ ∃ why, contents = .error why
  malformed : e.status.code = 3 ↔ Program.Malformed contents
  /-- Otherwise the program is run, and the status is that of the end of its loop. -/
  run : ∀ text program, Program.Holds contents text → Program.parse text = .ok program →
    ∃ fresh t, (Machine.powerOn config).load program = .ok fresh ∧ fresh.LoopEnds c t ∧
      (∀ m, e.result = .ok m ↔ t.result = .ok .halted ∧ m = t.machine) ∧
      (e.status.code = 4 ↔ ∃ k pc, t.result = .error (.unknownOpcode k pc)) ∧
      (e.status.code = 5 ↔ ∃ sp pc, t.result = .error (.stackOverflow sp pc) ∨
        t.result = .error (.stackUnderflow sp pc)) ∧
      (e.status.code = 6 ↔ ∃ i pc, t.result = .error (.noSuchRegister i pc)) ∧
      (e.status.code = 1 ↔ ∃ why, t.result = .error (.outputRefused why))
  /-- A fault has one context and comes right behind it; an error of the file has none. -/
  chain : ∀ r, e.result = .error r →
    (∃ error, Program.ofFile path contents = .error error ∧
      r.chain = .failure (.load error) :: (Failure.load error).sources.map .source) ∨
    ∃ program fault, Program.ofFile path contents = .ok program ∧
      (∀ size, fault ≠ .programTooLarge size) ∧ fault ≠ .halted ∧
      r.chain = .context ("while running '" ++ path ++ "'") :: .failure (.machine fault) ::
        (Failure.machine fault).sources.map .source

theorem classified_of_error {error : LoadError}
    (hfile : Program.ofFile path contents = .error error)
    (hresult : e.result = .error (.failure (.load error))) : Classified path contents config c e := by
  have hstatus : e.status = error.status := by
    simp only [status, hresult, Report.status_load]
  constructor
  case unreadable =>
    rw [hstatus]
    rcases Program.unreadable_or_malformed hfile with ⟨hwhy, -, hcode⟩ | ⟨hwhy, -, hcode⟩
    · exact iff_of_true hcode hwhy
    · exact iff_of_false (by rw [hcode]; decide) hwhy
  case malformed =>
    rw [hstatus]
    rcases Program.unreadable_or_malformed hfile with ⟨-, hbad, hcode⟩ | ⟨-, hbad, hcode⟩
    · exact iff_of_false (by rw [hcode]; decide) hbad
    · exact iff_of_true hcode hbad
  case run =>
    intro text program hholds hparse
    rw [Program.ofFile_eq_ok_iff.2 ⟨text, hholds, hparse⟩] at hfile
    cases hfile
  case chain =>
    intro r hr
    rw [hresult] at hr
    cases hr
    exact Or.inl ⟨error, hfile, rfl⟩

theorem classified_of_loop {fresh : Machine} {t : Transition κ}
    (hfile : Program.ofFile path contents = .ok program)
    (hload : (Machine.powerOn config).load program = .ok fresh) (hloop : fresh.LoopEnds c t)
    (hresult : e.result =
      match t.result with
      | .ok _ => .ok t.machine
      | .error fault => .error (.context (contextOf path) (.failure (.machine fault)))) :
    Classified path contents config c e := by
  have hread : ¬ ∃ why, contents = .error why := by
    rintro ⟨why, rfl⟩
    obtain ⟨text, ⟨bytes, hbytes, -⟩, -⟩ := Program.ofFile_eq_ok_iff.1 hfile
    cases hbytes
  have hgood : ¬ Program.Malformed contents := by
    rw [Program.malformed_iff path, hfile]
    rintro ⟨-, error, herror⟩
    cases herror
  have hsame : ∀ text program', Program.Holds contents text →
      Program.parse text = .ok program' → program' = program := by
    intro text program' hholds hparse
    have hfile' : Program.ofFile path contents = .ok program' :=
      Program.ofFile_eq_ok_iff.2 ⟨text, hholds, hparse⟩
    exact Except.ok.inj (hfile'.symm.trans hfile)
  cases hend : t.result with
  | ok s =>
    have hhalted : s = .halted := by
      cases s with
      | running => exact absurd hend hloop.result_ne_running
      | halted => rfl
    subst hhalted
    rw [hend] at hresult
    have hstatus : e.status.code = 0 := by
      simp only [status, hresult]
      rfl
    constructor
    case unreadable => exact iff_of_false (by rw [hstatus]; decide) hread
    case malformed => exact iff_of_false (by rw [hstatus]; decide) hgood
    case run =>
      intro text program' hholds hparse
      rw [hsame text program' hholds hparse]
      refine ⟨fresh, t, hload, hloop, ?_⟩
      simp [hstatus, hresult, hend, eq_comm]
    case chain =>
      intro r hr
      rw [hresult] at hr
      cases hr
  | error fault =>
    rw [hend] at hresult
    have hstatus : e.status = fault.status := by
      simp only [status, hresult, Report.status_context, Report.status_machine]
    obtain ⟨hunknown, hstack, hregister, htooLarge, houtput, -, hnotFound⟩ := fault.code_status_iff
    have hfresh := Machine.state_of_load hload
    have hsize : ∀ size, fault ≠ .programTooLarge size := by
      rintro size rfl
      simpa [hend] using hloop.ending hfresh
    have hrest : fault ≠ .halted := by
      rintro rfl
      simpa [hend] using hloop.ending hfresh
    constructor
    case unreadable => exact iff_of_false (by rw [hstatus]; exact hnotFound) hread
    case malformed =>
      refine iff_of_false ?_ hgood
      rw [hstatus, htooLarge, not_exists]
      exact hsize
    case run =>
      intro text program' hholds hparse
      rw [hsame text program' hholds hparse]
      refine ⟨fresh, t, hload, hloop, ?_⟩
      rw [hstatus, hunknown, hstack, hregister, houtput]
      simp [hresult, hend, hrest]
    case chain =>
      intro r hr
      rw [hresult] at hr
      cases hr
      exact Or.inr ⟨program, fault, hfile, hsize, hrest, rfl⟩

/-- **The exit status tells what went wrong.** On a console that can be flushed, an execution of a
file comes to an end if the file holds no program or the loop of its program ends, and then its
status is that of the first thing that went wrong: the file cannot be read, it holds no program, or
the program comes to a fault of one class or another. Every program that is read can be loaded. -/
theorem classified_ofFile (hflush : Console.Flushes c) :
    (∀ text program, Program.parse text = .ok program →
      ∀ m : Machine, ∃ fresh, m.load program = .ok fresh) ∧
    ((∃ fuel e, ofFile fuel path contents config c = some e) ↔
      (∃ error, Program.ofFile path contents = .error error) ∨
        ∃ program fresh t, Program.ofFile path contents = .ok program ∧
          (Machine.powerOn config).load program = .ok fresh ∧ fresh.LoopEnds c t) ∧
    ∀ fuel e, ofFile fuel path contents config c = some e →
      Classified path contents config c e := by
  refine ⟨?_, exists_ofFile_iff, ?_⟩
  · intro text program hparse m
    exact Machine.exists_load_iff.2 (Program.length_of_parse hparse)
  · intro fuel e h
    cases hfile : Program.ofFile path contents with
    | error error =>
      rw [ofFile_of_error hfile] at h
      cases h
      exact classified_of_error hfile rfl
    | ok program =>
      obtain ⟨fresh, t, hload, hloop, hresult⟩ := ofFile_of_flushes hflush hfile h
      exact classified_of_loop hfile hload hloop hresult

/-- A file with a program that prints, and a console that takes nothing. -/
theorem classified_ofFile_at_refusal :
    let contents : Except SystemError (List UInt8) := .ok "01000111 # print\n+0\r\n".toUTF8.toList
    let c : Limited Transcript := { inner := .empty, writesLeft := some 0 }
    ∃ fuel e r, ofFile fuel "print.ls8" contents {} c = some e ∧ e.status.code = 1 ∧
      e.result = .error r ∧
      ∃ rest, r.chain = .context "while running 'print.ls8'" :: rest := by
  intro contents c
  let program : List UInt8 := [0x47, 0]
  let memory : Memory := ⟨Vector.ofFn fun i => program.getD i 0⟩
  let fresh := { Machine.powerOn {} with memory, stackFloor := 2 }
  let t := fresh.advance 1 c
  have hholds : Program.Holds contents "01000111 # print\n+0\r\n".toList := ⟨_, rfl, by decide +kernel⟩
  have hparse : Program.parse "01000111 # print\n+0\r\n".toList = .ok program := rfl
  have hfile : Program.ofFile "print.ls8" contents = .ok program :=
    Program.ofFile_eq_ok_iff.2 ⟨_, hholds, hparse⟩
  have hload : (Machine.powerOn {}).load program = .ok fresh :=
    Machine.load_eq_ok_iff.2 ⟨memory, if_pos (by decide), rfl⟩
  have hloop : fresh.LoopEnds c t := Machine.loopEnds_advance (by decide +kernel)
  have hresult : t.result = .error (.outputRefused .noSpace) := by decide +kernel
  clear_value t fresh
  have hflush : Console.Flushes c :=
    (Ledger.limited .transcript).flushes ⟨⟨rfl, rfl⟩, rfl, rfl⟩
  obtain ⟨-, hends, hclassified⟩ := @classified_ofFile _ _ "print.ls8" contents {} c hflush
  obtain ⟨fuel, e, h⟩ := hends.2 (Or.inr ⟨program, fresh, t, hfile, hload, hloop⟩)
  have he := hclassified fuel e h
  obtain ⟨fresh', t', hload', hloop', hok, -, -, -, hrefused⟩ := he.run _ program hholds hparse
  cases hload.symm.trans hload'
  rw [hloop'.unique hloop, hresult] at hok hrefused
  cases hend : e.result with
  | ok m => exact absurd ((hok m).1 hend).1 nofun
  | error r =>
    refine ⟨fuel, e, r, h, hrefused.2 ⟨.noSpace, rfl⟩, hend, ?_⟩
    rcases he.chain r hend with ⟨error, herror, -⟩ | ⟨_, fault, -, -, -, hchain⟩
    · cases hfile.symm.trans herror
    · exact ⟨_, hchain⟩

end Execution

end ByteComputer
