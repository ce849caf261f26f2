import ByteComputer.Machine.Operation
import ByteComputer.Proofs.Console.Flushing
import ByteComputer.Proofs.Console.Recorded

/-!
# How consoles behave

A machine knows of its console only what it answers. So consoles that give the same answers to the
same requests are the same to a machine, whatever they have been through before.

* `Console.BehavesAs`: two consoles give the same answers to all requests; `Console.NeverFails`: all
  answers are good ones.
* `Machine.step_of_ready`: what a step comes to on a console that never fails.
* `Transition.Matches`: transitions that are the same up to their consoles, which behave alike and
  have been asked for the same.
* `Machine.apply_matches`: no operation tells consoles apart that behave alike.
-/

namespace ByteComputer

variable {κ ι : Type} [Console κ] [Console ι]

namespace Console

/-- What a console answers to a request, and the console afterwards. -/
def answer (c : κ) : Call → κ × Except SystemError Unit
  | .write o => Console.write c o
  | .flush => Console.flush c

/-- The answers of a console to requests one after the other. -/
def answers (c : κ) : List Call → List (Except SystemError Unit)
  | [] => []
  | call :: calls => (answer c call).2 :: answers (answer c call).1 calls

/-- The two consoles give the same answers, whatever is asked of both. -/
def BehavesAs (c : κ) (d : ι) : Prop := ∀ calls, answers c calls = answers d calls

/-- The console does all that it is asked for. -/
def NeverFails (c : κ) : Prop := ∀ calls, ∀ a ∈ answers c calls, a = .ok ()

variable {c : κ} {d : ι}

theorem BehavesAs.answer (h : BehavesAs c d) (call : Call) :
    (answer c call).2 = (answer d call).2 ∧ BehavesAs (answer c call).1 (answer d call).1 :=
  ⟨(List.cons.inj (h [call])).1, fun calls => (List.cons.inj (h (call :: calls))).2⟩

theorem NeverFails.answer (h : NeverFails c) (call : Call) :
    (answer c call).2 = .ok () ∧ NeverFails (answer c call).1 :=
  ⟨h [call] _ List.mem_cons_self, fun calls a ha => h (call :: calls) a (List.mem_cons_of_mem _ ha)⟩

theorem NeverFails.behavesAs (hc : NeverFails c) (hd : NeverFails d) : BehavesAs c d := by
  intro calls
  induction calls generalizing c d with
  | nil => rfl
  | cons call calls ih =>
    obtain ⟨hcall, hc'⟩ := hc.answer call
    obtain ⟨hcall', hd'⟩ := hd.answer call
    rw [answers, answers, hcall, hcall', ih hc' hd']

/-- It goes on doing so, whatever is written to it. -/
theorem NeverFails.reaches {c' : κ} (h : NeverFails c) (hc' : Reaches c c') : NeverFails c' := by
  induction hc' with
  | refl => exact h
  | write _ o ih => exact (ih.answer (.write o)).2

/-- A console that does all that it is asked for can be flushed at any time. -/
theorem NeverFails.flushes (h : NeverFails c) : Flushes c := by
  intro d hd
  exact flushFault?_eq_none_iff.2 ((h.reaches hd).answer .flush).1

end Console

/-- A console that keeps books without a limit does all that it is asked for. -/
theorem Ledger.neverFails (A : Ledger κ) {c : κ} {bytes : List UInt8} (h : A.Shows c bytes none) :
    Console.NeverFails c := by
  intro calls
  induction calls generalizing c bytes with
  | nil => exact fun a ha => absurd ha List.not_mem_nil
  | cons call calls ih =>
    cases call with
    | write o =>
      obtain ⟨d, hwrite, hd⟩ := A.taken o h (Option.some_ne_none 0).symm
      rw [Console.answers, Console.answer, hwrite]
      exact List.forall_mem_cons.2 ⟨rfl, ih hd⟩
    | flush =>
      obtain ⟨d, hflush, hd⟩ := A.flushed h
      rw [Console.answers, Console.answer, hflush]
      exact List.forall_mem_cons.2 ⟨rfl, ih hd⟩

/-- A console that never fails does what it is asked for, and goes on doing so. -/
theorem Recorded.exists_answer {r : Recorded κ} (h : Console.NeverFails r.inner) (call : Call) :
    ∃ d, Console.answer r call = (⟨d, r.calls ++ [call]⟩, .ok ()) ∧ Console.NeverFails d := by
  obtain ⟨hanswer, hafter⟩ := h.answer call
  refine ⟨(Console.answer r.inner call).1, ?_, hafter⟩
  cases call with
  | write o => exact Prod.ext rfl hanswer
  | flush => exact Prod.ext rfl hanswer

/-- On a console that never fails a machine executes what it is ready for. -/
theorem Machine.step_of_ready {m : Machine} {r : Recorded κ} {i : Instruction}
    (hr : Console.NeverFails r.inner) (hstate : m.state = .running) (hready : m.ready = .ok i) :
    ∃ d, Console.NeverFails d ∧
      m.step r = ⟨.ok (m.execute i).state, m.execute i,
        ⟨d, r.calls ++ (m.output? i).toList.map .write⟩, m.traceNotes ++ m.notes i⟩ := by
  cases houtput : m.output? i with
  | none =>
    refine ⟨r.inner, hr, ?_⟩
    rw [(Outcome.silent hstate hready houtput).eq_step, Option.toList_none, List.map_nil,
      List.append_nil]
  | some o =>
    obtain ⟨d, hwrite, hd⟩ := Recorded.exists_answer hr (.write o)
    exact ⟨d, hd, (Outcome.written hstate hready houtput hwrite).eq_step⟩

/-! ## Transitions on consoles that behave alike -/

/-- Records of the same requests, made to consoles that behave alike. -/
structure Recorded.Matches (r : Recorded κ) (s : Recorded ι) : Prop where
  calls : r.calls = s.calls
  inner : Console.BehavesAs r.inner s.inner

/-- Transitions that differ in no more than their consoles, and these match. -/
structure Transition.Matches (t : Transition (Recorded κ)) (u : Transition (Recorded ι)) : Prop where
  result : t.result = u.result
  machine : t.machine = u.machine
  log : t.log = u.log
  console : t.console.Matches u.console

variable {r : Recorded κ} {s : Recorded ι}

theorem Recorded.Matches.answer (h : r.Matches s) (call : Call) :
    (Console.answer r call).2 = (Console.answer s call).2 ∧
      (Console.answer r call).1.Matches (Console.answer s call).1 := by
  obtain ⟨hanswer, hinner⟩ := h.inner.answer call
  cases call with
  | write o => exact ⟨hanswer, congrArg (· ++ [Call.write o]) h.calls, hinner⟩
  | flush => exact ⟨hanswer, congrArg (· ++ [Call.flush]) h.calls, hinner⟩

/-- A console that matches gives the answer that the other has given. -/
theorem Recorded.Matches.exists_answer (h : r.Matches s) (call : Call) {r' : Recorded κ}
    {result : Except SystemError Unit} (hr : Console.answer r call = (r', result)) :
    ∃ s', Console.answer s call = (s', result) ∧ r'.Matches s' := by
  obtain ⟨hanswer, hafter⟩ := h.answer call
  rw [hr] at hanswer hafter
  exact ⟨_, Prod.ext rfl hanswer.symm, hafter⟩

theorem Transition.Matches.followedBy {t v : Transition (Recorded κ)} {u w : Transition (Recorded ι)}
    (h : t.Matches u) (hnext : v.Matches w) : (t.followedBy v).Matches (u.followedBy w) where
  result := hnext.result
  machine := hnext.machine
  log := by
    show t.log ++ v.log = u.log ++ w.log
    rw [h.log, hnext.log]
  console := hnext.console

theorem Transition.Matches.goesOn {t : Transition (Recorded κ)} {u : Transition (Recorded ι)}
    (h : t.Matches u) : t.goesOn = u.goesOn := by
  unfold Transition.goesOn
  rw [h.result]

theorem Transition.Matches.conclude {t : Transition (Recorded κ)} {u : Transition (Recorded ι)}
    (h : t.Matches u) : t.conclude.Matches u.conclude := by
  rcases hflush : Console.flush t.console with ⟨d, e | done⟩
  · obtain ⟨d', hflush', hd⟩ := h.console.exists_answer .flush hflush
    rw [conclude_of_flush_error hflush, conclude_of_flush_error hflush']
    exact ⟨rfl, h.machine, h.log, hd⟩
  · obtain ⟨d', hflush', hd⟩ := h.console.exists_answer .flush hflush
    rw [conclude_of_flush hflush, conclude_of_flush hflush', h.result, h.machine, h.log]
    exact ⟨rfl, rfl, rfl, hd⟩

namespace Machine

/-- A step learns nothing from its console but whether a write has failed. -/
theorem step_matches (m : Machine) (h : r.Matches s) : (m.step r).Matches (m.step s) := by
  have ho := m.outcome_step r
  generalize m.step r = t at ho
  cases ho with
  | atRest hstate =>
    rw [(Outcome.atRest hstate).eq_step]
    exact ⟨rfl, rfl, rfl, h⟩
  | faulted hstate hready =>
    rw [(Outcome.faulted hstate hready).eq_step]
    exact ⟨rfl, rfl, rfl, h⟩
  | silent hstate hready houtput =>
    rw [(Outcome.silent hstate hready houtput).eq_step]
    exact ⟨rfl, rfl, rfl, h⟩
  | @written i o d hstate hready houtput hwrite =>
    obtain ⟨d', hwrite', hd⟩ := h.exists_answer (.write o) hwrite
    rw [(Outcome.written hstate hready houtput hwrite').eq_step]
    exact ⟨rfl, rfl, rfl, hd⟩
  | @refused i o d e hstate hready houtput hwrite =>
    obtain ⟨d', hwrite', hd⟩ := h.exists_answer (.write o) hwrite
    rw [(Outcome.refused hstate hready houtput hwrite').eq_step]
    exact ⟨rfl, rfl, rfl, hd⟩

theorem advance_matches (m : Machine) (n : Nat) (h : r.Matches s) :
    (m.advance n r).Matches (m.advance n s) := by
  induction n with
  | zero => exact ⟨rfl, rfl, rfl, h⟩
  | succ n ih =>
    rw [advance_succ_last, advance_succ_last, ih.goesOn]
    split
    · rw [ih.machine]
      exact ih.followedBy (step_matches _ ih.console)
    · exact ih

theorem run_matches (m : Machine) (fuel : Nat) (h : r.Matches s) :
    Option.Rel Transition.Matches (m.run fuel r) (m.run fuel s) := by
  have hsteps := advance_matches m.started fuel h
  unfold started at hsteps
  simp only [run, hsteps.goesOn]
  split
  · exact .none
  · exact .some hsteps.conclude

/-- No operation looks at more of its console than the answers. -/
theorem apply_matches (m : Machine) (fuel : Nat) (op : Operation) (h : r.Matches s) :
    Option.Rel Transition.Matches (m.apply fuel r op) (m.apply fuel s op) := by
  cases op with
  | load program =>
    simp only [apply, install]
    cases m.load program with
    | ok fresh => exact .some ⟨rfl, rfl, rfl, h⟩
    | error fault => exact .some ⟨rfl, rfl, rfl, h⟩
  | reset => exact .some ⟨rfl, rfl, rfl, h⟩
  | write address value => exact .some ⟨rfl, rfl, rfl, h⟩
  | step => exact .some (step_matches m h)
  | run => exact run_matches m fuel h

end Machine

end ByteComputer
