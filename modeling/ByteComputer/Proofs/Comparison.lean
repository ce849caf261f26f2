import ByteComputer.Console.Transcript
import ByteComputer.Proofs.History
import Mathlib.Data.List.Induction

/-!
# The latest comparison

The flags are what the latest comparison has made them, if any was made since a program was loaded or
the machine was reset.

* `LatestComparison`: the values that were compared last, in a list of events.
* `Machine.flags_of_history`: the flags are those of the latest comparison.
* `Machine.jump_follows_comparison`: what a jump does, now or after events of other kinds, is decided
  by the latest comparison.
-/

namespace ByteComputer

/-! ## Events and comparisons -/

/-- The step has executed a comparison of the two values. -/
def Event.Compares (x y : UInt8) : Event → Prop
  | stepped s =>
    ∃ lhs rhs, s.Executes (.compare lhs rhs) ∧ s.before.register lhs = x ∧ s.before.register rhs = y
  | _ => False

/-- The event sets the flags to what they are at power-on. -/
def Event.Forgets : Event → Prop
  | loaded _ | reset => True
  | _ => False

instance : DecidablePred Event.Forgets
  | .loaded _ | .reset => .isTrue trivial
  | .written _ _ | .started | .stepped _ => .isFalse id

/-- The event does not concern the flags: another instruction, one that fails, the beginning of a run,
or a cell that is written from outside. -/
def Event.Bystander (e : Event) : Prop := ¬ e.Forgets ∧ ∀ x y, ¬ e.Compares x y

/-- The two values that were compared last, if there were any since the flags were forgotten. -/
inductive LatestComparison (es : List Event) : Option (UInt8 × UInt8) → Prop
  | some {fs gs : List Event} {e : Event} {x y : UInt8} (hes : es = fs ++ e :: gs)
      (hcompares : e.Compares x y) (hlater : ∀ f ∈ gs, f.Bystander) :
      LatestComparison es (some (x, y))
  | none (hforgotten : ∀ fs e gs x y, es = fs ++ e :: gs → e.Compares x y → ∃ f ∈ gs, f.Forgets) :
      LatestComparison es none

/-- The flags that a comparison leaves, or the lack of one. -/
def Flags.after : Option (UInt8 × UInt8) → Flags
  | none => clear
  | some (x, y) => if x = y then equal else if x > y then greater else less

/-- Whether a jump is taken, by the values that were compared last. -/
def Condition.TakenAfter : Condition → Option (UInt8 × UInt8) → Prop
  | always, _ => True
  | notEqual, none => True
  | _, none => False
  | equal, some (x, y) => x = y
  | notEqual, some (x, y) => x ≠ y
  | greater, some (x, y) => x > y
  | less, some (x, y) => x < y
  | lessOrEqual, some (x, y) => x ≤ y
  | greaterOrEqual, some (x, y) => x ≥ y

/-! ## Flags and conditions -/

theorem Flags.compare_eq_after (x y : UInt8) : compare x y = after (some (x, y)) := by
  unfold compare after
  rcases Std.lt_trichotomy x y with h | rfl | h
  · simp [h, UInt8.ne_of_lt h, UInt8.lt_asymm h]
  · simp
  · simp [h, (UInt8.ne_of_lt h).symm, UInt8.lt_asymm h]

theorem Condition.holds_after_iff (condition : Condition) (latest : Option (UInt8 × UInt8)) :
    condition.holds (Flags.after latest) = true ↔ condition.TakenAfter latest := by
  cases latest with
  | none => cases condition <;> simp [holds, Flags.after, TakenAfter]
  | some p =>
    obtain ⟨x, y⟩ := p
    rcases Std.lt_trichotomy x y with h | rfl | h
    · have hne := UInt8.ne_of_lt h
      have hgt := UInt8.lt_asymm h
      have hle := UInt8.le_of_lt h
      cases condition <;> simp [holds, Flags.after, TakenAfter, h, hne, hgt, hle]
    · cases condition <;> simp [holds, Flags.after, TakenAfter]
    · have hne := (UInt8.ne_of_lt h).symm
      have hlt := UInt8.lt_asymm h
      have hge := UInt8.le_of_lt h
      cases condition <;> simp [holds, Flags.after, TakenAfter, h, hne, hlt, hge]

/-! ## The latest comparison in a list of events -/

theorem Event.eq_of_compares {e : Event} {x y x' y' : UInt8} (h : e.Compares x y)
    (h' : e.Compares x' y') : x = x' ∧ y = y' := by
  cases e with
  | stepped s =>
    obtain ⟨lhs, rhs, hs, rfl, rfl⟩ := h
    obtain ⟨lhs', rhs', hs', rfl, rfl⟩ := h'
    obtain ⟨rfl, rfl⟩ := Instruction.compare.inj (Taken.eq_of_executes hs hs')
    exact ⟨rfl, rfl⟩
  | _ => exact h.elim

theorem Event.not_forgets_of_compares {e : Event} {x y : UInt8} (h : e.Compares x y) :
    ¬ e.Forgets := by
  cases e with
  | stepped s => exact id
  | _ => exact h.elim

namespace LatestComparison

variable {es fs : List Event} {e : Event} {x y : UInt8} {latest : Option (UInt8 × UInt8)}

theorem nil_iff : LatestComparison [] latest ↔ latest = .none := by
  constructor
  · rintro (⟨hes, -, -⟩ | -)
    · simp at hes
    · rfl
  · rintro rfl
    exact .none fun fs e gs x y hes => by simp at hes

/-- An event that forgets leaves no comparison. -/
theorem append_forgets_iff (he : e.Forgets) :
    LatestComparison (es ++ [e]) latest ↔ latest = .none := by
  constructor
  · rintro (⟨hes, hcompares, hlater⟩ | -)
    · rcases mid_of_append_singleton hes with ⟨-, rfl, -⟩ | ⟨hs, -, rfl⟩
      · exact absurd he (Event.not_forgets_of_compares hcompares)
      · exact absurd he (hlater e (by simp)).1
    · rfl
  · rintro rfl
    refine .none fun fs f gs x y hes hcompares => ?_
    rcases mid_of_append_singleton hes with ⟨-, rfl, -⟩ | ⟨hs, -, rfl⟩
    · exact absurd he (Event.not_forgets_of_compares hcompares)
    · exact ⟨e, by simp, he⟩

/-- A comparison is the latest when it is made. -/
theorem append_compares_iff (he : e.Compares x y) :
    LatestComparison (es ++ [e]) latest ↔ latest = .some (x, y) := by
  constructor
  · rintro (⟨hes, hcompares, hlater⟩ | hforgotten)
    · rcases mid_of_append_singleton hes with ⟨-, rfl, -⟩ | ⟨hs, -, rfl⟩
      · obtain ⟨rfl, rfl⟩ := Event.eq_of_compares he hcompares
        rfl
      · exact absurd he ((hlater e (by simp)).2 x y)
    · obtain ⟨f, hf, -⟩ := hforgotten es e [] x y rfl he
      exact absurd hf List.not_mem_nil
  · rintro rfl
    exact .some rfl he fun f hf => absurd hf List.not_mem_nil

/-- An event that does not concern the flags leaves the latest comparison what it was. -/
theorem append_bystander_iff (he : e.Bystander) :
    LatestComparison (es ++ [e]) latest ↔ LatestComparison es latest := by
  constructor
  · rintro (⟨hes, hcompares, hlater⟩ | hforgotten)
    · rcases mid_of_append_singleton hes with ⟨-, rfl, -⟩ | ⟨hs, rfl, rfl⟩
      · exact absurd hcompares (he.2 _ _)
      · exact .some rfl hcompares fun f hf => hlater f (List.mem_append_left _ hf)
    · refine .none fun fs f gs x y hes hcompares => ?_
      obtain ⟨g, hg, hforgets⟩ := hforgotten fs f (gs ++ [e]) x y (by simp [hes]) hcompares
      rcases List.mem_append.1 hg with hg | hg
      · exact ⟨g, hg, hforgets⟩
      · cases List.mem_singleton.1 hg
        exact absurd hforgets he.1
  · rintro (@⟨fs, gs, f, x, y, rfl, hcompares, hlater⟩ | hforgotten)
    · refine .some (List.append_assoc fs (f :: gs) [e]) hcompares fun g hg => ?_
      rcases List.mem_append.1 hg with hg | hg
      · exact hlater g hg
      · cases List.mem_singleton.1 hg
        exact he
    · refine .none fun fs f gs x y hes hcompares => ?_
      rcases mid_of_append_singleton hes with ⟨-, rfl, -⟩ | ⟨hs, rfl, rfl⟩
      · exact absurd hcompares (he.2 x y)
      · obtain ⟨g, hg, hforgets⟩ := hforgotten fs f hs x y rfl hcompares
        exact ⟨g, List.mem_append_left _ hg, hforgets⟩

theorem append_bystanders (h : LatestComparison es latest) (hfs : ∀ f ∈ fs, f.Bystander) :
    LatestComparison (es ++ fs) latest := by
  induction fs using List.reverseRecOn with
  | nil => simpa using h
  | append_singleton fs f ih =>
    rw [← List.append_assoc, append_bystander_iff (hfs f (by simp))]
    exact ih fun g hg => hfs g (List.mem_append_left _ hg)

/-- There is always one answer to what was compared last. -/
theorem existsUnique (es : List Event) : ∃! latest, LatestComparison es latest := by
  induction es using List.reverseRecOn with
  | nil => exact ⟨.none, nil_iff.2 rfl, fun _ h => nil_iff.1 h⟩
  | append_singleton es e ih =>
    by_cases hforgets : e.Forgets
    · exact ⟨.none, (append_forgets_iff hforgets).2 rfl, fun _ h => (append_forgets_iff hforgets).1 h⟩
    · by_cases hcompares : ∃ x y, e.Compares x y
      · obtain ⟨x, y, he⟩ := hcompares
        exact ⟨.some (x, y), (append_compares_iff he).2 rfl, fun _ h => (append_compares_iff he).1 h⟩
      · have he : e.Bystander := ⟨hforgets, by simpa using hcompares⟩
        simpa only [append_bystander_iff he] using ih

end LatestComparison

/-! ## The flags along a history -/

/-- A step sets the flags if it executes a comparison, and otherwise leaves them as they are. -/
theorem Taken.flags_after (s : Taken) :
    (∃ x y, (Event.stepped s).Compares x y ∧ s.after.registers.flags = .after (some (x, y))) ∨
      (Event.stepped s).Bystander ∧ s.after.registers.flags = s.before.registers.flags := by
  by_cases hcompares : ∃ lhs rhs, s.Executes (.compare lhs rhs)
  · obtain ⟨lhs, rhs, h⟩ := hcompares
    refine Or.inl ⟨_, _, ⟨lhs, rhs, h, rfl, rfl⟩, ?_⟩
    rw [(execute_of_executes h).2, ← Flags.compare_eq_after]
    rfl
  · refine Or.inr ⟨⟨id, fun x y h => ?_⟩, ?_⟩
    · obtain ⟨lhs, rhs, hs, -, -⟩ := h
      exact hcompares ⟨lhs, rhs, hs⟩
    · rcases s.executes_or_state with ⟨i, hi⟩ | ⟨state, hstate⟩
      · rw [(execute_of_executes hi).2]
        refine Machine.flags_execute fun hop => hcompares ?_
        cases i with
        | compare lhs rhs => exact ⟨lhs, rhs, hi⟩
        | _ => cases hop
      · rw [hstate]

namespace Machine

/-- The flags are what the latest comparison has made them. -/
theorem flags_of_history {config : Config} {m : Machine} {es : List Event}
    {latest : Option (UInt8 × UInt8)} (h : (powerOn config).History es m)
    (hlatest : LatestComparison es latest) : m.registers.flags = .after latest := by
  -- each kind of event does to the flags what it does to the latest comparison
  refine History.induction
    (P := fun es m => ∀ latest, LatestComparison es latest → m.registers.flags = .after latest)
    ?start ?loaded ?reset ?written ?started ?stepped h latest hlatest
  case start =>
    intro latest hlatest
    rw [LatestComparison.nil_iff.1 hlatest]
    rfl
  case loaded =>
    intro es m n program _ hload latest hlatest
    obtain ⟨memory, -, rfl⟩ := load_eq_ok_iff.1 hload
    rw [(LatestComparison.append_forgets_iff (e := .loaded program) trivial).1 hlatest]
    rfl
  case reset =>
    intro es m _ latest hlatest
    rw [(LatestComparison.append_forgets_iff (e := .reset) trivial).1 hlatest]
    rfl
  case written =>
    intro es m address value ih latest hlatest
    exact ih latest ((LatestComparison.append_bystander_iff ⟨id, fun _ _ => id⟩).1 hlatest)
  case started =>
    intro es m ih latest hlatest
    exact ih latest ((LatestComparison.append_bystander_iff ⟨id, fun _ _ => id⟩).1 hlatest)
  case stepped =>
    intro κ _ es m c ih latest hlatest
    rcases (m.taken c).flags_after with ⟨x, y, hcompares, hflags⟩ | ⟨hbystander, hflags⟩
    · rw [(LatestComparison.append_compares_iff hcompares).1 hlatest]
      exact hflags
    · have hbefore := ih latest ((LatestComparison.append_bystander_iff hbystander).1 hlatest)
      exact hflags.trans hbefore

/-! ## Jumps -/

variable {κ : Type} [Console κ]

/-- A jump goes by the flags alone, and never fails. -/
theorem step_of_jump {m : Machine} {condition : Condition} {target : Register}
    (hstate : m.state = .running) (hfetch : m.fetch = .ok (.jump condition target)) (c : κ) :
    (m.step c).result = .ok .running ∧
      (m.step c).machine.pc =
        if condition.holds m.registers.flags then m.register target else m.pc + 2 := by
  have hready : m.ready = .ok (.jump condition target) := ready_eq_ok_iff.2 ⟨hfetch, rfl⟩
  rw [(Outcome.silent hstate hready rfl).eq_step, ← Opcode.length_jump condition]
  exact ⟨congrArg Except.ok hstate, rfl⟩

/-- **Jumps obey the latest comparison.** In whatever way a machine has come about, there is one
answer to which two values were compared last since a program was loaded or the machine was reset, if
any were. The flags tell how these compare. They do so after whatever else happens, and a jump is
taken or not accordingly. -/
theorem jump_follows_comparison {config : Config} {m : Machine} {es : List Event}
    (h : (powerOn config).History es m) :
    (∃! latest, LatestComparison es latest) ∧
    ∀ latest, LatestComparison es latest →
      m.registers.flags = .after latest ∧
      ∀ fs n, m.History fs n → (∀ f ∈ fs, f.Bystander) →
        n.registers.flags = .after latest ∧
        ∀ condition target, n.state = .running → n.fetch = .ok (.jump condition target) →
          ∀ (κ : Type) [Console κ] (c : κ),
            (n.step c).result = .ok .running ∧
            (condition.TakenAfter latest → (n.step c).machine.pc = n.register target) ∧
            (¬ condition.TakenAfter latest → (n.step c).machine.pc = n.pc + 2) := by
  refine ⟨LatestComparison.existsUnique es, fun latest hlatest => ?_⟩
  refine ⟨flags_of_history h hlatest, fun fs n hn hfs => ?_⟩
  have hflags := flags_of_history (h.trans hn) (hlatest.append_bystanders hfs)
  refine ⟨hflags, fun condition target hstate hfetch κ _ c => ?_⟩
  obtain ⟨hresult, hpc⟩ := step_of_jump hstate hfetch c
  rw [hflags] at hpc
  refine ⟨hresult, fun htaken => ?_, fun htaken => ?_⟩
  · rw [hpc, if_pos ((Condition.holds_after_iff _ _).2 htaken)]
  · rw [hpc, if_neg (mt (Condition.holds_after_iff _ _).1 htaken)]

/-- A program that compares two registers, both zero, and then jumps if they are equal. A run begins in
between. -/
theorem jump_follows_comparison_at_equal :
    let program : List UInt8 := [0xA7, 0, 1, 0x55, 2]
    ∃ es m n, (powerOn {}).History (.loaded program :: es) m ∧
      LatestComparison (.loaded program :: es) (some (0, 0)) ∧ m.History [.started] n ∧
      n.fetch = .ok (.jump .equal 2) ∧ n.pc = 3 ∧ n.registers.flags = .equal ∧
      (n.step Transcript.empty).machine.pc = 0 := by
  intro program
  let memory : Memory := ⟨Vector.ofFn fun i => program.getD i 0⟩
  let fresh := { powerOn {} with memory, stackFloor := 5 }
  have hmemory : Memory.ofProgram? program = some memory := if_pos (by decide)
  have hload : (powerOn {}).load program = .ok fresh := load_eq_ok_iff.2 ⟨memory, hmemory, rfl⟩
  have hread := Memory.read_of_ofProgram? hmemory
  have hfetch : fresh.fetch = .ok (.compare 0 1) :=
    fetch_eq_ok_iff.2
      ⟨(hread 0).symm, congrArg UInt8.toNat (hread 1), congrArg UInt8.toNat (hread 2)⟩
  have hresult : (fresh.step Transcript.empty).result = .ok .running :=
    (result_step_eq_ok_iff rfl hfetch _).2 ⟨rfl, nofun, rfl⟩
  have hfetch' : (fresh.execute (.compare 0 1)).fetch = .ok (.jump .equal 2) :=
    fetch_eq_ok_iff.2 ⟨(hread 3).symm, congrArg UInt8.toNat (hread 4)⟩
  have hpc : (fresh.execute (.compare 0 1)).pc = 3 := rfl
  have hstate : (fresh.execute (.compare 0 1)).state = .running := rfl
  have hzero : fresh.register 0 = 0 ∧ fresh.register 1 = 0 := ⟨rfl, rfl⟩
  have htarget : (fresh.execute (.compare 0 1)).register 2 = 0 := rfl
  -- from here on the machine need not be looked into
  clear_value fresh
  have hexecutes := executes_taken hresult hfetch
  have hhistory := (History.start.load hload Transcript.empty).step Transcript.empty
  have hafter : (fresh.step Transcript.empty).machine = fresh.execute (.compare 0 1) :=
    (Taken.execute_of_executes hexecutes).2
  rw [hafter] at hhistory
  have hcompares : (Event.stepped (fresh.taken Transcript.empty)).Compares 0 0 :=
    ⟨0, 1, hexecutes, hzero⟩
  have hlatest : LatestComparison ([.loaded program] ++ [.stepped (fresh.taken Transcript.empty)])
      (some (0, 0)) := (LatestComparison.append_compares_iff hcompares).2 rfl
  obtain ⟨-, hdecides⟩ := jump_follows_comparison hhistory
  have hstarted : (fresh.execute (.compare 0 1)).History [.started]
      { fresh.execute (.compare 0 1) with state := .running } := .during 0 Transcript.empty .start
  rw [running_eq_self hstate] at hstarted
  obtain ⟨-, hlater⟩ := hdecides _ hlatest
  have hbystander : ∀ f ∈ [Event.started], f.Bystander := by
    simp [Event.Bystander, Event.Forgets, Event.Compares]
  obtain ⟨hflags, hjump⟩ := hlater _ _ hstarted hbystander
  obtain ⟨-, htaken, -⟩ := hjump .equal 2 hstate hfetch' Transcript Transcript.empty
  exact ⟨_, _, _, hhistory, hlatest, hstarted, hfetch', hpc, hflags, (htaken rfl).trans htarget⟩

end Machine

end ByteComputer
