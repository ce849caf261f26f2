import ByteComputer.Proofs.Stack
import ByteComputer.Proofs.StackFloor

/-!
# Return addresses

A routine that is called finds its way back. The cell that the call has filled lies above all that
the routine pushes, so it holds the address to return to until the routine pops it.

* `Taken.Spares`: what a step must not do inside a routine.
* `Machine.Inside`: the invariant between a call and its return; `Machine.inside_or_back` is what
  one step makes of it, `Machine.inside_of_history` what a whole history does.
* `Machine.return_address_kept`: the stack pointer comes back to where it was before the call, not
  past it, and a return that brings it there goes on behind the call.
-/

namespace ByteComputer

/-! ## What a routine may do -/

/-- The step moves the stack pointer only by pushing and by popping into other registers, and
stores nothing to the cell. -/
structure Taken.Spares (slot : UInt8) (s : Taken) : Prop where
  moves : ∀ i, s.Executes i → s.after.sp ≠ s.before.sp →
    i.opcode.stacks = true ∧ i ≠ .pop Register.stackPointer
  spared : ∀ r v, s.Executes (.store r v) → s.before.register r ≠ slot

/-- What may happen inside a routine: runs begin, and steps are taken that spare the cell. -/
def Event.Spares (slot : UInt8) : Event → Prop
  | started => True
  | stepped s => s.Spares slot
  | _ => False

/-- The event is a step that ends with the stack pointer at `base`. -/
def Event.BringsTo (base : UInt8) : Event → Prop
  | stepped s => s.after.sp = base
  | _ => False

theorem Event.Spares.own {slot : UInt8} {e : Event} (h : e.Spares slot) : ¬ e.Foreign := by
  cases e with
  | loaded | written => cases h
  | reset | started | stepped => exact id

namespace Machine

/-! ## One instruction -/

/-- The stack pointer goes up by one at a time, unless it is set to a value. -/
theorem sp_execute_le_succ {m : Machine} {i : Instruction} (hready : m.ready = .ok i)
    (hguarded : m.config.guardCall = true)
    (hi : (m.execute i).sp ≠ m.sp → i.opcode.stacks = true ∧ i ≠ .pop Register.stackPointer) :
    (m.execute i).sp.toNat ≤ m.sp.toNat + 1 := by
  by_cases hsame : (m.execute i).sp = m.sp
  · rw [hsame]
    omega
  · obtain ⟨hstacks, hother⟩ := hi hsame
    cases i with
    | push source =>
      have hdown := (push_above_floor hready (Or.inl rfl)).1
      omega
    | call target =>
      have hdown := (push_above_floor hready (Or.inr ⟨rfl, hguarded⟩)).1
      omega
    | pop target =>
      have htarget : target ≠ Register.stackPointer := by
        rintro rfl
        exact hother rfl
      have hset := sp_setRegister_of_ne m m.top htarget
      have hlt := sp_lt_of_ready hready (Or.inl rfl)
      rw [← hset] at hlt ⊢
      exact Nat.le_of_eq (toNat_sp_dropTop hlt)
    | ret => exact Nat.le_of_eq (toNat_sp_dropTop (sp_lt_of_ready hready (Or.inr rfl)))
    | _ => cases hstacks

/-- A cell just below `base` is out of reach for what is pushed further down. -/
theorem read_execute_of_spared {m : Machine} {i : Instruction} {base : UInt8} (hsp : m.sp ≠ base)
    (hi : ∀ r v, i = .store r v → m.register r ≠ base - 1) :
    (m.execute i).read (base - 1) = m.read (base - 1) := by
  by_cases hkept : (m.execute i).read (base - 1) = m.read (base - 1)
  · exact hkept
  · rcases eq_of_read_execute hkept with ⟨r, v, rfl, hr⟩ | ⟨-, hpushed⟩
    · exact absurd hr.symm (hi r v rfl)
    · exact absurd ((UInt8.sub_left_inj 1).1 hpushed).symm hsp

/-! ## Inside a routine -/

/-- The machine is in a routine that was called with the stack pointer at `base`, and that is to
return to the address `back`. -/
structure Inside (base back : UInt8) (m : Machine) : Prop where
  below : m.sp < base
  slot : m.read (base - 1) = back
  guarded : m.config.guardCall = true

theorem inside_of_call {m : Machine} {target : Register} (hready : m.ready = .ok (.call target))
    (hguarded : m.config.guardCall = true) :
    (m.execute (.call target)).Inside m.sp (m.pc + 2) where
  below := by
    have hdown := (push_above_floor hready (Or.inr ⟨rfl, hguarded⟩)).1
    exact UInt8.lt_iff_toNat_lt.2 (by omega)
  slot := (m.read_pushByte _ _).trans (if_pos rfl)
  guarded := by
    rw [config_execute]
    exact hguarded

/-- A step inside a routine either stays inside or brings the stack pointer back; and if it is a
return that does so, it goes to the address to return to. -/
theorem inside_or_back {base back : UInt8} {s : Taken} (h : s.before.Inside base back)
    (hs : s.Spares (base - 1)) :
    s.after.Inside base back ∨ s.after.sp = base ∧ (s.Executes .ret → s.after.pc = back) := by
  rcases s.executes_or_state with ⟨i, hi⟩ | ⟨state, hstate⟩
  · obtain ⟨hready, hafter⟩ := Taken.execute_of_executes hi
    have hbelow := UInt8.lt_iff_toNat_lt.1 h.below
    have hsp : s.before.sp ≠ base := UInt8.ne_of_lt h.below
    have hup : s.after.sp.toNat ≤ s.before.sp.toNat + 1 := by
      have hstacks := hs.moves i hi
      rw [hafter] at hstacks ⊢
      exact sp_execute_le_succ hready h.guarded hstacks
    have hslot : s.after.read (base - 1) = back := by
      rw [hafter, read_execute_of_spared hsp, h.slot]
      rintro r v rfl
      exact hs.spared r v hi
    by_cases hback : s.after.sp = base
    · refine Or.inr ⟨hback, fun hret => ?_⟩
      -- the cell that the return has popped is the one that the call has filled
      obtain rfl := Taken.eq_of_executes hi hret
      have hpopped : s.before.sp + 1 = base := by
        rw [← hback, hafter]
        exact (sp_dropTop s.before).symm
      rw [hafter]
      show s.before.read s.before.sp = back
      rw [UInt8.eq_sub_iff_add_eq.2 hpopped]
      exact h.slot
    · have hne : s.after.sp.toNat ≠ base.toNat := fun heq => hback (UInt8.toNat_inj.1 heq)
      exact Or.inl ⟨UInt8.lt_iff_toNat_lt.2 (by omega), hslot, s.config_after ▸ h.guarded⟩
  · rw [hstate]
    exact Or.inl ⟨h.below, h.slot, h.guarded⟩

/-! ## Along a history -/

/-- As long as no step has brought the stack pointer back, the machine has been inside the routine,
before every step and at the end. -/
structure InsideAlong (base back : UInt8) (es : List Event) (m : Machine) : Prop where
  now : (∀ e ∈ es, ¬ e.BringsTo base) → m.Inside base back
  before : ∀ fs s gs, es = fs ++ .stepped s :: gs → (∀ e ∈ fs, ¬ e.BringsTo base) →
    s.before.Inside base back

theorem InsideAlong.append {base back : UInt8} {es : List Event} {e : Event} {m n : Machine}
    (h : InsideAlong base back es m) (hstep : ∀ s, e = .stepped s → s.before = m)
    (hnow : m.Inside base back → ¬ e.BringsTo base → n.Inside base back) :
    InsideAlong base back (es ++ [e]) n where
  now := by
    intro hnone
    exact hnow (h.now fun f hf => hnone f (List.mem_append_left _ hf)) (hnone e (by simp))
  before := by
    intro fs s gs hsplit hnone
    rcases mid_of_append_singleton hsplit with ⟨rfl, he, -⟩ | ⟨hs, hsplit, -⟩
    · rw [hstep s he]
      exact h.now hnone
    · exact h.before fs s hs hsplit hnone

theorem inside_of_history {origin n : Machine} {base back : UInt8} {es : List Event}
    (horigin : origin.Inside base back) (h : origin.History es n)
    (hes : ∀ e ∈ es, e.Spares (base - 1)) : InsideAlong base back es n := by
  refine History.induction_own
    (P := fun es n => (∀ e ∈ es, e.Spares (base - 1)) → InsideAlong base back es n)
    ?start ?reset ?started ?stepped h (fun e he => (hes e he).own) hes
  case start => exact fun _ => ⟨fun _ => horigin, fun fs s gs hsplit => by simp at hsplit⟩
  case reset =>
    intro es m _ hes
    exact (hes .reset (by simp)).elim
  case started =>
    intro es m ih hes
    have hm := ih fun e he => hes e (List.mem_append_left _ he)
    refine hm.append (fun s hs => ?_) fun hinside _ => ?_
    · cases hs
    · exact ⟨hinside.below, hinside.slot, hinside.guarded⟩
  case stepped =>
    intro κ _ es m c ih hes
    have hm := ih fun e he => hes e (List.mem_append_left _ he)
    have hspares : (m.taken c).Spares (base - 1) := hes (.stepped (m.taken c)) (by simp)
    refine hm.append (fun s hs => ?_) fun hinside haway => ?_
    · cases hs
      rfl
    · exact (inside_or_back (s := m.taken c) hinside hspares).resolve_right fun h => haway h.1

/-- **A routine returns to where it was called.** After a guarded call, and as long as the stack
pointer is moved only by pushing and popping and nothing is stored to the cell that the call has
filled, the stack pointer stays below its old value until a step brings it back to that value. If
that step is a return, it goes on behind the call. -/
theorem return_address_kept {κ : Type} [Console κ] {m n : Machine} {c : κ} {target : Register}
    {es : List Event} (hguarded : m.config.guardCall = true)
    (hcall : (m.taken c).Executes (.call target)) (hhistory : (m.step c).machine.History es n)
    (hes : ∀ e ∈ es, e.Spares (m.sp - 1)) :
    ((∀ e ∈ es, ¬ e.BringsTo m.sp) → n.sp < m.sp) ∧
    ∀ fs s gs, es = fs ++ .stepped s :: gs → (∀ e ∈ fs, ¬ e.BringsTo m.sp) →
      s.before.sp < m.sp ∧
        (s.after.sp < m.sp ∨ s.after.sp = m.sp ∧ (s.Executes .ret → s.after.pc = m.pc + 2)) := by
  obtain ⟨hready, hafter⟩ := Taken.execute_of_executes hcall
  have hentry : (m.step c).machine.Inside m.sp (m.pc + 2) := by
    show (m.taken c).after.Inside m.sp (m.pc + 2)
    rw [hafter]
    exact inside_of_call hready hguarded
  have hinside := inside_of_history hentry hhistory hes
  refine ⟨fun hnone => (hinside.now hnone).below, fun fs s gs hsplit hnone => ?_⟩
  have hbefore := hinside.before fs s gs hsplit hnone
  have hspares : s.Spares (m.sp - 1) := hes (.stepped s) (by simp [hsplit])
  exact ⟨hbefore.below, (inside_or_back hbefore hspares).imp_left Inside.below⟩

/-- A call from the last two cells of the memory returns to the first one. -/
theorem return_address_kept_at_wrap :
    let memory := ((Memory.zero.write 0xFE 0x50).write 0xFF 7).write 0xF4 0x11
    let m := { powerOn {} with memory, pc := 0xFE }
    let routine := m.execute (.call 7)
    let s := routine.taken Transcript.empty
    (m.taken Transcript.empty).Executes (.call 7) ∧
      (m.step Transcript.empty).machine.History [.stepped s] s.after ∧
      s.Executes .ret ∧ s.after.sp = 0xF4 ∧ s.after.pc = 0 := by
  intro memory m routine s
  have hguarded : m.config.guardCall = true := rfl
  have hentry : m.sp = 0xF4 := rfl
  have hbehind : m.pc + 2 = 0 := by decide
  have hcall : (m.taken Transcript.empty).Executes (.call 7) := executes_taken rfl rfl
  have hfetch : routine.fetch = .ok .ret := fetch_eq_ok_iff.2 ⟨by decide, trivial⟩
  have hresult : (routine.step Transcript.empty).result = .ok .running :=
    (result_step_eq_ok_iff rfl hfetch _).2 ⟨by decide, fun o ho => (by cases ho), rfl⟩
  have hret : s.Executes .ret := executes_taken hresult hfetch
  have hdown : routine.sp = m.sp - 1 := sp_pushByte m (m.pc + 2)
  have hroutine : m.execute (.call 7) = routine := rfl
  -- from here on the two machines need not be looked into
  clear_value routine m
  have hsp : s.after.sp = m.sp := by
    rw [(Taken.execute_of_executes hret).2]
    show routine.dropTop.sp = m.sp
    rw [sp_dropTop, hdown, UInt8.sub_add_cancel]
  have hafter : (m.step Transcript.empty).machine = routine :=
    (Taken.execute_of_executes hcall).2.trans hroutine
  have hhistory : (m.step Transcript.empty).machine.History [.stepped s] s.after := by
    rw [hafter]
    exact .step .start Transcript.empty
  have hspares : s.Spares (m.sp - 1) := by
    constructor
    · intro i hi _
      cases Taken.eq_of_executes hi hret
      exact ⟨rfl, nofun⟩
    · intro r v hi
      cases Taken.eq_of_executes hi hret
  have hes : ∀ e ∈ [Event.stepped s], e.Spares (m.sp - 1) := by
    intro e he
    cases List.mem_singleton.1 he
    exact hspares
  obtain ⟨-, hparts⟩ := return_address_kept hguarded hcall hhistory hes
  obtain ⟨-, hreturn⟩ := hparts [] s [] rfl (by simp)
  rcases hreturn with hlow | ⟨-, hback⟩
  · exact absurd hsp (UInt8.ne_of_lt hlow)
  · exact ⟨hcall, hhistory, hret, hsp.trans hentry, (hback hret).trans hbehind⟩

end Machine

end ByteComputer
