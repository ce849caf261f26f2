import ByteComputer.Report

/-!
# Reports under contexts

A context says what was being done when something went wrong. Contexts are shown in front of the
failure, the latest first, and however many there are and whatever they say, the failure decides what
the process ends with.

* `Failure.status`: the status that a failure calls for by itself.
* `Report.under`: a failure under contexts that are added one after the other.
* `Report.chain_under`: its causes, from which status and message are taken.
* `Report.contexts_only_shown`: what contexts do to a report.
-/

namespace ByteComputer

/-- The status that a failure calls for by itself. -/
def Failure.status : Failure → ExitStatus
  | machine fault => fault.status
  | load error => error.status
  | other _ _ => .failure

namespace Report

/-- A failure under contexts that are added one after the other, the first one innermost. -/
def under (why : Failure) (contexts : List String) : Report :=
  contexts.foldl (fun r text => .context text r) (.failure why)

/-! ## Causes -/

/-- Each further context comes in front of the chain. -/
theorem chain_foldl_context (contexts : List String) (r : Report) :
    (contexts.foldl (fun r text => .context text r) r).chain =
      contexts.reverse.map .context ++ r.chain := by
  induction contexts generalizing r with
  | nil => rfl
  | cons text contexts ih =>
    rw [List.foldl_cons, ih, List.reverse_cons, List.map_append, List.append_assoc]
    rfl

theorem chain_under (why : Failure) (contexts : List String) :
    (under why contexts).chain =
      contexts.reverse.map .context ++ .failure why :: why.sources.map .source :=
  chain_foldl_context contexts (.failure why)

/-- Texts alone call for no status, whatever they say. -/
theorem findSome?_status?_map {f : String → Cause} (hf : ∀ text, (f text).status? = none)
    (texts : List String) : (texts.map f).findSome? Cause.status? = none := by
  rw [List.findSome?_eq_none_iff]
  intro cause hcause
  obtain ⟨text, -, rfl⟩ := List.mem_map.1 hcause
  exact hf text

theorem map_text_map {f : String → Cause} (hf : ∀ text, (f text).text = text)
    (texts : List String) : (texts.map f).map Cause.text = texts := by
  rw [List.map_map]
  exact List.map_id'' hf texts

/-! ## Status and message -/

theorem status_failure (why : Failure) : (failure why).status = why.status := by
  cases why with
  | machine fault => rfl
  | load error => rfl
  | other text sources =>
    have hnone : (failure (.other text sources)).chain.findSome? Cause.status? = none :=
      findSome?_status?_map (fun _ => rfl) sources
    rw [status, hnone]
    rfl

theorem status_under (why : Failure) (contexts : List String) :
    (under why contexts).status = (failure why).status := by
  rw [status, chain_under, List.findSome?_append, findSome?_status?_map fun _ => rfl, Option.none_or]
  rfl

theorem message_under (why : Failure) (contexts : List String) :
    (under why contexts).message =
      ": ".intercalate (contexts.reverse ++ why.message :: why.sources) := by
  rw [message, chain_under, List.map_append, List.map_cons, map_text_map fun _ => rfl,
    map_text_map fun _ => rfl]
  rfl

/-- **Contexts are only shown.** Under any contexts a failure has the status that it has by itself:
that of its fault or of its load error, and that of a general failure if it is neither. The message
is the contexts, the latest first, then the text of the failure, then those of its sources. -/
theorem contexts_only_shown (why : Failure) (contexts : List String) :
    (under why contexts).status = (failure why).status ∧ (failure why).status = why.status ∧
      (under why contexts).message =
        ": ".intercalate (contexts.reverse ++ why.message :: why.sources) :=
  ⟨status_under why contexts, status_failure why, message_under why contexts⟩

/-- An empty context, one that reads like a fault of another class, and a source with a further
source behind it. -/
example :
    let why : Failure := .machine (.outputRefused (.causedBy "write failed" (.other "pipe closed")))
    let r := under why ["unknown opcode 0xFF at address 0x00", ""]
    r.status = .failure ∧ r.message =
      ": unknown opcode 0xFF at address 0x00: failed to write to console: write failed: pipe closed" := by
  decide +kernel

end Report

end ByteComputer
