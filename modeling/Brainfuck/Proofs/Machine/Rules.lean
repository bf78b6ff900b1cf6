import Brainfuck.Proofs.Machine.Calls
import Brainfuck.Proofs.Machine.Surroundings

/-! # Rules of a run

How many steps a run may take and how it skips loops are the rules of the run. A step looks at the first
when it begins and at the second when it scans for the end of a loop, and at nothing else of them. So a
machine under other rules takes the same step, as long as the limit is not met and the scan comes to the
same. -/
namespace Brainfuck

/-- The machine under other rules. -/
def Machine.under (m : Machine) (limit : Option Nat) (scan : SkipScan) : Machine :=
  { m with stepLimit := limit, skipScan := scan }

/-- What comes of an operation, when the machine goes on under other rules. -/
def Outcome.under {α : Type} (o : Outcome α) (limit : Option Nat) (scan : SkipScan) : Outcome α :=
  ⟨o.machine.under limit scan, o.events, o.result⟩

namespace Machine

variable {e : Edition} {c : Control} {m : Machine} {limit : Option Nat} {scan : SkipScan}
  {op : Operator} {k : Nat}

lemma under_eq_amid (m : Machine) (limit : Option Nat) (scan : SkipScan) :
    m.under limit scan = m.amid { m.surroundings with stepLimit := limit, skipScan := scan } := rfl

lemma read_under (m : Machine) : (m.under limit scan).read = m.read.under limit scan := by
  have hread : readConsole (m.under limit scan).lineInput (m.under limit scan).console =
    readConsole m.lineInput m.console := rfl
  rw [read, read, hread]
  rcases readConsole m.lineInput m.console with ⟨_ | char, rest⟩
  · rfl
  · have htape : (m.under limit scan).tape.write char.toNat = m.tape.write char.toNat := rfl
    simp only [htape]
    rcases m.tape.write char.toNat with f | tape <;> rfl

/-- The same comes of an operator under other rules, unless it scans for the end of a loop. -/
theorem execute_under (h : op = .loopStart → m.source.skip scan 0 = m.source.skip m.skipScan 0) :
    (m.under limit scan).execute op = (m.execute op).under limit scan := by
  by_cases hop : op = .input
  · subst hop
    exact m.read_under
  · rw [under_eq_amid, execute_amid hop h, ← surroundings_execute hop]
    rfl

/-- Whether the limit is met is all that drawing an operator asks the rules. -/
lemma fetch_under (h : (m.under limit scan).limitReached = m.limitReached) :
    (m.under limit scan).fetch = m.fetch.under limit scan := by
  rw [under_eq_amid] at h ⊢
  rw [fetch_amid h, ← surroundings_fetch]
  rfl

/-- The same comes of a step under other rules, if these agree on whether the limit is met and on what a
scan comes to. -/
theorem step_under (hlimit : (m.under limit scan).limitReached = m.limitReached)
    (hscan : ∀ x events, m.fetch = ⟨x, events, .ok (some .loopStart)⟩ →
      x.source.skip scan 0 = x.source.skip x.skipScan 0) :
    (m.under limit scan).step = m.step.under limit scan := by
  rw [step, step, fetch_under hlimit]
  rcases hfetch : m.fetch with ⟨x, events, f | _ | op⟩
  · rfl
  · rfl
  · have hexecute : (x.under limit scan).execute op = (x.execute op).under limit scan :=
      execute_under fun hop => hscan x events (hop ▸ hfetch)
    simp only [Outcome.bind, Outcome.under, complete, hexecute]
    rcases x.execute op with ⟨x', more, f | _⟩ <;> rfl

/-! ## Calls of a step -/

lemma Step.stepLimit_eq {c' : Control} {o : Outcome Bool} (hstep : Step e m c c' o) :
    o.machine.stepLimit = m.stepLimit := by
  cases hstep with
  | finished | limit | ended => rfl
  | done _ _ _ _ hx | fault _ _ _ _ hx => exact hx.unchanged.stepLimit

/-- A run keeps its limit. -/
lemma At.stepLimit_afterCalls (h : m.At e c) (k : Nat) : (m.afterCalls k).stepLimit = m.stepLimit := by
  obtain ⟨-, -, hlimit⟩ := h.afterCalls_induction (P := fun _ m' _ => m'.stepLimit = m.stepLimit) rfl
    (fun _ hlimit hstep => hstep.stepLimit_eq.trans hlimit) k
  exact hlimit

end Machine

end Brainfuck
