import Brainfuck.Proofs.Tree.Store

/-! # The course of a run

A run goes on between the operators of its program until it is behind all of them, unless a limit ends
it before. Cells that hold no more than characters are never at fault, and then every call of a step
that is not the last one carries out one operator. -/
namespace Brainfuck.Machine

open Brackets

variable {e : Edition} {c c' : Control} {m : Machine} {op : Operator} {i k n : Nat} {ls : List Nat}

/-- A run that goes on has not passed the end of the program, and one that is over has, unless it was
ended by the limit. -/
structure Course (e : Edition) (c : Control) (m : Machine) : Prop where
  halted_finished : m.halted = true → m.finished = true
  limit_finished : m.hitStepLimit = true → m.finished = true ∧ m.halted = false
  live : m.finished = false ∨ m.hitStepLimit = true → c.index ≤ e.operators.length
  ended : m.finished = true → m.hitStepLimit = false → c.index = e.operators.length + 1
  index_le : c.index ≤ e.operators.length + 1

lemma Course.not_halted (h : m.Course e c) (hf : m.finished = false) : m.halted = false := by
  by_contra hm
  simp [h.halted_finished (by simpa using hm)] at hf

lemma Course.not_limited (h : m.Course e c) (hf : m.finished = false) : m.hitStepLimit = false := by
  by_contra hm
  simp [(h.limit_finished (by simpa using hm)).1] at hf

/-- An operator leads past the end of the program exactly when it halts the machine. -/
theorem Executes.index_le {o : Outcome Unit} (hx : Executes e m ⟨i + 1, ls⟩ op c' o)
    (hi : i < e.operators.length) (hls : ∀ l ∈ ls, l ≤ e.operators.length) (hm : m.halted = false) :
    if o.machine.halted then c'.index = e.operators.length + 1 else c'.index ≤ e.operators.length := by
  cases hx with
  | action _ a =>
    obtain ⟨tape, console, output, hmachine⟩ := m.execute_action a
    simp only [hmachine, hm]
    exact hi
  | enter | stray | leave => simpa [entered, outside, hm] using Nat.succ_le_of_lt hi
  | skip _ _ hk => simpa [withSource, hm] using (skipEnd_bounds hk).2
  | halt => simp
  | again => simpa [withSource, hm] using hls _ (.head _)

theorem Course.step {o : Outcome Bool} (h : m.Course e c) (hat : m.At e c)
    (hstep : Step e m c c' o) : o.machine.Course e c' := by
  cases hstep with
  | finished => exact h
  | limit hf =>
    have hle := h.live (.inl hf)
    exact ⟨fun _ => rfl, fun _ => ⟨rfl, h.not_halted hf⟩, fun _ => hle, by simp, by omega⟩
  | ended hf _ hop =>
    have hle := h.live (.inl hf)
    have hge := List.getElem?_eq_none_iff.1 hop
    exact ⟨fun _ => rfl, fun hl => by simp [h.not_limited hf] at hl, by simp [h.not_limited hf],
      fun _ _ => by simp; omega, by simp; omega⟩
  | done hf _ hop _ hx =>
    have hfin := hx.unchanged.finished.trans hf
    have hlim := hx.unchanged.hitStepLimit.trans (h.not_limited hf)
    have hindex := hx.index_le (List.getElem?_eq_some_iff.1 hop).1 hat.loops_le (h.not_halted hf)
    split at hindex
    · constructor <;> simp_all [counted]
    · constructor <;> simp_all [counted]
      omega
  | fault hf _ hop _ hx =>
    obtain ⟨rfl, a, rfl, ho⟩ := hx.of_fault
    obtain ⟨tape, console, output, hmachine⟩ := (m.drawn _ a.operator).execute_action a
    have hlt := (List.getElem?_eq_some_iff.1 hop).1
    have hhalted := h.not_halted hf
    have hlim := h.not_limited hf
    rw [ho] at hmachine
    constructor <;> simp_all [drawn]
    all_goals omega

theorem ofText_course (s : Settings) (text : Array UInt8) (console : List Char) :
    (ofText s text console).Course (.ofSettings s text) {} := by
  constructor <;> simp [ofText, start]

/-! ## Cells that are characters -/

lemma Plain.drawn (h : m.Plain) (s : Source) (op : Operator) : (m.drawn s op).Plain :=
  ⟨h.cellMax_le, h.lineInput⟩

theorem Plain.executes {o : Outcome Unit} (h : m.Plain) (hx : Executes e m c op c' o) :
    o.result = .ok () ∧ o.machine.Plain ∧ o.machine.tape.cellMax = m.tape.cellMax := by
  have hline := hx.unchanged.lineInput.trans h.lineInput
  cases hx with
  | action _ a =>
    obtain ⟨hok, -, hmax⟩ := h.execute_action a
    exact ⟨hok, ⟨hmax ▸ h.cellMax_le, hline⟩, hmax⟩
  | enter | skip | halt | stray | leave | again => exact ⟨rfl, ⟨h.cellMax_le, hline⟩, rfl⟩

/-- A step of a machine whose cells are characters is never at fault. -/
theorem Plain.step {o : Outcome Bool} (h : m.Plain) (hstep : Step e m c c' o) :
    (∃ b, o.result = .ok b) ∧ o.machine.Plain ∧ o.machine.tape.cellMax = m.tape.cellMax := by
  cases hstep with
  | finished | limit | ended => exact ⟨⟨_, rfl⟩, ⟨h.cellMax_le, h.lineInput⟩, rfl⟩
  | done _ _ _ _ hx =>
    obtain ⟨-, hplain, hmax⟩ := (h.drawn _ _).executes hx
    exact ⟨⟨_, rfl⟩, ⟨hplain.cellMax_le, hplain.lineInput⟩, hmax⟩
  | fault _ _ _ _ hx => simpa using ((h.drawn _ _).executes hx).1

theorem Plain.afterCalls (h : m.Plain) (hat : m.At e c) (k : Nat) :
    ∃ c', (m.afterCalls k).At e c' ∧ (m.afterCalls k).Plain :=
  hat.afterCalls_induction (P := fun _ m _ => m.Plain) h (fun _ h hstep => (h.step hstep).2.1) k

/-- While a run goes on, every call of a step counts one. The step that counted last carried out the
operator that it drew, and nothing has changed since. -/
theorem Plain.last_call (h : m.Plain) (hat : m.At e c) (hsteps : m.steps = 0) (n : Nat) :
    ((m.afterCalls n).finished = false → (m.afterCalls n).steps = n) ∧
      ((m.afterCalls n).steps = 0 → (m.afterCalls n).halted = m.halted) ∧
      ∀ k, (m.afterCalls n).steps = k + 1 → ∃ x events op,
        (m.afterCalls k).fetch = ⟨x, events, .ok (some op)⟩ ∧
          (m.afterCalls n).tape = (x.execute op).machine.tape ∧
          (m.afterCalls n).output = (x.execute op).machine.output ∧
          (m.afterCalls n).halted = (x.execute op).machine.halted := by
  induction n with
  | zero => exact ⟨fun _ => hsteps, fun _ => rfl, fun k hk => by simp [hsteps] at hk⟩
  | succ n ih =>
    obtain ⟨c', hat', hplain⟩ := h.afterCalls hat n
    have hsucc : m.afterCalls (n + 1) = (m.afterCalls n).step.machine := rfl
    obtain ⟨x, events, hfetch, hfin, htape, houtput, hcount, hhalted⟩ |
      ⟨s, op, hf, hop, hs, hfetch⟩ := hat'.fetch_cases
    · have hstep : (m.afterCalls n).step.machine = x := by rw [step_of_none hfetch]
      rw [hsucc, hstep, hfin, htape, houtput, hcount, hhalted]
      exact ⟨by simp, ih.2⟩
    · obtain ⟨c'', hx⟩ := (hat'.drawn hs op).executes hop
      have hok := ((hplain.drawn s op).executes hx).1
      have hcount := hx.unchanged.steps.trans (ih.1 hf)
      have hstep : (m.afterCalls n).step.machine =
          (((m.afterCalls n).drawn s op).execute op).machine.counted := by
        rcases ho : ((m.afterCalls n).drawn s op).execute op with ⟨m', events, result⟩
        obtain rfl : result = .ok () := by simpa [ho] using hok
        rw [step_of_ok hfetch ho]
      rw [hsucc, hstep]
      refine ⟨fun _ => by simp [counted, hcount], fun h0 => by simp [counted] at h0, fun k hk => ?_⟩
      obtain rfl : n = k := by simpa [counted, hcount] using hk
      exact ⟨_, _, op, hfetch, rfl, rfl, rfl⟩

theorem ofText_plain (s : Settings) (text : Array UInt8) (console : List Char)
    (hmax : s.cellMax ≤ lastCodePoint) : (ofText s text console).Plain := ⟨hmax, rfl⟩

/-- No call of a step is at fault. -/
lemma Plain.ok_afterCalls (h : m.Plain) (hat : m.At e c) (k : Nat) :
    ∃ b, (m.afterCalls k).step.result = .ok b := by
  obtain ⟨c', hat', hplain⟩ := h.afterCalls hat k
  obtain ⟨c'', hstep⟩ := hat'.step
  exact (hplain.step hstep).1

/-- Without a fault, a run is so many calls of a step. -/
theorem Plain.run_eq (h : m.Plain) (hat : m.At e c) (n : Nat) :
    m.run n =
      ⟨(m.afterCalls n).withSource (m.afterCalls n).source.closed, m.callEvents n, .ok ()⟩ :=
  hat.run_eq fun k _ => h.ok_afterCalls hat k

end Brainfuck.Machine
