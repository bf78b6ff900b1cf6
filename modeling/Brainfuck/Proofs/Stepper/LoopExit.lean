import Brainfuck.Proofs.Stepper.Prompts

/-! # Waiting for a loop exit

The command to wait for a loop exit is given inside of a loop, and the governor does not know which loop
that is: it looks only at the operator at hand and at the cell. While no loop is left, those that were open
at the prompt stay open, and more may be entered. So the next prompt is at the first exit from the
innermost loop of these or from a loop inside of it. -/
namespace Brainfuck

namespace Machine

variable {m : Machine} {op : Operator} {frame : Frame} {outer : List Frame}

lemma frames_fetch (m : Machine) : m.fetch.machine.frames = m.frames := by
  unfold fetch
  split
  · rfl
  split
  · rfl
  cases m.source.next with
  | error f => rfl
  | ok d => cases hd : d.operator <;> simp [hd, withSource]

/-- Skipping a loop takes back the note of that loop, or leaves it if the end of the loop is missing. -/
lemma tail_suffix_skipLoop (m : Machine) : m.frames.tail <:+ m.skipLoop.machine.frames := by
  simp only [skipLoop]
  split
  · split
    · exact List.suffix_refl _
    · exact List.tail_suffix _
  · split
    · exact List.suffix_refl _
    · exact List.tail_suffix _
    · exact List.tail_suffix _

/-- Only a closing bracket over a zero leaves a loop that was open. -/
theorem frames_suffix_execute (hop : op = .loopEnd → m.tape.read ≠ 0) :
    m.frames <:+ (m.execute op).machine.frames := by
  obtain rfl | rfl | ⟨a, rfl⟩ := op.bracket_or_action
  · simp only [execute, startLoop]
    split
    · exact List.suffix_cons _ _
    · exact tail_suffix_skipLoop { m with frames := ⟨m.source.position.1, m.location⟩ :: m.frames }
  · simp only [execute, endLoop, if_neg (hop rfl)]
    split
    · exact List.suffix_refl _
    · split <;> exact List.suffix_refl _
  · obtain ⟨tape, console, output, hm⟩ := m.execute_action a
    exact hm ▸ List.suffix_refl _

theorem frames_suffix_complete (hop : op = .loopEnd → m.tape.read ≠ 0) :
    m.frames <:+ (m.complete op).machine.frames := by
  have hexecute := frames_suffix_execute hop
  unfold complete
  rcases hx : m.execute op with ⟨m', events, f | ⟨⟩⟩ <;> rw [hx] at hexecute <;> exact hexecute

/-- A closing bracket over a zero leaves the innermost loop. -/
lemma frames_complete_loopEnd (hframes : m.frames = frame :: outer) (hzero : m.tape.read = 0) :
    (m.complete .loopEnd).machine.frames = outer := by
  simp [complete, execute, endLoop, hframes, hzero, Outcome.bind, Outcome.after, count]

end Machine

namespace Watched

variable {w : Watched} {c : Governor.Call} {f : Frame} {outer : List Frame} {j : Nat}

/-- The next step carries out a closing bracket that leaves the loop of a frame. -/
def Leaves (w : Watched) (f : Frame) : Prop :=
  w.machine.fetch.result = .ok (some .loopEnd) ∧ w.machine.frames = f :: w.step.watched.machine.frames

instance (w : Watched) (f : Frame) : Decidable (w.Leaves f) := inferInstanceAs (Decidable (_ ∧ _))

/-- The call of the governor at which a loop is left, if one is open. -/
def AtExit (c : Governor.Call) : Prop := c.operator = some .loopEnd ∧ c.value = 0

/-- A step carries out the pending operator with the frames and the tape that were there before, unless it
ends at a count that cannot be told. -/
lemma exists_complete (h : w.call? = some c) :
    ∃ (x : Machine) (op : Operator), w.machine.fetch.result = .ok (some op) ∧ c.operator = some op ∧
      c.value = x.tape.read ∧ x.frames = w.machine.frames ∧
      (w.step.watched.machine = (x.complete op).machine ∨ w.step.watched.machine.frames = x.frames ∧
        ∃ g, w.stepper.governor.decide c.operator c.value = (g, .proceed) ∧ g.regime = .counting) := by
  obtain ⟨v, op, d, hpending⟩ := exists_pending h
  have hsettled := v.settle_machine d
  rw [hpending.machine] at hsettled
  have htape : (v.settle d).machine.tape = w.machine.tape := by
    rw [hsettled]
    exact w.machine.sameConsole_fetch.2
  have hframes : (v.settle d).machine.frames = w.machine.frames := by
    rw [hsettled]
    exact w.machine.frames_fetch
  refine ⟨_, op, hpending.result, hpending.operator, by rw [htape, hpending.value], hframes, ?_⟩
  obtain hstep | ⟨hstep, rfl, hregime⟩ := hpending.step_watched
  · exact .inl (congrArg machine hstep)
  · refine .inr ⟨?_, _, hpending.decide_eq, hregime⟩
    rw [hstep, hframes, hpending.machine]
    exact w.machine.frames_fetch

lemma frames_step_of_no_call (h : w.call? = none) : w.step.watched.machine.frames = w.machine.frames := by
  have hframes := w.machine.frames_fetch
  unfold call? at h
  rcases hfetch : w.machine.fetch with ⟨x, events, f | _ | op⟩ <;> rw [hfetch] at h hframes
  · rw [step_of_fetch_error hfetch]
    exact hframes
  · rw [step_of_none hfetch]
    exact hframes
  · simp at h

/-- Unless the step leaves a loop, the loops that are open stay open. -/
theorem frames_suffix_step (hstays : ∀ f, ¬ w.Leaves f) :
    w.machine.frames <:+ w.step.watched.machine.frames := by
  cases hcall : w.call? with
  | none => exact (frames_step_of_no_call hcall).symm ▸ List.suffix_refl _
  | some c =>
    obtain ⟨x, op, hresult, -, -, hframes, hstep | ⟨hstep, -⟩⟩ := exists_complete hcall
    · by_cases hexit : op = .loopEnd ∧ x.tape.read = 0
      · obtain ⟨rfl, hzero⟩ := hexit
        rcases hopen : w.machine.frames with _ | ⟨f, outer⟩
        · exact List.nil_suffix
        · refine absurd ⟨hresult, ?_⟩ (hstays f)
          rw [hstep, Machine.frames_complete_loopEnd (hframes.trans hopen) hzero, hopen]
      · rw [hstep, ← hframes]
        apply Machine.frames_suffix_complete
        exact fun hop hzero => hexit ⟨hop, hzero⟩
    · have hkept : w.machine.frames = w.step.watched.machine.frames := by rw [hstep, hframes]
      exact hkept ▸ List.suffix_refl _

/-- Unless a count runs down, the calls of the governor at a loop exit that are made inside of a loop are
those at which a loop is left. -/
theorem exists_atExit_iff (hframes : w.machine.frames ≠ [])
    (hstill : w.stepper.governor.regime = .counting → w.stepper.governor.remaining ≤ 0) :
    (∃ c ∈ w.call?, AtExit c) ↔ ∃ f, w.Leaves f := by
  constructor
  · rintro ⟨c, hcall, hop, hzero⟩
    obtain ⟨x, op, hresult, hop', hvalue, hx, hstep | ⟨-, g, hdecide, hregime⟩⟩ := exists_complete hcall
    · obtain rfl : op = .loopEnd := Option.some.inj (hop'.symm.trans hop)
      obtain ⟨f, outer, hopen⟩ := List.exists_cons_of_ne_nil hframes
      refine ⟨f, hresult, ?_⟩
      rw [hstep, Machine.frames_complete_loopEnd (hx.trans hopen) (by omega), hopen]
    · obtain ⟨hcounting, hpos, -⟩ := Governor.counted_of_proceed hdecide hregime
      exact absurd (hstill hcounting) (by omega)
  · rintro ⟨f, hresult, hleft⟩
    cases hcall : w.call? with
    | none =>
      have hlength := congrArg List.length (hleft.symm.trans (frames_step_of_no_call hcall).symm)
      simp at hlength
    | some c =>
      refine ⟨c, rfl, ?_⟩
      obtain ⟨x, op, hop, hop', hvalue, hx, hstep⟩ := exists_complete hcall
      obtain rfl : op = .loopEnd := by simpa using hop.symm.trans hresult
      refine ⟨hop', ?_⟩
      by_contra hne
      have hkept : x.frames <:+ w.step.watched.machine.frames := by
        obtain hstep | ⟨hstep, -⟩ := hstep
        · exact hstep ▸ Machine.frames_suffix_complete fun _ hzero => hne (by omega)
        · exact hstep ▸ List.suffix_refl _
      have hlength := hkept.length_le
      rw [hx, hleft, List.length_cons] at hlength
      omega

lemma ne_nil_of_cons_suffix {l : List Frame} (h : f :: outer <:+ l) : l ≠ [] := by
  rintro rfl
  cases List.suffix_nil.1 h

/-- While no loop is left, the loops that are open stay open. -/
lemma frames_suffix_afterCalls (hopen : f :: outer <:+ w.step.watched.machine.frames)
    (hnone : ∀ l < j, ¬ (0 < l ∧ ∃ g, (w.afterCalls l).Leaves g)) (hj : 0 < j) :
    f :: outer <:+ (w.afterCalls j).machine.frames := by
  induction j, hj using Nat.le_induction with
  | base => exact hopen
  | succ j hj ih =>
    have hkept := ih fun l hl => hnone l (Nat.lt_succ_of_lt hl)
    apply hkept.trans
    apply frames_suffix_step
    intro g hleaves
    exact hnone j (Nat.lt_succ_self j) ⟨hj, g, hleaves⟩

/-- While no loop is left, a governor that waits for a loop exit stays as it is. -/
lemma governor_untilLoopExit (hgovernor : w.step.watched.stepper.governor = ⟨.untilLoopExit, 0⟩)
    (hopen : f :: outer <:+ w.step.watched.machine.frames)
    (hnone : ∀ l < j, ¬ (0 < l ∧ ∃ g, (w.afterCalls l).Leaves g)) (hj : 0 < j) :
    (w.afterCalls j).stepper.governor = ⟨.untilLoopExit, 0⟩ := by
  induction j, hj using Nat.le_induction with
  | base => exact hgovernor
  | succ j hj ih =>
    have hbefore : ∀ l < j, ¬ (0 < l ∧ ∃ g, (w.afterCalls l).Leaves g) :=
      fun l hl => hnone l (Nat.lt_succ_of_lt hl)
    have hwaits := ih hbefore
    have hkept := frames_suffix_afterCalls hopen hbefore hj
    change (w.afterCalls j).step.watched.stepper.governor = _
    cases hcall : (w.afterCalls j).call? with
    | none => rw [(step_of_no_call hcall).2.1, hwaits]
    | some c =>
      rw [governor_step hcall, hwaits]
      apply (Governor.waitsFor_untilLoopExit 0).next_eq
      intro hexit
      have hleaves := (exists_atExit_iff (ne_nil_of_cons_suffix hkept) (by simp [hwaits])).1 ⟨c, hcall, hexit⟩
      exact hnone j (Nat.lt_succ_self j) ⟨hj, hleaves⟩

/-- The command to wait for a loop exit, given inside of a loop by a prompt at an instruction that does not
leave it. The next prompt is at the first closing bracket that leaves a loop, and what it leaves is that
loop or one that was entered inside of it since. -/
theorem prompt_after_wait (hprompts : w.Prompts) (hanswer : (Command.read w.stream).1 = .untilLoopExit)
    (hframes : w.machine.frames = f :: outer) (hstays : ¬ w.Leaves f) (j : Nat) :
    (IsLeast {j | 0 < j ∧ (w.afterCalls j).Prompts} j ↔
      IsLeast {j | 0 < j ∧ ∃ g, (w.afterCalls j).Leaves g} j) ∧
    (IsLeast {j | 0 < j ∧ (w.afterCalls j).Prompts} j ↔
      IsLeast {j | 0 < j ∧ ∃ g inner, (w.afterCalls j).Leaves g ∧
        (w.afterCalls j).machine.frames = inner ++ f :: outer} j) := by
  obtain ⟨c, hcall, hprompt⟩ := hprompts
  have hgovernor : w.step.watched.stepper.governor = ⟨.untilLoopExit, 0⟩ := by
    obtain ⟨v, op, d, hpending⟩ := exists_pending hcall
    rw [governor_step hcall, Governor.next_of_prompts hprompt, hpending.answer, hpending.stream, hanswer]
    rfl
  have hopen : f :: outer <:+ w.step.watched.machine.frames := by
    rw [← hframes]
    apply frames_suffix_step
    intro g hleaves
    obtain rfl : g = f := (List.cons.inj (hleaves.2.symm.trans hframes)).1
    exact hstays hleaves
  have hprompts : IsLeast {j | 0 < j ∧ (w.afterCalls j).Prompts} j ↔
      IsLeast {j | 0 < j ∧ ∃ g, (w.afterCalls j).Leaves g} j := by
    apply isLeast_iff_of_agree
    intro j hnone
    apply and_congr_right
    intro hj
    have hkept := frames_suffix_afterCalls hopen hnone hj
    have hwaits := governor_untilLoopExit hgovernor hopen hnone hj
    rw [← exists_atExit_iff (ne_nil_of_cons_suffix hkept) (by simp [hwaits]), Prompts, hwaits]
    simp only [(Governor.waitsFor_untilLoopExit 0).prompts_iff]
    rfl
  have hinside : IsLeast {j | 0 < j ∧ ∃ g inner, (w.afterCalls j).Leaves g ∧
      (w.afterCalls j).machine.frames = inner ++ f :: outer} j ↔
      IsLeast {j | 0 < j ∧ ∃ g, (w.afterCalls j).Leaves g} j := by
    apply isLeast_iff_of_agree
    intro j hnone
    apply and_congr_right
    intro hj
    obtain ⟨inner, hinner⟩ := frames_suffix_afterCalls hopen hnone hj
    simp [← hinner]
  exact ⟨hprompts, hprompts.trans hinside.symm⟩

/-- A single loop that counts down from one. -/
theorem prompt_after_wait_in_countdown :
    let w := (attach (.ofText .standard #[43, 91, 45, 93] []) {} (some ['\n', '\n', 'j', '\n'])).afterCalls 2
    w.Prompts ∧ (Command.read w.stream).1 = .untilLoopExit ∧ w.machine.frames = [⟨2, ⟨1, 2⟩⟩] ∧
      ¬ w.Leaves ⟨2, ⟨1, 2⟩⟩ ∧ IsLeast {j | 0 < j ∧ (w.afterCalls j).Prompts} 1 := by
  intro w
  have hprompts : w.Prompts := by decide +kernel
  have hanswer : (Command.read w.stream).1 = .untilLoopExit := by decide +kernel
  have hframes : w.machine.frames = [⟨2, ⟨1, 2⟩⟩] := by decide +kernel
  have hstays : ¬ w.Leaves ⟨2, ⟨1, 2⟩⟩ := by decide +kernel
  refine ⟨hprompts, hanswer, hframes, hstays, ?_⟩
  refine (prompt_after_wait hprompts hanswer hframes hstays 1).2.2 ⟨?_, ?_⟩
  · exact ⟨Nat.one_pos, ⟨2, ⟨1, 2⟩⟩, [], by decide +kernel, by decide +kernel⟩
  · exact fun l hl => hl.1

/-- In a loop that holds another one, the command that is given at the inner bracket is over when the inner
loop is left, not when the loop is left that was open at the prompt. -/
theorem inner_exit_prompts :
    let w := (attach (.ofText .standard #[43, 91, 91, 45, 93, 93] []) {}
      (some ['\n', '\n', 'j', '\n'])).afterCalls 2
    w.Prompts ∧ (Command.read w.stream).1 = .untilLoopExit ∧ w.machine.frames = [⟨2, ⟨1, 2⟩⟩] ∧
      ¬ w.Leaves ⟨2, ⟨1, 2⟩⟩ ∧
      ¬ ∀ j, IsLeast {j | 0 < j ∧ (w.afterCalls j).Prompts} j ↔
        IsLeast {j | 0 < j ∧ (w.afterCalls j).Leaves ⟨2, ⟨1, 2⟩⟩} j := by
  intro w
  refine ⟨by decide +kernel, by decide +kernel, by decide +kernel, by decide +kernel, ?_⟩
  intro h
  have hquiet : ¬ (w.afterCalls 1).Prompts := by decide +kernel
  have hinner : ¬ (w.afterCalls 2).Leaves ⟨2, ⟨1, 2⟩⟩ := by decide +kernel
  apply hinner
  refine ((h 2).1 ⟨⟨Nat.two_pos, by decide +kernel⟩, ?_⟩).1.2
  rintro l ⟨hl, hprompts⟩
  by_contra hlt
  obtain rfl : l = 1 := by omega
  exact hquiet hprompts

end Watched

end Brainfuck
