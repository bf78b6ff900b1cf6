import Mathlib.Data.ENat.Lattice
import Mathlib.Order.CompletePartialOrder
import Brainfuck.Proofs.Decoding.Places
import Brainfuck.Proofs.Machine.Rules
import Brainfuck.Proofs.Machine.Stream

/-! # Limited runs

A limit on the steps cuts a run short and changes nothing else. A machine under a limit goes through the
states of the machine without one for as many calls of a step as the limit allows, and the call after them
is the last one: if the run is not over by then, it is refused. So what a limited run comes to is told by
the calls of a step of the unlimited machine, also where that machine would run for ever. -/
namespace Brainfuck

/-- The settings with a limit on the steps. -/
def Settings.limited (s : Settings) (n : Nat) (hn : 0 < n) : Settings :=
  { s with stepLimit := some n, stepLimit_pos := fun _ hm => Option.mem_some.1 hm ▸ hn }

lemma Settings.no_limit_pos : ∀ n ∈ (none : Option Nat), 0 < n := by simp

/-- The settings without a limit on the steps. -/
def Settings.unlimited (s : Settings) : Settings :=
  { s with stepLimit := none, stepLimit_pos := no_limit_pos }

@[simp] lemma Source.location_closed (s : Source) : s.closed.location = s.location := by
  cases s with
  | compiled => rfl
  | stream r =>
    change r.closed.location = r.location
    unfold Reader.closed
    split <;> rfl

namespace Machine

variable {e : Edition} {c c' : Control} {m : Machine} {k n : Nat}

/-! ## Counting steps -/

/-- The steps that are counted in `k` calls of which none was at fault. While the run goes on there is one
for each call, and if it came to an end without halting, some call carried out nothing. -/
structure Paced (m : Machine) (k : Nat) : Prop where
  steps_le : m.steps ≤ k
  live : m.finished = false → m.steps = k
  ended : m.finished = true → m.halted = false → m.steps < k

lemma Paced.step {o : Outcome Bool} (h : m.Paced k) (hstep : Step e m c c' o)
    (hok : ∃ b, o.result = .ok b) : o.machine.Paced (k + 1) := by
  have hle := h.steps_le
  cases hstep with
  | finished hf =>
    exact ⟨Nat.le_succ_of_le hle, by simp [hf], fun _ hm => Nat.lt_succ_of_lt (h.ended hf hm)⟩
  | limit | ended => exact ⟨Nat.le_succ_of_le hle, by simp, fun _ _ => Nat.lt_succ_of_le hle⟩
  | done hf _ _ _ hx =>
    have hsteps := hx.unchanged.steps.trans (h.live hf)
    have hfinished := hx.unchanged.finished.trans hf
    constructor <;> simp_all [counted]
  | fault => simp at hok

lemma Paced.afterCalls (hat : m.At e c) (h : m.Paced 0)
    (hok : ∀ k < n, ∃ b, (m.afterCalls k).step.result = .ok b) : (m.afterCalls n).Paced n := by
  induction n with
  | zero => exact h
  | succ n ih =>
    obtain ⟨c', hat'⟩ := hat.afterCalls n
    obtain ⟨c'', hstep⟩ := hat'.step
    exact (ih fun k hk => hok k (Nat.lt_succ_of_lt hk)).step hstep (hok n (Nat.lt_succ_self n))

lemma At.steps_monotone (hat : m.At e c) : Monotone fun k => (m.afterCalls k).steps := by
  refine monotone_nat_of_le_succ fun k => ?_
  obtain ⟨c', hat'⟩ := hat.afterCalls k
  obtain ⟨c'', hstep⟩ := hat'.step
  change _ ≤ (m.afterCalls k).step.machine.steps
  rcases hstep.tells with ⟨_, _, hsteps⟩ | ⟨_, _, _, _, _, hsteps⟩ | ⟨_, _, _, hsteps⟩
  · exact hsteps.ge
  · exact hsteps ▸ Nat.le_succ _
  · exact hsteps.ge

lemma At.steps_lt (hat : m.At e c) (h : m.Paced 0)
    (hok : ∀ k < n, ∃ b, (m.afterCalls k).step.result = .ok b) (hk : k < n) :
    (m.afterCalls k).steps < n :=
  Nat.lt_of_le_of_lt (h.afterCalls hat fun j hj => hok j (Nat.lt_trans hj hk)).steps_le hk

/-- Nothing comes after the call in which a run is over. -/
lemma afterCalls_of_le (hf : (m.afterCalls n).finished = true) (hk : n ≤ k) :
    m.afterCalls k = m.afterCalls n ∧ m.callEvents k = m.callEvents n := by
  obtain ⟨j, rfl⟩ := Nat.exists_eq_add_of_le hk
  obtain ⟨hmachine, hevents⟩ := afterCalls_finished hf j
  rw [afterCalls_add, callEvents_add, hmachine, hevents, List.append_nil]
  exact ⟨rfl, rfl⟩

/-- A run that is over without a fault has none in any call. -/
lemma ok_of_finished (hok : ∀ k < n, ∃ b, (m.afterCalls k).step.result = .ok b)
    (hf : (m.afterCalls n).finished = true) (k : Nat) :
    ∃ b, (m.afterCalls k).step.result = .ok b := by
  by_cases hk : k < n
  · exact hok k hk
  · rw [(afterCalls_of_le hf (Nat.le_of_not_lt hk)).1]
    exact ⟨false, by rw [step_finished hf]⟩

/-- How many operators are carried out in all, if the run may be of any length. -/
noncomputable def executed (m : Machine) : ℕ∞ := ⨆ n, ((m.run n).machine.steps : ℕ∞)

lemma At.steps_run (hat : m.At e c) (hok : ∀ k < n, ∃ b, (m.afterCalls k).step.result = .ok b) :
    (m.run n).machine.steps = (m.afterCalls n).steps := by
  rw [hat.run_eq hok]
  rfl

/-- Once a run is over, its steps are all that there are. -/
lemma At.executed_eq (hat : m.At e c) (hok : ∀ k < n, ∃ b, (m.afterCalls k).step.result = .ok b)
    (hf : (m.afterCalls n).finished = true) : m.executed = (m.afterCalls n).steps := by
  refine le_antisymm (iSup_le fun k => Nat.cast_le.2 ?_) ?_
  · rw [hat.steps_run fun i _ => ok_of_finished hok hf i]
    rcases Nat.le_total k n with hk | hk
    · exact hat.steps_monotone hk
    · rw [(afterCalls_of_le hf hk).1]
  · rw [← hat.steps_run hok]
    exact le_iSup (fun n => ((m.run n).machine.steps : ℕ∞)) n

/-- After `n` calls of a step `n` operators were carried out, or all that there are. -/
theorem At.steps_eq_min (hat : m.At e c) (h : m.Paced 0)
    (hok : ∀ k < n, ∃ b, (m.afterCalls k).step.result = .ok b) :
    ((m.afterCalls n).steps : ℕ∞) = min (n : ℕ∞) m.executed := by
  have hpaced := h.afterCalls hat hok
  cases hf : (m.afterCalls n).finished with
  | true =>
    rw [hat.executed_eq hok hf, min_eq_right (Nat.cast_le.2 hpaced.steps_le)]
  | false =>
    have hsteps := hpaced.live hf
    have hle : ((m.run n).machine.steps : ℕ∞) ≤ m.executed :=
      le_iSup (fun n => ((m.run n).machine.steps : ℕ∞)) n
    rw [hat.steps_run hok, hsteps] at hle
    rw [hsteps, min_eq_left hle]

/-- A run goes on after `n` calls of a step exactly if there are as many operators to carry out and the
last of them did not halt the machine. -/
theorem At.live_iff (hat : m.At e c) (h : m.Paced 0) (hcourse : (m.afterCalls n).Course e c')
    (hok : ∀ k < n, ∃ b, (m.afterCalls k).step.result = .ok b) :
    (m.afterCalls n).finished = false ↔
      (n : ℕ∞) ≤ m.executed ∧ (m.afterCalls n).halted = false := by
  have hpaced := h.afterCalls hat hok
  constructor
  · intro hf
    have hmin := hat.steps_eq_min h hok
    rw [hpaced.live hf, eq_comm, min_eq_left_iff] at hmin
    exact ⟨hmin, hcourse.not_halted hf⟩
  · rintro ⟨hle, hhalted⟩
    by_contra hf
    rw [Bool.not_eq_false] at hf
    rw [hat.executed_eq hok hf, Nat.cast_le] at hle
    exact absurd (hpaced.ended hf hhalted) (Nat.not_lt.2 hle)

/-! ## The limit -/

/-- Without a limit none is met. -/
lemma Step.not_limited {o : Outcome Bool} (hstep : Step e m c c' o) (hfree : m.stepLimit = none)
    (hm : m.hitStepLimit = false) : o.machine.hitStepLimit = false := by
  cases hstep with
  | finished | ended => exact hm
  | limit _ hl => simp [limitReached, hfree] at hl
  | done _ _ _ _ hx | fault _ _ _ _ hx => exact hx.unchanged.hitStepLimit.trans hm

lemma At.not_limited (hat : m.At e c) (hfree : m.stepLimit = none) (hm : m.hitStepLimit = false)
    (k : Nat) : (m.afterCalls k).hitStepLimit = false := by
  obtain ⟨-, -, -, hhit⟩ := hat.afterCalls_induction
    (P := fun _ m' _ => m'.stepLimit = none ∧ m'.hitStepLimit = false) ⟨hfree, hm⟩
    (fun _ h hstep => ⟨hstep.stepLimit_eq.trans h.1, hstep.not_limited h.1 h.2⟩) k
  exact hhit

/-- A limit that is not met changes nothing in a step. -/
lemma At.step_limited (hat : m.At e c) (hfree : m.stepLimit = none) (hlt : m.steps < n) :
    (m.under (some n) e.scan).step = m.step.under (some n) e.scan := by
  refine step_under ?_ fun x events hfetch => ?_
  · simp [limitReached, hfree, under, Nat.not_le_of_lt hlt]
  · obtain ⟨_, _, hnone, -⟩ | ⟨s, op, -, -, -, hsome⟩ := hat.fetch_cases
    · simp [hnone] at hfetch
    · obtain ⟨rfl, -, -⟩ := Outcome.mk.inj (hsome.symm.trans hfetch)
      exact congrArg (s.skip · 0) hat.scan.symm

/-- The calls that a limit allows are those of the machine without it. -/
lemma At.afterCalls_limited (hat : m.At e c) (h : m.Paced 0) (hfree : m.stepLimit = none)
    (hok : ∀ k < n, ∃ b, (m.afterCalls k).step.result = .ok b) (hk : k ≤ n) :
    (m.under (some n) e.scan).afterCalls k = (m.afterCalls k).under (some n) e.scan ∧
      (m.under (some n) e.scan).callEvents k = m.callEvents k := by
  induction k with
  | zero => exact ⟨rfl, rfl⟩
  | succ k ih =>
    obtain ⟨hmachine, hevents⟩ := ih (Nat.le_of_succ_le hk)
    obtain ⟨c', hat'⟩ := hat.afterCalls k
    have hstep := hat'.step_limited ((hat.stepLimit_afterCalls k).trans hfree) (hat.steps_lt h hok hk)
    rw [← hmachine] at hstep
    refine ⟨congrArg Outcome.machine hstep, ?_⟩
    rw [callEvents, callEvents, hevents, hstep]
    rfl

/-- The call after those that a limit allows is refused, unless the run is already over. -/
lemma Paced.step_limited (h : m.Paced n) (hm : m.hitStepLimit = false) (scan : SkipScan) :
    (m.under (some n) scan).step =
      ⟨{ m.under (some n) scan with finished := true, hitStepLimit := !m.finished }, [], .ok false⟩ := by
  cases hf : m.finished with
  | true =>
    have hself : { m.under (some n) scan with finished := true, hitStepLimit := !true } =
        m.under (some n) scan := by
      cases m
      simp_all [under]
    rw [hself]
    exact step_finished hf
  | false =>
    have hreached : (m.under (some n) scan).limitReached = true := by
      simp [limitReached, under, h.live hf]
    exact step_of_none (fetch_limit hf hreached)

/-- A run under a limit is over after one call more than the limit allows. -/
theorem At.run_limited (hat : m.At e c) (h : m.Paced 0) (hfree : m.stepLimit = none)
    (hm : m.hitStepLimit = false) (hok : ∀ k < n, ∃ b, (m.afterCalls k).step.result = .ok b)
    {N : Nat} (hN : n < N) :
    (m.under (some n) e.scan).run N =
      ⟨{ m.afterCalls n with
          stepLimit := some n
          source := (m.afterCalls n).source.closed
          finished := true
          hitStepLimit := !(m.afterCalls n).finished }, m.callEvents n, .ok ()⟩ := by
  let p := m.under (some n) e.scan
  have hallowed (k : Nat) (hk : k ≤ n) : p.afterCalls k = (m.afterCalls k).under (some n) e.scan ∧
      p.callEvents k = m.callEvents k := hat.afterCalls_limited h hfree hok hk
  obtain ⟨hmachine, hevents⟩ := hallowed n (Nat.le_refl n)
  -- the last call neither draws anything nor tells anything
  have hlast := (h.afterCalls hat hok).step_limited (hat.not_limited hfree hm n) e.scan
  rw [← hmachine] at hlast
  have hafter : p.afterCalls (n + 1) = (p.afterCalls n).step.machine := rfl
  have htold : p.callEvents (n + 1) = m.callEvents n := by
    rw [callEvents, hlast, hevents, List.append_nil]
  have hover : (p.afterCalls (n + 1)).finished = true := by rw [hafter, hlast]
  have hfaultless : ∀ k < n + 1, ∃ b, (p.afterCalls k).step.result = .ok b := by
    intro k hk
    rcases Nat.lt_succ_iff_lt_or_eq.1 hk with hk | rfl
    · obtain ⟨c', hat'⟩ := hat.afterCalls k
      rw [(hallowed k (Nat.le_of_lt hk)).1,
        hat'.step_limited ((hat.stepLimit_afterCalls k).trans hfree) (hat.steps_lt h hok hk)]
      exact hok k hk
    · exact ⟨false, by rw [hlast]⟩
  have hp : p.At e c := ⟨hat.source, hat.frames, rfl, hat.loops_le⟩
  have hscan : (m.afterCalls n).skipScan = e.scan := by
    obtain ⟨c', hat'⟩ := hat.afterCalls n
    exact hat'.scan
  obtain ⟨hstays, htells⟩ := afterCalls_of_le hover hN
  rw [hp.run_eq fun k _ => ok_of_finished hfaultless hover k, hstays, htells, htold, hafter, hlast, hmachine]
  simp [under, withSource, hscan]

/-! ## Texts -/

/-- What a run of a text under a limit of `n` steps comes to, told by the machine without a limit. It is that
machine after `n` calls of a step, when as many operators were carried out as the limit allows, or else all
that there are and the run was over. -/
structure CutShort (text : Array UInt8) (free : Machine) (n : Nat) (o : Outcome Unit) : Prop where
  result : o.result = .ok ()
  machine : o.machine =
    { free.afterCalls n with
      stepLimit := some n
      source := (free.afterCalls n).source.closed
      finished := true
      hitStepLimit := o.machine.hitStepLimit }
  location : o.machine.location = (free.afterCalls n).location
  events : o.events = free.callEvents n
  steps_le : o.machine.steps ≤ n
  steps : (o.machine.steps : ℕ∞) = min (n : ℕ∞) free.executed
  finished : free.executed < n → (free.afterCalls n).finished = true
  limit : o.machine.hitStepLimit = true ↔
    (n : ℕ∞) ≤ free.executed ∧ (free.afterCalls n).halted = false
  halted : ¬ (o.machine.halted = true ∧ o.machine.hitStepLimit = true)
  ended : o.machine.halted = false → o.machine.hitStepLimit = false →
    o.machine.location = Location.counted text.toList ∧
      ∃ d, (free.afterCalls n).source.next = .ok d ∧ d.operator = none

/-- At the end of a program nothing more is drawn. -/
lemma Course.drawn_none (h : m.Course e c) (hat : m.At e c) (hf : m.finished = true)
    (hm : m.hitStepLimit = false) :
    m.location = Location.counted e.bytes ∧ ∃ d, m.source.next = .ok d ∧ d.operator = none := by
  have hindex := h.ended hf hm
  obtain ⟨s, -, hnext⟩ := hat.source.next
  refine ⟨?_, _, hnext, ?_⟩
  · rw [hat.location_eq, hindex, Edition.place_end, Location.after_eq_counted]
  · exact List.getElem?_eq_none (by omega)

lemma ofText_paced (s : Settings) (text : Array UInt8) (console : List Char) :
    (ofText s text console).Paced 0 :=
  ⟨Nat.le_refl 0, fun _ => rfl, fun hf => by simp [ofText, start] at hf⟩

variable {s : Settings} {text : Array UInt8} {console : List Char}

lemma run_limited_ofText (hn : 0 < n)
    (hok : ∀ k < n, ∃ b, ((ofText s.unlimited text console).afterCalls k).step.result = .ok b)
    {N : Nat} (hN : n < N) :
    let reached := (ofText s.unlimited text console).afterCalls n
    (ofText (s.limited n hn) text console).run N =
      ⟨{ reached with
          stepLimit := some n
          source := reached.source.closed
          finished := true
          hitStepLimit := !reached.finished }, (ofText s.unlimited text console).callEvents n, .ok ()⟩ :=
  (ofText_at s.unlimited text console).run_limited (ofText_paced ..) rfl rfl hok hN

theorem cutShort_ofText (hn : 0 < n)
    (hok : ∀ k < n, ∃ b, ((ofText s.unlimited text console).afterCalls k).step.result = .ok b) :
    CutShort text (ofText s.unlimited text console) n
      ((ofText (s.limited n hn) text console).run (n + 1)) := by
  let free := ofText s.unlimited text console
  have hat : free.At (.ofSettings s.unlimited text) {} := ofText_at ..
  obtain ⟨c, hat', hcourse⟩ := hat.afterCalls_induction
    (P := fun c m _ => m.Course (.ofSettings s.unlimited text) c) (ofText_course ..)
    (fun hat h hstep => h.step hat hstep) n
  have hsteps := hat.steps_eq_min (ofText_paced ..) hok
  have hlive := hat.live_iff (ofText_paced ..) hcourse hok
  have hfree : (free.afterCalls n).hitStepLimit = false := hat.not_limited rfl rfl n
  rw [run_limited_ofText hn hok (Nat.lt_succ_self n)]
  constructor
  case result | machine | events => rfl
  case location => exact Source.location_closed _
  case steps_le => exact ((ofText_paced ..).afterCalls hat hok).steps_le
  case steps => exact hsteps
  case finished =>
    intro hlt
    by_contra hf
    exact absurd (hlive.1 (by simpa using hf)).1 (not_le.2 hlt)
  case limit => simpa using hlive
  case halted =>
    rintro ⟨hhalted, hlimit⟩
    simp only [Bool.not_eq_true'] at hlimit
    rw [hcourse.not_halted hlimit] at hhalted
    contradiction
  case ended =>
    intro _ hlimit
    obtain ⟨hplace, hnext⟩ := hcourse.drawn_none hat' (by simpa using hlimit) hfree
    exact ⟨(Source.location_closed _).trans hplace, hnext⟩

/-- A limit on the steps cuts a run short and changes nothing else. As long as nothing that is carried out
is at fault, a run under a limit of `n` steps ends: it is over after one call of a step more, and further
calls change nothing. What it comes to is the machine without a limit after `n` operators, or after all
that there are and behind the end of the program if they are fewer. The limit is told to be hit exactly if
`n` operators were carried out and the last of them did not halt the machine, so never together with
halting; if neither is told, the program came to its end. Runs under larger limits write what this one
writes and remark on what this one remarks on, and go on from there. -/
theorem limit_cuts_short (s : Settings) (text : Array UInt8) (console : List Char) (n : Nat) (hn : 0 < n)
    (hok : ∀ k < n, ∃ b, ((ofText s.unlimited text console).afterCalls k).step.result = .ok b) :
    let free := ofText s.unlimited text console
    let run (n : Nat) (hn : 0 < n) (N : Nat) := (ofText (s.limited n hn) text console).run N
    let remarks (n : Nat) (hn : 0 < n) :=
      (Source.ofText (s.limited n hn) text).2 ++ Event.remarks (run n hn (n + 1)).events
    (∀ N > n, run n hn N = run n hn (n + 1)) ∧
    CutShort text free n (run n hn (n + 1)) ∧
    remarks n hn = (Source.ofText s.unlimited text).2 ++ Event.remarks (free.callEvents n) ∧
    ∀ n' (hle : n ≤ n'), (∀ k < n', ∃ b, (free.afterCalls k).step.result = .ok b) →
      (run n hn (n + 1)).machine.output.toList <+:
          (run n' (Nat.lt_of_lt_of_le hn hle) (n' + 1)).machine.output.toList ∧
        remarks n hn <+: remarks n' (Nat.lt_of_lt_of_le hn hle) := by
  intro free run remarks
  have hcut := cutShort_ofText hn hok
  refine ⟨fun N hN => ?_, hcut, ?_, fun n' hle hok' => ?_⟩
  · exact (run_limited_ofText hn hok hN).trans (run_limited_ofText hn hok (Nat.lt_succ_self n)).symm
  · exact congrArg (_ ++ Event.remarks ·) hcut.events
  · have hcut' := cutShort_ofText (Nat.lt_of_lt_of_le hn hle) hok'
    have hevents : free.callEvents n <+: free.callEvents n' := by
      obtain ⟨j, rfl⟩ := Nat.exists_eq_add_of_le hle
      rw [callEvents_add]
      exact List.prefix_append ..
    have hwritten (k : Nat) : (free.afterCalls k).output.toList = Event.written (free.callEvents k) :=
      (ofText_tallied s.unlimited text console k).written.symm
    constructor
    · rw [hcut.machine, hcut'.machine, hwritten, hwritten]
      exact hevents.filterMap _
    · simp only [remarks, run, hcut.events, hcut'.events]
      exact (List.prefix_append_right_inj _).2 (hevents.filterMap _)

/-- A program that runs for ever, under a limit of four steps. -/
theorem limit_cuts_short_endless :
    let s : Settings := { tapeLength := 2 }
    let text : Array UInt8 := #[43, 91, 93]
    (∀ k < 4, ∃ b, ((ofText s.unlimited text []).afterCalls k).step.result = .ok b) ∧
      CutShort text (ofText s.unlimited text []) 4
        ((ofText (s.limited 4 (by decide)) text []).run 5) ∧
      ((ofText (s.limited 4 (by decide)) text []).run 5).machine.hitStepLimit = true := by
  intro s text
  have hok : ∀ k < 4, ∃ b, ((ofText s.unlimited text []).afterCalls k).step.result = .ok b := by
    intro k _
    exact (ofText_plain s.unlimited text [] (by decide)).ok_afterCalls (ofText_at ..) k
  exact ⟨hok, (limit_cuts_short s text [] 4 (by decide) hok).2.1, by decide +kernel⟩

/-- A limit is hit also by a program that has no more operators, as its end was not read. -/
example : ((ofText { tapeLength := 1, stepLimit := some 1 } #[43] []).run 2).machine.hitStepLimit = true := by
  decide +kernel

end Machine

end Brainfuck
