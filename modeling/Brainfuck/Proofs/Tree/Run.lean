import Brainfuck.Proofs.Machine.Structural
import Brainfuck.Proofs.Tree.Walk

/-! # Runs of balanced programs

A machine over characters without a step limit walks over its operators, whichever source it draws them
from. So a run of a balanced program ends exactly if the block of the program has a meaning, and then
it has done to its store what the block does. -/
namespace Brainfuck

open Brackets Walk

/-- A closing bracket in a block among operators has a partner. -/
theorem Block.exists_partners {ops tail : List Operator} {b : Block} {i j : Nat}
    (hb : ops.drop i = b.operators ++ tail) (hij : i ≤ j) (hj : j < i + b.operators.length)
    (hop : ops[j]? = some .loopEnd) : ∃ k, Partners ops k j := by
  induction b generalizing i tail with
  | done => simp [operators] at hj; omega
  | act a rest ih =>
    obtain ⟨hact, hrest⟩ := act_of_drop hb
    simp only [operators, List.length_cons] at hj
    rcases Nat.eq_or_lt_of_le hij with rfl | hij
    · exact absurd (Option.some.inj (hact.symm.trans hop)) a.operator_ne_loopEnd
    · exact ih hrest hij (by omega)
  | loop body rest ihbody ihrest =>
    obtain ⟨hpartners, hbody, hrest⟩ := partners_of_drop hb
    simp only [operators, List.length_cons, List.length_append] at hj
    rcases Nat.eq_or_lt_of_le hij with rfl | hij
    · simp [hpartners.opening] at hop
    · rcases Nat.lt_trichotomy j (i + body.operators.length + 1) with hlt | rfl | hgt
      · exact ihbody hbody hij (by omega)
      · exact ⟨i, hpartners⟩
      · exact ihrest hrest hgt (by omega)

lemma Block.not_stray (b : Block) (j : Nat) : ¬ Stray b.operators j := by
  rintro ⟨hop, hstray⟩
  have hj := (List.getElem?_eq_some_iff.1 hop).1
  obtain ⟨k, hk⟩ := exists_partners (b := b) (i := 0) (List.append_nil _).symm (Nat.zero_le j)
    (by omega) hop
  exact hstray k hk

namespace Machine

variable {e : Edition} {c c' : Control} {m : Machine} {op : Operator} {i n cellMax : Nat}
  {ls : List Nat} {σ : Store} {x y : Control × Store}

/-- Carrying out an operator is one operator of a walk, and halting ends the walk. -/
theorem Executes.next {o : Outcome Unit} (hx : Executes e m ⟨i + 1, ls⟩ op c' o)
    (hscan : e.scan = .nested) (hop : e.operators[i]? = some op) (hplain : m.Plain)
    (hlive : m.halted = false) :
    Walk.next e.operators m.tape.cellMax (⟨i, ls⟩, m.store) =
      if o.machine.halted then none else some (c', o.machine.store) := by
  have hvalue := m.store_value
  cases hx with
  | action _ a =>
    obtain ⟨-, hstore, -⟩ := hplain.execute_action a
    obtain ⟨tape, console, output, hmachine⟩ := m.execute_action a
    rw [next_act hop, hstore]
    simp [hmachine, hlive]
  | enter _ hv =>
    rw [next_enter hop (hvalue ▸ hv)]
    simp [entered, hlive, store]
  | skip _ hv hk =>
    rw [hscan] at hk
    change _ = if m.halted then none else some (_, m.store)
    simp [Walk.next, hop, hvalue, hv, hk, hlive]
  | halt _ hv hk =>
    rw [hscan] at hk
    simp [Walk.next, hop, hvalue, hv, hk]
  | stray => simp [Walk.next, hop, hlive]
  | leave _ hv | again _ hv =>
    change _ = if m.halted then none else some (_, m.store)
    simp [Walk.next, hop, hvalue, hv, hlive]

/-- A machine that is on a walk. -/
structure Walks (e : Edition) (cellMax : Nat) (x : Control × Store) (m : Machine) : Prop where
  at_control : m.At e x.1
  store_eq : m.store = x.2
  plain : m.Plain
  cellMax_eq : m.tape.cellMax = cellMax
  unlimited : m.stepLimit = none
  live : m.finished = false ∧ m.halted = false ∧ m.hitStepLimit = false

theorem Walks.step (h : m.Walks e cellMax x) (hscan : e.scan = .nested)
    (hy : Walk.next e.operators cellMax x = some y) : m.step.machine.Walks e cellMax y := by
  obtain ⟨⟨i, ls⟩, σ⟩ := x
  obtain ⟨hat, rfl, hplain, rfl, hunlimited, hfinished, hlive, hlimit⟩ := h
  obtain ⟨c', hstep⟩ := At.step hat
  have hat' := hstep.at hat
  have hplain' := hplain.step hstep
  generalize m.step = o at hstep hat' hplain'
  cases hstep with
  | finished hf => simp [hfinished] at hf
  | limit _ hl => simp [limitReached, hunlimited] at hl
  | ended _ _ hop => simp [Walk.next, show e.operators[i]? = none from hop] at hy
  | @done _ s op m' _ _ _ hop _ hx =>
    have hnext := hx.next hscan hop (hplain.drawn s op) hlive
    have hstore : (m.drawn s op).store = m.store := rfl
    rw [hstore] at hnext
    replace hnext := hnext.symm.trans hy
    cases hm : m'.halted with
    | true => simp [hm] at hnext
    | false =>
      obtain rfl : (c', m'.store) = y := by simpa [hm] using hnext
      have hfinished' : m'.finished = false := hx.unchanged.finished.trans hfinished
      exact ⟨hat', rfl, hplain'.2.1, hplain'.2.2, hx.unchanged.stepLimit.trans hunlimited,
        by simp [counted, hm, hfinished'], hm, hx.unchanged.hitStepLimit.trans hlimit⟩
  | fault => simp at hplain'

/-- At the end of the operators the machine is finished, and leaves everything as it is. -/
theorem Walks.ended (h : m.Walks e cellMax (⟨i, ls⟩, σ)) (hop : e.operators[i]? = none) :
    m.step.machine.finished = true ∧ m.step.machine.store = σ ∧
      m.step.machine.frames = ls.map e.frame ∧ m.step.machine.halted = false ∧
      m.step.machine.hitStepLimit = false := by
  obtain ⟨hat, rfl, -, -, hunlimited, hfinished, hlive, hlimit⟩ := h
  have hl : m.limitReached = false := by simp [limitReached, hunlimited]
  obtain ⟨s, hs, hfetch⟩ := hat.fetch_none hfinished hl hop
  rw [step_of_none hfetch]
  exact ⟨rfl, rfl, hat.frames, hlive, hlimit⟩

/-- A machine keeps to its walk as long as the walk goes on. -/
theorem Walks.afterCalls (h : m.Walks e cellMax x) (hscan : e.scan = .nested)
    (hy : Walk.after e.operators cellMax n x = some y) : (m.afterCalls n).Walks e cellMax y := by
  induction n generalizing m x with
  | zero =>
    obtain rfl : x = y := by simpa [Walk.after] using hy
    exact h
  | succ n ih =>
    obtain ⟨z, hz, hrest⟩ := Option.bind_eq_some_iff.1 hy
    rw [afterCalls_succ]
    exact ih (h.step hscan hz) hrest

/-- A machine that stands before a block ends exactly if the block has a meaning, and then it has done
to its store what the block does. -/
theorem Walks.block {b : Block} (h : m.Walks e cellMax ({}, σ)) (hscan : e.scan = .nested)
    (hb : b.operators = e.operators) :
    ((∃ n, (m.afterCalls n).finished = true) ↔ ∃ τ, b.Eval cellMax σ τ) ∧
      ∀ n, (m.afterCalls n).finished = true →
        b.Eval cellMax σ (m.afterCalls n).store ∧ (m.afterCalls n).frames = [] ∧
          (m.afterCalls n).halted = false ∧ (m.afterCalls n).hitStepLimit = false := by
  have hdrop : e.operators.drop 0 = b.operators ++ [] := by simp [hb]
  have hend : e.operators[b.operators.length]? = none := by simp [hb]
  have hmeaning (n : Nat) (hn : (m.afterCalls n).finished = true) : ∃ τ, b.Eval cellMax σ τ := by
    cases hw : Walk.after e.operators cellMax n ({}, σ) with
    | none =>
      obtain ⟨τ, -, -, hτ, -⟩ := eval_of_after hw hdrop
      exact ⟨τ, hτ⟩
    | some y => simp [(h.afterCalls hscan hw).live.1] at hn
  have hends {τ : Store} (hτ : b.Eval cellMax σ τ) : ∃ n, (m.afterCalls n).finished = false ∧
      (m.afterCalls (n + 1)).finished = true ∧ (m.afterCalls (n + 1)).store = τ ∧
      (m.afterCalls (n + 1)).frames = [] ∧ (m.afterCalls (n + 1)).halted = false ∧
      (m.afterCalls (n + 1)).hitStepLimit = false := by
    obtain ⟨n, hn⟩ := after_of_eval hτ hdrop []
    rw [Nat.zero_add] at hn
    have hwalks := h.afterCalls hscan hn
    exact ⟨n, hwalks.live.1, hwalks.ended hend⟩
  refine ⟨⟨fun ⟨n, hn⟩ => hmeaning n hn, fun ⟨τ, hτ⟩ => ?_⟩, fun n hn => ?_⟩
  · obtain ⟨n, -, hfinished, -⟩ := hends hτ
    exact ⟨n + 1, hfinished⟩
  · obtain ⟨τ, hτ⟩ := hmeaning n hn
    obtain ⟨k, hlive, hfinished, hstore, hframes, hhalted, hlimit⟩ := hends hτ
    -- the run is finished after `k + 1` calls and not before, and then stays as it is
    have hle : k + 1 ≤ n := by
      by_contra hlt
      obtain ⟨d, rfl⟩ := Nat.exists_eq_add_of_le (show n ≤ k by omega)
      rw [afterCalls_add, (afterCalls_finished hn d).1] at hlive
      simp [hn] at hlive
    obtain ⟨d, rfl⟩ := Nat.exists_eq_add_of_le hle
    rw [afterCalls_add, (afterCalls_finished hfinished d).1, hstore]
    exact ⟨hτ, hframes, hhalted, hlimit⟩

/-- A store before anything has been done: blank cells, and all of the input still to be read. -/
def blankStore (s : Settings) (console : List Char) : Store :=
  ⟨List.replicate s.tapeLength 0, 0, console, []⟩

lemma ofText_walks (s : Settings) (text : Array UInt8) (console : List Char)
    (hlimit : s.stepLimit = none) (hmax : s.cellMax ≤ lastCodePoint) :
    (ofText s text console).Walks (.ofSettings s text) s.cellMax ({}, blankStore s console) :=
  ⟨ofText_at s text console, by simp [store, blankStore, ofText, start, Tape.blank],
    ofText_plain s text console hmax, rfl, hlimit, rfl, rfl, rfl⟩

/-- A program whose brackets nest properly has one syntax tree. In the nested reading, without a step
limit and with cells that are characters, a run of it ends exactly if the tree has a meaning. The run
is not at fault, and when it ends, cells, pointer, input and output are what the tree makes of them,
no loop is left to be inside of, the machine is not halted, and nothing was remarked on the structure. -/
theorem run_eq_eval (s : Settings) (text : Array UInt8) (console : List Char)
    (hbalanced : Balanced (Decoding.operators text.toList)) (hscan : s.skipScan = .nested)
    (hlimit : s.stepLimit = none) (hmax : s.cellMax ≤ lastCodePoint) :
    ∃ b : Block, (∀ b' : Block, b'.operators = Decoding.operators text.toList ↔ b' = b) ∧
      let σ := blankStore s console
      let run := (ofText s text console).run
      ((∃ n, (run n).machine.finished = true) ↔ ∃ τ, b.Eval s.cellMax σ τ) ∧
      ∀ n, (run n).result = .ok () ∧
        ((run n).machine.finished = true →
          (∀ τ, b.Eval s.cellMax σ τ ↔ τ = (run n).machine.store) ∧
          (run n).machine.frames = [] ∧ (run n).machine.halted = false ∧
          (run n).machine.hitStepLimit = false ∧
          ((Source.ofText s text).2 ++ Event.remarks (run n).events).filter
            (·.category = .structural) = []) := by
  obtain ⟨b, hb⟩ := Block.exists_of_balanced hbalanced
  refine ⟨b, fun b' => ⟨fun h => Block.operators_injective (h.trans hb.symm), fun h => h ▸ hb⟩, ?_⟩
  have hwalks := ofText_walks s text console hlimit hmax
  obtain ⟨hiff, hends⟩ := hwalks.block (b := b) hscan hb
  have hrun := (ofText_plain s text console hmax).run_eq (ofText_at s text console)
  simp only [hrun]
  refine ⟨hiff, fun n => ⟨trivial, fun hn => ?_⟩⟩
  obtain ⟨heval, hframes, hhalted, hstep⟩ := hends n hn
  refine ⟨fun τ => ⟨fun hτ => hτ.unique heval, ?_⟩, hframes, hhalted, hstep, ?_⟩
  · rintro rfl
    exact heval
  · obtain ⟨c, -, hremarked⟩ := ofText_remarked s text console hscan n
    have hops : b.operators = (Edition.ofSettings s text).operators := hb
    have hstray (j : Nat) : ¬ Stray (Edition.ofSettings s text).operators j := hops ▸ b.not_stray j
    have hnone : (Edition.ofSettings s text).strayRemarks c.index = [] :=
      Edition.strayRemarks_eq (Nat.zero_le _) fun j _ _ => hstray j
    rw [Remarked, hnone, hhalted] at hremarked
    rw [List.filter_append, Edition.structural_reports]
    exact hremarked

theorem run_eq_eval_of_countdown :
    Balanced (Decoding.operators #[43, 91, 45, 93].toList) ∧
    ({ tapeLength := 2 } : Settings).skipScan = .nested ∧
    ({ tapeLength := 2 } : Settings).stepLimit = none ∧
    ({ tapeLength := 2 } : Settings).cellMax ≤ lastCodePoint ∧
    ∃ b : Block, b.operators = Decoding.operators #[43, 91, 45, 93].toList ∧
      b.Eval 255 ⟨[0, 0], 0, [], []⟩ ⟨[0, 0], 0, [], []⟩ := by
  have hbalanced : Balanced (Decoding.operators #[43, 91, 45, 93].toList) :=
    (Block.act .increment (.loop (.act .decrement .done) .done)).balanced_operators
  obtain ⟨b, hb, -, hruns⟩ :=
    run_eq_eval { tapeLength := 2 } #[43, 91, 45, 93] [] hbalanced rfl rfl (by decide)
  refine ⟨hbalanced, rfl, rfl, by decide, b, (hb b).2 rfl, ?_⟩
  have hfinished :
      ((ofText { tapeLength := 2 } #[43, 91, 45, 93] []).run 5).machine.finished = true := by
    decide +kernel
  exact (((hruns 5).2 hfinished).1 _).2 (by decide +kernel)

end Machine

end Brainfuck
