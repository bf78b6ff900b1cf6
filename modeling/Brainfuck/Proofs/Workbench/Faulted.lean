import Brainfuck.Proofs.Machine.Faulted
import Brainfuck.Proofs.Workbench.Subscriptions

/-! # Runs at fault

A step that is at fault has drawn its operator and done nothing else, so that the next step goes on behind
it. A run that is at fault leaves its machine like the step did, with its file closed, and it ends the
subscription of the machine. -/
namespace Brainfuck

namespace Workbench

open Machine

variable {machines : Array Machine} {c : Collector Nat} {sharesTape : Bool} {i n : Nat} {m : Machine}

lemma getElem?_place (hm : machines[i]? = some m) (m' : Machine) :
    (place machines i m' sharesTape)[i]? = some m' := by
  have hi : i < machines.size := (Array.getElem?_eq_some_iff.1 hm).1
  have hset : (machines.setIfInBounds i m')[i]? = some m' := by simp [hi]
  unfold place
  dsimp only
  split
  · rw [Array.getElem?_map, hset]
    rfl
  · exact hset

/-- A run that can be opened has the result that it has for the machine alone, and moves on that machine. -/
lemma run_sharing {s : Source} (hm : machines[i]? = some m) (hs : m.source.opened = .ok s) :
    ∃ r, (sharing machines c sharesTape).run i n = some r ∧ r.result = (m.run n).result ∧
      r.workbench = ((sharing machines c sharesTape).call (.run i n)).1 ∧
      r.workbench.machines[i]? = some (m.run n).machine := by
  have hrun : ∃ r, (sharing machines c sharesTape).run i n = some r ∧ r.result = (m.run n).result := by
    simp [run, hm, hs, attachForStep_sharing hm, perform_sharing hm, detach]
  obtain ⟨r, hr, hresult⟩ := hrun
  have hcall : r.workbench = ((sharing machines c sharesTape).call (.run i n)).1 := by simp [call, hr]
  refine ⟨r, hr, hresult, hcall, ?_⟩
  rw [hcall, call_run hm hs]
  exact getElem?_place hm _

/-- A step is at fault only where a value has no representation: a value is stored that has no room in a
cell, or one is written that is no character. Then the operator has been drawn and told of, nothing else
has changed, and the next step goes on behind it. A run that is at fault ends with the first step that is.
It closes its file, and on a workbench it ends the subscription of its machine and of no other. -/
theorem fault_changes_nothing_else {m : Machine} (h : Reachable m) :
    (∀ f, m.step.result = .error f ↔ m.finished = false ∧ m.limitReached = false ∧
      ∃ op ∈ m.source.ahead.head?, m.tape.fault? op = some f) ∧
    (∀ f, m.step.result = .error f → ∃ s reports op, m.FaultyStep f s reports op) ∧
    ∀ n f s, m.source.opened = .ok s → (m.run n).result = .error f →
      (∃ k < n, (m.withSource s).FirstFault k f ∧ Reachable ((m.withSource s).afterCalls k) ∧
        let last := (m.withSource s).afterCalls (k + 1)
        m.run n = ⟨last.withSource last.source.closed, (m.withSource s).callEvents (k + 1), .error f⟩) ∧
      (∀ r name text, (m.run n).machine.source = .stream r → r.medium = .file name text →
        r.isOpen = false) ∧
      ∀ machines records sharesTape calls i,
        let w := (sharing machines { records := records } sharesTape).after calls
        w.machines[i]? = some m → ∃ r, w.run i n = some r ∧ r.result = .error f ∧
          r.workbench.machines[i]? = some (m.run n).machine ∧
          ∀ j, j ∈ (r.workbench.collector i).subscribers ↔ j ≠ i ∧ j ∈ (w.collector i).subscribers := by
  obtain ⟨extent, hsettled⟩ := h.settled
  refine ⟨fun f => hsettled.step_error_iff, fun f => hsettled.faultyStep, fun n f s hs hfault => ?_⟩
  obtain ⟨k, hk, hfirst, hrun⟩ := run_fault hs hfault
  have hopened : Reachable (m.withSource s) := by
    have hopen : m.openSource.machine = m.withSource s := by simp [openSource, hs]
    exact hopen ▸ h.opened
  refine ⟨⟨k, hk, hfirst, hopened.afterCalls k, hrun⟩, ?_, ?_⟩
  · intro r name text hsource hfile
    have hclosed : ((m.withSource s).afterCalls (k + 1)).source.closed = .stream r := by
      rw [← hsource, hrun]
      rfl
    simp [Reader.isOpen, Source.offset_closed hclosed hfile]
  · intro machines records sharesTape calls i w hm
    obtain ⟨machines', c', hw, hnodup, -⟩ := subscribers_after machines sharesTape
      (c := { records := records }) List.nodup_nil calls
    have hw : w = sharing machines' c' sharesTape := hw
    clear_value w
    subst hw
    have hm : machines'[i]? = some m := hm
    obtain ⟨r, hr, hresult, hcall, hmachine⟩ := run_sharing hm hs
    obtain ⟨machines'', c'', hafter, -, hsubscribers⟩ :=
      subscribers_call_sharing machines' sharesTape hnodup (.run i n)
    refine ⟨r, hr, hresult.trans hfault, hmachine, fun j => ?_⟩
    rw [hcall, hafter]
    refine (hsubscribers j).trans ?_
    constructor
    · rintro ⟨hj, hother⟩
      exact ⟨fun hji => hother ⟨hji.symm, m, s, hji ▸ hm, hs⟩, hj⟩
    · rintro ⟨hji, hj⟩
      exact ⟨hj, fun hi => hji hi.1.symm⟩

/-- A cell of one value more than there are characters is counted down from zero and cannot be written
then. -/
theorem fault_changes_nothing_else_last_value :
    let m := (ofText { tapeLength := 1, cellMax := 0x110000 } #[45, 46, 43] []).step.machine
    Reachable m ∧ m.step.result = .error .notACharacter ∧
      ∃ s reports op, m.FaultyStep .notACharacter s reports op := by
  intro m
  have hreachable : Reachable m := .step (.text ..)
  have hmain := fault_changes_nothing_else hreachable
  have hfault : m.step.result = .error .notACharacter :=
    (hmain.1 _).2 ⟨by decide +kernel, by decide +kernel, .output, by decide +kernel, by decide +kernel⟩
  exact ⟨hreachable, hfault, hmain.2.1 _ hfault⟩

end Workbench

end Brainfuck
