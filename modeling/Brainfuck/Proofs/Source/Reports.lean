import Brainfuck.Program.Source
import Brainfuck.Proofs.Decoding.Reader

/-! # What a source remarks on

A source remarks on bytes that spell nothing, and on a text that is used without being open. All other remarks
of a run are those of the machine. -/
namespace Brainfuck

/-- A remark that a source may make. -/
def Diagnostic.OfSource (d : Diagnostic) : Prop := d.category = .decode ∨ d.category = .precondition

lemma Reader.ofSource_unopened (r : Reader) : r.unopened.OfSource := .inr rfl

theorem Reader.ofSource_next (r : Reader) : ∀ d ∈ r.next.reports, d.OfSource := by
  intro d hd
  rw [next] at hd
  cases hoffset : r.offset with
  | none =>
    simp only [hoffset, List.mem_singleton] at hd
    exact hd ▸ r.ofSource_unopened
  | some p =>
    simp only [hoffset, decodeFrom_eq r.medium.text r p hoffset] at hd
    exact .inl (by simpa [Diagnostic.isDecode] using Decoding.isDecode_of_mem_remarksFrom hd)

namespace Source

variable {s s' : Source} {reports : List Diagnostic} {op : Option Operator} {p : Int} {l : Option Location}

theorem ofSource_next (h : s.next = .ok ⟨s', reports, op⟩) : ∀ d ∈ reports, d.OfSource := by
  cases s with
  | stream r =>
    obtain ⟨-, rfl, -⟩ : stream r.next.source = s' ∧ r.next.reports = reports ∧ r.next.operator = op := by
      simpa [next] using h
    exact r.ofSource_next
  | compiled c =>
    obtain ⟨d, hd, hreports⟩ : ∃ d, c.next = .ok d ∧ d.reports = reports := by
      cases hnext : c.next with
      | error f => simp [next, hnext, Except.map] at h
      | ok d => exact ⟨d, rfl, by simp_all [next, Except.map]⟩
    have hnone : d.reports = [] := by
      unfold Cursor.next at hd
      split at hd
      · cases hd
        rfl
      · split at hd <;> cases hd
        rfl
    simp [← hreports, hnone]

lemma ofSource_position (s : Source) : ∀ d ∈ s.position.2, d.OfSource := by
  cases s with
  | stream r =>
    simp only [position, Reader.position]
    split
    · simpa using r.ofSource_unopened
    · simp
  | compiled c => simp [position]

lemma ofSource_seek (h : s.seek p l = .ok (s', reports)) : ∀ d ∈ reports, d.OfSource := by
  cases s with
  | stream r =>
    obtain ⟨r', hseek⟩ : ∃ r', r.seek p l = .ok (r', reports) := by
      rcases hseek : r.seek p l with f | ⟨r', reports'⟩
      · simp [seek, hseek, Except.map] at h
      · exact ⟨r', by simp_all [seek, Except.map]⟩
    unfold Reader.seek at hseek
    split at hseek
    · cases hseek
      simpa using r.ofSource_unopened
    · split at hseek
      · cases hseek
      split at hseek
      · split at hseek <;> cases hseek
      · cases hseek
        simp
  | compiled c =>
    obtain ⟨-, rfl⟩ : _ ∧ [] = reports := by simpa [seek] using h
    simp

theorem ofSource_skip (scan : SkipScan) (depth : Nat) (s : Source) :
    ∀ d ∈ (s.skip scan depth).reports, d.OfSource := by
  fun_induction skip scan depth s with
  | case1 => simp
  | case2 depth s source reports h => exact ofSource_next h
  | case3 depth s source reports op h => exact ofSource_next h
  | case4 depth s source reports op h depth' hdepth hless rest ih =>
    exact List.forall_mem_append.2 ⟨ofSource_next h, ih⟩

end Source

end Brainfuck
