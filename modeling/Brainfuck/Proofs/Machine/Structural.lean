import Brainfuck.Proofs.Machine.Nesting
import Brainfuck.Proofs.Machine.Remarks

/-! # Remarks on the structure

In the nested reading a run remarks once on every closing bracket without a partner that it passes, in
the order of the text. It can neither skip such a bracket, since no loop is open there, nor come back
behind it, since a loop that is repeated was open all the way. A loop without an end is skipped only to
halt, behind all closing brackets that are stray. -/
namespace Brainfuck

open Brackets

namespace Edition

variable {e : Edition} {i j : Nat}

/-- The remarks on the stray brackets among the first `i` operators. -/
def strayRemarks (e : Edition) (i : Nat) : List Diagnostic :=
  ((List.range i).filter (Stray e.operators)).map fun j =>
    Problem.unopenedLoop.diagnosticAt (e.place (j + 1))

/-- The remark on a loop that is skipped and has no end. -/
def unclosedRemark (e : Edition) : Diagnostic :=
  Problem.unclosedLoop.diagnosticAt (e.place (e.operators.length + 1))

lemma strayRemarks_of_stray (h : Stray e.operators i) :
    e.strayRemarks (i + 1) =
      e.strayRemarks i ++ [Problem.unopenedLoop.diagnosticAt (e.place (i + 1))] := by
  simp [strayRemarks, List.range_succ, h]

lemma strayRemarks_of_not_stray (h : ¬ Stray e.operators i) :
    e.strayRemarks (i + 1) = e.strayRemarks i := by
  simp [strayRemarks, List.range_succ, h]

lemma strayRemarks_eq (hij : i ≤ j) (h : ∀ k, i ≤ k → k < j → ¬ Stray e.operators k) :
    e.strayRemarks j = e.strayRemarks i := by
  induction hij with
  | refl => rfl
  | @step j hij ih =>
    rw [strayRemarks_of_not_stray (h j hij (Nat.lt_succ_self j)),
      ih fun k hik hkj => h k hik (Nat.lt_succ_of_lt hkj)]

lemma not_stray_of_ne {op : Operator} (hop : e.operators[i]? = some op) (h : op ≠ .loopEnd) :
    ¬ Stray e.operators i := by
  intro hs
  exact h (Option.some.inj (hop.symm.trans hs.1))

/-- The remarks on stray brackets are made in order. -/
theorem strayRemarks_prefix (hij : i ≤ j) : e.strayRemarks i <+: e.strayRemarks j := by
  induction hij with
  | refl => exact List.prefix_rfl
  | @step j _ ih =>
    refine ih.trans ?_
    by_cases h : Stray e.operators j
    · rw [strayRemarks_of_stray h]
      exact List.prefix_append ..
    · exact (strayRemarks_of_not_stray h).symm ▸ List.prefix_rfl

/-- All remarks on stray brackets, told from the text. -/
theorem strayRemarks_end (e : Edition) :
    e.strayRemarks (e.operators.length + 1) = (Decoding.strays e.bytes).map fun q =>
      Problem.unopenedLoop.diagnosticAt (Location.after (e.bytes.take (q + 1))) := by
  have hlast : ¬ Stray e.operators e.operators.length := by
    rintro ⟨hop, -⟩
    simp at hop
  rw [strayRemarks_of_not_stray hlast, Decoding.strays_eq, List.map_map]
  refine List.map_congr_left fun j hj => ?_
  simp only [List.mem_filter, decide_eq_true_eq] at hj
  obtain ⟨p, b, -, -, -, hoffset⟩ := Decoding.exists_byte hj.2.1
  simp [place, Decoding.place, hoffset]

end Edition

namespace Machine

open Edition

variable {e : Edition} {c c' : Control} {m : Machine} {op : Operator} {i k : Nat} {ls : List Nat}
  {events : List Event}

/-- Carrying out an operator remarks on what is stray on the way to where it leads, and on nothing
else but a loop without an end. -/
theorem Executes.structural {o : Outcome Unit} (hx : Executes e m ⟨i + 1, ls⟩ op c' o)
    (hat : m.At e ⟨i + 1, ls⟩) (hscan : e.scan = .nested) (hop : e.operators[i]? = some op)
    (hls : ls = openLoops e.operators i) (hlive : m.halted = false) :
    e.strayRemarks i ++ Event.structural o.events =
      e.strayRemarks c'.index ++ if o.machine.halted then [e.unclosedRemark] else [] := by
  cases hx with
  | action _ a =>
    obtain ⟨tape, console, output, hmachine⟩ := m.execute_action a
    have hstray := strayRemarks_of_not_stray (not_stray_of_ne hop a.operator_ne_loopEnd)
    simp [hmachine, hlive, hstray]
  | enter =>
    have hstray := strayRemarks_of_not_stray (not_stray_of_ne hop (by decide))
    simp [entered, hlive, hstray, Event.structural, event, Event.remark?]
  | skip _ _ hk =>
    -- the loop is open up to its end, so nothing on the way is stray
    obtain ⟨j, rfl, hpartners⟩ := partners_of_skipEnd hop (hscan ▸ hk)
    have hopen := (openLoops_of_partners hpartners).1
    have hij := hpartners.lt
    have hstray : e.strayRemarks (j + 1) = e.strayRemarks i := by
      refine strayRemarks_eq (by omega) fun l hil hlj => ?_
      rcases Nat.eq_or_lt_of_le hil with rfl | hil
      · exact not_stray_of_ne hop (by decide)
      · exact not_stray_of_mem (hopen ▸ List.mem_cons_self) hil (by omega)
    simp [withSource, hlive, hstray]
  | halt _ _ hk hs =>
    have hunclosed := (skipEnd_eq_none_iff hop).1 (hscan ▸ hk)
    have hlt := (List.getElem?_eq_some_iff.1 hop).1
    have hstray : e.strayRemarks (e.operators.length + 1) = e.strayRemarks i := by
      refine strayRemarks_eq (by omega) fun l hil hl => ?_
      rcases Nat.eq_or_lt_of_le hil with rfl | hil
      · exact not_stray_of_ne hop (by decide)
      · exact not_stray_of_mem (mem_openLoops_of_unclosed hop hunclosed hil) hil (Nat.le_refl l)
    have hloc : ((m.entered e (i + 1)).withSource _).location = _ := hs.location_eq
    rw [Event.structural_append, structural_skipEvents, structural_problemEvent rfl, hloc]
    simp [hstray, unclosedRemark]
  | stray =>
    have hstray := strayRemarks_of_stray (stray_iff.2 ⟨hop, hls.symm⟩)
    have hloc : m.location = e.place (i + 1) := hat.location_eq
    rw [structural_problemEvent rfl, hloc]
    simp [hlive, hstray]
  | leave =>
    have hstray : ¬ Stray e.operators i := by
      rw [stray_iff, ← hls]
      simp
    simp [outside, hlive, strayRemarks_of_not_stray hstray, Event.structural, event, Event.remark?]
  | @again _ l ls s _ _ hs =>
    obtain ⟨-, hli, -⟩ := openLoops_of_cons hls.symm
    have hstray : e.strayRemarks i = e.strayRemarks l :=
      strayRemarks_eq hli fun k hlk hki =>
        not_stray_of_mem (hls ▸ List.mem_cons_self) hlk (Nat.le_of_lt hki)
    simp [withSource, hlive, hstray, Event.structural, event, Event.remark?]

/-- What is remarked on the structure up to a place in a run. -/
def Remarked (e : Edition) (c : Control) (m : Machine) (events : List Event) : Prop :=
  Event.structural events = e.strayRemarks c.index ++ if m.halted then [e.unclosedRemark] else []

theorem Remarked.step {o : Outcome Bool} (h : m.Remarked e c events) (hat : m.At e c)
    (hcourse : m.Course e c) (hnested : m.Nested e c) (hstep : Step e m c c' o)
    (hscan : e.scan = .nested) : o.machine.Remarked e c' (events ++ o.events) := by
  unfold Remarked at h ⊢
  rw [Event.structural_append, h]
  cases hstep with
  | finished | limit => simp
  | ended _ _ hop =>
    have hstray : ¬ Stray e.operators c.index := fun hs => by simp [hs.1] at hop
    have hremarks := e.structural_remarks c.index (c.index + 1)
    simp [strayRemarks_of_not_stray hstray, Event.structural, hremarks]
  | @done _ _ _ m' _ hf _ hop hs hx =>
    have hlive := hcourse.not_halted hf
    have hx := hx.structural (hat.drawn hs _) hscan hop (hnested hlive) hlive
    have happlied (x : Machine) (op : Operator) :
        Event.structural [x.event .applied (some op)] = [] := rfl
    change _ = _ ++ if m'.halted then _ else _
    simpa [hlive, happlied] using hx
  | fault hf _ hop hs hx =>
    have hlive := hcourse.not_halted hf
    have hx := hx.structural (hat.drawn hs _) hscan hop (hnested hlive) hlive
    simpa [hlive] using hx

theorem ofText_remarked (s : Settings) (text : Array UInt8) (console : List Char)
    (hscan : s.skipScan = .nested) (k : Nat) :
    ∃ c, ((ofText s text console).afterCalls k).Course (.ofSettings s text) c ∧
      ((ofText s text console).afterCalls k).Remarked (.ofSettings s text) c
        ((ofText s text console).callEvents k) := by
  obtain ⟨c, -, hcourse, -, hremarked⟩ := (ofText_at s text console).afterCalls_induction
    (P := fun c m events => m.Course _ c ∧ m.Nested _ c ∧ m.Remarked _ c events)
    ⟨ofText_course s text console, fun _ => by simp, rfl⟩ (by
      rintro c c' m events o hat ⟨hcourse, hnested, hremarked⟩ hstep
      exact ⟨hcourse.step hat hstep, hnested.step hcourse hstep hscan,
        hremarked.step hat hcourse hnested hstep hscan⟩) k
  exact ⟨c, hcourse, hremarked⟩

/-- An operator that halts the machine opens a loop that is skipped and has no end. The tape and the
output are left as they were. -/
theorem Executes.halted_iff {o : Outcome Unit} (hx : Executes e m ⟨i + 1, ls⟩ op c' o)
    (hlive : m.halted = false) :
    (o.machine.halted = true ↔
      op = .loopStart ∧ m.tape.read = 0 ∧ skipEnd e.scan 0 e.operators (i + 1) = none) ∧
    (o.machine.halted = true → o.machine.tape = m.tape ∧ o.machine.output = m.output) := by
  cases hx with
  | action _ a =>
    obtain ⟨tape, console, output, hmachine⟩ := m.execute_action a
    simp [hmachine, hlive]
  | enter _ hv => simp [entered, hlive, hv]
  | skip _ _ hk => simp [withSource, hlive, hk]
  | halt _ hv hk => simp [hv, hk, entered, withSource]
  | stray | leave | again => simp [outside, withSource, hlive]

/-- A machine that is to carry out an opening bracket without a partner over a cell that is zero. -/
def MeetsUnclosed (e : Edition) (m : Machine) : Prop :=
  ∃ x events q, m.fetch = ⟨x, events, .ok (some .loopStart)⟩ ∧
    e.bytes[q]? = some Operator.loopStart.byte ∧ x.source.position = ((e.note q).position, []) ∧
    x.location = (e.note q).location ∧ (∀ p, ¬ Decoding.Partners e.bytes q p) ∧ x.tape.read = 0

theorem At.meetsUnclosed_iff {s : Source} (hs : e.Holds (c.index + 1) s) (hscan : e.scan = .nested)
    (hop : e.operators[c.index]? = some op)
    (hfetch : m.fetch = ⟨m.drawn s op, events, .ok (some op)⟩) :
    m.MeetsUnclosed e ↔
      op = .loopStart ∧ m.tape.read = 0 ∧ skipEnd e.scan 0 e.operators (c.index + 1) = none := by
  have hle := Nat.succ_le_of_lt (List.getElem?_eq_some_iff.1 hop).1
  have hunclosed (hstart : op = .loopStart) : skipEnd e.scan 0 e.operators (c.index + 1) = none ↔
      ∀ j, ¬ Partners e.operators c.index j := by
    rw [hscan, skipEnd_eq_none_iff (hstart ▸ hop)]
  constructor
  · rintro ⟨x, _, q, hx, hq, hpos, -, hno, hv⟩
    obtain ⟨rfl, -, hok⟩ := Outcome.mk.inj (hfetch.symm.trans hx)
    obtain rfl : op = .loopStart := by simpa using hok
    refine ⟨rfl, hv, (hunclosed rfl).2 ?_⟩
    have hget := (Decoding.getElem?_index hq (Operator.ofByte?_byte _)).1
    have hindex : Decoding.index e.bytes q = c.index := by
      have hsource : (m.drawn s .loopStart).source = s := rfl
      rw [hsource, hs.position_eq hle, note_eq hq (Operator.ofByte?_byte _)] at hpos
      have := position_inj hle (List.getElem?_eq_some_iff.1 hget).1 (Prod.mk.inj hpos).1
      omega
    exact hindex ▸ (Decoding.unclosed_iff hq).1 hno
  · rintro ⟨rfl, hv, hend⟩
    obtain ⟨q, b, hq, hb, hindex, -⟩ := Decoding.exists_byte hop
    obtain rfl := Decoding.byte_of_ofByte? hb
    have hnote := Edition.note_eq hq hb
    rw [hindex] at hnote
    refine ⟨_, _, q, hfetch, hq, ?_, ?_, ?_, hv⟩
    · rw [hnote]
      exact hs.position_eq hle
    · rw [hnote]
      exact hs.location_eq
    · exact (Decoding.unclosed_iff hq).2 (hindex ▸ (hunclosed rfl).1 hend)

/-- The last operator that was carried out tells whether a run is halted. -/
theorem ofText_last_step (s : Settings) (text : Array UInt8) (console : List Char)
    (hscan : s.skipScan = .nested) (hmax : s.cellMax ≤ lastCodePoint) {n k : Nat}
    (hk : ((ofText s text console).afterCalls n).steps = k + 1) :
    let m := (ofText s text console).afterCalls n
    let before := (ofText s text console).afterCalls k
    (m.halted = true ↔ before.MeetsUnclosed (.ofSettings s text)) ∧
      (m.halted = true → m.tape = before.tape ∧ m.output = before.output) := by
  have hat := ofText_at s text console
  have hplain := ofText_plain s text console hmax
  obtain ⟨x, events, op, hfetch, htape, houtput, hhalted⟩ := (hplain.last_call hat rfl n).2.2 k hk
  obtain ⟨c', hat', hcourse', -⟩ := ofText_nested s text console hscan k
  obtain ⟨_, _, hnone, -⟩ | ⟨src, op', hf, hop, hs, hsome⟩ := hat'.fetch_cases
  · simp [hnone] at hfetch
  · obtain ⟨rfl, -, hok⟩ := Outcome.mk.inj (hsome.symm.trans hfetch)
    obtain rfl : op' = op := by simpa using hok
    obtain ⟨c'', hx⟩ := (hat'.drawn hs op').executes hop
    obtain ⟨hiff, hsame⟩ := hx.halted_iff (hcourse'.not_halted hf)
    simp only [htape, houtput, hhalted]
    exact ⟨hiff.trans (At.meetsUnclosed_iff hs hscan hop hsome).symm, hsame⟩

/-- In the nested reading, with cells that are characters, a run is not at fault. If it comes to an
end, the structural remarks are one on each closing bracket without a partner, in the order of the
text, and then one on a loop without an end exactly if the machine is halted; if it is ended by the
step limit, they are the first of those on closing brackets. The machine is halted exactly if the last
operator that was carried out opens a loop without an end over a cell that is zero, and that operator
changed neither the tape nor the output. -/
theorem structural_remarks_eq (s : Settings) (text : Array UInt8) (console : List Char)
    (hscan : s.skipScan = .nested) (hmax : s.cellMax ≤ lastCodePoint) (n : Nat) :
    let e := Edition.ofSettings s text
    let start := ofText s text console
    let o := start.run n
    let structural := ((Source.ofText s text).2 ++ Event.remarks o.events).filter
      (·.category = .structural)
    let strays := (Decoding.strays e.bytes).map fun q =>
      Problem.unopenedLoop.diagnosticAt (Location.after (e.bytes.take (q + 1)))
    o.result = .ok () ∧
    (o.machine.finished = true → o.machine.hitStepLimit = false → structural = strays ++
      if o.machine.halted then [Problem.unclosedLoop.diagnosticAt (Location.after e.bytes)] else []) ∧
    (o.machine.hitStepLimit = true → structural <+: strays) ∧
    (o.machine.halted = true ↔
      ∃ k, o.machine.steps = k + 1 ∧ (start.afterCalls k).MeetsUnclosed e) ∧
    ∀ k, o.machine.halted = true → o.machine.steps = k + 1 →
      o.machine.tape = (start.afterCalls k).tape ∧ o.machine.output = (start.afterCalls k).output := by
  intro e start o structural strays
  have hat := ofText_at s text console
  have hplain := ofText_plain s text console hmax
  obtain ⟨c, hcourse, hremarked⟩ := ofText_remarked s text console hscan n
  have ho : o = ⟨(start.afterCalls n).withSource (start.afterCalls n).source.closed,
    start.callEvents n, .ok ()⟩ := hplain.run_eq hat n
  have hload := Edition.structural_reports s text
  have hstructural : structural = e.strayRemarks c.index ++
      if (start.afterCalls n).halted then [e.unclosedRemark] else [] := by
    simp only [structural, List.filter_append, hload, List.nil_append, ho]
    exact hremarked
  have hstrays : e.strayRemarks (e.operators.length + 1) = strays := e.strayRemarks_end
  have hunclosed : e.unclosedRemark = Problem.unclosedLoop.diagnosticAt (Location.after e.bytes) := by
    rw [unclosedRemark, place_end]
  have hlast {k : Nat} (hk : (start.afterCalls n).steps = k + 1) :=
    ofText_last_step s text console hscan hmax hk
  refine ⟨by rw [ho], ?_, ?_, ?_, ?_⟩
  · rw [ho]
    intro hf hl
    rw [hstructural, hcourse.ended hf hl, hstrays, hunclosed]
    rfl
  · rw [ho]
    intro hl
    have hlive : (start.afterCalls n).halted = false := (hcourse.limit_finished hl).2
    rw [hstructural, hlive, if_neg Bool.false_ne_true, List.append_nil, ← hstrays]
    exact strayRemarks_prefix hcourse.index_le
  · rw [ho]
    constructor
    · intro hhalted
      have hhalted : (start.afterCalls n).halted = true := hhalted
      cases hk : (start.afterCalls n).steps with
      | zero =>
        have hsame := (hplain.last_call hat rfl n).2.1 hk
        rw [hhalted] at hsame
        cases hsame
      | succ k => exact ⟨k, hk, (hlast hk).1.1 hhalted⟩
    · rintro ⟨k, hk, hmeets⟩
      exact (hlast hk).1.2 hmeets
  · rw [ho]
    exact fun k hhalted hk => (hlast hk).2 hhalted

theorem structural_remarks_of_two_brackets :
    ({ tapeLength := 2 } : Settings).skipScan = .nested ∧
    ({ tapeLength := 2 } : Settings).cellMax ≤ lastCodePoint ∧
    ((Source.ofText { tapeLength := 2 } #[93, 91]).2 ++
      Event.remarks ((ofText { tapeLength := 2 } #[93, 91] []).run 5).events).filter
        (·.category = .structural) =
      [Problem.unopenedLoop.diagnosticAt ⟨1, 1⟩, Problem.unclosedLoop.diagnosticAt ⟨1, 2⟩] := by
  have h := structural_remarks_eq { tapeLength := 2 } #[93, 91] [] rfl (by decide) 5
  refine ⟨rfl, by decide, (h.2.1 ?_ ?_).trans ?_⟩ <;> decide +kernel

end Machine

end Brainfuck
