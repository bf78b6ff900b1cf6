import Brainfuck.Proofs.Source.Edition

/-! # Sources in bounds

A source that stands at a position of its program has no fault to meet. Whatever is drawn from it or
skipped in it, it comes to stand at another position, where the program may also be closed and opened
again, and it can go back to every position that it told of. Nothing is said here of places. -/
namespace Brainfuck

/-- A position in a text of so many bytes, or in a listing, which can be gone beyond. -/
def InExtent (extent : Option Nat) (position : Int) : Prop :=
  0 ≤ position ∧ ∀ n ∈ extent, position ≤ n

lemma InExtent.zero (extent : Option Nat) : InExtent extent 0 :=
  ⟨Int.le_refl 0, fun n _ => Int.natCast_nonneg n⟩

namespace Source

/-- How many bytes there are in a text that is read as it runs. -/
def extent : Source → Option Nat
  | stream r => some r.medium.text.size
  | compiled _ => none

/-- The operators that are still to be drawn. None are from a text that is not open. -/
def ahead : Source → List Operator
  | stream r => (r.offset.map fun p => Decoding.operators (r.medium.text.toList.drop p)).getD []
  | compiled c => (c.listing.code.toList.drop c.index.toNat).map (·.operator)

/-- A source of an extent that is at a position in it, unless it is not open. -/
structure Stands (extent : Option Nat) (s : Source) : Prop where
  extent_eq : s.extent = extent
  position?_in : ∀ p ∈ s.position?, InExtent extent p

variable {extent : Option Nat} {s s' : Source} {p q : Int}

/-- Drawing from a source does not fail: it takes the first of the operators ahead. -/
structure Draws (extent : Option Nat) (s : Source) (d : Decoded Source) : Prop where
  next_eq : s.next = .ok d
  stands : d.source.Stands extent
  operator_eq : d.operator = s.ahead.head?
  ahead_eq : d.source.ahead = s.ahead.tail

/-- A reader decodes on from its offset. -/
lemma draws_stream {r : Reader} (h : (stream r).Stands extent) :
    (stream r).Draws extent ⟨stream r.next.source, r.next.reports, r.next.operator⟩ := by
  obtain ⟨rfl, hposition⟩ := h
  cases hoffset : r.offset with
  | none =>
    have hnext : r.next = ⟨r, [r.unopened], none⟩ := by simp [Reader.next, hoffset]
    rw [hnext]
    exact ⟨by rw [Source.next, hnext], ⟨rfl, hposition⟩, by simp [ahead, hoffset],
      by simp [ahead, hoffset]⟩
  | some p =>
    let text := r.medium.text
    let more := Decoding.offset (text.toList.drop p) 1
    have hnext : r.next = Reader.decodeFrom text r p := by simp [Reader.next, hoffset, text]
    have hle : p + more ≤ text.size := by
      have hp := (hposition p (by simp [position?, hoffset])).2 text.size rfl
      have hmore := Decoding.offset_le_length (text.toList.drop p) 1
      simp only [List.length_drop, Array.length_toList] at hmore
      omega
    have hahead := Decoding.operators_drop_offset (text.toList.drop p) 1
    rw [List.drop_drop, List.drop_one] at hahead
    refine ⟨rfl, ?_, ?_, ?_⟩
    · rw [hnext, Reader.decodeFrom_eq text r p hoffset]
      refine ⟨rfl, fun q hq => ?_⟩
      obtain rfl : ((p + more : Nat) : Int) = q := Option.some.inj hq
      exact ⟨Int.natCast_nonneg _, fun n hn => Option.some.inj hn ▸ Int.ofNat_le.2 hle⟩
    · simp [hnext, Reader.decodeFrom_eq text r p hoffset, ahead, hoffset, text]
    · simpa [hnext, Reader.decodeFrom_eq text r p hoffset, ahead, hoffset, text] using hahead

/-- A cursor takes the instruction at its index, or comes to the end of the text. -/
lemma draws_compiled {c : Cursor} (h : (compiled c).Stands extent) :
    ∃ d, (compiled c).Draws extent d := by
  obtain ⟨rfl, hposition⟩ := h
  have hindex : 0 ≤ c.index := (hposition c.index rfl).1
  by_cases hend : (c.listing.code.size : Int) ≤ c.index
  · have hnext : c.next = .ok ⟨{ c with location := c.listing.endLocation }, [], none⟩ := by
      simp [Cursor.next, hend]
    have hnone : (compiled c).ahead = [] := by
      simp [ahead]
      omega
    refine ⟨_, by rw [Source.next, hnext]; rfl, ⟨rfl, hposition⟩, by rw [hnone]; rfl, ?_⟩
    rw [hnone]
    exact hnone
  · have hlt : c.index.toNat < c.listing.code.size := by omega
    have hinstruction : c.instruction? = some c.listing.code[c.index.toNat] := by
      have hneg : ¬ c.index < 0 := by omega
      simp [Cursor.instruction?, hneg, hlt]
    have hnext : c.next = .ok ⟨{ c with
        index := c.index + 1
        location := c.listing.code[c.index.toNat].location
        lastByte := c.listing.code[c.index.toNat].byte }, [],
        some c.listing.code[c.index.toNat].operator⟩ := by
      simp [Cursor.next, hend, hinstruction]
    have hnat : (c.index + 1).toNat = c.index.toNat + 1 := by omega
    refine ⟨_, by rw [Source.next, hnext]; rfl, ⟨rfl, fun q hq => ?_⟩, ?_, ?_⟩
    · obtain rfl : c.index + 1 = q := Option.some.inj hq
      exact ⟨by omega, by simp [extent]⟩
    · simp [ahead, List.head?_drop, hlt]
    · simp [ahead, hnat]

theorem Stands.draws (h : s.Stands extent) : ∃ d, s.Draws extent d := by
  cases s with
  | stream r => exact ⟨_, draws_stream h⟩
  | compiled c => exact draws_compiled h

/-- A source can go to every position in its extent. -/
theorem Stands.seek (h : s.Stands extent) (hp : InExtent extent p) (location : Option Location) :
    ∃ s' reports, s.seek p location = .ok (s', reports) ∧ s'.Stands extent := by
  obtain ⟨rfl, hposition⟩ := h
  cases s with
  | stream r =>
    cases hoffset : r.offset with
    | none =>
      exact ⟨stream r, [r.unopened], by simp [Source.seek, Reader.seek, hoffset, Except.map], rfl,
        hposition⟩
    | some o =>
      have htell : r.canTell p = true := by
        have hend := hp.2 _ rfl
        simp [Reader.canTell, hp.1, hend]
      have hneg : ¬ p < 0 := Int.not_lt.2 hp.1
      have hseek : r.seek p location =
          .ok ({ r with offset := some p.toNat, location := location.getD r.location }, []) := by
        simp [Reader.seek, hoffset, htell, hneg]
      refine ⟨stream { r with offset := some p.toNat, location := location.getD r.location }, [],
        by rw [Source.seek, hseek]; rfl, rfl, fun q hq => ?_⟩
      obtain rfl : (p.toNat : Int) = q := Option.some.inj hq
      rwa [Int.toNat_of_nonneg hp.1]
  | compiled c =>
    refine ⟨_, _, rfl, rfl, fun q hq => ?_⟩
    obtain rfl : p = q := Option.some.inj hq
    exact hp

lemma Stands.position (h : s.Stands extent) : InExtent extent s.position.1 := by
  cases s with
  | stream r =>
    cases hoffset : r.offset with
    | none => simpa [Source.position, Reader.position, hoffset] using InExtent.zero extent
    | some p =>
      have hp := h.position?_in p (by simp [position?, hoffset])
      simpa [Source.position, Reader.position, hoffset] using hp
  | compiled c => exact h.position?_in _ rfl

lemma Stands.matchingEnd (h : s.Stands extent) (hq : s.matchingEnd p = some q) :
    InExtent extent q := by
  cases s with
  | stream r => simp [Source.matchingEnd] at hq
  | compiled c =>
    obtain rfl : none = extent := h.extent_eq
    have hpos : 0 ≤ q := by
      simp only [Source.matchingEnd, Cursor.matchingEnd] at hq
      split at hq
      · simp at hq
      · obtain ⟨j, hj, rfl⟩ := Option.map_eq_some_iff.1 hq
        obtain ⟨a, -, ha⟩ := Option.bind_eq_some_iff.1 hj
        obtain rfl : (a : Int) = j := Option.some.inj ha
        omega
    exact ⟨hpos, by simp⟩

/-- Skipping finds the end of a loop or the end of the program. -/
theorem Stands.skip (h : s.Stands extent) (scan : SkipScan) (depth : Nat) :
    (∃ b, (s.skip scan depth).found = .ok b) ∧ (s.skip scan depth).source.Stands extent := by
  induction hn : s.remaining using Nat.strongRecOn generalizing s depth with
  | ind n ih =>
    subst hn
    obtain ⟨⟨s', reports, op⟩, hnext, hs', -⟩ := h.draws
    cases op with
    | none =>
      rw [skip_of_none hnext]
      exact ⟨⟨false, rfl⟩, hs'⟩
    | some op =>
      cases hdepth : depthAfter scan depth op with
      | none =>
        rw [skip_of_some_none hnext hdepth]
        exact ⟨⟨true, rfl⟩, hs'⟩
      | some depth' =>
        rw [skip_of_some_some hnext hdepth]
        exact ih s'.remaining (next_remaining hnext rfl) hs' depth' rfl

lemma Stands.opened (h : s.Stands extent) (hs : s.opened = .ok s') : s'.Stands extent := by
  obtain ⟨rfl, hposition⟩ := h
  cases s with
  | stream r =>
    obtain ⟨r', hr, rfl⟩ : ∃ r', r.opened = .ok r' ∧ stream r' = s' := by
      cases hr : r.opened with
      | error f => simp [Source.opened, hr, Except.map] at hs
      | ok r' => exact ⟨r', rfl, by simpa [Source.opened, hr, Except.map] using hs⟩
    unfold Reader.opened at hr
    split at hr
    · simp at hr
    · simp at hr
    · obtain rfl := Except.ok.inj hr
      refine ⟨rfl, fun p hp => ?_⟩
      obtain rfl : 0 = p := Option.some.inj hp
      exact .zero _
    · obtain rfl := Except.ok.inj hr
      exact ⟨rfl, hposition⟩
  | compiled c =>
    obtain rfl : compiled c = s' := Except.ok.inj hs
    exact ⟨rfl, hposition⟩

lemma Stands.closed (h : s.Stands extent) : s.closed.Stands extent := by
  obtain ⟨rfl, hposition⟩ := h
  cases s with
  | stream r =>
    simp only [Source.closed, Reader.closed]
    split
    · exact ⟨rfl, by simp [position?]⟩
    · exact ⟨rfl, hposition⟩
  | compiled c => exact ⟨rfl, hposition⟩

/-- A file is not open any more when it is closed. -/
lemma offset_closed {r : Reader} {name : String} {text : Option (Array UInt8)}
    (hs : s.closed = stream r) (hfile : r.medium = .file name text) : r.offset = none := by
  cases s with
  | stream r' =>
    obtain rfl : r'.closed = r := Source.stream.inj hs
    unfold Reader.closed at hfile ⊢
    split
    · rfl
    next hother => exact absurd (by simpa [hother] using hfile) (hother name text)
  | compiled c => exact Source.noConfusion hs

end Source

end Brainfuck
