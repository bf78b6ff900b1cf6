import Brainfuck.Proofs.Source.Edition

/-! # Repeated remarks

A stretch of a text that is decoded again makes the same remarks again. Since distinct bytes that are
remarked on have distinct places, dropping the repeats from all remarks leaves those on the part of the
text that was decoded, once each and in order. -/
namespace Brainfuck

/-- A place that comes before another one in the order of reading. -/
def Location.Before (l l' : Location) : Prop :=
  l.line < l'.line ∨ l.line = l'.line ∧ l.column < l'.column

namespace Location

variable {l l' l'' : Location}

lemma Before.trans (h : l.Before l') (h' : l'.Before l'') : l.Before l'' := by
  unfold Before at *
  omega

lemma Before.ne (h : l.Before l') : l ≠ l' := by
  rintro rfl
  unfold Before at h
  omega

/-- Only a carriage return takes no place. -/
lemma before_advance (l : Location) {b : UInt8} (hb : b ≠ 13) : l.Before (l.advance b) := by
  by_cases hfeed : b = 10
  · rw [advance, if_pos hfeed]
    exact .inl (Int.lt_add_one_of_le (Int.le_refl _))
  · rw [advance, if_neg hfeed, if_neg hb]
    exact .inr ⟨rfl, Int.lt_add_one_of_le (Int.le_refl _)⟩

end Location

namespace Decoding

variable {bytes : List UInt8} {l : Location} {d : Diagnostic} {p q : Nat}

/-- Remarks that are made from a place on concern later places. -/
theorem before_of_mem_remarksFrom (h : d ∈ remarksFrom l bytes) :
    ∃ l', d.location = some l' ∧ l.Before l' := by
  induction bytes generalizing l with
  | nil => simp [remarksFrom] at h
  | cons b bytes ih =>
    rcases List.mem_append.1 h with h | h
    · obtain ⟨-, hloc, hlayout⟩ := remark?_eq_some (Option.mem_toList.1 h)
      refine ⟨_, hloc, l.before_advance ?_⟩
      rintro rfl
      simp [isLayout] at hlayout
    · obtain ⟨l', hloc, hbefore⟩ := ih h
      refine ⟨l', hloc, ?_⟩
      by_cases hb : b = 13
      · simpa [hb, Location.advance] using hbefore
      · exact (l.before_advance hb).trans hbefore

theorem nodup_remarksFrom (l : Location) (bytes : List UInt8) : (remarksFrom l bytes).Nodup := by
  induction bytes generalizing l with
  | nil => exact List.nodup_nil
  | cons b bytes ih =>
    cases hr : remark? (l.advance b) b with
    | none => simpa [remarksFrom, hr] using ih _
    | some d =>
      simp only [remarksFrom, hr, Option.toList_some, List.singleton_append, List.nodup_cons]
      refine ⟨fun hmem => ?_, ih _⟩
      obtain ⟨l', hloc, hbefore⟩ := before_of_mem_remarksFrom hmem
      rw [(remark?_eq_some hr).2.1] at hloc
      exact hbefore.ne (Option.some.inj hloc)

/-- No remark on a text is made twice. -/
theorem nodup_remarks (bytes : List UInt8) (p q : Nat) : (remarks bytes p q).Nodup :=
  nodup_remarksFrom _ _

end Decoding

section EraseDups

variable {α : Type} [BEq α] [LawfulBEq α] {xs ys : List α}

lemma eraseDups_append_of_subset (h : ∀ y ∈ ys, y ∈ xs) : (xs ++ ys).eraseDups = xs.eraseDups := by
  have hnone : ys.removeAll xs = [] := by
    rw [List.removeAll, List.filter_eq_nil_iff]
    intro y hy
    simpa using h y hy
  rw [List.eraseDups_append, hnone, List.eraseDups_nil, List.append_nil]

lemma eraseDups_of_nodup (h : xs.Nodup) : xs.eraseDups = xs := by
  induction xs with
  | nil => rfl
  | cons x xs ih =>
    obtain ⟨hx, hxs⟩ := List.nodup_cons.1 h
    have hfilter : xs.filter (fun y => !y == x) = xs := by
      rw [List.filter_eq_self]
      rintro y hy
      have : y ≠ x := fun hyx => hx (hyx ▸ hy)
      simpa using this
    rw [List.eraseDups_cons, hfilter, ih hxs]

lemma eraseDups_append_of_disjoint (hys : ys.Nodup) (h : ∀ y ∈ ys, y ∉ xs) :
    (xs ++ ys).eraseDups = xs.eraseDups ++ ys := by
  have hall : ys.removeAll xs = ys := by
    rw [List.removeAll, List.filter_eq_self]
    intro y hy
    simpa using h y hy
  rw [List.eraseDups_append, hall, eraseDups_of_nodup hys]

omit [LawfulBEq α] in
lemma eq_nil_of_eraseDups (h : xs.eraseDups = []) : xs = [] := by
  cases xs with
  | nil => rfl
  | cons x xs => simp [List.eraseDups_cons] at h

end EraseDups

/-- Decoding once more from a part that is already decoded adds only what lies beyond that part. -/
theorem Edition.eraseDups_remarks {e : Edition} {ds : List Diagnostic} {i j h : Nat}
    (hds : ds.eraseDups = e.remarks 0 h) (hi : i ≤ h) (hij : i ≤ j) :
    (ds ++ e.remarks i j).eraseDups = e.remarks 0 (max h j) := by
  have hmem (d : Diagnostic) : d ∈ ds ↔ d ∈ e.remarks 0 h := by rw [← hds, List.mem_eraseDups]
  have hsub {k : Nat} (hik : i ≤ k) (hk : k ≤ h) : ∀ d ∈ e.remarks i k, d ∈ ds := by
    intro d hd
    rw [hmem, ← remarks_append (Nat.zero_le i) hi, ← remarks_append hik hk]
    exact List.mem_append_right _ (List.mem_append_left _ hd)
  rcases Nat.le_total j h with hj | hj
  · rw [eraseDups_append_of_subset (hsub hij hj), hds, Nat.max_eq_left hj]
  · have hnodup : (e.remarks 0 j).Nodup := by
      unfold remarks
      split
      · exact List.nodup_nil
      · exact Decoding.nodup_remarks ..
    rw [← remarks_append (Nat.zero_le h) hj, List.nodup_append] at hnodup
    obtain ⟨-, hbeyond, hdisjoint⟩ := hnodup
    rw [← remarks_append hi hj, ← List.append_assoc, eraseDups_append_of_disjoint hbeyond,
      eraseDups_append_of_subset (hsub hi (Nat.le_refl h)), hds, Nat.max_eq_right hj,
      remarks_append (Nat.zero_le h) hj]
    intro d hd hd'
    refine hdisjoint d ?_ d hd rfl
    rw [← hmem]
    exact (List.mem_append.1 hd').elim id (hsub hi (Nat.le_refl h) d)

end Brainfuck
