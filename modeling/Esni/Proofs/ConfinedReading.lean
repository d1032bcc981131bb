import Esni.Proofs.Numerals

/-!
# Readers that do not look ahead

A reader takes a value off the front of the data and leaves the rest. It is confined if what it
finds is decided by the bytes that it takes: more data behind them changes neither the value nor a
fault, and is left as it is. Only the fault that the data is too short may go away with more data.

Conversely, a confined reader that takes all of the data finds any part of the data too short. So
the place where data is cut off tells the fault, whatever the bytes before that place may look like.

## Main definitions

- `Confined` — the reader does not look ahead

## Main statements

- `Confined.bind` and `Confined.check` — confined readers are put one behind the other
- `Confined.read_take` — data that a confined reader takes wholly is too short when it is cut
-/

namespace Esni

variable {ε ε' α β : Type} {Short Settled : ε → Prop}

/-- The reader finds the same whatever is appended to the data. A fault of the kind `Short` only
says that the data ends too early; all other faults are of the kind `Settled` and stay. -/
structure Confined (Short Settled : ε → Prop) (read : Bytes → Except ε (α × Bytes)) : Prop where
  ok_append : ∀ {data value rest}, read data = .ok (value, rest) →
    ∀ tail, read (data ++ tail) = .ok (value, rest ++ tail)
  short_or_settled : ∀ {data fault}, read data = .error fault →
    Short fault ∨ Settled fault ∧ ∀ tail, read (data ++ tail) = .error fault

namespace Confined

/-- A reader that takes nothing. -/
protected theorem pure (value : α) : Confined Short Settled fun data => .ok (value, data) where
  ok_append h tail := by
    cases h
    rfl
  short_or_settled h := nomatch h

/-- A fault that is found without a look at the data. -/
protected theorem error {fault : ε} (h : Settled fault) :
    Confined Short Settled fun _ => (.error fault : Except ε (α × Bytes)) where
  ok_append h := nomatch h
  short_or_settled hfault := by
    cases hfault
    exact .inr ⟨h, fun _ => rfl⟩

theorem cut (n : Nat) (fault : ε) :
    Confined (· = fault) Settled fun data => orFault fault (Bytes.cut? n data) where
  ok_append {data value rest} h tail := by
    rw [orFault_eq_ok_iff, Bytes.cut?_eq_some_iff] at h ⊢
    rw [h, List.append_assoc]
  short_or_settled h := .inl (orFault_eq_error_iff.1 h).2.symm

theorem cutNat (width : Nat) (fault : ε) :
    Confined (· = fault) Settled fun data => orFault fault (Bytes.cutNat? width data) where
  ok_append {data value rest} h tail := by
    rw [orFault_eq_ok_iff, Bytes.cutNat?_eq_some_iff] at h ⊢
    obtain ⟨hvalue, rfl⟩ := h
    exact ⟨hvalue, List.append_assoc ..⟩
  short_or_settled h := .inl (orFault_eq_error_iff.1 h).2.symm

theorem cutUInt16 (fault : ε) :
    Confined (· = fault) Settled fun data => orFault fault (Bytes.cutUInt16? data) where
  ok_append {data value rest} h tail := by
    rw [orFault_eq_ok_iff, Bytes.cutUInt16?_eq_some_iff] at h ⊢
    rw [h, List.append_assoc]
  short_or_settled h := .inl (orFault_eq_error_iff.1 h).2.symm

/-- Two readers, the second of which goes on where the first has ended. -/
theorem bind {read : Bytes → Except ε (α × Bytes)} {next : α × Bytes → Except ε (β × Bytes)}
    (hread : Confined Short Settled read)
    (hnext : ∀ value, Confined Short Settled fun rest => next (value, rest)) :
    Confined Short Settled fun data => read data >>= next where
  ok_append {data value rest} h tail := by
    obtain ⟨⟨first, left⟩, hfirst, hsecond⟩ := bind_eq_ok_iff.1 h
    rw [hread.ok_append hfirst tail, ok_bind]
    exact (hnext first).ok_append hsecond tail
  short_or_settled {data fault} h := by
    cases hfirst : read data with
    | error first =>
      rw [hfirst, error_bind] at h
      cases h
      rcases hread.short_or_settled hfirst with hshort | ⟨hsettled, hstays⟩
      · exact .inl hshort
      · refine .inr ⟨hsettled, fun tail => ?_⟩
        rw [hstays tail, error_bind]
    | ok found =>
      obtain ⟨first, left⟩ := found
      rw [hfirst, ok_bind] at h
      rcases (hnext first).short_or_settled h with hshort | ⟨hsettled, hstays⟩
      · exact .inl hshort
      · refine .inr ⟨hsettled, fun tail => ?_⟩
        rw [hread.ok_append hfirst tail, ok_bind]
        exact hstays tail

/-- A step that does not take data, before a reader that does. -/
theorem check {step : Except ε α} {next : α → Bytes → Except ε (β × Bytes)}
    (hstep : ∀ fault, step = .error fault → Short fault ∨ Settled fault)
    (hnext : ∀ value, Confined Short Settled (next value)) :
    Confined Short Settled fun data => step >>= fun value => next value data := by
  cases step with
  | ok value => exact hnext value
  | error fault =>
    refine ⟨fun h => (nomatch h), fun h => ?_⟩
    cases h
    rcases hstep fault rfl with hshort | hsettled
    · exact .inl hshort
    · exact .inr ⟨hsettled, fun _ => rfl⟩

theorem mono {Short' : ε → Prop} {read : Bytes → Except ε (α × Bytes)}
    (h : Confined Short Settled read) (hshort : ∀ fault, Short fault → Short' fault) :
    Confined Short' Settled read where
  ok_append := h.ok_append
  short_or_settled hfault := (h.short_or_settled hfault).imp_left (hshort _)

/-- Renamed faults are of the kinds that the names are of. -/
theorem mapError {Short' Settled' : ε' → Prop} {read : Bytes → Except ε (α × Bytes)}
    {rename : ε → ε'} (h : Confined Short Settled read)
    (hshort : ∀ fault, Short fault → Short' (rename fault))
    (hsettled : ∀ fault, Settled fault → Settled' (rename fault)) :
    Confined Short' Settled' fun data => (read data).mapError rename where
  ok_append {data value rest} hok tail := by
    rw [mapError_eq_ok_iff] at hok ⊢
    exact h.ok_append hok tail
  short_or_settled {data fault} hfault := by
    cases hread : read data with
    | ok found => rw [hread] at hfault; cases hfault
    | error first =>
      rw [hread, mapError_error] at hfault
      cases hfault
      rcases h.short_or_settled hread with hfirst | ⟨hfirst, hstays⟩
      · exact .inl (hshort _ hfirst)
      · refine .inr ⟨hsettled _ hfirst, fun tail => ?_⟩
        rw [hstays tail, mapError_error]

section Cut

variable {fault : ε} {read : Bytes → Except ε (α × Bytes)} {wire : Bytes} {value : α}

/-- Data that a confined reader takes wholly is too short when it is cut. -/
theorem read_take (h : Confined (· = fault) Settled read) (hread : read wire = .ok (value, []))
    {k : Nat} (hk : k < wire.length) : read (wire.take k) = .error fault := by
  -- Whatever the reader finds in the part has to be what it finds in the whole.
  have hwhole : wire.take k ++ wire.drop k = wire := List.take_append_drop k wire
  cases hpart : read (wire.take k) with
  | ok found =>
    obtain ⟨other, rest⟩ := found
    have hagain := h.ok_append hpart (wire.drop k)
    rw [hwhole, hread] at hagain
    have hnone : rest ++ wire.drop k = [] := (congrArg Prod.snd (Except.ok.inj hagain)).symm
    have hshort := List.drop_eq_nil_iff.1 (List.append_eq_nil_iff.1 hnone).2
    exact absurd hshort (Nat.not_le_of_lt hk)
  | error other =>
    rcases h.short_or_settled hpart with rfl | ⟨_, hstays⟩
    · rfl
    · have hagain := hstays (wire.drop k)
      rw [hwhole, hread] at hagain
      cases hagain

/-- Data behind the bytes that a confined reader takes is cut together with them. -/
theorem read_take_append (h : Confined (· = fault) Settled read)
    (hread : read wire = .ok (value, [])) (rest : Bytes) (k : Nat) :
    read ((wire ++ rest).take k) =
      if k < wire.length then .error fault else .ok (value, rest.take (k - wire.length)) := by
  rw [List.take_append]
  by_cases hk : k < wire.length
  · rw [if_pos hk, Nat.sub_eq_zero_of_le (Nat.le_of_lt hk), List.take_zero, List.append_nil,
      h.read_take hread hk]
  · rw [if_neg hk, List.take_of_length_le (Nat.le_of_not_lt hk)]
    exact h.ok_append hread _

end Cut

end Confined

end Esni
