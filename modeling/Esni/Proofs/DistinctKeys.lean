/-!
# Lists with distinct keys

Some lists hold at most one item for each key: key shares one for each group, a registry one for
each type. Then the item that is found for a key is the only one that has it, and it does not matter
where in the list it stands.

## Main statements

- `filter_key_of_mem` — an item is the only one with its key
- `find?_key_eq_some_iff` — what is found for a key
- `find?_key_of_perm` — the order of the items does not matter
-/

namespace Esni

variable {α κ : Type} [DecidableEq κ] {key : α → κ} {items items' : List α} {item : α}

/-- Among items with distinct keys only one can have a given key. -/
theorem filter_key_of_mem (h : (items.map key).Nodup) (hmem : item ∈ items) :
    items.filter (key · = key item) = [item] := by
  induction items with
  | nil => cases hmem
  | cons first others ih =>
    rw [List.map_cons, List.nodup_cons] at h
    obtain ⟨hfirst, hothers⟩ := h
    rcases List.mem_cons.1 hmem with rfl | hmem
    · have hnone : others.filter (key · = key item) = [] := by
        rw [List.filter_eq_nil_iff]
        intro other hother
        rw [decide_eq_true_eq]
        exact fun hkey => hfirst (hkey ▸ List.mem_map_of_mem hother)
      rw [List.filter_cons_of_pos (by simp), hnone]
    · have hne : key first ≠ key item := fun hkey => hfirst (hkey ▸ List.mem_map_of_mem hmem)
      rw [List.filter_cons_of_neg (by simpa using hne), ih hothers hmem]

/-- The item that is found for a key is the one that has it. -/
theorem find?_key_eq_some_iff (h : (items.map key).Nodup) {k : κ} :
    items.find? (key · = k) = some item ↔ item ∈ items ∧ key item = k := by
  constructor
  · intro hfind
    exact ⟨List.mem_of_find?_eq_some hfind, by simpa using List.find?_some hfind⟩
  · rintro ⟨hmem, rfl⟩
    rw [← List.head?_filter, filter_key_of_mem h hmem, List.head?_singleton]

theorem find?_key_of_perm (hperm : items.Perm items') (h : (items'.map key).Nodup) (k : κ) :
    items.find? (key · = k) = items'.find? (key · = k) := by
  have hitems : (items.map key).Nodup := (hperm.map key).nodup_iff.2 h
  apply Option.ext
  intro item
  rw [find?_key_eq_some_iff hitems, find?_key_eq_some_iff h, hperm.mem_iff]

end Esni
