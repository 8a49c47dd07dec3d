import Mathlib.Data.List.Induction

/-
  The last write to a field.

  A list of changes is made to a state one after the other. Of a field of the state each change
  may write a value, which may depend on the changes before it, or leave it alone. In the end the
  field holds the last value that was written, or what it held at first.

  What is defined and proved:
    1. `lastWrite writes changes` — the last value that one of the changes writes.
    2. `lastWrite_foldlM` — a field that every step writes as `writes` says, or leaves alone,
       holds that value.
    3. `exists_of_lastWrite` — one of the changes has written it.
-/

namespace LayerCake.Order

variable {α β ε σ : Type} {writes : List α → α → Option β}

/-- The last value written by the changes behind `past`. -/
def lastWriteFrom (writes : List α → α → Option β) (past : List α) : List α → Option β
  | [] => none
  | change :: rest => (lastWriteFrom writes (past ++ [change]) rest).or (writes past change)

/-- The last value that one of the changes writes. -/
def lastWrite (writes : List α → α → Option β) (changes : List α) : Option β :=
  lastWriteFrom writes [] changes

theorem lastWriteFrom_concat (past changes : List α) (change : α) :
    lastWriteFrom writes past (changes ++ [change]) =
      (writes (past ++ changes) change).or (lastWriteFrom writes past changes) := by
  induction changes generalizing past with
  | nil => simp [lastWriteFrom]
  | cons a changes ih =>
    calc lastWriteFrom writes past (a :: (changes ++ [change]))
        = ((writes (past ++ [a] ++ changes) change).or
            (lastWriteFrom writes (past ++ [a]) changes)).or (writes past a) := by
          rw [lastWriteFrom, ih]
      _ = (writes (past ++ a :: changes) change).or (lastWriteFrom writes past (a :: changes)) := by
          rw [Option.or_assoc, List.append_assoc, List.singleton_append]
          rfl

@[simp] theorem lastWrite_nil : lastWrite writes [] = none := rfl

theorem lastWrite_concat (changes : List α) (change : α) :
    lastWrite writes (changes ++ [change]) =
      (writes changes change).or (lastWrite writes changes) :=
  lastWriteFrom_concat [] changes change

/-- A field that every step writes so or leaves alone holds the last value that was written. -/
theorem lastWrite_foldlM {step : σ → α → Except ε σ} {start : σ} (field : σ → β)
    (hstep : ∀ past s change t, past.foldlM step start = .ok s → step s change = .ok t →
      field t = (writes past change).getD (field s)) {changes : List α} {s : σ}
    (h : changes.foldlM step start = .ok s) :
    field s = (lastWrite writes changes).getD (field start) := by
  induction changes using List.reverseRecOn generalizing s with
  | nil =>
    cases h
    rfl
  | append_singleton changes change ih =>
    rw [List.foldlM_append] at h
    cases hpast : changes.foldlM step start with
    | error e =>
      rw [hpast] at h
      cases h
    | ok u =>
      rw [hpast] at h
      simp only [bind, Except.bind, List.foldlM_cons, List.foldlM_nil] at h
      cases hlast : step u change with
      | error e =>
        rw [hlast] at h
        cases h
      | ok t =>
        rw [hlast] at h
        cases h
        rw [hstep changes u change _ hpast hlast, ih hpast, lastWrite_concat]
        cases writes changes change <;> rfl

/-- One of the changes has written it. -/
theorem exists_of_lastWrite {changes : List α} {b : β} (h : lastWrite writes changes = some b) :
    ∃ past, ∃ change ∈ changes, writes past change = some b := by
  induction changes using List.reverseRecOn with
  | nil => cases h
  | append_singleton changes change ih =>
    rw [lastWrite_concat] at h
    cases hwrites : writes changes change with
    | some b' =>
      rw [hwrites] at h
      cases h
      exact ⟨changes, change, by simp, hwrites⟩
    | none =>
      rw [hwrites] at h
      obtain ⟨past, a, ha, hb⟩ := ih h
      exact ⟨past, a, List.mem_append_left _ ha, hb⟩

end LayerCake.Order
