import Sandcube.Journal.Statements

/-!
# Admission

`src/capacity.cr`: the persisted budgets of a host and the admission check on them.
-/

namespace Sandcube

namespace Capacity

/-- `Capacity#configure`: the first process on a host persists its budgets, a later one must
come with the same. -/
def configure (cap : Capacity) (j : Journal) : Except Ex Journal :=
  let j := match j.hostCapacity with
    | none => { j with hostCapacity := some cap }
    | some _ => j
  if j.hostCapacity = some cap then .ok j
  else .error (.argument "Capacity configuration differs from the host's persisted budgets")

/-- The answer of a refused reservation. -/
def insufficient : Ex :=
  .image 409 "INSUFFICIENT_CAPACITY" "Host CPU, memory or writable-storage capacity is exhausted"

/-- The demand exceeds what the other sandboxes leave of some budget. -/
def Exceeds (cap : Capacity) (id : String) (cpu memory disk : ℤ) (j : Journal) : Prop :=
  cpu > cap.cpu - (j.sandboxes.erase id).sum Row.reservedCpu ∨
  memory > cap.memoryMb - (j.sandboxes.erase id).sum Row.reservedMemoryMb ∨
  disk > cap.diskMb - (j.sandboxes.erase id).sum Row.reservedDiskMb

instance (cap : Capacity) (id : String) (cpu memory disk : ℤ) (j : Journal) :
    Decidable (cap.Exceeds id cpu memory disk j) := by
  unfold Exceeds; infer_instance

/-- `Capacity#reserve`.  The sums are those of the other rows: a sandbox that is admitted
again replaces its own reservation. -/
def reserve (cap : Capacity) (id : String) (cpu memory disk : ℤ) (j : Journal) :
    Except Ex Journal :=
  if cap.Exceeds id cpu memory disk j then .error insufficient
  else .ok (j.setRow id fun row =>
    { row with reservedCpu := cpu, reservedMemoryMb := memory, reservedDiskMb := disk })

theorem reserve_eq_ok {cap : Capacity} {id : String} {cpu memory disk : ℤ} {j j' : Journal}
    (h : cap.reserve id cpu memory disk j = .ok j') :
    ¬ cap.Exceeds id cpu memory disk j ∧ j' = j.setRow id fun row =>
      { row with reservedCpu := cpu, reservedMemoryMb := memory, reservedDiskMb := disk } := by
  unfold reserve at h
  split_ifs at h with hex
  exact ⟨hex, (Except.ok.inj h).symm⟩

/-- A reservation fails in one way only, and exactly when it would exceed a budget. -/
theorem reserve_eq_error_iff (cap : Capacity) (id : String) (cpu memory disk : ℤ) (j : Journal)
    (e : Ex) :
    cap.reserve id cpu memory disk j = .error e ↔
      cap.Exceeds id cpu memory disk j ∧ e = insufficient := by
  unfold reserve
  split_ifs with hex <;> simp [hex, eq_comm]

theorem configure_eq_ok {cap : Capacity} {j j' : Journal} (h : cap.configure j = .ok j') :
    j' = { j with hostCapacity := some cap } ∧
      (j.hostCapacity = none ∨ j.hostCapacity = some cap) := by
  unfold configure at h
  cases hc : j.hostCapacity with
  | none =>
    simp only [hc, if_true] at h
    exact ⟨(Except.ok.inj h).symm, Or.inl rfl⟩
  | some cap' =>
    simp only [hc] at h
    split_ifs at h with heq
    obtain rfl := Except.ok.inj h
    exact ⟨by rw [← heq, ← hc], Or.inr (by rw [heq])⟩

end Capacity

end Sandcube
