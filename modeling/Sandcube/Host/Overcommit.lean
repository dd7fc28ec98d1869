import Sandcube.Host.Coupling

/-!
# No overcommit

On a host whose containers change through the API's requests only, apart from tasks that
stop by themselves, what runs and what exists always fits the budgets: every container has a
row that reserves what it uses (`Hosted`), and the reservations fit (`Admitted`).
-/

namespace Sandcube

/-- The host belongs to the API.  Calls may fail before or after their effect, in any way, and
the process may be killed at any point. -/
def Setting.host : Setting Containers Fault where
  rules := .any
  job _ _ := True
  drift w runtime := ∃ ids, runtime = w.runtime.exit ids

theorem host_keeps : Setting.host.Keeps Containers.runtime fun w =>
    Hosted w ∧ ∀ x, Unclaimed x w where
  call h _ _ due := ⟨h.1.call due, fun x => (h.2 x).call due⟩
  write h _ _ hw := ⟨h.1.write (fun _ n _ _ _ => h.2 n) hw, fun x => (h.2 x).write hw⟩
  image h _ := ⟨h.1.image _, fun x => (h.2 x).image _⟩
  job _ _ _ := trivial
  done h := ⟨h.1.forget, h.2⟩
  die h := ⟨h.1.forget, h.2⟩
  configure h _ := ⟨⟨h.1.coupled, h.1.exact⟩, h.2⟩
  builds h _ := ⟨⟨h.1.coupled, h.1.exact⟩, h.2⟩
  drift h hlast hd := by
    obtain ⟨ids, rfl⟩ := hd
    refine ⟨h.1.exit hlast ids, fun x hn => ?_⟩
    have hnone := h.2 x hn
    simp [Containers.find?_exit, hnone]

/-- What a container uses: CPU and memory while it runs, disk while it exists. -/
def Container.use (c : Container) : Resource → ℤ
  | .cpu => if c.running then c.spec.cpu else 0
  | .memory => if c.running then c.spec.memoryMb else 0
  | .disk => c.spec.diskMb

/-- What the host really spends. -/
def Containers.used (cs : Containers) (res : Resource) : ℤ := cs.sum (·.use res)

theorem Coupled.use_le {x : String} {row : Row} {c : Container} (h : Coupled x row (some c))
    (hpos : ∀ res, 0 ≤ row.reservation res) (res : Resource) : c.use res ≤ row.reservation res := by
  have hspec := h.spec c rfl
  cases res with
  | cpu =>
    simp only [Container.use]
    split_ifs with hrun
    · rw [hspec]
      exact (h.running c rfl hrun).1.ge
    · exact hpos .cpu
  | memory =>
    simp only [Container.use]
    split_ifs with hrun
    · rw [hspec]
      exact (h.running c rfl hrun).2.ge
    · exact hpos .memory
  | disk =>
    simp only [Container.use]
    rw [hspec]
    exact (h.disk (by simp)).ge

/-- If every container has what it uses reserved, the host spends what is reserved at most. -/
theorem used_le_reserved {w : World Containers} (hadm : Admitted w.journal)
    (hrow : ∀ x c, w.runtime.find? x = some c → ∃ row, w.row? x = some row ∧
      Coupled x row (some c)) (res : Resource) : w.runtime.used res ≤ w.journal.reserved res := by
  refine Table.sum_le_sum _ _ _ _ (fun x c hc => ?_) fun x row h => hadm.nonneg h res
  obtain ⟨row, hr, hcoupled⟩ := hrow x c hc
  exact ⟨row, hr, hcoupled.use_le (hadm.nonneg hr) res⟩

/-- **No overcommit.**  In every reachable state a running container has its CPU and memory
reserved, an existing one its disk, and together they fit the budgets of the host. -/
theorem host_never_overcommitted {codec : Codec} {s : System Containers}
    (hs : s.Reachable codec Containers.runtime .host (· = .empty)) :
    (∀ x c, s.world.runtime.find? x = some c → c.running = true →
      ∃ row, s.world.row? x = some row ∧ c.spec = row.config.spec x ∧
        row.reservedCpu = row.config.cpu ∧ row.reservedMemoryMb = row.config.memoryMb) ∧
    (∀ x c, s.world.runtime.find? x = some c →
      ∃ row, s.world.row? x = some row ∧ c.spec = row.config.spec x ∧
        row.reservedDiskMb = row.config.diskMb) ∧
    ∀ cap, s.world.journal.hostCapacity = some cap →
      ∀ res, s.world.runtime.used res ≤ cap.budget res := by
  obtain ⟨⟨hhosted, hclaimed⟩, -⟩ := hs.invariant host_keeps fun s hstart hempty =>
    ⟨.start hstart, .start hempty⟩
  obtain ⟨hadm, -⟩ := hs.any.invariant (admitted_keeps Containers.runtime) fun s hstart _ => by
    rw [hstart.journal]
    exact .empty
  have hrow : ∀ x c, s.world.runtime.find? x = some c →
      ∃ row, s.world.row? x = some row ∧ Coupled x row (some c) := by
    intro x c hc
    cases hr : s.world.row? x with
    | none => exact absurd ((hclaimed x hr).symm.trans hc) nofun
    | some row => exact ⟨row, rfl, hc ▸ hhosted.coupled hr⟩
  refine ⟨fun x c hc hrun => ?_, fun x c hc => ?_, fun cap hcap res => ?_⟩
  · obtain ⟨row, hr, hcoupled⟩ := hrow x c hc
    exact ⟨row, hr, hcoupled.spec c rfl, hcoupled.running c rfl hrun⟩
  · obtain ⟨row, hr, hcoupled⟩ := hrow x c hc
    exact ⟨row, hr, hcoupled.spec c rfl, hcoupled.disk (by simp)⟩
  · exact (used_le_reserved hadm hrow res).trans (hadm.within hcap res)

/-- The answer to a create is lost after its effect; a sweep finishes the work. -/
def Sample.lostCreate : List (Act Containers Fault) :=
  [.boot Sample.capacity true,
    .request Sample.create [.go default, .go default,
      .go ⟨[], ⟨[], some (true, .lost "timeout")⟩⟩],
    .reconcile Sample.sweep []]

theorem host_never_overcommitted_lostCreate :
    ((Sample.run Sample.lostCreate).world.runtime.find? "sbx_1").map (·.running) = some true ∧
      ∀ res, (Sample.run Sample.lostCreate).world.runtime.used res ≤ Sample.capacity.budget res :=
  ⟨by decide, (host_never_overcommitted (Sample.reachable Sample.lostCreate
    ⟨trivial, ⟨Rules.allows_any _, fun _ _ => trivial⟩, ⟨Rules.allows_any _, trivial⟩, trivial⟩)).2.2
    _ (by decide)⟩

end Sandcube
