import Sandcube.Adapter.Calm
import Sandcube.Adapter.System

/-!
# The search for a subnet

`setupNetwork` probes the 32768 places of its pool, from one that the name of the network decides,
around the end and back.  The places are subnets of four addresses each, one after the other from
`198.18.0.0` on (`value_subnetAt`); everything about their octets follows from that.
-/

namespace Sandcube.Adapter

variable {host : Host} {id : String} {w : World} {filtered : List Address} {start : ℕ}
variable {place : ℕ} {fates : List (Fate Env)}

/-! ### Addresses as numbers -/

/-- The address as a number of 32 bits. -/
def Address.value (address : Address) : ℕ :=
  ((address.a * 256 + address.b) * 256 + address.c) * 256 + address.d

/-- The text of the address is one of an IPv4 address. -/
def Address.Valid (address : Address) : Prop :=
  address.a < 256 ∧ address.b < 256 ∧ address.c < 256 ∧ address.d < 256

/-- The address is one of the four of a subnet `/30`. -/
def Address.In (address subnet : Address) : Prop :=
  subnet.value ≤ address.value ∧ address.value < subnet.value + 4

/-- The places follow each other. -/
theorem value_subnetAt (place : ℕ) :
    (subnetAt place).value = (198 * 256 + 18) * 65536 + place % 32768 * 4 := by
  unfold subnetAt Address.value
  dsimp only
  omega

theorem valid_subnetAt (place : ℕ) : (subnetAt place).Valid := by
  unfold subnetAt Address.Valid
  dsimp only
  refine ⟨?_, ?_, ?_, ?_⟩ <;> omega

/-- The last octet is a multiple of four. -/
theorem d_subnetAt (place : ℕ) : (subnetAt place).d % 4 = 0 ∧ (subnetAt place).d ≤ 252 := by
  unfold subnetAt
  dsimp only
  omega

theorem inPool_subnetAt (place : ℕ) : inPool (subnetAt place) = true := by
  have hb : (subnetAt place).b = 18 ∨ (subnetAt place).b = 19 := by
    unfold subnetAt
    dsimp only
    omega
  have ha : (subnetAt place).a = 198 := rfl
  rcases hb with hb | hb <;> simp [inPool, ha, hb]

/-- A subnet of the pool: `/30` inside `198.18.0.0/15`, with its two usable addresses. -/
structure Usable (subnet gateway guest : Address) : Prop where
  aligned : subnet.value % 4 = 0
  pool : ∀ address : Address, address.In subnet →
    (198 * 256 + 18) * 65536 ≤ address.value ∧ address.value < (198 * 256 + 20) * 65536
  gateway : gateway.value = subnet.value + 1 ∧ gateway.Valid
  guest : guest.value = subnet.value + 2 ∧ guest.Valid

theorem usable_subnetAt (place : ℕ) :
    Usable (subnetAt place) (gatewayOf (subnetAt place)) (guestOf (subnetAt place)) := by
  have hvalue := value_subnetAt place
  obtain ⟨ha, hb, hc, hd⟩ := valid_subnetAt place
  have hlast := (d_subnetAt place).2
  refine ⟨by omega, fun address h => ?_, ⟨?_, ha, hb, hc, ?_⟩, ⟨?_, ha, hb, hc, ?_⟩⟩
  · unfold Address.In at h
    omega
  · unfold gatewayOf Address.value
    dsimp only
    omega
  · show (subnetAt place).d + 1 < 256
    omega
  · unfold guestOf Address.value
    dsimp only
    omega
  · show (subnetAt place).d + 2 < 256
    omega

/-- Different places have no address in common. -/
theorem subnetAt_disjoint {place' : ℕ} (h : subnetAt place ≠ subnetAt place') (address : Address) :
    ¬ (address.In (subnetAt place) ∧ address.In (subnetAt place')) := by
  rintro ⟨hin, hin'⟩
  unfold Address.In at hin hin'
  rw [value_subnetAt] at hin hin'
  have hplace : place % 32768 = place' % 32768 := by omega
  apply h
  unfold subnetAt
  rw [hplace]

/-! ### The search -/

/-- Neither a route nor a firewall table has the subnet. -/
def Free (w : World) (filtered : List Address) (place : ℕ) : Prop :=
  w.net.routed (subnetAt place) = false ∧ guestOf (subnetAt place) ∉ filtered

/-- The record that the search returns for a place. -/
def recordAt (host : Host) (id : String) (place : ℕ) : NetworkRecord :=
  ⟨id, host.networkName id, guestOf (subnetAt place), gatewayOf (subnetAt place), subnetAt place⟩

/-- The search returns the first free place from `start` on, or none is free. -/
theorem findSubnet_undisturbed (host : Host) (id : String) (w : World) (filtered : List Address)
    (start : ℕ) {left : ℕ} (hleft : left ≤ 32768) (hfates : undisturbed.Allows fates) :
    (∃ offset, 32768 - left ≤ offset ∧ offset < 32768 ∧ Free w filtered (start + offset) ∧
        (findSubnet host id filtered start left w fates).outcome =
          .ok (recordAt host id (start + offset))) ∨
      (∀ offset, 32768 - left ≤ offset → offset < 32768 → ¬ Free w filtered (start + offset)) ∧
        (findSubnet host id filtered start left w fates).outcome =
          .raised (.other "sandbox network address pool exhausted") := by
  induction left generalizing fates with
  | zero => exact .inr ⟨fun offset hlow hhigh => by omega, rfl⟩
  | succ left ih =>
    obtain ⟨fates', hfates', hquery⟩ := query_undisturbed host w hfates
      (fun w => .ok (w.net.routed (subnetAt (start + (32768 - (left + 1))))))
    have hstep : findSubnet host id filtered start (left + 1) w fates =
        if w.net.routed (subnetAt (start + (32768 - (left + 1)))) = true ∨
            guestOf (subnetAt (start + (32768 - (left + 1)))) ∈ filtered then
          findSubnet host id filtered start left w fates'
        else ⟨.ok (recordAt host id (start + (32768 - (left + 1)))), w, fates'⟩ := by
      rw [findSubnet]
      refine (Prog.bind_of_ok hquery).trans ?_
      split_ifs <;> rfl
    rw [hstep]
    by_cases htaken : w.net.routed (subnetAt (start + (32768 - (left + 1)))) = true ∨
        guestOf (subnetAt (start + (32768 - (left + 1)))) ∈ filtered
    · rw [if_pos htaken]
      have hnot : ¬ Free w filtered (start + (32768 - (left + 1))) := by
        rintro ⟨hroute, hguest⟩
        rcases htaken with hrouted | hmem
        · rw [hroute] at hrouted
          cases hrouted
        · exact hguest hmem
      rcases ih (by omega) hfates' with ⟨offset, hlow, hhigh, hfree, hok⟩ | ⟨hnone, hraised⟩
      · exact .inl ⟨offset, by omega, hhigh, hfree, hok⟩
      · refine .inr ⟨fun offset hlow hhigh => ?_, hraised⟩
        by_cases hhere : offset = 32768 - (left + 1)
        · rw [hhere]
          exact hnot
        · exact hnone offset (by omega) hhigh
    · rw [if_neg htaken]
      rw [not_or] at htaken
      exact .inl ⟨32768 - (left + 1), by omega, by omega, ⟨by simpa using htaken.1, htaken.2⟩, rfl⟩

theorem subnetAt_mod (place : ℕ) : subnetAt (place % 32768) = subnetAt place := by
  unfold subnetAt
  rw [Nat.mod_mod]

theorem free_mod_iff : Free w filtered (place % 32768) ↔ Free w filtered place := by
  unfold Free
  rw [subnetAt_mod]

/-- Every place is probed. -/
theorem exists_offset (start : ℕ) (h : place < 32768) :
    ∃ offset < 32768, (start + offset) % 32768 = place := by
  refine ⟨(place + (32768 - start % 32768)) % 32768, Nat.mod_lt _ (by decide), ?_⟩
  omega

theorem inPool_guestOf (place : ℕ) : inPool (guestOf (subnetAt place)) = true :=
  inPool_subnetAt place

/-- An address of the pool passes the check of `clearConntrack`. -/
theorem clearConntrack_undisturbed (host : Host) (w : World) {guest : Address}
    (h : inPool guest = true) (hfates : undisturbed.Allows fates) :
    (clearConntrack host guest w fates).outcome = .ok () := by
  have hflush : ∀ (w : World) (f : Net → Net) {fates : List (Fate Env)},
      undisturbed.Allows fates → ∃ fates', undisturbed.Allows fates' ∧
        netEffect host f w fates = ⟨.ok (), w.withNet f, fates'⟩ := by
    intro w f fates hfates
    obtain ⟨env, fates', hgranted, hfault, hback, hfates'⟩ := granted_undisturbed hfates
    refine ⟨fates', hfates', ?_⟩
    unfold netEffect effect call
    rw [Prog.atomic_apply hgranted, hfault, hback]
    rfl
  unfold clearConntrack
  rw [if_pos h]
  obtain ⟨fates₁, hfates₁, hsrc⟩ := hflush w _ hfates
  obtain ⟨fates₂, hfates₂, hdst⟩ := hflush _ _ hfates₁
  refine (congrArg Result.outcome (Prog.bind_of_ok hsrc)).trans ?_
  exact congrArg Result.outcome (Prog.bind_of_ok hdst)

/-! ### The allocation -/

/-- What the search answers: the record of a free place if there is one, and an error else. -/
def Answers (host : Host) (id : String) (w : World) (filtered : List Address)
    (outcome : Outcome Err NetworkRecord) : Prop :=
  ((∃ place < 32768, Free w filtered place) →
    ∃ place < 32768, Free w filtered place ∧ outcome = .ok (recordAt host id place)) ∧
  ((∀ place < 32768, ¬ Free w filtered place) →
    outcome = .raised (.other "sandbox network address pool exhausted"))

theorem findSubnet_answers (host : Host) (id : String) (w : World) (filtered : List Address)
    (start : ℕ) (hfates : undisturbed.Allows fates) :
    Answers host id w filtered (findSubnet host id filtered start 32768 w fates).outcome := by
  rcases findSubnet_undisturbed host id w filtered start le_rfl hfates with
    ⟨offset, -, -, hfree, hok⟩ | ⟨hnone, hraised⟩
  · have hplace : (start + offset) % 32768 < 32768 := Nat.mod_lt _ (by decide)
    have hfree' : Free w filtered ((start + offset) % 32768) := free_mod_iff.mpr hfree
    refine ⟨fun _ => ⟨_, hplace, hfree', ?_⟩, fun hnone => absurd hfree' (hnone _ hplace)⟩
    rw [hok]
    unfold recordAt
    rw [subnetAt_mod]
  · refine ⟨?_, fun _ => hraised⟩
    rintro ⟨place, hplace, hfree⟩
    obtain ⟨offset, hoffset, rfl⟩ := exists_offset start hplace
    exact absurd (free_mod_iff.mp hfree) (hnone offset (by omega) hoffset)

/-- The search ends with a free subnet whenever one of the 32768 is free, and reports exhaustion
otherwise.  Whatever two searches pick are usable subnets of the pool, equal or disjoint, and their
guests pass the check of `clearConntrack`. -/
theorem allocation_exact (host : Host) (id : String) (w : World) (filtered : List Address)
    (start : ℕ) (fates : List (Fate Env)) (hfates : undisturbed.Allows fates) :
    Answers host id w filtered (findSubnet host id filtered start 32768 w fates).outcome ∧
      ∀ r, (findSubnet host id filtered start 32768 w fates).outcome = .ok r →
        Usable r.subnet r.gateway r.guest ∧
        (∀ w' fates', undisturbed.Allows fates' →
          (clearConntrack host r.guest w' fates').outcome = .ok ()) ∧
        ∀ id' w' filtered' start' fates' r', undisturbed.Allows fates' →
          (findSubnet host id' filtered' start' 32768 w' fates').outcome = .ok r' →
          r'.subnet ≠ r.subnet →
            ∀ address : Address, ¬ (address.In r'.subnet ∧ address.In r.subnet) := by
  -- Every pick is the record of a place.
  have hpick : ∀ {id w filtered start fates r}, undisturbed.Allows fates →
      (findSubnet host id filtered start 32768 w fates).outcome = .ok r →
        ∃ place, r = recordAt host id place := by
    intro id w filtered start fates r hfates hr
    rcases findSubnet_undisturbed host id w filtered start le_rfl hfates with
      ⟨offset, -, -, -, hok⟩ | ⟨-, hraised⟩
    · exact ⟨start + offset, Outcome.ok.inj (hr.symm.trans hok)⟩
    · exact nomatch hr.symm.trans hraised
  refine ⟨findSubnet_answers host id w filtered start hfates, fun r hr => ?_⟩
  obtain ⟨place, rfl⟩ := hpick hfates hr
  refine ⟨usable_subnetAt place, fun w' fates' hfates' => ?_, ?_⟩
  · exact clearConntrack_undisturbed host w' (inPool_guestOf place) hfates'
  · intro id' w' filtered' start' fates' r' hfates' hr' hne
    obtain ⟨place', rfl⟩ := hpick hfates' hr'
    exact subnetAt_disjoint hne

/-- Somebody else's route on the last place, and a firewall that outlived its route on the first. -/
def crowded : World :=
  { World.pristine with
    net := { World.pristine.net with foreign := fun subnet => subnet = subnetAt 32767 } }

theorem allocation_exact_wraps :
    (findSubnet .plain "sbx_a" [guestOf (subnetAt 0)] 32767 32768 crowded []).outcome =
        .ok (recordAt .plain "sbx_a" 1) ∧
      Usable ⟨198, 18, 0, 4⟩ ⟨198, 18, 0, 5⟩ ⟨198, 18, 0, 6⟩ := by
  have hr : (findSubnet .plain "sbx_a" [guestOf (subnetAt 0)] 32767 32768 crowded []).outcome =
      .ok (recordAt .plain "sbx_a" 1) := by decide +kernel
  obtain ⟨-, hpicks⟩ := allocation_exact .plain "sbx_a" crowded [guestOf (subnetAt 0)] 32767 []
    (Adversary.allows_nil _)
  exact ⟨hr, (hpicks _ hr).1⟩

end Sandcube.Adapter
