import Sandcube.Invariants.Records

/-!
# Exactly-once keyed requests

The first request under a key leaves the key's record in the transaction that accepts it; every
later one is answered from that record.  A sandbox is created in that transaction only, so a
key creates one sandbox at most.
-/

open Relation

namespace Sandcube

open Reliability

variable {ρ ψ : Type} [Inhabited ψ]
variable {job : Job} {y newId fingerprint : String} {r : Request} {rec : Record}
variable {R : Runtime ρ ψ} {rules : Rules ψ} {s : System ρ} {cap : Capacity}
  {fates : List (Fate (Env ψ))} {x key : String} {w w' : World ρ} {codec : Codec}

/-! ### What one request does to the records -/

/-- The moves of a request as a step of the system. -/
theorem next_request_moves (codec : Codec) (hapi : s.api = some cap) (r : Request)
    (hfates : rules.adversary.Allows fates) :
    ∃ x w, ReflTransGen (Move R rules (requestJob codec cap r s.world) x) s.world w ∧
      (s.next codec R (.request r fates)).world.journal = w.journal := by
  obtain ⟨x, hmoves⟩ := request_moves codec R cap r s.world hfates
  refine ⟨x, _, hmoves, ?_⟩
  simp only [System.next, hapi, System.after]
  split <;> rfl

/-- Only a request creates a sandbox. -/
theorem Move.row?_eq_none (hmove : Move R rules job x w w') (hjob : job.Recovers)
    (hn : w.row? y = none) : w'.row? y = none := by
  have hchange := hmove.changes y
  rw [hn] at hchange
  generalize w'.row? y = row at hchange ⊢
  cases hchange with
  | same => rfl
  | create asked => exact absurd asked hjob.ne

/-- The record of a sandbox that a keyed request created. -/
theorem Move.created (hmove : Move R rules (.request cap newId fingerprint (some key)) x w w')
    (hn : w.row? y = none) (hnew : w'.row? y ≠ none) :
    ∃ rec, w'.journal.requests.find? key = some rec ∧ rec.sandboxId = y ∧ rec.action = .create := by
  have hy : y = x := by
    by_contra hy
    exact hnew ((hmove.row?_of_ne hy).trans hn)
  subst hy
  cases hmove with
  | image may => exact absurd (by rwa [w.row?_image]) hnew
  | call may due => exact absurd hn hnew
  | @write j write =>
    cases write with
    | accept asked drawn listed accepted =>
      cases asked
      cases accepted with
      | create config expiresAt sandboxes fits image requests =>
        exact ⟨_, by rw [show (w.withJournal fun _ => j).journal = j from rfl,
          Table.find?_insert? requests, if_pos rfl], rfl, rfl⟩
      | move action row old found => exact nomatch hn.symm.trans found
    | row found | complete found | compensate found => exact nomatch hn.symm.trans found
    | count name | dropImage sweeping gone answer => exact absurd hn hnew

/-- The record of a key after a move. -/
theorem Move.recordChange (hmove : Move R rules job x w w') (key : String) :
    RecordChange job x key (w.journal.requests.find? key) (w'.journal.requests.find? key) := by
  cases hmove with
  | image may =>
    rw [(w.image_journal _).2.1]
    exact .same _
  | call may due => exact .same _
  | write write => exact write.recordChange key

/-- What the first request under a key leaves under it. -/
structure First (fingerprint key : String) (w₀ w : World ρ) : Prop where
  fingerprint : ∀ rec, w.journal.requests.find? key = some rec → rec.fingerprint = fingerprint
  created : ∀ y, w₀.row? y = none → w.row? y ≠ none →
    ∃ rec, w.journal.requests.find? key = some rec ∧ rec.sandboxId = y ∧ rec.action = .create

theorem First.moves {w₀ : World ρ} (hfree : w₀.journal.requests.find? key = none)
    (hmoves : ReflTransGen (Move R rules (.request cap newId fingerprint (some key)) x) w₀ w) :
    First fingerprint key w₀ w := by
  induction hmoves with
  | refl => exact ⟨(fun rec h => nomatch hfree.symm.trans h), fun y hn h => absurd hn h⟩
  | @tail w w' _ hmove ih =>
    have hchange := hmove.recordChange key
    constructor
    · intro rec hrec
      rw [hrec] at hchange
      generalize hold : w.journal.requests.find? key = old at hchange
      cases hchange with
      | grow grows => exact grows.fingerprint.trans (ih.fingerprint _ hold)
      | remember action asked =>
        cases asked
        rfl
    · intro y hn hnew
      by_cases hy : w.row? y = none
      · exact hmove.created hy hnew
      · obtain ⟨rec, hrec, hid, haction⟩ := ih.created y hn hy
        rw [hrec] at hchange
        generalize w'.journal.requests.find? key = new at hchange
        cases hchange with
        | grow grows =>
          exact ⟨_, rfl, grows.sandboxId.trans hid, grows.action.trans haction⟩

/-- Nobody uses the key. -/
def Setting.without (key : String) (rules : Rules ψ) : Setting ρ ψ where
  rules := rules
  job job _ := ∀ cap newId fingerprint, job ≠ .request cap newId fingerprint (some key)
  drift _ _ := True

theorem without_keeps (R : Runtime ρ ψ) (key : String) (rules : Rules ψ) :
    (Setting.without key rules).Keeps R fun w => w.journal.requests.find? key = none where
  call h _ _ _ := h
  write {job x j w} h hjob _ hw := by
    have hchange := hw.recordChange key
    rw [h] at hchange
    change j.requests.find? key = none
    generalize j.requests.find? key = new at hchange ⊢
    cases hchange with
    | none => rfl
    | remember action asked => exact absurd asked (hjob _ _ _)
  image {step w} h _ := by rwa [(w.image_journal step).2.1]
  job _ hjob _ := hjob
  done h := h
  die h := h
  configure h _ := h
  builds h _ := h
  drift h _ _ := h

/-- Only a request under the key makes the record of a key. -/
theorem record_made_under_key (hs : s.Settled) (hfree : s.world.journal.requests.find? key = none)
    {act : Act ρ ψ} (hok : (Setting.free rules).Ok codec s act)
    (hmade : (s.next codec R act).world.journal.requests.find? key ≠ none) :
    ∃ r fates, act = .request r fates ∧ r.key = some key := by
  by_contra hother
  push Not at hother
  have hok' : (Setting.without key rules).Ok codec s act := by
    cases act with
    | boot cap imageApi | halt => trivial
    | image step => exact hok
    | drift runtime => trivial
    | reconcile sweep fates => exact ⟨hok.1, nofun⟩
    | request r fates =>
      refine ⟨hok.1, fun cap _ cap' newId fingerprint hjob => ?_⟩
      unfold requestJob at hjob
      split_ifs at hjob
      exact hother r fates rfl (Job.request.inj hjob).2.2.2
  exact hmade (System.next_keeps (without_keeps R key rules) hfree hs hok').1

/-! ### The theorem -/

/-- The client sent the same request. -/
def Request.Same (r r' : Request) : Prop :=
  r.method = r'.method ∧ r.path = r'.path ∧ r.body = r'.body

theorem Request.Routed.fingerprint_eq_iff (hdigest : Function.Injective codec.hexdigest)
    {r' : Request} (h : r.Routed) (h' : r'.Routed) :
    r.fingerprint codec = r'.fingerprint codec ↔ r.Same r' := by
  refine ⟨fun heq => h.eq_of_text_eq h' (hdigest heq), fun ⟨hmethod, hpath, hbody⟩ => ?_⟩
  simp only [Request.fingerprint, Request.text, hmethod, hpath, hbody]

/-- What a stored answer means to the client. -/
def Saved.outcome (status : ℕ) : Saved → Outcome Ex Answer
  | .response r => .ok (.response r)
  | .body text => .raised (.runtime status text)

/-- A request under a key that has a record is answered from it at once. -/
theorem request_of_previous (cap : Capacity) (hbooked : Booked w) (hr : r.Routed)
    (hkey : r.key = some key) (hallowed : Request.keyAllowed key)
    (hrec : w.journal.requests.find? key = some rec) (fates : List (Fate (Env ψ))) :
    (rec.fingerprint = r.fingerprint codec → ∀ saved, rec.response = some saved →
      request codec R cap r w fates = ⟨saved.outcome rec.responseStatus, w, fates⟩) ∧
    (rec.fingerprint ≠ r.fingerprint codec →
      request codec R cap r w fates = ⟨.raised conflict, w, fates⟩) := by
  have hcheck : ∃ action, r.check = .ok action := by
    obtain ⟨action, haction⟩ := Option.ne_none_iff_exists'.mp hr.ofText?_ne_none
    exact ⟨action, by simp [Request.check, hkey, hallowed, haction]⟩
  obtain ⟨action, hcheck⟩ := hcheck
  have hprevious : previous r.key w.journal = some (key, rec) := by simp [previous, hkey, hrec]
  refine ⟨fun heq saved hsaved => ?_, fun hne => ?_⟩
  · simp only [request_eq, hcheck, hprevious, replay, heq, ne_eq, not_true_eq_false, if_false, hsaved]
    have hrecorded := hbooked.records hrec
    cases saved with
    | response res =>
      obtain ⟨hstatus, -⟩ := hrecorded.completed res hsaved
      simp [outcome, hstatus, Saved.parse, Prog.ofExcept, Prog.pure_apply, Saved.outcome]
    | body text =>
      have hstatus := hrecorded.failed text hsaved
      simp [outcome, hstatus, Saved.text, Prog.ofExcept, Prog.raise_apply, Saved.outcome]
  · simp only [request_eq, hcheck, hprevious, replay, ne_eq, hne, not_false_eq_true, if_true]
    rfl

/-- The first request under a key, as a step of the system. -/
theorem next_first (codec : Codec) (R : Runtime ρ ψ) (hkey : r.key = some key)
    (hfates : rules.adversary.Allows fates) (hfree : s.world.journal.requests.find? key = none) :
    First (r.fingerprint codec) key s.world (s.next codec R (.request r fates)).world := by
  cases hapi : s.api with
  | none =>
    have hsame : s.next codec R (.request r fates) = s := by simp only [System.next, hapi]
    rw [hsame]
    refine ⟨fun rec h => ?_, fun y hn h => absurd hn h⟩
    cases hfree.symm.trans h
  | some cap =>
    obtain ⟨x, w, hmoves, hjournal⟩ := next_request_moves codec hapi r hfates
    have hjob : requestJob codec cap r s.world =
        .request cap ("sbx_" ++ r.uuid) (r.fingerprint codec) (some key) := by
      simp [requestJob, previous, hkey, hfree, Request.job]
    rw [hjob] at hmoves
    have hfirst := First.moves hfree hmoves
    exact ⟨by rw [hjournal]; exact hfirst.fingerprint, by
      simp only [World.row?, hjournal]
      exact hfirst.created⟩

/-- A request under a key that has a record creates nothing. -/
theorem row?_next_of_record (hkey : r.key = some key) (hfates : rules.adversary.Allows fates)
    (hrec : s.world.journal.requests.find? key = some rec) (hn : s.world.row? x = none) :
    (s.next codec R (.request r fates)).world.row? x = none := by
  cases hapi : s.api with
  | none =>
    simp only [System.next, hapi]
    exact hn
  | some cap =>
    obtain ⟨y, w, hmoves, hjournal⟩ := next_request_moves codec (R := R) hapi r hfates
    have hjob : requestJob codec cap r s.world = .retry := by
      simp [requestJob, previous, hkey, hrec]
    rw [hjob] at hmoves
    rw [World.row?, hjournal]
    clear hjournal
    induction hmoves with
    | refl => exact hn
    | tail _ hmove ih => exact hmove.row?_eq_none trivial ih

/-- A request that leaves its key's record passed the check of the key. -/
theorem keyAllowed_of_next (hkey : r.key = some key)
    (hfree : s.world.journal.requests.find? key = none)
    (hmade : (s.next codec R (.request r fates)).world.journal.requests.find? key ≠ none) :
    Request.keyAllowed key := by
  by_contra hbad
  have hcheck : r.check = .error
      (.argument "Idempotency-Key must contain 1–200 printable ASCII characters") := by
    simp [Request.check, hkey, hbad]
  refine hmade ?_
  simp only [System.next]
  cases s.api with
  | none => exact hfree
  | some cap =>
    simp only [request_eq, hcheck, System.after]
    exact hfree

/-- **Exactly-once keyed requests.**  A record is made by a request under its key only, and a
sandbox that such a request creates is the one its record names.  From then on the record stays:
what was asked never changes, and an answer is given once.  Under the key, the same request is
answered with the stored outcome and another request is refused, both without a step; none
creates a sandbox. -/
theorem keyed_requests_exactly_once {codec : Codec} {R : Runtime ρ ψ} {rules : Rules ψ}
    {init : ρ → Prop} {s : System ρ} {key : String}
    (hdigest : Function.Injective codec.hexdigest) (hR : R.ErrorStatuses rules.choice)
    (hs : s.Reachable codec R (.free rules) init)
    (hfree : s.world.journal.requests.find? key = none) :
    (∀ act, (Setting.free rules).Ok codec s act →
      (s.next codec R act).world.journal.requests.find? key ≠ none →
      ∃ r fates, act = .request r fates ∧ r.key = some key) ∧
    ∀ r₀ fates₀, r₀.Routed → r₀.key = some key → rules.adversary.Allows fates₀ →
    (∀ x, s.world.row? x = none → (s.next codec R (.request r₀ fates₀)).world.row? x ≠ none →
      ∃ rec, (s.next codec R (.request r₀ fates₀)).world.journal.requests.find? key = some rec ∧
        rec.sandboxId = x ∧ rec.action = .create) ∧
    ∀ rec t, (s.next codec R (.request r₀ fates₀)).world.journal.requests.find? key = some rec →
      System.Later codec R (.free rules) (s.next codec R (.request r₀ fates₀)) t →
      ∃ rec', t.world.journal.requests.find? key = some rec' ∧ rec.Grows rec' ∧
        (∀ t', System.Later codec R (.free rules) t t' →
          ∃ rec'', t'.world.journal.requests.find? key = some rec'' ∧ rec'.Grows rec'') ∧
        ∀ r cap fates, r.Routed → r.key = some key → rules.adversary.Allows fates →
          (r.Same r₀ → ∀ saved, rec'.response = some saved →
            request codec R cap r t.world fates =
              ⟨saved.outcome rec'.responseStatus, t.world, fates⟩) ∧
          (¬ r.Same r₀ → request codec R cap r t.world fates = ⟨.raised conflict, t.world, fates⟩) ∧
          ∀ x, t.world.row? x = none →
            (t.next codec R (.request r fates)).world.row? x = none := by
  obtain ⟨hbooked, hsettled⟩ := hs.booked hR
  refine ⟨fun act hok hmade => record_made_under_key hsettled hfree hok hmade,
    fun r₀ fates₀ hr₀ hkey₀ hfates₀ => ?_⟩
  have hfirst := next_first codec R hkey₀ hfates₀ hfree
  refine ⟨hfirst.created, fun rec t hrec hlater => ?_⟩
  have hs₁ : System.Reachable codec R (.free rules) init (s.next codec R (.request r₀ fates₀)) :=
    hs.step ⟨hfates₀, fun _ _ => trivial⟩
  obtain ⟨hbooked₁, hsettled₁⟩ := hs₁.booked hR
  obtain ⟨⟨rec', hrec', hgrows⟩, -⟩ := hlater.invariant (record_keeps R rules key rec)
    ⟨rec, hrec, .refl rec⟩ hsettled₁
  obtain ⟨hbooked', hsettled'⟩ := hlater.invariant (booked_keeps hR) hbooked₁ hsettled₁
  refine ⟨rec', hrec', hgrows, fun t' hlater' => ?_, fun r cap fates hr hkey hfates => ?_⟩
  · exact (hlater'.invariant (record_keeps R rules key rec') ⟨rec', hrec', .refl rec'⟩ hsettled').1
  have hallowed := keyAllowed_of_next (R := R) hkey₀ hfree (by rw [hrec]; nofun)
  have hfingerprint : rec'.fingerprint = r₀.fingerprint codec :=
    hgrows.fingerprint.trans (hfirst.fingerprint rec hrec)
  have hsame : rec'.fingerprint = r.fingerprint codec ↔ r.Same r₀ := by
    rw [hfingerprint, eq_comm, hr.fingerprint_eq_iff hdigest hr₀]
  obtain ⟨hreplay, hconflict⟩ := request_of_previous (R := R) cap hbooked' hr hkey hallowed hrec'
    fates
  exact ⟨fun h => hreplay (hsame.mpr h), fun h => hconflict (mt hsame.mp h),
    fun x hn => row?_next_of_record hkey hfates hrec' hn⟩

/-- The sample create, sent twice under its key. -/
theorem keyed_requests_exactly_once_create :
    ∃ saved status, request Sample.codec Containers.runtime Sample.capacity Sample.create
        (Sample.run [.boot Sample.capacity true, .request Sample.create []]).world [] =
      ⟨Saved.outcome status saved,
        (Sample.run [.boot Sample.capacity true, .request Sample.create []]).world, []⟩ := by
  have hbooted : (Sample.run [.boot Sample.capacity true]).Reachable Sample.codec Containers.runtime
      (.free .proper) (· = .empty) := Sample.reachable _ ⟨trivial, trivial⟩
  have hrouted : Sample.create.Routed := .create rfl rfl nofun
  obtain ⟨rec', hrec', -, -, hlater⟩ := ((keyed_requests_exactly_once Function.injective_id
    Containers.errorStatuses hbooted rfl).2 Sample.create [] hrouted rfl (Adversary.allows_nil _)).2
    _ _ rfl .refl
  cases hrec'
  exact ⟨_, _, (hlater Sample.create Sample.capacity [] hrouted rfl (Adversary.allows_nil _)).1
    ⟨rfl, rfl, rfl⟩ _ rfl⟩

end Sandcube
