import Sandcube.Path.Basic

/-!
# Captured output

The output of a process is captured twice: `captureLog` of the collector appends it to a file, with
a marker file for what does not fit, and `limitedBuffer` keeps it in memory.  The two count what is
left in different ways, the one down from the size of the file, the other from the length of its
buffer.

A chunk adds to a log what is left of the limit (`Log.add`), and adding two chunks one after the
other is adding them at once (`Log.add_add`).  Both loops and a restart of the collector are chains
of such additions.
-/

namespace Sandcube.Capture

open Sandcube.Path (Bytes)

/-- What was kept, and whether something was not. -/
structure Log where
  content : Bytes := []
  truncated : Bool := false
  deriving DecidableEq

/-! ### `limitedBuffer` -/

/-- `limitedBuffer.Write`: the buffer and the number of bytes that is reported. -/
def write (b : Log) (p : Bytes) : Log × ℕ :=
  let left := 1024 * 1024 - b.content.length
  if left < p.length then (⟨b.content ++ p.take left, true⟩, p.length)
  else (⟨b.content ++ p, b.truncated⟩, p.length)

/-- Several writes: the buffer in the end, and what each has reported. -/
def writeAll (b : Log) : List Bytes → Log × List ℕ
  | [] => (b, [])
  | p :: ps => ((writeAll (write b p).1 ps).1, (write b p).2 :: (writeAll (write b p).1 ps).2)

/-! ### `captureLog` -/

/-- `logLimit` -/
def logLimit : ℕ := 2 ^ 20

/-- How a call of `in.Read` ends. -/
inductive Ending
  | more
  | eof
  | failed
  deriving DecidableEq, Repr

/-- What happens in one round of the loop: the bytes that are read, and the calls on the files that
fail. -/
structure Round where
  data : Bytes
  ending : Ending
  markerFails : Bool := false
  /-- The bytes that a failing write has written. -/
  writeFails : Option ℕ := none
  syncFails : Bool := false

inductive Problem
  | stat
  | marker
  | write
  | sync
  | read
  deriving DecidableEq, Repr

/-- The variables of the loop. -/
structure Collector where
  log : Log
  left : ℕ
  truncated : Bool

/-- `os.WriteFile(marker, …)`, unless it was written by this loop. -/
def mark (r : Round) (c : Collector) : Except Problem Collector :=
  if c.left < r.data.length ∧ c.truncated = false then
    if r.markerFails then .error .marker
    else .ok { c with log := { c.log with truncated := true }, truncated := true }
  else .ok c

/-- `out.Write` and `out.Sync`, when there is something to keep; the log in either case. -/
def append (r : Round) (c : Collector) : Log × Except Problem Collector :=
  let keep := min r.data.length c.left
  if 0 < keep then
    match r.writeFails with
    | some n => ({ c.log with content := c.log.content ++ (r.data.take keep).take n }, .error .write)
    | none =>
      let log := { c.log with content := c.log.content ++ r.data.take keep }
      if r.syncFails then (log, .error .sync)
      else (log, .ok { c with log := log, left := c.left - keep })
  else (c.log, .ok c)

/-- What a round does with its bytes. -/
def keepRound (r : Round) (c : Collector) : Log × Except Problem Collector :=
  if r.data = [] then (c.log, .ok c)
  else
    match mark r c with
    | .error e => (c.log, .error e)
    | .ok c => append r c

/-- `io.Copy(io.Discard, in)`: what is not read of the rounds. -/
def drain : List Round → List Round
  | [] => []
  | r :: rs => if r.ending = .more then drain rs else rs

/-- How a capture ends: the log, the result, and the rounds that were not read. -/
structure Captured where
  log : Log
  problem : Option Problem
  unread : List Round

/-- The loop.  When the rounds are over the stream is at its end. -/
def loop (c : Collector) : List Round → Captured
  | [] => ⟨c.log, none, []⟩
  | r :: rs =>
    match keepRound r c with
    | (log, .error e) => ⟨log, some e, if r.ending = .more then drain rs else rs⟩
    | (log, .ok c) =>
      match r.ending with
      | .more => loop c rs
      | .eof => ⟨log, if r.syncFails then some .sync else none, rs⟩
      | .failed => ⟨log, some .read, drain rs⟩

/-- `captureLog` on the file that is there. -/
def captureLog (statFails : Bool) (log : Log) (rounds : List Round) : Captured :=
  if statFails then ⟨log, some .stat, drain rounds⟩
  else loop ⟨log, logLimit - log.content.length, false⟩ rounds

/-! ### Adding to a log -/

/-- What fits is kept. -/
def Log.add (log : Log) (stream : Bytes) : Log where
  content := log.content ++ stream.take (logLimit - log.content.length)
  truncated := log.truncated || decide (logLimit - log.content.length < stream.length)

@[simp] theorem Log.add_nil (log : Log) : log.add [] = log := by
  simp [Log.add]

/-- Two parts one after the other. -/
theorem Log.add_add (log : Log) (s s' : Bytes) : (log.add s).add s' = log.add (s ++ s') := by
  have hlen : (log.add s).content.length =
      log.content.length + min (logLimit - log.content.length) s.length := by
    rw [Log.add, List.length_append, List.length_take]
  have hleft : logLimit - (log.add s).content.length =
      logLimit - log.content.length - s.length := by omega
  unfold Log.add at hleft ⊢
  dsimp only at hleft ⊢
  rw [hleft]
  congr 1
  · rw [List.append_assoc, List.take_append]
  · rw [Bool.or_assoc, List.length_append, ← Bool.decide_or]
    congr 2
    rw [eq_iff_iff]
    omega

theorem Log.add_empty (stream : Bytes) :
    (({} : Log).add stream) = ⟨stream.take logLimit, decide (logLimit < stream.length)⟩ := by
  simp [Log.add]

/-! ### The loops -/

/-- A write adds its bytes, and reports all of them. -/
theorem write_eq (b : Log) (p : Bytes) : write b p = (b.add p, p.length) := by
  have hlimit : 1024 * 1024 = logLimit := rfl
  unfold write Log.add
  rw [hlimit]
  by_cases hlarge : logLimit - b.content.length < p.length
  · simp [hlarge]
  · have hall : p.take (logLimit - b.content.length) = p := List.take_of_length_le (by omega)
    simp [hlarge, hall]

theorem writeAll_eq (b : Log) (writes : List Bytes) :
    writeAll b writes = (b.add writes.flatten, writes.map List.length) := by
  induction writes generalizing b with
  | nil => simp [writeAll]
  | cons p ps ih => rw [writeAll, write_eq, ih, Log.add_add, List.flatten_cons, List.map_cons]

/-- The rounds deliver the stream, and nothing fails: its parts, the last of them together with the
end or before it. -/
inductive Delivers : List Round → Bytes → Prop
  | done : Delivers [] []
  | last (data : Bytes) : Delivers [{ data := data, ending := .eof }] data
  | more (data : Bytes) {rounds : List Round} {stream : Bytes} (rest : Delivers rounds stream) :
      Delivers ({ data := data, ending := .more } :: rounds) (data ++ stream)

/-- What the loop remembers agrees with the files. -/
structure Collector.Consistent (c : Collector) : Prop where
  left : c.left = logLimit - c.log.content.length
  marked : c.truncated = true → c.log.truncated = true

/-- The marker is there once something does not fit. -/
theorem mark_eq {c : Collector} (h : c.Consistent) (data : Bytes) (ending : Ending) :
    ∃ c' : Collector, mark { data := data, ending := ending } c = .ok c' ∧
      c'.log = ⟨c.log.content, c.log.truncated || decide (c.left < data.length)⟩ ∧
      c'.left = c.left ∧ (c'.truncated = true → c'.log.truncated = true) := by
  unfold mark
  dsimp only
  by_cases hlarge : c.left < data.length
  · by_cases hmarked : c.truncated = true
    · rw [if_neg fun hmark => by rw [hmarked] at hmark; cases hmark.2]
      have hlog := h.marked hmarked
      refine ⟨c, rfl, ?_, rfl, h.marked⟩
      rw [hlog, Bool.true_or, ← hlog]
    · rw [if_pos ⟨hlarge, by simpa using hmarked⟩, if_neg (by decide)]
      refine ⟨_, rfl, ?_, rfl, fun _ => rfl⟩
      rw [decide_eq_true hlarge, Bool.or_true]
  · rw [if_neg fun hmark => hlarge hmark.1]
    refine ⟨c, rfl, ?_, rfl, h.marked⟩
    rw [decide_eq_false hlarge, Bool.or_false]

/-- What fits goes to the file. -/
theorem append_eq (c : Collector) (data : Bytes) (ending : Ending) :
    ∃ c' : Collector, append { data := data, ending := ending } c = (c'.log, .ok c') ∧
      c'.log = ⟨c.log.content ++ data.take c.left, c.log.truncated⟩ ∧
      c'.left = c.left - data.length ∧ c'.truncated = c.truncated := by
  unfold append
  dsimp only
  have htake : data.take (min data.length c.left) = data.take c.left := by
    rw [← List.take_take]
    apply List.take_of_length_le
    rw [List.length_take]
    omega
  by_cases hkeep : 0 < min data.length c.left
  · rw [if_pos hkeep, if_neg (by decide), htake]
    refine ⟨⟨⟨c.log.content ++ data.take c.left, c.log.truncated⟩,
      c.left - min data.length c.left, c.truncated⟩, rfl, rfl, ?_, rfl⟩
    show c.left - min data.length c.left = c.left - data.length
    omega
  · rw [if_neg hkeep]
    refine ⟨c, rfl, ?_, by omega, rfl⟩
    have hnone : data.take c.left = [] := by
      rw [← htake, show min data.length c.left = 0 by omega, List.take_zero]
    rw [hnone, List.append_nil]

/-- A round without failures adds its bytes. -/
theorem keepRound_eq {c : Collector} (h : c.Consistent) (data : Bytes) (ending : Ending) :
    ∃ c' : Collector, keepRound { data := data, ending := ending } c = (c'.log, .ok c') ∧
      c'.log = c.log.add data ∧ c'.Consistent := by
  unfold keepRound
  dsimp only
  by_cases hdata : data = []
  · rw [if_pos hdata]
    exact ⟨c, rfl, by rw [hdata, Log.add_nil], h⟩
  · obtain ⟨c₁, hmark, hlog₁, hleft₁, hmarked₁⟩ := mark_eq h data ending
    obtain ⟨c₂, happend, hlog₂, hleft₂, hmarked₂⟩ := append_eq c₁ data ending
    rw [if_neg hdata, hmark]
    have hlog : c₂.log = c.log.add data := by
      rw [hlog₂, hlog₁, hleft₁, h.left]
      rfl
    refine ⟨c₂, happend, hlog, ?_, fun hmarked => ?_⟩
    · have hlen : (c.log.add data).content.length =
          c.log.content.length + min (logLimit - c.log.content.length) data.length := by
        rw [Log.add, List.length_append, List.length_take]
      rw [hlog, hleft₂, hleft₁, h.left]
      omega
    · rw [hmarked₂] at hmarked
      rw [hlog₂]
      exact hmarked₁ hmarked

/-- The loop adds the stream, and reads it to its end. -/
theorem loop_eq {c : Collector} (h : c.Consistent) {rounds : List Round} {stream : Bytes}
    (hrounds : Delivers rounds stream) : loop c rounds = ⟨c.log.add stream, none, []⟩ := by
  induction hrounds generalizing c with
  | done => rw [loop, Log.add_nil]
  | last data =>
    obtain ⟨c', hkeep, hlog, -⟩ := keepRound_eq h data .eof
    rw [loop, hkeep, hlog]
    rfl
  | more data rest ih =>
    obtain ⟨c', hkeep, hlog, hconsistent⟩ := keepRound_eq h data .more
    rw [loop, hkeep]
    dsimp only
    rw [ih hconsistent, hlog, Log.add_add]

theorem captureLog_eq (log : Log) {rounds : List Round} {stream : Bytes}
    (h : Delivers rounds stream) : captureLog false log rounds = ⟨log.add stream, none, []⟩ :=
  loop_eq ⟨rfl, fun hmarked => by cases hmarked⟩ h

/-- **The two captures agree.**  Whatever the parts in which a stream is read and written, both keep
its first mebibyte and note exactly when there was more, the collector reads the stream to its end,
and every write reports its full length.  A collector that goes on with the files of another one
leaves what one capture of both streams leaves. -/
theorem captures_agree {rounds : List Round} {writes : List Bytes} {stream : Bytes}
    (hrounds : Delivers rounds stream) (hwrites : writes.flatten = stream) :
    captureLog false {} rounds =
        ⟨⟨stream.take (2 ^ 20), decide (2 ^ 20 < stream.length)⟩, none, []⟩ ∧
      (writeAll {} writes).1 = ⟨stream.take (2 ^ 20), decide (2 ^ 20 < stream.length)⟩ ∧
      (writeAll {} writes).2 = writes.map List.length ∧
      ∀ rounds' stream' rounds'', Delivers rounds' stream' → Delivers rounds'' (stream ++ stream') →
        captureLog false (captureLog false {} rounds).log rounds' =
          captureLog false {} rounds'' := by
  refine ⟨?_, ?_, ?_, fun rounds' stream' rounds'' hrounds' hrounds'' => ?_⟩
  · rw [captureLog_eq _ hrounds, Log.add_empty]
    rfl
  · rw [writeAll_eq, hwrites, Log.add_empty]
    rfl
  · rw [writeAll_eq]
  · rw [captureLog_eq _ hrounds, captureLog_eq _ hrounds', captureLog_eq _ hrounds'', Log.add_add]

theorem captures_agree_two :
    captureLog false {} [⟨[1, 2], .more, false, none, false⟩, ⟨[3], .eof, false, none, false⟩] =
        ⟨⟨[1, 2, 3], false⟩, none, []⟩ ∧
      writeAll {} [[1], [], [2, 3]] = (⟨[1, 2, 3], false⟩, [1, 0, 2]) := by
  have hrounds : Delivers [⟨[1, 2], .more, false, none, false⟩, ⟨[3], .eof, false, none, false⟩]
      [1, 2, 3] := .more [1, 2] (.last [3])
  have hwrites : [[1], [], [2, 3]].flatten = ([1, 2, 3] : Bytes) := rfl
  obtain ⟨hcapture, hbuffer, hreported, -⟩ := captures_agree hrounds hwrites
  refine ⟨?_, Prod.ext ?_ hreported⟩
  · rw [hcapture]
    rfl
  · rw [hbuffer]
    rfl

end Sandcube.Capture
