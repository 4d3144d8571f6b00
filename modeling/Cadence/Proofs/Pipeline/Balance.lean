import Cadence.Pipeline
import Cadence.Proofs.Bus.Mailbox

/-!
# The traffic balances

The counters of a pipeline are raised some steps after what they count has happened, by whoever did it.
`Throughput` keeps the totals that they stand for, and `Balanced` says for every moment where each sample
and each message is: counted, in a buffer, or in the hands of someone who has still to count it.  With
nothing in progress that is the balance of the report (`report_balances`).
-/

namespace Cadence

/-! ## 1. Totals -/

structure Throughput where
  samples : Nat
  queued : Nat
  rejected : Nat
  consumed : Nat
  received : Nat
  dropped : Nat

namespace Throughput

def zero : Throughput := ⟨0, 0, 0, 0, 0, 0⟩

def traffic (t : Throughput) : Traffic where
  samples := UInt64.ofNat t.samples
  queued := UInt64.ofNat t.queued
  queueRejected := UInt64.ofNat t.rejected
  consumed := UInt64.ofNat t.consumed
  busReceived := UInt64.ofNat t.received

structure Fits (t : Throughput) : Prop where
  samples : t.samples ≤ maxWord
  received : t.received ≤ maxWord
  dropped : t.dropped ≤ maxWord

def note (t : Throughput) (p : Pipeline) : Pipeline.Step → Throughput
  | .count =>
    match p.callback with
    | .pushed true => { t with samples := t.samples + 1, queued := t.queued + 1 }
    | .pushed false => { t with samples := t.samples + 1, rejected := t.rejected + 1 }
    | _ => t
  | .publish delta => { t with dropped := t.dropped + (p.publish delta).1.length }
  | .countDrained =>
    match p.callback with
    | .drained n => { t with received := t.received + n }
    | _ => t
  | .countTaken => { t with consumed := t.consumed + 1 }
  | _ => t

/-- The counters go on standing for the totals when a sample is counted. -/
theorem traffic_count (t : Throughput) {p : Pipeline} {accepted : Bool}
    (hpushed : p.callback = .pushed accepted) :
    (t.traffic.recordSample accepted).2 = (t.note p .count).traffic := by
  rw [note, hpushed]
  cases accepted with
  | false =>
    simp only [Traffic.recordSample, traffic, UInt64.ofNat_add]
    rfl
  | true =>
    simp only [Traffic.recordSample, traffic, UInt64.ofNat_add]
    rfl

end Throughput

namespace Pipeline

/-- Carry out steps one after the other, as far as each has its turn, with the samples taken off the
queue in order, and keep the totals. -/
def meter (p : Pipeline) (t : Throughput) :
    List Step → Option (List Message × Pipeline × Throughput)
  | [] => some ([], p, t)
  | s :: rest => do
    let (taken, p') ← p.step? s
    let (more, last) ← p'.meter (t.note p s) rest
    some (taken.toList ++ more, last)

/-- The totals do not change the run. -/
theorem meter_run (p : Pipeline) (t : Throughput) (steps : List Step) :
    (p.meter t steps).map (fun r => (r.1, r.2.1)) = p.run? steps := by
  induction steps generalizing p t with
  | nil => rfl
  | cons s rest ih =>
    rw [meter, run?]
    cases p.step? s with
    | none => rfl
    | some stepped =>
      obtain ⟨taken, p'⟩ := stepped
      show ((p'.meter (t.note p s) rest).bind _).map _ = (p'.run? rest).bind _
      rw [← ih p' (t.note p s)]
      cases p'.meter (t.note p s) rest <;> rfl

/-! ## 2. What is on its way -/

def numbered (n : Nat) : Message := .u64 sampleLabel (UInt64.ofNat n)

end Pipeline

namespace CallbackStage

def pushedOnly : CallbackStage → Nat
  | .pushed _ => 1
  | _ => 0

def acceptedOnly : CallbackStage → Nat
  | .pushed true => 1
  | _ => 0

def unpublished : CallbackStage → Nat
  | .counted => 1
  | _ => 0

def drainedOnly : CallbackStage → Nat
  | .drained n => n
  | _ => 0

end CallbackStage

def ConsumerStage.takenOnly : ConsumerStage → Nat
  | .idle => 0
  | .took => 1

namespace Pipeline

/-- Where every sample and every message is, given the samples that have been taken off the queue. -/
structure Balanced (taken : List Message) (p : Pipeline) (t : Throughput) : Prop where
  traffic : p.traffic = t.traffic
  dropped : p.bus.dropped = UInt64.ofNat t.dropped
  samples : t.samples = t.queued + t.rejected
  queue : t.queued + p.callback.acceptedOnly =
    t.consumed + p.consumer.takenOnly + p.queue.ring.toList.length
  consumed : taken.length = t.consumed + p.consumer.takenOnly
  bus : 2 * t.samples = t.received + p.callback.drainedOnly + t.dropped +
    p.bus.ring.toList.length + 2 * p.callback.unpublished
  sequence : ∃ next, p.sequence = UInt64.ofNat next ∧ t.samples = next + p.callback.unpublished
  /-- What has been taken and what is in the queue are samples in the order of their numbers. -/
  numbers : ∃ ns : List Nat, taken ++ p.queue.ring.toList = ns.map numbered ∧
    ns.Pairwise (· < ·) ∧ ∀ n ∈ ns, n < t.samples + p.callback.pushedOnly

theorem balanced_withSlots (queueSlots busSlots : Nat) :
    Balanced [] (withSlots queueSlots busSlots) .zero where
  traffic := rfl
  dropped := rfl
  samples := rfl
  queue := by simp [withSlots, SyncQueue.withSlots, Throughput.zero, CallbackStage.acceptedOnly,
    ConsumerStage.takenOnly]
  consumed := rfl
  bus := by simp [withSlots, Bus.withSlots, Throughput.zero, CallbackStage.drainedOnly,
    CallbackStage.unpublished]
  sequence := ⟨0, rfl, rfl⟩
  numbers := ⟨[], by simp [withSlots, SyncQueue.withSlots], .nil, nofun⟩

end Pipeline

/-! ## 3. Buffers -/

/-- What is sent is in the buffer afterwards, or a warning has been given and counted. -/
theorem Bus.send_balance (b : Bus) (m : Message) {k : Nat} (hk : b.dropped = UInt64.ofNat k) :
    (b.send m).2.dropped = UInt64.ofNat (k + (b.send m).1.toList.length) ∧
      (b.send m).1.toList.length + (b.send m).2.ring.toList.length = b.ring.toList.length + 1 := by
  have hpushed := b.ring.toList_push m
  rw [Bus.send]
  cases hpush : b.ring.push m with
  | mk accepted ring =>
    rw [hpush] at hpushed
    cases accepted with
    | true =>
      rw [if_pos rfl] at hpushed
      exact ⟨hk, by simp [hpushed]⟩
    | false =>
      refine ⟨?_, Nat.add_comm _ _⟩
      show b.dropped + 1 = _
      rw [hk, UInt64.ofNat_add]
      rfl

/-- What is sent is in the buffer afterwards, or has been dropped and counted. -/
theorem Bus.sendAll_balance (b : Bus) (ms : List Message) {k : Nat}
    (hk : b.dropped = UInt64.ofNat k) :
    (b.sendAll ms).2.dropped = UInt64.ofNat (k + (b.sendAll ms).1.length) ∧
      (b.sendAll ms).1.length + (b.sendAll ms).2.ring.toList.length =
        b.ring.toList.length + ms.length := by
  induction ms generalizing b k with
  | nil => exact ⟨hk, Nat.zero_add _⟩
  | cons m rest ih =>
    obtain ⟨hdropped, hlength⟩ := b.send_balance m hk
    obtain ⟨hdropped', hlength'⟩ := ih (b.send m).2 hdropped
    have hwarned : (b.sendAll (m :: rest)).1 =
        (b.send m).1.toList ++ ((b.send m).2.sendAll rest).1 := rfl
    have hleft : (b.sendAll (m :: rest)).2 = ((b.send m).2.sendAll rest).2 := rfl
    rw [hwarned, hleft, List.length_append, List.length_cons, ← Nat.add_assoc]
    exact ⟨hdropped', by omega⟩

theorem Bus.toList_drain (b : Bus) :
    b.drain.1 = b.ring.toList ∧ b.drain.2.ring.toList = [] ∧ b.drain.2.dropped = b.dropped := by
  obtain ⟨hall, hnone⟩ := b.ring.fifo_drain
  exact ⟨hall, congrArg Fifo.values hnone, rfl⟩

namespace Pipeline

/-! ## 4. One step -/

section

variable {taken : List Message} {p : Pipeline} {t : Throughput} (h : Balanced taken p t)

include h

/-- The number that is pushed is greater than all that have been pushed before. -/
theorem balanced_push (hidle : p.callback = .idle) : Balanced taken p.push t := by
  obtain ⟨queue, bus, traffic, sequence, callback, consumer⟩ := p
  cases hidle
  obtain ⟨next, hsequence, (hnext : t.samples = next)⟩ := h.sequence
  obtain ⟨ns, hns, hincreasing, hbelow⟩ := h.numbers
  have hqueue := h.queue
  let x : Message := .u64 sampleLabel sequence
  have hx : x = numbered next := congrArg (Message.u64 sampleLabel) hsequence
  have hpush : push ⟨queue, bus, traffic, sequence, .idle, consumer⟩ =
      ⟨⟨(queue.ring.push x).2⟩, bus, traffic, sequence, .pushed (queue.ring.push x).1, consumer⟩ := rfl
  have hvalues := queue.ring.toList_push x
  rw [hpush]
  cases haccepted : (queue.ring.push x).1 with
  | false =>
    rw [haccepted, if_neg Bool.false_ne_true, List.append_nil] at hvalues
    rw [← hvalues] at hns hqueue
    exact { h with
      queue := hqueue
      sequence := ⟨next, hsequence, hnext⟩
      numbers := ⟨ns, hns, hincreasing, fun n hn => Nat.lt_succ_of_lt (hbelow n hn)⟩ }
  | true =>
    rw [haccepted, if_pos rfl] at hvalues
    constructor
    case traffic => exact h.traffic
    case dropped => exact h.dropped
    case samples => exact h.samples
    case consumed => exact h.consumed
    case bus => exact h.bus
    case sequence => exact ⟨next, hsequence, hnext⟩
    case queue =>
      show _ + 1 = _ + (queue.ring.push x).2.toList.length
      rw [hvalues, List.length_append, List.length_singleton, ← Nat.add_assoc]
      exact congrArg (· + 1) hqueue
    case numbers =>
      -- The number of the sample is the count so far, and all before it are smaller.
      refine ⟨ns ++ [next], ?_, ?_, ?_⟩
      · show taken ++ (queue.ring.push x).2.toList = _
        rw [hvalues, ← List.append_assoc, hns, hx, List.map_append, List.map_singleton]
      · rw [List.pairwise_append]
        refine ⟨hincreasing, List.pairwise_singleton _ _, fun n hn m hm => ?_⟩
        rw [List.mem_singleton.1 hm]
        exact hnext ▸ hbelow n hn
      · intro n hn
        show n < t.samples + 1
        rcases List.mem_append.1 hn with hn | hn
        · exact Nat.lt_succ_of_lt (hbelow n hn)
        · rw [List.mem_singleton.1 hn, hnext]
          exact Nat.lt_succ_self next

theorem balanced_count {accepted : Bool} (hpushed : p.callback = .pushed accepted) :
    Balanced taken (p.count accepted) (t.note p .count) := by
  obtain ⟨queue, bus, traffic, sequence, callback, consumer⟩ := p
  cases hpushed
  obtain ⟨next, hsequence, hnext⟩ := h.sequence
  have htraffic : traffic = t.traffic := h.traffic
  have hsamples := h.samples
  have hbus : 2 * t.samples = t.received + t.dropped + bus.ring.toList.length := h.bus
  cases accepted with
  | false =>
    exact { h with
      traffic := by
        show (traffic.recordSample false).2 = _
        rw [htraffic]
        exact t.traffic_count rfl
      samples := congrArg (· + 1) hsamples
      bus := by
        show 2 * (t.samples + 1) = t.received + t.dropped + bus.ring.toList.length + 2
        omega
      sequence := ⟨next, hsequence, congrArg (· + 1) hnext⟩ }
  | true =>
    exact { h with
      traffic := by
        show (traffic.recordSample true).2 = _
        rw [htraffic]
        exact t.traffic_count rfl
      samples := by
        show t.samples + 1 = t.queued + 1 + t.rejected
        omega
      bus := by
        show 2 * (t.samples + 1) = t.received + t.dropped + bus.ring.toList.length + 2
        omega
      sequence := ⟨next, hsequence, congrArg (· + 1) hnext⟩ }

/-- Two messages are sent, and those that are not in the bus afterwards have been dropped. -/
theorem balanced_publish (hcounted : p.callback = .counted) (delta : Float) :
    Balanced taken (p.publish delta).2 (t.note p (.publish delta)) := by
  obtain ⟨queue, bus, traffic, sequence, callback, consumer⟩ := p
  cases hcounted
  obtain ⟨next, hsequence, hnext⟩ := h.sequence
  have hbus : 2 * t.samples = t.received + t.dropped + bus.ring.toList.length + 2 := h.bus
  let ms : List Message := [.u64 sampleLabel sequence, .f64 deltaLabel delta]
  obtain ⟨hdropped, hlength⟩ := bus.sendAll_balance ms h.dropped
  have hpublish : (publish ⟨queue, bus, traffic, sequence, .counted, consumer⟩ delta).2 =
      ⟨queue, (bus.sendAll ms).2, traffic, sequence + 1, .idle, consumer⟩ := rfl
  have hnote : t.note ⟨queue, bus, traffic, sequence, .counted, consumer⟩ (.publish delta) =
      { t with dropped := t.dropped + (bus.sendAll ms).1.length } := rfl
  rw [hpublish, hnote]
  have hcount : ms.length = 2 := rfl
  rw [hcount] at hlength
  generalize bus.sendAll ms = sent at hdropped hlength
  exact { h with
    dropped := hdropped
    bus := by
      show 2 * t.samples = t.received + (t.dropped + sent.1.length) + sent.2.ring.toList.length
      omega
    sequence := by
      refine ⟨next + 1, ?_, hnext⟩
      show sequence + 1 = _
      rw [UInt64.ofNat_add, ← hsequence]
      rfl }

/-- What is drained has left the bus and is about to be counted. -/
theorem balanced_drain (hidle : p.callback = .idle) : Balanced taken p.drain.2 t := by
  obtain ⟨queue, bus, traffic, sequence, callback, consumer⟩ := p
  cases hidle
  have hbus : 2 * t.samples = t.received + t.dropped + bus.ring.toList.length := h.bus
  obtain ⟨hall, hnone, hdropped⟩ := bus.toList_drain
  have hdrain : (drain ⟨queue, bus, traffic, sequence, .idle, consumer⟩).2 =
      ⟨queue, bus.drain.2, traffic, sequence, .drained bus.drain.1.length, consumer⟩ := rfl
  rw [hdrain, hall]
  generalize bus.drain.2 = rest at hnone hdropped
  exact { h with
    dropped := hdropped.trans h.dropped
    bus := by
      show 2 * t.samples = t.received + bus.ring.toList.length + t.dropped + rest.ring.toList.length
      rw [hnone, List.length_nil]
      omega }

theorem balanced_countDrained {n : Nat} (hdrained : p.callback = .drained n) :
    Balanced taken (p.countDrained n) (t.note p .countDrained) := by
  obtain ⟨queue, bus, traffic, sequence, callback, consumer⟩ := p
  cases hdrained
  have htraffic : traffic = t.traffic := h.traffic
  exact { h with
    traffic := by
      show traffic.recordBusReceived (UInt64.ofNat n) = _
      simp only [htraffic, Traffic.recordBusReceived, Throughput.traffic, Throughput.note,
        UInt64.ofNat_add] }

/-- The sample that is taken is the first one in the queue. -/
theorem balanced_take (hidle : p.consumer = .idle) :
    Balanced (taken ++ p.take.1.toList) p.take.2 t := by
  obtain ⟨queue, bus, traffic, sequence, callback, consumer⟩ := p
  cases hidle
  obtain ⟨ns, hns, hincreasing, hbelow⟩ := h.numbers
  have hqueue := h.queue
  have hvalues := queue.ring.pull_append
  rw [take, SyncQueue.take]
  -- With nothing in the queue nothing is taken, and nothing changes.
  cases hpull : queue.ring.pull with
  | mk first ring =>
    cases first with
    | none => exact (List.append_nil taken).symm ▸ h
    | some m =>
      rw [hpull] at hvalues
      rw [← hvalues] at hns hqueue
      exact { h with
        queue := by
          simp only [ConsumerStage.takenOnly, Option.toList_some, List.length_append,
            List.length_singleton] at hqueue ⊢
          omega
        consumed := by
          have hconsumed : taken.length = t.consumed := h.consumed
          show (taken ++ [m]).length = t.consumed + 1
          rw [List.length_append, List.length_singleton, hconsumed]
        numbers := ⟨ns, (List.append_assoc _ _ _).trans hns, hincreasing, hbelow⟩ }

theorem balanced_countTaken (htook : p.consumer = .took) :
    Balanced taken p.countTaken (t.note p .countTaken) := by
  obtain ⟨queue, bus, traffic, sequence, callback, consumer⟩ := p
  cases htook
  have htraffic : traffic = t.traffic := h.traffic
  exact { h with
    traffic := by
      show traffic.recordConsumed = _
      simp only [htraffic, Traffic.recordConsumed, Throughput.traffic, Throughput.note,
        UInt64.ofNat_add]
      rfl }

/-- Whatever the next step is, nothing gets lost and nothing is counted twice. -/
theorem balanced_step {s : Step} {out : Option Message} {p' : Pipeline}
    (hstep : p.step? s = some (out, p')) : Balanced (taken ++ out.toList) p' (t.note p s) := by
  -- Only the consumer's steps have something to hand out.
  have hsilent : Balanced taken p' (t.note p s) → out = none →
      Balanced (taken ++ out.toList) p' (t.note p s) := by
    rintro hp' rfl
    exact (List.append_nil taken).symm ▸ hp'
  cases s with
  | push =>
    obtain ⟨hidle, heq⟩ := Option.ite_none_right_eq_some.1 hstep
    cases heq
    exact hsilent (balanced_push h hidle) rfl
  | count =>
    rw [step?] at hstep
    split at hstep
    · rename_i accepted hpushed
      cases hstep
      exact hsilent (balanced_count h hpushed) rfl
    · cases hstep
  | publish delta =>
    obtain ⟨hcounted, heq⟩ := Option.ite_none_right_eq_some.1 hstep
    cases heq
    exact hsilent (balanced_publish h hcounted delta) rfl
  | drain =>
    obtain ⟨hidle, heq⟩ := Option.ite_none_right_eq_some.1 hstep
    cases heq
    exact hsilent (balanced_drain h hidle) rfl
  | countDrained =>
    rw [step?] at hstep
    split at hstep
    · rename_i n hdrained
      cases hstep
      exact hsilent (balanced_countDrained h hdrained) rfl
    · cases hstep
  | take =>
    obtain ⟨hidle, heq⟩ := Option.ite_none_right_eq_some.1 hstep
    have htake := balanced_take h hidle
    rw [Option.some.inj heq] at htake
    exact htake
  | countTaken =>
    obtain ⟨htook, heq⟩ := Option.ite_none_right_eq_some.1 hstep
    cases heq
    exact hsilent (balanced_countTaken h htook) rfl

theorem balanced_meter {steps : List Step} {more : List Message} {p' : Pipeline} {t' : Throughput}
    (hmeter : p.meter t steps = some (more, p', t')) : Balanced (taken ++ more) p' t' := by
  induction steps generalizing taken p t more with
  | nil =>
    cases hmeter
    exact (List.append_nil taken).symm ▸ h
  | cons s rest ih =>
    obtain ⟨⟨out, q⟩, hstep, hrest⟩ := Option.bind_eq_some_iff.1 hmeter
    obtain ⟨⟨later, last⟩, hlater, heq⟩ := Option.bind_eq_some_iff.1 hrest
    cases heq
    rw [← List.append_assoc]
    exact ih (balanced_step h hstep) hlater

/-- Numbers in the range of the counter keep their order as its values. -/
theorem Balanced.values (hidle : p.callback = .idle) (hrange : t.samples ≤ maxWord + 1) :
    ∃ values : List UInt64, taken = values.map (Message.u64 sampleLabel) ∧
      values.Pairwise (· < ·) ∧ ∀ v ∈ values, v.toNat < t.samples := by
  obtain ⟨ns, hns, hincreasing, hbelow⟩ := h.numbers
  rw [hidle] at hbelow
  obtain ⟨before, after, rfl, hbefore, -⟩ := List.append_eq_map_iff.1 hns
  have htoNat : ∀ n ∈ before, (UInt64.ofNat n).toNat = n := by
    intro n hn
    have hlt := hbelow n (List.mem_append_left _ hn)
    rw [UInt64.toNat_ofNat', Nat.mod_eq_of_lt]
    exact Nat.lt_of_lt_of_le hlt hrange
  refine ⟨before.map UInt64.ofNat, ?_, ?_, ?_⟩
  · rw [← hbefore, List.map_map]
    rfl
  · rw [List.pairwise_map]
    refine (List.pairwise_append.1 hincreasing).1.imp_of_mem fun {n m} hn hm hlt => ?_
    rw [UInt64.lt_iff_toNat_lt, htoNat n hn, htoNat m hm]
    exact hlt
  · intro v hv
    obtain ⟨n, hn, rfl⟩ := List.mem_map.1 hv
    rw [htoNat n hn]
    exact hbelow n (List.mem_append_left _ hn)

end

/-! ## 5. The report -/

structure Settled (p : Pipeline) : Prop where
  samples : p.traffic.samples.toNat = p.traffic.queued.toNat + p.traffic.queueRejected.toNat
  queue : p.traffic.queued.toNat = p.traffic.consumed.toNat + p.queue.length
  bus : 2 * p.traffic.samples.toNat =
    p.traffic.busReceived.toNat + p.bus.dropped.toNat + p.bus.length

theorem toNat_ofNat_of_le {n : Nat} (h : n ≤ maxWord) : (UInt64.ofNat n).toNat = n := by
  rw [UInt64.toNat_ofNat', Nat.mod_eq_of_lt]
  exact Nat.lt_succ_of_le h

/-- With nothing in progress, the totals balance: samples are accepted or rejected, those that were
accepted are consumed or still queued, and of two messages for each sample every one is received,
dropped or still on the bus.  The counters are the totals modulo `2 ^ 64`, so they balance while
none of them has wrapped, and the samples that are consumed come in the order of their numbers. -/
theorem report_balances (queueSlots busSlots : Nat) {steps : List Step} {taken : List Message}
    {p : Pipeline} {t : Throughput}
    (hmeter : (withSlots queueSlots busSlots).meter .zero steps = some (taken, p, t))
    (hcallback : p.callback = .idle) (hconsumer : p.consumer = .idle) :
    p.traffic = t.traffic ∧ p.bus.dropped = UInt64.ofNat t.dropped ∧
      t.samples = t.queued + t.rejected ∧
      t.queued = t.consumed + p.queue.length ∧ taken.length = t.consumed ∧
      2 * t.samples = t.received + t.dropped + p.bus.length ∧
      (t.Fits → Settled p ∧ ∃ values : List UInt64, taken = values.map (Message.u64 sampleLabel) ∧
        values.Pairwise (· < ·) ∧ ∀ v ∈ values, v < p.traffic.samples) := by
  have h : Balanced taken p t := balanced_meter (balanced_withSlots queueSlots busSlots) hmeter
  have htraffic := h.traffic
  have hdropped := h.dropped
  have hsamples := h.samples
  have hqueue := h.queue
  have hconsumed := h.consumed
  have hbus := h.bus
  rw [hcallback, hconsumer, Ring.length_toList] at hqueue
  rw [hconsumer] at hconsumed
  rw [hcallback, Ring.length_toList] at hbus
  refine ⟨htraffic, hdropped, hsamples, hqueue, hconsumed, hbus, fun hfits => ?_⟩
  have hsamples_eq : p.traffic.samples.toNat = t.samples := by
    rw [htraffic]
    exact toNat_ofNat_of_le hfits.samples
  -- The counters have not wrapped, so they are the totals.
  constructor
  · have hle := hfits.samples
    have hqueue' : t.queued = t.consumed + p.queue.length := hqueue
    have hbus' : 2 * t.samples = t.received + t.dropped + p.bus.length := hbus
    have hqueued_eq : p.traffic.queued.toNat = t.queued := by
      rw [htraffic]
      exact toNat_ofNat_of_le (by omega)
    have hrejected_eq : p.traffic.queueRejected.toNat = t.rejected := by
      rw [htraffic]
      exact toNat_ofNat_of_le (by omega)
    have hconsumed_eq : p.traffic.consumed.toNat = t.consumed := by
      rw [htraffic]
      exact toNat_ofNat_of_le (by omega)
    have hreceived_eq : p.traffic.busReceived.toNat = t.received := by
      rw [htraffic]
      exact toNat_ofNat_of_le hfits.received
    have hdropped_eq : p.bus.dropped.toNat = t.dropped := by
      rw [hdropped]
      exact toNat_ofNat_of_le hfits.dropped
    exact ⟨by omega, by omega, by omega⟩
  · obtain ⟨values, hvalues, hincreasing, hbelow⟩ :=
      h.values hcallback (Nat.le_succ_of_le hfits.samples)
    refine ⟨values, hvalues, hincreasing, fun v hv => ?_⟩
    rw [UInt64.lt_iff_toNat_lt, hsamples_eq]
    exact hbelow v hv

/-- Four samples with a queue that holds one and a bus that holds three messages.  The consumer takes the
first sample before it is counted, and the third one is rejected. -/
def crossedSteps : List Step :=
  [.push, .take, .count, .publish 0.01, .countTaken, .push, .count, .publish 0.01,
    .push, .count, .publish 0.01, .drain, .take, .countDrained, .push, .countTaken, .count, .take,
    .publish 0.01, .countTaken]

/-- The consumer has counted three samples and the callbacks four, one of which the queue has
refused; of eight messages three have been drained and three dropped, and two are left. -/
theorem report_balances_of_crossed_steps :
    ∃ p t, (withSlots 2 4).meter .zero crossedSteps =
        some ([numbered 0, numbered 1, numbered 3], p, t) ∧
      p.traffic = ⟨4, 3, 1, 3, 3⟩ ∧ p.bus.dropped = 3 ∧ p.bus.length = 2 ∧ Settled p := by
  have hrun : ∃ p t, (withSlots 2 4).meter .zero crossedSteps =
        some ([numbered 0, numbered 1, numbered 3], p, t) ∧
      p.callback = .idle ∧ p.consumer = .idle ∧
      p.traffic = ⟨4, 3, 1, 3, 3⟩ ∧ p.bus.dropped = 3 ∧ p.bus.length = 2 ∧
      t.samples = 4 ∧ t.received = 3 ∧ t.dropped = 3 := by
    refine ⟨_, _, rfl, ?_⟩
    decide +kernel
  obtain ⟨p, t, hmeter, hcallback, hconsumer, htraffic, hdropped, hlength, hsamples, hreceived,
    hlost⟩ := hrun
  obtain ⟨-, -, -, -, -, -, hfits⟩ := report_balances 2 4 hmeter hcallback hconsumer
  have hsettled := hfits ⟨hsamples ▸ by decide, hreceived ▸ by decide, hlost ▸ by decide⟩
  exact ⟨p, t, hmeter, htraffic, hdropped, hlength, hsettled.1⟩

end Pipeline

end Cadence
